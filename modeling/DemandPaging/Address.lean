/-!
# Addresses and page arithmetic

An address is a natural number: every address the pager meets is compared with a
limit below `2 ^ 32` before anything is added to it, so that no sum of addresses
leaves a machine word. Where a number can leave its word, `Overflow` says what
comes of it. A page is `pageSize` bytes; user space is everything below `userTop`.

`pageBase_add_offsetInPage` splits an address into its page and its place in the
page, and the remaining lemmas say that a page base is aligned and its own base.

In the kernel `userTop` is `OFFSET`, `pageSize` is `PAGE_FRAME_SIZE`, `defaultStackLimit`
is `USER_STACK_LIMIT`, `pageBase` is `page_round_down`, `offsetInPage` is `page_offset`,
`PageAligned` is `is_page_aligned`, `IsUserAddress` is `is_user_vaddr` and `pagesFor` is
`pages_spanned`.
-/

namespace DemandPaging

/-- One kibibyte in bytes. -/
def kib : Nat := 1024

/-- One mebibyte in bytes. -/
def mib : Nat := kib * kib

/-- Bytes in one sector of a block device. -/
def sectorSize : Nat := 512

/-- Bytes in one page and in one page frame. -/
def pageSize : Nat := 4096

/-- Sectors needed to hold one page. -/
def sectorsPerPage : Nat := 8

/-- The first address that does not belong to user space. -/
def userTop : Nat := 0x80000000

/-- How far below `userTop` a user stack may grow unless configured otherwise. -/
def defaultStackLimit : Nat := 8 * mib

theorem sectorsPerPage_mul_sectorSize : sectorsPerPage * sectorSize = pageSize := by decide

/-- Each byte of a page lies in one of its sectors. -/
theorem div_sectorSize_lt {i : Nat} (h : i < pageSize) : i / sectorSize < sectorsPerPage := by
  rw [← sectorsPerPage_mul_sectorSize, Nat.mul_comm] at h
  exact Nat.div_lt_of_lt_mul h

theorem pageSize_pos : 0 < pageSize := by decide

/-- The first address of the page that holds `address`. -/
def pageBase (address : Nat) : Nat := address / pageSize * pageSize

/-- The position of `address` inside its page. -/
def offsetInPage (address : Nat) : Nat := address % pageSize

/-- The number of the page that holds `address`. -/
def pageNumber (address : Nat) : Nat := address / pageSize

/-- An address is aligned when it is the first of its page. -/
def PageAligned (address : Nat) : Prop := offsetInPage address = 0

instance (address : Nat) : Decidable (PageAligned address) :=
  inferInstanceAs (Decidable (offsetInPage address = 0))

/-- User space is the part of the address range below `userTop`. -/
def IsUserAddress (address : Nat) : Prop := address < userTop

instance (address : Nat) : Decidable (IsUserAddress address) :=
  inferInstanceAs (Decidable (address < userTop))

/-- How many pages it takes to hold `bytes` bytes. -/
def pagesFor (bytes : Nat) : Nat := (bytes + (pageSize - 1)) / pageSize

/-- The bases of `count` consecutive pages from `base` on. -/
def pageRange (base count : Nat) : List Nat :=
  (List.range count).map fun i => base + i * pageSize

theorem pageBase_add_offsetInPage (address : Nat) :
    pageBase address + offsetInPage address = address :=
  Nat.div_add_mod' address pageSize

theorem offsetInPage_lt (address : Nat) : offsetInPage address < pageSize :=
  Nat.mod_lt _ pageSize_pos

theorem pageAligned_pageBase (address : Nat) : PageAligned (pageBase address) :=
  Nat.mul_mod_left (address / pageSize) pageSize

theorem PageAligned.pageBase_eq {address : Nat} (h : PageAligned address) :
    pageBase address = address := by
  have hsplit := pageBase_add_offsetInPage address
  rwa [show offsetInPage address = 0 from h, Nat.add_zero] at hsplit

theorem mem_pageRange {base count upage : Nat} :
    upage ∈ pageRange base count ↔ ∃ i, i < count ∧ upage = base + i * pageSize := by
  simp [pageRange, eq_comm]

end DemandPaging
