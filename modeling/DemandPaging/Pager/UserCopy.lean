import DemandPaging.Pager.Loading
/-!
# Copying to and from user memory

A range of user memory is copied page by page. Each page is loaded if need be and
pinned while its bytes are copied, and the copy sets the flags that the hardware
would have set. A copy that fails at some page has done all pages before it.

`chunks` cuts a range at page boundaries; `totalCount_chunks` says that nothing of
it is lost. A copy uses the bytes of a page by their position, and a position beyond
the page would stop the system: a chunk carries the fact that it has none.

In the kernel `readUser` is `copy_from_user`, `writeUser` is `copy_to_user`, `fetchUser` is
`check_and_copy_user_memory`, and `readChunks` and `writeChunks` are the two uses of
`for_each_user_chunk`.
-/

namespace DemandPaging

open PagerAction

variable {n : Nat}

/-- The part of a range that lies in one page. -/
structure Chunk where
  upage : Nat
  start : Nat
  count : Nat
  fits : start + count ≤ pageSize
  deriving DecidableEq, Repr

/-- Whether user code could own the `length` bytes from `address` on. -/
def IsUserRange (address length : Nat) : Prop := address ≠ 0 ∧ address + length ≤ userTop

instance (address length : Nat) : Decidable (IsUserRange address length) :=
  inferInstanceAs (Decidable (_ ∧ _))

/-- How many of the `length` bytes from `address` on lie in the first page. -/
def firstCount (address length : Nat) : Nat := min (pageSize - offsetInPage address) length

theorem firstCount_fits (address length : Nat) :
    offsetInPage address + firstCount address length ≤ pageSize := by
  have := offsetInPage_lt address
  unfold firstCount
  omega

/-- The part of a range in its first page. -/
def Chunk.first (address length : Nat) : Chunk :=
  ⟨pageBase address, offsetInPage address, firstCount address length,
    firstCount_fits address length⟩

@[simp] theorem Chunk.upage_first (address length : Nat) :
    (first address length).upage = pageBase address := rfl

@[simp] theorem Chunk.start_first (address length : Nat) :
    (first address length).start = offsetInPage address := rfl

@[simp] theorem Chunk.count_first (address length : Nat) :
    (first address length).count = firstCount address length := rfl

/-- Cut a range into the chunks of its first `pages` pages. -/
def chunksOfPages : (pages address length : Nat) → List Chunk
  | 0, _, _ => []
  | pages + 1, address, length =>
    let count := firstCount address length
    Chunk.first address length :: chunksOfPages pages (address + count) (length - count)

/-- Cut the `length` bytes from `address` on at page boundaries. -/
def chunks (address length : Nat) : List Chunk :=
  if length = 0 then [] else
    chunksOfPages (pagesFor (offsetInPage address + length)) address length

/-- How many bytes chunks have together. -/
def totalCount : List Chunk → Nat
  | [] => 0
  | c :: rest => c.count + totalCount rest

/-- Pin a page for a copy. An address without a page is a bad one. -/
def pinForCopy (id : SpaceId) (upage : Nat) : PagerAction n (Fin n) := do
  match ← attempt (pinResident id upage) with
  | .error .notFound => fail .badAddress
  | result => ofResult result

/-- Copy a chunk out of user memory. -/
def readChunk (id : SpaceId) (c : Chunk) : PagerAction n Bytes := do
  let i ← pinForCopy id c.upage
  let page ← read (·.page i)
  let bytes ← ofFatal (page.part c.start c.count)
  update fun p => p.updateDirectory id (·.setFlag .accessed c.upage true)
  unpin id c.upage
  return bytes

/-- Copy bytes into a chunk of user memory, which must be writable. -/
def writeChunk (id : SpaceId) (c : Chunk) (bytes : Bytes) : PagerAction n Unit := do
  let i ← pinForCopy id c.upage
  if ← read fun p => (p.space id).directory.writable c.upage then
    let page ← read (·.page i)
    let written ← ofFatal (page.patch c.start bytes)
    update fun p => p.writePage i written
    update fun p => p.updateDirectory id fun d =>
      (d.setFlag .accessed c.upage true).setFlag .dirty c.upage true
    unpin id c.upage
  else
    unpin id c.upage
    fail .readOnly

/-- No chunk reads beyond its page. -/
theorem readChunk_eq (id : SpaceId) (c : Chunk) :
    (readChunk id c : PagerAction n Bytes) = do
      let i ← pinForCopy id c.upage
      let bytes ← read fun p => (p.page i).slice c.start c.count
      update fun p => p.updateDirectory id (·.setFlag .accessed c.upage true)
      unpin id c.upage
      return bytes := by
  simp only [readChunk, Page.part_of_fits c.fits]
  rfl

/-- Bytes that fit in the page are not written beyond it. -/
theorem writeChunk_of_fits {c : Chunk} {bytes : Bytes} (h : c.start + bytes.length ≤ pageSize)
    (id : SpaceId) :
    (writeChunk id c bytes : PagerAction n Unit) = (do
      let i ← pinForCopy id c.upage
      if ← read fun p => (p.space id).directory.writable c.upage then
        update fun p => p.writePage i ((p.page i).overwrite c.start bytes)
        update fun p => p.updateDirectory id fun d =>
          (d.setFlag .accessed c.upage true).setFlag .dirty c.upage true
        unpin id c.upage
      else
        unpin id c.upage
        fail .readOnly) := by
  simp only [writeChunk, Page.patch_of_fits h]
  rfl

/-- What a copy out of user memory brought: the bytes up to the first page that
failed, and how it ended. -/
structure Copied where
  bytes : Bytes
  result : Except PagingError Unit

/-- Copy chunks out of user memory behind the bytes in hand. -/
def readChunks (id : SpaceId) : List Chunk → Bytes → PagerAction n Copied
  | [], bytes => return ⟨bytes, .ok ()⟩
  | c :: rest, bytes => do
    match ← attempt (readChunk id c) with
    | .ok more => readChunks id rest (bytes ++ more)
    | .error e => return ⟨bytes, .error e⟩

/-- Copy the beginning of `bytes` into each chunk of user memory in turn. -/
def writeChunks (id : SpaceId) : List Chunk → Bytes → PagerAction n Unit
  | [], _ => return
  | c :: rest, bytes => do
    writeChunk id c (bytes.take c.count)
    writeChunks id rest (bytes.drop c.count)

/-- Copy `length` bytes at `address` out of user memory. -/
def readUser (id : SpaceId) (address length : Nat) : PagerAction n Copied :=
  if IsUserRange address length then readChunks id (chunks address length) []
  else return ⟨[], .error .badAddress⟩

/-- Copy `length` bytes at `address` out of user memory, all or none. -/
def fetchUser (id : SpaceId) (address length : Nat) : PagerAction n Bytes := do
  let copied ← readUser id address length
  ofResult copied.result
  return copied.bytes

/-- Copy `bytes` into user memory at `address`. -/
def writeUser (id : SpaceId) (address : Nat) (bytes : Bytes) : PagerAction n Unit :=
  if IsUserRange address bytes.length then writeChunks id (chunks address bytes.length) bytes
  else fail .badAddress

theorem readUser_of_range {address length : Nat} (h : IsUserRange address length) (id : SpaceId) :
    (readUser id address length : PagerAction n Copied)
      = readChunks id (chunks address length) [] := if_pos h

theorem writeUser_of_range {address : Nat} {bytes : Bytes} (h : IsUserRange address bytes.length)
    (id : SpaceId) :
    (writeUser id address bytes : PagerAction n Unit)
      = writeChunks id (chunks address bytes.length) bytes := if_pos h

theorem chunks_zero (address : Nat) : chunks address 0 = [] := rfl

theorem firstCount_pos (address : Nat) {length : Nat} (h : length ≠ 0) :
    0 < firstCount address length := by
  have := offsetInPage_lt address
  unfold firstCount
  omega

/-- A range is its part in the first page and the chunks of what is left. -/
theorem chunks_of_ne_zero {address length : Nat} (h : length ≠ 0) :
    chunks address length
      = Chunk.first address length :: chunks (address + firstCount address length)
            (length - firstCount address length) := by
  have hlt := offsetInPage_lt address
  have hpos := firstCount_pos address h
  have hsplit := pageBase_add_offsetInPage address
  rw [chunks, if_neg h, chunks]
  by_cases hin : offsetInPage address + length ≤ pageSize
  · have hone : pagesFor (offsetInPage address + length) = 1 := by
      simp only [pagesFor, pageSize] at *
      omega
    have hall : firstCount address length = length := by
      unfold firstCount
      omega
    rw [hone, chunksOfPages, chunksOfPages, hall, if_pos (Nat.sub_self length)]
  · have hfill : firstCount address length = pageSize - offsetInPage address := by
      unfold firstCount
      omega
    have hzero : offsetInPage (address + firstCount address length) = 0 := by
      rw [hfill]
      simp only [offsetInPage, pageSize] at *
      omega
    have hnext : pagesFor (offsetInPage address + length)
        = pagesFor (length - firstCount address length) + 1 := by
      rw [hfill]
      simp only [pagesFor, pageSize] at *
      omega
    rw [hnext, chunksOfPages, if_neg (by omega), hzero, Nat.zero_add]

theorem totalCount_append (front rest : List Chunk) :
    totalCount (front ++ rest) = totalCount front + totalCount rest := by
  induction front with
  | nil => exact (Nat.zero_add _).symm
  | cons c front ih =>
    show c.count + totalCount (front ++ rest) = c.count + totalCount front + totalCount rest
    rw [ih, Nat.add_assoc]

/-- The chunks of a range make up the whole range. -/
theorem totalCount_chunks (address length : Nat) : totalCount (chunks address length) = length := by
  induction length using Nat.strongRecOn generalizing address with
  | ind length ih =>
    by_cases h : length = 0
    · subst h
      rfl
    · have hpos := firstCount_pos address h
      have hle : firstCount address length ≤ length := Nat.min_le_right _ _
      rw [chunks_of_ne_zero h, totalCount, ih _ (by omega)]
      exact Nat.add_sub_cancel' hle

/-- Every chunk of a range is part of a page, and is not empty. -/
theorem bounds_of_mem_chunks {address length : Nat} {c : Chunk} (h : c ∈ chunks address length) :
    PageAligned c.upage ∧ 0 < c.count := by
  induction length using Nat.strongRecOn generalizing address with
  | ind length ih =>
    by_cases hne : length = 0
    · subst hne
      simp [chunks_zero] at h
    · have hpos := firstCount_pos address hne
      rw [chunks_of_ne_zero hne] at h
      rcases List.mem_cons.mp h with rfl | h
      · exact ⟨pageAligned_pageBase address, hpos⟩
      · exact ih _ (by omega) h

/-- The bytes that are taken for a chunk lie in its page. -/
theorem Chunk.fits_take (c : Chunk) (bytes : Bytes) :
    c.start + (bytes.take c.count).length ≤ pageSize := by
  have hfits := c.fits
  rw [List.length_take]
  omega

end DemandPaging
