import DemandPaging.Address
import DemandPaging.Failure
/-!
# Byte strings and pages

`Bytes` is a byte string of any length, `Page` one of exactly `pageSize` bytes.
Both have one way to write into them: `overwrite` puts a patch over the bytes from
a given position on. A byte string grows to hold the patch, with zeros in the gap;
a page keeps its length and drops what does not fit.

A byte string is read at a position with `[i]?`. `getElem?_overwrite` and
`getElem?_slice` say what is read after a write and in a part.

Whoever uses a part of a page by its position uses `part` and `patch`, which stop the
system at a position beyond the page.

In the kernel a page is an array of bytes and a file a vector of them; `part` and `patch`
are slices of the array, and `clearFrom` fills the rest of it.
-/

namespace DemandPaging

/-- A byte string. -/
abbrev Bytes := List UInt8

namespace Bytes

/-- A byte string of zeros. -/
def zeros (count : Nat) : Bytes := List.replicate count 0

/-- Put `patch` over the bytes from `start` on. A byte string that ends before
`start` is first filled up with zeros. -/
def overwrite (bytes : Bytes) (start : Nat) (patch : Bytes) : Bytes :=
  let front := bytes.take start
  front ++ zeros (start - front.length) ++ patch ++ bytes.drop (start + patch.length)

/-- The `count` bytes from `start` on, or as many of them as there are. -/
def slice (bytes : Bytes) (start count : Nat) : Bytes := (bytes.drop start).take count

theorem length_zeros (count : Nat) : (zeros count).length = count := List.length_replicate

theorem getElem?_zeros (count i : Nat) :
    (zeros count)[i]? = if i < count then some 0 else none := List.getElem?_replicate

/-- A byte string grows just enough to hold the patch and never shrinks. -/
theorem length_overwrite (bytes : Bytes) (start : Nat) (patch : Bytes) :
    (overwrite bytes start patch).length = max bytes.length (start + patch.length) := by
  simp only [overwrite, List.length_append, List.length_take, List.length_drop, length_zeros]
  omega

/-- Inside the patch one reads the patch, in the gap zeros, elsewhere the old bytes. -/
theorem getElem?_overwrite (bytes : Bytes) (start : Nat) (patch : Bytes) (i : Nat) :
    (overwrite bytes start patch)[i]?
      = if start ≤ i ∧ i < start + patch.length then patch[i - start]?
        else if bytes.length ≤ i ∧ i < start then some 0
        else bytes[i]? := by
  have hleft : (bytes.take start ++ zeros (start - (bytes.take start).length)).length = start := by
    simp only [List.length_append, List.length_take, length_zeros]
    omega
  unfold overwrite
  rw [List.append_assoc, List.getElem?_append, hleft]
  by_cases hi : i < start
  · rw [if_pos hi, if_neg (by omega), List.getElem?_append, List.length_take]
    by_cases hlen : i < bytes.length
    · rw [if_pos (by omega), if_neg (by omega), List.getElem?_take_of_lt hi]
    · rw [if_neg (by omega), if_pos (by omega), getElem?_zeros, if_pos (by omega)]
  · rw [if_neg hi, List.getElem?_append]
    by_cases hpatch : i - start < patch.length
    · rw [if_pos hpatch, if_pos (by omega)]
    · rw [if_neg hpatch, if_neg (by omega), if_neg (by omega), List.getElem?_drop]
      congr 1
      omega

theorem length_slice (bytes : Bytes) (start count : Nat) :
    (slice bytes start count).length = min count (bytes.length - start) := by
  simp only [slice, List.length_take, List.length_drop]

/-- What holds at each place of two parts holds at each place of the whole. -/
theorem forall_getElem?_append {P : Nat → Option UInt8 → Prop} {first more : Bytes}
    (hfirst : ∀ i, i < first.length → P i first[i]?)
    (hmore : ∀ i, i < more.length → P (first.length + i) more[i]?) :
    ∀ i, i < (first ++ more).length → P i (first ++ more)[i]? := by
  intro i hi
  rw [List.length_append] at hi
  by_cases hin : i < first.length
  · rw [List.getElem?_append_left hin]
    exact hfirst i hin
  · have hle := Nat.not_lt.mp hin
    have h := hmore (i - first.length) (by omega)
    rwa [Nat.add_sub_cancel' hle, ← List.getElem?_append_right hle] at h

theorem getElem?_slice (bytes : Bytes) (start count i : Nat) :
    (slice bytes start count)[i]? = if i < count then bytes[start + i]? else none := by
  unfold slice
  rw [List.getElem?_take]
  split
  · rw [List.getElem?_drop]
  · rfl

end Bytes

/-- The contents of one page. -/
structure Page where
  bytes : Bytes
  length_bytes : bytes.length = pageSize

namespace Page

/-- A byte string cut, or filled up with zeros, to the length of a page. -/
def ofBytes (bytes : Bytes) : Page :=
  ⟨bytes.take pageSize ++ Bytes.zeros (pageSize - bytes.length), by
    simp only [List.length_append, List.length_take, Bytes.length_zeros]
    omega⟩

/-- The page of zeros. -/
def zero : Page := ⟨Bytes.zeros pageSize, Bytes.length_zeros pageSize⟩

instance : Inhabited Page := ⟨zero⟩

/-- The page with `patch` over the bytes from `start` on. -/
def overwrite (page : Page) (start : Nat) (patch : Bytes) : Page :=
  ofBytes (Bytes.overwrite page.bytes start patch)

/-- The page with zeros from `start` on. -/
def clearFrom (page : Page) (start : Nat) : Page := ofBytes (page.bytes.take start)

/-- The `count` bytes of a page from `start` on. -/
def slice (page : Page) (start count : Nat) : Bytes := Bytes.slice page.bytes start count

/-- The `count` bytes of a page from `start` on, which must be bytes of the page. -/
def part (page : Page) (start count : Nat) : Except Fatal Bytes :=
  if start + count ≤ pageSize then .ok (page.slice start count)
  else .error (.indexOutOfRange (start + count) pageSize)

/-- The page with `patch` over the bytes from `start` on, all of which must be bytes of the page. -/
def patch (page : Page) (start : Nat) (patch : Bytes) : Except Fatal Page :=
  if start + patch.length ≤ pageSize then .ok (page.overwrite start patch)
  else .error (.indexOutOfRange (start + patch.length) pageSize)

/-- The part of a page that goes to its `k`-th sector. -/
def sector (page : Page) (k : Nat) : Bytes := page.slice (k * sectorSize) sectorSize

theorem getElem?_ofBytes (bytes : Bytes) (i : Nat) :
    (ofBytes bytes).bytes[i]?
      = if i < pageSize then some (bytes[i]?.getD 0) else none := by
  unfold ofBytes
  rw [List.getElem?_append, List.length_take, Bytes.getElem?_zeros]
  by_cases hi : i < pageSize
  · rw [if_pos hi]
    by_cases hlen : i < bytes.length
    · rw [if_pos (by omega), List.getElem?_take_of_lt hi, List.getElem?_eq_getElem hlen]
      rfl
    · rw [if_neg (by omega), if_pos (by omega), List.getElem?_eq_none (by omega)]
      rfl
  · rw [if_neg hi, if_neg (by omega), if_neg (by omega)]

/-- Inside the patch one reads the patch, elsewhere the old bytes. -/
theorem getElem?_overwrite (page : Page) (start : Nat) (patch : Bytes) {i : Nat}
    (hi : i < pageSize) :
    (page.overwrite start patch).bytes[i]?
      = if start ≤ i ∧ i < start + patch.length then patch[i - start]? else page.bytes[i]? := by
  have hlen := page.length_bytes
  unfold overwrite
  rw [getElem?_ofBytes, if_pos hi, Bytes.getElem?_overwrite]
  split
  next hin =>
    rw [List.getElem?_eq_getElem (by omega)]
    rfl
  next hout =>
    rw [if_neg (by omega), List.getElem?_eq_getElem (by omega)]
    rfl

theorem getElem?_clearFrom (page : Page) (start : Nat) {i : Nat} (hi : i < pageSize) :
    (page.clearFrom start).bytes[i]? = if i < start then page.bytes[i]? else some 0 := by
  have hlen := page.length_bytes
  unfold clearFrom
  rw [getElem?_ofBytes, if_pos hi, List.getElem?_take]
  split
  next hlt =>
    rw [List.getElem?_eq_getElem (by omega)]
    rfl
  next => rfl

theorem length_sector (page : Page) {k : Nat} (hk : k < sectorsPerPage) :
    (page.sector k).length = sectorSize := by
  have hlen := page.length_bytes
  unfold sector slice
  rw [Bytes.length_slice, hlen]
  simp only [pageSize, sectorSize, sectorsPerPage] at *
  omega

theorem part_of_fits {start count : Nat} (h : start + count ≤ pageSize) (page : Page) :
    page.part start count = .ok (page.slice start count) := if_pos h

theorem patch_of_fits {start : Nat} {patch : Bytes} (h : start + patch.length ≤ pageSize)
    (page : Page) : page.patch start patch = .ok (page.overwrite start patch) := if_pos h

@[ext] theorem ext {p q : Page} (h : p.bytes = q.bytes) : p = q := by
  cases p
  cases q
  simpa using h

end Page

end DemandPaging
