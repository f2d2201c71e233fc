import DemandPaging.KeyedTable
import DemandPaging.Space.Backing
import DemandPaging.Storage.SwapArea
import DemandPaging.Word
/-!
# Descriptor tables

The page descriptors of one address space, by the address of the page. A page
that is in its frame only has no descriptor.

A program segment is described page by page. A page of the range that already has
a descriptor ends the description there, with the pages before it described. The pages
are counted (`addSegment`), or taken off one by one with numbers that end on both sides
(`SegmentRest.describe`); a build that looks for such ends goes by the latter
(`describeSegment`).

In the kernel the table is the `SupPageTable`, `add` is `insert`, `getOrAdd` is
`get_or_insert`, `describeSegment` is `add_file_segment` and `freeSlots` is what `destroy` does.
-/

namespace DemandPaging

/-- Page descriptors by page. -/
abbrev DescriptorTable := KeyedTable Descriptor

namespace DescriptorTable

/-- Add a descriptor for a page that has none. -/
def add (t : DescriptorTable) (d : Descriptor) : Except PagingError DescriptorTable :=
  if t.contains d.upage then .error .alreadyMapped else .ok (t.insert d.upage d)

/-- Add the descriptors `page i`, `page (i + 1)`, … of `count` pages, up to the first
page that already has one. -/
def addPages (page : Nat → Descriptor) :
    (count i : Nat) → DescriptorTable → Except PagingError Unit × DescriptorTable
  | 0, _, t => (.ok (), t)
  | count + 1, i, t =>
    match t.add (page i) with
    | .ok t => addPages page count (i + 1) t
    | .error e => (.error e, t)

/-- The descriptor of a page, and the table with it; a page without one gets a new
descriptor that is not loaded. -/
def getOrAdd (t : DescriptorTable) (upage : Nat) (backing : Backing) (writable : Bool) :
    Descriptor × DescriptorTable :=
  match t.find? upage with
  | some d => (d, t)
  | none =>
    let d := { upage := upage, backing := backing, writable := writable }
    (d, t.insert upage d)

/-- What page `i` of a segment shows of the file, of which the first `readBytes` bytes of the
segment are those from `offset` on. A place in a file is a word. -/
def segmentWindow (source : FileRef) (offset readBytes i : Nat) : FileWindow :=
  let before := min readBytes (i * pageSize)
  let here := min (readBytes - before) pageSize
  ⟨source, (offset + before) % wordLimit, here, pageSize - here⟩

/-- The descriptor of page `i` of a segment at `upage`: first the bytes of the file, then zeros. -/
def segmentPage (source : FileRef) (offset upage readBytes : Nat) (writable : Bool) (i : Nat) :
    Descriptor :=
  { upage := upage + i * pageSize
    backing := .privateFile (segmentWindow source offset readBytes i)
    writable := writable }

/-- Describe a program segment: `readBytes` bytes of the file from `offset` and then
`zeroBytes` zeros, at `upage`. The segment must consist of whole pages. -/
def addSegment (t : DescriptorTable) (source : FileRef) (offset upage readBytes zeroBytes : Nat)
    (writable : Bool) : Except PagingError Unit × DescriptorTable :=
  if ¬ PageAligned upage ∨ ¬ PageAligned (readBytes + zeroBytes) then (.error .misaligned, t)
  else
    addPages (segmentPage source offset upage readBytes writable)
      ((readBytes + zeroBytes) / pageSize) 0 t

end DescriptorTable

/-- What is still to be described of a segment: from where in the file, at which page, and how
many bytes of the file and how many zeros. -/
structure SegmentRest where
  offset : Nat
  upage : Nat
  readBytes : Nat
  zeroBytes : Nat

namespace SegmentRest

/-- How many bytes of the next page come from the file. -/
def here (s : SegmentRest) : Nat := min s.readBytes pageSize

/-- The descriptor of the next page. -/
def page (s : SegmentRest) (source : FileRef) (writable : Bool) : Descriptor :=
  { upage := s.upage
    backing := .privateFile ⟨source, s.offset % wordLimit, s.here, pageSize - s.here⟩
    writable := writable }

/-- What remains after the next page, unless a number leaves its range. -/
def next? (limit : Nat) (s : SegmentRest) : Option SegmentRest :=
  match difference? s.readBytes s.here, difference? s.zeroBytes (pageSize - s.here),
    sumBelow? limit s.offset s.here, sumBelow? limit s.upage pageSize with
  | some readBytes, some zeroBytes, some offset, some upage =>
    some ⟨offset, upage, readBytes, zeroBytes⟩
  | _, _, _, _ => none

/-- A step takes as many bytes off as there are in a page. -/
theorem of_next?_eq_some {limit : Nat} {s r : SegmentRest} (h : s.next? limit = some r) :
    r.readBytes + r.zeroBytes + pageSize = s.readBytes + s.zeroBytes := by
  have hle : s.here ≤ pageSize := Nat.min_le_right ..
  unfold next? at h
  split at h
  next readBytes zeroBytes offset upage hread hzero _ _ =>
    cases h
    have hread := difference?_eq_some_iff.mp hread
    have hzero := difference?_eq_some_iff.mp hzero
    show readBytes + zeroBytes + pageSize = _
    omega
  next => cases h

/-- Describe what remains, page by page. There is no answer if a number leaves its range. -/
def describe (limit : Nat) (source : FileRef) (writable : Bool) (s : SegmentRest)
    (t : DescriptorTable) : Option (Except PagingError Unit × DescriptorTable) :=
  if s.readBytes = 0 ∧ s.zeroBytes = 0 then some (.ok (), t)
  else
    match t.add (s.page source writable) with
    | .error e => some (.error e, t)
    | .ok t =>
      match _h : s.next? limit with
      | some rest => rest.describe limit source writable t
      | none => none
termination_by s.readBytes + s.zeroBytes
decreasing_by
  have hless := of_next?_eq_some _h
  have hpos := pageSize_pos
  omega

end SegmentRest

namespace DescriptorTable

/-- Describe a program segment as a build does: one that looks for numbers that do not fit in a
word stops the system at the first of them. -/
def describeSegment (overflow : Overflow) (t : DescriptorTable) (source : FileRef)
    (offset upage readBytes zeroBytes : Nat) (writable : Bool) :
    Except Fatal (Except PagingError Unit × DescriptorTable) :=
  match overflow with
  | .wraps => .ok (t.addSegment source offset upage readBytes zeroBytes writable)
  | .stops =>
    if ¬ PageAligned upage then .ok (.error .misaligned, t)
    else match sumBelow? wordLimit readBytes zeroBytes with
      | none => .error .overflow
      | some total =>
        if ¬ PageAligned total then .ok (.error .misaligned, t)
        else match SegmentRest.describe wordLimit source writable
            ⟨offset, upage, readBytes, zeroBytes⟩ t with
          | some described => .ok described
          | none => .error .overflow

/-- Free the slot of every described page, by ascending page. -/
def freeSlots (t : DescriptorTable) (swap : SwapArea) : Except Fatal SwapArea :=
  t.values.foldlM (fun swap d =>
    match d.backing.slot? with
    | some slot => swap.discard slot
    | none => .ok swap) swap

/-- A page without a descriptor is added, and the pages after it. -/
theorem addPages_of_vacant_first {page : Nat → Descriptor} {i : Nat} {t : DescriptorTable}
    (h : t.find? (page i).upage = none) (count : Nat) :
    addPages page (count + 1) i t
      = addPages page count (i + 1) (t.insert (page i).upage (page i)) := by
  rw [addPages, add, if_neg (by simp [KeyedTable.contains, h])]

/-- At a page with a descriptor the table is left as it is. -/
theorem addPages_of_described_first {page : Nat → Descriptor} {i : Nat} {t : DescriptorTable}
    {d : Descriptor} (h : t.find? (page i).upage = some d) (count : Nat) :
    addPages page (count + 1) i t = (.error .alreadyMapped, t) := by
  rw [addPages, add, if_pos (by simp [KeyedTable.contains, h])]

/-- Every page of a segment is one page of data and zeros together. -/
theorem window?_segmentPage (source : FileRef) (offset upage readBytes : Nat) (writable : Bool)
    (i : Nat) :
    ∃ w, (segmentPage source offset upage readBytes writable i).backing.window? = some w
      ∧ w.readBytes + w.zeroBytes = pageSize :=
  ⟨_, rfl, Nat.add_sub_cancel' (Nat.min_le_right _ _)⟩

end DescriptorTable

end DemandPaging
