import DemandPaging.Pager.Operation
import DemandPaging.Proofs.FileMappings
/-!
# The memory of one process

What a process can tell of its memory has nothing of frames, slots and clocks in it. This
module says what that is (`Memory`), and what the calls of the process do to it
(`Call.perform`). Every page is simply there. A page of a mapping is no copy of its part of
the file: it is that part, so storing in it changes the file at once, and there is nothing to
write back. A page of a segment that its file is too short for brings the error of a short
read each time.

The mapped files are meant to consist of whole pages, since what a process stores past the end
of a file is lost at some time or other.
-/

namespace DemandPaging

/-! ## Parts of files -/

/-- The page of a byte string that starts at an offset. -/
def Bytes.pageAt (data : Bytes) (offset : Nat) : Page :=
  Page.ofBytes (Bytes.slice data offset pageSize)

/-- What comes of filling a page from its window. -/
def FileWindow.contents (w : FileWindow) (data : Bytes) : Except PagingError Page :=
  let bytes := Bytes.slice data w.offset w.readBytes
  if bytes.length = w.readBytes then .ok (Page.ofBytes bytes)
  else .error (.shortRead w.readBytes bytes.length)

namespace Bytes

variable {data patch : Bytes} {start offset count : Nat}

/-- A write inside a byte string does not change its length. -/
theorem length_overwrite_of_le (h : start + patch.length ≤ data.length) :
    (overwrite data start patch).length = data.length := by
  rw [length_overwrite]
  omega

theorem getElem?_overwrite_of_le (h : start + patch.length ≤ data.length) (i : Nat) :
    (overwrite data start patch)[i]?
      = if start ≤ i ∧ i < start + patch.length then patch[i - start]? else data[i]? := by
  rw [getElem?_overwrite]
  split
  next => rfl
  next => rw [if_neg (by omega)]

theorem getElem?_pageAt (data : Bytes) (offset : Nat) {i : Nat} (hi : i < pageSize) :
    (pageAt data offset).bytes[i]? = some ((data[offset + i]?).getD 0) := by
  unfold pageAt
  rw [Page.getElem?_ofBytes, if_pos hi, getElem?_slice, if_pos hi]

/-- What was written beside a part leaves the part. -/
theorem slice_overwrite_apart (h : start + patch.length ≤ data.length)
    (hapart : start + patch.length ≤ offset ∨ offset + count ≤ start) :
    slice (overwrite data start patch) offset count = slice data offset count := by
  refine List.ext_getElem? ?_
  intro i
  rw [getElem?_slice, getElem?_slice]
  split
  next hi => rw [getElem?_overwrite_of_le h, if_neg (by omega)]
  next => rfl

theorem pageAt_overwrite_apart (h : start + patch.length ≤ data.length)
    (hapart : start + patch.length ≤ offset ∨ offset + pageSize ≤ start) :
    pageAt (overwrite data start patch) offset = pageAt data offset := by
  unfold pageAt
  rw [slice_overwrite_apart h hapart]

/-- Writing inside a part is writing to the page that is the part. -/
theorem pageAt_overwrite_within (hin : start + patch.length ≤ pageSize)
    (h : offset + pageSize ≤ data.length) :
    pageAt (overwrite data (offset + start) patch) offset
      = (pageAt data offset).overwrite start patch := by
  refine Page.ext (List.ext_getElem? ?_)
  intro i
  by_cases hi : i < pageSize
  · rw [getElem?_pageAt _ _ hi, Page.getElem?_overwrite _ _ _ hi, getElem?_pageAt _ _ hi,
      getElem?_overwrite_of_le (by omega)]
    by_cases hpatch : start ≤ i ∧ i < start + patch.length
    · rw [if_pos hpatch, if_pos (by omega), List.getElem?_eq_getElem (by omega), Option.getD_some,
        ← List.getElem?_eq_getElem]
      congr 1
      omega
    · rw [if_neg hpatch, if_neg (by omega)]
  · rw [List.getElem?_eq_none (by rw [Page.length_bytes]; omega),
      List.getElem?_eq_none (by rw [Page.length_bytes]; omega)]

/-- Files that have the same page somewhere have the same bytes there. -/
theorem getElem?_of_pageAt_eq {data' : Bytes} (h : pageAt data offset = pageAt data' offset)
    (hdata : offset + pageSize ≤ data.length) (hdata' : offset + pageSize ≤ data'.length) {i : Nat}
    (hlow : offset ≤ i) (hhigh : i < offset + pageSize) : data[i]? = data'[i]? := by
  have hbyte := congrArg (fun page : Page => page.bytes[i - offset]?) h
  simp only [getElem?_pageAt _ _ (show i - offset < pageSize by omega),
    Nat.add_sub_cancel' hlow] at hbyte
  rwa [List.getElem?_eq_getElem (by omega), List.getElem?_eq_getElem (by omega), Option.getD_some,
    Option.getD_some, ← List.getElem?_eq_getElem, ← List.getElem?_eq_getElem] at hbyte

/-- A page that was written to a file is the page of the file there. -/
theorem pageAt_overwrite_self (page : Page) (h : offset + pageSize ≤ data.length) :
    pageAt (overwrite data offset page.bytes) offset = page := by
  have hpage := page.length_bytes
  refine Page.ext (List.ext_getElem? fun i => ?_)
  by_cases hi : i < pageSize
  · rw [getElem?_pageAt _ _ hi, getElem?_overwrite_of_le (by omega), if_pos (by omega),
      Nat.add_sub_cancel_left, List.getElem?_eq_getElem (by omega), Option.getD_some]
  · rw [List.getElem?_eq_none (by rw [Page.length_bytes]; omega),
      List.getElem?_eq_none (by omega)]

end Bytes

namespace FileWindow

variable {w : FileWindow} {data : Bytes}

/-- A window of a whole page inside the file shows that part of the file. -/
theorem contents_of_whole (hread : w.readBytes = pageSize)
    (h : w.offset + pageSize ≤ data.length) :
    w.contents data = .ok (Bytes.pageAt data w.offset) := by
  unfold contents
  simp only [hread]
  rw [if_pos (by rw [Bytes.length_slice]; omega)]
  rfl

/-- What comes of filling a page depends on what the file has in the window. -/
theorem contents_congr {data' : Bytes}
    (h : Bytes.slice data' w.offset w.readBytes = Bytes.slice data w.offset w.readBytes) :
    w.contents data' = w.contents data := by
  unfold contents
  rw [h]

theorem contents_of_short (h : min w.readBytes (data.length - w.offset) ≠ w.readBytes) :
    w.contents data
      = .error (.shortRead w.readBytes (min w.readBytes (data.length - w.offset))) := by
  unfold contents
  simp only [Bytes.length_slice]
  rw [if_neg h]

end FileWindow

/-! ## Memories -/

/-- A page of a process. -/
inductive MemoryPage where
  /-- A page of the process alone: what accessing it brings, and whether it may be written. -/
  | own (contents : Except PagingError Page) (writable : Bool)
  /-- The part of a file from an offset on. -/
  | shows (file offset : Nat)

/-- A mapped file: where, and how many pages. -/
structure Region where
  file : Nat
  base : Nat
  pageCount : Nat

/-- The region that a mapping covers. -/
def FileMapping.region (m : FileMapping) : Region := ⟨m.source.file, m.base, m.pageCount⟩

/-- What a process can tell: its pages, the bytes of its files, and its mappings. -/
structure Memory where
  pages : Nat → Option MemoryPage
  files : Nat → Bytes
  regions : Nat → Option Region
  nextRegion : Nat

namespace Memory

/-- A memory without pages. -/
def empty (files : Nat → Bytes) : Memory := ⟨fun _ => none, files, fun _ => none, 0⟩

/-- What a page holds, if there is such a page, and whether it may be written. -/
def look (M : Memory) (upage : Nat) : Option (Except PagingError Page × Bool) :=
  match M.pages upage with
  | none => none
  | some (.own contents writable) => some (contents, writable)
  | some (.shows file offset) => some (.ok (Bytes.pageAt (M.files file) offset), true)

/-- Replace a page. -/
def setPage (M : Memory) (upage : Nat) (page? : Option MemoryPage) : Memory :=
  { M with pages := fun u => if u = upage then page? else M.pages u }

/-- Store bytes in a page. -/
def store (M : Memory) (upage start : Nat) (bytes : Bytes) : Memory :=
  match M.pages upage with
  | some (.own (.ok page) writable) =>
    M.setPage upage (some (.own (.ok (page.overwrite start bytes)) writable))
  | some (.shows file offset) =>
    { M with
      files := fun k =>
        if k = file then Bytes.overwrite (M.files k) (offset + start) bytes else M.files k }
  | _ => M

/-- Add a page of a segment. -/
def describe (M : Memory) (d : Descriptor) : Memory :=
  match d.backing.window? with
  | some w =>
    M.setPage d.upage (some (.own (w.contents (M.files w.source.file)) d.writable))
  | none => M

/-- Add a mapping under the next number. -/
def addRegion (M : Memory) (r : Region) : Memory :=
  { M with
    pages := fun u =>
      if u ∈ pageRange r.base r.pageCount then some (.shows r.file (u - r.base)) else M.pages u
    regions := fun m => if m = M.nextRegion then some r else M.regions m
    nextRegion := M.nextRegion + 1 }

/-- Strike a mapping off the list. -/
def unlist (M : Memory) (mapping : Nat) : Memory :=
  { M with regions := fun m => if m = mapping then none else M.regions m }

/-! ### What the calls of a process do -/

/-- An access to a page that is not present, or that the hardware takes for one. -/
def fault (near : Nat → Nat → Bool) (M : Memory) (address stackPointer : Nat) :
    Except PagingError Unit × Memory :=
  if address = 0 ∨ ¬ IsUserAddress address then (.error .badAddress, M)
  else match M.look (pageBase address) with
    | some (.ok _, _) => (.ok (), M)
    | some (.error e, _) => (.error e, M)
    | none =>
      if near address stackPointer then
        (.ok (), M.setPage (pageBase address) (some (.own (.ok .zero) true)))
      else (.error .badAddress, M)

/-- A page for a copy, and whether it may be written. -/
def access (M : Memory) (upage : Nat) : Except PagingError (Page × Bool) :=
  match M.look upage with
  | some (.ok page, writable) => .ok (page, writable)
  | some (.error e, _) => .error e
  | none => .error .badAddress

/-- Copy chunks out of the memory behind the bytes in hand. -/
def readChunks (M : Memory) : List Chunk → Bytes → Copied
  | [], bytes => ⟨bytes, .ok ()⟩
  | c :: rest, bytes =>
    match M.access c.upage with
    | .ok (page, _) => M.readChunks rest (bytes ++ page.slice c.start c.count)
    | .error e => ⟨bytes, .error e⟩

/-- Copy bytes out of the memory. -/
def readUser (M : Memory) (address length : Nat) : Copied :=
  if IsUserRange address length then M.readChunks (chunks address length) []
  else ⟨[], .error .badAddress⟩

/-- Copy bytes out of the memory, all or none. -/
def fetchUser (M : Memory) (address length : Nat) : Except PagingError Bytes :=
  (M.readUser address length).result.map fun _ => (M.readUser address length).bytes

/-- Copy the beginning of `bytes` into each chunk in turn. -/
def writeChunks (M : Memory) : List Chunk → Bytes → Except PagingError Unit × Memory
  | [], _ => (.ok (), M)
  | c :: rest, bytes =>
    match M.access c.upage with
    | .ok (_, true) =>
      (M.store c.upage c.start (bytes.take c.count)).writeChunks rest (bytes.drop c.count)
    | .ok (_, false) => (.error .readOnly, M)
    | .error e => (.error e, M)

/-- Copy bytes into the memory. -/
def writeUser (M : Memory) (address : Nat) (bytes : Bytes) : Except PagingError Unit × Memory :=
  if IsUserRange address bytes.length then M.writeChunks (chunks address bytes.length) bytes
  else (.error .badAddress, M)

/-- Map a file, answering the number of the mapping. -/
def mapFile (M : Memory) (file base : Nat) : Except PagingError Nat × Memory :=
  match mappingFault? (OpenFile.ofBytes (M.files file)) base with
  | some e => (.error e, M)
  | none =>
    let count := pagesFor (M.files file).length
    if (pageRange base count).all fun u => (M.pages u).isNone then
      (.ok M.nextRegion, M.addRegion ⟨file, base, count⟩)
    else (.error .alreadyMapped, M)

/-- Take a mapping down, if there is one of this number. Its pages are gone. -/
def unmapFile (M : Memory) (mapping : Nat) : Memory :=
  match M.regions mapping with
  | none => M
  | some r => (pageRange r.base r.pageCount).foldl (·.setPage · none) (M.unlist mapping)

/-- Describe the pages `page i`, `page (i + 1)`, … of a segment, up to the first that is there. -/
def addPages (page : Nat → Descriptor) :
    (count i : Nat) → Memory → Except PagingError Unit × Memory
  | 0, _, M => (.ok (), M)
  | count + 1, i, M =>
    if (M.pages (page i).upage).isSome then (.error .alreadyMapped, M)
    else addPages page count (i + 1) (M.describe (page i))

/-- Describe a segment of a program. -/
def addSegment (M : Memory) (file offset upage readBytes zeroBytes : Nat) (writable : Bool) :
    Except PagingError Unit × Memory :=
  if ¬ PageAligned upage ∨ ¬ PageAligned (readBytes + zeroBytes) then (.error .misaligned, M)
  else
    addPages (DescriptorTable.segmentPage ⟨file, 0⟩ offset upage readBytes writable)
      ((readBytes + zeroBytes) / pageSize) 0 M

end Memory

/-- What a process calls the pager for. -/
inductive Call where
  | fault (address stackPointer : Nat)
  | read (address length : Nat)
  | fetch (address length : Nat)
  | write (address : Nat) (bytes : Bytes)
  | mapFile (file base : Nat)
  | unmapFile (mapping : Nat)
  | addSegment (file offset upage readBytes zeroBytes : Nat) (writable : Bool)

namespace Call

/-- Carry out a call on a memory. `near` tells which accesses extend the stack. -/
def perform (near : Nat → Nat → Bool) (M : Memory) : Call → Except PagingError Answer × Memory
  | .fault address stackPointer =>
    let (result, M) := M.fault near address stackPointer
    (result.map fun _ => .nothing, M)
  | .read address length => (.ok (.copied (M.readUser address length)), M)
  | .fetch address length => ((M.fetchUser address length).map .bytes, M)
  | .write address bytes =>
    let (result, M) := M.writeUser address bytes
    (result.map fun _ => .nothing, M)
  | .mapFile file base =>
    let (result, M) := M.mapFile file base
    (result.map .mapping, M)
  | .unmapFile mapping => (.ok .nothing, M.unmapFile mapping)
  | .addSegment file offset upage readBytes zeroBytes writable =>
    let (result, M) := M.addSegment file offset upage readBytes zeroBytes writable
    (result.map fun _ => .nothing, M)

/-- Carry out calls in order and collect the answers and errors. -/
def performAll (near : Nat → Nat → Bool) (M : Memory) :
    List Call → List (Except PagingError Answer) × Memory
  | [] => ([], M)
  | c :: rest =>
    let (answer, M) := c.perform near M
    let (answers, M) := performAll near M rest
    (answer :: answers, M)

end Call

end DemandPaging
