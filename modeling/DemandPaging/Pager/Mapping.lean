import DemandPaging.Pager.Residency
/-!
# Mapping files

A mapping makes the whole of a file appear at an address. It covers the file as
long as it is when it is mapped; the last page is filled up with zeros. Pages are
read when they are first used. The mapping holds a handle of its own, which closes
when the mapping goes.

Taking a mapping down writes every dirty page back. All its pages are released
even if some of them cannot be written; the first failure is reported.

In the kernel `mapFile` is `mmap`, `unmapFile` is `munmap` and `dropPage` is `unmap_page`.
-/

namespace DemandPaging

open PagerAction

variable {n : Nat}

/-- The window of page `i` of a mapping of a file of `length` bytes. -/
def mappingWindow (source : FileRef) (length i : Nat) : FileWindow :=
  ⟨source, i * pageSize, min pageSize (length - i * pageSize),
    pageSize - min pageSize (length - i * pageSize)⟩

/-- The descriptor of page `i` of a mapping at `base` of a file of `length` bytes. -/
def mappingPage (source : FileRef) (base length i : Nat) : Descriptor :=
  { upage := base + i * pageSize
    backing := .mappedFile (mappingWindow source length i)
    writable := true }

/-- Why the file cannot be mapped at `base`, if it cannot, before any page of the
range is looked at. -/
def mappingFault? (file : OpenFile) (base : Nat) : Option PagingError :=
  if base = 0 ∨ ¬ IsUserAddress base then some .badAddress
  else if ¬ PageAligned base then some .misaligned
  else if file.isConsole then some .consoleMapping
  else if file.length = 0 then some .emptyFile
  else if userTop < base + pagesFor file.length * pageSize then some .badAddress
  else none

/-- Whether each of `count` pages from `upage` on is vacant. -/
def AddressSpace.isVacantRange (s : AddressSpace) : (count upage : Nat) → Bool
  | 0, _ => true
  | count + 1, upage => s.isVacant upage && s.isVacantRange count (upage + pageSize)

/-- Map a file at `base`, answering the number of the mapping. A page that cannot be described
ends the call there; the handle is held by the pages that were described before it. -/
def mapFile (id : SpaceId) (index base : Nat) : PagerAction n Nat := do
  let file ← read (·.file index)
  let space ← read (·.space id)
  match mappingFault? file base with
  | some e => fail e
  | none =>
    let length := file.length
    let count := pagesFor length
    if !space.isVacantRange count base then fail .alreadyMapped
    else match file.open? with
      | none => fail .reopenFailed
      | some (handle, opened) =>
        let source : FileRef := ⟨index, handle⟩
        match space.descriptors.addPages (mappingPage source base length) count 0 with
        | (.error e, descriptors) =>
          let held := !space.descriptors.contains base
          update fun p => p.updateFile index fun _ => if held then opened else opened.close handle
          update fun p => p.updateDescriptors id fun _ => descriptors
          fail e
        | (.ok (), descriptors) =>
          let (mapping, mappings) := space.mappings.add ⟨source, base, count⟩
          update fun p => p.updateFile index fun _ => opened
          update fun p => p.updateSpace id fun s =>
            { s with descriptors := descriptors, mappings := mappings }
          return mapping

/-- Write a page that is no longer mapped back to the window that its descriptor
names. A page without a window has nowhere to go. -/
def writeBackPage (id : SpaceId) (upage : Nat) (i : Fin n) : PagerAction n Unit := do
  match ← read fun p => ((p.space id).descriptors.find? upage).bind (·.backing.window?) with
  | some window => saveToFile window i
  | none => return

/-- Unmap a page, if it is resident, and give its frame back, written to its file
if the page is dirty. -/
def surrenderFrame (id : SpaceId) (upage : Nat) : PagerAction n Unit := do
  match ← read fun p => p.resident? id upage with
  | none => return
  | some (i, _) =>
    let dirty ← read fun p => (p.space id).directory.dirty upage
    unmapFrame id upage
    let saved ← attempt (if dirty then writeBackPage id upage i else pure ())
    returnFrame id i
    ofResult saved

/-- Forget a page of a mapping: its frame, its descriptor and its slot. -/
def dropPage (id : SpaceId) (upage : Nat) : PagerAction n Unit := do
  let saved ← attempt (surrenderFrame id upage)
  let descriptor? ← read fun p => (p.space id).descriptors.find? upage
  update fun p => p.updateDescriptors id (·.erase upage)
  freeSlot? (descriptor?.bind (·.backing.slot?))
  ofResult saved

/-- Forget pages one by one, answering the first failure. -/
def dropPages (id : SpaceId) : List Nat → PagerAction n (Except PagingError Unit)
  | [] => return .ok ()
  | upage :: rest => do
    let first ← attempt (dropPage id upage)
    let later ← dropPages id rest
    match first with
    | .ok () => return later
    | .error e => return .error e

/-- Take a mapping down. Does nothing if the number is not that of a live mapping. -/
def unmapFile (id : SpaceId) (mapping : Nat) : PagerAction n Unit := do
  match ← read fun p => (p.space id).mappings.find? mapping with
  | none => return
  | some m =>
    update fun p => p.updateSpace id fun s => { s with mappings := s.mappings.remove mapping }
    let result ← dropPages id m.pages
    update fun p => p.updateFile m.source.file (·.close m.source.handle)
    ofResult result

end DemandPaging
