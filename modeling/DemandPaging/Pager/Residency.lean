import DemandPaging.Pager.Action
/-!
# Frames and mappings of a page

The operations that tie a page to its frame: mapping and unmapping it, pinning it
where it is, and giving its frame back.

A page is resident when its page directory maps it to a frame of the pool that is
assigned to that very page and is not being evicted. Only a resident page can be
pinned, and only a pinned one unpinned.

In the kernel `pin` and `unpin` are `update_pins` with one more and one less, `returnFrame`
is `free`, `releaseFrames` is `release_owner`, `freeSlot` is `release`, `mapFrame` and
`unmapFrame` are `set_page` and `clear_page`, and `saveToFile` is `write_back` from a
frame.
-/

namespace DemandPaging

open PagerAction

variable {n : Nat}

/-- The frame of a resident page and its assignment. -/
def Pager.resident? (p : Pager n) (id : SpaceId) (upage : Nat) : Option (Fin n × Assignment) :=
  p.frames.resident? (p.space id).directory id upage

/-- Map a page to a frame. Answers `false`, with nothing done, if the page
directory refuses. -/
def mapFrame (id : SpaceId) (upage : Nat) (i : Fin n) (writable : Bool) : PagerAction n Bool := do
  let address ← read fun p => p.frames.pool.frameAddress i
  let directory ← read fun p => (p.space id).directory
  match ← ofFatal (directory.map upage address writable) with
  | some directory =>
    update fun p => p.updateDirectory id fun _ => directory
    return true
  | none => return false

/-- Remove the mapping of a page. -/
def unmapFrame (id : SpaceId) (upage : Nat) : PagerAction n Unit :=
  update fun p => p.updateDirectory id (·.unmap upage)

/-- Keep the frame of a page from being reclaimed until the pin is taken back. -/
def pin (id : SpaceId) (upage : Nat) : PagerAction n (Fin n) := do
  match ← read fun p => p.resident? id upage with
  | none => fail .notResident
  | some (i, a) =>
    update fun p => p.assign i (some { a with pins := a.pins + 1 })
    return i

/-- Take back one pin of a page. -/
def unpin (id : SpaceId) (upage : Nat) : PagerAction n Unit := do
  match ← read fun p => p.resident? id upage with
  | none => fail .notResident
  | some (i, a) =>
    if a.pins = 0 then fail .invalidState
    else update fun p => p.assign i (some { a with pins := a.pins - 1 })

/-- Give a frame back to the pool. It must be assigned to the given space. -/
def returnFrame (id : SpaceId) (i : Fin n) : PagerAction n Unit := do
  let frames ← read Pager.frames
  let frames ← ofFatal (frames.giveBack id i)
  update fun p => { p with frames := frames }

/-- Give the frame at a physical address back to the pool. -/
def returnFrameAt (id : SpaceId) (address : Nat) : PagerAction n Unit := do
  let pool ← read fun p => p.frames.pool
  let i ← ofFatal (pool.frameOf address)
  returnFrame id i

/-- Take back all frames of a space, pinned or not, and remove the mappings of the
pages that they backed. -/
def releaseFrames (id : SpaceId) : PagerAction n Unit := do
  let owned ← read fun p => p.frames.ownedBy id
  update fun p => p.updateDirectory id fun d => owned.foldl (fun d frame => d.unmap frame.2) d
  let frames ← read Pager.frames
  let frames ← ofFatal (frames.reclaim (owned.map Prod.fst))
  update fun p => { p with frames := frames }

/-- Free a swap slot. -/
def freeSlot (slot : Nat) : PagerAction n Unit := do
  let swap ← read Pager.swap
  let swap ← ofFatal (swap.discard slot)
  update fun p => { p with swap := swap }

/-- Free a swap slot, if there is one to free. -/
def freeSlot? : Option Nat → PagerAction n Unit
  | some slot => freeSlot slot
  | none => return

/-- Write a frame to its window onto a file. -/
def saveToFile (w : FileWindow) (i : Fin n) : PagerAction n Unit := do
  let page ← read (·.page i)
  let (result, file) ← read fun p => w.save (p.file w.source.file) page
  update fun p => p.updateFile w.source.file fun _ => file
  ofResult result

end DemandPaging
