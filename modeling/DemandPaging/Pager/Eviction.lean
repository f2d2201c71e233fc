import DemandPaging.Pager.Residency
/-!
# Obtaining frames and evicting pages

A page that needs a frame gets a free one, or one that is taken from another page.
Before a frame changes hands its contents are saved:

* a dirty mapped page is written to its file;
* a private file page that is clean is dropped, since its file still has it;
* every other page goes to a swap slot.

Saving must not fail. With no free frame and none to reclaim there is nowhere else
to turn to, and the system stops.

In the kernel `obtainFrame` is `allocate`, `takeFree` is `try_allocate`, `reclaimFrame` is
`evict`, `chooseVictim` is its use of `select_victim`, and `saveVictim` is `persist`.
-/

namespace DemandPaging

open PagerAction

variable {n : Nat}

/-- Turn the clock until it finds a frame to reclaim, and mark that frame. -/
def chooseVictim : PagerAction n (Fin n × Assignment) := do
  let found ← read fun p => SecondChance.search p.config.overflow p.frames.assignments
    p.frames.revolutions p.frames.hand p.spaces
  let (victim?, hand, spaces) ← ofFatal found
  update fun p => { p with frames := { p.frames with hand := hand }, spaces := spaces }
  match victim? with
  | none => fail .noVictim
  | some i =>
    match ← read fun p => p.frames.assignments.get i with
    | none => fail .noVictim
    | some a =>
      update fun p => p.assign i (some { a with evicting := true })
      return (i, a)

/-- Write a frame to a new swap slot, answering the slot. -/
def storeFrame (i : Fin n) : PagerAction n Nat := do
  let page ← read (·.page i)
  let stored ← read fun p => p.swap.store page
  let (result, swap) ← ofFatal stored
  update fun p => { p with swap := swap }
  ofResult result

/-- Move a page to a new swap slot, and free the slot that it held before. -/
def moveToSwap (id : SpaceId) (upage : Nat) (backing : Backing) (i : Fin n) :
    PagerAction n Unit := do
  let slot ← storeFrame i
  let (backing, stale) := backing.movedTo slot
  update fun p => p.updateDescriptors id (·.modify upage fun d => { d with backing := backing })
  freeSlot? stale

/-- Save the page that a frame backs and clear the frame. The mapping goes first,
so that the saved contents are final. A page without a descriptor gets one that
remembers whether it was writable. -/
def saveVictim (id : SpaceId) (upage : Nat) (i : Fin n) : PagerAction n Unit := do
  let directory ← read fun p => (p.space id).directory
  unmapFrame id upage
  let (descriptor, descriptors) ← read fun p =>
    (p.space id).descriptors.getOrAdd upage .anonymous (directory.writable upage)
  update fun p => p.updateDescriptors id fun _ => descriptors
  match descriptor.backing, directory.dirty upage with
  | .mappedFile window, true => saveToFile window i
  | .privateFile _, false => pure ()
  | backing, _ => moveToSwap id upage backing i
  update fun p => p.writePage i Page.zero
  update fun p => p.updateDescriptors id (·.modify upage fun d => { d with loaded := false })

/-- Take a frame from another page and assign it to a page. The frame is zero. -/
def takeVictim (id : SpaceId) (upage : Nat) : PagerAction n (Fin n) := do
  let (i, victim) ← chooseVictim
  saveVictim victim.owner victim.upage i
  update fun p => p.assign i (some (.fresh id upage))
  return i

/-- Get a zero frame for a page: a free one, if there is one by now, or else one that is taken from
another page. -/
def reclaimFrame (id : SpaceId) (upage : Nat) : PagerAction n (Fin n) := do
  match ← read fun p => p.frames.takeFree id upage with
  | some (i, frames) =>
    update fun p => { p with frames := frames }
    update fun p => p.writePage i Page.zero
    return i
  | none => takeVictim id upage

/-- Get a frame for a page, pinned once. A free frame holds what was last in it
unless `zero` asks for a cleared one. -/
def obtainFrame (id : SpaceId) (upage : Nat) (zero : Bool) : PagerAction n (Fin n) := do
  match ← read fun p => p.frames.takeFree id upage with
  | some (i, frames) =>
    update fun p => { p with frames := frames }
    if zero then update fun p => p.writePage i Page.zero
    return i
  | none =>
    match ← attempt (reclaimFrame id upage) with
    | .ok i => return i
    | .error cause =>
      let pid ← read fun p => (p.space id).pid
      stop (.outOfFrames upage pid.toNat cause)

end DemandPaging
