import DemandPaging.Pager.Mapping
/-!
# The end of a process

When a process exits its mapped files are taken down first, so that no dirty page
is lost; then its frames go back to the pool, and then its swap slots are freed.
The place of its address space stays usable.

In the kernel `exitSpace` is `exit`, `unmapFiles` is its loop over `munmap`, and
`dropDescriptors` is `destroy` on the descriptors of the space.
-/

namespace DemandPaging

open PagerAction

variable {n : Nat}

/-- Take mappings down, whether or not their pages can be written back. -/
def unmapFiles (id : SpaceId) : List Nat → PagerAction n Unit
  | [] => return
  | mapping :: rest => do
    let _ ← attempt (unmapFile id mapping)
    unmapFiles id rest

/-- Drop all descriptors of a space and free the slots that they hold. -/
def dropDescriptors (id : SpaceId) : PagerAction n Unit := do
  let descriptors ← read fun p => (p.space id).descriptors
  update fun p => p.updateDescriptors id fun _ => .empty
  let swap ← read Pager.swap
  let swap ← ofFatal (descriptors.freeSlots swap)
  update fun p => { p with swap := swap }

/-- Take back everything that a process holds. -/
def exitSpace (id : SpaceId) : PagerAction n Unit := do
  unmapFiles id (← read fun p => (p.space id).mappings.ids)
  releaseFrames id
  dropDescriptors id

end DemandPaging
