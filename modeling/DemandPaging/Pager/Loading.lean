import DemandPaging.Pager.Eviction
/-!
# Page faults

A fault on a page that has a descriptor loads the page. One on a page without, but
near enough to the stack pointer and within the stack limit, extends the stack by
a page of zeros. Any other access was wrong.

Loading gives the page a frame, fills it from the page's file or swap slot, and
maps it. If filling fails, the frame goes back and the descriptor stays as it was.

In the kernel `handleFault` is `handle_page_fault`, `loadAt` is `resolve_fault`,
`ensureLoaded` is `fault_in`, `bringIn` is `load_page` with `bringInAbsent` for a page
that is not loaded, `extendStack` is `grow_stack`, `isNearStack` is `is_stack_access` and
`pinResident` is `pin_page`.
-/

namespace DemandPaging

open PagerAction

variable {n : Nat}

/-- Fill a frame with the contents of a page. -/
def fillFrame (i : Fin n) : LoadSource → PagerAction n Unit
  | .nowhere => fail .invalidState
  | .file window => do
    let (result, page) ← read fun p => window.load (p.file window.source.file) (p.page i)
    update fun p => p.writePage i page
    ofResult result
  | .swap slot => do
    let fetched ← read fun p => p.swap.fetch slot (p.page i)
    let (result, swap, page) ← ofFatal fetched
    update fun p => { p with swap := swap }
    update fun p => p.writePage i page
    ofResult result

/-- Map a page that was just loaded and bring its descriptor up to date. -/
def settle (id : SpaceId) (upage : Nat) (d : Descriptor) (i : Fin n) : PagerAction n Unit := do
  freeSlot? d.backing.abandonedSlot?
  if ← mapFrame id upage i (d.writable || d.backing.isMapped) then
    if d.backing.loadsDirty then
      update fun p => p.updateDirectory id (·.setFlag .dirty upage true)
    match d.backing.loaded? with
    | some backing =>
      update fun p => p.updateDescriptors id
        (·.modify upage fun d => { d with backing := backing, loaded := true })
    | none => update fun p => p.updateDescriptors id (·.erase upage)
  else
    let pid ← read fun p => (p.space id).pid
    stop (.mappedWithoutDescriptor upage pid.toNat)

/-- Load a page that is not loaded, answering its frame with one pin on it. -/
def bringInAbsent (id : SpaceId) (upage : Nat) (d : Descriptor) : PagerAction n (Fin n) := do
  let i ← obtainFrame id upage false
  match ← attempt (fillFrame i d.backing.loadSource) with
  | .error e =>
    returnFrame id i
    fail e
  | .ok () =>
    settle id upage d i
    return i

/-- Load a page as its descriptor says. Answers the frame, with one pin on it, or
nothing if the page is loaded already. -/
def bringIn (id : SpaceId) (upage : Nat) : PagerAction n (Option (Fin n)) := do
  match ← read fun p => (p.space id).descriptors.find? upage with
  | none => fail .notFound
  | some d =>
    if d.loaded then return none
    else if d.backing = .anonymous then fail .invalidState
    else some <$> bringInAbsent id upage d

/-- Load a page and leave it unpinned. -/
def ensureLoaded (id : SpaceId) (upage : Nat) : PagerAction n Unit := do
  match ← bringIn id upage with
  | some _ => unpin id upage
  | none => return

/-- Map a page of zeros that user code may write to. -/
def extendStack (id : SpaceId) (upage : Nat) : PagerAction n Unit := do
  let i ← obtainFrame id upage true
  if ← mapFrame id upage i true then unpin id upage
  else
    returnFrame id i
    fail .alreadyMapped

/-- Whether an access at `address` looks like the stack growing down to it. -/
def PagerConfig.isNearStack (c : PagerConfig) (address stackPointer : Nat) : Bool :=
  decide (stackPointer ≤ address + c.stackSlack) && decide (userTop - c.stackLimit ≤ address)

/-- Handle an access to a page that is not present. An error means that the access
was wrong; the process is killed for it. -/
def handleFault (id : SpaceId) (address stackPointer : Nat) : PagerAction n Unit := do
  if address = 0 ∨ ¬ IsUserAddress address then fail .badAddress
  else
    let upage := pageBase address
    let space ← read (·.space id)
    let config ← read Pager.config
    if space.descriptors.contains upage then ensureLoaded id upage
    else if space.directory.isMapped upage then return
    else if config.isNearStack address stackPointer then extendStack id upage
    else fail .badAddress

/-- Load the page that holds `address`. Does nothing if the page is loaded already. -/
def loadAt (id : SpaceId) (address : Nat) : PagerAction n Unit := ensureLoaded id (pageBase address)

/-- Pin a page where it is, loading it first if it is not resident. -/
def pinResident (id : SpaceId) (upage : Nat) : PagerAction n (Fin n) := do
  match ← attempt (pin id upage) with
  | .ok i => return i
  | .error .notResident =>
    match ← bringIn id upage with
    | some i => return i
    | none =>
      let pid ← read fun p => (p.space id).pid
      stop (.neverResident upage pid.toNat)
  | .error e => fail e

end DemandPaging
