import DemandPaging.Frames.Pool
import DemandPaging.Space.AddressSpace
/-!
# The frame table

Which page of which address space every frame of the pool backs. A frame is
assigned when it is handed out and unassigned when it is taken back, so the table
and the pool always speak of the same frames.

A pin keeps a frame from being reclaimed. Pins nest, and a frame is born with one:
whoever asked for it unpins it once the page is mapped.

In the kernel an assignment is a `FrameEntry`, `backs` is `is`, `ownedBy` is `frames_of`,
`takeFree` is `try_allocate`, `giveBack` is what `free` does to the table, `reclaim` is
what `release_owner` does, and `resident?` is the look-up that `update_pins` begins with.
The hand of the clock is kept behind a lock of its own there.
-/

namespace DemandPaging

/-- The page that a frame backs. -/
structure Assignment where
  owner : SpaceId
  upage : Nat
  /-- Outstanding pins; a pinned frame is never reclaimed. -/
  pins : Nat
  /-- Whether the contents are being saved at the moment. -/
  evicting : Bool
  deriving DecidableEq, Repr

namespace Assignment

/-- A new assignment has one pin. -/
def fresh (owner : SpaceId) (upage : Nat) : Assignment :=
  { owner := owner, upage := upage, pins := 1, evicting := false }

/-- Whether the frame backs the given page. -/
def backs (a : Assignment) (owner : SpaceId) (upage : Nat) : Bool :=
  a.owner == owner && a.upage == upage

/-- Whether the frame may be reclaimed. -/
def isCandidate (a : Assignment) : Bool := a.pins == 0 && !a.evicting

end Assignment

/-- The frame pool with the use of its frames. -/
structure FrameTable (n : Nat) where
  pool : FramePool n
  assignments : Vector (Option Assignment) n
  /-- The frame that the clock looks at next. -/
  hand : Nat := 0
  /-- How often the clock goes round before it gives up. -/
  revolutions : Nat

namespace FrameTable

variable {n : Nat}

/-- The table of a pool with no frame assigned. -/
def create (pool : FramePool n) (revolutions : Nat) : FrameTable n :=
  { pool := pool, assignments := Vector.replicate n none, revolutions := revolutions }

/-- Number of assigned frames. -/
def size (t : FrameTable n) : Nat := t.assignments.toList.countP Option.isSome

/-- Assign a frame, or unassign it. -/
def assign (t : FrameTable n) (i : Fin n) (a : Option Assignment) : FrameTable n :=
  { t with assignments := t.assignments.set i a i.isLt }

theorem assignments_assign (t : FrameTable n) (i j : Fin n) (a : Option Assignment) :
    (t.assign i a).assignments.get j = if j = i then a else t.assignments.get j :=
  get_set _ _ _ _

/-- The frames of one owner, in order, with the pages that they back. -/
def ownedBy (t : FrameTable n) (owner : SpaceId) : List (Fin n × Nat) :=
  (List.finRange n).filterMap fun i =>
    match t.assignments.get i with
    | some a => if a.owner = owner then some (i, a.upage) else none
    | none => none

/-- Assign a free frame of the pool to a page, if there is one. -/
def takeFree (t : FrameTable n) (owner : SpaceId) (upage : Nat) : Option (Fin n × FrameTable n) :=
  match t.pool.handOut with
  | none => none
  | some (i, pool) => some (i, { t with pool := pool }.assign i (some (.fresh owner upage)))

/-- Take a frame back from its owner. -/
def giveBack (t : FrameTable n) (owner : SpaceId) (i : Fin n) : Except Fatal (FrameTable n) :=
  match t.assignments.get i with
  | none => .error (.notOwner (t.pool.frameAddress i))
  | some a =>
    if a.owner = owner ∧ a.evicting = false then
      match t.pool.takeBack i with
      | .ok pool => .ok ({ t with pool := pool }.assign i none)
      | .error fatal => .error fatal
    else .error (.notOwner (t.pool.frameAddress i))

/-- Unassign frames and return them to the pool, whoever they belong to. -/
def reclaim (t : FrameTable n) (frames : List (Fin n)) : Except Fatal (FrameTable n) :=
  frames.foldlM (fun t i =>
    match t.pool.takeBack i with
    | .ok pool => .ok ({ t with pool := pool }.assign i none)
    | .error fatal => .error fatal) t

/-- Replace the contents of a frame. -/
def write (t : FrameTable n) (i : Fin n) (page : Page) : FrameTable n :=
  { t with pool := t.pool.write i page }

/-- The frame that a page is mapped to, if the frame is in the pool, assigned to
that very page, and not being evicted. -/
def resident? (t : FrameTable n) (directory : PageDirectory) (owner : SpaceId) (upage : Nat) :
    Option (Fin n × Assignment) :=
  match (directory.frameAddress? upage).bind t.pool.frameHolding? with
  | none => none
  | some i =>
    match t.assignments.get i with
    | none => none
    | some a => if a.backs owner upage && !a.evicting then some (i, a) else none

end FrameTable

end DemandPaging
