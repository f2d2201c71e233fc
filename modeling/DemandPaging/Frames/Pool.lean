import DemandPaging.Bytes
import DemandPaging.Failure
import DemandPaging.Hardware.BitField
/-!
# The frame pool

`n` consecutive page frames from an aligned base address on, with their contents
and a mark for each frame that is handed out. Frames are handed out by next fit:
the search starts after the frame handed out last and goes round once.

Handing a frame out or taking it back does not touch its contents.

The marks are truth values here. The core map has a byte for each frame, and the mark is
the lowest bit of it (`coreMap`); what is done to the marks is what is done to that bit
(`coreMap_mark`).

In the kernel the pool is `PhysicalMemory` with its `NextFit`, `handOut` is `alloc`,
`takeBack` is `dealloc`, `frameAddress` is `frame_at`, `frameOf` is `index_of` and
`frameHolding?` is `frame_containing`. A frame goes by its number here, and by its address
there.
-/

namespace DemandPaging

/-- What is recorded for one frame leaves the record of the others alone. -/
theorem get_set {α : Type} {n : Nat} (records : Vector α n) (i j : Fin n) (a : α) :
    (records.set i a i.isLt).get j = if j = i then a else records.get j := by
  show (records.set i a i.isLt)[j.val] = if j = i then a else records[j.val]
  simp only [Vector.getElem_set, Fin.ext_iff, eq_comm]

theorem get_replicate {α : Type} {n : Nat} (a : α) (i : Fin n) :
    (Vector.replicate n a).get i = a := by
  show (Vector.replicate n a)[i.val] = a
  exact Vector.getElem_replicate _

/-- A pool of `n` page frames. -/
structure FramePool (n : Nat) where
  /-- The physical address of the first frame. -/
  base : Nat
  base_aligned : PageAligned base
  contents : Vector Page n
  /-- Which frames are handed out. -/
  inUse : Vector Bool n
  /-- Where the search for a free frame starts. -/
  start : Nat
  /-- How many frames are handed out. -/
  handedOut : Nat

namespace FramePool

variable {n : Nat}

/-- A pool with every frame free and zero. The base must be aligned. -/
def create (base n : Nat) : Except Fatal (FramePool n) :=
  if h : PageAligned base then
    .ok { base := base, base_aligned := h, contents := Vector.replicate n Page.zero
          inUse := Vector.replicate n false, start := 0, handedOut := 0 }
  else .error (.poolNotAligned base)

/-- The address of the `i`-th frame from the base on, in the pool or beyond it. -/
def frameAddress (pool : FramePool n) (i : Nat) : Nat := pool.base + i * pageSize

/-- The frame of the pool that holds a physical address. -/
def frameHolding? (pool : FramePool n) (address : Nat) : Option (Fin n) :=
  if h : pool.base ≤ address ∧ (address - pool.base) / pageSize < n then
    some ⟨(address - pool.base) / pageSize, h.2⟩
  else none

/-- The frame at a physical address, which must lie in the pool. -/
def frameOf (pool : FramePool n) (address : Nat) : Except Fatal (Fin n) :=
  match pool.frameHolding? address with
  | some i => .ok i
  | none => .error (.outsidePool address)

/-- The frame `i` steps after the place where the search starts, going round. -/
def probe (pool : FramePool n) (i : Fin n) : Fin n :=
  ⟨(pool.start + i.val) % n, Nat.mod_lt _ (Nat.lt_of_le_of_lt (Nat.zero_le _) i.isLt)⟩

/-- The free frame that is handed out next. -/
def nextFree? (pool : FramePool n) : Option (Fin n) :=
  ((List.finRange n).map pool.probe).find? fun i => !pool.inUse.get i

/-- Hand out a free frame, if there is one. -/
def handOut (pool : FramePool n) : Option (Fin n × FramePool n) :=
  match pool.nextFree? with
  | none => none
  | some i =>
    some (i,
      { pool with
        inUse := pool.inUse.set i true i.isLt
        start := (i.val + 1) % n
        handedOut := pool.handedOut + 1 })

/-- Take a frame back. -/
def takeBack (pool : FramePool n) (i : Fin n) : Except Fatal (FramePool n) :=
  if pool.inUse.get i then
    .ok { pool with inUse := pool.inUse.set i false i.isLt, handedOut := pool.handedOut - 1 }
  else .error (.doubleFree (pool.frameAddress i))

/-- Replace the contents of a frame. -/
def write (pool : FramePool n) (i : Fin n) (page : Page) : FramePool n :=
  { pool with contents := pool.contents.set i page i.isLt }

/-- Writing a frame leaves the contents of the others as they are. -/
theorem contents_write (pool : FramePool n) (i j : Fin n) (page : Page) :
    (pool.write i page).contents.get j = if j = i then page else pool.contents.get j :=
  get_set _ _ _ _

/-- An entry of the core map, which is packed in a byte. -/
structure CoreMapEntry where
  word : BitVec 8

namespace CoreMapEntry

/-- The entry of a frame that was never handed out. -/
def free : CoreMapEntry := ⟨0⟩

/-- Whether the frame is handed out. -/
def allocated (e : CoreMapEntry) : Bool := e.word.getLsbD 0

/-- The entry with its mark written. -/
def withAllocated (e : CoreMapEntry) (value : Bool) : CoreMapEntry := ⟨Bits.withBit e.word 0 value⟩

/-- The reader and the writer of the mark. -/
def allocatedField : BitField 8 0 1 := .ofBit (by decide)

theorem allocated_withAllocated (e : CoreMapEntry) (value : Bool) :
    (e.withAllocated value).allocated = value := by
  have h := congrArg (BitVec.getLsbD · 0)
    (allocatedField.read_write e.word (BitVec.ofBool value))
  rwa [allocatedField, BitField.write_ofBit, BitField.read_ofBit, BitVec.getLsbD_ofBool] at h

theorem withAllocated_withAllocated (a b : Bool) :
    (free.withAllocated a).withAllocated b = free.withAllocated b := by
  cases a <;> cases b <;> rfl

end CoreMapEntry

/-- The core map of a pool. -/
def coreMap (pool : FramePool n) : Vector CoreMapEntry n :=
  pool.inUse.map CoreMapEntry.free.withAllocated

theorem get_coreMap (pool : FramePool n) (i : Fin n) :
    pool.coreMap.get i = CoreMapEntry.free.withAllocated (pool.inUse.get i) := by
  show (pool.inUse.map _)[i.val] = CoreMapEntry.free.withAllocated pool.inUse[i.val]
  exact Vector.getElem_map ..

/-- A frame is handed out just if its entry says so. -/
theorem allocated_coreMap (pool : FramePool n) (i : Fin n) :
    (pool.coreMap.get i).allocated = pool.inUse.get i := by
  rw [get_coreMap, CoreMapEntry.allocated_withAllocated]

/-- To mark a frame is to write the bit in its entry. -/
theorem coreMap_mark {pool pool' : FramePool n} {i : Fin n} {value : Bool}
    (h : pool'.inUse = pool.inUse.set i value i.isLt) :
    pool'.coreMap = pool.coreMap.set i ((pool.coreMap.get i).withAllocated value) i.isLt := by
  rw [get_coreMap, CoreMapEntry.withAllocated_withAllocated, coreMap, h, coreMap]
  exact Vector.map_set ..

theorem coreMap_create {base n : Nat} {pool : FramePool n} (h : create base n = .ok pool) :
    pool.coreMap = Vector.replicate n .free := by
  unfold create at h
  split at h
  next =>
    cases h
    exact Vector.map_replicate
  next => cases h

theorem coreMap_handOut {pool pool' : FramePool n} {i : Fin n}
    (h : pool.handOut = some (i, pool')) :
    pool'.coreMap = pool.coreMap.set i ((pool.coreMap.get i).withAllocated true) i.isLt := by
  unfold handOut at h
  split at h
  next => cases h
  next =>
    cases h
    exact coreMap_mark rfl

theorem coreMap_takeBack {pool pool' : FramePool n} {i : Fin n} (h : pool.takeBack i = .ok pool') :
    pool'.coreMap = pool.coreMap.set i ((pool.coreMap.get i).withAllocated false) i.isLt := by
  unfold takeBack at h
  split at h
  next =>
    cases h
    exact coreMap_mark rfl
  next => cases h

/-- A frame of the pool holds exactly the addresses of its page. -/
theorem frameHolding?_eq_some_iff {pool : FramePool n} {address : Nat} {i : Fin n} :
    pool.frameHolding? address = some i
      ↔ pool.frameAddress i ≤ address ∧ address < pool.frameAddress i + pageSize := by
  have hpos := pageSize_pos
  unfold frameHolding? frameAddress
  constructor
  · intro h
    split at h
    next hin =>
      cases h
      have hdiv := Nat.div_add_mod' (address - pool.base) pageSize
      have hmod := Nat.mod_lt (address - pool.base) hpos
      simp only
      omega
    next => cases h
  · intro ⟨hlow, hhigh⟩
    have hdiv : (address - pool.base) / pageSize = i.val := by
      refine Nat.div_eq_of_lt_le ?_ ?_
      · omega
      · rw [Nat.add_mul, Nat.one_mul]
        omega
    rw [dif_pos ⟨by omega, hdiv ▸ i.isLt⟩]
    exact congrArg some (Fin.ext hdiv)

theorem frameHolding?_frameAddress (pool : FramePool n) (i : Fin n) :
    pool.frameHolding? (pool.frameAddress i) = some i :=
  frameHolding?_eq_some_iff.mpr ⟨Nat.le_refl _, Nat.lt_add_of_pos_right pageSize_pos⟩

end FramePool

end DemandPaging
