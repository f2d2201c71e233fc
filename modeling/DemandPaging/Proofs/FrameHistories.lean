import Mathlib.Data.Fintype.Card
import DemandPaging.Proofs.SegmentPages
import DemandPaging.Proofs.VictimSearch
/-!
# What a frame pool hands out

`FramePool.History base pool out last? written` says that `pool` can result from creating a pool at
`base` and then handing frames out, taking them back and writing to them in any order. The other
three are the record of it: which frames are out, which of them was handed out last, and what was
written to each frame last.

`FramePool.Records` is what every operation preserves. From it `FramePool.History.nextFit` reads off
what the next operation answers: next fit is the first frame that is not out, in the order in which
frames are met from behind the one that was handed out last.

`handOut?` and `takeBack?` do the same with numbers that end, as a machine has them. They have no
answer where a sum is too large, a difference is negative, a remainder is by zero or an index lies
outside. That does not happen in a pool whose addresses all lie below the limit.
-/

namespace DemandPaging

namespace FramePool

open SecondChance

variable {n base limit : Nat} {pool pool' : FramePool n} {i : Fin n} {out : List (Fin n)}
  {last? : Option (Fin n)} {written : Fin n → Page}

/-! ## Next fit -/

/-- The frame that is met after `k` steps is `k` ahead. -/
theorem distance_probe (hstart : pool.start < n) (k : Fin n) :
    distance pool.start (pool.probe k) = k.val := by
  obtain ⟨i, hi⟩ := exists_distance_eq hstart k.isLt
  have hprobe : pool.probe k = i := by
    refine Fin.ext ?_
    show (pool.start + k.val) % n = i.val
    rw [← hi, add_distance hstart]
  rw [hprobe, hi]

/-- The frame that is handed out next is the first one that is free. -/
theorem isFirst_of_nextFree? (hstart : pool.start < n) (h : pool.nextFree? = some i) :
    IsFirst pool.start (fun j => pool.inUse.get j = false) i := by
  obtain ⟨hfree, k, hk, hprobe, hbefore⟩ := List.find?_eq_some_iff_getElem.mp h
  refine ⟨by simpa using hfree, fun j hj => Nat.le_of_not_lt fun hless => ?_⟩
  obtain ⟨m, hm⟩ := pool.exists_probe_eq j
  have hkn : k < n := by simpa using hk
  have hi : distance pool.start i = k := by
    have hprobe : pool.probe ⟨k, hkn⟩ = i := by simpa using hprobe
    rw [← hprobe, distance_probe hstart]
  rw [hi, ← hm, distance_probe hstart] at hless
  -- the frame was met before and found to be in use
  have hused := hbefore m.val hless
  simp only [List.getElem_map, List.getElem_finRange, Fin.cast_mk, Fin.eta, hm, hj] at hused
  exact absurd hused (by decide)

/-! ## Numbers that end -/

/-- The remainder, unless it is by zero. -/
def remainder? (a b : Nat) : Option Nat := if b = 0 then none else some (a % b)

/-- Look at `count` frames, from the one that is `i` steps after the start on, for a free one. -/
def seek? (limit : Nat) (pool : FramePool n) : (count i : Nat) → Option (Option (Fin n))
  | 0, _ => some none
  | count + 1, i =>
    match (sumBelow? limit pool.start i).bind (remainder? · n) with
    | none => none
    | some found =>
      if h : found < n then
        if pool.inUse.get ⟨found, h⟩ then seek? limit pool count (i + 1) else some (some ⟨found, h⟩)
      else none

/-- Hand out a free frame, if there is one, and answer its address. -/
def handOut? (limit : Nat) (pool : FramePool n) : Option (Option (Nat × FramePool n)) :=
  match pool.seek? limit n 0 with
  | none => none
  | some none => some none
  | some (some i) =>
    match (sumBelow? limit i.val 1).bind (remainder? · n), sumBelow? limit pool.handedOut 1,
      sumBelow? limit pool.base (i.val * pageSize) with
    | some start, some handedOut, some address =>
      some (some (address,
        { pool with inUse := pool.inUse.set i true i.isLt, start := start, handedOut := handedOut }))
    | _, _, _ => none

/-- Take the frame at an address back. -/
def takeBack? (pool : FramePool n) (address : Nat) : Option (Except Fatal (FramePool n)) :=
  match difference? address pool.base with
  | none => none
  | some distance =>
    if h : distance / pageSize < n then
      if pool.inUse.get ⟨distance / pageSize, h⟩ then
        (difference? pool.handedOut 1).map fun handedOut =>
          .ok { pool with
            inUse := pool.inUse.set (distance / pageSize) false h, handedOut := handedOut }
      else some (.error (.doubleFree address))
    else some (.error (.outsidePool address))

theorem seek?_eq (hstart : pool.start < n) (hlimit : 2 * n ≤ limit) (count i : Nat)
    (hall : i + count = n) :
    pool.seek? limit count i
      = some ((((List.finRange n).drop i).map pool.probe).find? fun j => !pool.inUse.get j) := by
  induction count generalizing i with
  | zero =>
    rw [List.drop_eq_nil_of_le (by simp; omega)]
    rfl
  | succ count ih =>
    have hi : i < n := by omega
    have hsum : (sumBelow? limit pool.start i).bind (remainder? · n)
        = some (pool.probe ⟨i, hi⟩).val := by
      rw [show sumBelow? limit pool.start i = some (pool.start + i) from if_pos (by omega)]
      exact if_neg (by omega)
    have hdrop : (List.finRange n).drop i = ⟨i, hi⟩ :: (List.finRange n).drop (i + 1) := by
      rw [List.drop_eq_getElem_cons (by simpa using hi)]
      simp
    unfold seek?
    rw [hsum, hdrop, List.map_cons, List.find?_cons]
    simp only [Fin.eta, Fin.is_lt, dif_pos]
    cases huse : pool.inUse.get (pool.probe ⟨i, hi⟩) with
    | true => exact ih (i + 1) (by omega)
    | false => rfl

/-! ## The record of a history -/

/-- Where next fit starts: behind the frame that was handed out last, or at the first frame. -/
def startAfter : Option (Fin n) → Nat
  | none => 0
  | some i => (i.val + 1) % n

/-- `pool` can result from creating a pool of `n` frames at `base` and using it. -/
inductive History (base : Nat) :
    FramePool n → List (Fin n) → Option (Fin n) → (Fin n → Page) → Prop
  | created {pool : FramePool n} (h : create base n = .ok pool) :
      History base pool [] none fun _ => .zero
  | handedOut {pool pool' : FramePool n} {out : List (Fin n)} {last? : Option (Fin n)}
      {written : Fin n → Page} {i : Fin n} (hpool : History base pool out last? written)
      (h : pool.handOut = some (i, pool')) : History base pool' (i :: out) (some i) written
  | takenBack {pool pool' : FramePool n} {out : List (Fin n)} {last? : Option (Fin n)}
      {written : Fin n → Page} {i : Fin n} (hpool : History base pool out last? written)
      (h : pool.takeBack i = .ok pool') : History base pool' (out.erase i) last? written
  | rewritten {pool : FramePool n} {out : List (Fin n)} {last? : Option (Fin n)}
      {written : Fin n → Page} (hpool : History base pool out last? written) (i : Fin n)
      (page : Page) :
      History base (pool.write i page) out last? fun j => if j = i then page else written j

/-- What the bookkeeping of a pool says about the frames that are out. -/
structure Records (base : Nat) (pool : FramePool n) (out : List (Fin n)) (last? : Option (Fin n))
    (written : Fin n → Page) : Prop where
  base_eq : pool.base = base
  start_eq : pool.start = startAfter last?
  inUse_iff : ∀ i, pool.inUse.get i = true ↔ i ∈ out
  nodup : out.Nodup
  handedOut_eq : pool.handedOut = out.length
  contents_eq : ∀ i, pool.contents.get i = written i

namespace Records

theorem created (h : create base n = .ok pool) : Records base pool [] none fun _ => .zero := by
  unfold create at h
  split at h
  next =>
    cases h
    exact {
      base_eq := rfl
      start_eq := rfl
      inUse_iff := fun i => by
        rw [get_replicate]
        simp
      nodup := List.nodup_nil
      handedOut_eq := rfl
      contents_eq := fun i => get_replicate _ i }
  next => cases h

theorem handedOut (hpool : Records base pool out last? written)
    (h : pool.handOut = some (i, pool')) : Records base pool' (i :: out) (some i) written := by
  obtain ⟨hfree, rfl⟩ := handOut_eq_some h
  exact {
    base_eq := hpool.base_eq
    start_eq := rfl
    inUse_iff := fun j => by
      show (pool.inUse.set i true i.isLt).get j = true ↔ j ∈ i :: out
      rw [get_set, List.mem_cons, ← hpool.inUse_iff j]
      by_cases hj : j = i
      · simp [hj]
      · simp [hj]
    nodup := by
      refine List.nodup_cons.mpr ⟨fun hmem => ?_, hpool.nodup⟩
      exact absurd ((hpool.inUse_iff i).mpr hmem) (by simp [hfree])
    handedOut_eq := congrArg (· + 1) hpool.handedOut_eq
    contents_eq := hpool.contents_eq }

theorem takenBack (hpool : Records base pool out last? written)
    (h : pool.takeBack i = .ok pool') : Records base pool' (out.erase i) last? written := by
  unfold takeBack at h
  split at h
  next huse =>
    cases h
    have hout := (hpool.inUse_iff i).mp huse
    exact {
      base_eq := hpool.base_eq
      start_eq := hpool.start_eq
      inUse_iff := fun j => by
        show (pool.inUse.set i false i.isLt).get j = true ↔ j ∈ out.erase i
        rw [get_set, hpool.nodup.mem_erase_iff, ← hpool.inUse_iff j]
        by_cases hj : j = i
        · simp [hj]
        · simp [hj]
      nodup := hpool.nodup.erase i
      handedOut_eq := by
        rw [List.length_erase_of_mem hout, ← hpool.handedOut_eq]
      contents_eq := hpool.contents_eq }
  next => cases h

theorem rewritten (hpool : Records base pool out last? written) (i : Fin n) (page : Page) :
    Records base (pool.write i page) out last? fun j => if j = i then page else written j :=
  { hpool with
    contents_eq := fun j => by rw [contents_write, hpool.contents_eq j] }

/-- There are as many frames out as there are frames at most. -/
theorem length_le (hpool : Records base pool out last? written) : out.length ≤ n := by
  simpa using hpool.nodup.length_le_card

theorem start_lt (hpool : Records base pool out last? written) (hn : 0 < n) : pool.start < n := by
  rw [hpool.start_eq]
  cases last? with
  | none => exact hn
  | some i => exact Nat.mod_lt _ hn

end Records

/-- The record of a history is right. -/
theorem History.records (h : History base pool out last? written) :
    Records base pool out last? written := by
  induction h with
  | created h => exact .created h
  | handedOut _ h ih => exact ih.handedOut h
  | takenBack _ h ih => exact ih.takenBack h
  | rewritten _ i page ih => exact ih.rewritten i page

/-! ## What the next operation answers -/

namespace Records

/-- A pool refuses a frame exactly when all of them are out. -/
theorem handOut_cases (hpool : Records base pool out last? written) :
    out.length = n ∧ pool.handOut = none
      ∨ ∃ i pool', out.length < n ∧ pool.handOut = some (i, pool')
        ∧ IsFirst (startAfter last?) (· ∉ out) i := by
  cases h : pool.handOut with
  | none =>
    left
    have hall : ∀ i, i ∈ out := fun i =>
      (hpool.inUse_iff i).mp (inUse_of_handOut_eq_none h i)
    have hlength := List.Nodup.length_le_of_subset (List.nodup_finRange n) fun i _ => hall i
    rw [List.length_finRange] at hlength
    exact ⟨Nat.le_antisymm hpool.length_le hlength, rfl⟩
  | some answer =>
    right
    obtain ⟨i, pool'⟩ := answer
    refine ⟨i, pool', (hpool.handedOut h).length_le, rfl, ?_⟩
    have hnext : pool.nextFree? = some i := by
      unfold handOut at h
      split at h
      next => cases h
      next j hj =>
        cases h
        exact hj
    have hfirst := isFirst_of_nextFree? (hpool.start_lt (Fin.pos i)) hnext
    rw [← hpool.start_eq]
    exact ⟨fun hmem => absurd ((hpool.inUse_iff i).mpr hmem) (by simp [hfirst.holds]),
      fun j hj => hfirst.least j (Bool.not_eq_true _ ▸ fun huse => hj ((hpool.inUse_iff j).mp huse))⟩

/-- No number that handing a frame out needs is too large. -/
theorem handOut?_eq (hpool : Records base pool out last? written)
    (hlimit : pool.frameAddress n ≤ limit) :
    pool.handOut? limit
      = some (pool.handOut.map fun answer => (pool.frameAddress answer.1, answer.2)) := by
  have hbound : pool.base + n * 4096 ≤ limit := hlimit
  have hseek : pool.seek? limit n 0 = some pool.nextFree? := by
    rcases Nat.eq_zero_or_pos n with rfl | hn
    · rfl
    · rw [seek?_eq (hpool.start_lt hn) (by omega) n 0 (Nat.zero_add n)]
      rfl
  unfold handOut? handOut
  rw [hseek]
  cases hnext : pool.nextFree? with
  | none => rfl
  | some i =>
    have hi := i.isLt
    have hmany : pool.handedOut < n := by
      obtain ⟨hfull, hnone⟩ | ⟨_, _, hless, _⟩ := hpool.handOut_cases
      · unfold handOut at hnone
        rw [hnext] at hnone
        cases hnone
      · rw [hpool.handedOut_eq]
        exact hless
    have hstart : (sumBelow? limit i.val 1).bind (remainder? · n) = some ((i.val + 1) % n) := by
      rw [show sumBelow? limit i.val 1 = some (i.val + 1) from if_pos (by omega)]
      exact if_neg (by omega)
    have hcount : sumBelow? limit pool.handedOut 1 = some (pool.handedOut + 1) :=
      if_pos (by omega)
    have haddress : sumBelow? limit pool.base (i.val * pageSize) = some (pool.frameAddress i) :=
      if_pos (show pool.base + i.val * 4096 < limit by omega)
    simp only [hstart, hcount, haddress]
    rfl

/-- No number that taking a frame back needs is negative. -/
theorem takeBack?_eq (hpool : Records base pool out last? written) (i : Fin n) :
    pool.takeBack? (pool.frameAddress i) = some (pool.takeBack i) := by
  have hdistance : difference? (pool.frameAddress i) pool.base = some (i.val * pageSize) :=
    difference?_eq_some_iff.mpr (Nat.add_comm ..)
  have hdiv : i.val * pageSize / pageSize = i.val := Nat.mul_div_cancel _ pageSize_pos
  unfold takeBack? takeBack
  rw [hdistance]
  simp only [hdiv, Fin.eta, Fin.is_lt, dif_pos]
  split
  next huse =>
    have hout := (hpool.inUse_iff i).mp huse
    have hpos : 1 ≤ pool.handedOut := by
      rw [hpool.handedOut_eq]
      exact List.length_pos_of_mem hout
    rw [show difference? pool.handedOut 1 = some (pool.handedOut - 1) from if_pos hpos]
    rfl
  next => rfl

theorem takeBack_cases (hpool : Records base pool out last? written) (i : Fin n) :
    i ∈ out ∧ pool.takeBack i = .ok (pool.without i)
      ∨ i ∉ out ∧ pool.takeBack i = .error (.doubleFree (pool.frameAddress i)) := by
  by_cases huse : pool.inUse.get i = true
  · exact Or.inl ⟨(hpool.inUse_iff i).mp huse, takeBack_eq_ok huse⟩
  · exact Or.inr ⟨fun hout => huse ((hpool.inUse_iff i).mpr hout), if_neg huse⟩

end Records

theorem frameAddress_inj {i j : Nat} : pool.frameAddress i = pool.frameAddress j ↔ i = j := by
  unfold frameAddress
  rw [Nat.add_left_cancel_iff, Nat.mul_right_cancel_iff pageSize_pos]

/-- The frame at an address is found where the address lies in it and it is one of the pool. -/
theorem frameHolding?_map_frameAddress {address i : Nat} :
    (pool.frameHolding? address).map (pool.frameAddress ·.val) = some (pool.frameAddress i)
      ↔ i < n ∧ pool.frameAddress i ≤ address ∧ address < pool.frameAddress (i + 1) := by
  have hend : pool.frameAddress (i + 1) = pool.frameAddress i + pageSize := by
    unfold frameAddress
    rw [Nat.add_mul, Nat.one_mul, Nat.add_assoc]
  rw [Option.map_eq_some_iff, hend]
  constructor
  · intro ⟨j, hj, hsame⟩
    rw [frameAddress_inj] at hsame
    subst hsame
    exact ⟨j.isLt, frameHolding?_eq_some_iff.mp hj⟩
  · intro ⟨hi, hin⟩
    exact ⟨⟨i, hi⟩, frameHolding?_eq_some_iff.mpr hin, rfl⟩

/-- **A frame pool is an exact next-fit allocator.** After any history of handing frames out,
taking them back and writing to them, the frames that are out are pairwise different, they are
counted, and a frame is refused exactly when all are out. Otherwise the first frame that is not out
is handed out, going round from behind the one that was handed out last. A frame is taken back
exactly when it is out. Each frame has what was written to it last. No number that is needed ends
too early where the addresses of the pool lie below the limit, and no remainder is by zero. Every
address belongs to the frame of the pool in which it lies, if there is one. -/
theorem History.nextFit (h : History base pool out last? written) :
    out.Nodup ∧ pool.handedOut = out.length ∧ out.length ≤ n
      ∧ (out.length = n ∧ pool.handOut = none
        ∨ ∃ i pool', out.length < n ∧ pool.handOut = some (i, pool')
          ∧ IsFirst (startAfter last?) (· ∉ out) i)
      ∧ (∀ i, i ∈ out ∧ pool.takeBack i = .ok (pool.without i)
        ∨ i ∉ out ∧ pool.takeBack i = .error (.doubleFree (pool.frameAddress i)))
      ∧ (∀ i, pool.contents.get i = written i)
      ∧ (∀ limit, pool.frameAddress n ≤ limit →
        pool.handOut? limit
            = some (pool.handOut.map fun answer => (pool.frameAddress answer.1, answer.2))
          ∧ ∀ i : Fin n, pool.takeBack? (pool.frameAddress i) = some (pool.takeBack i))
      ∧ (∀ address i, (pool.frameHolding? address).map (pool.frameAddress ·.val)
          = some (pool.frameAddress i)
        ↔ i < n ∧ base + i * pageSize ≤ address ∧ address < base + (i + 1) * pageSize)
      ∧ ∀ i : Fin n, pool.frameOf (pool.frameAddress i) = .ok i := by
  have hpool := h.records
  refine ⟨hpool.nodup, hpool.handedOut_eq, hpool.length_le, hpool.handOut_cases,
    hpool.takeBack_cases, hpool.contents_eq, ?_, ?_, ?_⟩
  · exact fun limit hlimit => ⟨hpool.handOut?_eq hlimit, hpool.takeBack?_eq⟩
  · intro address i
    rw [← hpool.base_eq]
    exact frameHolding?_map_frameAddress
  · intro i
    unfold frameOf
    rw [frameHolding?_frameAddress]

/-- A pool of two frames of which the first was handed out. -/
def oneOut : FramePool 2 where
  base := pageSize
  base_aligned := by decide
  contents := Vector.replicate 2 .zero
  inUse := #v[true, false]
  start := 1
  handedOut := 1

/-- The second of two frames is handed out after the first, at an address that is in range. -/
theorem History.nextFit_oneOut :
    History pageSize oneOut [0] (some 0) (fun _ => .zero) ∧ oneOut.frameAddress 2 ≤ 4294967296
      ∧ ∃ pool', oneOut.handOut = some (1, pool')
        ∧ oneOut.handOut? 4294967296 = some (some (oneOut.frameAddress 1, pool')) := by
  have hhistory : History pageSize oneOut [0] (some 0) fun _ => .zero :=
    .handedOut (.created rfl) rfl
  have hlimit : oneOut.frameAddress 2 ≤ 4294967296 := by decide
  obtain ⟨-, -, -, hnext, -, -, hends, -⟩ := hhistory.nextFit
  refine ⟨hhistory, hlimit, ?_⟩
  obtain ⟨hfull, -⟩ | ⟨i, pool', -, hout, hfirst⟩ := hnext
  · exact absurd hfull (by decide)
  · have hi : i = 1 := by
      have hne : i ≠ 0 := fun h => hfirst.holds (h ▸ List.mem_singleton_self _)
      omega
    subst hi
    have hbounded := (hends 4294967296 hlimit).1
    rw [hout] at hbounded
    exact ⟨pool', hout, hbounded⟩

end FramePool

end DemandPaging
