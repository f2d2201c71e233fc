import DemandPaging.Frames.SecondChance
import DemandPaging.Proofs.Changes
/-!
# Frames that are handed out and taken back

What the bookkeeping of the frame table does to the two records that it keeps of a frame,
whether it is handed out and what it is assigned to. A frame is refused only when all are
handed out (`inUse_of_takeFree_eq_none`), and a frame that is handed out is always taken
back (`giveBack_eq_ok`, `reclaim_eq_ok`).

The sweep of the clock is described by the assignments that the hand passes over
(`sweep_eq`): their pages lose the accessed flag, and nothing else changes.
-/

namespace DemandPaging

variable {n : Nat}

namespace FramePool

theorem handOut_eq_some {pool pool' : FramePool n} {i : Fin n}
    (h : pool.handOut = some (i, pool')) :
    pool.inUse.get i = false
      ∧ pool' = { pool with inUse := pool.inUse.set i true i.isLt, start := (i.val + 1) % n,
                            handedOut := pool.handedOut + 1 } := by
  unfold handOut at h
  split at h
  next => cases h
  next j hj =>
    cases h
    have hfree := List.find?_some hj
    exact ⟨by simpa using hfree, rfl⟩

/-- Going round once from the start of the search meets every frame. -/
theorem exists_probe_eq (pool : FramePool n) (i : Fin n) : ∃ k, pool.probe k = i := by
  have hn : 0 < n := Nat.lt_of_le_of_lt (Nat.zero_le _) i.isLt
  have hstart := Nat.mod_lt pool.start hn
  have hi := i.isLt
  by_cases hle : pool.start % n ≤ i.val
  · refine ⟨⟨i.val - pool.start % n, by omega⟩, Fin.ext ?_⟩
    show (pool.start + (i.val - pool.start % n)) % n = i.val
    rw [← Nat.mod_add_mod, Nat.add_sub_cancel' hle, Nat.mod_eq_of_lt hi]
  · refine ⟨⟨i.val + n - pool.start % n, by omega⟩, Fin.ext ?_⟩
    show (pool.start + (i.val + n - pool.start % n)) % n = i.val
    rw [← Nat.mod_add_mod, Nat.add_sub_cancel' (by omega), Nat.add_mod_right, Nat.mod_eq_of_lt hi]

/-- The pool refuses a frame only when all of them are handed out. -/
theorem inUse_of_handOut_eq_none {pool : FramePool n} (h : pool.handOut = none) (i : Fin n) :
    pool.inUse.get i = true := by
  unfold handOut at h
  split at h
  next hnone =>
    obtain ⟨k, hk⟩ := pool.exists_probe_eq i
    have hprobe := List.find?_eq_none.mp hnone i
      (List.mem_map.mpr ⟨k, List.mem_finRange k, hk⟩)
    simpa using hprobe
  next => cases h

/-- The pool after taking back a frame that was handed out. -/
def without (pool : FramePool n) (i : Fin n) : FramePool n :=
  { pool with inUse := pool.inUse.set i false i.isLt, handedOut := pool.handedOut - 1 }

theorem takeBack_eq_ok {pool : FramePool n} {i : Fin n} (h : pool.inUse.get i = true) :
    pool.takeBack i = .ok (pool.without i) := by
  unfold takeBack
  rw [if_pos h]
  rfl

end FramePool

namespace FrameTable

/-- The table after a frame was unassigned and returned to the pool. -/
def without (t : FrameTable n) (i : Fin n) : FrameTable n :=
  { t with pool := t.pool.without i }.assign i none

theorem takeFree_eq_some {t t' : FrameTable n} {owner : SpaceId} {upage : Nat} {i : Fin n}
    (h : t.takeFree owner upage = some (i, t')) :
    t.pool.inUse.get i = false
      ∧ (∀ j, t'.pool.inUse.get j = if j = i then true else t.pool.inUse.get j)
      ∧ (∀ j, t'.assignments.get j
          = if j = i then some (.fresh owner upage) else t.assignments.get j)
      ∧ t'.pool.base = t.pool.base ∧ t'.pool.contents = t.pool.contents := by
  unfold takeFree at h
  split at h
  next => cases h
  next j pool hpool =>
    cases h
    obtain ⟨hfree, rfl⟩ := FramePool.handOut_eq_some hpool
    exact ⟨hfree, fun j => get_set _ _ _ _, fun j => assignments_assign _ _ _ _, rfl, rfl⟩

theorem hand_of_takeFree {t t' : FrameTable n} {owner : SpaceId} {upage : Nat} {i : Fin n}
    (h : t.takeFree owner upage = some (i, t')) : t'.hand = t.hand := by
  unfold takeFree at h
  split at h
  next => cases h
  next =>
    cases h
    rfl

theorem inUse_of_takeFree_eq_none {t : FrameTable n} {owner : SpaceId} {upage : Nat}
    (h : t.takeFree owner upage = none) (i : Fin n) : t.pool.inUse.get i = true := by
  unfold takeFree at h
  split at h
  next hnone => exact FramePool.inUse_of_handOut_eq_none hnone i
  next => cases h

theorem inUse_without (t : FrameTable n) (i j : Fin n) :
    (t.without i).pool.inUse.get j = if j = i then false else t.pool.inUse.get j :=
  get_set _ _ _ _

theorem assignments_without (t : FrameTable n) (i j : Fin n) :
    (t.without i).assignments.get j = if j = i then none else t.assignments.get j :=
  assignments_assign _ _ _ _

/-- A frame is taken back from the owner that it is assigned to. -/
theorem giveBack_eq_ok {t : FrameTable n} {owner : SpaceId} {i : Fin n} {a : Assignment}
    (hi : t.assignments.get i = some a) (howner : a.owner = owner) (hevicting : a.evicting = false)
    (huse : t.pool.inUse.get i = true) : t.giveBack owner i = .ok (t.without i) := by
  unfold giveBack
  rw [hi]
  simp only
  rw [if_pos ⟨howner, hevicting⟩, FramePool.takeBack_eq_ok huse]
  rfl

/-- Frames that are handed out are all taken back, each of them once. -/
theorem reclaim_eq_ok {t : FrameTable n} {frames : List (Fin n)} (hnodup : frames.Nodup)
    (huse : ∀ i ∈ frames, t.pool.inUse.get i = true) :
    t.reclaim frames = .ok (frames.foldl without t) := by
  induction frames generalizing t with
  | nil => rfl
  | cons i rest ih =>
    have hi := huse i (List.mem_cons_self ..)
    have hrest : ∀ j ∈ rest, (t.without i).pool.inUse.get j = true := by
      intro j hj
      rw [inUse_without, if_neg fun h : j = i => (List.nodup_cons.mp hnodup).1 (h ▸ hj)]
      exact huse j (List.mem_cons_of_mem _ hj)
    have hstep := ih (List.nodup_cons.mp hnodup).2 hrest
    unfold reclaim at hstep ⊢
    rw [List.foldlM_cons, FramePool.takeBack_eq_ok hi, List.foldl_cons]
    exact hstep

theorem inUse_foldl_without (frames : List (Fin n)) (t : FrameTable n) (j : Fin n) :
    (frames.foldl without t).pool.inUse.get j = true
      ↔ t.pool.inUse.get j = true ∧ j ∉ frames := by
  induction frames generalizing t with
  | nil => simp
  | cons i rest ih =>
    rw [List.foldl_cons, ih, inUse_without]
    by_cases hj : j = i
    · simp [hj]
    · simp [hj]

theorem assignments_foldl_without (frames : List (Fin n)) (t : FrameTable n) (j : Fin n)
    (a : Assignment) :
    (frames.foldl without t).assignments.get j = some a
      ↔ t.assignments.get j = some a ∧ j ∉ frames := by
  induction frames generalizing t with
  | nil => simp
  | cons i rest ih =>
    rw [List.foldl_cons, ih, assignments_without]
    by_cases hj : j = i
    · simp [hj]
    · simp [hj]

/-- Taking frames back touches neither their contents nor where the pool lies. -/
theorem pool_foldl_without (frames : List (Fin n)) (t : FrameTable n) :
    (frames.foldl without t).pool.base = t.pool.base
      ∧ (frames.foldl without t).pool.contents = t.pool.contents := by
  induction frames generalizing t with
  | nil => exact ⟨rfl, rfl⟩
  | cons i rest ih =>
    rw [List.foldl_cons, (ih _).1, (ih _).2]
    exact ⟨rfl, rfl⟩

theorem hand_foldl_without (frames : List (Fin n)) (t : FrameTable n) :
    (frames.foldl without t).hand = t.hand := by
  induction frames generalizing t with
  | nil => rfl
  | cons i rest ih => exact (ih (t.without i)).trans rfl

theorem mem_ownedBy {t : FrameTable n} {owner : SpaceId} {i : Fin n} {upage : Nat} :
    (i, upage) ∈ t.ownedBy owner
      ↔ ∃ a, t.assignments.get i = some a ∧ a.owner = owner ∧ a.upage = upage := by
  unfold ownedBy
  rw [List.mem_filterMap]
  constructor
  · intro h
    obtain ⟨j, _, hj⟩ := h
    split at hj
    next a ha =>
      split at hj
      next howner =>
        cases hj
        exact ⟨a, ha, howner, rfl⟩
      next => cases hj
    next => cases hj
  · intro h
    obtain ⟨a, ha, howner, rfl⟩ := h
    refine ⟨i, List.mem_finRange i, ?_⟩
    rw [ha]
    simp only
    rw [if_pos howner]

theorem mem_frames_ownedBy {t : FrameTable n} {owner : SpaceId} {i : Fin n} :
    i ∈ (t.ownedBy owner).map Prod.fst
      ↔ ∃ a, t.assignments.get i = some a ∧ a.owner = owner := by
  rw [List.mem_map]
  constructor
  · intro h
    obtain ⟨⟨j, u⟩, hj, rfl⟩ := h
    obtain ⟨a, ha, howner, _⟩ := mem_ownedBy.mp hj
    exact ⟨a, ha, howner⟩
  · intro h
    obtain ⟨a, ha, howner⟩ := h
    exact ⟨(i, a.upage), mem_ownedBy.mpr ⟨a, ha, howner, rfl⟩, rfl⟩

theorem nodup_ownedBy (t : FrameTable n) (owner : SpaceId) :
    ((t.ownedBy owner).map Prod.fst).Nodup := by
  unfold ownedBy
  refine List.pairwise_map.mpr (List.pairwise_filterMap.mpr ?_)
  refine (List.nodup_finRange n).imp fun {i j} hij p hp q hq => ?_
  have hi : p.1 = i := by
    split at hp
    next =>
      split at hp
      · cases hp
        rfl
      · cases hp
    next => cases hp
  have hj : q.1 = j := by
    split at hq
    next =>
      split at hq
      · cases hq
        rfl
      · cases hq
    next => cases hq
  rw [hi, hj]
  exact hij

end FrameTable

/-! ## The sweep -/

/-- Spaces that differ from others in some flags of some pages at most. -/
structure Spaces.Reflagged (flags : List PageFlag) (a b : Spaces) : Prop where
  size : b.size = a.size
  frameAddress? : ∀ id u,
    (b.lookup id).directory.frameAddress? u = (a.lookup id).directory.frameAddress? u
  has : ∀ flag id u, flag ∉ flags →
    (b.lookup id).directory.has flag u = (a.lookup id).directory.has flag u
  reserved : ∀ id, (b.lookup id).directory.reserved = (a.lookup id).directory.reserved
  descriptors : ∀ id, (b.lookup id).descriptors = (a.lookup id).descriptors
  mappings : ∀ id, (b.lookup id).mappings = (a.lookup id).mappings
  pid : ∀ id, (b.lookup id).pid = (a.lookup id).pid

namespace Spaces.Reflagged

variable {flags : List PageFlag} {a b c : Spaces}

theorem refl : Reflagged flags a a :=
  ⟨rfl, fun _ _ => rfl, fun _ _ _ _ => rfl, fun _ => rfl, fun _ => rfl, fun _ => rfl, fun _ => rfl⟩

theorem trans (h : Reflagged flags a b) (h' : Reflagged flags b c) : Reflagged flags a c where
  size := h'.size.trans h.size
  frameAddress? id u := (h'.frameAddress? id u).trans (h.frameAddress? id u)
  has flag id u hne := (h'.has flag id u hne).trans (h.has flag id u hne)
  reserved id := (h'.reserved id).trans (h.reserved id)
  descriptors id := (h'.descriptors id).trans (h.descriptors id)
  mappings id := (h'.mappings id).trans (h.mappings id)
  pid id := (h'.pid id).trans (h.pid id)

/-- A change of one page directory in its flags. -/
theorem update (id : SpaceId) {g : PageDirectory → PageDirectory}
    (haddr : ∀ d u, (g d).frameAddress? u = d.frameAddress? u)
    (hhas : ∀ d flag u, flag ∉ flags → (g d).has flag u = d.has flag u)
    (hreserved : ∀ d, (g d).reserved = d.reserved) :
    Reflagged flags a (a.update id fun s => { s with directory := g s.directory }) := by
  -- away from the space nothing is different, and there only what `g` does
  have hcases : ∀ other, (a.update id fun s => { s with directory := g s.directory }).lookup other
      = { a.lookup other with directory := g (a.lookup other).directory }
      ∨ (a.update id fun s => { s with directory := g s.directory }).lookup other
        = a.lookup other := by
    intro other
    rw [lookup_update]
    split
    next h => exact Or.inl (by rw [h.1])
    next => exact Or.inr rfl
  refine ⟨size_update .., ?_, ?_, ?_, ?_, ?_, ?_⟩
  · intro other u
    rcases hcases other with h | h
    · rw [h, haddr]
    · rw [h]
  · intro flag other u hflag
    rcases hcases other with h | h
    · rw [h, hhas _ _ _ hflag]
    · rw [h]
  · intro other
    rcases hcases other with h | h
    · rw [h, hreserved]
    · rw [h]
  · intro other
    rcases hcases other with h | h
    · rw [h]
    · rw [h]
  · intro other
    rcases hcases other with h | h
    · rw [h]
    · rw [h]
  · intro other
    rcases hcases other with h | h
    · rw [h]
    · rw [h]

theorem update_setFlag (a : Spaces) (id : SpaceId) (flag : PageFlag) (upage : Nat) (value : Bool) :
    Reflagged [flag] a (a.update id fun s =>
      { s with directory := s.directory.setFlag flag upage value }) :=
  update id (fun _ _ => PageDirectory.frameAddress?_setFlag ..)
    (fun d other u h => by rw [PageDirectory.has_setFlag, if_neg fun hc => h (by simp [hc.2])])
    fun _ => rfl

end Spaces.Reflagged

/-- The spaces after the pages of some assignments lost the accessed flag, in order. -/
def Spaces.notAccessed (passed : List Assignment) (spaces : Spaces) : Spaces :=
  passed.foldl (fun spaces a => spaces.update a.owner fun s =>
    { s with directory := s.directory.setFlag .accessed a.upage false }) spaces

theorem Spaces.Reflagged.notAccessed (passed : List Assignment) (spaces : Spaces) :
    Reflagged [.accessed] spaces (spaces.notAccessed passed) := by
  induction passed generalizing spaces with
  | nil => exact refl
  | cons a rest ih => exact (update_setFlag spaces a.owner .accessed a.upage false).trans (ih _)

namespace SecondChance

theorem candidate?_eq_some {assignments : Vector (Option Assignment) n} {hand : Nat} {i : Fin n}
    {a : Assignment} (h : candidate? assignments hand = some (i, a)) :
    assignments.get i = some a ∧ a.isCandidate = true := by
  unfold candidate? at h
  split at h
  next hlt =>
    split at h
    next b hb =>
      split at h
      next hc =>
        cases h
        exact ⟨hb, hc⟩
      next => cases h
    next => cases h
  next => cases h

/-- The sweep takes the accessed flag from candidates that it passes over, and its victim
is a candidate. -/
theorem sweep_eq (assignments : Vector (Option Assignment) n) (steps hand : Nat) (spaces : Spaces) :
    ∃ passed hand', (∀ a ∈ passed, ∃ i, assignments.get i = some a ∧ a.isCandidate = true)
      ∧ (sweep assignments steps hand spaces).2 = (hand', spaces.notAccessed passed)
      ∧ ∀ i, (sweep assignments steps hand spaces).1 = some i →
        ∃ a, assignments.get i = some a ∧ a.isCandidate = true := by
  induction steps generalizing hand spaces with
  | zero => exact ⟨[], hand, by simp, rfl, by simp [sweep]⟩
  | succ steps ih =>
    unfold sweep
    split
    next => exact ih ..
    next i a hcandidate =>
      obtain ⟨hi, hc⟩ := candidate?_eq_some hcandidate
      split
      next =>
        obtain ⟨passed, hand', hpassed, hstate, hvictim⟩ := ih ((hand + 1) % n)
          (spaces.update a.owner fun s =>
            { s with directory := s.directory.setFlag .accessed a.upage false })
        refine ⟨a :: passed, hand', ?_, hstate, hvictim⟩
        intro b hb
        rcases List.mem_cons.mp hb with rfl | hb
        · exact ⟨i, hi, hc⟩
        · exact hpassed b hb
      next =>
        refine ⟨[], (hand + 1) % n, by simp, rfl, ?_⟩
        intro j hj
        cases hj
        exact ⟨a, hi, hc⟩

/-- The hand moves from one frame to the next and never off the frames. -/
theorem sweep_hand_lt {assignments : Vector (Option Assignment) n} {hand : Nat} (h : hand < n)
    (steps : Nat) (spaces : Spaces) : (sweep assignments steps hand spaces).2.1 < n := by
  induction steps generalizing hand spaces with
  | zero => exact h
  | succ steps ih =>
    have hnext : (hand + 1) % n < n := Nat.mod_lt _ (Nat.lt_of_le_of_lt (Nat.zero_le _) h)
    unfold sweep
    split
    next => exact ih hnext spaces
    next =>
      split
      next => exact ih hnext _
      next => exact hnext

/-- A search is a sweep of some number of steps. -/
theorem exists_sweep_of_search {overflow : Overflow}
    {assignments : Vector (Option Assignment) n} {revolutions hand : Nat} {spaces : Spaces}
    {result : Option (Fin n) × Nat × Spaces}
    (h : search overflow assignments revolutions hand spaces = .ok result) :
    ∃ steps, sweep assignments steps hand spaces = result := by
  unfold search at h
  split at h
  next steps _ => exact ⟨steps, Except.ok.inj h⟩
  next => cases h

theorem search_hand_lt {overflow : Overflow} {assignments : Vector (Option Assignment) n}
    {revolutions hand hand' : Nat} {spaces spaces' : Spaces} {victim? : Option (Fin n)}
    (hsearch : search overflow assignments revolutions hand spaces = .ok (victim?, hand', spaces'))
    (h : hand < n) : hand' < n := by
  obtain ⟨steps, hsweep⟩ := exists_sweep_of_search hsearch
  have hlt : (sweep assignments steps hand spaces).2.1 < n := sweep_hand_lt h steps spaces
  rwa [hsweep] at hlt

end SecondChance

end DemandPaging
