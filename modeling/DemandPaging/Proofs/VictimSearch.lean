import DemandPaging.Pager.Eviction
import DemandPaging.Proofs.FrameUse
/-!
# The clock is second chance

Which frame the search for a victim finds, where the hand is left, and which accessed flags
it costs. Frames are compared by how far ahead of the hand they lie (`distance`), and what
happened to the spaces is said page by page (`Unmarked`).

The argument goes by partial revolutions: as long as the hand comes to candidates that are
marked, and for one revolution at most, it clears the flags of exactly these (`sweep_marked`),
since no two frames back the same page. Then either the hand is at the first candidate that
was clear to begin with, or it is back where it started and all candidates are clear.

A search counts its steps in a word (`search_of_lt`). `search_none_of_wordLimit` shows what comes
of a number of revolutions that is too large for that: none are made.
-/

namespace DemandPaging.SecondChance

variable {n : Nat} {assignments : Vector (Option Assignment) n} {hand revolutions : Nat}
  {spaces : Spaces}

/-! ## What the search is about -/

/-- Frames back pages by their base addresses, and no two of them back the same page. -/
structure BacksApart (assignments : Vector (Option Assignment) n) : Prop where
  aligned : ∀ {i a}, assignments.get i = some a → PageAligned a.upage
  unique : ∀ {i j a b}, assignments.get i = some a → assignments.get j = some b →
    a.owner = b.owner → a.upage = b.upage → i = j

/-- Whether a frame may be reclaimed: it is assigned, not pinned, and not being evicted. -/
def IsCandidate (assignments : Vector (Option Assignment) n) (i : Fin n) : Prop :=
  ∃ a, assignments.get i = some a ∧ a.isCandidate = true

/-- Whether the page that a frame backs is marked as accessed. -/
def isMarked (assignments : Vector (Option Assignment) n) (spaces : Spaces) (i : Fin n) : Bool :=
  (assignments.get i).any fun a => (spaces.lookup a.owner).directory.accessed a.upage

/-- How far ahead of the hand a frame lies, going round. -/
def distance (hand : Nat) (i : Fin n) : Nat := (i.val + n - hand) % n

/-- The first frame of some kind that the hand comes to. -/
structure IsFirst (hand : Nat) (kind : Fin n → Prop) (i : Fin n) : Prop where
  holds : kind i
  least : ∀ j, kind j → distance hand i ≤ distance hand j

/-- Whether a frame may be reclaimed as it is: some candidate is clear. -/
def SomeClear (assignments : Vector (Option Assignment) n) (spaces : Spaces) : Prop :=
  ∃ i, IsCandidate assignments i ∧ isMarked assignments spaces i = false

/-- The frames of which the search takes the first that the hand comes to: the candidates that are
clear, or all candidates where none is. -/
def IsChoice (assignments : Vector (Option Assignment) n) (spaces : Spaces) (i : Fin n) : Prop :=
  IsCandidate assignments i
    ∧ (SomeClear assignments spaces → isMarked assignments spaces i = false)

/-- The frames that a search passes over before it takes `i`: the candidates before `i`, or all
candidates where none is clear. -/
def IsPassed (assignments : Vector (Option Assignment) n) (spaces : Spaces) (hand : Nat)
    (i j : Fin n) : Prop :=
  IsCandidate assignments j
    ∧ (SomeClear assignments spaces → distance hand j < distance hand i)

/-- The spaces `b` are the spaces `a` without the accessed flags of the pages that some
frames back. Nothing else about them is different. -/
structure Unmarked (assignments : Vector (Option Assignment) n) (frames : Fin n → Prop)
    (a b : Spaces) : Prop where
  size : b.size = a.size
  space : ∀ id, b.lookup id = { a.lookup id with directory := (b.lookup id).directory }
  reserved : ∀ id, (b.lookup id).directory.reserved = (a.lookup id).directory.reserved
  cleared : ∀ i x u, frames i → assignments.get i = some x → pageBase u = pageBase x.upage →
    (b.lookup x.owner).directory.lookup u
      = ((a.lookup x.owner).directory.lookup u).map (·.withFlag .accessed false)
  kept : ∀ id u,
    (∀ i x, frames i → assignments.get i = some x → x.owner = id → pageBase u ≠ pageBase x.upage) →
    (b.lookup id).directory.lookup u = (a.lookup id).directory.lookup u

/-! ## Distances -/

theorem distance_lt (hand : Nat) (i : Fin n) : distance hand i < n :=
  Nat.mod_lt _ (Nat.lt_of_le_of_lt (Nat.zero_le _) i.isLt)

/-- The hand comes to a frame after as many moves as the frame is ahead. -/
theorem add_distance (hhand : hand < n) (i : Fin n) : (hand + distance hand i) % n = i.val := by
  have hi := i.isLt
  unfold distance
  rw [Nat.add_mod_mod, show hand + (i.val + n - hand) = i.val + n by omega, Nat.add_mod_right,
    Nat.mod_eq_of_lt hi]

theorem distance_inj (hhand : hand < n) {i j : Fin n} :
    distance hand i = distance hand j ↔ i = j := by
  refine ⟨fun h => Fin.ext ?_, fun h => h ▸ rfl⟩
  rw [← add_distance hhand i, ← add_distance hhand j, h]

/-- After `k` moves the hand is at the frame that was `k` ahead. -/
theorem exists_distance_eq (hhand : hand < n) {k : Nat} (hk : k < n) :
    ∃ i : Fin n, distance hand i = k := by
  refine ⟨⟨(hand + k) % n, Nat.mod_lt _ (by omega)⟩, ?_⟩
  show ((hand + k) % n + n - hand) % n = k
  by_cases hlt : hand + k < n
  · rw [Nat.mod_eq_of_lt hlt, show hand + k + n - hand = k + n by omega, Nat.add_mod_right,
      Nat.mod_eq_of_lt hk]
  · rw [Nat.mod_eq_sub_mod (by omega : n ≤ hand + k),
      Nat.mod_eq_of_lt (by omega : hand + k - n < n),
      show hand + k - n + n - hand = k by omega, Nat.mod_eq_of_lt hk]

/-- Where there is a frame of some kind, there is a first one. -/
theorem exists_isFirst (hand : Nat) {kind : Fin n → Prop} (h : ∃ i, kind i) :
    ∃ i, IsFirst hand kind i := by
  obtain ⟨i, hi⟩ := h
  induction hd : distance hand i using Nat.strongRecOn generalizing i with
  | ind d ih =>
    by_cases hless : ∃ j, kind j ∧ distance hand j < d
    · obtain ⟨j, hj, hlt⟩ := hless
      exact ih _ hlt j hj rfl
    · exact ⟨i, hi, fun j hj => hd ▸ Nat.le_of_not_lt fun hlt => hless ⟨j, hj, hlt⟩⟩

/-! ## Pages without their flags -/

theorem BacksApart.page_ne (h : BacksApart assignments) {i j : Fin n} {a b : Assignment}
    (hi : assignments.get i = some a) (hj : assignments.get j = some b) (hne : i ≠ j)
    (howner : a.owner = b.owner) : pageBase b.upage ≠ pageBase a.upage := by
  rw [(h.aligned hi).pageBase_eq, (h.aligned hj).pageBase_eq]
  exact fun hupage => hne (h.unique hi hj howner hupage.symm)

theorem isMarked_of_assigned {i : Fin n} {a : Assignment} (h : assignments.get i = some a)
    (spaces : Spaces) :
    isMarked assignments spaces i = (spaces.lookup a.owner).directory.accessed a.upage := by
  unfold isMarked
  rw [h, Option.any_some]

namespace Unmarked

variable {frames : Fin n → Prop} {a b c : Spaces}

theorem refl (h : ∀ i, ¬ frames i) (a : Spaces) : Unmarked assignments frames a a where
  size := rfl
  space _ := rfl
  reserved _ := rfl
  cleared i _ _ hi := absurd hi (h i)
  kept _ _ _ := rfl

/-- A page that the frames do not back keeps its flag. -/
theorem isMarked_kept (h : Unmarked assignments frames a b) (hapart : BacksApart assignments)
    {i : Fin n} (hi : ¬ frames i) : isMarked assignments b i = isMarked assignments a i := by
  unfold isMarked
  cases hx : assignments.get i with
  | none => rfl
  | some x =>
    have hlookup := h.kept x.owner x.upage fun j y hj hy howner =>
      hapart.page_ne hy hx (fun hij => hi (hij ▸ hj)) howner
    rw [Option.any_some, Option.any_some]
    unfold PageDirectory.accessed PageDirectory.has
    rw [hlookup]

/-- A page that one of the frames backs has its flag clear. -/
theorem isMarked_cleared (h : Unmarked assignments frames a b) {i : Fin n} (hi : frames i) :
    isMarked assignments b i = false := by
  unfold isMarked
  cases hx : assignments.get i with
  | none => rfl
  | some x =>
    rw [Option.any_some]
    unfold PageDirectory.accessed PageDirectory.has
    rw [h.cleared i x x.upage hi hx rfl]
    cases (a.lookup x.owner).directory.lookup x.upage with
    | none => rfl
    | some e => simp [PageEntry.has_withFlag]

/-- What is kept of the flags after more pages lost none. -/
theorem trans_kept (h : Unmarked assignments frames a b)
    (hc : Unmarked assignments (fun _ => False) b c) : Unmarked assignments frames a c where
  size := hc.size.trans h.size
  space id := by rw [hc.space id, h.space id]
  reserved id := (hc.reserved id).trans (h.reserved id)
  cleared i x u hi hx hu :=
    (hc.kept x.owner u fun _ _ hf => hf.elim).trans (h.cleared i x u hi hx hu)
  kept id u hu := (hc.kept id u fun _ _ hf => hf.elim).trans (h.kept id u hu)

/-- Only which frames are meant counts, not how they are described. -/
theorem congr {frames' : Fin n → Prop} (h : Unmarked assignments frames a b)
    (hsame : ∀ i, frames' i ↔ frames i) : Unmarked assignments frames' a b := by
  have heq : frames' = frames := funext fun i => propext (hsame i)
  rw [heq]
  exact h

end Unmarked

/-- The spaces after a page lost its accessed flag. -/
theorem lookup_unmark (spaces : Spaces) (owner id : SpaceId) (upage : Nat) :
    (spaces.update owner fun s =>
        { s with directory := s.directory.setFlag .accessed upage false }).lookup id
      = if id = owner then { spaces.lookup id with
          directory := (spaces.lookup id).directory.setFlag .accessed upage false }
        else spaces.lookup id := by
  rw [Spaces.lookup_update]
  by_cases hid : id = owner
  · subst hid
    rw [if_pos rfl]
    split
    next => rfl
    next hsize =>
      -- beyond the last space there is one without pages, of which none is marked
      rw [Spaces.lookup_of_size_le (Nat.le_of_not_lt fun hlt => hsize ⟨rfl, hlt⟩)]
      rfl
  · rw [if_neg hid, if_neg fun hc => hid hc.1]

/-- One more page loses its flag. -/
theorem Unmarked.clear {frames : Fin n → Prop} {a b : Spaces} (h : Unmarked assignments frames a b)
    (hapart : BacksApart assignments) {i : Fin n} {x : Assignment} (hi : ¬ frames i)
    (hx : assignments.get i = some x) :
    Unmarked assignments (fun j => frames j ∨ j = i) a (b.update x.owner fun s =>
      { s with directory := s.directory.setFlag .accessed x.upage false }) where
  size := (Spaces.size_update ..).trans h.size
  space id := by
    rw [lookup_unmark]
    split
    · rw [h.space id]
    · exact h.space id
  reserved id := by
    rw [lookup_unmark]
    split
    · exact h.reserved id
    · exact h.reserved id
  cleared j y u hj hy hu := by
    rw [lookup_unmark]
    rcases hj with hj | rfl
    · -- the page of another frame is another page
      have hpage : y.owner = x.owner → pageBase x.upage ≠ pageBase y.upage :=
        hapart.page_ne hy hx fun hji => hi (hji ▸ hj)
      split
      next howner =>
        rw [PageDirectory.lookup_setFlag, h.cleared j y u hj hy hu]
        simp only [pageNumber_eq_iff, hu, if_neg (hpage howner).symm, Option.map_id']
      next => exact h.cleared j y u hj hy hu
    · obtain rfl : x = y := Option.some.inj (hx.symm.trans hy)
      rw [if_pos rfl, PageDirectory.lookup_setFlag, h.kept x.owner u fun k z hk hz howner => ?_]
      · simp only [pageNumber_eq_iff, hu, if_true]
      · rw [hu]
        exact hapart.page_ne hz hx (fun hki => hi (hki ▸ hk)) howner
  kept id u hu := by
    rw [lookup_unmark]
    have hkept := h.kept id u fun j y hj hy howner => hu j y (Or.inl hj) hy howner
    split
    next howner =>
      rw [PageDirectory.lookup_setFlag, hkept]
      simp only [pageNumber_eq_iff, if_neg (hu i x (Or.inr rfl) hx howner.symm), Option.map_id']
    next => exact hkept

/-! ## The sweep -/

theorem candidate?_eq_none {i : Fin n} (h : ¬ IsCandidate assignments i) :
    candidate? assignments i.val = none := by
  unfold candidate?
  rw [dif_pos i.isLt]
  split
  next a ha => exact if_neg fun hc => h ⟨a, ha, hc⟩
  next => rfl

theorem candidate?_of_assigned {i : Fin n} {a : Assignment} (hi : assignments.get i = some a)
    (hc : a.isCandidate = true) : candidate? assignments i.val = some (i, a) := by
  unfold candidate?
  rw [dif_pos i.isLt, show assignments[i.val] = some a from hi]
  simp only
  rw [if_pos hc]

/-- A frame that cannot be reclaimed is passed over. -/
theorem sweep_succ_of_not_candidate {i : Fin n} (h : ¬ IsCandidate assignments i) (steps : Nat)
    (spaces : Spaces) :
    sweep assignments (steps + 1) i.val spaces
      = sweep assignments steps ((i.val + 1) % n) spaces := by
  rw [sweep, candidate?_eq_none h]

/-- A candidate that is marked is passed over and loses its mark. -/
theorem sweep_succ_of_marked {i : Fin n} {a : Assignment} (hi : assignments.get i = some a)
    (hc : a.isCandidate = true) (hmarked : isMarked assignments spaces i = true) (steps : Nat) :
    sweep assignments (steps + 1) i.val spaces
      = sweep assignments steps ((i.val + 1) % n) (spaces.update a.owner fun s =>
          { s with directory := s.directory.setFlag .accessed a.upage false }) := by
  rw [isMarked_of_assigned hi] at hmarked
  rw [sweep, candidate?_of_assigned hi hc]
  simp only
  rw [if_pos hmarked]

/-- The sweep ends at a candidate that is clear. -/
theorem sweep_succ_of_clear {i : Fin n} (hi : IsCandidate assignments i)
    (hclear : isMarked assignments spaces i = false) (steps : Nat) :
    sweep assignments (steps + 1) i.val spaces = (some i, (i.val + 1) % n, spaces) := by
  obtain ⟨a, ha, hc⟩ := hi
  rw [isMarked_of_assigned ha] at hclear
  rw [sweep, candidate?_of_assigned ha hc]
  simp only
  rw [if_neg (by rw [hclear]; exact Bool.false_ne_true)]

/-- Where no frame can be reclaimed, the hand just moves. -/
theorem sweep_of_no_candidate (h : ∀ i, ¬ IsCandidate assignments i) (hhand : hand < n)
    (steps : Nat) (spaces : Spaces) :
    sweep assignments steps hand spaces = (none, (hand + steps) % n, spaces) := by
  induction steps generalizing hand with
  | zero => rw [sweep, Nat.add_zero, Nat.mod_eq_of_lt hhand]
  | succ steps ih =>
    rw [sweep_succ_of_not_candidate (i := ⟨hand, hhand⟩) (h _),
      ih (Nat.mod_lt _ (Nat.lt_of_le_of_lt (Nat.zero_le _) hhand)), Nat.mod_add_mod,
      Nat.add_right_comm, Nat.add_assoc]

/-- For one revolution at most, the hand passes over candidates that are marked, and exactly
these lose their marks. -/
theorem sweep_marked (hapart : BacksApart assignments) (hhand : hand < n) {k : Nat} (hk : k ≤ n)
    (hmarked : ∀ i, IsCandidate assignments i → distance hand i < k →
      isMarked assignments spaces i = true) (rest : Nat) :
    ∃ b, Unmarked assignments (fun i => IsCandidate assignments i ∧ distance hand i < k) spaces b
      ∧ sweep assignments (k + rest) hand spaces = sweep assignments rest ((hand + k) % n) b := by
  induction k generalizing rest with
  | zero =>
    refine ⟨spaces, .refl (fun i hi => Nat.not_lt_zero _ hi.2) spaces, ?_⟩
    rw [Nat.zero_add, Nat.add_zero, Nat.mod_eq_of_lt hhand]
  | succ k ih =>
    obtain ⟨b, hb, hsweep⟩ := ih (by omega) (fun i hi hlt => hmarked i hi (by omega)) (rest + 1)
    obtain ⟨i, hdist⟩ := exists_distance_eq hhand hk
    have hat : (hand + k) % n = i.val := hdist ▸ add_distance hhand i
    have hnext : (i.val + 1) % n = (hand + (k + 1)) % n := by
      rw [← hat, Nat.mod_add_mod, Nat.add_assoc]
    have hone : ∀ j, distance hand j < k + 1 ↔ distance hand j < k ∨ j = i := by
      intro j
      rw [← distance_inj hhand, hdist]
      omega
    rw [show k + 1 + rest = k + (rest + 1) by omega, hsweep, hat]
    by_cases hi : IsCandidate assignments i
    · obtain ⟨a, ha, hc⟩ := hi
      -- the candidate still has the mark that it had when the search began
      have hkept := hb.isMarked_kept hapart (i := i) fun hf => by omega
      have hstill := hkept.trans (hmarked i ⟨a, ha, hc⟩ (by omega))
      refine ⟨_, (hb.clear hapart (fun hf => by omega) ha).congr fun j => ?_, ?_⟩
      · rw [hone]
        constructor
        · rintro ⟨hj, hlt | rfl⟩
          · exact Or.inl ⟨hj, hlt⟩
          · exact Or.inr rfl
        · rintro (⟨hj, hlt⟩ | rfl)
          · exact ⟨hj, Or.inl hlt⟩
          · exact ⟨⟨a, ha, hc⟩, Or.inr rfl⟩
      · rw [sweep_succ_of_marked ha hc hstill, hnext]
    · refine ⟨b, hb.congr fun j => ?_, ?_⟩
      · rw [hone]
        constructor
        · rintro ⟨hj, hlt | rfl⟩
          · exact ⟨hj, hlt⟩
          · exact absurd hj hi
        · exact fun h => ⟨h.1, Or.inl h.2⟩
      · rw [sweep_succ_of_not_candidate hi, hnext]

/-- The sweep finds the first candidate that is clear within one revolution. -/
theorem sweep_finds (hapart : BacksApart assignments) (hhand : hand < n) {i : Fin n}
    (hfirst : IsFirst hand
      (fun i => IsCandidate assignments i ∧ isMarked assignments spaces i = false) i)
    {steps : Nat} (hsteps : n ≤ steps) :
    ∃ b, sweep assignments steps hand spaces = (some i, (i.val + 1) % n, b)
      ∧ Unmarked assignments
        (fun j => IsCandidate assignments j ∧ distance hand j < distance hand i) spaces b := by
  have hi := distance_lt hand i
  have hmarked : ∀ j, IsCandidate assignments j → distance hand j < distance hand i →
      isMarked assignments spaces j = true := by
    intro j hj hlt
    refine Bool.not_eq_false _ ▸ fun hclear => ?_
    exact absurd hlt (Nat.not_lt.mpr (hfirst.least j ⟨hj, hclear⟩))
  obtain ⟨b, hb, hsweep⟩ := sweep_marked hapart hhand (Nat.le_of_lt hi) hmarked
    (steps - distance hand i - 1 + 1)
  refine ⟨b, ?_, hb⟩
  rw [show steps = distance hand i + (steps - distance hand i - 1 + 1) by omega, hsweep,
    add_distance hhand]
  refine sweep_succ_of_clear hfirst.holds.1 ?_ _
  rw [hb.isMarked_kept hapart fun hf => Nat.lt_irrefl _ hf.2]
  exact hfirst.holds.2

/-- When all candidates are marked, one revolution clears them and comes back to the start. -/
theorem sweep_revolution (hapart : BacksApart assignments) (hhand : hand < n)
    (hall : ∀ i, IsCandidate assignments i → isMarked assignments spaces i = true) (rest : Nat) :
    ∃ b, Unmarked assignments (IsCandidate assignments) spaces b
      ∧ sweep assignments (n + rest) hand spaces = sweep assignments rest hand b := by
  obtain ⟨b, hb, hsweep⟩ := sweep_marked hapart hhand (Nat.le_refl n) (fun i hi _ => hall i hi) rest
  refine ⟨b, hb.congr fun i => ⟨fun hi => ⟨hi, distance_lt hand i⟩, And.left⟩, ?_⟩
  rw [hsweep, Nat.add_mod_right, Nat.mod_eq_of_lt hhand]

/-! ## The search -/

variable {overflow : Overflow}

theorem sweep_of_clear (hapart : BacksApart assignments) (hhand : hand < n)
    (hrevolutions : 1 ≤ revolutions) {i : Fin n}
    (hfirst : IsFirst hand
      (fun i => IsCandidate assignments i ∧ isMarked assignments spaces i = false) i) :
    ∃ b, sweep assignments (n * revolutions) hand spaces = (some i, (i.val + 1) % n, b)
      ∧ Unmarked assignments
        (fun j => IsCandidate assignments j ∧ distance hand j < distance hand i) spaces b :=
  sweep_finds hapart hhand hfirst (Nat.le_mul_of_pos_right n hrevolutions)

/-- When all candidates are marked, the first revolution clears them and the second takes the
first of them. -/
theorem sweep_of_marked (hapart : BacksApart assignments) (hhand : hand < n)
    (hrevolutions : 2 ≤ revolutions)
    (hall : ∀ i, IsCandidate assignments i → isMarked assignments spaces i = true) {i : Fin n}
    (hfirst : IsFirst hand (IsCandidate assignments) i) :
    ∃ b, sweep assignments (n * revolutions) hand spaces = (some i, (i.val + 1) % n, b)
      ∧ Unmarked assignments (IsCandidate assignments) spaces b := by
  obtain ⟨b, hb, hsweep⟩ := sweep_revolution hapart hhand hall (n * (revolutions - 1))
  have hfirst' : IsFirst hand
      (fun i => IsCandidate assignments i ∧ isMarked assignments b i = false) i :=
    ⟨⟨hfirst.holds, hb.isMarked_cleared hfirst.holds⟩, fun j hj => hfirst.least j hj.1⟩
  obtain ⟨c, hfinds, hc⟩ := sweep_finds hapart hhand hfirst'
    (Nat.le_mul_of_pos_right n (by omega : 0 < revolutions - 1))
  refine ⟨c, ?_, hb.trans_kept (hc.congr fun j => ?_)⟩
  · rw [show n * revolutions = n + n * (revolutions - 1) by
      rw [Nat.mul_sub_one, Nat.add_sub_cancel' (Nat.le_mul_of_pos_right n (by omega))], hsweep,
      hfinds]
  · -- there is no candidate before the first one
    exact ⟨False.elim, fun h => absurd h.2 (Nat.not_lt.mpr (hfirst.least j h.1))⟩

/-- A sweep that has found a frame is not changed by more steps. -/
theorem sweep_add_of_some {steps : Nat} {i : Fin n} {hand' : Nat} {b : Spaces}
    (h : sweep assignments steps hand spaces = (some i, hand', b)) (more : Nat) :
    sweep assignments (steps + more) hand spaces = (some i, hand', b) := by
  induction steps generalizing hand spaces with
  | zero => cases h
  | succ steps ih =>
    rw [Nat.add_right_comm]
    rw [sweep] at h ⊢
    cases hcandidate : candidate? assignments hand with
    | none =>
      simp only [hcandidate] at h
      exact ih h
    | some found =>
      simp only [hcandidate] at h
      simp only
      split
      next hmarked =>
        rw [if_pos hmarked] at h
        exact ih h
      next hclear =>
        rw [if_neg hclear] at h
        exact h

/-- However many steps the sweep may take: if it finds a frame, that is the first choice, the hand
is behind it, and exactly the frames that were passed over have lost their marks. -/
theorem exact_of_sweep_eq_some (hapart : BacksApart assignments) (hhand : hand < n) {steps : Nat}
    {i : Fin n} {hand' : Nat} {b : Spaces}
    (h : sweep assignments steps hand spaces = (some i, hand', b)) :
    IsFirst hand (IsChoice assignments spaces) i ∧ hand' = (i.val + 1) % n
      ∧ Unmarked assignments (IsPassed assignments spaces hand i) spaces b := by
  -- as many turns as there are steps, and two more, find the same frame
  obtain ⟨more, hmore⟩ : ∃ more, n * (steps + 2) = steps + more :=
    Nat.exists_eq_add_of_le (Nat.le_trans (Nat.le_add_right _ 2)
      (Nat.le_mul_of_pos_left _ (Nat.lt_of_le_of_lt (Nat.zero_le _) hhand)))
  have hfound : sweep assignments (n * (steps + 2)) hand spaces = (some i, hand', b) :=
    hmore ▸ sweep_add_of_some h more
  by_cases hclear : SomeClear assignments spaces
  · obtain ⟨j, hfirst⟩ := exists_isFirst hand hclear
    obtain ⟨c, hsweep, hc⟩ := sweep_of_clear hapart hhand (by omega : 1 ≤ steps + 2) hfirst
    cases hsweep.symm.trans hfound
    refine ⟨⟨⟨hfirst.holds.1, fun _ => hfirst.holds.2⟩, ?_⟩, rfl, hc.congr fun k => ?_⟩
    · exact fun k hk => hfirst.least k ⟨hk.1, hk.2 hclear⟩
    · exact ⟨fun hk => ⟨hk.1, hk.2 hclear⟩, fun hk => ⟨hk.1, fun _ => hk.2⟩⟩
  · have hall : ∀ k, IsCandidate assignments k → isMarked assignments spaces k = true :=
      fun k hk => Bool.not_eq_false _ ▸ fun hf => hclear ⟨k, hk, hf⟩
    by_cases hcandidate : ∃ k, IsCandidate assignments k
    · obtain ⟨j, hfirst⟩ := exists_isFirst hand hcandidate
      obtain ⟨c, hsweep, hc⟩ :=
        sweep_of_marked hapart hhand (by omega : 2 ≤ steps + 2) hall hfirst
      cases hsweep.symm.trans hfound
      refine ⟨⟨⟨hfirst.holds, fun hf => absurd hf hclear⟩, fun k hk => hfirst.least k hk.1⟩, rfl, ?_⟩
      exact hc.congr fun k => ⟨And.left, fun hk => ⟨hk, fun hf => absurd hf hclear⟩⟩
    · have hnone := sweep_of_no_candidate (fun k hk => hcandidate ⟨k, hk⟩) hhand
        (n * (steps + 2)) spaces
      cases hnone.symm.trans hfound

/-- What is passed over was marked. -/
theorem isMarked_of_isPassed {i j : Fin n} (hfirst : IsFirst hand (IsChoice assignments spaces) i)
    (hj : IsPassed assignments spaces hand i j) : isMarked assignments spaces j = true := by
  refine Bool.not_eq_false _ ▸ fun hclear => ?_
  have hlt := hj.2 ⟨j, hj.1, hclear⟩
  exact absurd (hfirst.least j ⟨hj.1, fun _ => hclear⟩) (Nat.not_le.mpr hlt)

end DemandPaging.SecondChance
