import Mathlib.Data.Set.Function
import DemandPaging.Proofs.SlotOwners
/-!
# Who holds the frames

In every state of a run the frames that are handed out are those that are assigned, and the
assignments and the entries of the page directories are the same thing seen from two sides:
they stand in bijection, and the entry of a page points to the frame that is assigned to it
(`Visited.frames_exact`). So no frame is mapped by two pages, and none that is free is mapped.

The pool also counts the frames that it hands out. That the count is right takes a look at
every move (`Quiet.counted`, `Visible.counted`): only four kinds of them hand frames out or
take them back, and each frame that changes hands was, or was not, assigned before.
-/

namespace DemandPaging

open Pager

variable {n : Nat}

/-! ## Counting assigned frames -/

namespace FrameTable

variable {t t' : FrameTable n}

/-- The pool has counted the frames that are assigned. -/
def Counted (t : FrameTable n) : Prop := t.pool.handedOut = t.size

theorem size_le (t : FrameTable n) : t.size ≤ n :=
  Nat.le_trans List.countP_le_length (Nat.le_of_eq (Vector.length_toList))

theorem size_assign (t : FrameTable n) (i : Fin n) (a : Option Assignment) :
    (t.assign i a).size
      = t.size - (if (t.assignments.get i).isSome then 1 else 0) + if a.isSome then 1 else 0 := by
  unfold size assign
  simp only
  rw [Vector.toList_set, List.countP_set (by rw [Vector.length_toList]; exact i.isLt),
    Vector.getElem_toList]
  rfl

theorem size_pos {i : Fin n} (h : (t.assignments.get i).isSome = true) : 0 < t.size := by
  refine List.countP_pos_iff.mpr ⟨t.assignments.get i, ?_, h⟩
  exact Vector.mem_toList_iff.mpr (Vector.getElem_mem i.isLt)

/-- A frame that is assigned may be assigned to another page. -/
theorem Counted.assign_some (h : t.Counted) {i : Fin n} {a : Assignment}
    (hi : (t.assignments.get i).isSome = true) : (t.assign i (some a)).Counted := by
  have hpos := size_pos hi
  have h : t.pool.handedOut = t.size := h
  have hsize := t.size_assign i (some a)
  rw [if_pos hi, if_pos Option.isSome_some, Nat.sub_add_cancel hpos] at hsize
  exact h.trans hsize.symm

theorem Counted.takeFree {owner : SpaceId} {upage : Nat} {i : Fin n} (h : t.Counted)
    (hi : t.assignments.get i = none) (htake : t.takeFree owner upage = some (i, t')) :
    t'.Counted := by
  have h : t.pool.handedOut = t.size := h
  unfold FrameTable.takeFree at htake
  split at htake
  next => cases htake
  next j pool hpool =>
    cases htake
    obtain ⟨_, rfl⟩ := FramePool.handOut_eq_some hpool
    have hsize := t.size_assign i (some (.fresh owner upage))
    rw [hi, if_neg (by simp), if_pos Option.isSome_some, Nat.sub_zero] at hsize
    show t.pool.handedOut + 1 = _
    rw [h]
    exact hsize.symm

theorem Counted.without {i : Fin n} (h : t.Counted) (hi : (t.assignments.get i).isSome = true) :
    (t.without i).Counted := by
  have h : t.pool.handedOut = t.size := h
  have hsize := t.size_assign i none
  rw [if_pos hi, if_neg (by simp), Nat.add_zero] at hsize
  show t.pool.handedOut - 1 = _
  rw [h]
  exact hsize.symm

/-- Frames that are assigned may all be taken back, each of them once. -/
theorem Counted.foldl_without {frames : List (Fin n)} (h : t.Counted) (hnodup : frames.Nodup)
    (hframes : ∀ i ∈ frames, (t.assignments.get i).isSome = true) :
    (frames.foldl FrameTable.without t).Counted := by
  induction frames generalizing t with
  | nil => exact h
  | cons i rest ih =>
    rw [List.foldl_cons]
    refine ih (h.without (hframes i (List.mem_cons_self ..))) (List.nodup_cons.mp hnodup).2 ?_
    intro j hj
    rw [assignments_without, if_neg fun hji : j = i => (List.nodup_cons.mp hnodup).1 (hji ▸ hj)]
    exact hframes j (List.mem_cons_of_mem _ hj)

end FrameTable

/-! ## The count along a run -/

theorem Pager.FramesAgree.assignment?_eq_none {p : Pager n} {flight : Option (Fin n)}
    (h : p.FramesAgree flight) {i : Fin n} (hi : p.frames.pool.inUse.get i = false) :
    p.assignment? i = none := by
  rw [h.inUse] at hi
  exact Option.not_isSome_iff_eq_none.mp (by simp [hi])

theorem Quiet.counted {S : Array OpenFile → Prop} {p q : Pager n} {f g : Option (Fin n)}
    (move : Quiet S p f q g) (hp : p.FramesAgree f) (h : p.frames.Counted) : q.frames.Counted := by
  cases move with
  | swept | scribbled | settled | accessed => exact h
  | took _ _ _ _ htake =>
    have hfree := (FrameTable.takeFree_eq_some htake).1
    exact h.takeFree (hp.assignment?_eq_none hfree) htake
  | evicted _ _ _ _ hvictim =>
    exact FrameTable.Counted.assign_some (t := p.frames.write _ .zero) h
      (Option.isSome_iff_exists.mpr ⟨_, hvictim⟩)
  | returned =>
    obtain ⟨a, ha, _⟩ := hp.flying _ rfl
    exact h.without (Option.isSome_iff_exists.mpr ⟨a, ha⟩)
  | pinned hi => exact h.assign_some (Option.isSome_iff_exists.mpr ⟨_, hi⟩)

theorem Visible.counted {p q : Pager n} {f g : Option (Fin n)} {c : Change}
    (move : Visible p f c q g) (h : p.frames.Counted) : q.frames.Counted := by
  cases move with
  | grown | stored | dirtied | described | mapped | unlisted | droppedAbsent | closed
  | rewritten => exact h
  | droppedPresent _ _ _ hi => exact h.without (Option.isSome_iff_exists.mpr ⟨_, hi⟩)
  | @vacated id =>
    refine h.foldl_without (p.frames.nodup_ownedBy id) ?_
    intro i hi
    obtain ⟨a, ha, _⟩ := FrameTable.mem_frames_ownedBy.mp hi
    exact Option.isSome_iff_exists.mpr ⟨a, ha⟩

theorem Chain.counted {S : Array OpenFile → Prop} {p q : Pager n} {f g : Option (Fin n)}
    {cs : List Change} (h : Chain S p f cs q g) (hp : p.Agrees f) (hcounted : p.frames.Counted) :
    q.frames.Counted := by
  induction h with
  | refl => exact hcounted
  | quiet h move ih => exact move.counted (h.agrees hp).frames ih
  | visible h move ih => exact move.counted ih

/-- At the start no frame is handed out, and none is assigned. -/
theorem Pager.IsStart.counted {p : Pager n} (h : p.IsStart) : p.frames.Counted := by
  obtain ⟨base, device, config, files, pids, _, hboot⟩ := h
  unfold Pager.boot Pager.create FramePool.create at hboot
  split at hboot
  next => cases hboot
  next pool hpool =>
    split at hpool
    next =>
      cases hpool
      split at hboot
      next => cases hboot
      next q hq =>
        cases hboot
        split at hq
        next =>
          cases hq
          show 0 = (Vector.replicate n none).toList.countP Option.isSome
          rw [Vector.toList_replicate, List.countP_replicate, if_neg (by simp)]
        next => cases hq
    next => cases hpool

/-- In each state of a run the pool has counted the frames that are assigned. -/
theorem Pager.Visited.counted {p : Pager n} (hp : p.Visited) : p.frames.Counted := by
  obtain ⟨s, es, hs, hpassed⟩ := hp
  refine hpassed.preserves (I := fun r => r.frames.Counted) (P := fun _ => True)
    (H := fun _ => True) ?_ hs.agrees (fun _ _ => trivial) (fun _ _ => trivial) hs.counted
  intro p r e hp he _ _ hpasses hcounted
  obtain ⟨cs, _, hchain⟩ := hpasses.chain (S := fun _ => True) hp he fun _ _ => trivial
  exact hchain.counted hp hcounted

/-! ## Assignments and page directories -/

namespace Pager

/-- The frames that are assigned, each with its assignment. -/
def assigned (p : Pager n) : Set (Fin n × Assignment) := fun e => p.assignment? e.1 = some e.2

/-- The entries of all page directories: the spaces and page numbers that have one. -/
def directoryEntries (p : Pager n) : Set (SpaceId × Nat) :=
  fun e => ((p.space e.1).directory.entries.find? e.2).isSome = true

/-- The page that an assignment speaks of, as the page directories number it. -/
def pageOf (e : Fin n × Assignment) : SpaceId × Nat := (e.2.owner, pageNumber e.2.upage)

theorem mem_directoryEntries {p : Pager n} {id : SpaceId} {u : Nat} :
    (id, pageNumber u) ∈ p.directoryEntries ↔ (p.address? id u).isSome = true := by
  unfold address? PageDirectory.frameAddress?
  rw [Option.isSome_map]
  exact Iff.rfl

/-- The assignments are the entries of the page directories. -/
theorem FramesAgree.bijOn {p : Pager n} (h : p.FramesAgree none) :
    Set.BijOn pageOf p.assigned p.directoryEntries := by
  refine ⟨?_, ?_, ?_⟩
  · intro ⟨i, a⟩ hi
    have hmapped := h.mapped i a hi (by simp)
    exact mem_directoryEntries.mpr (Option.isSome_iff_exists.mpr ⟨_, hmapped⟩)
  · intro ⟨i, a⟩ hi ⟨j, b⟩ hj heq
    have ha : p.assignment? i = some a := hi
    have hb : p.assignment? j = some b := hj
    obtain ⟨howner, hnumber⟩ := Prod.mk.inj heq
    -- aligned addresses with one page number are one address
    have hupage : a.upage = b.upage := by
      rw [← (h.upage i a ha).1.pageBase_eq, ← (h.upage j b hb).1.pageBase_eq]
      exact congrArg (· * pageSize) hnumber
    have hij := h.eq_of_same_page ha hb howner hupage
    subst hij
    rw [ha] at hb
    cases hb
    rfl
  · intro ⟨id, k⟩ hk
    have hnumber : pageNumber (k * pageSize) = k := Nat.mul_div_cancel k pageSize_pos
    rw [← hnumber] at hk
    obtain ⟨x, hx⟩ := Option.isSome_iff_exists.mp (mem_directoryEntries.mp hk)
    obtain ⟨i, a, ha, _, howner, hupage, _⟩ := h.frame_of_address hx
    refine ⟨(i, a), ha, Prod.ext howner ?_⟩
    show pageNumber a.upage = k
    rw [hupage, pageNumber_eq_iff.mpr (pageAligned_pageBase _).pageBase_eq, hnumber]

/-- Frame pool, assignments and page directories are exact. A frame is handed out exactly when
it is assigned; the pool has counted these frames; none is being evicted. The assignments are
in bijection with the entries of all page directories, and the page of an assignment is mapped
to the frame that is assigned. So a mapped page is mapped to a frame that is handed out and
assigned to just this page, and two pages are never mapped to one frame. -/
theorem Visited.frames_exact {p : Pager n} (hp : p.Visited) :
    (∀ i, p.frames.pool.inUse.get i = true ↔ (p.assignment? i).isSome = true)
      ∧ p.frames.pool.handedOut = p.frames.size ∧ p.frames.pool.handedOut ≤ n
      ∧ (∀ i a, p.assignment? i = some a → a.evicting = false)
      ∧ Set.BijOn pageOf p.assigned p.directoryEntries
      ∧ (∀ i a, p.assignment? i = some a → p.address? a.owner a.upage = some (p.frameAddress i))
      ∧ (∀ id u x, p.address? id u = some x → ∃ i a, x = p.frameAddress i
          ∧ p.frames.pool.inUse.get i = true ∧ p.assignment? i = some a ∧ a.owner = id
          ∧ a.upage = pageBase u)
      ∧ ∀ id u id' u' x, p.address? id u = some x → p.address? id' u' = some x →
          id = id' ∧ pageBase u = pageBase u' := by
  have hframes := hp.agrees.frames
  have hcounted : p.frames.pool.handedOut = p.frames.size := hp.counted
  refine ⟨fun i => by rw [hframes.inUse], hcounted, hcounted ▸ p.frames.size_le,
    hframes.evicting, hframes.bijOn, fun i a ha => hframes.mapped i a ha (by simp), ?_, ?_⟩
  · intro id u x hx
    obtain ⟨i, a, ha, _, howner, hupage, hframe⟩ := hframes.frame_of_address hx
    exact ⟨i, a, hframe, by rw [hframes.inUse, ha]; rfl, ha, howner, hupage⟩
  · intro id u id' u' x hx hx'
    obtain ⟨i, a, ha, _, rfl, hupage, rfl⟩ := hframes.frame_of_address hx
    obtain ⟨j, b, hb, _, rfl, hupage', hframe⟩ := hframes.frame_of_address hx'
    have hij := frameAddress_inj hframe
    subst hij
    rw [ha] at hb
    cases hb
    exact ⟨rfl, hupage.symm.trans hupage'⟩

/-- With one frame, the second page of a stack takes it from the first one. Then the frame is
handed out, the pool has counted it, and it is the second page that is mapped to it. -/
theorem Visited.frames_exact_oneFrame :
    ((oneFrame #[]).ran twoStackPages).frames.pool.handedOut = 1
      ∧ ((oneFrame #[]).ran twoStackPages).frames.pool.inUse.get 0 = true
      ∧ ((oneFrame #[]).ran twoStackPages).address? 0 nextPage
        = some (((oneFrame #[]).ran twoStackPages).frameAddress 0)
      ∧ ((oneFrame #[]).ran twoStackPages).address? 0 topPage = none := by
  have hrun : Run (oneFrame #[]) twoStackPages _ := run_ran (by decide +kernel)
  obtain ⟨huse, hcounted, _, _, _, hmapped, htaken, _⟩ := Visited.frames_exact
    (Reachable.visited ⟨_, _, isStart_oneFrame #[], hrun⟩)
  have hassigned : ((oneFrame #[]).ran twoStackPages).assignment? 0
      = some ⟨0, nextPage, 0, false⟩ := by decide +kernel
  have hnext := hmapped 0 _ hassigned
  refine ⟨hcounted.trans (by decide +kernel), (huse 0).mpr (by rw [hassigned]; rfl), hnext, ?_⟩
  -- were the first page mapped, then to the only frame, which is assigned to the second
  refine Option.eq_none_iff_forall_not_mem.mpr ?_
  intro x hx
  obtain ⟨i, a, _, _, ha, _, hupage⟩ := htaken 0 topPage x hx
  rw [Subsingleton.elim i 0, hassigned] at ha
  cases ha
  exact absurd hupage (by decide)

end Pager

end DemandPaging
