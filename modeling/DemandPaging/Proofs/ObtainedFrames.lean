import DemandPaging.Proofs.Runs
import DemandPaging.Proofs.VictimSearch
/-!
# What it costs to obtain a frame

A page that needs a frame gets one that is free, and then nothing else changes hands
(`Pager.TookFree`). Only when every frame is in use one page loses its frame
(`Pager.Replaced`). The frame conditions range over all spaces: frames, mappings and their
flags, descriptors, slots and files. Which frame is taken, and which accessed flags that
costs, is settled by second chance (`Turns.exact`).
-/

namespace DemandPaging

open Pager PagerAction Outcome SecondChance

variable {n : Nat}

/-! ## The flags that the sweep costs -/

/-- Frames back pages by their base addresses, and no two of them back the same page. -/
theorem Pager.FramesAgree.backsApart {p : Pager n} (h : p.FramesAgree none) :
    BacksApart p.frames.assignments where
  aligned hi := (h.upage _ _ hi).1
  unique hi hj := h.eq_of_same_page hi hj

/-- A search that finds a frame takes the first choice and clears what it passes over. -/
theorem Turns.exact {p : Pager n} {i : Fin n} {passed : List Assignment} {hand : Nat}
    (h : Turns p (some i) passed hand) (hp : p.FramesAgree none) (hhand : p.frames.hand < n) :
    IsFirst p.frames.hand (IsChoice p.frames.assignments p.spaces) i ∧ hand = (i.val + 1) % n
      ∧ Unmarked p.frames.assignments
        (IsPassed p.frames.assignments p.spaces p.frames.hand i) p.spaces
        (p.spaces.notAccessed passed) := by
  obtain ⟨steps, hsweep⟩ := exists_sweep_of_search h.search
  exact exact_of_sweep_eq_some hp.backsApart hhand hsweep

/-! ## The slot that the victim takes -/

/-- No slot was freed and at most one was claimed, and what the slots held they still hold. -/
structure SwapArea.ClaimedOne (s t : SwapArea) : Prop where
  kept : ∀ slot, s.Claimed slot → t.Claimed slot ∧ t.pageIn slot = s.pageIn slot
  once : ∀ slot slot', t.Claimed slot → ¬ s.Claimed slot → t.Claimed slot' → ¬ s.Claimed slot' →
    slot = slot'

theorem Keeps.claimedOne {swap swap' : SwapArea} {files files' : Array OpenFile} {page : Page}
    {b b' : Backing} {dirty : Bool} (h : Keeps swap files page b dirty b' swap' files')
    (hfitted : swap.Fitted) : swap.ClaimedOne swap' := by
  have hpages := (h.pageIn hfitted).2
  rcases h.slot with ⟨rfl, _⟩ | ⟨slot, hstore, _⟩
  · exact ⟨fun _ hslot => ⟨hslot, rfl⟩, fun _ _ hslot hnot => absurd hslot hnot⟩
  · obtain ⟨hlt, _, hslots, _⟩ := SwapArea.store_eq_ok hfitted hstore
    have hclaimed : ∀ other, swap'.Claimed other ↔ other = slot ∨ swap.Claimed other := by
      intro other
      unfold SwapArea.Claimed
      rw [hslots, Bitmap.isSet_put _ hlt]
      by_cases hother : other = slot
      · simp [hother]
      · simp [hother]
    refine ⟨fun other hother => ⟨(hclaimed other).mpr (Or.inr hother), hpages other hother⟩, ?_⟩
    intro s t hs hns ht hnt
    exact (((hclaimed s).mp hs).resolve_right hns).trans
      (((hclaimed t).mp ht).resolve_right hnt).symm

/-! ## The two ways to a frame -/

namespace Pager

/-- The frame `i` was free and is assigned to a page now, with one pin, and cleared if that was
asked for. Nothing else is different. -/
structure TookFree (p : Pager n) (id : SpaceId) (upage : Nat) (zero : Bool) (i : Fin n)
    (q : Pager n) : Prop where
  free : p.frames.pool.inUse.get i = false ∧ p.assignment? i = none
  inUse : ∀ j, q.frames.pool.inUse.get j = if j = i then true else p.frames.pool.inUse.get j
  assignment? : ∀ j, q.assignment? j = if j = i then some ⟨id, upage, 1, false⟩
    else p.assignment? j
  page : ∀ j, q.page j = if zero = true ∧ j = i then .zero else p.page j
  hand : q.frames.hand = p.frames.hand
  spaces : q.spaces = p.spaces
  swap : q.swap = p.swap
  files : q.files = p.files

/-- The frame `i` was taken from the page of `victim` and is assigned to another page now, with
one pin. -/
structure Replaced (p : Pager n) (id : SpaceId) (upage : Nat) (i : Fin n) (victim : Assignment)
    (q : Pager n) : Prop where
  /-- Of the frames that may be reclaimed it is the one that second chance takes. -/
  chosen : IsFirst p.frames.hand (IsChoice p.frames.assignments p.spaces) i
  hand : q.frames.hand = (i.val + 1) % n
  unpinned : p.assignment? i = some victim ∧ victim.pins = 0
  inUse : q.frames.pool.inUse = p.frames.pool.inUse
  assignment? : ∀ j, q.assignment? j = if j = i then some ⟨id, upage, 1, false⟩
    else p.assignment? j
  page : ∀ j, q.page j = if j = i then .zero else p.page j
  mappings : ∀ o, (q.space o).mappings = (p.space o).mappings
  unmapped : q.address? victim.owner victim.upage = none
  /-- What was in the frame is kept, and the descriptor of the page says where. -/
  kept : ∃ d b, (p.descriptor? victim.owner victim.upage = some d
      ∨ p.descriptor? victim.owner victim.upage = none
        ∧ d = ⟨victim.upage, .anonymous, p.has .writable victim.owner victim.upage, false⟩)
    ∧ Keeps p.swap p.files (p.page i) d.backing (p.has .dirty victim.owner victim.upage) b q.swap
        q.files
    ∧ q.descriptor? victim.owner victim.upage = some { d with backing := b, loaded := false }
  address? : ∀ o u, ¬(o = victim.owner ∧ pageBase u = victim.upage) →
    q.address? o u = p.address? o u
  /-- The flags of the other pages are those that the search for a victim left. -/
  swept : ∃ spaces, search p.config.overflow p.frames.assignments p.frames.revolutions
      p.frames.hand p.spaces = .ok (some i, q.frames.hand, spaces)
    ∧ ∀ flag o u, ¬(o = victim.owner ∧ pageBase u = victim.upage) →
      q.has flag o u = (spaces.lookup o).directory.has flag u
  /-- The pages that the search passed over had the accessed flag and have lost it. -/
  cleared : ∀ j a, IsPassed p.frames.assignments p.spaces p.frames.hand i j → j ≠ i →
    p.assignment? j = some a →
    p.has .accessed a.owner a.upage = true ∧ q.has .accessed a.owner a.upage = false
  /-- All other flags of all other pages are as they were. -/
  has : ∀ flag o u, ¬(o = victim.owner ∧ pageBase u = victim.upage) →
    (flag = .accessed → ∀ j a, IsPassed p.frames.assignments p.spaces p.frames.hand i j →
      p.assignment? j = some a → a.owner = o → a.upage ≠ pageBase u) →
    q.has flag o u = p.has flag o u
  descriptor? : ∀ o u, ¬(o = victim.owner ∧ u = victim.upage) →
    q.descriptor? o u = p.descriptor? o u
  slots : p.swap.ClaimedOne q.swap

/-- The descriptor that the page of a victim has, or that it gets for being evicted. -/
theorem descriptor_getOrAdd {p : Pager n} {o : SpaceId} {v : Nat} {writable : Bool} {d : Descriptor}
    (hd : d = ((p.space o).descriptors.getOrAdd v .anonymous writable).1) :
    p.descriptor? o v = some d
      ∨ p.descriptor? o v = none ∧ d = ⟨v, .anonymous, writable, false⟩ := by
  unfold DescriptorTable.getOrAdd at hd
  split at hd
  next e he =>
    subst hd
    exact Or.inl he
  next hnone => exact Or.inr ⟨hnone, hd⟩

end Pager

variable {p q : Pager n} {id : SpaceId} {upage : Nat} {i : Fin n}

theorem tookFree_takeFree {frames : FrameTable n} (hp : p.FramesAgree none)
    (h : p.frames.takeFree id upage = some (i, frames)) :
    p.TookFree id upage false i { p with frames := frames } := by
  obtain ⟨hfree, huse, hassign, _, hcontents⟩ := FrameTable.takeFree_eq_some h
  refine ⟨⟨hfree, hp.assignment?_of_free hfree⟩, huse, hassign, fun j => ?_, ?_, rfl, rfl, rfl⟩
  · rw [if_neg (by simp)]
    exact congrArg (·.get j) hcontents
  · unfold FrameTable.takeFree at h
    split at h
    next => cases h
    next =>
      cases h
      rfl

/-- A frame that was taken and then cleared was taken to be cleared. -/
theorem Pager.TookFree.clear (h : p.TookFree id upage false i q) :
    p.TookFree id upage true i (q.writePage i .zero) where
  free := h.free
  inUse := h.inUse
  assignment? := h.assignment?
  page j := by
    refine (FramePool.contents_write q.frames.pool i j .zero).trans ?_
    by_cases hj : j = i
    · rw [if_pos hj, if_pos ⟨rfl, hj⟩]
    · rw [if_neg hj, if_neg fun hc => hj hc.2]
      exact (h.page j).trans (if_neg (by simp))
  hand := h.hand
  spaces := h.spaces
  swap := h.swap
  files := h.files

theorem Evicts.replaced (h : Evicts p id upage i q) (hp : p.Agrees none)
    (hhand : p.frames.hand < n) : ∃ victim, p.Replaced id upage i victim q := by
  cases h with
  | @intro passed hand victim d b swap files hturns hvictim hcandidate hd hkeeps =>
    have hswept := sweptFrom_swept p passed hand
    have howner := hp.frames.owner i victim hvictim
    obtain ⟨honly, hgone, hafter⟩ := Quiet.views_evicted (p := p.swept passed hand)
      (q := (((p.swept passed hand).kept victim.owner victim.upage
        { d with backing := b, loaded := false } swap files).writePage i .zero).assign i
          (some (.fresh id upage)))
      (hswept.spaces.size ▸ howner) (hp.frames.upage i victim hvictim).1 rfl
    have hwritable : (p.swept passed hand).has .writable victim.owner victim.upage
        = p.has .writable victim.owner victim.upage := hswept.spaces.has _ _ _ (by simp)
    have hdirty : (p.swept passed hand).has .dirty victim.owner victim.upage
        = p.has .dirty victim.owner victim.upage := hswept.spaces.has _ _ _ (by simp)
    rw [hdirty] at hkeeps
    have hbefore := descriptor_getOrAdd hd
    rw [hwritable, hswept.descriptor?] at hbefore
    obtain ⟨hfirst, hbehind, hunmarked⟩ := hturns.exact hp.frames hhand
    refine ⟨victim, ?_⟩
    constructor
    · exact hfirst
    · exact hbehind
    · exact ⟨hvictim, Assignment.pins_of_isCandidate hcandidate⟩
    · rfl
    · exact fun j => FrameTable.assignments_assign _ _ _ _
    · exact fun j => FramePool.contents_write _ _ _ _
    · exact fun o => (honly.mappings o).trans (hswept.spaces.mappings o)
    · exact hgone
    · exact ⟨d, b, hbefore, hkeeps, hafter⟩
    · exact fun o u hne => (honly.address? o u hne).trans (hswept.address? o u)
    · exact ⟨_, hturns.search, honly.has⟩
    · intro j a hj hne ha
      have hother : ¬(a.owner = victim.owner ∧ pageBase a.upage = victim.upage) := by
        rintro ⟨hsame, hupage⟩
        rw [(hp.frames.upage j a ha).1.pageBase_eq] at hupage
        exact hne (hp.frames.eq_of_same_page ha hvictim hsame hupage)
      rw [honly.has _ _ _ hother]
      have hbefore := isMarked_of_isPassed hfirst hj
      have hafter := hunmarked.isMarked_cleared hj
      rw [isMarked_of_assigned ha] at hbefore hafter
      exact ⟨hbefore, hafter⟩
    · intro flag o u hne hkept
      rw [honly.has flag o u hne]
      by_cases hflag : flag = .accessed
      · have hlookup : ((p.swept passed hand).space o).directory.lookup u
            = (p.space o).directory.lookup u := hunmarked.kept o u fun j a hj ha howner => by
          rw [(hp.frames.upage j a ha).1.pageBase_eq]
          exact (hkept hflag j a hj ha howner).symm
        unfold Pager.has PageDirectory.has
        rw [hlookup]
      · exact hswept.spaces.has flag o u (by simp [hflag])
    · exact fun o u hne => (honly.descriptor? o u hne).trans (hswept.descriptor? o u)
    · exact hkeeps.claimedOne hp.slots.fitted

/-- What comes of a search for a frame when none is free. -/
theorem takeVictim_replaces (hp : p.Visited) (id : SpaceId) (upage : Nat) :
    ((takeVictim id upage).run p).Meets (fun i q => ∃ victim, p.Replaced id upage i victim q)
      (fun e _ => e.IsExhaustion) (fun _ => True) :=
  (takeVictim_evicts hp.agrees id upage).mono
    (fun i _ h => h.replaced hp.agrees (hp.hand_lt i.pos)) (fun _ _ h => h.1) fun _ _ => trivial

/-- **Obtaining a frame evicts at most one page, and only when it must.** If a frame is free, a
free frame is assigned to the page, and no other frame, no mapping, descriptor, slot or file and
not the hand of the clock is touched. If all are in use, one page that is not pinned gives its
frame up, the one that second chance takes: it is unmapped and has a descriptor that says where it
is kept. At most one slot is claimed for it and none is freed, and of the other pages those that
the search passed over have lost their accessed flags, and nothing else is different. Either way
the frame has one pin, and is clear if that was asked for; and only when all frames are in use can
the system stop.

A frame that is reclaimed is clear without being asked for, also where one has become free by the
time that it comes to that. -/
theorem Pager.Visited.obtains_frame {p : Pager n} (hp : p.Visited) (id : SpaceId) (upage : Nat)
    (zero : Bool) :
    ((obtainFrame id upage zero).run p).Meets
        (fun i q => q.assignment? i = some ⟨id, upage, 1, false⟩ ∧ (zero = true → q.page i = .zero)
          ∧ ((∃ j, p.frames.pool.inUse.get j = false) → p.TookFree id upage zero i q)
          ∧ ((∀ j, p.frames.pool.inUse.get j = true) → ∃ victim, p.Replaced id upage i victim q))
        (fun _ _ => False)
        (fun _ => ∀ j, p.frames.pool.inUse.get j = true)
      ∧ ((reclaimFrame id upage).run p).Meets
        (fun i q => q.assignment? i = some ⟨id, upage, 1, false⟩ ∧ q.page i = .zero
          ∧ ((∃ j, p.frames.pool.inUse.get j = false) → p.TookFree id upage true i q)
          ∧ ((∀ j, p.frames.pool.inUse.get j = true) → ∃ victim, p.Replaced id upage i victim q))
        (fun e _ => e.IsExhaustion ∧ ∀ j, p.frames.pool.inUse.get j = true)
        (fun _ => ∀ j, p.frames.pool.inUse.get j = true) := by
  -- a pool that has a free frame is not one whose frames are all in use
  have hdisjoint : (∃ j, p.frames.pool.inUse.get j = false) →
      ¬ ∀ j, p.frames.pool.inUse.get j = true := by
    rintro ⟨j, hj⟩ hfull
    exact absurd (hj.symm.trans (hfull j)) (by simp)
  have hreplaces := takeVictim_replaces hp id upage
  constructor
  · refine obtainFrame_meets ?_ ?_
    · intro i frames htake
      have htook := tookFree_takeFree hp.agrees.frames htake
      have hnotfull := hdisjoint ⟨i, htook.free.1⟩
      constructor
      · rintro rfl
        exact ⟨(htook.assignment? i).trans (if_pos rfl), by simp, fun _ => htook,
          fun hfull => absurd hfull hnotfull⟩
      · rintro rfl
        exact ⟨(htook.assignment? i).trans (if_pos rfl),
          fun _ => (htook.clear.page i).trans (if_pos ⟨rfl, rfl⟩), fun _ => htook.clear,
          fun hfull => absurd hfull hnotfull⟩
    · intro hfull
      refine hreplaces.mono ?_ (fun _ _ _ => hfull) fun _ _ => hfull
      rintro i q ⟨victim, h⟩
      exact ⟨(h.assignment? i).trans (if_pos rfl), fun _ => (h.page i).trans (if_pos rfl),
        fun hfree => absurd hfull (hdisjoint hfree), fun _ => ⟨victim, h⟩⟩
  · cases htake : p.frames.takeFree id upage with
    | some taken =>
      obtain ⟨i, frames⟩ := taken
      have htook := (tookFree_takeFree hp.agrees.frames htake).clear
      rw [run_reclaimFrame_of_some htake]
      exact ⟨(htook.assignment? i).trans (if_pos rfl), (htook.page i).trans (if_pos ⟨rfl, rfl⟩),
        fun _ => htook, fun hfull => absurd hfull (hdisjoint ⟨i, htook.free.1⟩)⟩
    | none =>
      have hfull := FrameTable.inUse_of_takeFree_eq_none htake
      rw [run_reclaimFrame_of_none htake]
      refine hreplaces.mono ?_ (fun _ _ he => ⟨he, hfull⟩) fun _ _ => hfull
      rintro i q ⟨victim, h⟩
      exact ⟨(h.assignment? i).trans (if_pos rfl), (h.page i).trans (if_pos rfl),
        fun hfree => absurd hfull (hdisjoint hfree), fun _ => ⟨victim, h⟩⟩

/-- Two pages of a stack are touched, and the upper one is read once more. -/
def upperPageRead : List Event := twoStackPages ++ [.request (.setAccessed 0 topPage true)]

/-- With two frames, and the two top pages of a stack in them, the page below gets a frame. The top
page was accessed and is passed over, which costs it its flag; the other one goes to a slot. -/
theorem Pager.Visited.obtains_frame_twoFrames :
    ((small 2 #[] #[1]).ran upperPageRead).Visited
      ∧ ∃ q victim, (obtainFrame 0 (nextPage - pageSize) true).run
          ((small 2 #[] #[1]).ran upperPageRead) = .done 1 q
        ∧ ((small 2 #[] #[1]).ran upperPageRead).Replaced 0 (nextPage - pageSize) 1 victim q
        ∧ ((small 2 #[] #[1]).ran upperPageRead).has .accessed 0 topPage = true
        ∧ q.has .accessed 0 topPage = false := by
  have hrun : Run (small 2 #[] #[1]) upperPageRead _ := run_ran (by decide +kernel)
  have hp : ((small 2 #[] #[1]).ran upperPageRead).Visited :=
    Reachable.visited ⟨_, _, isStart_small (by decide) #[] #[1], hrun⟩
  have hfull : ∀ j, ((small 2 #[] #[1]).ran upperPageRead).frames.pool.inUse.get j = true := by
    decide +kernel
  have hdone : ((obtainFrame 0 (nextPage - pageSize) true).run
      ((small 2 #[] #[1]).ran upperPageRead)).isDone = true := by decide +kernel
  obtain ⟨i, q, hq⟩ := eq_done hdone
  have hspec := (hp.obtains_frame 0 (nextPage - pageSize) true).1
  rw [hq] at hspec
  obtain ⟨_, _, _, hreplaced⟩ := hspec
  obtain ⟨victim, hvictim⟩ := hreplaced hfull
  have hassigned : ((small 2 #[] #[1]).ran upperPageRead).assignment? 0
      = some ⟨0, topPage, 0, false⟩ := by decide +kernel
  have hmarked : isMarked ((small 2 #[] #[1]).ran upperPageRead).frames.assignments
      ((small 2 #[] #[1]).ran upperPageRead).spaces 0 = true := by decide +kernel
  have hclear : SomeClear ((small 2 #[] #[1]).ran upperPageRead).frames.assignments
      ((small 2 #[] #[1]).ran upperPageRead).spaces :=
    ⟨1, ⟨⟨0, nextPage, 0, false⟩, by decide +kernel, rfl⟩, by decide +kernel⟩
  have hchoice := hvictim.chosen.holds.2 hclear
  have hne : i ≠ 0 := by
    rintro rfl
    exact absurd (hmarked.symm.trans hchoice) (by decide)
  obtain rfl : i = 1 := by omega
  have hpassed : IsPassed ((small 2 #[] #[1]).ran upperPageRead).frames.assignments
      ((small 2 #[] #[1]).ran upperPageRead).spaces
      ((small 2 #[] #[1]).ran upperPageRead).frames.hand 1 0 :=
    ⟨⟨_, hassigned, rfl⟩, fun _ => by decide +kernel⟩
  obtain ⟨hbefore, hafter⟩ := hvictim.cleared 0 _ hpassed (by decide) hassigned
  exact ⟨hp, q, victim, hq, hvictim, hbefore, hafter⟩

end DemandPaging
