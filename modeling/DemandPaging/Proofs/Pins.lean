import DemandPaging.Proofs.Requests
/-!
# Pins are given back

Loading a page, copying to or from it and extending a stack take a pin on a frame, and all of
them give it back, however they end. `SamePins` says that the same frames are pinned as
before, for the same pages and as often; `OnePinMore` that they would be, if one pin was taken
back. Each function that works on frames has one lemma that says which of the two it comes to,
and `Operation.Passes.samePins` puts them together.

Most of the code assigns no frame (`LeavesAssigned`). A frame that is free is not pinned, and
the clock takes away none that is.
-/

namespace DemandPaging

open Pager PagerAction Outcome

variable {n : Nat} {α β : Type}

/-! ## Actions that assign no frame -/

/-- However the action ends, no frame is assigned and none is taken away; and it fails only if
`fails` holds. -/
def PagerAction.LeavesAssigned (x : PagerAction n α) (fails : Prop) : Prop :=
  ∀ p : Pager n, (x.run p).Meets (fun _ q => q.frames.assignments = p.frames.assignments)
    (fun _ q => q.frames.assignments = p.frames.assignments ∧ fails) (fun _ => True)

namespace PagerAction.LeavesAssigned

variable {x : PagerAction n α} {f : α → PagerAction n β} {fails : Prop}

theorem pure (a : α) : (Pure.pure a : PagerAction n α).LeavesAssigned fails := fun _ => rfl

theorem read (g : Pager n → α) : (PagerAction.read g).LeavesAssigned fails := fun _ => rfl

theorem update {g : Pager n → Pager n}
    (hg : ∀ p, (g p).frames.assignments = p.frames.assignments) :
    (PagerAction.update g).LeavesAssigned fails := fun p => hg p

theorem stop (reason : Fatal) : (PagerAction.stop reason : PagerAction n α).LeavesAssigned fails :=
  fun _ => trivial

theorem fail (e : PagingError) : (PagerAction.fail e : PagerAction n α).LeavesAssigned True :=
  fun _ => ⟨rfl, trivial⟩

theorem ofFatal (a : Except Fatal α) : (PagerAction.ofFatal a : PagerAction n α).LeavesAssigned
    fails := by
  cases a with
  | ok a => exact LeavesAssigned.pure a
  | error reason => exact LeavesAssigned.stop reason

theorem ofResult (r : Except PagingError α) :
    (PagerAction.ofResult r : PagerAction n α).LeavesAssigned True := by
  cases r with
  | ok a => exact LeavesAssigned.pure a
  | error e => exact LeavesAssigned.fail e

theorem bind (hx : x.LeavesAssigned fails) (hf : ∀ a, (f a).LeavesAssigned fails) :
    (x >>= f).LeavesAssigned fails := by
  intro p
  refine (hx p).bind ?_ (fun _ _ h => h) fun _ h => h
  intro a q h
  exact (hf a q).mono (fun _ _ h' => h'.trans h) (fun _ _ h' => ⟨h'.1.trans h, h'.2⟩) fun _ h' => h'

theorem mono {fails' : Prop} (hx : x.LeavesAssigned fails) (h : fails → fails') :
    x.LeavesAssigned fails' :=
  fun p => (hx p).mono (fun _ _ hq => hq) (fun _ _ hq => ⟨hq.1, h hq.2⟩) fun _ hq => hq

end PagerAction.LeavesAssigned

theorem leavesAssigned_freeSlot? (slot? : Option Nat) :
    (freeSlot? slot? : PagerAction n Unit).LeavesAssigned False := by
  cases slot? with
  | none => exact .pure ()
  | some slot =>
    exact .bind (.read _) fun _ => .bind (.ofFatal _) fun _ => .update fun _ => rfl

theorem leavesAssigned_saveToFile (w : FileWindow) (i : Fin n) :
    (saveToFile w i).LeavesAssigned True :=
  .bind (.read _) fun _ => .bind (.read _) fun _ => .bind (.update fun _ => rfl) fun _ =>
    .ofResult _

theorem leavesAssigned_storeFrame (i : Fin n) : (storeFrame i).LeavesAssigned True :=
  .bind (.read _) fun _ => .bind (.read _) fun _ => .bind (.ofFatal _) fun _ =>
    .bind (.update fun _ => rfl) fun _ => .ofResult _

theorem leavesAssigned_moveToSwap (id : SpaceId) (upage : Nat) (b : Backing) (i : Fin n) :
    (moveToSwap id upage b i).LeavesAssigned True :=
  .bind (leavesAssigned_storeFrame i) fun _ => .bind (.update fun _ => rfl) fun _ =>
    (leavesAssigned_freeSlot? _).mono False.elim

theorem leavesAssigned_saveVictim (id : SpaceId) (upage : Nat) (i : Fin n) :
    (saveVictim id upage i).LeavesAssigned True := by
  refine .bind (.read _) fun directory => .bind (.update fun _ => rfl) fun _ =>
    .bind (.read _) fun found => .bind (.update fun _ => rfl) fun _ => ?_
  -- the frame is cleared last, however the page was kept
  have hclear : ((PagerAction.update fun p => p.writePage i Page.zero) >>= fun _ =>
      PagerAction.update fun p => p.updateDescriptors id
        (·.modify upage fun d => { d with loaded := false })).LeavesAssigned True :=
    .bind (.update fun _ => rfl) fun _ => .update fun _ => rfl
  split
  · exact .bind (leavesAssigned_saveToFile _ i) fun _ => hclear
  · exact hclear
  · exact .bind (leavesAssigned_moveToSwap id upage _ i) fun _ => hclear

theorem leavesAssigned_fillFrame (i : Fin n) (source : LoadSource) :
    (fillFrame i source).LeavesAssigned True := by
  cases source with
  | nowhere => exact .fail _
  | file w =>
    exact .bind (.read _) fun _ => .bind (.update fun _ => rfl) fun _ => .ofResult _
  | swap slot =>
    exact .bind (.read _) fun _ => .bind (.ofFatal _) fun _ => .bind (.update fun _ => rfl)
      fun _ => .bind (.update fun _ => rfl) fun _ => .ofResult _

theorem leavesAssigned_mapFrame (id : SpaceId) (upage : Nat) (i : Fin n) (writable : Bool) :
    (mapFrame id upage i writable).LeavesAssigned False := by
  refine .bind (.read _) fun _ => .bind (.read _) fun _ => .bind (.ofFatal _) fun mapped => ?_
  cases mapped with
  | some directory => exact .bind (.update fun _ => rfl) fun _ => .pure true
  | none => exact .pure false

theorem leavesAssigned_settle (id : SpaceId) (upage : Nat) (d : Descriptor) (i : Fin n) :
    (settle id upage d i).LeavesAssigned False := by
  refine .bind (leavesAssigned_freeSlot? _) fun _ => .bind (leavesAssigned_mapFrame id upage i _)
    fun mapped => ?_
  split
  next =>
    split
    next =>
      split
      next => exact .bind (.update fun _ => rfl) fun _ => .update fun _ => rfl
      next => exact .update fun _ => rfl
    next =>
      split
      next => exact .bind (.update fun _ => rfl) fun _ => .update fun _ => rfl
      next => exact .update fun _ => rfl
  next => exact .bind (.read _) fun _ => .stop _

theorem leavesAssigned_addSegment (id : SpaceId) (source : FileRef)
    (offset upage readBytes zeroBytes : Nat) (writable : Bool) :
    (addSegment id source offset upage readBytes zeroBytes writable :
      PagerAction n Unit).LeavesAssigned True :=
  .bind (.read _) fun _ => .bind (.read _) fun _ => .bind (.ofFatal _) fun _ =>
    .bind (.update fun _ => rfl) fun _ => .ofResult _

/-! ## Pinned frames -/

namespace Pager

/-- What a frame is assigned to, if it is pinned. -/
def pinned? (p : Pager n) (i : Fin n) : Option Assignment :=
  (p.assignment? i).filter fun a => a.pins ≠ 0

/-- The same frames are pinned, for the same pages and as often. -/
def SamePins (p q : Pager n) : Prop := ∀ i, q.pinned? i = p.pinned? i

/-- With one pin of the frame taken back the pins would be the same. -/
def OnePinMore (p : Pager n) (i : Fin n) (q : Pager n) : Prop :=
  ∃ a, q.assignment? i = some a ∧ a.pins ≠ 0
    ∧ p.SamePins (q.assign i (some { a with pins := a.pins - 1 }))

variable {p q r : Pager n} {i j : Fin n} {a : Assignment}

theorem assignment?_assign (p : Pager n) (i j : Fin n) (a? : Option Assignment) :
    (p.assign i a?).assignment? j = if j = i then a? else p.assignment? j :=
  FrameTable.assignments_assign p.frames i j a?

theorem pinned?_assign (p : Pager n) (i j : Fin n) (a? : Option Assignment) :
    (p.assign i a?).pinned? j = if j = i then a?.filter fun a => a.pins ≠ 0 else p.pinned? j := by
  unfold pinned?
  rw [assignment?_assign]
  split
  · rfl
  · rfl

theorem pinned?_eq_some_iff : p.pinned? i = some a ↔ p.assignment? i = some a ∧ a.pins ≠ 0 := by
  unfold pinned?
  rw [Option.filter_eq_some_iff, decide_eq_true_iff]

theorem pinned?_eq_none (hi : p.assignment? i = some a) (hpins : a.pins = 0) :
    p.pinned? i = none := by
  unfold pinned?
  rw [hi, Option.filter_some, if_neg (by simp [hpins])]

namespace SamePins

theorem refl : p.SamePins p := fun _ => rfl

theorem trans (h : p.SamePins q) (h' : q.SamePins r) : p.SamePins r :=
  fun i => (h' i).trans (h i)

theorem of_assignments (h : q.frames.assignments = p.frames.assignments) : p.SamePins q := by
  intro i
  unfold pinned? assignment?
  rw [h]

end SamePins

/-- What is assigned to one frame depends on the assignments only. -/
theorem assignments_assign_congr (h : q.frames.assignments = p.frames.assignments) (i : Fin n)
    (a? : Option Assignment) :
    (q.assign i a?).frames.assignments = (p.assign i a?).frames.assignments :=
  congrArg (·.set i a? i.isLt) h

namespace OnePinMore

theorem keeps (h : p.OnePinMore i q) (hr : r.frames.assignments = q.frames.assignments) :
    p.OnePinMore i r := by
  obtain ⟨a, ha, hpins, hsame⟩ := h
  refine ⟨a, ?_, hpins, hsame.trans (.of_assignments (assignments_assign_congr hr i _))⟩
  unfold assignment? at ha ⊢
  rw [hr, ha]

/-- A frame that was not pinned has one pin when it is assigned to its page. -/
theorem of_fresh {id : SpaceId} {upage : Nat} (hi : q.assignment? i = some (.fresh id upage))
    (h : p.SamePins (q.assign i none)) : p.OnePinMore i q := by
  refine ⟨_, hi, Nat.one_ne_zero, fun j => ?_⟩
  rw [← h j, pinned?_assign, pinned?_assign]
  split
  · rfl
  · rfl

/-- Taking the pin back makes the pins the same. -/
theorem run_unpin (hq : q.FramesAgree none) (h : p.OnePinMore i q) {id : SpaceId} {upage : Nat}
    (hi : q.assignment? i = some a) (howner : a.owner = id) (hupage : a.upage = upage) :
    ∃ r, (unpin id upage).run q = .done () r ∧ p.SamePins r := by
  obtain ⟨b, hb, hpins, hsame⟩ := h
  cases hi.symm.trans hb
  exact ⟨_, DemandPaging.run_unpin hq hi howner hupage hpins, hsame⟩

end OnePinMore

end Pager

/-! ## Frames taken and given back -/

/-- A frame that is taken from another page was not pinned, and the others stay as they were. -/
theorem takeVictim_pins (p : Pager n) (id : SpaceId) (upage : Nat) :
    ((takeVictim id upage).run p).Meets
      (fun i q => q.assignment? i = some (.fresh id upage) ∧ p.SamePins (q.assign i none))
      (fun _ _ => True) (fun _ => True) := by
  unfold takeVictim
  refine (chooseVictim_spec p fun _ => True).bind ?_ (fun _ _ _ => trivial) fun _ _ => trivial
  intro victim q h
  obtain ⟨i, a⟩ := victim
  obtain ⟨r, _, ha, hpins, hswept, rfl⟩ := h
  refine (leavesAssigned_saveVictim a.owner a.upage i _).bind ?_ (fun _ _ _ => trivial)
    fun _ h => h
  intro _ q h
  have hi : (q.assign i (some (.fresh id upage))).assignment? i = some (.fresh id upage) :=
    (assignment?_assign _ _ _ _).trans (if_pos rfl)
  refine ⟨hi, fun j => ?_⟩
  have hvictim : p.assignment? i = some a := by
    unfold assignment? at ha ⊢
    rw [← hswept.assignments, ha]
  have hq := SamePins.of_assignments h
  have hr := SamePins.of_assignments hswept.assignments
  rw [pinned?_assign, pinned?_assign]
  split
  next hj => rw [hj, pinned?_eq_none hvictim hpins, Option.filter_none]
  next hj => rw [hq, pinned?_assign, if_neg hj, hr]

theorem obtainFrame_pins {p : Pager n} (hp : p.FramesAgree none) (id : SpaceId) (upage : Nat)
    (zero : Bool) :
    ((obtainFrame id upage zero).run p).Meets
      (fun i q => q.assignment? i = some (.fresh id upage) ∧ p.SamePins (q.assign i none))
      (fun _ _ => False) (fun _ => True) := by
  refine obtainFrame_meets ?_ fun _ =>
    (takeVictim_pins p id upage).mono (fun _ _ h => h) (fun _ _ _ => trivial) fun _ h => h
  intro i frames htake
  obtain ⟨hfree, _, hassign, _⟩ := FrameTable.takeFree_eq_some htake
  have hnone : p.assignment? i = none := by
    have huse := hp.inUse i
    rw [hfree] at huse
    simpa using huse.symm
  have hi : ({ p with frames := frames } : Pager n).assignment? i = some (.fresh id upage) :=
    (hassign i).trans (if_pos rfl)
  have hsame : p.SamePins (({ p with frames := frames } : Pager n).assign i none) := by
    intro j
    rw [pinned?_assign]
    unfold pinned?
    split
    next hj => rw [hj, hnone]
    next hj => exact congrArg _ ((hassign j).trans (if_neg hj))
  exact ⟨fun _ => ⟨hi, hsame⟩, fun _ => ⟨hi, hsame⟩⟩

theorem returnFrame_assignments (p : Pager n) (id : SpaceId) (i : Fin n) :
    ((returnFrame id i).run p).Meets
      (fun _ q => q.frames.assignments = (p.assign i none).frames.assignments)
      (fun _ _ => False) (fun _ => True) := by
  unfold returnFrame
  simp only [run_bind, run_read]
  cases hback : p.frames.giveBack id i with
  | error reason => trivial
  | ok frames =>
    unfold FrameTable.giveBack at hback
    split at hback
    next => cases hback
    next a _ =>
      split at hback
      next =>
        split at hback
        next =>
          cases hback
          rfl
        next => cases hback
      next => cases hback

/-! ## Loading -/

theorem bringInAbsent_pins {p : Pager n} (hp : p.FramesAgree none) (id : SpaceId) (upage : Nat)
    (d : Descriptor) :
    ((bringInAbsent id upage d).run p).Meets (fun i q => p.OnePinMore i q)
      (fun _ q => p.SamePins q) (fun _ => True) := by
  unfold bringInAbsent
  refine (obtainFrame_pins hp id upage false).bind ?_ (fun _ _ h => h.elim) fun _ h => h
  intro i r h
  obtain ⟨hi, hsame⟩ := h
  refine (leavesAssigned_fillFrame i d.backing.loadSource r).attempt.bind ?_ (fun _ _ h => h.elim)
    fun _ h => h
  intro filled q h
  rcases filled with e | u
  -- the frame that could not be filled goes back with its pin
  · refine (returnFrame_assignments q id i).bind ?_ (fun _ _ h => h.elim) fun _ h => h
    intro _ t ht
    exact hsame.trans (.of_assignments (ht.trans (assignments_assign_congr h.1 i none)))
  · refine (leavesAssigned_settle id upage d i q).bind ?_ (fun _ _ h => h.2.elim) fun _ h => h
    intro _ t ht
    exact (OnePinMore.of_fresh hi hsame).keeps (ht.trans h)

theorem bringIn_pins {p : Pager n} (hp : p.FramesAgree none) (id : SpaceId) (upage : Nat) :
    ((bringIn id upage).run p).Meets
      (fun i? q => match i? with
        | some i => p.OnePinMore i q
        | none => p.SamePins q)
      (fun _ q => p.SamePins q) (fun _ => True) := by
  unfold bringIn
  simp only [run_bind, run_read]
  split
  next => exact .refl
  next d _ =>
    split
    next => exact .refl
    next =>
      split
      next => exact .refl
      next =>
        exact (bringInAbsent_pins hp id upage d).bind (fun _ _ h => h) (fun _ _ h => h) fun _ h => h

theorem ensureLoaded_pins {p : Pager n} (hp : p.Agrees none) (id : SpaceId) (upage : Nat) :
    ((ensureLoaded id upage).run p).Meets (fun _ q => p.SamePins q) (fun _ q => p.SamePins q)
      (fun _ => True) := by
  unfold ensureLoaded
  refine ((bringIn_lands hp id upage).and (bringIn_pins hp.frames id upage)).bind ?_
    (fun _ _ h => h.2) fun _ _ => trivial
  intro found q h
  obtain ⟨⟨hleads, d, hd, hfound⟩, hpins⟩ := h
  cases found with
  | none => exact hpins
  | some i =>
    obtain ⟨r, hrun, hsame⟩ := hpins.run_unpin (hleads.agrees hp).frames hfound.2.assigned rfl rfl
    show ((unpin id upage).run q).Meets _ _ _
    rw [hrun]
    exact hsame

/-- The new page of a stack has no pin left. -/
theorem extendStack_pins {p : Pager n} {id : SpaceId} {upage : Nat} (hp : p.Agrees none)
    (hid : id < p.spaces.size) (haligned : PageAligned upage) (huser : IsUserAddress upage)
    (hd : p.descriptor? id upage = none) (hnone : p.address? id upage = none) :
    ((extendStack id upage).run p).Meets (fun _ q => p.SamePins q) (fun _ _ => False)
      (fun _ => True) := by
  have hpins : ((extendStack id upage).run p).Meets (fun _ q => p.SamePins q) (fun _ _ => True)
      (fun _ => True) := by
    unfold extendStack
    refine ((obtainFrame_spec hp hid haligned huser hnone fun _ => False).and
      (obtainFrame_pins hp.frames id upage true)).bind ?_ (fun _ _ h => h.2.elim) fun _ _ => trivial
    intro i r h
    obtain ⟨⟨hchain, hi, _⟩, _, hsame⟩ := h
    have hr : r.Agrees (some i) := hchain.agrees hp
    refine (leavesAssigned_mapFrame id upage i true r).bind ?_ (fun _ _ h => h.2.elim) fun _ h => h
    intro mapped s hs
    split
    next =>
      refine (unpin_spec s id upage).mono ?_ (fun _ _ _ => trivial) fun _ _ => trivial
      rintro _ q ⟨j, a, ha, howner, hupage, rfl⟩
      have hsj : s.assignment? j = r.assignment? j := by
        unfold assignment?
        rw [hs]
      have hsi : s.assignment? i = some (.fresh id upage) := by
        unfold assignment? at hi ⊢
        rw [hs, hi]
      -- the page has one frame, so the pin that goes is the one that came with it
      have hji : j = i := hr.frames.eq_of_same_page (hsj.symm.trans ha) hi howner hupage
      subst hji
      obtain ⟨b, hb, _, hback⟩ := (OnePinMore.of_fresh hi hsame).keeps hs
      cases ha.symm.trans hb
      exact hback
    next =>
      refine (returnFrame_assignments s id i).bind ?_ (fun _ _ h => h.elim) fun _ h => h
      exact fun _ _ _ => trivial
  exact ((extendStack_grows hp hid haligned huser hd hnone).and hpins).mono (fun _ _ h => h.2)
    (fun _ _ h => h.1) fun _ _ => trivial

theorem handleFault_pins {p : Pager n} {id : SpaceId} (hp : p.Agrees none)
    (hid : id < p.spaces.size) (address stackPointer : Nat) :
    ((handleFault id address stackPointer).run p).Meets (fun _ q => p.SamePins q)
      (fun _ q => p.SamePins q) (fun _ => True) := by
  have hcase := handleFault_case p id address stackPointer
  generalize (handleFault id address stackPointer).run p = outcome at hcase
  cases hcase with
  | wrong => exact .refl
  | described => exact ensureLoaded_pins hp id (pageBase address)
  | there => exact .refl
  | grows _ huser hd hnone =>
    exact (extendStack_pins hp hid (pageAligned_pageBase address) huser.pageBase hd hnone).mono
      (fun _ _ h => h) (fun _ _ h => h.elim) fun _ h => h

theorem pin_pins (p : Pager n) (id : SpaceId) (upage : Nat) :
    ((pin id upage).run p).Meets (fun i q => p.OnePinMore i q)
      (fun e q => q = p ∧ e = .notResident) (fun _ => True) := by
  refine (pin_spec p id upage).mono ?_ (fun _ _ h => ⟨h.2.1, h.1⟩) fun _ _ => trivial
  rintro i q ⟨a, hi, _, _, rfl⟩
  refine ⟨{ a with pins := a.pins + 1 }, (assignment?_assign _ _ _ _).trans (if_pos rfl),
    Nat.succ_ne_zero _, fun j => ?_⟩
  rw [pinned?_assign, pinned?_assign]
  split
  next hj =>
    rw [hj, pinned?, hi]
    rfl
  next => rfl

theorem pinResident_pins {p : Pager n} (hp : p.FramesAgree none) (id : SpaceId) (upage : Nat) :
    ((pinResident id upage).run p).Meets (fun i q => p.OnePinMore i q) (fun _ q => p.SamePins q)
      (fun _ => True) := by
  unfold pinResident
  refine (pin_pins p id upage).attempt.bind ?_ (fun _ _ h => h.elim) fun _ h => h
  intro pinned q h
  rcases pinned with e | i
  · obtain ⟨rfl, rfl⟩ := h
    refine (bringIn_pins hp id upage).bind ?_ (fun _ _ h => h) fun _ h => h
    intro found q h
    rcases found with _ | i
    · trivial
    · exact h
  · exact h

/-! ## Copies -/

theorem pinForCopy_pins {p : Pager n} (hp : p.FramesAgree none) (id : SpaceId) (upage : Nat) :
    ((pinForCopy id upage).run p).Meets (fun i q => p.OnePinMore i q) (fun _ q => p.SamePins q)
      (fun _ => True) := by
  unfold pinForCopy
  refine (pinResident_pins hp id upage).attempt.bind ?_ (fun _ _ h => h.elim) fun _ h => h
  intro pinned q h
  rcases pinned with e | i
  · cases e <;> exact h
  · exact h

theorem readChunk_pins {p : Pager n} (hp : p.Agrees none) (id : SpaceId) (c : Chunk) :
    ((readChunk id c).run p).Meets (fun _ q => p.SamePins q) (fun _ q => p.SamePins q)
      (fun _ => True) := by
  rw [readChunk_eq]
  refine ((pinForCopy_spec hp id c.upage).and (pinForCopy_pins hp.frames id c.upage)).bind ?_
    (fun _ _ h => h.2) fun _ _ => trivial
  intro i q h
  obtain ⟨⟨hleads, a, hi, howner, hupage, _⟩, hpins⟩ := h
  simp only [run_bind, run_read, run_update]
  have haccessed : Quiet (fun _ => True) q none
    (q.updateDirectory id (·.setFlag .accessed c.upage true)) none := .accessed
  have hq := haccessed.agrees (hleads.agrees hp)
  obtain ⟨r, hrun, hsame⟩ := OnePinMore.run_unpin hq.frames (hpins.keeps rfl) hi howner hupage
  rw [hrun]
  exact hsame

theorem writeChunk_pins {p : Pager n} (hp : p.Agrees none) (id : SpaceId) (c : Chunk)
    {bytes : Bytes} (hfits : c.start + bytes.length ≤ pageSize) :
    ((writeChunk id c bytes).run p).Meets (fun _ q => p.SamePins q) (fun _ q => p.SamePins q)
      (fun _ => True) := by
  rw [writeChunk_of_fits hfits]
  refine ((pinForCopy_spec hp id c.upage).and (pinForCopy_pins hp.frames id c.upage)).bind ?_
    (fun _ _ h => h.2) fun _ _ => trivial
  intro i q h
  obtain ⟨⟨hleads, a, hi, howner, hupage, _⟩, hpins⟩ := h
  have hq := hleads.agrees hp
  simp only [run_bind, run_read]
  split
  next hwritable =>
    simp only [run_bind, run_update]
    have hstored := (Visible.stored hi howner hupage hwritable hfits).agrees hq
    obtain ⟨r, hrun, hsame⟩ := OnePinMore.run_unpin hstored.frames (hpins.keeps rfl) hi howner
      hupage
    rw [hrun]
    exact hsame
  next =>
    obtain ⟨r, hrun, hsame⟩ := hpins.run_unpin hq.frames hi howner hupage
    rw [run_bind, hrun]
    exact hsame

theorem readChunks_pins {p : Pager n} (hp : p.Agrees none) (id : SpaceId) (cs : List Chunk)
    (bytes : Bytes) :
    ((readChunks id cs bytes).run p).Meets (fun _ q => p.SamePins q) (fun _ q => p.SamePins q)
      (fun _ => True) := by
  refine (readChunks_meets (I := fun q => q.Agrees none ∧ p.SamePins q)
    (E := fun _ q => p.SamePins q) ?_ ⟨hp, .refl⟩ bytes).mono ?_ (fun _ _ h => h.elim) fun _ h => h
  · intro c _ r hr
    obtain ⟨hagrees, hsame⟩ := hr
    exact ((readChunk_spec hagrees id c).and (readChunk_pins hagrees id c)).mono
      (fun _ _ h => ⟨h.1.1.agrees hagrees, hsame.trans h.2⟩) (fun _ _ h => hsame.trans h.2)
      fun _ _ => trivial
  · intro copied q h
    obtain ⟨_, _, hsame⟩ | ⟨_, _, hsame⟩ := h
    · exact hsame
    · exact hsame

theorem writeChunks_pins {p : Pager n} (hp : p.Agrees none) (id : SpaceId) (cs : List Chunk)
    (bytes : Bytes) :
    ((writeChunks id cs bytes).run p).Meets (fun _ q => p.SamePins q) (fun _ q => p.SamePins q)
      (fun _ => True) := by
  refine (writeChunks_meets (I := fun q => q.Agrees none ∧ p.SamePins q) ?_ ⟨hp, .refl⟩ bytes).mono
    (fun _ _ h => h.2) (fun _ _ h => h) fun _ h => h
  intro c hc bytes r hr
  obtain ⟨hagrees, hsame⟩ := hr
  have htake := c.fits_take bytes
  exact ((writeChunk_spec hagrees id c htake).and (writeChunk_pins hagrees id c htake)).mono
    (fun _ _ h => ⟨h.1.1.agrees hagrees, hsame.trans h.2⟩) (fun _ _ h => hsame.trans h.2)
    fun _ _ => trivial

/-! ## Requests -/

/-- Whether a request is one that neither sets and takes back pins for its caller nor takes
frames away from their owner. -/
def Operation.LeavesPins : Operation → Prop
  | .pin .. | .unpin .. | .unmapFile .. | .exit _ => False
  | _ => True

theorem readUser_pins {p : Pager n} (hp : p.Agrees none) (id : SpaceId) (address length : Nat) :
    ((readUser id address length).run p).Meets (fun _ q => p.SamePins q) (fun _ q => p.SamePins q)
      (fun _ => True) := by
  unfold readUser
  split
  next => exact readChunks_pins hp id _ _
  next => exact .refl

theorem fetchUser_pins {p : Pager n} (hp : p.Agrees none) (id : SpaceId) (address length : Nat) :
    ((fetchUser id address length).run p).Meets (fun _ q => p.SamePins q) (fun _ q => p.SamePins q)
      (fun _ => True) :=
  fetchUser_meets ((readUser_pins hp id address length).mono
    (fun _ _ h => ⟨fun _ => h, fun _ _ => h⟩) (fun _ _ h => h) fun _ h => h)

theorem writeUser_pins {p : Pager n} (hp : p.Agrees none) (id : SpaceId) (address : Nat)
    (bytes : Bytes) :
    ((writeUser id address bytes).run p).Meets (fun _ q => p.SamePins q) (fun _ q => p.SamePins q)
      (fun _ => True) := by
  unfold writeUser
  split
  next => exact writeChunks_pins hp id _ _
  next => exact .refl

theorem perform_pins {p : Pager n} {op : Operation} (hp : p.Agrees none) (hop : op.Permitted p)
    (hleaves : op.LeavesPins) :
    (op.perform.run p).Meets (fun _ q => p.SamePins q) (fun _ q => p.SamePins q)
      (fun _ => True) := by
  have hid := hop.1
  cases op with
  | pin | unpin | unmapFile | exit => exact hleaves.elim
  | fault id address stackPointer =>
    exact (handleFault_pins hp hid address stackPointer).map _
  | load id address =>
    exact (ensureLoaded_pins hp id (pageBase address)).map _
  | read id address length =>
    exact (readUser_pins hp id address length).map _
  | fetch id address length =>
    exact (fetchUser_pins hp id address length).map _
  | write id address bytes =>
    exact (writeUser_pins hp id address bytes).map _
  | mapFile id index base =>
    refine (mapFile_spec hid index base).bind ?_ ?_ fun _ h => h.elim
    · rintro m q ⟨handle, hmove, _⟩
      cases hmove
      exact .refl
    · rintro _ q ⟨rfl, _⟩
      exact .refl
  | addSegment id source offset upage readBytes zeroBytes writable =>
    exact (leavesAssigned_addSegment id source offset upage readBytes zeroBytes writable p).bind
      (fun _ _ h => .of_assignments h) (fun _ _ h => .of_assignments h.1) fun _ h => h
  | setAccessed id upage value => exact .refl
  | setDirty id upage value => exact .refl

/-- A request of this kind leaves the pins as they were, in each state on the way. -/
theorem Operation.Passes.samePins {p q : Pager n} {op : Operation} (hp : p.Agrees none)
    (hop : op.Permitted p) (hleaves : op.LeavesPins) (h : op.Passes p q) : p.SamePins q := by
  cases h with
  | ended h => exact (perform_pins hp hop hleaves).of_state? h
  | read _ h => exact (readChunks_pins hp _ _ _).of_state? h
  | fetch _ h => exact (readChunks_pins hp _ _ _).of_state? h
  | write _ h => exact (writeChunks_pins hp _ _ _).of_state? h

end DemandPaging
