import DemandPaging.Proofs.Pins
/-!
# At most one frame changes hands

To load a page, or to extend a stack by one, takes at most one frame from the page that it
backed (`OneMoved`). The frame comes from `obtainFrame`, which is called once; whatever else is
done leaves every frame to its page (`SameBacked`), though its pins and contents may change.

`PagerAction.EndsIn` says how an action relates the state before it and the state after, with one
rule for each way to build an action. An action that moves at most one frame may stand after or
before others that move none (`EndsIn.bind_oneMoved`, `EndsIn.oneMoved_bind`).
-/

namespace DemandPaging

open Pager PagerAction Outcome

variable {n : Nat} {α β : Type}

namespace Pager

/-- The page that a frame is assigned to. -/
def backed? (p : Pager n) (i : Fin n) : Option (SpaceId × Nat) :=
  (p.assignment? i).map fun a => (a.owner, a.upage)

/-- Every frame is assigned to the page that it was assigned to. -/
def SameBacked (p q : Pager n) : Prop := ∀ j, q.backed? j = p.backed? j

/-- So is every frame but `i`. -/
def MovedAt (p : Pager n) (i : Fin n) (q : Pager n) : Prop := ∀ j, j ≠ i → q.backed? j = p.backed? j

/-- At most one frame is not assigned to the page that it was assigned to. -/
def OneMoved (p q : Pager n) : Prop :=
  ∀ i j, q.backed? i ≠ p.backed? i → q.backed? j ≠ p.backed? j → i = j

variable {p q r : Pager n} {i : Fin n}

theorem SameBacked.of_assignments (h : q.frames.assignments = p.frames.assignments) :
    p.SameBacked q := by
  intro j
  unfold backed? assignment?
  rw [h]

/-- A frame that has other pins, or a mark, is still that of its page. -/
theorem SameBacked.of_assign {a b : Assignment} (hi : p.assignment? i = some a)
    (howner : b.owner = a.owner) (hupage : b.upage = a.upage) :
    p.SameBacked (p.assign i (some b)) := by
  intro j
  unfold backed?
  rw [assignment?_assign]
  split
  next hj => rw [hj, hi, Option.map_some, Option.map_some, howner, hupage]
  next => rfl

instance : Std.Refl (SameBacked (n := n)) := ⟨fun _ _ => rfl⟩

instance : Trans (SameBacked (n := n)) (SameBacked (n := n)) (SameBacked (n := n)) :=
  ⟨fun h h' j => (h' j).trans (h j)⟩

namespace MovedAt

theorem of_assign (p : Pager n) (i : Fin n) (a? : Option Assignment) :
    p.MovedAt i (p.assign i a?) := by
  intro j hj
  unfold backed?
  rw [assignment?_assign, if_neg hj]

theorem trans (h : p.MovedAt i q) (h' : q.MovedAt i r) : p.MovedAt i r :=
  fun j hj => (h' j hj).trans (h j hj)

theorem after (h' : q.MovedAt i r) (h : p.SameBacked q) : p.MovedAt i r :=
  fun j hj => (h' j hj).trans (h j)

theorem before (h : p.MovedAt i q) (h' : q.SameBacked r) : p.MovedAt i r :=
  fun j hj => (h' j).trans (h j hj)

theorem oneMoved (h : p.MovedAt i q) : p.OneMoved q := by
  have heq : ∀ j, q.backed? j ≠ p.backed? j → j = i := fun j hj =>
    Decidable.byContradiction fun hne => hj (h j hne)
  exact fun j k hj hk => (heq j hj).trans (heq k hk).symm

end MovedAt

namespace OneMoved

theorem of_sameBacked (h : p.SameBacked q) : p.OneMoved q := fun i _ hi => absurd (h i) hi

theorem after (h' : q.OneMoved r) (h : p.SameBacked q) : p.OneMoved r := fun i j hi hj =>
  h' i j (fun heq => hi (heq.trans (h i))) fun heq => hj (heq.trans (h j))

theorem before (h : p.OneMoved q) (h' : q.SameBacked r) : p.OneMoved r := fun i j hi hj =>
  h i j (fun heq => hi ((h' i).trans heq)) fun heq => hj ((h' j).trans heq)

end OneMoved

instance : Std.Refl (OneMoved (n := n)) := ⟨fun p => .of_sameBacked (Std.Refl.refl p)⟩

end Pager

/-! ## Rules -/

/-- The state that is left, unless the system stopped, is as told. -/
def Outcome.Ends (o : Outcome n α) (P : Pager n → Prop) : Prop :=
  o.Meets (fun _ q => P q) (fun _ q => P q) (fun _ => True)

namespace PagerAction

/-- However the action ends, the relation holds of the states before it and after it. -/
def EndsIn (R : Pager n → Pager n → Prop) (x : PagerAction n α) : Prop :=
  ∀ p : Pager n, (x.run p).Ends (R p)

namespace EndsIn

variable {R R₁ R₂ : Pager n → Pager n → Prop} {x : PagerAction n α} {f : α → PagerAction n β}

theorem update {g : Pager n → Pager n} (hg : ∀ p, R p (g p)) : (PagerAction.update g).EndsIn R :=
  fun p => hg p

theorem stop (reason : Fatal) : (PagerAction.stop reason : PagerAction n α).EndsIn R :=
  fun _ => trivial

theorem pure [Std.Refl R] (a : α) : (Pure.pure a : PagerAction n α).EndsIn R := fun p =>
  Std.Refl.refl p

theorem read [Std.Refl R] (g : Pager n → α) : (PagerAction.read g).EndsIn R := fun p =>
  Std.Refl.refl p

theorem fail [Std.Refl R] (e : PagingError) : (PagerAction.fail e : PagerAction n α).EndsIn R :=
  fun p => Std.Refl.refl p

theorem ofResult [Std.Refl R] (r : Except PagingError α) :
    (PagerAction.ofResult r : PagerAction n α).EndsIn R := by
  cases r with
  | ok a => exact pure a
  | error e => exact fail e

theorem ofFatal [Std.Refl R] (r : Except Fatal α) :
    (PagerAction.ofFatal r : PagerAction n α).EndsIn R := by
  cases r with
  | ok a => exact pure a
  | error reason => exact stop reason

theorem of_leavesAssigned {fails : Prop} (hx : x.LeavesAssigned fails) : x.EndsIn SameBacked :=
  fun p => (hx p).mono (fun _ _ h => .of_assignments h) (fun _ _ h => .of_assignments h.1)
    fun _ h => h

theorem attempt (hx : x.EndsIn R) : (PagerAction.attempt x).EndsIn R := by
  intro p
  refine (hx p).attempt.mono ?_ (fun _ _ h => h.elim) fun _ h => h
  intro result q h
  cases result <;> exact h

theorem comp (hx : x.EndsIn R₁) (hf : ∀ a, (f a).EndsIn R₂) (hfails : ∀ {p q}, R₁ p q → R p q)
    (hdone : ∀ {p q r}, R₁ p q → R₂ q r → R p r) : (x >>= f).EndsIn R := fun p =>
  (hx p).bind (fun a q h => (hf a q).mono (fun _ _ => hdone h) (fun _ _ => hdone h) fun _ h => h)
    (fun _ _ => hfails) fun _ h => h

theorem bind [Trans R R R] (hx : x.EndsIn R) (hf : ∀ a, (f a).EndsIn R) : (x >>= f).EndsIn R :=
  hx.comp hf id Trans.trans

/-- What is done before at most one frame moves. -/
theorem bind_oneMoved (hx : x.EndsIn SameBacked) (hf : ∀ a, (f a).EndsIn OneMoved) :
    (x >>= f).EndsIn OneMoved :=
  hx.comp hf .of_sameBacked fun h h' => h'.after h

/-- What is done after at most one frame moved. -/
theorem oneMoved_bind (hx : x.EndsIn OneMoved) (hf : ∀ a, (f a).EndsIn SameBacked) :
    (x >>= f).EndsIn OneMoved :=
  hx.comp hf id .before

end EndsIn

end PagerAction

/-! ## Frames taken and given back -/

theorem sameBacked_pin (id : SpaceId) (upage : Nat) :
    (pin id upage : PagerAction n (Fin n)).EndsIn SameBacked := by
  intro p
  refine (pin_spec p id upage).mono ?_ ?_ fun _ h => h.elim
  · rintro i q ⟨a, hi, _, _, rfl⟩
    exact .of_assign hi rfl rfl
  · rintro _ q ⟨_, rfl, _⟩
    exact fun _ => rfl

theorem sameBacked_unpin (id : SpaceId) (upage : Nat) :
    (unpin id upage : PagerAction n Unit).EndsIn SameBacked := by
  intro p
  refine (unpin_spec p id upage).mono ?_ ?_ fun _ h => h.elim
  · rintro _ q ⟨i, a, hi, _, _, rfl⟩
    exact .of_assign hi rfl rfl
  · rintro _ q ⟨rfl, _⟩
    exact fun _ => rfl

/-- Only the frame that is reclaimed changes hands. -/
theorem takeVictim_movedAt (p : Pager n) (id : SpaceId) (upage : Nat) :
    ((takeVictim id upage).run p).Meets (fun i q => p.MovedAt i q) (fun _ _ => True)
      (fun _ => True) := by
  unfold takeVictim
  refine (chooseVictim_spec p fun _ => True).bind ?_ (fun _ _ _ => trivial) fun _ _ => trivial
  rintro ⟨i, a⟩ q ⟨r, _, ha, _, hswept, rfl⟩
  refine (leavesAssigned_saveVictim a.owner a.upage i _).bind ?_ (fun _ _ _ => trivial)
    fun _ h => h
  intro _ q h
  have hmarked : p.MovedAt i (r.assign i (some { a with evicting := true })) :=
    (MovedAt.of_assign r i _).after (.of_assignments hswept.assignments)
  exact (hmarked.before (.of_assignments h)).trans (.of_assign q i _)

theorem obtainFrame_movedAt (p : Pager n) (id : SpaceId) (upage : Nat) (zero : Bool) :
    ((obtainFrame id upage zero).run p).Meets (fun i q => p.MovedAt i q) (fun _ _ => False)
      (fun _ => True) := by
  refine obtainFrame_meets ?_ fun _ =>
    (takeVictim_movedAt p id upage).mono (fun _ _ h => h) (fun _ _ _ => trivial) fun _ h => h
  intro i frames htake
  obtain ⟨_, _, hassign, _⟩ := FrameTable.takeFree_eq_some htake
  have hmoved : p.MovedAt i { p with frames := frames } := by
    intro j hj
    exact congrArg (Option.map _) ((hassign j).trans (if_neg hj))
  exact ⟨fun _ => hmoved, fun _ => hmoved⟩

theorem returnFrame_movedAt (p : Pager n) (id : SpaceId) (i : Fin n) :
    ((returnFrame id i).run p).Meets (fun _ q => p.MovedAt i q) (fun _ _ => False)
      (fun _ => True) :=
  (returnFrame_assignments p id i).mono
    (fun _ _ h => (MovedAt.of_assign p i none).before (.of_assignments h)) (fun _ _ h => h)
    fun _ h => h

/-! ## Loading -/

/-- A frame that cannot be filled goes back, and no other was taken for it. -/
theorem oneMoved_bringInAbsent (id : SpaceId) (upage : Nat) (d : Descriptor) :
    (bringInAbsent id upage d : PagerAction n (Fin n)).EndsIn OneMoved := by
  intro p
  unfold bringInAbsent
  refine (obtainFrame_movedAt p id upage false).bind ?_ (fun _ _ h => h.elim) fun _ h => h
  intro i r h
  have hfill := (EndsIn.of_leavesAssigned (leavesAssigned_fillFrame i
    d.backing.loadSource)).attempt
  refine (hfill r).bind ?_ (fun _ _ h' => (h.before h').oneMoved) fun _ h => h
  intro filled q hq
  rcases filled with e | u
  · exact (returnFrame_movedAt q id i).bind (fun _ _ ht => ((h.before hq).trans ht).oneMoved)
      (fun _ _ h => h.elim) fun _ h => h
  · exact (leavesAssigned_settle id upage d i q).bind
      (fun _ _ ht => ((h.before hq).before (.of_assignments ht)).oneMoved) (fun _ _ h => h.2.elim)
      fun _ h => h

theorem oneMoved_bringIn (id : SpaceId) (upage : Nat) :
    (bringIn id upage : PagerAction n (Option (Fin n))).EndsIn OneMoved := by
  refine (EndsIn.read _).bind_oneMoved fun d? => ?_
  split
  next => exact .fail _
  next d =>
    split
    next => exact .pure _
    next =>
      split
      next => exact .fail _
      next => exact (oneMoved_bringInAbsent id upage d).oneMoved_bind fun _ => .pure _

theorem oneMoved_ensureLoaded (id : SpaceId) (upage : Nat) :
    (ensureLoaded id upage : PagerAction n Unit).EndsIn OneMoved := by
  refine (oneMoved_bringIn id upage).oneMoved_bind fun found => ?_
  cases found with
  | some _ => exact sameBacked_unpin id upage
  | none => exact .pure ()

theorem oneMoved_extendStack (id : SpaceId) (upage : Nat) :
    (extendStack id upage : PagerAction n Unit).EndsIn OneMoved := by
  intro p
  unfold extendStack
  refine (obtainFrame_movedAt p id upage true).bind ?_ (fun _ _ h => h.elim) fun _ h => h
  intro i r h
  refine (leavesAssigned_mapFrame id upage i true r).bind ?_ (fun _ _ h => h.2.elim) fun _ h => h
  intro mapped s hs
  have hs : p.MovedAt i s := h.before (.of_assignments hs)
  split
  next =>
    exact (sameBacked_unpin id upage s).mono (fun _ _ ht => (hs.before ht).oneMoved)
      (fun _ _ ht => (hs.before ht).oneMoved) fun _ h => h
  next =>
    exact (returnFrame_movedAt s id i).bind (fun _ _ ht => (hs.trans ht).oneMoved)
      (fun _ _ h => h.elim) fun _ h => h

theorem oneMoved_handleFault (id : SpaceId) (address stackPointer : Nat) :
    (handleFault id address stackPointer : PagerAction n Unit).EndsIn OneMoved := by
  unfold handleFault
  split
  next => exact .fail _
  next =>
    refine (EndsIn.read _).bind_oneMoved fun space =>
      (EndsIn.read _).bind_oneMoved fun config => ?_
    split
    next => exact oneMoved_ensureLoaded id (pageBase address)
    next =>
      split
      next => exact .pure ()
      next =>
        split
        next => exact oneMoved_extendStack id (pageBase address)
        next => exact .fail _

theorem oneMoved_pinResident (id : SpaceId) (upage : Nat) :
    (pinResident id upage : PagerAction n (Fin n)).EndsIn OneMoved := by
  refine (sameBacked_pin id upage).attempt.bind_oneMoved fun pinned => ?_
  split
  next => exact .pure _
  next =>
    refine (oneMoved_bringIn id upage).oneMoved_bind fun found => ?_
    cases found with
    | some i => exact .pure i
    | none =>
      exact .bind (.read _) fun _ => .stop _
  next => exact .fail _

/-! ## Copies -/

theorem oneMoved_pinForCopy (id : SpaceId) (upage : Nat) :
    (pinForCopy id upage : PagerAction n (Fin n)).EndsIn OneMoved := by
  refine (oneMoved_pinResident id upage).attempt.oneMoved_bind fun pinned => ?_
  split
  next => exact .fail _
  next => exact .ofResult _

end DemandPaging
