import DemandPaging.Pager.Action
/-!
# What is known of an outcome

`Meets` says something of an outcome for each of the three ways in which an action ends. A
function of the pager has one lemma of this form; its callers use the lemma and never look
inside. `Meets.bind` and `Meets.attempt` are the rules for composed actions.
-/

namespace DemandPaging

variable {n : Nat} {α β : Type}

/-- An outcome is as told: by `D` if it is done, by `F` if it failed, by `X` if it is fatal. -/
def Outcome.Meets (o : Outcome n α) (D : α → Pager n → Prop) (F : PagingError → Pager n → Prop)
    (X : Fatal → Prop) : Prop :=
  match o with
  | .done a q => D a q
  | .failed e q => F e q
  | .fatal reason => X reason

namespace Outcome.Meets

variable {o : Outcome n α} {D D' : α → Pager n → Prop} {F F' : PagingError → Pager n → Prop}
  {X X' : Fatal → Prop} {p : Pager n}

theorem of_done {a : α} (h : D a p) : (Outcome.done a p).Meets D F X := h

theorem mono (h : o.Meets D F X) (hD : ∀ a q, D a q → D' a q) (hF : ∀ e q, F e q → F' e q)
    (hX : ∀ reason, X reason → X' reason) : o.Meets D' F' X' := by
  cases o with
  | done a q => exact hD a q h
  | failed e q => exact hF e q h
  | fatal reason => exact hX reason h

/-- What is known of an outcome in two ways is known together. -/
theorem and {X₂ : Fatal → Prop} (h : o.Meets D F X) (h' : o.Meets D' F' X₂) :
    o.Meets (fun a q => D a q ∧ D' a q) (fun e q => F e q ∧ F' e q)
      (fun reason => X reason ∧ X₂ reason) := by
  cases o with
  | done a q => exact ⟨h, h'⟩
  | failed e q => exact ⟨h, h'⟩
  | fatal reason => exact ⟨h, h'⟩

open PagerAction

/-- An outcome is known by how the action ends. -/
theorem self (x : PagerAction n α) (p : Pager n) :
    (x.run p).Meets (fun a q => x.run p = .done a q) (fun e q => x.run p = .failed e q)
      (fun reason => x.run p = .fatal reason) := by
  cases x.run p with
  | done a q => rfl
  | failed e q => rfl
  | fatal reason => rfl

/-- What is known of an action that stops the system may include that it does. -/
theorem of_stop {x : PagerAction n α} (h : (x.run p).Meets D F X)
    (hX : ∀ reason, X reason → x.run p = .fatal reason → X' reason) :
    (x.run p).Meets D F X' := by
  cases hx : x.run p with
  | done a q =>
    rw [hx] at h
    exact h
  | failed e q =>
    rw [hx] at h
    exact h
  | fatal reason =>
    rw [hx] at h
    exact hX reason h hx

/-- What follows starts from where the first part ended, if that was done. -/
theorem bind {x : PagerAction n α} {f : α → PagerAction n β} {E : β → Pager n → Prop}
    (h : (x.run p).Meets D F X) (hdone : ∀ a q, D a q → ((f a).run q).Meets E F' X')
    (hfailed : ∀ e q, F e q → F' e q) (hfatal : ∀ reason, X reason → X' reason) :
    ((x >>= f).run p).Meets E F' X' := by
  rw [run_bind]
  cases hx : x.run p with
  | done a q =>
    rw [hx] at h
    exact hdone a q h
  | failed e q =>
    rw [hx] at h
    exact hfailed e q h
  | fatal reason =>
    rw [hx] at h
    exact hfatal reason h

/-- What is known of the state does not depend on what is answered. -/
theorem map {x : PagerAction n α} {P : Pager n → Prop} (h : (x.run p).Meets (fun _ q => P q) F X)
    (f : α → β) : ((x >>= fun a => pure (f a)).run p).Meets (fun _ q => P q) F X :=
  h.bind (fun _ _ h => h) (fun _ _ h => h) fun _ h => h

/-- An attempt is not failed; its answer tells how it ended. -/
theorem attempt {x : PagerAction n α} (h : (x.run p).Meets D F X) :
    ((PagerAction.attempt x).run p).Meets (fun r q => match r with
      | .ok a => D a q
      | .error e => F e q) (fun _ _ => False) X := by
  rw [run_attempt]
  cases hx : x.run p with
  | done a q =>
    rw [hx] at h
    exact h
  | failed e q =>
    rw [hx] at h
    exact h
  | fatal reason =>
    rw [hx] at h
    exact h

end Outcome.Meets

/-! ## Outcomes that are computed -/

/-- Whether an action was done. -/
def Outcome.isDone : Outcome n α → Bool
  | .done .. => true
  | .failed .. | .fatal .. => false

theorem Outcome.eq_done {o : Outcome n α} (h : o.isDone = true) : ∃ a q, o = .done a q := by
  cases o with
  | done a q => exact ⟨a, q, rfl⟩
  | failed e q => cases h
  | fatal reason => cases h

/-- The error that an action failed with, if it did. -/
def Outcome.error? : Outcome n α → Option PagingError
  | .failed e _ => some e
  | .done .. | .fatal .. => none

theorem Outcome.eq_failed {o : Outcome n α} {e : PagingError} (h : o.error? = some e) :
    ∃ q, o = .failed e q := by
  cases o with
  | failed other q =>
    cases h
    exact ⟨q, rfl⟩
  | done a q => cases h
  | fatal reason => cases h

end DemandPaging
