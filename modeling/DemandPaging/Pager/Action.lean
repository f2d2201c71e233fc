import DemandPaging.Pager.State
/-!
# Actions on the pager

An action runs on a state of the pager and ends in one of three ways. It is done,
with an answer; or it failed, with an error that its caller may handle; or it met
a fatal failure. The first two leave a state behind, with everything that was
changed on the way. After a fatal failure there is none.

Actions are composed with `do`: a failure skips what follows and keeps the state.
The `run_` lemmas say what each building block does to a state.

In the kernel a failure is the error of a `Result` and a fatal failure is a panic.
-/

namespace DemandPaging

/-- How an action ends. -/
inductive Outcome (n : Nat) (α : Type) where
  | done (answer : α) (state : Pager n)
  | failed (error : PagingError) (state : Pager n)
  | fatal (reason : Fatal)

/-- An operation on a pager over `n` frames that answers an `α`. -/
structure PagerAction (n : Nat) (α : Type) where
  /-- Run the action on a state. -/
  run : Pager n → Outcome n α

namespace PagerAction

variable {n : Nat} {α β : Type}

instance : Monad (PagerAction n) where
  pure a := ⟨.done a⟩
  bind x f := ⟨fun p =>
    match x.run p with
    | .done a p => (f a).run p
    | .failed e p => .failed e p
    | .fatal reason => .fatal reason⟩

/-- Look at the state. -/
def read (f : Pager n → α) : PagerAction n α := ⟨fun p => .done (f p) p⟩

/-- Change the state. -/
def update (f : Pager n → Pager n) : PagerAction n Unit := ⟨fun p => .done () (f p)⟩

/-- Fail with an error. -/
def fail (e : PagingError) : PagerAction n α := ⟨.failed e⟩

/-- Stop the system. -/
def stop (reason : Fatal) : PagerAction n α := ⟨fun _ => .fatal reason⟩

/-- Answer the result of an earlier attempt, or fail with its error. -/
def ofResult : Except PagingError α → PagerAction n α
  | .ok a => pure a
  | .error e => fail e

/-- Go on with a value unless computing it was fatal. -/
def ofFatal : Except Fatal α → PagerAction n α
  | .ok a => pure a
  | .error reason => stop reason

/-- Turn a failure into an answer. -/
def attempt (x : PagerAction n α) : PagerAction n (Except PagingError α) :=
  ⟨fun p =>
    match x.run p with
    | .done a p => .done (.ok a) p
    | .failed e p => .done (.error e) p
    | .fatal reason => .fatal reason⟩

@[simp] theorem run_pure (a : α) (p : Pager n) :
    (pure a : PagerAction n α).run p = .done a p := rfl

theorem run_bind (x : PagerAction n α) (f : α → PagerAction n β) (p : Pager n) :
    (x >>= f).run p
      = match x.run p with
        | .done a p => (f a).run p
        | .failed e p => .failed e p
        | .fatal reason => .fatal reason := rfl

@[simp] theorem run_read (f : Pager n → α) (p : Pager n) : (read f).run p = .done (f p) p := rfl

@[simp] theorem run_update (f : Pager n → Pager n) (p : Pager n) :
    (update f).run p = .done () (f p) := rfl

@[simp] theorem run_fail (e : PagingError) (p : Pager n) :
    (fail e : PagerAction n α).run p = .failed e p := rfl

@[simp] theorem run_stop (reason : Fatal) (p : Pager n) :
    (stop reason : PagerAction n α).run p = .fatal reason := rfl

theorem run_attempt (x : PagerAction n α) (p : Pager n) :
    (attempt x).run p
      = match x.run p with
        | .done a p => .done (.ok a) p
        | .failed e p => .done (.error e) p
        | .fatal reason => .fatal reason := rfl

/-- A composed action is done when both of its parts are. -/
theorem run_bind_eq_done_iff {x : PagerAction n α} {f : α → PagerAction n β} {p q : Pager n}
    {b : β} :
    (x >>= f).run p = .done b q ↔ ∃ a r, x.run p = .done a r ∧ (f a).run r = .done b q := by
  rw [run_bind]
  cases x.run p with
  | done a r =>
    refine ⟨fun h => ⟨a, r, rfl, h⟩, ?_⟩
    rintro ⟨_, _, heq, h⟩
    cases heq
    exact h
  | failed e r => simp
  | fatal reason => simp

theorem ext {x y : PagerAction n α} (h : ∀ p, x.run p = y.run p) : x = y := by
  cases x
  cases y
  exact congrArg mk (funext h)

theorem id_map_eq (x : PagerAction n α) : id <$> x = x := ext fun p => by
  show (x >>= fun a => pure (id a)).run p = x.run p
  rw [run_bind]
  cases x.run p <;> rfl

theorem bind_assoc_eq {γ : Type} (x : PagerAction n α) (f : α → PagerAction n β)
    (g : β → PagerAction n γ) :
    x >>= f >>= g = x >>= fun a => f a >>= g := ext fun p => by
  simp only [run_bind]
  cases x.run p <;> rfl

instance : LawfulMonad (PagerAction n) :=
  LawfulMonad.mk' (PagerAction n) id_map_eq (fun _ _ => rfl) bind_assoc_eq

end PagerAction

end DemandPaging
