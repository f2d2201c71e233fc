import DemandPaging.Failure
/-!
# Numbers in machine words

Numbers are natural numbers and hardly ever leave the word of 64 bits that holds
them. The two that can are the number of frames that the clock looks at and the
place in a file at which a page of a program begins. What comes of such a number
is settled when the system is built: it stops the system, or it wraps around.

`Overflow.word_of_lt` says that a number that fits is itself in either build.
-/

namespace DemandPaging

/-- How many numbers a word of 64 bits can hold. -/
def wordLimit : Nat := 0x10000000000000000

/-- What a build does with a number that does not fit in a word. -/
inductive Overflow where
  /-- The system stops. -/
  | stops
  /-- The number wraps around. -/
  | wraps
  deriving DecidableEq, Repr

/-- A number as a word holds it. -/
def Overflow.word : Overflow → Nat → Except Fatal Nat
  | .stops, k => if k < wordLimit then .ok k else .error .overflow
  | .wraps, k => .ok (k % wordLimit)

theorem Overflow.word_of_lt {k : Nat} (h : k < wordLimit) (overflow : Overflow) :
    overflow.word k = .ok k := by
  cases overflow with
  | stops => exact if_pos h
  | wraps => exact congrArg Except.ok (Nat.mod_eq_of_lt h)

/-- Only a number that does not fit stops the system, and only in a build that looks for it. -/
theorem Overflow.word_eq_error {overflow : Overflow} {k : Nat} {reason : Fatal}
    (h : overflow.word k = .error reason) :
    overflow = .stops ∧ reason = .overflow ∧ wordLimit ≤ k := by
  cases overflow with
  | stops =>
    by_cases hlt : k < wordLimit
    · rw [word_of_lt hlt] at h
      cases h
    · cases (if_neg hlt).symm.trans h
      exact ⟨rfl, rfl, Nat.le_of_not_lt hlt⟩
  | wraps => cases h

/-- The sum, where it stays below a limit. -/
def sumBelow? (limit a b : Nat) : Option Nat := if a + b < limit then some (a + b) else none

theorem sumBelow?_eq_some_iff {limit a b c : Nat} :
    sumBelow? limit a b = some c ↔ c = a + b ∧ c < limit := by
  unfold sumBelow?
  split
  next h =>
    rw [Option.some.injEq]
    omega
  next h =>
    constructor
    · intro hc
      cases hc
    · omega

/-- The difference, where it does not go below zero. -/
def difference? (a b : Nat) : Option Nat := if b ≤ a then some (a - b) else none

theorem difference?_eq_some_iff {a b c : Nat} : difference? a b = some c ↔ a = c + b := by
  unfold difference?
  split
  next h =>
    rw [Option.some.injEq]
    omega
  next h =>
    constructor
    · intro hc
      cases hc
    · omega

end DemandPaging
