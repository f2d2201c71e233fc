/-!
# Single bits of a machine word

Bitmaps and page table entries are packed words. This module has the three
things they do with a word: write one bit, count the ones, and find the lowest
bit with a given value. `getLsbD_withBit` says that writing a bit changes that
bit and no other.
-/

namespace DemandPaging.Bits

variable {w : Nat}

/-- The word with bit `k` set to `value`. -/
def withBit (x : BitVec w) (k : Nat) (value : Bool) : BitVec w :=
  if value then x ||| BitVec.twoPow w k else x &&& ~~~BitVec.twoPow w k

/-- How many bits are set. The zero word, by far the most common one, is answered
without looking at its bits. -/
def countOnes (x : BitVec w) : Nat :=
  if x.toNat = 0 then 0 else (List.range w).countP x.getLsbD

/-- The lowest bit that equals `value`. -/
def lowest? (x : BitVec w) (value : Bool) : Option Nat :=
  (List.range w).find? fun k => x.getLsbD k == value

/-- Writing a bit changes that bit and no other. -/
theorem getLsbD_withBit (x : BitVec w) {k : Nat} (hk : k < w) (value : Bool) (j : Nat) :
    (withBit x k value).getLsbD j = if j = k then value else x.getLsbD j := by
  unfold withBit
  by_cases hj : j = k
  · subst hj
    cases value <;> simp [hk]
  · have hkj : ¬ k = j := fun h => hj h.symm
    cases value with
    | false =>
      by_cases hjw : j < w
      · simp [hj, hjw]
      · simp [hj, BitVec.getLsbD_of_ge, Nat.not_lt.mp hjw]
    | true => simp [BitVec.getLsbD_twoPow, hj, hkj]

theorem countOnes_eq (x : BitVec w) : countOnes x = (List.range w).countP x.getLsbD := by
  unfold countOnes
  split
  next h =>
    rw [BitVec.eq_of_toNat_eq (show x.toNat = (0#w).toNat by simpa using h)]
    exact (List.countP_eq_zero.mpr fun k _ => by simp).symm
  next => rfl

theorem lowest?_eq_some {x : BitVec w} {value : Bool} {k : Nat} (h : lowest? x value = some k) :
    k < w ∧ x.getLsbD k = value := by
  refine ⟨?_, ?_⟩
  · simpa using List.mem_of_find?_eq_some h
  · simpa using List.find?_some h

/-- Below the lowest bit with a value all bits have the other one. -/
theorem lowest?_minimal {x : BitVec w} {value : Bool} {k : Nat} (h : lowest? x value = some k)
    {j : Nat} (hj : j < k) : x.getLsbD j = !value := by
  have hbelow := (List.find?_range_eq_some.mp h).2.2 j hj
  exact Bool.eq_not.mpr (by simpa using hbelow)

/-- There is no lowest bit with a value when all bits have the other one. -/
theorem lowest?_eq_none {x : BitVec w} {value : Bool} (h : lowest? x value = none) {k : Nat}
    (hk : k < w) : x.getLsbD k = !value := by
  have hnone := List.find?_eq_none.mp h k (List.mem_range.mpr hk)
  exact Bool.eq_not.mpr (by simpa using hnone)

end DemandPaging.Bits
