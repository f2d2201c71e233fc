import DemandPaging.Bitmap
/-!
# A bitmap as a row of booleans

`isSet` reads a packed bitmap at any position, false beyond its length, and `put` writes
it there. `isSet_put` says that they are a map and its update.

`flipLowest` is the search for the lowest bit with a value (`flipLowest_eq_some`), which
fails only if there is none (`flipLowest_eq_none`).

The last word of a bitmap may have bits to spare. A bitmap is `Tidy` when these are clear:
a new one is, writing keeps it so, and only then does the number of ones in the words
count the positions that are set (`countOnes_eq_countP`).
-/

namespace DemandPaging.Bitmap

/-- The bit at a position of the words, within the length or beyond it. -/
def wordBit (b : Bitmap) (i : Nat) : Bool := (b.words.toList[i / 64]?.getD 0).getLsbD (i % 64)

/-- Whether the bit at a position is set. No bit beyond the length is. -/
def isSet (b : Bitmap) (i : Nat) : Bool := decide (i < b.length) && b.wordBit i

/-- The bitmap with the bit at a position written, if it has that bit. -/
def put (b : Bitmap) (i : Nat) (value : Bool) : Bitmap :=
  if h : i < b.length then b.withBit i value h else b

/-- No bit beyond the length is set in the words. -/
def Tidy (b : Bitmap) : Prop := ∀ i, b.length ≤ i → b.wordBit i = false

theorem wordBit_eq (b : Bitmap) {i : Nat} (h : i / 64 < (b.length + 63) / 64) :
    b.wordBit i = (b.words[i / 64]).getLsbD (i % 64) := by
  unfold wordBit
  rw [List.getElem?_eq_getElem (by rw [Vector.length_toList]; exact h), Vector.getElem_toList]
  rfl

theorem bit_eq_wordBit (b : Bitmap) {i : Nat} (h : i < b.length) : b.bit i h = b.wordBit i :=
  (b.wordBit_eq (by omega)).symm

theorem isSet_eq_bit (b : Bitmap) {i : Nat} (h : i < b.length) : b.isSet i = b.bit i h := by
  rw [isSet, bit_eq_wordBit b h, decide_eq_true h, Bool.true_and]

theorem lt_of_isSet {b : Bitmap} {i : Nat} (h : b.isSet i = true) : i < b.length := by
  rw [isSet, Bool.and_eq_true, decide_eq_true_iff] at h
  exact h.1

@[simp] theorem length_put (b : Bitmap) (i : Nat) (value : Bool) :
    (b.put i value).length = b.length := by
  unfold put
  split
  · rfl
  · rfl

/-- Writing a bit changes that bit of the words and no other. -/
theorem wordBit_put (b : Bitmap) {i : Nat} (h : i < b.length) (value : Bool) (j : Nat) :
    (b.put i value).wordBit j = if j = i then value else b.wordBit j := by
  have hword : i / 64 < (b.length + 63) / 64 := by omega
  unfold put wordBit
  rw [dif_pos h]
  simp only [withBit, Vector.toList_set, List.getElem?_set, Vector.length_toList]
  by_cases hw : i / 64 = j / 64
  · rw [if_pos hw, if_pos hword, Option.getD_some,
      Bits.getLsbD_withBit _ (Nat.mod_lt _ (by decide))]
    by_cases hji : j = i
    · rw [if_pos hji, if_pos (by rw [hji])]
    -- another bit of the same word
    · rw [if_neg hji, if_neg (by omega), ← hw,
        List.getElem?_eq_getElem (by rw [Vector.length_toList]; exact hword), Vector.getElem_toList]
      rfl
  · rw [if_neg hw, if_neg (by omega)]

/-- Writing a bit changes what is read there and nowhere else. -/
theorem isSet_put (b : Bitmap) {i : Nat} (h : i < b.length) (value : Bool) (j : Nat) :
    (b.put i value).isSet j = if j = i then value else b.isSet j := by
  unfold isSet
  rw [length_put, wordBit_put b h]
  by_cases hj : j = i
  · subst hj
    simp [h]
  · simp [hj]

/-- Writing a bit and then what it was before changes nothing. -/
theorem put_put_of_isSet {b : Bitmap} {i : Nat} (h : i < b.length) (value : Bool) :
    (b.put i value).put i (b.isSet i) = b := by
  have hbit : (b.words[i / 64]).getLsbD (i % 64) = b.isSet i := (isSet_eq_bit b h).symm
  have hword : Bits.withBit (Bits.withBit b.words[i / 64] (i % 64) value) (i % 64) (b.isSet i)
      = b.words[i / 64] := by
    refine BitVec.eq_of_getLsbD_eq fun j _ => ?_
    rw [Bits.getLsbD_withBit _ (Nat.mod_lt _ (by decide)),
      Bits.getLsbD_withBit _ (Nat.mod_lt _ (by decide))]
    split
    next hj => rw [hj, hbit]
    next => rfl
  have hlt : i < (b.withBit i value h).length := h
  unfold put
  rw [dif_pos h, dif_pos hlt]
  unfold withBit
  simp only [Vector.getElem_set_self, Vector.set_set, hword, Vector.set_getElem_self]

theorem wordBit_clear (length i : Nat) : (clear length).wordBit i = false := by
  unfold wordBit clear
  rw [Vector.toList_replicate, List.getElem?_replicate]
  split
  · simp
  · simp

theorem isSet_clear (length i : Nat) : (clear length).isSet i = false := by
  rw [isSet, wordBit_clear, Bool.and_false]

theorem tidy_clear (length : Nat) : (clear length).Tidy := fun i _ => wordBit_clear length i

theorem Tidy.put {b : Bitmap} (hb : b.Tidy) (i : Nat) (value : Bool) : (b.put i value).Tidy := by
  intro j hj
  by_cases h : i < b.length
  · rw [length_put] at hj
    rw [wordBit_put b h, if_neg (by omega)]
    exact hb j hj
  · unfold Bitmap.put at hj ⊢
    rw [dif_neg h] at hj ⊢
    exact hb j hj

/-! ## The lowest bit with a value -/

theorem getLsbD_fullWord (value : Bool) {k : Nat} (hk : k < 64) :
    (fullWord value).getLsbD k = !value := by
  unfold fullWord
  cases value with
  | false =>
    rw [if_neg (by decide), BitVec.getLsbD_allOnes, decide_eq_true hk]
    rfl
  | true =>
    rw [if_pos rfl]
    exact BitVec.getLsbD_zero

theorem eq_fullWord {x : BitVec 64} {value : Bool} (h : ∀ k, k < 64 → x.getLsbD k = !value) :
    x = fullWord value :=
  BitVec.eq_of_getLsbD_eq fun k hk => by rw [h k hk, getLsbD_fullWord value hk]

/-- The word in which the search stops is the first one that is not full of the other value. -/
theorem findFinIdx?_words {b : Bitmap} {value : Bool} {word : Fin ((b.length + 63) / 64)}
    (h : b.words.findFinIdx? (· != fullWord value) = some word) :
    b.words.get word ≠ fullWord value
      ∧ ∀ k : Fin ((b.length + 63) / 64), k < word → b.words.get k = fullWord value := by
  unfold Vector.findFinIdx? at h
  obtain ⟨found, hfound, rfl⟩ := Option.map_eq_some_iff.mp h
  obtain ⟨hne, hbefore⟩ := Array.findFinIdx?_eq_some_iff.mp hfound
  refine ⟨by simpa [Vector.get] using hne, ?_⟩
  intro k hk
  have hfull := hbefore (k.cast (by simp)) hk
  simpa [Vector.get] using hfull

/-- Before the position at which the search stops all bits have the other value. -/
theorem wordBit_before {b : Bitmap} {value : Bool} {word : Fin ((b.length + 63) / 64)}
    {offset : Nat} (hword : b.words.findFinIdx? (· != fullWord value) = some word)
    (hoffset : Bits.lowest? (b.words.get word) value = some offset) {j : Nat}
    (hj : j < word.val * 64 + offset) : b.wordBit j = !value := by
  have hlt := (Bits.lowest?_eq_some hoffset).1
  have hin : j / 64 < (b.length + 63) / 64 := by omega
  rw [b.wordBit_eq hin]
  by_cases hsame : j / 64 = word.val
  · simp only [hsame]
    exact Bits.lowest?_minimal hoffset (by omega)
  · have hfull : b.words[j / 64] = fullWord value :=
      (findFinIdx?_words hword).2 ⟨j / 64, hin⟩ (Fin.lt_def.mpr (by simp only; omega))
    rw [hfull, getLsbD_fullWord value (Nat.mod_lt _ (by decide))]

/-- A bit that the search flips had the value, and is the lowest one that has it. -/
theorem flipLowest_eq_some {b b' : Bitmap} {value : Bool} {i : Nat}
    (h : b.flipLowest value = some (i, b')) :
    i < b.length ∧ b.isSet i = value ∧ (∀ j, j < i → b.isSet j = !value)
      ∧ b' = b.put i (!value) := by
  unfold flipLowest at h
  split at h
  next => cases h
  next word hword =>
    split at h
    next => cases h
    next offset hoffset =>
      obtain ⟨hlt, hbit⟩ := Bits.lowest?_eq_some hoffset
      simp only at h
      split at h
      next hin =>
        cases h
        -- a hit in the spare bits of the last word has been ruled out by now
        refine ⟨hin, ?_, ?_, ?_⟩
        · rw [isSet_eq_bit b hin]
          unfold bit
          have hdiv : (word.val * 64 + offset) / 64 = word.val := by omega
          have hmod : (word.val * 64 + offset) % 64 = offset := by omega
          simp only [hdiv, hmod]
          exact hbit
        · intro j hj
          rw [isSet, decide_eq_true (Nat.lt_trans hj hin), Bool.true_and,
            wordBit_before hword hoffset hj]
        · unfold put
          rw [dif_pos hin]
      next => cases h

/-- The search fails when every bit has the other value. -/
theorem flipLowest_eq_none {b : Bitmap} {value : Bool} (h : b.flipLowest value = none) {j : Nat}
    (hj : j < b.length) : b.isSet j = !value := by
  have hin : j / 64 < (b.length + 63) / 64 := by omega
  rw [isSet, decide_eq_true hj, Bool.true_and]
  unfold flipLowest at h
  split at h
  next hword =>
    have hfull := Vector.findFinIdx?_eq_none_iff.mp hword _ (Vector.getElem_mem hin)
    rw [b.wordBit_eq hin, show b.words[j / 64] = fullWord value by simpa using hfull,
      getLsbD_fullWord value (Nat.mod_lt _ (by decide))]
  next word hword =>
    split at h
    next hoffset =>
      -- a word without a bit of the value would be full of the other one
      exact absurd (eq_fullWord fun k hk => Bits.lowest?_eq_none hoffset hk)
        (findFinIdx?_words hword).1
    next offset hoffset =>
      simp only at h
      split at h
      next => cases h
      next hout => exact wordBit_before hword hoffset (by omega)

/-! ## Counting -/

theorem foldl_countOnes (words : List (BitVec 64)) (total : Nat) :
    words.foldl (fun total word => total + Bits.countOnes word) total
      = total + (List.range (64 * words.length)).countP
          fun i => (words[i / 64]?.getD 0).getLsbD (i % 64) := by
  induction words generalizing total with
  | nil => rfl
  | cons word rest ih =>
    have hlen : 64 * (word :: rest).length = 64 + 64 * rest.length := by
      rw [List.length_cons]
      omega
    -- the first 64 positions are those of the first word, and the others are moved by 64
    have hhead : (List.range 64).countP (fun i => ((word :: rest)[i / 64]?.getD 0).getLsbD (i % 64))
        = (List.range 64).countP word.getLsbD := by
      refine List.countP_congr ?_
      intro i hi
      have hi := List.mem_range.mp hi
      rw [Nat.div_eq_of_lt hi, Nat.mod_eq_of_lt hi]
      rfl
    have htail : ∀ i, ((word :: rest)[(64 + i) / 64]?.getD 0).getLsbD ((64 + i) % 64)
        = (rest[i / 64]?.getD 0).getLsbD (i % 64) := by
      intro i
      rw [show (64 + i) / 64 = i / 64 + 1 by omega, Nat.add_mod_left, List.getElem?_cons_succ]
    rw [List.foldl_cons, ih, Bits.countOnes_eq, hlen, List.range_add, List.countP_append, hhead,
      List.countP_map, Nat.add_assoc]
    simp only [Function.comp_def, htail]

/-- In a tidy bitmap the ones of the words are the positions that are set. -/
theorem countOnes_eq_countP {b : Bitmap} (hb : b.Tidy) :
    b.countOnes = (List.range b.length).countP b.isSet := by
  have hsplit : 64 * ((b.length + 63) / 64)
      = b.length + (64 * ((b.length + 63) / 64) - b.length) := by
    omega
  have hfold : b.countOnes = (List.range (64 * ((b.length + 63) / 64))).countP b.wordBit := by
    unfold countOnes
    rw [← Vector.foldl_toList, foldl_countOnes, Vector.length_toList, Nat.zero_add]
    rfl
  rw [hfold, hsplit, List.range_add, List.countP_append, List.countP_map]
  -- beyond the length a tidy bitmap has nothing to count
  have hspare : (List.range (64 * ((b.length + 63) / 64) - b.length)).countP
      (b.wordBit ∘ fun i => b.length + i) = 0 :=
    List.countP_eq_zero.mpr fun i _ => by simp [hb (b.length + i) (Nat.le_add_right _ _)]
  rw [hspare, Nat.add_zero]
  refine List.countP_congr ?_
  intro i hi
  rw [isSet, decide_eq_true (List.mem_range.mp hi), Bool.true_and]

end DemandPaging.Bitmap
