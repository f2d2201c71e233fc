import DemandPaging.Proofs.BitCount
import DemandPaging.Proofs.CallSequences
/-!
# A bitmap behaves as a list of booleans

`toList` unpacks a bitmap. What a call does to the packed words is what it does to this list:
writing a bit writes one boolean (`toList_put`), the search flips the first boolean with the value
(`idxOf?_toList`), and the ones of a tidy bitmap are those of the list (`countOnes_eq_count`).

`Packs` is what every call keeps (`Packs.serve`), and `behaves_as_list` says what comes of it for
any sequence of calls on a new bitmap of any length.
-/

namespace DemandPaging.Bitmap

/-! ## The list -/

/-- The booleans of a bitmap in their order. -/
def toList (b : Bitmap) : List Bool := (List.range b.length).map b.isSet

theorem length_toList (b : Bitmap) : b.toList.length = b.length := by
  unfold toList
  rw [List.length_map, List.length_range]

theorem getElem?_toList {b : Bitmap} {i : Nat} (h : i < b.length) :
    b.toList[i]? = some (b.isSet i) := by
  unfold toList
  rw [List.getElem?_map, List.getElem?_range h, Option.map_some]

theorem getElem_toList (b : Bitmap) {i : Nat} (h : i < b.toList.length) :
    b.toList[i] = b.isSet i := by
  have hin : i < b.length := by
    rw [← length_toList]
    exact h
  exact (List.getElem_eq_iff h).mpr (getElem?_toList hin)

theorem lt_of_getElem?_toList {b : Bitmap} {i : Nat} {value : Bool}
    (h : b.toList[i]? = some value) : i < b.length := by
  rw [← length_toList]
  exact (List.getElem?_eq_some_iff.mp h).1

theorem toList_clear (length : Nat) : (clear length).toList = List.replicate length false := by
  refine List.eq_replicate_iff.mpr ⟨length_toList _, fun value hmem => ?_⟩
  obtain ⟨i, -, rfl⟩ := List.mem_map.mp hmem
  exact isSet_clear length i

/-- Writing a bit writes that boolean of the list. -/
theorem toList_put {b : Bitmap} {i : Nat} (h : i < b.length) (value : Bool) :
    (b.put i value).toList = b.toList.set i value := by
  refine List.ext_getElem ?_ fun j _ _ => ?_
  · rw [List.length_set, length_toList, length_toList, length_put]
  · rw [getElem_toList, isSet_put b h, List.getElem_set, getElem_toList]
    by_cases hj : j = i
    · rw [if_pos hj, if_pos hj.symm]
    · rw [if_neg hj, if_neg (Ne.symm hj)]

/-- The ones that are counted in a tidy bitmap are those of the list. -/
theorem countOnes_eq_count {b : Bitmap} (hb : b.Tidy) : b.countOnes = b.toList.count true := by
  rw [countOnes_eq_countP hb, toList, List.count_eq_countP, List.countP_map]
  exact List.countP_congr fun i _ => by simp

/-- The search flips the first boolean that has the value. -/
theorem idxOf?_toList (b : Bitmap) (value : Bool) :
    b.toList.idxOf? value = (b.flipLowest value).map Prod.fst := by
  cases h : b.flipLowest value with
  | none =>
    refine List.idxOf?_eq_none_iff.mpr fun hmem => ?_
    obtain ⟨i, hi⟩ := List.mem_iff_getElem?.mp hmem
    have hin := lt_of_getElem?_toList hi
    rw [getElem?_toList hin, flipLowest_eq_none h hin] at hi
    simp at hi
  | some found =>
    obtain ⟨i, b'⟩ := found
    obtain ⟨hin, hvalue, hbefore, -⟩ := flipLowest_eq_some h
    have hlist : i < b.toList.length := by
      rw [length_toList]
      exact hin
    refine List.idxOf?_eq_some_iff.mpr ⟨hlist, ?_, fun j hj hsame => ?_⟩
    · rw [getElem_toList, hvalue]
    · rw [getElem_toList, hbefore j hj] at hsame
      simp at hsame

/-! ## Calls -/

/-- A call that changes a bitmap. -/
inductive Call where
  | set (i : Nat) (value : Bool)
  | flip (value : Bool)

/-- The call writes no bit beyond the length. -/
def Call.InRange (length : Nat) : Call → Prop
  | .set i _ => i < length
  | .flip _ => True

/-- The list of booleans after a call. -/
def Call.onList (bits : List Bool) : Call → List Bool
  | .set i value => bits.set i value
  | .flip value =>
    match bits.idxOf? value with
    | some i => bits.set i (!value)
    | none => bits

/-- The bitmap after a call. -/
def serve (b : Bitmap) : Call → Except Fatal Bitmap
  | .set i value => b.set i value
  | .flip value =>
    match b.flipLowest value with
    | some (_, b') => .ok b'
    | none => .ok b

/-- The bitmap after a sequence of calls. -/
def serveAll (b : Bitmap) (calls : List Call) : Except Fatal Bitmap := calls.foldlM serve b

theorem set_eq_put {b : Bitmap} {i : Nat} (h : i < b.length) (value : Bool) :
    b.set i value = .ok (b.put i value) := by
  unfold set put
  rw [dif_pos h, dif_pos h]

/-- The bitmap has that length and these booleans, and its bits to spare are clear. -/
structure Packs (length : Nat) (b : Bitmap) (bits : List Bool) : Prop where
  length_eq : b.length = length
  toList_eq : b.toList = bits
  tidy : b.Tidy

theorem Packs.clear (length : Nat) :
    Packs length (Bitmap.clear length) (List.replicate length false) :=
  ⟨rfl, toList_clear length, tidy_clear length⟩

theorem Packs.put {length : Nat} {b : Bitmap} {bits : List Bool} (h : Packs length b bits)
    {i : Nat} (hi : i < b.length) (value : Bool) :
    Packs length (b.put i value) (bits.set i value) where
  length_eq := (length_put ..).trans h.length_eq
  toList_eq := by rw [toList_put hi, h.toList_eq]
  tidy := h.tidy.put i value

/-- A call does to a bitmap what it does to its list. -/
theorem Packs.serve {length : Nat} {b : Bitmap} {bits : List Bool} (h : Packs length b bits)
    {call : Call} (hcall : call.InRange length) :
    ∃ b', b.serve call = .ok b' ∧ Packs length b' (call.onList bits) := by
  cases call with
  | set i value =>
    have hi : i < b.length := by
      rw [h.length_eq]
      exact hcall
    exact ⟨_, set_eq_put hi value, h.put hi value⟩
  | flip value =>
    simp only [Bitmap.serve, Call.onList, ← h.toList_eq, idxOf?_toList]
    cases hflip : b.flipLowest value with
    | none => exact ⟨b, rfl, h.length_eq, rfl, h.tidy⟩
    | some found =>
      obtain ⟨i, b'⟩ := found
      obtain ⟨hin, -, -, rfl⟩ := flipLowest_eq_some hflip
      exact ⟨_, rfl, h.toList_eq ▸ h.put hin _⟩

/-- **A bitmap behaves as a list of booleans.** After any sequence of calls on a new bitmap that
writes no bit beyond its length, the list is what the same calls make of a list of that many
clear booleans. Every bit reads as its boolean, and writing it writes that boolean and no other. As
many ones are counted as there are in the list. The search answers the first position with the value
and flips it there and nowhere else, or it answers nothing, just when there is no such position.
The bits to spare in the last word are clear. -/
theorem behaves_as_list {length : Nat} {calls : List Call}
    (hcalls : ∀ call ∈ calls, call.InRange length) :
    ∃ b bits, (clear length).serveAll calls = .ok b
      ∧ bits = calls.foldl Call.onList (List.replicate length false)
      ∧ bits.length = length
      ∧ b.toList = bits
      ∧ (∀ i value, bits[i]? = some value → b.test i = .ok value)
      ∧ (∀ i value, i < length → ∃ b', b.set i value = .ok b' ∧ b'.toList = bits.set i value)
      ∧ b.countOnes = bits.count true
      ∧ (∀ value, value ∉ bits ∧ b.flipLowest value = none
        ∨ ∃ i b', b.flipLowest value = some (i, b') ∧ bits[i]? = some value
          ∧ (∀ j, j < i → bits[j]? = some (!value)) ∧ b'.toList = bits.set i (!value))
      ∧ b.Tidy := by
  have hstep : ∀ call ∈ calls, ∀ b bits, Packs length b bits →
      ∃ b', b.serve call = .ok b' ∧ Packs length b' (call.onList bits) :=
    fun call hcall _ _ h => h.serve (hcalls call hcall)
  obtain ⟨b, hserve, hlength, hlist, htidy⟩ := foldlM_simulates hstep (Packs.clear length)
  refine ⟨b, b.toList, hserve, hlist, ?_, rfl, ?_, ?_, countOnes_eq_count htidy, ?_, htidy⟩
  · rw [length_toList, hlength]
  · intro i value hvalue
    have hin := lt_of_getElem?_toList hvalue
    rw [getElem?_toList hin, isSet_eq_bit b hin] at hvalue
    exact test_eq_ok_iff.mpr ⟨hin, Option.some.inj hvalue⟩
  · intro i value hi
    rw [← hlength] at hi
    exact ⟨_, set_eq_put hi value, toList_put hi value⟩
  · intro value
    cases hflip : b.flipLowest value with
    | none =>
      left
      refine ⟨List.idxOf?_eq_none_iff.mp ?_, rfl⟩
      rw [idxOf?_toList, hflip]
      rfl
    | some found =>
      right
      obtain ⟨i, b'⟩ := found
      obtain ⟨hin, hvalue, hbefore, rfl⟩ := flipLowest_eq_some hflip
      refine ⟨i, _, rfl, ?_, fun j hj => ?_, toList_put hin _⟩
      · rw [getElem?_toList hin, hvalue]
      · rw [getElem?_toList (Nat.lt_trans hj hin), hbefore j hj]

/-- Once the first of two words is full the search goes on in the second, and one bit of it counts
as one. -/
theorem behaves_as_list_twoWords :
    ∃ b, (clear 70).serveAll (.set 69 true :: List.replicate 64 (.flip false)) = .ok b
      ∧ (b.flipLowest false).map Prod.fst = some 64 ∧ b.countOnes = 65 := by
  have hcalls : ∀ call ∈ Call.set 69 true :: List.replicate 64 (.flip false),
      call.InRange 70 := by
    intro call hcall
    rcases List.mem_cons.mp hcall with rfl | hcall
    · exact (by decide : 69 < 70)
    · rw [List.eq_of_mem_replicate hcall]
      trivial
  obtain ⟨b, bits, hserve, hbits, -, hlist, -, -, hcount, -, -⟩ := behaves_as_list hcalls
  refine ⟨b, hserve, ?_, ?_⟩
  · rw [← idxOf?_toList, hlist, hbits]
    decide +kernel
  · rw [hcount, hbits]
    decide +kernel

end DemandPaging.Bitmap
