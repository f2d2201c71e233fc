import DemandPaging.Bits
import DemandPaging.Failure
/-!
# Bitmaps packed into words

A bitmap of a fixed length, sixty-four bits to a word. The last word may have
bits to spare beyond the length; a new bitmap has them clear.

Reading or writing a bit that the bitmap does not have is fatal. The search
`flipLowest` looks for the first word that is not entirely made of the unwanted
value, which is one comparison a word. In the kernel it is `scan_and_flip`.
-/

namespace DemandPaging

/-- `length` bits, packed. -/
structure Bitmap where
  length : Nat
  words : Vector (BitVec 64) ((length + 63) / 64)

namespace Bitmap

/-- A bitmap with every bit clear. -/
def clear (length : Nat) : Bitmap := ⟨length, Vector.replicate _ 0⟩

/-- The value of a bit that the bitmap has. -/
def bit (b : Bitmap) (i : Nat) (h : i < b.length) : Bool :=
  b.words[i / 64].getLsbD (i % 64)

/-- The bitmap with one of its bits written. -/
def withBit (b : Bitmap) (i : Nat) (value : Bool) (h : i < b.length) : Bitmap :=
  { b with
    words := b.words.set (i / 64)
      (Bits.withBit b.words[i / 64] (i % 64) value) (by omega) }

/-- Read bit `i`. -/
def test (b : Bitmap) (i : Nat) : Except Fatal Bool :=
  if h : i < b.length then .ok (b.bit i h) else .error (.bitOutOfRange i b.length)

/-- Write bit `i`. -/
def set (b : Bitmap) (i : Nat) (value : Bool) : Except Fatal Bitmap :=
  if h : i < b.length then .ok (b.withBit i value h) else .error (.bitOutOfRange i b.length)

/-- How many bits are set. -/
def countOnes (b : Bitmap) : Nat := b.words.foldl (fun total word => total + Bits.countOnes word) 0

/-- The word that holds no bit equal to `value`. -/
def fullWord (value : Bool) : BitVec 64 := if value then 0 else BitVec.allOnes 64

/-- Find the lowest bit that equals `value` and flip it, answering its index.
There is no such bit when every word is full of the other value, or when the
first one found lies beyond the length. -/
def flipLowest (b : Bitmap) (value : Bool) : Option (Nat × Bitmap) :=
  match b.words.findFinIdx? (· != fullWord value) with
  | none => none
  | some word =>
    match Bits.lowest? b.words[word] value with
    | none => none
    | some offset =>
      let i := word.val * 64 + offset
      if h : i < b.length then some (i, b.withBit i (!value) h) else none

theorem test_eq_ok_iff {b : Bitmap} {i : Nat} {value : Bool} :
    b.test i = .ok value ↔ ∃ h : i < b.length, b.bit i h = value := by
  unfold test
  split
  next h => simp [h]
  next h => simp [h]

theorem set_eq_ok_iff {b b' : Bitmap} {i : Nat} {value : Bool} :
    b.set i value = .ok b' ↔ ∃ h : i < b.length, b.withBit i value h = b' := by
  unfold set
  split
  next h => simp [h]
  next h => simp [h]

end Bitmap

end DemandPaging
