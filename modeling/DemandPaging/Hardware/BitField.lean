import DemandPaging.Bits
/-!
# Fields of a machine word

A record that is packed into a word has a reader and a writer for each of its fields,
and in the kernel these are generated. A `BitField` is such a pair together with what
is taken for granted about it: the reader answers the bits of the field, the writer
changes these bits and no others.

Nothing more has to be known of them. What is written is read back (`read_write`),
fields that lie apart do not touch each other (`read_write_of_apart`), and no other
pair does what is asked for (`unique`).

A number that goes into a field narrower than its word is narrowed before
(`Narrowing`).
-/

namespace DemandPaging

/-- A reader and a writer for the `width` bits from `low` on of a word. -/
structure BitField (size low width : Nat) where
  fits : low + width ≤ size
  read : BitVec size → BitVec width
  write : BitVec size → BitVec width → BitVec size
  /-- A read answers the bits of the field. -/
  getLsbD_read : ∀ word i, i < width → (read word).getLsbD i = word.getLsbD (low + i)
  /-- A write changes the bits of the field and no others. -/
  getLsbD_write : ∀ word value i, (write word value).getLsbD i
    = if low ≤ i ∧ i < low + width then value.getLsbD (i - low) else word.getLsbD i

/-- A way to narrow a word that keeps the number in it, or gives up if that needs more bits. -/
structure Narrowing (size width : Nat) where
  narrow? : BitVec size → Option (BitVec width)
  narrow?_eq_some_iff : ∀ word value, narrow? word = some value ↔ value.toNat = word.toNat

namespace BitField

variable {size low width low' width' : Nat}

/-- What is written is read back. -/
theorem read_write (f : BitField size low width) (word : BitVec size) (value : BitVec width) :
    f.read (f.write word value) = value := by
  refine BitVec.eq_of_getLsbD_eq fun i hi => ?_
  rw [f.getLsbD_read _ _ hi, f.getLsbD_write,
    if_pos ⟨Nat.le_add_right .., Nat.add_lt_add_left hi _⟩, Nat.add_sub_cancel_left]

/-- Writing a field leaves the fields that lie apart from it as they are. -/
theorem read_write_of_apart (f : BitField size low width) (g : BitField size low' width')
    (h : low + width ≤ low' ∨ low' + width' ≤ low) (word : BitVec size) (value : BitVec width) :
    g.read (f.write word value) = g.read word := by
  refine BitVec.eq_of_getLsbD_eq fun i hi => ?_
  rw [g.getLsbD_read _ _ hi, g.getLsbD_read _ _ hi, f.getLsbD_write, if_neg (by omega)]

/-- There is one reader and one writer for the same bits. -/
theorem unique (f g : BitField size low width) : f = g := by
  have hread : f.read = g.read := by
    funext word
    refine BitVec.eq_of_getLsbD_eq fun i hi => ?_
    rw [f.getLsbD_read _ _ hi, g.getLsbD_read _ _ hi]
  have hwrite : f.write = g.write := by
    funext word value
    refine BitVec.eq_of_getLsbD_eq fun i hi => ?_
    rw [f.getLsbD_write, g.getLsbD_write]
  cases f
  cases g
  cases hread
  cases hwrite
  rfl

/-- The reader and the writer of a single bit. -/
def ofBit {k : Nat} (h : k < size) : BitField size k 1 where
  fits := h
  read word := BitVec.ofBool (word.getLsbD k)
  write word value := Bits.withBit word k (value.getLsbD 0)
  getLsbD_read word i hi := by
    obtain rfl : i = 0 := Nat.lt_one_iff.mp hi
    exact BitVec.getLsbD_ofBool ..
  getLsbD_write word value i := by
    rw [Bits.getLsbD_withBit _ h]
    by_cases hi : i = k
    · rw [if_pos hi, if_pos (by omega), hi, Nat.sub_self]
    · rw [if_neg hi, if_neg (by omega)]

theorem read_ofBit {k : Nat} (h : k < size) (word : BitVec size) :
    ((ofBit h).read word).getLsbD 0 = word.getLsbD k := BitVec.getLsbD_ofBool ..

theorem write_ofBit {k : Nat} (h : k < size) (word : BitVec size) (value : Bool) :
    (ofBit h).write word (BitVec.ofBool value) = Bits.withBit word k value := by
  cases value <;> rfl

end BitField

end DemandPaging
