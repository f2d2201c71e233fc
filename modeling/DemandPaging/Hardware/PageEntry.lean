import DemandPaging.Address
import DemandPaging.Bits
import DemandPaging.Failure
import DemandPaging.Hardware.BitField
/-!
# Page table entries

The 32-bit word that the memory management unit reads for one page: nine flags in
the low bits, three bits that nobody here uses, and the number of the page frame
in the upper twenty.

The readers and writers here are those of a `BitField` each (`flagField`,
`frameNumberField`), and a frame number is narrowed as `Narrowing` says
(`numberNarrowing`). `has_withFlag` and `frameNumber_withFlag` say that writing a flag
leaves the rest of the word alone; `has_withFrameNumber` and
`frameNumber_withFrameNumber` say the same of the frame number.

In the kernel the entry is a `PageTableEntry`, `has` and `withFlag` are `present` and
`with_present` and so on for each flag, `withFrameNumber` is `with_page_frame_address`,
`narrow?` is `u20::new`, `userMapping` is `user_mapping` and `frameAddress` is `frame`.
-/

namespace DemandPaging

/-- The flags of a page table entry. -/
inductive PageFlag where
  | present
  | writable
  | user
  | writeThrough
  | cacheDisabled
  /-- Set by the hardware on every access. -/
  | accessed
  /-- Set by the hardware on every write. -/
  | dirty
  | attributeTable
  | global
  deriving DecidableEq, Repr

/-- Where a flag stands in the word. -/
def PageFlag.position : PageFlag → Nat
  | .present => 0
  | .writable => 1
  | .user => 2
  | .writeThrough => 3
  | .cacheDisabled => 4
  | .accessed => 5
  | .dirty => 6
  | .attributeTable => 7
  | .global => 8

theorem PageFlag.position_lt (flag : PageFlag) : flag.position < 12 := by
  cases flag <;> decide

theorem PageFlag.position_inj {a b : PageFlag} : a.position = b.position ↔ a = b := by
  cases a <;> cases b <;> decide

/-- One page table entry. -/
structure PageEntry where
  word : BitVec 32
  deriving DecidableEq

namespace PageEntry

/-- The entry of a page that is not mapped. -/
def absent : PageEntry := ⟨0⟩

/-- Whether a flag is set. -/
def has (e : PageEntry) (flag : PageFlag) : Bool := e.word.getLsbD flag.position

/-- The entry with one flag written. -/
def withFlag (e : PageEntry) (flag : PageFlag) (value : Bool) : PageEntry :=
  ⟨Bits.withBit e.word flag.position value⟩

/-- The number of the page frame. -/
def frameNumber (e : PageEntry) : BitVec 20 := e.word.extractLsb' 12 20

/-- The entry with another page frame. -/
def withFrameNumber (e : PageEntry) (number : BitVec 20) : PageEntry :=
  ⟨(number ++ e.word.setWidth 12 : BitVec (20 + 12))⟩

/-- The physical address of the page frame. -/
def frameAddress (e : PageEntry) : Nat := e.frameNumber.toNat * pageSize

/-- The frame number in a word, if it needs no more than twenty bits. -/
def narrow? (word : BitVec 32) : Option (BitVec 20) :=
  if word.toNat < 0x100000 then some (BitVec.ofNat 20 word.toNat) else none

/-- The entry that maps a user page to the frame at `address`. Frame numbers are
32-bit words of which an entry can hold twenty bits; a number that needs more is
fatal. -/
def userMapping (address : Nat) (writable : Bool) : Except Fatal PageEntry :=
  match narrow? (BitVec.ofNat 32 (address / pageSize)) with
  | some number =>
    .ok (((absent.withFlag .present true).withFlag .user true).withFlag .writable writable
      |>.withFrameNumber number)
  | none => .error (.frameNumberTooLarge address)

theorem has_withFlag (e : PageEntry) (flag other : PageFlag) (value : Bool) :
    (e.withFlag flag value).has other = if other = flag then value else e.has other := by
  unfold has withFlag
  rw [Bits.getLsbD_withBit _ (Nat.lt_trans flag.position_lt (by decide))]
  simp only [PageFlag.position_inj]

/-- Writing the frame number replaces the upper twenty bits and keeps the others. -/
theorem getLsbD_withFrameNumber (e : PageEntry) (number : BitVec 20) (i : Nat) :
    (e.withFrameNumber number).word.getLsbD i
      = if i < 12 then e.word.getLsbD i else number.getLsbD (i - 12) := by
  rw [show (e.withFrameNumber number).word.getLsbD i
      = (number ++ e.word.setWidth 12 : BitVec (20 + 12)).getLsbD i from rfl,
    BitVec.getLsbD_append]
  by_cases h : i < 12
  · simp [h]
  · simp [h]

/-- The reader and the writer of a flag. -/
def flagField (flag : PageFlag) : BitField 32 flag.position 1 :=
  .ofBit (Nat.lt_trans flag.position_lt (by decide))

/-- The reader and the writer of the frame number. -/
def frameNumberField : BitField 32 12 20 where
  fits := by decide
  read word := (mk word).frameNumber
  write word number := ((mk word).withFrameNumber number).word
  getLsbD_read word i hi := by
    rw [frameNumber, BitVec.getLsbD_extractLsb', decide_eq_true hi, Bool.true_and]
  getLsbD_write word number i := by
    rw [getLsbD_withFrameNumber]
    by_cases hlow : i < 12
    · rw [if_pos hlow, if_neg (by omega)]
    · rw [if_neg hlow]
      split
      next => rfl
      next hout =>
        rw [BitVec.getLsbD_of_ge _ _ (by omega), BitVec.getLsbD_of_ge _ _ (by omega)]

/-- How a frame number is narrowed. -/
def numberNarrowing : Narrowing 32 20 where
  narrow? := narrow?
  narrow?_eq_some_iff word value := by
    have hvalue := value.isLt
    unfold narrow?
    split
    next hfits =>
      rw [Option.some.injEq, ← BitVec.toNat_inj, BitVec.toNat_ofNat, Nat.mod_eq_of_lt hfits]
      exact eq_comm
    next hlarge =>
      constructor
      · intro h
        cases h
      · omega

theorem frameNumber_withFlag (e : PageEntry) (flag : PageFlag) (value : Bool) :
    (e.withFlag flag value).frameNumber = e.frameNumber := by
  have h := (flagField flag).read_write_of_apart frameNumberField (.inl flag.position_lt) e.word
    (BitVec.ofBool value)
  rwa [flagField, BitField.write_ofBit] at h

theorem has_withFrameNumber (e : PageEntry) (number : BitVec 20) (flag : PageFlag) :
    (e.withFrameNumber number).has flag = e.has flag := by
  have h := frameNumberField.read_write_of_apart (flagField flag) (.inr flag.position_lt) e.word
    number
  have hbit := congrArg (BitVec.getLsbD · 0) h
  rwa [flagField, BitField.read_ofBit, BitField.read_ofBit] at hbit

theorem frameNumber_withFrameNumber (e : PageEntry) (number : BitVec 20) :
    (e.withFrameNumber number).frameNumber = number := frameNumberField.read_write e.word number

end PageEntry

end DemandPaging
