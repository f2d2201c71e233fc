/-!
# Numbers in messages

Addresses in messages are hexadecimal with a leading `0x` and no padding; sector
and transfer counts are decimal, padded with zeros to a fixed width.
-/

namespace DemandPaging

/-- Hexadecimal digits in upper case after `0x`, without padding. -/
def hexUpper (n : Nat) : String :=
  "0x" ++ String.ofList ((Nat.toDigits 16 n).map Char.toUpper)

/-- Hexadecimal digits in lower case after `0x`, without padding. -/
def hexLower (n : Nat) : String :=
  "0x" ++ String.ofList (Nat.toDigits 16 n)

/-- Decimal digits, with zeros in front up to `width` digits. A longer number is
written in full. -/
def paddedDecimal (width n : Nat) : String :=
  let digits := Nat.toDigits 10 n
  String.ofList (List.replicate (width - digits.length) '0' ++ digits)

end DemandPaging
