import ColorBasic.Text.CharRanges

/-!
# Written numbers

These are decimal and hexadecimal numerals, and how they are read.

Reading accepts ASCII digits only, in any number and with leading zeros, and gives the value; the
caller decides which values fit.
-/

namespace ColorBasic

/-- Memory contents are handled as lists of bytes. -/
abbrev Bytes := List UInt8

namespace Text

/-- The decimal numeral of a number, without leading zeros. -/
def decimal (n : Nat) : Text := Nat.toDigits 10 n

/-- The hexadecimal numeral of `n` modulo `16 ^ width`, in lower case and exactly `width` digits. -/
def lowerHex : (width n : Nat) → Text
  | 0, _ => []
  | width + 1, n => lowerHex width (n / 16) ++ [Nat.digitChar (n % 16)]

/-- The hexadecimal numeral of `n` modulo `16 ^ width`, in upper case and exactly `width` digits. -/
def upperHex (width n : Nat) : Text := (lowerHex width n).map Char.toUpper

/-- The hexadecimal digits of a list of bytes, two upper case digits each. -/
def hexDump (bytes : Bytes) : Text := bytes.flatMap fun b => upperHex 2 b.toNat

/-- Bytes as they appear in messages, for example `$3a $83`. -/
def hexList (bytes : Bytes) : Text :=
  [' '].intercalate (bytes.map fun b => '$' :: lowerHex 2 b.toNat)

/-- The value of an ASCII digit in a base up to sixteen. -/
def digitValue? (base : Nat) (c : Char) : Option Nat :=
  let value? :=
    if '0' ≤ c ∧ c ≤ '9' then some (c.toNat - '0'.toNat)
    else if 'a' ≤ c ∧ c ≤ 'f' then some (c.toNat - 'a'.toNat + 10)
    else if 'A' ≤ c ∧ c ≤ 'F' then some (c.toNat - 'A'.toNat + 10)
    else none
  value?.filter (· < base)

/-- The value of a non-empty numeral in a base up to sixteen, `none` if some character is no digit. -/
def readNumeral? (base : Nat) (s : Text) : Option Nat :=
  if s.isEmpty then none
  else s.foldlM (fun value c => (digitValue? base c).map (value * base + ·)) 0

/-- The value of a numeral that fits in sixteen bits. -/
def readWord? (base : Nat) (s : Text) : Option UInt16 :=
  match readNumeral? base s with
  | some n => if n < UInt16.size then some (UInt16.ofNat n) else none
  | none => none

end Text
end ColorBasic
