import ColorBasic.Text.Numeral

/-!
# Numbers in JSON text

Only natural numbers matter to the reader of a value, but a number must be well formed, and it must
not exceed what a double can hold.  The size is judged as follows: the leading digits that fit in
64 bits are the significand, the other digits of the integer part count as powers of ten, and the
product of the significand and the power, both rounded to double precision, must stay finite.
-/

namespace ColorBasic.Json

/-- Whether a character is an ASCII digit. -/
def isDigit (c : Char) : Bool := '0' ≤ c ∧ c ≤ '9'

/-- A number in its written parts. -/
structure Numeral where
  /-- Whether a minus sign leads. -/
  negative : Bool
  /-- The digits before the point. -/
  integer : Text
  /-- The digits after the point, if there is one. -/
  fraction : Option Text
  /-- The exponent, if there is one. -/
  exponent : Option Int
  deriving DecidableEq, Repr

namespace Numeral

/-- Joins digits to a significand while it fits in 64 bits; the rest are the digits left over. -/
def absorb (significand : Nat) : Text → Nat × Text
  | [] => (significand, [])
  | c :: rest =>
    let next := significand * 10 + (c.toNat - '0'.toNat)
    if next < UInt64.size then absorb next rest else (significand, c :: rest)

/-- The significand and the power of ten that the size is judged by. -/
def scale (numeral : Numeral) : Nat × Int :=
  let (whole, dropped) := absorb 0 numeral.integer
  let digits := numeral.fraction.getD []
  let (significand, ignored) := absorb whole digits
  (significand,
    (dropped.length : Int) - ((digits.length - ignored.length : Nat) : Int) +
      numeral.exponent.getD 0)

/-- The nearest number with 53 significant bits, of two the one with the even significand. -/
def roundToDouble (n : Nat) : Nat :=
  let unit := Nat.pow 2 (n.log2 - 52)
  let quotient := n / unit
  let remainder := n % unit
  if 2 * remainder > unit ∨ (2 * remainder = unit ∧ quotient % 2 = 1) then (quotient + 1) * unit
  else quotient * unit

/-- The least number that rounds beyond the greatest double. -/
def overflowLimit : Nat := Nat.pow 2 1024 - Nat.pow 2 970

/-- Whether a double can hold a number of this size. -/
def isFinite (numeral : Numeral) : Bool :=
  match numeral.scale with
  | (significand, .ofNat power) =>
    if significand = 0 then true
    else if power ≤ 308 then
      roundToDouble significand * roundToDouble (Nat.pow 10 power) < overflowLimit
    else false
  | (_, .negSucc _) => true

/-- The natural number that is written, if it has no sign, point or exponent. -/
def natural? (numeral : Numeral) : Option Nat :=
  if numeral.negative ∨ numeral.fraction.isSome ∨ numeral.exponent.isSome then none
  else Text.readNumeral? 10 numeral.integer

/-- Whether digits make up an integer part: some digit, and no zero before others. -/
def isInteger : Text → Bool
  | [] => false
  | ['0'] => true
  | '0' :: _ => false
  | _ => true

/-- Reads the point and the digits after it, if a point comes next. -/
def readFraction (s : Text) : Option (Option Text × Text) :=
  match s with
  | '.' :: rest =>
    let digits := rest.takeWhile isDigit
    if digits.isEmpty then none else some (some digits, rest.dropWhile isDigit)
  | _ => some (none, s)

/-- Reads the digits of an exponent with the given sign. -/
def readExponentDigits (negative : Bool) (s : Text) : Option (Option Int × Text) :=
  match Text.readNumeral? 10 (s.takeWhile isDigit) with
  | some n => some (some (if negative then -(n : Int) else n), s.dropWhile isDigit)
  | none => none

/-- Reads the exponent, if an exponent mark comes next. -/
def readExponent (s : Text) : Option (Option Int × Text) :=
  match s with
  | c :: rest =>
    if c = 'e' ∨ c = 'E' then
      match rest with
      | '-' :: digits => readExponentDigits true digits
      | '+' :: digits => readExponentDigits false digits
      | digits => readExponentDigits false digits
    else some (none, s)
  | [] => some (none, s)

/-- Reads what follows the sign of a number. -/
def readUnsigned (negative : Bool) (s : Text) : Option (Numeral × Text) := do
  let integer := s.takeWhile isDigit
  if isInteger integer then
    let (fraction, afterFraction) ← readFraction (s.dropWhile isDigit)
    let (exponent, rest) ← readExponent afterFraction
    let numeral : Numeral := ⟨negative, integer, fraction, exponent⟩
    if numeral.isFinite then some (numeral, rest) else none
  else none

/-- Reads the number that a text starts with. -/
def read : Text → Option (Numeral × Text)
  | '-' :: rest => readUnsigned true rest
  | s => readUnsigned false s

end Numeral
end ColorBasic.Json
