import ColorBasic.Text.Numeral

/-!
# Hex views

A block of bytes is shown in rows of sixteen bytes with address, hexadecimal digits and the printable
ASCII characters.
-/

namespace ColorBasic.HexView

/-- The number of bytes in a row. -/
def rowSize : Nat := 16

/-- The character that is shown for a byte. -/
def shownChar (b : UInt8) : Char := if 32 ≤ b ∧ b < 127 then Char.ofUInt8 b else '.'

/-- The label of a row: at least four hexadecimal digits. -/
def rowLabel (address : Nat) : Text :=
  ((Nat.toDigits 16 address).map Char.toUpper).leftpad 4 '0'

/-- One row; blanks stand for the bytes that a short row lacks. -/
def row (address : Nat) (bytes : Bytes) : Text :=
  rowLabel address ++ " : ".toList ++
    (bytes.flatMap fun b => Text.upperHex 2 b.toNat ++ [' ']) ++
    List.replicate (3 * (rowSize - bytes.length)) ' ' ++ "|+| ".toList ++ bytes.map shownChar

/-- The rows of a block whose first byte has the given address. -/
def rows (address : Nat) : Bytes → List Text
  | [] => []
  | b :: rest =>
    row address ((b :: rest).take rowSize) :: rows (address + rowSize) (rest.drop (rowSize - 1))
termination_by bytes => bytes.length
decreasing_by grind

end ColorBasic.HexView
