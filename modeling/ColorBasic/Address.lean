import ColorBasic.Text.Numeral

/-!
# Addresses in commands

An address is decimal, or hexadecimal after `$`, `0x` or `0X`.
-/

namespace ColorBasic.Address

/-- The base that the start of a written address tells, and its digits. -/
def digits : Text → Nat × Text
  | '$' :: rest => (16, rest)
  | '0' :: 'x' :: rest => (16, rest)
  | '0' :: 'X' :: rest => (16, rest)
  | s => (10, s)

/-- The text without one plus sign at its start. -/
def dropPlus : Text → Text
  | '+' :: rest => rest
  | s => s

/-- The address that a text stands for; the digits may follow a plus sign. -/
def parse? (s : Text) : Option UInt16 := Text.readWord? (digits s).1 (dropPlus (digits s).2)

/-- The message about a text that is no address. -/
def faultMessage (s : Text) : Text :=
  "address ".toList ++ s ++ " could not be parsed as a 16 bit number".toList

end ColorBasic.Address
