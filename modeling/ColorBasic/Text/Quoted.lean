import ColorBasic.Text.Numeral

/-!
# Text as the token breakdown shows it

The text stands in single quotes, or in double quotes if it holds a single quote and no double
quote.  Control characters are written as two hexadecimal digits, so nothing but the closing quote
ends the quoted text.
-/

namespace ColorBasic.Text

/-- Whether a character is a control character (category `Cc`). -/
def isControl (c : Char) : Bool := c.toNat < 0x20 || (0x7F ≤ c.toNat && c.toNat < 0xA0)

/-- The quote that needs the fewer escapes in the common cases. -/
def quoteFor (s : Text) : Char :=
  if s.contains '\'' && !s.contains '"' then '"' else '\''

/-- One character inside quoted text. -/
def quotedChar (quote c : Char) : Text :=
  if c = '\\' then ['\\', '\\']
  else if c = '\n' then ['\\', 'n']
  else if c = '\r' then ['\\', 'r']
  else if c = '\t' then ['\\', 't']
  else if c = quote then ['\\', c]
  else if isControl c then '\\' :: 'x' :: lowerHex 2 c.toNat
  else [c]

/-- The text between quotes, with escapes. -/
def quoted (s : Text) : Text :=
  quoteFor s :: s.flatMap (quotedChar (quoteFor s)) ++ [quoteFor s]

end ColorBasic.Text
