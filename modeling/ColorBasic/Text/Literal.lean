import ColorBasic.Text.Extending
import ColorBasic.Text.Unprintable

/-!
# Text and characters as messages show them

A shown text stands in double quotes and a shown character in single quotes.  The delimiter and
the backslash are escaped with a backslash, four control characters have a letter, and every other
character without a form of its own is written as its code point in braces.
-/

namespace ColorBasic.Text

/-- A code point in braces, for example `\u{7f}`. -/
def codePointEscape (c : Char) : Text :=
  '\\' :: 'u' :: '{' :: Nat.toDigits 16 c.toNat ++ ['}']

/-- One character between the delimiters `delimiter`. -/
def literalChar (delimiter c : Char) : Text :=
  if c = delimiter ∨ c = '\\' then ['\\', c]
  else if ' ' ≤ c ∧ c ≤ '~' then [c]
  else if c = '\n' then ['\\', 'n']
  else if c = '\r' then ['\\', 'r']
  else if c = '\t' then ['\\', 't']
  else if c = '\x00' then ['\\', '0']
  else if isExtending c || isUnprintable c then codePointEscape c
  else [c]

/-- A text in double quotes. -/
def literal (s : Text) : Text := '"' :: s.flatMap (literalChar '"') ++ ['"']

/-- A character in single quotes. -/
def charLiteral (c : Char) : Text := '\'' :: literalChar '\'' c ++ ['\'']

end ColorBasic.Text
