import ColorBasic.Diagnostic
import ColorBasic.TokenTable

/-!
# Maximal munch

Text is a sequence of keywords and plain characters.

At every position the longest keyword that the rest starts with is taken, and a single character
if there is none.  Matching is case sensitive.  A keyword is stored as its token and a plain
character as its code point; a character beyond U+00FF has no byte, so a question mark is stored
and the character is reported.
-/

namespace ColorBasic

namespace Text

/-- Whether a single byte can hold the code point of a character. -/
def isStorable (c : Char) : Bool := c.toNat ≤ 0xFF

/-- The byte that is stored for a character. -/
def storedByte (c : Char) : UInt8 := if isStorable c then UInt8.ofNat c.toNat else '?'.toUInt8

/-- The bytes that are stored for a text in which no keyword is looked for. -/
def stored (s : Text) : Bytes := s.map storedByte

/-- The report about a character that cannot be stored. -/
def charReports (c : Char) : List Diagnostic := if isStorable c then [] else [.unmappedChar c]

/-- The reports about storing a text in which no keyword is looked for. -/
def storedReports (s : Text) : List Diagnostic := s.flatMap charReports

end Text

/-- A unit of source text. -/
inductive Lexeme where
  /-- A keyword or an operator. -/
  | keyword (keyword : Keyword)
  /-- A character that no keyword begins with. -/
  | plain (char : Char)
  deriving DecidableEq, Repr

namespace Lexeme

/-- The source text of a lexeme. -/
def text : Lexeme → Text
  | keyword k => k.text
  | plain c => [c]

/-- The stored form of a lexeme. -/
def bytes : Lexeme → Bytes
  | keyword k => k.token.bytes
  | plain c => [Text.storedByte c]

/-- The reports about storing a lexeme. -/
def reports : Lexeme → List Diagnostic
  | keyword _ => []
  | plain c => Text.charReports c

end Lexeme

namespace TokenTable

/-- The lexemes of a text by maximal munch. -/
def munch (table : TokenTable) : Text → List Lexeme
  | [] => []
  | c :: rest =>
    match table.longestMatch? (c :: rest) with
    | some keyword => .keyword keyword :: munch table (rest.drop (keyword.text.length - 1))
    | none => .plain c :: munch table rest
termination_by text => text.length
decreasing_by all_goals grind

/-- The stored form of a text, keywords replaced by their tokens. -/
def tokenize (table : TokenTable) (text : Text) : Bytes := (table.munch text).flatMap Lexeme.bytes

/-- The reports about tokenizing a text. -/
def tokenizeReports (table : TokenTable) (text : Text) : List Diagnostic :=
  (table.munch text).flatMap Lexeme.reports

end TokenTable
end ColorBasic
