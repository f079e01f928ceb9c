import ColorBasic.Text.Blank
import ColorBasic.Text.DecimalDigit
import ColorBasic.Text.Lines

/-!
# Jump references in listing text

A reference is one of the words `GOTO`, `GOSUB`, `THEN` and `ELSE`, blanks, and a target list: a
decimal digit and then digits, commas and blanks as far as they go.  References are found from left
to right and do not overlap.
-/

namespace ColorBasic

/-- A jump word with its target list. -/
structure Reference where
  /-- The jump word. -/
  word : Text
  /-- The blanks between the word and the list. -/
  gap : Text
  /-- The target list, with any blanks that end it. -/
  list : Text
  deriving DecidableEq, Repr

namespace Reference

/-- The words that a target list can follow. -/
def words : List Text :=
  [['G', 'O', 'T', 'O'], ['G', 'O', 'S', 'U', 'B'], ['T', 'H', 'E', 'N'], ['E', 'L', 'S', 'E']]

/-- Whether a character can stand in a target list. -/
def inList (c : Char) : Bool := Text.isDecimalDigit c || c = ',' || Text.isBlank c

/-- The source text of a reference. -/
def text (reference : Reference) : Text := reference.word ++ reference.gap ++ reference.list

/-- The reference that a text starts with. -/
def match? (s : Text) : Option Reference :=
  match words.find? (·.isPrefixOf s) with
  | none => none
  | some word =>
    let after := s.drop word.length
    let targets := after.dropWhile Text.isBlank
    if targets.head?.any Text.isDecimalDigit then
      some ⟨word, after.takeWhile Text.isBlank, targets.takeWhile inList⟩
    else none

/-- The target list without the blanks that end it. -/
def core (reference : Reference) : Text := reference.list.trimEnd

/-- The blanks that end the target list. -/
def trailing (reference : Reference) : Text := reference.list.drop reference.core.length

/-- The targets, without the blanks around them; there may be empty ones. -/
def targets (reference : Reference) : List Text := (Text.splitOn ',' reference.core).map Text.trim

end Reference

/-- A unit of a listing line for the purpose of renumbering. -/
inductive Piece where
  /-- A character outside references. -/
  | plain (char : Char)
  /-- A reference. -/
  | jump (reference : Reference)
  deriving DecidableEq, Repr

namespace Piece

/-- The pieces of a text. -/
def scan : Text → List Piece
  | [] => []
  | c :: rest =>
    match Reference.match? (c :: rest) with
    | some reference => .jump reference :: scan (rest.drop (reference.text.length - 1))
    | none => .plain c :: scan rest
termination_by s => s.length
decreasing_by all_goals grind

/-- The reference that a piece is. -/
def reference? : Piece → Option Reference
  | .plain _ => none
  | .jump r => some r

end Piece

namespace Reference

/-- The references of a text from left to right. -/
def all (s : Text) : List Reference := (Piece.scan s).filterMap Piece.reference?

end Reference
end ColorBasic
