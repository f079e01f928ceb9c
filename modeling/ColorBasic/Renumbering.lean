import ColorBasic.Diagnostic
import ColorBasic.Reference
import ColorBasic.Text.Numeral
import Std.Data.HashMap

/-!
# Renumbering a listing

Renumbering works on text: line `k` of the lines that are not blank, counted from one, becomes line
`10 * k`, and the targets of jumps follow.  A target is looked up by its spelling.  If two lines
have one number the later one is meant, and a target without a line is left as written and
reported.
-/

namespace ColorBasic
namespace Renumbering

/-- The lines of a listing without blanks around them, except the empty ones. -/
def listingLines (listing : Text) : List Text :=
  (listing.lines.map Text.trim).filter fun line => !line.isEmpty

/-- The number that a line starts with, as it is spelled. -/
def label (line : Text) : Text := line.takeWhile Text.isDecimalDigit

/-- What follows the number of a line. -/
def body (line : Text) : Text := line.dropWhile Text.isDecimalDigit

/-- The new number of the line at the given position, counted from zero. -/
def newNumber (index : Nat) : Nat := 10 * (index + 1)

/-- Texts are hashed character by character. -/
instance : Hashable Text := @instHashableList Char instHashableChar

/-- New numbers by the spelling of the numbers that they replace. -/
abbrev NumberMap := Std.HashMap Text Nat

namespace NumberMap

/-- Enters a line with its position; a line without number changes nothing. -/
def enter (map : NumberMap) (line : Text × Nat) : NumberMap :=
  if (label line.1).isEmpty then map else map.insert (label line.1) (newNumber line.2)

/-- The new numbers of the given lines. -/
def ofLines (lines : List Text) : NumberMap := lines.zipIdx.foldl enter ∅

/-- The entries in the order of the old spellings. -/
def entries (map : NumberMap) : List (Text × Nat) :=
  map.toList.mergeSort fun first second =>
    !second.1.lex first.1 fun c d => c.toNat < d.toNat

end NumberMap

/-- A number that is defined again, and the new number that gets lost by it. -/
structure Redefinition where
  /-- The number as it is spelled. -/
  label : Text
  /-- The new number of the earlier line. -/
  dropped : Nat
  deriving DecidableEq, Repr

/-- The message about a redefinition. -/
def Redefinition.message (redefinition : Redefinition) : Text :=
  "line ".toList ++ redefinition.label ++
    " is defined more than once, dropping new number ".toList ++ Text.decimal redefinition.dropped

/-- The redefinitions among the given lines with positions, where `map` holds the lines before. -/
def redefinitionsFrom (map : NumberMap) : List (Text × Nat) → List Redefinition
  | [] => []
  | line :: lines =>
    let later := redefinitionsFrom (map.enter line) lines
    match map[label line.1]? with
    | some dropped => ⟨label line.1, dropped⟩ :: later
    | none => later

/-- The redefinitions among the given lines. -/
def redefinitions (lines : List Text) : List Redefinition := redefinitionsFrom ∅ lines.zipIdx

/-- The line with its new number; a line without number stays as it is. -/
def renumberLabel (line : Text × Nat) : Text :=
  if (label line.1).isEmpty then line.1 else Text.decimal (newNumber line.2) ++ body line.1

/-- The new spelling of a target. -/
def renumberTarget (map : NumberMap) (target : Text) : Text :=
  match map[target]? with
  | some number => Text.decimal number
  | none => target

/-- Whether no line has the number that a target asks for. -/
def isDangling (map : NumberMap) (target : Text) : Bool := !target.isEmpty && !map.contains target

/-- The text of a piece with new targets; the blanks that end a target list are kept. -/
def renumberPiece (map : NumberMap) : Piece → Text
  | .plain c => [c]
  | .jump r =>
    r.word ++ r.gap ++ [','].intercalate (r.targets.map (renumberTarget map)) ++ r.trailing

/-- A line whose own number is new already, with new targets. -/
def renumberTargets (map : NumberMap) (line : Text) : Text :=
  (Piece.scan line).flatMap (renumberPiece map)

/-- The renumbered line. -/
def renumberLine (map : NumberMap) (line : Text × Nat) : Text :=
  renumberTargets map (renumberLabel line)

/-- The reports about renumbering a line: its missing number, then its dangling targets. -/
def lineReports (map : NumberMap) (line : Text × Nat) : List Diagnostic :=
  let numbered := renumberLabel line
  (if (label line.1).isEmpty then [.missingLineNumber line.1] else []) ++
    ((Reference.all numbered).flatMap fun r =>
      (r.targets.filter (isDangling map)).map (.danglingReference numbered))

/-- The renumbered listing. -/
def renumber (listing : Text) : Text :=
  let lines := listingLines listing
  Text.joinLines (lines.zipIdx.map (renumberLine (.ofLines lines)))

/-- The reports about renumbering a listing. -/
def reports (listing : Text) : List Diagnostic :=
  let lines := listingLines listing
  lines.zipIdx.flatMap (lineReports (.ofLines lines))

/-- A number can be a destination if it fits in 64 bits. -/
def destinationLimit : Nat := UInt64.size

/-- The number that a target spells in ASCII digits. -/
def destination? (target : Text) : Option Nat :=
  (Text.readNumeral? 10 target).filter (· < destinationLimit)

/-- The numbers that appear as targets, ascending and each once. -/
def destinations (listing : Text) : List Nat :=
  let references := (listingLines listing).flatMap Reference.all
  let numbers := references.flatMap fun r => r.targets.filterMap destination?
  (numbers.mergeSort (· ≤ ·)).eraseReps

end Renumbering
end ColorBasic
