import ColorBasic.Text.Blank

/-!
# Splitting text at a separator, and in particular into lines

A line ends at a line feed, and one carriage return directly before the line feed belongs to the
line end.  No other character ends a line.  Text after the last line feed is a line if it is not
empty.
-/

namespace ColorBasic.Text

/-- Adds one character in front of the first of a list of pieces. -/
def consFirst (c : Char) : List Text → List Text
  | [] => [[c]]
  | piece :: pieces => (c :: piece) :: pieces

/-- The pieces between the occurrences of a separator; there is always at least one piece. -/
def splitOn (separator : Char) (s : Text) : List Text :=
  s.foldr (fun c pieces => if c = separator then [] :: pieces else consFirst c pieces) [[]]

/-- The text without one carriage return at its end. -/
def dropReturn (s : Text) : Text :=
  if s.getLast? = some '\r' then s.dropLast else s

/-- The lines that the pieces between line feeds stand for. -/
def linesOfPieces : List Text → List Text
  | [] => []
  | [last] => if last.isEmpty then [] else [last]
  | piece :: pieces => dropReturn piece :: linesOfPieces pieces

/-- The lines of a text. -/
def lines (s : Text) : List Text := linesOfPieces (splitOn '\n' s)

/-- Whether a text is empty or consists of blanks. -/
def isBlankText (s : Text) : Bool := (trim s).isEmpty

/-- The lines of a text that are not blank. -/
def filledLines (s : Text) : List Text := (lines s).filter fun line => !isBlankText line

/-- Lines separated by line feeds, with none at the end. -/
def joinLines (lines : List Text) : Text := ['\n'].intercalate lines

/-- Lines that each end with a line feed. -/
def terminateLines (lines : List Text) : Text := lines.flatMap (· ++ ['\n'])

end ColorBasic.Text
