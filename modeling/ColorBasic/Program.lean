import ColorBasic.Line
import ColorBasic.Text.Lines
import Std.Data.HashSet

/-!
# Programs as listings

Parsing reads the lines of a listing in the order of the text and skips blank ones.  A program
keeps its lines in ascending order of their numbers; of several lines with one number the last
wins, and each line that replaces another is reported.
-/

namespace ColorBasic
namespace Program

/-- The lines of a listing in the order of the text. -/
def parseLines (table : TokenTable) (listing : Text) : Except Error (List Line) :=
  listing.filledLines.mapM (Line.parse table)

/-- Whether a listing line has a number and code. -/
def isReadable (line : Text) : Bool := (Line.split line).isOk

/-- The reports about parsing a listing, up to the line at which parsing fails. -/
def parseReports (table : TokenTable) (listing : Text) : List Diagnostic :=
  (listing.filledLines.takeWhile isReadable).flatMap (Line.parseReports table)

/-- Adds a line that stands before all the given ones in the text; a later line of the same number
wins over it. -/
def addEarlier (line : Line) : List Line → List Line
  | [] => [line]
  | first :: rest =>
    if line.number < first.number then line :: first :: rest
    else if line.number = first.number then first :: rest
    else first :: addEarlier line rest

/-- Lines in the order of their numbers, the last of each number. -/
def arrange (lines : List Line) : List Line := lines.foldr addEarlier []

/-- The numbers that occur before, among `seen` or earlier in the list, one for each occurrence. -/
def repeatedNumbers (seen : Std.HashSet UInt16) : List UInt16 → List UInt16
  | [] => []
  | number :: numbers =>
    if seen.contains number then number :: repeatedNumbers seen numbers
    else repeatedNumbers (seen.insert number) numbers

/-- The reports about lines that replace earlier ones, in the order of the text. -/
def duplicateReports (lines : List Line) : List Diagnostic :=
  (repeatedNumbers ∅ (lines.map Line.number)).map .duplicateLine

/-- A listing of the given lines. -/
def list (table : TokenTable) (lines : List Line) : List Text := lines.map (Line.listed table)

/-- The reports about listing the given lines. -/
def listReports (table : TokenTable) (lines : List Line) : List Diagnostic :=
  lines.flatMap (Line.listedReports table)

end Program
end ColorBasic
