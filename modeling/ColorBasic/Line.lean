import ColorBasic.CodeText
import ColorBasic.Segment
import ColorBasic.Spacing
import ColorBasic.Text.Blank

/-!
# Program lines

A line is a number and its code in stored form: tokenized, with hidden colons and without the
terminating zero byte.  In a listing it is the number, one space and the code as text.
-/

namespace ColorBasic

namespace Segment

/-- The stored form of a segment: code is tokenized and gets its hidden colons. -/
def stored (table : TokenTable) (segment : Segment) : Bytes :=
  match segment.kind with
  | .code => table.hideColons (table.tokenize segment.text)
  | _ => segment.text.stored

/-- The reports about storing a segment. -/
def storedReports (table : TokenTable) (segment : Segment) : List Diagnostic :=
  match segment.kind with
  | .code => table.tokenizeReports segment.text
  | _ => segment.text.storedReports

end Segment

namespace TokenTable

/-- The stored form of the code of a line. -/
def storeCode (table : TokenTable) (code : Text) : Bytes :=
  (Segment.classify table code).flatMap (Segment.stored table)

/-- The reports about storing the code of a line. -/
def storeCodeReports (table : TokenTable) (code : Text) : List Diagnostic :=
  (Segment.classify table code).flatMap (Segment.storedReports table)

end TokenTable

/-- A program line. -/
structure Line where
  /-- The line number. -/
  number : UInt16
  /-- The stored code, without its terminator. -/
  code : Bytes
  deriving DecidableEq, Repr

namespace Line

/-- Splits a listing line into its number and its code at the first space. -/
def split (line : Text) : Except Error (UInt16 × Text) :=
  let trimmed := line.trim
  let number := trimmed.takeWhile (· ≠ ' ')
  match trimmed.dropWhile (· ≠ ' ') with
  | [] => .error (.missingSeparator trimmed)
  | _ :: code =>
    match Text.readWord? 10 number with
    | some value => .ok (value, code)
    | none => .error (.lineNumber number)

/-- The line that a listing line stands for. -/
def parse (table : TokenTable) (line : Text) : Except Error Line := do
  let (number, code) ← split line
  return ⟨number, table.storeCode code⟩

/-- The reports about parsing a listing line. -/
def parseReports (table : TokenTable) (line : Text) : List Diagnostic :=
  match split line with
  | .ok (_, code) => table.storeCodeReports code
  | .error _ => []

/-- The line with the given stored code, which must end with the terminator. -/
def ofTerminated (number : UInt16) (tokens : Bytes) : Except Error Line :=
  if tokens.getLast? = some 0 then .ok ⟨number, tokens.dropLast⟩
  else .error (.missingTerminator tokens)

/-- The line number and the stored code as bytes. -/
def bytes (line : Line) : Bytes := wordBytes line.number ++ line.code

/-- The code without hidden colons. -/
def revealed (table : TokenTable) (line : Line) : Bytes := table.revealCode line.code

/-- The listing line. -/
def listed (table : TokenTable) (line : Line) : Text :=
  Text.decimal line.number.toNat ++ ' ' :: table.detokenize (line.revealed table)

/-- The reports about listing a line. -/
def listedReports (table : TokenTable) (line : Line) : List Diagnostic :=
  table.detokenizeReports (line.revealed table)

/-- The listing line and below it the breakdown of the stored code. -/
def explained (table : TokenTable) (line : Line) : List Text :=
  line.listed table :: table.breakdown line.code

/-- The reports about explaining a line. -/
def explainedReports (table : TokenTable) (line : Line) : List Diagnostic :=
  line.listedReports table ++ table.detokenizeReports line.code

/-- The line with all of its stored code respaced, as if it held no literals. -/
def respaced (table : TokenTable) (line : Line) : Line :=
  { line with code := table.respaceStored line.code }

end Line
end ColorBasic
