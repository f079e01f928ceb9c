import ColorBasic.Program

/-!
# Respacing a listing

The code of each line is respaced and its literals are left alone.  A comment or data segment that
starts with a space of its own takes the place of the spaces that respacing leaves in front of it,
and the end of the line drops them.
-/

namespace ColorBasic

/-- The stored form of a segment, respaced if it is code. -/
def Segment.respaced (table : TokenTable) (segment : Segment) : Bytes :=
  match segment.kind with
  | .code => table.respaceStored (segment.stored table)
  | _ => segment.stored table

/-- The part of a line that has been respaced. -/
structure RespacedPart where
  /-- The stored code, last byte first. -/
  reversed : Bytes
  /-- Whether the last segment is code. -/
  endsInCode : Bool

namespace RespacedPart

/-- The part without the spaces that it ends with. -/
def dropSpaces (part : RespacedPart) : Bytes := part.reversed.dropWhile (· = 0x20)

/-- The part followed by one more segment. -/
def append (table : TokenTable) (part : RespacedPart) (segment : Segment) : RespacedPart :=
  let own := segment.respaced table
  let bringsSpace := segment.kind ≠ .code ∧ own.head? = some 0x20
  let kept := if part.endsInCode ∧ bringsSpace then part.dropSpaces else part.reversed
  { reversed := own.reverse ++ kept
    endsInCode := segment.kind = .code }

/-- The stored code of the whole line. -/
def code (part : RespacedPart) : Bytes :=
  (if part.endsInCode then part.dropSpaces else part.reversed).reverse

end RespacedPart

namespace Line

/-- The respaced stored form of the code of a line. -/
def respaceCode (table : TokenTable) (code : Text) : Bytes :=
  ((Segment.classify table code).foldl (RespacedPart.append table) ⟨[], false⟩).code

/-- The respaced form of a listing line. -/
def parseRespaced (table : TokenTable) (line : Text) : Except Error Line := do
  let (number, code) ← split line
  return ⟨number, respaceCode table code⟩

end Line

namespace Program

/-- The respaced lines of a listing in the order of the text. -/
def parseRespaced (table : TokenTable) (listing : Text) : Except Error (List Line) :=
  listing.filledLines.mapM (Line.parseRespaced table)

end Program
end ColorBasic
