import ColorBasic.Lexeme

/-!
# The segments of a line of code

Keywords are tokenized in code only.  A string literal runs through its closing quote or to the end
of the line, a comment from `REM` or the apostrophe to the end of the line, and data items from
`DATA` to the first colon outside quotes.  These are stored as typed.
-/

namespace ColorBasic

/-- How a part of a line is stored. -/
inductive SegmentKind where
  /-- Code, in which keywords are tokenized. -/
  | code
  /-- A string literal with its quotes; the closing one may be missing at the end of the line. -/
  | string
  /-- What follows `REM` or the apostrophe. -/
  | comment
  /-- What follows `DATA`. -/
  | data
  deriving DecidableEq, Repr

/-- A part of a line. -/
structure Segment where
  /-- How the part is stored. -/
  kind : SegmentKind
  /-- The source text of the part. -/
  text : Text
  deriving DecidableEq, Repr

namespace Segment

/-- Whether the rest of the line after a keyword is a comment. -/
def opensComment (keyword : Keyword) : Bool :=
  keyword.text = ['R', 'E', 'M'] ∨ keyword.text = ['\'']

/-- Whether data items follow a keyword. -/
def opensData (keyword : Keyword) : Bool := keyword.text = ['D', 'A', 'T', 'A']

/-- Splits a text at its first colon outside quotes; `quoted` tells whether it starts in quotes. -/
def spanData (quoted : Bool) : Text → Text × Text
  | [] => ([], [])
  | c :: rest =>
    if c = ':' ∧ quoted = false then ([], c :: rest)
    else
      let (items, after) := spanData (if c = '"' then !quoted else quoted) rest
      (c :: items, after)

/-- Splits a text after its first quote. -/
def spanString (s : Text) : Text × Text :=
  let body := s.takeWhile (· ≠ '"')
  let after := s.dropWhile (· ≠ '"')
  (body ++ after.take 1, after.drop 1)

/-- One segment, or none if the text is empty. -/
def ofNonempty (kind : SegmentKind) (text : Text) : List Segment :=
  if text.isEmpty then [] else [⟨kind, text⟩]

/-- Puts code in front of segments, as part of the first one if that is code. -/
def consCode (text : Text) : List Segment → List Segment
  | ⟨.code, first⟩ :: rest => ⟨.code, text ++ first⟩ :: rest
  | segments => ⟨.code, text⟩ :: segments

theorem length_spanData_snd_le (quoted : Bool) (s : Text) :
    (spanData quoted s).2.length ≤ s.length := by
  induction s generalizing quoted with
  | nil => simp [spanData]
  | cons c rest ih =>
    rw [spanData]
    split
    · simp
    · exact Nat.le_succ_of_le (ih _)

theorem length_spanString_snd_le (s : Text) : (spanString s).2.length ≤ s.length := by
  have := (List.dropWhile_suffix (l := s) (· ≠ '"')).length_le
  simp only [spanString, List.length_drop]
  omega

/-- The segments of the code of a line, from left to right. -/
def classify (table : TokenTable) : Text → List Segment
  | [] => []
  | c :: rest =>
    if c = '"' then
      ⟨.string, c :: (spanString rest).1⟩ :: classify table (spanString rest).2
    else
      match table.longestMatch? (c :: rest) with
      | some keyword =>
        let after := rest.drop (keyword.text.length - 1)
        if opensComment keyword then ⟨.code, keyword.text⟩ :: ofNonempty .comment after
        else if opensData keyword then
          ⟨.code, keyword.text⟩ :: ofNonempty .data (spanData false after).1 ++
            classify table (spanData false after).2
        else consCode keyword.text (classify table after)
      | none => consCode [c] (classify table rest)
termination_by text => text.length
decreasing_by
  · have := length_spanString_snd_le rest
    simp only [List.length_cons]
    omega
  · have := length_spanData_snd_le false after
    simp only [after, List.length_drop, List.length_cons] at this ⊢
    omega
  · simp only [List.length_drop, List.length_cons]
    omega
  · simp

end Segment
end ColorBasic
