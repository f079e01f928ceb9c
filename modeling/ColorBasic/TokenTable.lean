import ColorBasic.Error
import ColorBasic.Machine.Keywords
import ColorBasic.Text.Encoding

/-!
# Token tables

A token table holds the keywords of a dialect, which are looked up by text and by token.

A table lists each text and each value once, and no text is empty, so both look-ups are unambiguous
and every keyword that text starts with consumes some of it.  A table is built one keyword at a
time and the first keyword that breaks the rule is the error.

The longest keyword that a text starts with is the first one that fits of those which share its
first encoded byte, if longer ones are tried before shorter ones.
-/

namespace ColorBasic

/-- Whether a keyword is tried before another one: if its encoded text is longer, or as long and
not greater. -/
def Keyword.precedes (first second : Keyword) : Bool :=
  second.text.encode.length < first.text.encode.length ||
    (first.text.encode.length = second.text.encode.length &&
      decide (first.text.encode ≤ second.text.encode))

/-- A machine's keywords, unambiguous in both directions. -/
structure TokenTable where
  /-- The machine that the table belongs to. -/
  machine : Machine
  /-- The keywords in the order in which they were listed. -/
  keywords : List Keyword
  /-- No keyword is empty. -/
  text_ne_nil : ∀ keyword ∈ keywords, keyword.text ≠ []
  /-- No text is listed twice. -/
  texts_nodup : (keywords.map Keyword.text).Nodup
  /-- No value is listed twice. -/
  values_nodup : (keywords.map Keyword.value).Nodup

namespace TokenTable

/-- The table without keywords. -/
def empty (machine : Machine) : TokenTable where
  machine := machine
  keywords := []
  text_ne_nil := by simp
  texts_nodup := by simp
  values_nodup := by simp

/-- Lists one more keyword, unless its text is empty or listed already or its value is. -/
def add (table : TokenTable) (keyword : Keyword) : Except Error TokenTable :=
  if ht : keyword.text = [] ∨ keyword.text ∈ table.keywords.map Keyword.text then
    .error (.duplicateText keyword.text)
  else if hv : keyword.value ∈ table.keywords.map Keyword.value then
    .error (.duplicateValue keyword.value)
  else
    .ok
      { machine := table.machine
        keywords := table.keywords ++ [keyword]
        text_ne_nil := by
          intro k hk
          rcases List.mem_append.1 hk with h | h
          · exact table.text_ne_nil k h
          · rw [List.mem_singleton.1 h]
            exact fun h => ht (.inl h)
        texts_nodup := by
          rw [List.map_append, List.map_singleton]
          refine List.nodup_append.2 ⟨table.texts_nodup, List.pairwise_singleton _ _, ?_⟩
          intro a ha b hb hab
          rw [List.mem_singleton.1 hb] at hab
          exact ht (.inr (hab ▸ ha))
        values_nodup := by
          rw [List.map_append, List.map_singleton]
          refine List.nodup_append.2 ⟨table.values_nodup, List.pairwise_singleton _ _, ?_⟩
          intro a ha b hb hab
          rw [List.mem_singleton.1 hb] at hab
          exact hv (hab ▸ ha) }

/-- The table of the given keywords. -/
def ofKeywords (machine : Machine) (keywords : List Keyword) : Except Error TokenTable :=
  keywords.foldlM add (empty machine)

/-- The keyword with the given text. -/
def keywordOfText? (table : TokenTable) (text : Text) : Option Keyword :=
  table.keywords.find? (·.text = text)

/-- The keyword that a token stands for. -/
def keywordOfToken? (table : TokenTable) (token : Token) : Option Keyword :=
  table.keywords.find? (·.value = token.value)

/-- The token of a keyword text. -/
def tokenOfText? (table : TokenTable) (text : Text) : Option Token :=
  (table.keywordOfText? text).map Keyword.token

/-- The token of a character: of the keyword it spells, else the low byte of its code point. -/
def tokenOfChar (table : TokenTable) (c : Char) : Token :=
  (table.tokenOfText? [c]).getD (.byte (UInt8.ofNat c.toNat))

/-- Whether a token stands for a keyword or an operator. -/
def isKeyword (table : TokenTable) (token : Token) : Bool := (table.keywordOfToken? token).isSome

/-- The text of a token.  A byte that is no keyword is a character; such a word has no text. -/
def textOfToken? (table : TokenTable) (token : Token) : Option Text :=
  match table.keywordOfToken? token, token with
  | some keyword, _ => some keyword.text
  | none, .byte b => some [Char.ofUInt8 b]
  | none, .word _ => none

/-- The longer of two keywords. -/
def longer (best : Option Keyword) (keyword : Keyword) : Option Keyword :=
  match best with
  | some found => if found.text.length < keyword.text.length then some keyword else some found
  | none => some keyword

/-- The longest keyword that a text starts with. -/
def longestMatch? (table : TokenTable) (text : Text) : Option Keyword :=
  (table.keywords.filter (·.text.isPrefixOf text)).foldl longer none

/-- The keywords whose encoded text starts with the given byte, in the order in which they are
tried. -/
def candidates (table : TokenTable) (byte : UInt8) : List Keyword :=
  (table.keywords.filter (·.text.encode.head? = some byte)).mergeSort Keyword.precedes

/-- The first candidate for a text that the text starts with, all in encoded form. -/
def candidateMatch? (table : TokenTable) (text : Text) : Option Keyword :=
  match text.encode with
  | [] => none
  | byte :: rest => (table.candidates byte).find? (·.text.encode.isPrefixOf (byte :: rest))

end TokenTable

end ColorBasic
