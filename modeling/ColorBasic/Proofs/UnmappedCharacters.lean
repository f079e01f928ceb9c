import ColorBasic.Proofs.LineScan
import ColorBasic.Proofs.SilentLoss

/-!
# Characters that no byte can hold

A character beyond the bytes is reported and stored as a question mark.  Neither it nor the question
mark is part of a keyword, and neither opens or closes a literal, so exchanging one for the other
changes no keyword and no segment of the line: what is stored is what is stored for the line with
question marks in place of such characters.
-/

namespace ColorBasic

namespace Text

/-- The character, or a question mark if no byte can hold it. -/
def questioned (c : Char) : Char := if isStorable c then c else '?'

theorem questioned_of_storable {c : Char} (h : isStorable c = true) : questioned c = c := if_pos h

theorem isStorable_questioned (c : Char) : isStorable (questioned c) = true := by
  by_cases h : isStorable c = true
  · rw [questioned_of_storable h]
    exact h
  · rw [questioned, if_neg h]
    decide

theorem storedByte_questioned (c : Char) : storedByte (questioned c) = storedByte c := by
  by_cases h : isStorable c = true
  · rw [questioned_of_storable h]
  · rw [questioned, if_neg h, storedByte, storedByte, if_neg h]
    rfl

/-- The reports about the characters of a text name those that no byte can hold, in their order. -/
theorem flatMap_charReports (s : Text) :
    s.flatMap charReports = (s.filter fun c => 0xFF < c.toNat).map .unmappedChar := by
  induction s with
  | nil => rfl
  | cons c rest ih =>
      rw [List.flatMap_cons, ih, charReports]
      by_cases hc : 0xFF < c.toNat
      · rw [if_neg (by simpa [isStorable] using hc), List.filter_cons_of_pos (by simpa using hc)]
        rfl
      · rw [if_pos (by simpa [isStorable] using hc), List.filter_cons_of_neg (by simpa using hc)]
        rfl

/-- A substitution of characters spares a character if it neither changes it nor puts it in the
place of another one. -/
def Spares (f : Char → Char) (d : Char) : Prop := ∀ c, f c = d ↔ c = d

theorem Spares.eq {f : Char → Char} {d : Char} (h : Spares f d) : f d = d := (h d).2 rfl

theorem spares_questioned {d : Char} (hstorable : isStorable d = true) (hmark : d ≠ '?') :
    Spares questioned d := by
  intro c
  by_cases h : isStorable c = true
  · rw [questioned_of_storable h]
  · rw [questioned, if_neg h]
    constructor
    · exact fun heq => (hmark heq.symm).elim
    · rintro rfl
      exact (h hstorable).elim

variable {f : Char → Char}

/-- A word of spared characters begins a text exactly if it begins what the text becomes. -/
theorem prefix_map_iff {word text : Text} (h : ∀ d ∈ word, Spares f d) :
    word <+: text.map f ↔ word <+: text := by
  induction word generalizing text with
  | nil => simp
  | cons d word ih =>
      rw [List.forall_mem_cons] at h
      cases text with
      | nil => simp
      | cons c text =>
          rw [List.map_cons, List.cons_prefix_cons, List.cons_prefix_cons, ih h.2, eq_comm, h.1 c,
            eq_comm]

theorem map_eq_self {word : Text} (h : ∀ d ∈ word, Spares f d) : word.map f = word :=
  (List.map_congr_left fun d hd => (h d hd).eq).trans (List.map_id' word)

end Text

/-- The lexeme with its character substituted, if it is a plain one. -/
def Lexeme.substitute (f : Char → Char) : Lexeme → Lexeme
  | keyword k => .keyword k
  | plain c => .plain (f c)

/-- The segment with its characters substituted. -/
def Segment.substitute (f : Char → Char) (segment : Segment) : Segment :=
  { segment with text := segment.text.map f }

namespace TokenTable

/-- A substitution of characters that spares all that tokenizing looks for: the keywords, the quote
of string literals, and the colon that ends data items. -/
structure Spares (table : TokenTable) (f : Char → Char) : Prop where
  keyword : ∀ keyword ∈ table.keywords, ∀ d ∈ keyword.text, Text.Spares f d
  quote : Text.Spares f '"'
  colon : Text.Spares f ':'

variable {table : TokenTable} {f : Char → Char}

theorem Spares.longestMatch?_map (h : table.Spares f) (text : Text) :
    table.longestMatch? (text.map f) = table.longestMatch? text :=
  longestMatch?_congr fun keyword hmem => Text.prefix_map_iff (h.keyword keyword hmem)

/-- A substitution that spares the keywords changes plain characters only. -/
theorem Spares.munch_map (h : table.Spares f) (text : Text) :
    table.munch (text.map f) = (table.munch text).map (Lexeme.substitute f) := by
  fun_induction munch table text with
  | case1 => simp [munch]
  | case2 c rest keyword hmatch ih =>
      rw [List.map_cons, munch, ← List.map_cons, h.longestMatch?_map, hmatch]
      dsimp only
      rw [← List.map_drop, ih]
      rfl
  | case3 c rest hmatch ih =>
      rw [List.map_cons, munch, ← List.map_cons, h.longestMatch?_map, hmatch]
      dsimp only
      rw [ih]
      rfl

section Segments

theorem Spares.spanString_map (h : table.Spares f) (s : Text) :
    Segment.spanString (s.map f) =
      ((Segment.spanString s).1.map f, (Segment.spanString s).2.map f) := by
  induction s with
  | nil => rfl
  | cons c rest ih =>
      rw [List.map_cons, spanString_cons, spanString_cons, ih]
      by_cases hc : c = '"'
      · rw [if_pos ((h.quote c).2 hc), if_pos hc]
        rfl
      · rw [if_neg fun heq => hc ((h.quote c).1 heq), if_neg hc]
        rfl

theorem Spares.spanData_map (h : table.Spares f) (quoted : Bool) (s : Text) :
    Segment.spanData quoted (s.map f) =
      ((Segment.spanData quoted s).1.map f, (Segment.spanData quoted s).2.map f) := by
  induction s generalizing quoted with
  | nil => rfl
  | cons c rest ih =>
      rw [List.map_cons, Segment.spanData, Segment.spanData]
      simp only [h.quote c, h.colon c, ih]
      split <;> rfl

theorem ofNonempty_map (kind : SegmentKind) (text : Text) :
    Segment.ofNonempty kind (text.map f) =
      (Segment.ofNonempty kind text).map (Segment.substitute f) := by
  cases text <;> rfl

theorem consCode_map (text : Text) (segments : List Segment) :
    Segment.consCode (text.map f) (segments.map (Segment.substitute f)) =
      (Segment.consCode text segments).map (Segment.substitute f) := by
  cases segments with
  | nil => rfl
  | cons segment rest =>
      obtain ⟨kind, first⟩ := segment
      cases kind with
      | code => simp [Segment.consCode, Segment.substitute]
      | string | comment | data => rfl

/-- The keyword that is found after a substitution is the one that was found before. -/
theorem Spares.classify_map_cons (h : table.Spares f) {c : Char} (hc : c ≠ '"') (rest : Text) :
    Segment.classify table ((c :: rest).map f) =
      match table.longestMatch? (c :: rest) with
      | some keyword =>
        let after := (rest.drop (keyword.text.length - 1)).map f
        if Segment.opensComment keyword then
          ⟨.code, keyword.text⟩ :: Segment.ofNonempty .comment after
        else if Segment.opensData keyword then
          ⟨.code, keyword.text⟩ :: Segment.ofNonempty .data (Segment.spanData false after).1 ++
            Segment.classify table (Segment.spanData false after).2
        else Segment.consCode keyword.text (Segment.classify table after)
      | none => Segment.consCode [f c] (Segment.classify table (rest.map f)) := by
  rw [List.map_cons, Segment.classify, if_neg fun heq => hc ((h.quote c).1 heq), ← List.map_cons,
    h.longestMatch?_map]
  cases table.longestMatch? (c :: rest) with
  | none => rfl
  | some keyword => simp only [List.map_drop]

/-- A substitution that spares what tokenizing looks for leaves the segments where they are. -/
theorem Spares.classify_map (h : table.Spares f) (code : Text) :
    Segment.classify table (code.map f) =
      (Segment.classify table code).map (Segment.substitute f) := by
  have hkeyword {text : Text} {keyword : Keyword}
      (hmatch : table.longestMatch? text = some keyword) : keyword.text.map f = keyword.text :=
    Text.map_eq_self (h.keyword keyword (mem_and_prefix_of_longestMatch? hmatch).1)
  fun_induction Segment.classify table code with
  | case1 => simp [Segment.classify]
  | case2 rest ih =>
      rw [List.map_cons, Segment.classify, if_pos h.quote.eq, h.spanString_map, ih]
      rfl
  | case3 c rest hquote keyword hmatch after hcomment =>
      rw [h.classify_map_cons hquote, hmatch]
      dsimp only
      rw [if_pos hcomment, ofNonempty_map, List.map_cons, Segment.substitute, hkeyword hmatch]
  | case4 c rest hquote keyword hmatch after hcomment hdata ih =>
      rw [h.classify_map_cons hquote, hmatch]
      dsimp only
      rw [if_neg hcomment, if_pos hdata, h.spanData_map, ofNonempty_map, ih, List.map_append,
        List.map_cons, Segment.substitute, hkeyword hmatch]
  | case5 c rest hquote keyword hmatch after hcomment hdata ih =>
      rw [h.classify_map_cons hquote, hmatch]
      dsimp only
      rw [if_neg hcomment, if_neg hdata, ih, ← consCode_map, hkeyword hmatch]
  | case6 c rest hquote hmatch ih =>
      rw [h.classify_map_cons hquote, hmatch]
      dsimp only
      rw [ih, ← consCode_map]
      rfl

end Segments

section Storing

theorem Spares.stored_substitute (h : table.Spares f)
    (hbyte : ∀ c, Text.storedByte (f c) = Text.storedByte c) (segment : Segment) :
    (segment.substitute f).stored table = segment.stored table := by
  have hlexeme (lexeme : Lexeme) : (lexeme.substitute f).bytes = lexeme.bytes := by
    cases lexeme with
    | keyword k => rfl
    | plain c => exact congrArg (fun b => [b]) (hbyte c)
  by_cases hkind : segment.kind = .code
  · rw [Segment.stored_of_code hkind, @Segment.stored_of_code table (segment.substitute f) hkind]
    congr 1
    rw [Segment.substitute, tokenize, tokenize, h.munch_map, List.flatMap_map]
    exact List.flatMap_congr fun lexeme _ => hlexeme lexeme
  · rw [Segment.stored_of_literal hkind,
      @Segment.stored_of_literal table (segment.substitute f) hkind]
    rw [Segment.substitute, Text.stored, Text.stored, List.map_map]
    exact List.map_congr_left fun c _ => hbyte c

/-- Characters that are stored alike can be exchanged for each other, if what tokenizing looks for is
spared. -/
theorem Spares.storeCode_map (h : table.Spares f)
    (hbyte : ∀ c, Text.storedByte (f c) = Text.storedByte c) (code : Text) :
    table.storeCode (code.map f) = table.storeCode code := by
  rw [storeCode, storeCode, h.classify_map, List.flatMap_map]
  exact List.flatMap_congr fun segment _ => h.stored_substitute hbyte segment

end Storing

end TokenTable

namespace Machine

theorem question_not_mem_keywords (machine : Machine) :
    ∀ keyword ∈ machine.keywords, '?' ∉ keyword.text := by
  cases machine <;> decide +kernel

theorem table_spares_questioned (machine : Machine) :
    machine.table.Spares Text.questioned where
  keyword keyword hmem d hd := by
    have hsmall := machine.keywords_text_ascii keyword hmem d hd
    refine Text.spares_questioned (decide_eq_true (by omega)) ?_
    rintro rfl
    exact machine.question_not_mem_keywords keyword hmem hd
  quote := Text.spares_questioned (by decide) (by decide)
  colon := Text.spares_questioned (by decide) (by decide)

end Machine

namespace Line

/-- Storing a line reports its characters that no byte can hold, each in its place and nothing
besides, and stores what it stores without a report for question marks in their place. -/
theorem unmapped_reported_and_replaced (machine : Machine) (number : UInt16) (code : Text) :
    machine.table.storeCodeReports code =
        (code.filter fun c => 0xFF < c.toNat).map Diagnostic.unmappedChar ∧
      ofSource machine.table (number, code) =
        ofSource machine.table (number, code.map fun c => if 0xFF < c.toNat then '?' else c) ∧
      machine.table.storeCodeReports (code.map fun c => if 0xFF < c.toNat then '?' else c) = [] := by
  have hascii : machine.table.Ascii := machine.keywords_text_ascii
  have hquestioned : (fun c : Char => if 0xFF < c.toNat then '?' else c) = Text.questioned := by
    funext c
    by_cases hc : 0xFF < c.toNat
    · rw [if_pos hc, Text.questioned, if_neg (by simpa [Text.isStorable] using hc)]
    · rw [if_neg hc, Text.questioned_of_storable (by simpa [Text.isStorable] using hc)]
  rw [hquestioned]
  refine ⟨?_, ?_, ?_⟩
  · rw [hascii.storeCodeReports_eq, Text.flatMap_charReports]
  · rw [ofSource, ofSource,
      machine.table_spares_questioned.storeCode_map Text.storedByte_questioned]
  · rw [hascii.storeCodeReports_eq_nil_iff, List.forall_mem_map]
    exact fun c _ => of_decide_eq_true (Text.isStorable_questioned c)

end Line
end ColorBasic
