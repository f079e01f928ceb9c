import ColorBasic.Proofs.LineLexemes

/-!
# Storing a line and listing it

The colons that storing puts in are the ones that listing takes out, although the listing no longer
knows the segments: what is stored as typed never looks like a token with a hidden colon.  Code
whose characters all keep their byte therefore comes back as it was typed.
-/

namespace ColorBasic
namespace TokenTable

section HiddenColons

variable {colon : Token} {targets : List Token}

@[simp] theorem insertColons_nil : insertColons colon targets [] = [] := rfl

@[simp] theorem insertColons_cons (token : Token) (tokens : List Token) :
    insertColons colon targets (token :: tokens) =
      (if token ∈ targets then [colon, token] else [token]) ++
        insertColons colon targets tokens := rfl

theorem insertColons_flatMap {α : Type} (f : α → List Token) (parts : List α) :
    insertColons colon targets (parts.flatMap f) =
      parts.flatMap fun part => insertColons colon targets (f part) := by
  simp only [insertColons, List.flatMap_assoc]

theorem insertColons_eq_self {tokens : List Token} (h : ∀ token ∈ tokens, token ∉ targets) :
    insertColons colon targets tokens = tokens := by
  induction tokens with
  | nil => rfl
  | cons token tokens ih =>
      rw [insertColons_cons, if_neg (h token List.mem_cons_self),
        ih fun other hother => h other (List.mem_cons_of_mem _ hother)]
      rfl

/-- After colons are put in, no sequence starts with a target. -/
theorem head_insertColons_not_mem (hcolon : colon ∉ targets) {tokens : List Token} {first : Token}
    (h : (insertColons colon targets tokens).head? = some first) : first ∉ targets := by
  cases tokens with
  | nil => simp at h
  | cons token tokens =>
      rw [insertColons_cons] at h
      split at h
      · have hfirst : colon = first := Option.some.inj h
        exact hfirst ▸ hcolon
      · rename_i htoken
        have hfirst : token = first := Option.some.inj h
        exact hfirst ▸ htoken

theorem removeColons_cons_of_head_not_mem {token : Token} {tokens : List Token}
    (h : ∀ next, tokens.head? = some next → next ∉ targets) :
    removeColons colon targets (token :: tokens) =
      token :: removeColons colon targets tokens := by
  cases tokens with
  | nil => rfl
  | cons next rest =>
      rw [removeColons, if_neg]
      exact fun hhidden => h next rfl hhidden.2

/-- Taking colons out undoes putting them in, also where colons were typed. -/
theorem removeColons_insertColons (hcolon : colon ∉ targets) (tokens : List Token) :
    removeColons colon targets (insertColons colon targets tokens) = tokens := by
  induction tokens with
  | nil => rfl
  | cons token tokens ih =>
      have hkeep : removeColons colon targets (token :: insertColons colon targets tokens) =
          token :: tokens := by
        rw [removeColons_cons_of_head_not_mem fun next hnext =>
          head_insertColons_not_mem hcolon hnext, ih]
      rw [insertColons_cons]
      split
      · rename_i htarget
        change removeColons colon targets
          (colon :: token :: insertColons colon targets tokens) = _
        rw [removeColons, if_pos ⟨rfl, htarget⟩, hkeep]
      · exact hkeep

theorem decodable_insertColons (hcolon : colon.SelfDelimiting) {tokens : List Token}
    (h : Token.Decodable tokens) : Token.Decodable (insertColons colon targets tokens) := by
  induction tokens with
  | nil => exact Token.decodable_nil
  | cons token tokens ih =>
      -- A single mark is the last token, so it is still the last one afterwards.
      have hkeep : Token.Decodable (token :: insertColons colon targets tokens) := by
        rcases h.head with htoken | ⟨rfl, rfl⟩
        · exact (ih h.tail).cons htoken
        · exact Token.decodable_mark
      rw [insertColons_cons]
      split
      · exact hkeep.cons hcolon
      · exact hkeep

end HiddenColons

/-- Code in which every character keeps its byte, and the byte of the mark comes last if at all. -/
structure Lossless (table : TokenTable) (code : Text) : Prop where
  keeps : ∀ c ∈ code, table.KeepsChar c
  marks : 'ÿ' ∉ code.dropLast

end TokenTable

namespace Lexeme

/-- The token that is stored for a lexeme. -/
def token : Lexeme → Token
  | keyword k => k.token
  | plain c => .byte (Text.storedByte c)

theorem bytes_eq (lexeme : Lexeme) : lexeme.bytes = lexeme.token.bytes := by
  cases lexeme <;> rfl

theorem flatMap_bytes_eq (lexemes : List Lexeme) :
    lexemes.flatMap bytes = Token.encode (lexemes.map token) := by
  rw [Token.encode, List.flatMap_map]
  exact List.flatMap_congr fun lexeme _ => lexeme.bytes_eq

/-- A keyword of the table, or a character that storing keeps. -/
def KeptBy (table : TokenTable) : Lexeme → Prop
  | keyword k => k ∈ table.keywords
  | plain c => table.KeepsChar c

theorem KeptBy.shown {table : TokenTable} {lexeme : Lexeme} (h : lexeme.KeptBy table) :
    table.shown lexeme.token = lexeme.text ∧ table.shownReports lexeme.token = [] := by
  cases lexeme with
  | keyword k => exact TokenTable.shown_token h
  | plain c => exact TokenTable.shown_storedByte h

theorem KeptBy.text_ne_nil {table : TokenTable} {lexeme : Lexeme} (h : lexeme.KeptBy table) :
    lexeme.text ≠ [] := by
  cases lexeme with
  | keyword k => exact table.text_ne_nil k h
  | plain c => exact List.cons_ne_nil c []

/-- In a regular table the only lexeme that is stored as a single mark is its character. -/
theorem KeptBy.eq_of_token_eq_mark {table : TokenTable} (hregular : table.Regular)
    {lexeme : Lexeme} (h : lexeme.KeptBy table) (hmark : lexeme.token = .byte wordMark) :
    lexeme = .plain 'ÿ' := by
  cases lexeme with
  | keyword k =>
      have hself := (hregular k h).selfDelimiting
      rw [show k.token = .byte wordMark from hmark] at hself
      exact (hself rfl).elim
  | plain c =>
      have hbyte : Text.storedByte c = wordMark := Token.byte.inj hmark
      have hchar : c.toNat = 0xFF := by
        rw [← TokenTable.toNat_storedByte h.1, hbyte]
        rfl
      rw [Char.toNat_inj.1 (hchar.trans (show 0xFF = 'ÿ'.toNat from rfl))]

end Lexeme

namespace Segment

theorem stored_of_code {table : TokenTable} {segment : Segment} (h : segment.kind = .code) :
    segment.stored table = table.hideColons (table.tokenize segment.text) := by
  rw [stored, h]

theorem stored_of_literal {table : TokenTable} {segment : Segment} (h : segment.kind ≠ .code) :
    segment.stored table = segment.text.stored := by
  unfold stored
  split
  · contradiction
  · rfl

end Segment

namespace TokenTable

variable {table : TokenTable} {code : Text}

theorem mark_not_mem_of_ascii (h : ∀ c ∈ code, c.toNat < 0x80) : 'ÿ' ∉ code :=
  fun hmark => absurd (h _ hmark) (by decide)

theorem lossless_of_ascii (hregular : table.Regular) (h : ∀ c ∈ code, c.toNat < 0x80) :
    table.Lossless code where
  keeps c hc := hregular.keepsChar (h c hc)
  marks hmark := mark_not_mem_of_ascii h (List.dropLast_subset _ hmark)

theorem Lossless.keptBy (h : table.Lossless code) :
    ∀ lexeme ∈ table.lineLexemes code, lexeme.KeptBy table := by
  intro lexeme hmem
  cases lexeme with
  | keyword k => exact mem_keywords_of_mem_lineLexemes hmem
  | plain c => exact h.keeps c (mem_of_mem_lineLexemes hmem)

theorem word_mem_tokens_high {lexemes : List Lexeme} (hregular : table.Regular)
    (hkept : ∀ lexeme ∈ lexemes, lexeme.KeptBy table) (w : UInt16)
    (hw : Token.word w ∈ lexemes.map Lexeme.token) : (w >>> 8).toUInt8 = wordMark := by
  obtain ⟨lexeme, hmem, htoken⟩ := List.mem_map.1 hw
  cases lexeme with
  | keyword k =>
      have hself := (hregular k (hkept _ hmem)).selfDelimiting
      rw [show k.token = .word w from htoken] at hself
      exact hself
  | plain c => simp [Lexeme.token] at htoken

/-- The tokens of lossless code are read back from their stored form. -/
theorem Lossless.decodable (hregular : table.Regular) (h : table.Lossless code) :
    Token.Decodable ((table.lineLexemes code).map Lexeme.token) := by
  refine ⟨word_mem_tokens_high hregular h.keptBy, fun hmark => h.marks ?_⟩
  rw [← List.map_dropLast] at hmark
  obtain ⟨lexeme, hmem, htoken⟩ := List.mem_map.1 hmark
  have hlexeme : lexeme = .plain 'ÿ' :=
    (h.keptBy lexeme (List.mem_of_mem_dropLast hmem)).eq_of_token_eq_mark hregular htoken
  subst hlexeme
  -- More lexemes follow, so the character is not the last one of the code.
  have hne : table.lineLexemes code ≠ [] := by
    rintro hempty
    simp [hempty] at hmem
  have hsplit := List.dropLast_append_getLast hne
  have hlast : ((table.lineLexemes code).getLast hne).text ≠ [] :=
    (h.keptBy _ (List.getLast_mem hne)).text_ne_nil
  have hcode := table.flatMap_text_lineLexemes code
  rw [← hsplit, List.flatMap_append, List.flatMap_singleton] at hcode
  rw [← hcode, List.dropLast_append_of_ne_nil hlast]
  exact List.mem_append_left _ (List.mem_flatMap.2 ⟨_, hmem, List.mem_singleton_self 'ÿ'⟩)

theorem Lossless.stored_segment (hregular : table.Regular) (h : table.Lossless code)
    {segment : Segment} (hsegment : segment ∈ Segment.classify table code) :
    segment.stored table =
      Token.encode (insertColons table.colon table.colonTargets
        ((segment.lexemes table).map Lexeme.token)) := by
  have hdecodable : Token.Decodable ((segment.lexemes table).map Lexeme.token) := by
    refine (h.decodable hregular).of_isInfix (List.IsInfix.map _ ?_)
    rw [lineLexemes, List.flatMap_def]
    exact List.infix_of_mem_flatten (List.mem_map_of_mem hsegment)
  have hkeeps : ∀ c ∈ segment.text, table.KeepsChar c := by
    intro c hc
    apply h.keeps
    rw [← Segment.flatMap_text_classify table code]
    exact List.mem_flatMap.2 ⟨segment, hsegment, hc⟩
  by_cases hkind : segment.kind = .code
  · rw [Segment.lexemes_of_code hkind] at hdecodable ⊢
    rw [Segment.stored_of_code hkind, hideColons, tokenize, Lexeme.flatMap_bytes_eq,
      Token.decode_encode hdecodable]
  · -- No byte of a literal is a token, so inserting colons there would change nothing.
    rw [Segment.lexemes_of_literal hkind, List.map_map, insertColons_eq_self]
    · rw [Segment.stored_of_literal hkind, Text.stored, List.map_eq_flatMap, Token.encode,
        List.flatMap_map]
      rfl
    · intro token htoken
      obtain ⟨c, hc, rfl⟩ := List.mem_map.1 htoken
      exact (hkeeps c hc).byte_not_mem_colonTargets

/-- Lossless code is stored as the tokens of its lexemes with the hidden colons put in. -/
theorem Lossless.storeCode_eq (hregular : table.Regular) (h : table.Lossless code) :
    table.storeCode code =
      Token.encode (insertColons table.colon table.colonTargets
        ((table.lineLexemes code).map Lexeme.token)) := by
  have hsegments : (Segment.classify table code).flatMap (Segment.stored table) =
      (Segment.classify table code).flatMap fun segment =>
        Token.encode (insertColons table.colon table.colonTargets
          ((segment.lexemes table).map Lexeme.token)) :=
    List.flatMap_congr fun segment hsegment => h.stored_segment hregular hsegment
  rw [storeCode, hsegments, lineLexemes, List.map_flatMap, insertColons_flatMap]
  simp only [Token.encode, List.flatMap_assoc]

/-- Lossless code is listed as it was typed, and listing it reports nothing. -/
theorem Lossless.detokenize_storeCode (hregular : table.Regular) (h : table.Lossless code) :
    table.detokenize (table.revealCode (table.storeCode code)) = code ∧
      table.detokenizeReports (table.revealCode (table.storeCode code)) = [] := by
  have hdecodable := h.decodable hregular
  have hrevealed : Token.decode (table.revealCode (table.storeCode code)) =
      (table.lineLexemes code).map Lexeme.token := by
    rw [revealCode, h.storeCode_eq hregular,
      Token.decode_encode (decodable_insertColons hregular.colon_selfDelimiting hdecodable),
      removeColons_insertColons hregular.colon_not_mem_colonTargets,
      Token.decode_encode hdecodable]
  constructor
  · rw [detokenize, hrevealed, List.flatMap_map]
    conv_rhs => rw [← table.flatMap_text_lineLexemes code]
    exact List.flatMap_congr fun lexeme hmem => (h.keptBy lexeme hmem).shown.1
  · rw [detokenizeReports, hrevealed, List.flatMap_map, List.flatMap_eq_nil_iff]
    exact fun lexeme hmem => (h.keptBy lexeme hmem).shown.2

section Reports

theorem storedReports_eq_lexemes (table : TokenTable) (segment : Segment) :
    segment.storedReports table = (segment.lexemes table).flatMap Lexeme.reports := by
  by_cases hkind : segment.kind = .code
  · rw [Segment.lexemes_of_code hkind, Segment.storedReports, hkind]
    rfl
  · rw [Segment.lexemes_of_literal hkind, List.flatMap_map]
    unfold Segment.storedReports
    split
    · contradiction
    · rfl

/-- Storing a line reports on its lexemes one after another. -/
theorem storeCodeReports_eq_lexemes (table : TokenTable) (code : Text) :
    table.storeCodeReports code = (table.lineLexemes code).flatMap Lexeme.reports := by
  rw [storeCodeReports, lineLexemes, List.flatMap_assoc]
  exact List.flatMap_congr fun segment _ => table.storedReports_eq_lexemes segment

/-- Storing lossless code reports nothing. -/
theorem Lossless.storeCodeReports_eq_nil (h : table.Lossless code) :
    table.storeCodeReports code = [] := by
  rw [storeCodeReports_eq_lexemes, List.flatMap_eq_nil_iff]
  intro lexeme hmem
  have hkept := h.keptBy lexeme hmem
  cases lexeme with
  | keyword k => rfl
  | plain c => exact if_pos (decide_eq_true hkept.1)

end Reports

end TokenTable
end ColorBasic
