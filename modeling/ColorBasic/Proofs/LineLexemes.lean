import ColorBasic.Line
import ColorBasic.Proofs.TableLookup

/-!
# The lexemes of a line of code

Tokenizing neither drops nor invents text: the lexemes of a text spell it out, and so do the
segments of a line.  A whole line is therefore spelled by the lexemes of its code segments and the
single characters of its other segments.
-/

namespace ColorBasic
namespace TokenTable

theorem mem_of_foldl_longer {keywords : List Keyword} {best : Option Keyword} {keyword : Keyword}
    (h : keywords.foldl longer best = some keyword) : keyword ∈ keywords ∨ best = some keyword := by
  induction keywords generalizing best with
  | nil => exact .inr h
  | cons first rest ih =>
      rcases ih h with hrest | hbest
      · exact .inl (List.mem_cons_of_mem _ hrest)
      · cases best with
        | none =>
            have hfirst : first = keyword := Option.some.inj hbest
            exact .inl (hfirst ▸ List.mem_cons_self)
        | some found =>
            simp only [longer] at hbest
            split at hbest
            · have hfirst : first = keyword := Option.some.inj hbest
              exact .inl (hfirst ▸ List.mem_cons_self)
            · exact .inr hbest

/-- A keyword that is found is listed in the table and the text starts with it. -/
theorem mem_and_prefix_of_longestMatch? {table : TokenTable} {text : Text} {keyword : Keyword}
    (h : table.longestMatch? text = some keyword) :
    keyword ∈ table.keywords ∧ keyword.text <+: text := by
  rcases mem_of_foldl_longer h with hmem | hnone
  · obtain ⟨hkeyword, hbegin⟩ := List.mem_filter.1 hmem
    exact ⟨hkeyword, List.isPrefixOf_iff_prefix.1 hbegin⟩
  · simp at hnone

/-- A keyword that is found and what is left after it make up the text. -/
theorem text_append_drop_of_longestMatch? {table : TokenTable} {c : Char} {rest : Text}
    {keyword : Keyword} (h : table.longestMatch? (c :: rest) = some keyword) :
    keyword.text ++ rest.drop (keyword.text.length - 1) = c :: rest := by
  obtain ⟨hmem, after, hafter⟩ := mem_and_prefix_of_longestMatch? h
  have hlength : 0 < keyword.text.length :=
    List.length_pos_iff.2 (table.text_ne_nil keyword hmem)
  have hdrop : rest.drop (keyword.text.length - 1) = (c :: rest).drop keyword.text.length := by
    conv_rhs => rw [show keyword.text.length = keyword.text.length - 1 + 1 by omega]
    rw [List.drop_succ_cons]
  rw [hdrop, ← hafter, List.drop_left]

theorem flatMap_text_munch (table : TokenTable) (text : Text) :
    (table.munch text).flatMap Lexeme.text = text := by
  fun_induction munch table text with
  | case1 => rfl
  | case2 c rest keyword hmatch ih =>
      rw [List.flatMap_cons, ih]
      exact text_append_drop_of_longestMatch? hmatch
  | case3 c rest hmatch ih =>
      rw [List.flatMap_cons, ih]
      rfl

theorem mem_keywords_of_mem_munch {table : TokenTable} {text : Text} {keyword : Keyword}
    (h : Lexeme.keyword keyword ∈ table.munch text) : keyword ∈ table.keywords := by
  fun_induction munch table text with
  | case1 => simp at h
  | case2 c rest found hmatch ih =>
      rcases List.mem_cons.1 h with heq | h
      · rw [Lexeme.keyword.inj heq]
        exact (mem_and_prefix_of_longestMatch? hmatch).1
      · exact ih h
  | case3 c rest hmatch ih =>
      rcases List.mem_cons.1 h with heq | h
      · cases heq
      · exact ih h

end TokenTable

namespace Segment

theorem append_spanString (s : Text) : (spanString s).1 ++ (spanString s).2 = s := by
  simp only [spanString, List.append_assoc, List.take_append_drop, List.takeWhile_append_dropWhile]

theorem append_spanData (quoted : Bool) (s : Text) :
    (spanData quoted s).1 ++ (spanData quoted s).2 = s := by
  induction s generalizing quoted with
  | nil => rfl
  | cons c rest ih =>
      rw [spanData]
      split
      · rfl
      · simp [ih]

@[simp] theorem flatMap_text_ofNonempty (kind : SegmentKind) (text : Text) :
    (ofNonempty kind text).flatMap Segment.text = text := by
  unfold ofNonempty
  split
  · rename_i hempty
    rw [List.isEmpty_iff.1 hempty]
    rfl
  · simp

@[simp] theorem flatMap_text_consCode (text : Text) (segments : List Segment) :
    (consCode text segments).flatMap Segment.text = text ++ segments.flatMap Segment.text := by
  unfold consCode
  split <;> simp

/-- The segments of a line spell the line. -/
theorem flatMap_text_classify (table : TokenTable) (code : Text) :
    (classify table code).flatMap Segment.text = code := by
  fun_induction classify table code with
  | case1 => rfl
  | case2 rest ih =>
      -- A string runs up to the quote that closes it.
      rw [List.flatMap_cons, ih, List.cons_append, append_spanString]
  | case3 c rest hquote keyword hmatch after hcomment =>
      -- A comment takes the rest of the line.
      rw [List.flatMap_cons, flatMap_text_ofNonempty]
      exact TokenTable.text_append_drop_of_longestMatch? hmatch
  | case4 c rest hquote keyword hmatch after hcomment hdata ih =>
      -- Data run up to a colon outside of quotes.
      rw [List.cons_append, List.flatMap_cons, List.flatMap_append, flatMap_text_ofNonempty, ih,
        append_spanData]
      exact TokenTable.text_append_drop_of_longestMatch? hmatch
  | case5 c rest hquote keyword hmatch after hcomment hdata ih =>
      rw [flatMap_text_consCode, ih]
      exact TokenTable.text_append_drop_of_longestMatch? hmatch
  | case6 c rest hquote hmatch ih =>
      rw [flatMap_text_consCode, ih]
      rfl

section Nonempty

variable {table : TokenTable} {segment : Segment}

theorem text_ne_nil_of_mem_consCode {text : Text} {segments : List Segment} (hne : text ≠ [])
    (hmem : segment ∈ consCode text segments) : segment.text ≠ [] ∨ segment ∈ segments := by
  unfold consCode at hmem
  split at hmem
  · rcases List.mem_cons.1 hmem with rfl | hmem
    · exact .inl (by simp [hne])
    · exact .inr (List.mem_cons_of_mem _ hmem)
  · rcases List.mem_cons.1 hmem with rfl | hmem
    · exact .inl hne
    · exact .inr hmem

theorem text_ne_nil_of_mem_ofNonempty {kind : SegmentKind} {text : Text}
    (hmem : segment ∈ ofNonempty kind text) : segment.text ≠ [] := by
  unfold ofNonempty at hmem
  split at hmem
  · simp at hmem
  · rename_i hne
    rw [List.mem_singleton.1 hmem]
    simpa using hne

/-- No segment of a line is empty. -/
theorem text_ne_nil_of_mem_classify {code : Text} (h : segment ∈ classify table code) :
    segment.text ≠ [] := by
  fun_induction classify table code with
  | case1 => simp at h
  | case2 rest ih =>
      rcases List.mem_cons.1 h with rfl | h
      · simp
      · exact ih h
  | case3 c rest hquote keyword hmatch after hcomment =>
      rcases List.mem_cons.1 h with rfl | h
      · exact table.text_ne_nil keyword (TokenTable.mem_and_prefix_of_longestMatch? hmatch).1
      · exact text_ne_nil_of_mem_ofNonempty h
  | case4 c rest hquote keyword hmatch after hcomment hdata ih =>
      rw [List.cons_append] at h
      rcases List.mem_cons.1 h with rfl | h
      · exact table.text_ne_nil keyword (TokenTable.mem_and_prefix_of_longestMatch? hmatch).1
      · rcases List.mem_append.1 h with h | h
        · exact text_ne_nil_of_mem_ofNonempty h
        · exact ih h
  | case5 c rest hquote keyword hmatch after hcomment hdata ih =>
      have hne := table.text_ne_nil keyword (TokenTable.mem_and_prefix_of_longestMatch? hmatch).1
      exact (text_ne_nil_of_mem_consCode hne h).elim id ih
  | case6 c rest hquote hmatch ih =>
      exact (text_ne_nil_of_mem_consCode (List.cons_ne_nil c []) h).elim id ih

end Nonempty

/-- The lexemes of a segment: keywords are looked for in code only. -/
def lexemes (table : TokenTable) (segment : Segment) : List Lexeme :=
  match segment.kind with
  | .code => table.munch segment.text
  | _ => segment.text.map .plain

theorem lexemes_of_code {table : TokenTable} {segment : Segment} (h : segment.kind = .code) :
    segment.lexemes table = table.munch segment.text := by
  rw [lexemes, h]

theorem lexemes_of_literal {table : TokenTable} {segment : Segment} (h : segment.kind ≠ .code) :
    segment.lexemes table = segment.text.map .plain := by
  unfold lexemes
  split
  · contradiction
  · rfl

theorem flatMap_text_lexemes (table : TokenTable) (segment : Segment) :
    (segment.lexemes table).flatMap Lexeme.text = segment.text := by
  by_cases hkind : segment.kind = .code
  · rw [lexemes_of_code hkind]
    exact table.flatMap_text_munch segment.text
  · rw [lexemes_of_literal hkind, List.flatMap_map]
    exact List.flatMap_singleton' segment.text

end Segment

namespace TokenTable

/-- The lexemes of the code of a line. -/
def lineLexemes (table : TokenTable) (code : Text) : List Lexeme :=
  (Segment.classify table code).flatMap (Segment.lexemes table)

/-- The lexemes of a line spell the line. -/
theorem flatMap_text_lineLexemes (table : TokenTable) (code : Text) :
    (table.lineLexemes code).flatMap Lexeme.text = code := by
  have hsegments := Segment.flatMap_text_classify table code
  rw [lineLexemes, List.flatMap_assoc]
  simpa only [Segment.flatMap_text_lexemes] using hsegments

theorem mem_keywords_of_mem_lineLexemes {table : TokenTable} {code : Text} {keyword : Keyword}
    (h : Lexeme.keyword keyword ∈ table.lineLexemes code) : keyword ∈ table.keywords := by
  obtain ⟨segment, -, hlexeme⟩ := List.mem_flatMap.1 h
  by_cases hkind : segment.kind = .code
  · rw [Segment.lexemes_of_code hkind] at hlexeme
    exact mem_keywords_of_mem_munch hlexeme
  · rw [Segment.lexemes_of_literal hkind] at hlexeme
    simp at hlexeme

theorem mem_of_mem_lineLexemes {table : TokenTable} {code : Text} {c : Char}
    (h : Lexeme.plain c ∈ table.lineLexemes code) : c ∈ code := by
  rw [← table.flatMap_text_lineLexemes code]
  exact List.mem_flatMap.2 ⟨_, h, List.mem_singleton_self c⟩

end TokenTable
end ColorBasic
