import ColorBasic.Proofs.KeywordSearch

/-!
# Maximal munch

A table is built of every list of keywords that can be told apart, and of no other.  Its look-ups
depend on which keywords are listed and not on their order.

The longest keyword that a text starts with can also be found without comparing lengths.  The
candidates that share the first encoded byte with the text are tried, longest first, and the first
one that fits is the longest.
-/

namespace ColorBasic

namespace Text

/-- No character is encoded as the beginning of another one, so texts begin with each other as
their encoded forms do. -/
theorem encode_prefix_iff {first second : Text} :
    first.encode <+: second.encode ↔ first <+: second := by
  constructor
  · rintro ⟨rest, hrest⟩
    have hbytes : first.utf8Encode ++ rest.toByteArray = second.utf8Encode := by
      rw [← toByteArray_encode, ← toByteArray_encode, ← hrest, List.toByteArray_append]
    exact List.isPrefix_of_utf8Encode_append_eq_utf8Encode _ hbytes
  · rintro ⟨rest, rfl⟩
    exact ⟨encode rest, by simp [encode]⟩

theorem encode_eq_nil_iff {text : Text} : text.encode = [] ↔ text = [] := by
  constructor
  · intro h
    have hbegin : text.encode <+: encode [] := h ▸ List.nil_prefix
    exact List.prefix_nil.1 (encode_prefix_iff.1 hbegin)
  · rintro rfl
    rfl

/-- Of two beginnings of one text the longer one is encoded longer. -/
theorem length_le_of_length_encode_le {first second text : Text} (hfirst : first <+: text)
    (hsecond : second <+: text) (h : first.encode.length ≤ second.encode.length) :
    first.length ≤ second.length := by
  have hencoded : first.encode <+: second.encode :=
    List.prefix_of_prefix_length_le (encode_prefix_iff.2 hfirst) (encode_prefix_iff.2 hsecond) h
  exact (encode_prefix_iff.1 hencoded).length_le

end Text

namespace Keyword

theorem precedes_iff {first second : Keyword} :
    first.precedes second = true ↔
      second.text.encode.length < first.text.encode.length ∨
        first.text.encode.length = second.text.encode.length ∧
          first.text.encode ≤ second.text.encode := by
  simp [precedes]

theorem precedes_trans (first second third : Keyword) (hfirst : first.precedes second = true)
    (hsecond : second.precedes third = true) : first.precedes third = true := by
  rw [precedes_iff] at *
  rcases hfirst with hfirst | ⟨hfirst, hle⟩
  · left
    omega
  · rcases hsecond with hsecond | ⟨hsecond, hle'⟩
    · left
      omega
    · exact .inr ⟨hfirst.trans hsecond, List.le_trans hle hle'⟩

theorem precedes_total (first second : Keyword) :
    (first.precedes second || second.precedes first) = true := by
  rw [Bool.or_eq_true, precedes_iff, precedes_iff]
  rcases lt_trichotomy first.text.encode.length second.text.encode.length with
    h | h | h
  · exact .inr (.inl h)
  · rcases List.le_total first.text.encode second.text.encode with hle | hle
    · exact .inl (.inr ⟨h, hle⟩)
    · exact .inr (.inr ⟨h.symm, hle⟩)
  · exact .inl (.inl h)

end Keyword

namespace TokenTable

theorem mem_candidates_iff {table : TokenTable} {byte : UInt8} {keyword : Keyword} :
    keyword ∈ table.candidates byte ↔
      keyword ∈ table.keywords ∧ keyword.text.encode.head? = some byte := by
  simp [candidates]

theorem pairwise_candidates (table : TokenTable) (byte : UInt8) :
    (table.candidates byte).Pairwise fun first second =>
      second.text.encode.length ≤ first.text.encode.length := by
  have hsorted := List.pairwise_mergeSort Keyword.precedes_trans Keyword.precedes_total
    (table.keywords.filter fun keyword => keyword.text.encode.head? = some byte)
  refine hsorted.imp fun {first second} h => ?_
  rcases Keyword.precedes_iff.1 h with h | ⟨h, -⟩ <;> omega

/-- Every keyword that a text starts with is among the candidates for it. -/
theorem mem_candidates_of_mem {table : TokenTable} {keyword : Keyword} {text : Text}
    {byte : UInt8} {rest : Bytes} (htext : text.encode = byte :: rest)
    (hmem : keyword ∈ table.keywords) (hbegin : keyword.text <+: text) :
    keyword ∈ table.candidates byte := by
  refine mem_candidates_iff.2 ⟨hmem, ?_⟩
  have hencoded := Text.encode_prefix_iff.2 hbegin
  rw [htext] at hencoded
  cases hkeyword : keyword.text.encode with
  | nil => exact (table.text_ne_nil keyword hmem (Text.encode_eq_nil_iff.1 hkeyword)).elim
  | cons first _ =>
      rw [hkeyword] at hencoded
      rw [(List.cons_prefix_cons.1 hencoded).1, List.head?_cons]

/-- No candidate that could be found is longer than the one that is found. -/
theorem length_le_of_find?_candidates {table : TokenTable} {byte : UInt8} {found other : Keyword}
    {accepts : Keyword → Bool} (hfind : (table.candidates byte).find? accepts = some found)
    (hmem : other ∈ table.candidates byte) (hother : accepts other = true) :
    other.text.encode.length ≤ found.text.encode.length := by
  have hsorted := table.pairwise_candidates byte
  obtain ⟨-, before, after, hsplit, hbefore⟩ := List.find?_eq_some_iff_append.1 hfind
  rw [hsplit] at hsorted hmem
  rcases List.mem_append.1 hmem with hmem | hmem
  · simpa [hother] using hbefore other hmem
  · rcases List.mem_cons.1 hmem with rfl | hmem
    · exact le_refl _
    · exact List.rel_of_pairwise_cons (List.pairwise_append.1 hsorted).2.1 hmem

/-- The first candidate that fits is the longest keyword that the text starts with. -/
theorem candidateMatch?_eq_longestMatch? (table : TokenTable) (text : Text) :
    table.candidateMatch? text = table.longestMatch? text := by
  unfold candidateMatch?
  cases htext : text.encode with
  | nil =>
      obtain rfl := Text.encode_eq_nil_iff.1 htext
      refine (longestMatch?_eq_none_iff.2 fun keyword hmem hbegin => ?_).symm
      exact table.text_ne_nil keyword hmem (List.prefix_nil.1 hbegin)
  | cons byte rest =>
      have haccepts : ∀ keyword : Keyword,
          keyword.text.encode.isPrefixOf (byte :: rest) = true ↔ keyword.text <+: text := by
        intro keyword
        rw [List.isPrefixOf_iff_prefix, ← htext, Text.encode_prefix_iff]
      dsimp only
      cases hfind : (table.candidates byte).find? fun keyword =>
          keyword.text.encode.isPrefixOf (byte :: rest) with
      | none =>
          rw [List.find?_eq_none] at hfind
          refine (longestMatch?_eq_none_iff.2 fun keyword hmem hbegin => ?_).symm
          exact hfind keyword (mem_candidates_of_mem htext hmem hbegin)
            ((haccepts keyword).2 hbegin)
      | some found =>
          have hfits : found.text.encode.isPrefixOf (byte :: rest) = true := by
            simpa using List.find?_some hfind
          have hbegin : found.text <+: text := (haccepts found).1 hfits
          have hmem := (mem_candidates_iff.1 (List.mem_of_find?_eq_some hfind)).1
          refine (longestMatch?_eq_some_iff.2 ⟨hmem, hbegin, fun other hother hstart => ?_⟩).symm
          have hlength := length_le_of_find?_candidates hfind
            (mem_candidates_of_mem htext hother hstart) ((haccepts other).2 hstart)
          exact Text.length_le_of_length_encode_le hstart hbegin hlength

/-- Two tables that give the same answer to every look-up. -/
structure AnswersAlike (table other : TokenTable) : Prop where
  /-- The same keyword is found in every text. -/
  longestMatch?_eq : ∀ text, table.longestMatch? text = other.longestMatch? text
  /-- Every text has the same token. -/
  tokenOfText?_eq : ∀ text, table.tokenOfText? text = other.tokenOfText? text
  /-- Every character has the same token. -/
  tokenOfChar_eq : ∀ c, table.tokenOfChar c = other.tokenOfChar c
  /-- Every token has the same text. -/
  textOfToken?_eq : ∀ token, table.textOfToken? token = other.textOfToken? token
  /-- The same tokens stand for keywords. -/
  isKeyword_eq : ∀ token, table.isKeyword token = other.isKeyword token

/-- Looking for a keyword by a property that tells all keywords apart finds the one that has it,
wherever it is listed. -/
theorem find?_eq_some_iff_of_nodup {β : Type} {key : Keyword → β} [DecidableEq β]
    {keywords : List Keyword} (hnodup : (keywords.map key).Nodup) {wanted : β}
    {keyword : Keyword} :
    keywords.find? (fun other => key other = wanted) = some keyword ↔
      keyword ∈ keywords ∧ key keyword = wanted := by
  constructor
  · intro hfind
    exact ⟨List.mem_of_find?_eq_some hfind, by simpa using List.find?_some hfind⟩
  · rintro ⟨hmem, rfl⟩
    exact find?_eq_some_of_nodup hnodup hmem

section SameKeywords

variable {table other : TokenTable}

theorem keywordOfText?_congr (h : ∀ keyword, keyword ∈ table.keywords ↔ keyword ∈ other.keywords)
    (text : Text) : table.keywordOfText? text = other.keywordOfText? text := by
  ext keyword
  rw [keywordOfText?, keywordOfText?, find?_eq_some_iff_of_nodup table.texts_nodup,
    find?_eq_some_iff_of_nodup other.texts_nodup, h]

theorem keywordOfToken?_congr
    (h : ∀ keyword, keyword ∈ table.keywords ↔ keyword ∈ other.keywords) (token : Token) :
    table.keywordOfToken? token = other.keywordOfToken? token := by
  ext keyword
  rw [keywordOfToken?, keywordOfToken?, find?_eq_some_iff_of_nodup table.values_nodup,
    find?_eq_some_iff_of_nodup other.values_nodup, h]

/-- Tables of the same keywords answer alike. -/
theorem answersAlike_of_mem_iff
    (h : ∀ keyword, keyword ∈ table.keywords ↔ keyword ∈ other.keywords) :
    table.AnswersAlike other where
  longestMatch?_eq text := by
    ext keyword
    simp only [longestMatch?_eq_some_iff, h]
  tokenOfText?_eq text := by rw [tokenOfText?, tokenOfText?, keywordOfText?_congr h]
  tokenOfChar_eq c := by
    rw [tokenOfChar, tokenOfChar, tokenOfText?, tokenOfText?, keywordOfText?_congr h]
  textOfToken?_eq token := by
    unfold textOfToken?
    rw [keywordOfToken?_congr h]
  isKeyword_eq token := by rw [isKeyword, isKeyword, keywordOfToken?_congr h]

end SameKeywords

section Building

variable {machine : Machine} {keywords : List Keyword}

/-- A table can be built of the keywords that can be told apart. -/
theorem exists_ofKeywords_eq_ok_iff :
    (∃ table, ofKeywords machine keywords = .ok table) ↔
      (∀ keyword ∈ keywords, keyword.text ≠ []) ∧ (keywords.map Keyword.text).Nodup ∧
        (keywords.map Keyword.value).Nodup := by
  constructor
  · rintro ⟨table, htable⟩
    obtain ⟨-, rfl⟩ := ofKeywords_eq_ok_iff.1 htable
    exact ⟨table.text_ne_nil, table.texts_nodup, table.values_nodup⟩
  · rintro ⟨htext, htexts, hvalues⟩
    exact ⟨⟨machine, keywords, htext, htexts, hvalues⟩, ofKeywords_eq_ok_iff.2 ⟨rfl, rfl⟩⟩

/-- The order in which keywords are listed changes neither whether a table can be built of them nor
what it answers. -/
theorem ofKeywords_perm {permuted : List Keyword} {table : TokenTable}
    (hperm : permuted.Perm keywords) (htable : ofKeywords machine keywords = .ok table) :
    ∃ other, ofKeywords machine permuted = .ok other ∧ other.AnswersAlike table := by
  obtain ⟨htext, htexts, hvalues⟩ := exists_ofKeywords_eq_ok_iff.1 ⟨table, htable⟩
  obtain ⟨other, hother⟩ : ∃ other, ofKeywords machine permuted = .ok other :=
    exists_ofKeywords_eq_ok_iff.2
      ⟨fun keyword hmem => htext keyword (hperm.mem_iff.1 hmem),
        (hperm.map Keyword.text).nodup_iff.2 htexts, (hperm.map Keyword.value).nodup_iff.2 hvalues⟩
  refine ⟨other, hother, answersAlike_of_mem_iff fun keyword => ?_⟩
  rw [(ofKeywords_eq_ok_iff.1 hother).2, (ofKeywords_eq_ok_iff.1 htable).2]
  exact hperm.mem_iff

end Building

section Answers

variable {table : TokenTable} {text word : Text} {token : Token}

/-- The longest match, told by its text alone. -/
theorem map_text_longestMatch?_eq_some_iff :
    (table.longestMatch? text).map Keyword.text = some word ↔
      word ∈ table.keywords.map Keyword.text ∧ word <+: text ∧
        ∀ other ∈ table.keywords.map Keyword.text, other <+: text →
          other.length ≤ word.length := by
  simp only [Option.map_eq_some_iff, longestMatch?_eq_some_iff, List.mem_map,
    forall_exists_index, and_imp, forall_apply_eq_imp_iff₂]
  constructor
  · rintro ⟨keyword, ⟨hmem, hbegin, hlongest⟩, rfl⟩
    exact ⟨⟨keyword, hmem, rfl⟩, hbegin, hlongest⟩
  · rintro ⟨⟨keyword, hmem, rfl⟩, hbegin, hlongest⟩
    exact ⟨keyword, ⟨hmem, hbegin, hlongest⟩, rfl⟩

theorem textOfToken?_token {keyword : Keyword} (hmem : keyword ∈ table.keywords) :
    table.textOfToken? keyword.token = some keyword.text := by
  simp only [textOfToken?, keywordOfToken?_token hmem]

/-- Among the tokens of a table, the one that a text has is the one that has this text. -/
theorem tokenOfText?_eq_some_iff_textOfToken? :
    table.tokenOfText? text = some token ↔
      token ∈ table.keywords.map Keyword.token ∧ table.textOfToken? token = some text := by
  rw [tokenOfText?_eq_some_iff]
  constructor
  · rintro ⟨keyword, hmem, rfl, rfl⟩
    exact ⟨List.mem_map_of_mem hmem, textOfToken?_token hmem⟩
  · rintro ⟨htoken, htext⟩
    obtain ⟨keyword, hmem, rfl⟩ := List.mem_map.1 htoken
    rw [textOfToken?_token hmem] at htext
    exact ⟨keyword, hmem, Option.some.inj htext, rfl⟩

end Answers

/-- Exactly the lists of keywords that can be told apart make a table.  It finds the longest keyword
that a text starts with, which is the first candidate that fits.  Its tokens and its texts find each
other, and the order of the list does not matter to any answer. -/
theorem ofKeywords_maximalMunch (machine : Machine) (keywords : List Keyword) :
    ((∃ table, ofKeywords machine keywords = .ok table) ↔
      (∀ keyword ∈ keywords, keyword.text ≠ []) ∧ (keywords.map Keyword.text).Nodup ∧
        (keywords.map Keyword.value).Nodup) ∧
      ∀ table, ofKeywords machine keywords = .ok table →
        (∀ text word, (table.longestMatch? text).map Keyword.text = some word ↔
          word ∈ keywords.map Keyword.text ∧ word <+: text ∧
            ∀ other ∈ keywords.map Keyword.text, other <+: text → other.length ≤ word.length) ∧
        (∀ text, table.longestMatch? text = none ↔
          ∀ word ∈ keywords.map Keyword.text, ¬word <+: text) ∧
        (∀ text, table.candidateMatch? text = table.longestMatch? text) ∧
        (∀ keyword ∈ keywords, table.tokenOfText? keyword.text = some keyword.token ∧
          table.textOfToken? keyword.token = some keyword.text) ∧
        (∀ text token, table.tokenOfText? text = some token ↔
          token ∈ keywords.map Keyword.token ∧ table.textOfToken? token = some text) ∧
        ∀ permuted, permuted.Perm keywords →
          ∃ other, ofKeywords machine permuted = .ok other ∧ other.AnswersAlike table := by
  refine ⟨exists_ofKeywords_eq_ok_iff, fun table htable => ?_⟩
  have hperm : ∀ permuted, permuted.Perm keywords →
      ∃ other, ofKeywords machine permuted = .ok other ∧ other.AnswersAlike table :=
    fun permuted h => ofKeywords_perm h htable
  obtain ⟨-, rfl⟩ := ofKeywords_eq_ok_iff.1 htable
  refine ⟨fun text word => map_text_longestMatch?_eq_some_iff, fun text => ?_,
    table.candidateMatch?_eq_longestMatch?, fun keyword hmem => ⟨?_, textOfToken?_token hmem⟩,
    fun text token => tokenOfText?_eq_some_iff_textOfToken?, hperm⟩
  · rw [longestMatch?_eq_none_iff, List.forall_mem_map]
  · exact tokenOfText?_eq_some_iff.2 ⟨keyword, hmem, rfl, rfl⟩

/-- Keywords that share the first byte of an accented character and begin with each other. -/
def accentedKeywords : List Keyword :=
  [⟨0x80, ['é']⟩, ⟨0xFF80, ['é', 'è', 't']⟩, ⟨0x81, ['é', 'è']⟩, ⟨0x82, ['è']⟩]

theorem ofKeywords_maximalMunch_accented :
    ∃ table, ofKeywords .coco accentedKeywords = .ok table ∧
      (table.longestMatch? ['é', 'è', 'é']).map Keyword.text = some ['é', 'è'] ∧
        table.textOfToken? (.word 0xFF80) = some ['é', 'è', 't'] ∧
          ∃ other, ofKeywords .coco accentedKeywords.reverse = .ok other ∧
            other.AnswersAlike table := by
  obtain ⟨hbuilt, hanswers⟩ := ofKeywords_maximalMunch .coco accentedKeywords
  obtain ⟨table, htable⟩ := hbuilt.2 (by decide)
  obtain ⟨hlongest, -, -, hentries, -, hperm⟩ := hanswers table htable
  refine ⟨table, htable, (hlongest _ _).2 (by decide), ?_, hperm _ (List.reverse_perm _)⟩
  exact (hentries ⟨0xFF80, ['é', 'è', 't']⟩ (by decide)).2

end TokenTable
end ColorBasic
