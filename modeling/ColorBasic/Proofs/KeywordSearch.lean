import ColorBasic.Proofs.LineLexemes

/-!
# Building a table and searching it

A table is built exactly of the keywords that are listed for it.  The keyword that a search finds is
the longest one that the text starts with, and since texts are listed once there is no other of its
length.  A search therefore depends only on which keywords the text starts with.
-/

namespace ColorBasic
namespace TokenTable

theorem add_eq_ok {table result : TokenTable} {keyword : Keyword}
    (h : table.add keyword = .ok result) :
    result.machine = table.machine ∧ result.keywords = table.keywords ++ [keyword] := by
  unfold add at h
  split at h
  · cases h
  · split at h
    · cases h
    · cases h
      exact ⟨rfl, rfl⟩

theorem foldlM_add_eq_ok {keywords : List Keyword} {start result : TokenTable}
    (h : keywords.foldlM add start = .ok result) :
    result.machine = start.machine ∧ result.keywords = start.keywords ++ keywords := by
  induction keywords generalizing start with
  | nil =>
      cases h
      simp
  | cons keyword keywords ih =>
      rw [List.foldlM_cons] at h
      cases hadd : start.add keyword with
      | error e =>
          rw [hadd] at h
          cases h
      | ok next =>
          rw [hadd] at h
          obtain ⟨hmachine, hkeywords⟩ := add_eq_ok hadd
          obtain ⟨hresult, hlisted⟩ := ih h
          exact ⟨hresult.trans hmachine, by rw [hlisted, hkeywords]; simp⟩

/-- A keyword can be added if the table goes on with it. -/
theorem add_of_keywords_eq {table whole : TokenTable} {keyword : Keyword} {later : List Keyword}
    (h : whole.keywords = table.keywords ++ keyword :: later) :
    ∃ next, table.add keyword = .ok next ∧ next.machine = table.machine ∧
      next.keywords = table.keywords ++ [keyword] := by
  have htexts := whole.texts_nodup
  have hvalues := whole.values_nodup
  rw [h, List.map_append, List.map_cons, List.nodup_append] at htexts hvalues
  have htext : ¬(keyword.text = [] ∨ keyword.text ∈ table.keywords.map Keyword.text) := by
    rintro (hempty | hlisted)
    · exact whole.text_ne_nil keyword (by simp [h]) hempty
    · exact htexts.2.2 _ hlisted _ List.mem_cons_self rfl
  have hvalue : keyword.value ∉ table.keywords.map Keyword.value :=
    fun hlisted => hvalues.2.2 _ hlisted _ List.mem_cons_self rfl
  unfold add
  rw [dif_neg htext, dif_neg hvalue]
  exact ⟨_, rfl, rfl, rfl⟩

theorem foldlM_add_of_keywords_eq {whole start : TokenTable} {later : List Keyword}
    (hmachine : whole.machine = start.machine) (h : whole.keywords = start.keywords ++ later) :
    later.foldlM add start = .ok whole := by
  induction later generalizing start with
  | nil =>
      have hsame : start = whole := by
        cases start
        cases whole
        simp_all
      exact congrArg Except.ok hsame
  | cons keyword later ih =>
      obtain ⟨next, hadd, hnext, hkeywords⟩ := add_of_keywords_eq h
      rw [List.foldlM_cons, hadd]
      exact ih (hmachine.trans hnext.symm) (by rw [h, hkeywords]; simp)

/-- A table is what its own keywords build, and no other list builds it. -/
theorem ofKeywords_eq_ok_iff {machine : Machine} {keywords : List Keyword} {table : TokenTable} :
    ofKeywords machine keywords = .ok table ↔
      table.machine = machine ∧ table.keywords = keywords := by
  constructor
  · intro h
    obtain ⟨hmachine, hkeywords⟩ := foldlM_add_eq_ok h
    exact ⟨hmachine, hkeywords⟩
  · rintro ⟨hmachine, hkeywords⟩
    exact foldlM_add_of_keywords_eq hmachine hkeywords

theorem foldl_longer_some (keywords : List Keyword) (found : Keyword) :
    ∃ best, keywords.foldl longer (some found) = some best ∧
      found.text.length ≤ best.text.length ∧
        ∀ keyword ∈ keywords, keyword.text.length ≤ best.text.length := by
  induction keywords generalizing found with
  | nil => exact ⟨found, rfl, le_refl _, by simp⟩
  | cons first rest ih =>
      rw [List.foldl_cons, longer]
      split
      · obtain ⟨best, hbest, hfirst, hrest⟩ := ih first
        refine ⟨best, hbest, by omega, ?_⟩
        rw [List.forall_mem_cons]
        exact ⟨hfirst, hrest⟩
      · obtain ⟨best, hbest, hfound, hrest⟩ := ih found
        refine ⟨best, hbest, hfound, ?_⟩
        rw [List.forall_mem_cons]
        exact ⟨by omega, hrest⟩

section Search

variable {table : TokenTable} {text : Text} {keyword : Keyword}

theorem longestMatch?_eq_none_iff :
    table.longestMatch? text = none ↔ ∀ keyword ∈ table.keywords, ¬keyword.text <+: text := by
  unfold longestMatch?
  cases hfound : table.keywords.filter (·.text.isPrefixOf text) with
  | nil =>
      rw [List.filter_eq_nil_iff] at hfound
      simpa using hfound
  | cons first rest =>
      obtain ⟨best, hbest, -⟩ := foldl_longer_some rest first
      have hfirst : first ∈ table.keywords.filter (·.text.isPrefixOf text) := by simp [hfound]
      obtain ⟨hmem, hbegin⟩ := List.mem_filter.1 hfirst
      constructor
      · intro hnone
        exact absurd (hbest.symm.trans hnone) (by simp)
      · intro h
        exact (h first hmem (List.isPrefixOf_iff_prefix.1 hbegin)).elim

theorem length_le_of_longestMatch? (h : table.longestMatch? text = some keyword)
    {other : Keyword} (hmem : other ∈ table.keywords) (hbegin : other.text <+: text) :
    other.text.length ≤ keyword.text.length := by
  have hother : other ∈ table.keywords.filter (·.text.isPrefixOf text) :=
    List.mem_filter.2 ⟨hmem, List.isPrefixOf_iff_prefix.2 hbegin⟩
  unfold longestMatch? at h
  cases hfound : table.keywords.filter (·.text.isPrefixOf text) with
  | nil => simp [hfound] at hother
  | cons first rest =>
      obtain ⟨best, hbest, hfirst, hrest⟩ := foldl_longer_some rest first
      have hsame : best = keyword := by
        rw [hfound] at h
        exact Option.some.inj (hbest.symm.trans h)
      subst hsame
      rw [hfound] at hother
      rcases List.mem_cons.1 hother with rfl | hother
      · exact hfirst
      · exact hrest other hother

/-- A search finds the longest keyword that the text starts with. -/
theorem longestMatch?_eq_some_iff :
    table.longestMatch? text = some keyword ↔
      keyword ∈ table.keywords ∧ keyword.text <+: text ∧
        ∀ other ∈ table.keywords, other.text <+: text →
          other.text.length ≤ keyword.text.length := by
  constructor
  · intro h
    obtain ⟨hmem, hbegin⟩ := mem_and_prefix_of_longestMatch? h
    exact ⟨hmem, hbegin, fun other hother => length_le_of_longestMatch? h hother⟩
  · rintro ⟨hmem, hbegin, hlongest⟩
    cases hfound : table.longestMatch? text with
    | none => exact (longestMatch?_eq_none_iff.1 hfound keyword hmem hbegin).elim
    | some found =>
        obtain ⟨hfoundMem, hfoundBegin⟩ := mem_and_prefix_of_longestMatch? hfound
        have hlength : found.text.length = keyword.text.length :=
          le_antisymm (hlongest found hfoundMem hfoundBegin)
            (length_le_of_longestMatch? hfound hmem hbegin)
        have htext : found.text = keyword.text :=
          (List.prefix_of_prefix_length_le hfoundBegin hbegin hlength.le).eq_of_length hlength
        rw [List.inj_on_of_nodup_map table.texts_nodup hfoundMem hmem htext]

/-- A search depends on the keywords that the text starts with and on nothing else. -/
theorem longestMatch?_congr {other : Text}
    (h : ∀ keyword ∈ table.keywords, keyword.text <+: text ↔ keyword.text <+: other) :
    table.longestMatch? text = table.longestMatch? other := by
  unfold longestMatch?
  congr 1
  refine List.filter_congr fun keyword hmem => ?_
  rw [Bool.eq_iff_iff, List.isPrefixOf_iff_prefix, List.isPrefixOf_iff_prefix]
  exact h keyword hmem

/-- The keyword that is found in a text is found in every part of it that begins with the
keyword. -/
theorem longestMatch?_of_prefix {part : Text} (h : table.longestMatch? text = some keyword)
    (hpart : part <+: text) (hbegin : keyword.text <+: part) :
    table.longestMatch? part = some keyword := by
  obtain ⟨hmem, -, hlongest⟩ := longestMatch?_eq_some_iff.1 h
  exact longestMatch?_eq_some_iff.2
    ⟨hmem, hbegin, fun other hother hstart => hlongest other hother (hstart.trans hpart)⟩

theorem longestMatch?_eq_none_of_prefix {part : Text} (h : table.longestMatch? text = none)
    (hpart : part <+: text) : table.longestMatch? part = none :=
  longestMatch?_eq_none_iff.2 fun keyword hmem hstart =>
    longestMatch?_eq_none_iff.1 h keyword hmem (hstart.trans hpart)

end Search

end TokenTable
end ColorBasic
