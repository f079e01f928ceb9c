import ColorBasic.Reference
import Mathlib.Data.List.TakeWhile

/-!
# Scanning for references

A text starts with a reference exactly if it is the text of a well-formed one, followed by something
that cannot extend the target list.  Whether a reference starts somewhere depends only on the text
up to the next digit, so a scan of a text with other target lists finds the same references.
-/

namespace ColorBasic

namespace Text

/-- No decimal digit of any script is blank. -/
theorem isBlank_of_isDecimalDigit {c : Char} (h : isDecimalDigit c = true) : isBlank c = false := by
  have hapart : ∀ digits ∈ decimalDigitRanges, ∀ blanks ∈ blankRanges,
      digits.2 < blanks.1 ∨ blanks.2 < digits.1 := by decide
  obtain ⟨digits, hdigits, hin⟩ := List.any_eq_true.1 h
  refine List.any_eq_false.2 fun blanks hblanks hblank => ?_
  simp only [Bool.and_eq_true, decide_eq_true_eq] at hin hblank
  have hdisjoint := hapart digits hdigits blanks hblanks
  omega

/-- A run ends where its characters do. -/
theorem span_append {p : Char → Bool} {run rest : Text} (hrun : ∀ c ∈ run, p c = true)
    (hrest : ∀ c, rest.head? = some c → p c = false) :
    (run ++ rest).takeWhile p = run ∧ (run ++ rest).dropWhile p = rest := by
  rw [List.takeWhile_append_of_pos hrun, List.dropWhile_append_of_pos hrun]
  cases rest with
  | nil => simp
  | cons c rest => simp [hrest c rfl]

end Text

namespace Reference

/-- A jump word, blanks, and a list that begins with a digit. -/
structure WellFormed (reference : Reference) : Prop where
  word : reference.word ∈ words
  gap : ∀ c ∈ reference.gap, Text.isBlank c = true
  digit : ∃ c, reference.list.head? = some c ∧ Text.isDecimalDigit c = true
  list : ∀ c ∈ reference.list, inList c = true

/-- A text that cannot extend a target list. -/
def Stops (rest : Text) : Prop := ∀ c, rest.head? = some c → inList c = false

theorem isDecimalDigit_of_mem_word {word : Text} (h : word ∈ words) {c : Char} (hc : c ∈ word) :
    Text.isDecimalDigit c = false := by
  have hletters : ∀ word ∈ words, word.all (!Text.isDecimalDigit ·) = true := by decide
  simpa using List.all_eq_true.1 (hletters word h) c hc

theorem exists_cons_of_mem_words {word : Text} (h : word ∈ words) :
    ∃ c rest, word = c :: rest ∧ inList c = false := by
  have hheads : ∀ word ∈ words, word.head?.any (fun c => !inList c) = true := by decide
  have hhead := hheads word h
  cases word with
  | nil => simp at hhead
  | cons c rest => exact ⟨c, rest, rfl, by simpa using hhead⟩

/-- No jump word begins another one. -/
theorem find_words {word : Text} (h : word ∈ words) (rest : Text) :
    words.find? (·.isPrefixOf (word ++ rest)) = some word := by
  simp only [words, List.mem_cons, List.not_mem_nil, or_false] at h
  rcases h with rfl | rfl | rfl | rfl <;> rfl

theorem WellFormed.exists_cons {reference : Reference} (h : reference.WellFormed) :
    ∃ c rest, reference.text = c :: rest ∧ inList c = false := by
  obtain ⟨c, rest, hword, hc⟩ := exists_cons_of_mem_words h.word
  exact ⟨c, _, by rw [text, hword, List.cons_append, List.cons_append], hc⟩

/-- The gap of a reference ends where its list begins. -/
theorem WellFormed.gap_stops {reference : Reference} (h : reference.WellFormed) (rest : Text) :
    ∀ c, (reference.list ++ rest).head? = some c → Text.isBlank c = false := by
  obtain ⟨digit, hhead, hdigit⟩ := h.digit
  intro c hc
  rw [List.head?_append, hhead] at hc
  exact Option.some.inj hc ▸ Text.isBlank_of_isDecimalDigit hdigit

theorem match?_of_wellFormed {reference : Reference} (h : reference.WellFormed) {rest : Text}
    (hrest : Stops rest) : match? (reference.text ++ rest) = some reference := by
  obtain ⟨hgap, htargets⟩ := Text.span_append h.gap (h.gap_stops rest)
  obtain ⟨hlist, -⟩ := Text.span_append h.list hrest
  obtain ⟨digit, hhead, hdigit⟩ := h.digit
  have hsome : (reference.list ++ rest).head?.any Text.isDecimalDigit = true := by
    rw [List.head?_append, hhead]
    exact hdigit
  rw [match?, text, List.append_assoc, List.append_assoc, find_words h.word]
  simp only [List.drop_left, hgap, htargets, hlist, hsome, if_true]

/-- A list is taken as far as it goes from a digit on. -/
theorem wellFormed_of_digit {word gap targets : Text} (hword : word ∈ words)
    (hgap : ∀ c ∈ gap, Text.isBlank c = true) {digit : Char} (hhead : targets.head? = some digit)
    (hdigit : Text.isDecimalDigit digit = true) :
    WellFormed ⟨word, gap, targets.takeWhile inList⟩ ∧ Stops (targets.dropWhile inList) := by
  constructor
  · refine ⟨hword, hgap, ⟨digit, ?_, hdigit⟩, fun c hc => List.mem_takeWhile_imp hc⟩
    obtain ⟨rest, rfl⟩ := List.head?_eq_some_iff.1 hhead
    simp [inList, hdigit]
  · intro c hc
    have hnot := List.head?_dropWhile_not inList targets
    rw [hc] at hnot
    simpa using hnot

theorem wellFormed_of_match? {s : Text} {reference : Reference} (h : match? s = some reference) :
    reference.WellFormed ∧ ∃ rest, s = reference.text ++ rest ∧ Stops rest := by
  unfold match? at h
  split at h
  · simp at h
  · rename_i word hword
    have hmem := List.mem_of_find?_eq_some hword
    have hbegin : word.isPrefixOf s = true := by simpa using List.find?_some hword
    obtain ⟨after, rfl⟩ := List.isPrefixOf_iff_prefix.1 hbegin
    rw [List.drop_left] at h
    dsimp only at h
    split at h
    · rename_i hdigit
      obtain rfl := Option.some.inj h
      obtain ⟨digit, hhead, hdigit⟩ := (Option.any_eq_true _ _).1 hdigit
      obtain ⟨hformed, hstops⟩ := wellFormed_of_digit hmem
        (fun c hc => List.mem_takeWhile_imp hc) hhead hdigit
      refine ⟨hformed, _, ?_, hstops⟩
      simp only [text, List.append_assoc, List.takeWhile_append_dropWhile]
    · simp at h

/-- A text starts with a reference exactly if it is the text of a well-formed one and of something
that stops its list. -/
theorem match?_eq_some_iff {s : Text} {reference : Reference} :
    match? s = some reference ↔
      reference.WellFormed ∧ ∃ rest, s = reference.text ++ rest ∧ Stops rest := by
  constructor
  · exact wellFormed_of_match?
  · rintro ⟨h, rest, rfl, hrest⟩
    exact match?_of_wellFormed h hrest

/-- No reference starts with a character that target lists are made of. -/
theorem match?_cons_of_inList {c : Char} (h : inList c = true) (rest : Text) :
    match? (c :: rest) = none := by
  cases hmatch : match? (c :: rest) with
  | none => rfl
  | some reference =>
      obtain ⟨hformed, tail, htext, -⟩ := match?_eq_some_iff.1 hmatch
      obtain ⟨first, others, hcons, hfirst⟩ := hformed.exists_cons
      rw [hcons, List.cons_append] at htext
      rw [← (List.cons.inj htext).1, h] at hfirst
      exact absurd hfirst (by decide)

/-- What decides whether a reference starts a text: all before the next digit, and whether there is
a digit at all. -/
def stem (s : Text) : Text × Bool :=
  (s.takeWhile fun c => !Text.isDecimalDigit c, s.any Text.isDecimalDigit)

theorem stem_cons_congr {s t : Text} (h : stem s = stem t) (c : Char) :
    stem (c :: s) = stem (c :: t) := by
  obtain ⟨htake, hany⟩ := Prod.mk.inj h
  simp only [stem, List.takeWhile_cons, List.any_cons, htake, hany]

/-- The stem of a reference is its word and its gap, whatever its list is. -/
theorem WellFormed.stem_text {reference : Reference} (h : reference.WellFormed) (rest : Text) :
    stem (reference.text ++ rest) = (reference.word ++ reference.gap, true) := by
  obtain ⟨digit, hhead, hdigit⟩ := h.digit
  obtain ⟨targets, htargets⟩ := List.head?_eq_some_iff.1 hhead
  have hplain : ∀ c ∈ reference.word ++ reference.gap, (!Text.isDecimalDigit c) = true := by
    intro c hc
    rcases List.mem_append.1 hc with hc | hc
    · rw [isDecimalDigit_of_mem_word h.word hc]
      rfl
    · by_contra hdigit
      have hblank := Text.isBlank_of_isDecimalDigit (by simpa using hdigit)
      rw [h.gap c hc] at hblank
      exact absurd hblank (by decide)
  have hstop : ∀ c, (reference.list ++ rest).head? = some c → (!Text.isDecimalDigit c) = false := by
    intro c hc
    rw [List.head?_append, hhead] at hc
    rw [← Option.some.inj hc, hdigit]
    rfl
  rw [stem, text, List.append_assoc, (Text.span_append hplain hstop).1, htargets]
  simp [hdigit]

theorem isSome_match?_iff {s : Text} :
    (match? s).isSome = true ↔
      ∃ word ∈ words, ∃ gap : Text,
        (∀ c ∈ gap, Text.isBlank c = true) ∧ stem s = (word ++ gap, true) := by
  rw [Option.isSome_iff_exists]
  constructor
  · rintro ⟨reference, hmatch⟩
    obtain ⟨h, rest, rfl, -⟩ := match?_eq_some_iff.1 hmatch
    exact ⟨_, h.word, _, h.gap, h.stem_text rest⟩
  · rintro ⟨word, hword, gap, hgap, hstem⟩
    obtain ⟨htake, hany⟩ := Prod.mk.inj hstem
    have hs := List.takeWhile_append_dropWhile (p := fun c => !Text.isDecimalDigit c) (l := s)
    have hhead := List.head?_dropWhile_not (fun c => !Text.isDecimalDigit c) s
    rw [htake] at hs
    cases hdrop : s.dropWhile fun c => !Text.isDecimalDigit c with
    | nil =>
        -- Without a digit the stem would be all of the text.
        obtain ⟨c, hc, hdigit⟩ := List.any_eq_true.1 hany
        have hnone := List.dropWhile_eq_nil_iff.1 hdrop c hc
        rw [hdigit] at hnone
        exact absurd hnone (by decide)
    | cons digit rest =>
        have hdigit : Text.isDecimalDigit digit = true := by simpa [hdrop] using hhead
        have hstart : (digit :: rest).head? = some digit := rfl
        obtain ⟨hformed, hstops⟩ := wellFormed_of_digit hword hgap hstart hdigit
        refine ⟨_, match?_eq_some_iff.2 ⟨hformed, _, ?_, hstops⟩⟩
        rw [text, List.append_assoc, List.takeWhile_append_dropWhile, ← hdrop, hs]

theorem match?_eq_none_congr {s t : Text} (h : stem s = stem t) (hs : match? s = none) :
    match? t = none := by
  rw [← Option.not_isSome_iff_eq_none, isSome_match?_iff, ← h, ← isSome_match?_iff, hs]
  simp

/-- A change of references that touches their target lists only. -/
structure Respelling (f : Reference → Reference) : Prop where
  wellFormed : ∀ {reference}, WellFormed reference → (f reference).WellFormed
  word : ∀ reference, (f reference).word = reference.word
  gap : ∀ reference, (f reference).gap = reference.gap

end Reference

namespace Piece

open Reference (Stops Respelling)

/-- The source text of a piece. -/
def text : Piece → Text
  | plain c => [c]
  | jump reference => reference.text

@[simp] theorem scan_nil : scan [] = [] := by
  rw [scan]

theorem scan_of_no_match {c : Char} {rest : Text} (h : Reference.match? (c :: rest) = none) :
    scan (c :: rest) = plain c :: scan rest := by
  rw [scan, h]

theorem scan_of_reference {reference : Reference} (h : reference.WellFormed) {rest : Text}
    (hrest : Stops rest) : scan (reference.text ++ rest) = jump reference :: scan rest := by
  have hmatch := Reference.match?_of_wellFormed h hrest
  obtain ⟨c, tail, htext, -⟩ := h.exists_cons
  rw [htext, List.cons_append] at hmatch ⊢
  rw [scan, hmatch]
  simp [htext]

/-- Induction over a text as it is scanned. -/
theorem scan_induction {motive : Text → Prop} (nil : motive [])
    (plain : ∀ c rest, Reference.match? (c :: rest) = none → motive rest → motive (c :: rest))
    (jump : ∀ (reference : Reference) (rest : Text), reference.WellFormed → Stops rest →
      motive rest → motive (reference.text ++ rest))
    (s : Text) : motive s := by
  induction hlength : s.length using Nat.strongRecOn generalizing s with
  | ind length ih =>
      subst hlength
      cases s with
      | nil => exact nil
      | cons c rest =>
          cases hmatch : Reference.match? (c :: rest) with
          | none => exact plain c rest hmatch (ih _ (by simp) rest rfl)
          | some reference =>
              obtain ⟨h, tail, htext, hstops⟩ := Reference.match?_eq_some_iff.1 hmatch
              obtain ⟨first, others, hcons, -⟩ := h.exists_cons
              rw [htext]
              refine jump reference tail h hstops (ih _ ?_ tail rfl)
              rw [htext, hcons, List.length_append, List.length_cons]
              omega

theorem wellFormed_of_mem_scan {s : Text} {reference : Reference}
    (h : jump reference ∈ scan s) : reference.WellFormed := by
  induction s using scan_induction with
  | nil => simp at h
  | plain c rest hmatch ih =>
      rw [scan_of_no_match hmatch, List.mem_cons] at h
      exact h.elim (by simp) ih
  | jump found rest hfound hrest ih =>
      rw [scan_of_reference hfound hrest, List.mem_cons] at h
      rcases h with h | h
      · exact jump.inj h ▸ hfound
      · exact ih h

/-- A piece with its reference changed. -/
def respell (f : Reference → Reference) : Piece → Piece
  | plain c => plain c
  | jump reference => jump (f reference)

/-- A text with its references changed. -/
def respellText (f : Reference → Reference) (s : Text) : Text :=
  (scan s).flatMap fun piece => (piece.respell f).text

section Respelling

variable {f : Reference → Reference}

@[simp] theorem respellText_nil : respellText f [] = [] := by
  rw [respellText, scan_nil, List.flatMap_nil]

theorem respellText_of_no_match {c : Char} {rest : Text}
    (h : Reference.match? (c :: rest) = none) :
    respellText f (c :: rest) = c :: respellText f rest := by
  rw [respellText, scan_of_no_match h]
  rfl

theorem respellText_of_reference {reference : Reference} (h : reference.WellFormed) {rest : Text}
    (hrest : Stops rest) :
    respellText f (reference.text ++ rest) = (f reference).text ++ respellText f rest := by
  rw [respellText, scan_of_reference h hrest]
  rfl

theorem stem_respellText (hf : Respelling f) (s : Text) :
    Reference.stem (respellText f s) = Reference.stem s := by
  induction s using scan_induction with
  | nil => rw [respellText_nil]
  | plain c rest hmatch ih =>
      rw [respellText_of_no_match hmatch]
      exact Reference.stem_cons_congr ih c
  | jump reference rest h hrest ih =>
      rw [respellText_of_reference h hrest, (hf.wellFormed h).stem_text, h.stem_text, hf.word,
        hf.gap]

/-- What cannot extend a target list still cannot when its references are changed. -/
theorem stops_respellText (hf : Respelling f) {s : Text} (h : Stops s) :
    Stops (respellText f s) := by
  induction s using scan_induction with
  | nil =>
      rw [respellText_nil]
      exact h
  | plain c rest hmatch ih =>
      rw [respellText_of_no_match hmatch]
      exact h
  | jump reference rest hreference hrest ih =>
      rw [respellText_of_reference hreference hrest]
      obtain ⟨first, others, htext, hfirst⟩ := (hf.wellFormed hreference).exists_cons
      rw [htext]
      intro c hc
      exact Option.some.inj hc ▸ hfirst

theorem respellText_ne_nil (hf : Respelling f) {s : Text} (h : s ≠ []) : respellText f s ≠ [] := by
  induction s using scan_induction with
  | nil => exact (h rfl).elim
  | plain c rest hmatch ih =>
      rw [respellText_of_no_match hmatch]
      exact List.cons_ne_nil _ _
  | jump reference rest hreference hrest ih =>
      rw [respellText_of_reference hreference hrest]
      obtain ⟨first, others, htext, -⟩ := (hf.wellFormed hreference).exists_cons
      simp [htext]

/-- What holds of the characters of a text holds after a change that keeps it for references. -/
theorem forall_mem_respellText {P : Char → Prop}
    (hf : ∀ reference : Reference, (∀ c ∈ reference.text, P c) → ∀ c ∈ (f reference).text, P c)
    {s : Text} (h : ∀ c ∈ s, P c) : ∀ c ∈ respellText f s, P c := by
  induction s using scan_induction with
  | nil => simp
  | plain c rest hmatch ih =>
      rw [respellText_of_no_match hmatch]
      rw [List.forall_mem_cons] at h ⊢
      exact ⟨h.1, ih h.2⟩
  | jump reference rest hreference hrest ih =>
      rw [respellText_of_reference hreference hrest]
      rw [List.forall_mem_append] at h ⊢
      exact ⟨hf reference h.1, ih h.2⟩

/-- Scanning finds the changed references at the places of the old ones and no others. -/
theorem scan_respellText (hf : Respelling f) (s : Text) :
    scan (respellText f s) = (scan s).map (respell f) := by
  induction s using scan_induction with
  | nil => rw [respellText_nil, scan_nil, List.map_nil]
  | plain c rest hmatch ih =>
      -- The stem is the same, so no reference starts here after the change either.
      have hstem := Reference.stem_cons_congr (stem_respellText hf rest) c
      have hnone := Reference.match?_eq_none_congr hstem.symm hmatch
      rw [respellText_of_no_match hmatch, scan_of_no_match hnone, scan_of_no_match hmatch, ih]
      rfl
  | jump reference rest h hrest ih =>
      -- The changed list is not extended by what follows, which begins as before.
      have hstops := stops_respellText hf hrest
      rw [respellText_of_reference h hrest, scan_of_reference (hf.wellFormed h) hstops,
        scan_of_reference h hrest, ih]
      rfl

end Respelling

/-- The texts before, between and after the references among pieces. -/
def surroundings : List Piece → List Text
  | [] => [[]]
  | plain c :: pieces => Text.consFirst c (surroundings pieces)
  | jump _ :: pieces => [] :: surroundings pieces

theorem exists_cons_surroundings (pieces : List Piece) :
    ∃ first others, surroundings pieces = first :: others := by
  cases pieces with
  | nil => exact ⟨_, _, rfl⟩
  | cons piece pieces =>
      cases piece with
      | jump reference => exact ⟨_, _, rfl⟩
      | plain c =>
          rw [surroundings]
          cases surroundings pieces with
          | nil => exact ⟨_, _, rfl⟩
          | cons first others => exact ⟨_, _, rfl⟩

theorem surroundings_plain_append {pieces : List Piece} {first : Text} {others : List Text}
    (h : surroundings pieces = first :: others) (chars : Text) :
    surroundings (chars.map plain ++ pieces) = (chars ++ first) :: others := by
  induction chars with
  | nil => exact h
  | cons c chars ih =>
      rw [List.map_cons, List.cons_append, surroundings, ih]
      rfl

/-- No reference starts inside a run of digits that starts a text. -/
theorem scan_digits_append {digits : Text} (h : ∀ c ∈ digits, Text.isDecimalDigit c = true)
    (rest : Text) : scan (digits ++ rest) = digits.map plain ++ scan rest := by
  induction digits with
  | nil => rfl
  | cons digit digits ih =>
      have hlist : Reference.inList digit = true := by
        simp [Reference.inList, h digit List.mem_cons_self]
      rw [List.cons_append, scan_of_no_match (Reference.match?_cons_of_inList hlist _),
        ih fun c hc => h c (List.mem_cons_of_mem _ hc)]
      rfl

end Piece
end ColorBasic
