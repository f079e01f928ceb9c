import ColorBasic.Proofs.ListingText
import ColorBasic.Proofs.ReferenceScan

/-!
# Target lists with new spellings

The targets of a reference are spelled anew and joined by commas, and the blanks that end the list
are kept.  The result is a reference whose targets are the new spellings, one for each of the old
ones.
-/

namespace ColorBasic

namespace Text

theorem trimEnd_append_of_blank (s : Text) {blanks : Text}
    (h : ∀ c ∈ blanks, isBlank c = true) : trimEnd (s ++ blanks) = trimEnd s := by
  rw [trimEnd, List.reverse_append,
    List.dropWhile_append_of_pos fun c hc => h c (List.mem_reverse.1 hc)]
  rfl

/-- A character that is not blank stays at the start of a text when the end is trimmed. -/
theorem trimEnd_cons {c : Char} (h : isBlank c = false) (s : Text) :
    trimEnd (c :: s) = c :: trimEnd s := by
  rw [trimEnd, trimEnd, List.reverse_cons, List.dropWhile_append]
  split
  · rename_i hempty
    rw [List.isEmpty_iff.1 hempty]
    simp [h]
  · rw [List.reverse_append]
    rfl

/-- Joined texts end without a blank if each of them does. -/
theorem endsFilled_intercalate {separator : Char} (hseparator : isBlank separator = false)
    {texts : List Text} (h : ∀ text ∈ texts, text.EndsFilled) :
    EndsFilled ([separator].intercalate texts) := by
  induction texts with
  | nil => simp [EndsFilled]
  | cons first rest ih =>
      cases rest with
      | nil =>
          rw [List.intercalate_singleton]
          exact h first List.mem_cons_self
      | cons second rest =>
          rw [List.intercalate_cons_cons]
          by_cases hlast : [separator].intercalate (second :: rest) = []
          · -- The last text is empty, so the separator before it ends the whole.
            rw [hlast, List.append_nil, endsFilled_append (List.cons_ne_nil _ _)]
            intro c hc
            exact Option.some.inj hc ▸ hseparator
          · rw [endsFilled_append hlast]
            exact ih fun text htext => h text (List.mem_cons_of_mem _ htext)

theorem mem_intercalate {separator c : Char} {texts : List Text}
    (h : c ∈ [separator].intercalate texts) : c = separator ∨ ∃ text ∈ texts, c ∈ text := by
  induction texts with
  | nil => simp at h
  | cons first rest ih =>
      cases rest with
      | nil =>
          rw [List.intercalate_singleton] at h
          exact .inr ⟨first, List.mem_cons_self, h⟩
      | cons second rest =>
          rw [List.intercalate_cons_cons, List.mem_append, List.mem_append,
            List.mem_singleton] at h
          rcases h with (h | h) | h
          · exact .inr ⟨first, List.mem_cons_self, h⟩
          · exact .inl h
          · rcases ih h with h | ⟨text, htext, h⟩
            · exact .inl h
            · exact .inr ⟨text, List.mem_cons_of_mem _ htext, h⟩

end Text

namespace Reference

/-- A text that can be an entry of a target list. -/
structure IsTarget (target : Text) : Prop where
  trimmed : target.Trimmed
  no_comma : ',' ∉ target
  inList : ∀ c ∈ target, inList c = true

/-- A text that begins with a decimal digit. -/
def StartsWithDigit (s : Text) : Prop := ∃ c, s.head? = some c ∧ Text.isDecimalDigit c = true

theorem ne_comma_of_isDecimalDigit {c : Char} (h : Text.isDecimalDigit c = true) : c ≠ ',' := by
  rintro rfl
  exact absurd h (by decide)

theorem core_append_trailing (reference : Reference) :
    reference.core ++ reference.trailing = reference.list :=
  List.prefix_iff_eq_append.1 (Text.trimEnd_isPrefix reference.list)

theorem isBlank_of_mem_trailing {reference : Reference} {c : Char}
    (h : c ∈ reference.trailing) : Text.isBlank c = true := by
  have hparts : reference.core ++ reference.list.rtakeWhile Text.isBlank = reference.list :=
    List.rdropWhile_append_rtakeWhile
  rw [← reference.core_append_trailing] at hparts
  rw [← List.append_cancel_left hparts] at h
  exact List.mem_rtakeWhile_imp h

theorem isTarget_of_mem_targets {reference : Reference} (h : reference.WellFormed) {target : Text}
    (htarget : target ∈ reference.targets) : IsTarget target := by
  obtain ⟨entry, hentry, rfl⟩ := List.mem_map.1 htarget
  have hpart : entry.trim <:+: entry := Text.trim_isInfix entry
  refine ⟨Text.trimmed_trim entry, fun hcomma => ?_, fun c hc => h.list c ?_⟩
  · exact Text.not_mem_of_mem_splitOn hentry (hpart.subset hcomma)
  · have hcore := (Text.infix_of_mem_splitOn hentry).subset (hpart.subset hc)
    exact (Text.trimEnd_isPrefix reference.list).subset hcore

/-- The first target begins with the digit that the list begins with. -/
theorem WellFormed.exists_first_target {reference : Reference} (h : reference.WellFormed) :
    ∃ first others, reference.targets = first :: others ∧ StartsWithDigit first := by
  obtain ⟨digit, hhead, hdigit⟩ := h.digit
  obtain ⟨rest, hlist⟩ := List.head?_eq_some_iff.1 hhead
  have hblank := Text.isBlank_of_isDecimalDigit hdigit
  have hcomma := ne_comma_of_isDecimalDigit hdigit
  have hcore : reference.core = digit :: Text.trimEnd rest := by
    rw [core, hlist, Text.trimEnd_cons hblank]
  have hsplit : ∃ entry entries, Text.splitOn ',' reference.core = (digit :: entry) :: entries := by
    rw [hcore]
    show ∃ entry entries, (if digit = ',' then [] :: Text.splitOn ',' (Text.trimEnd rest)
      else Text.consFirst digit (Text.splitOn ',' (Text.trimEnd rest))) =
        (digit :: entry) :: entries
    rw [if_neg hcomma]
    cases Text.splitOn ',' (Text.trimEnd rest) with
    | nil => exact ⟨_, _, rfl⟩
    | cons entry entries => exact ⟨entry, entries, rfl⟩
  obtain ⟨entry, entries, hsplit⟩ := hsplit
  refine ⟨Text.trim (digit :: entry), entries.map Text.trim, by rw [targets, hsplit]; rfl,
    digit, ?_, hdigit⟩
  have hstart : Text.trimStart (digit :: entry) = digit :: entry := by simp [Text.trimStart, hblank]
  rw [Text.trim, hstart, Text.trimEnd_cons hblank]
  rfl

/-- A way to spell targets that keeps them targets, and keeps a digit at their start. -/
structure Renaming (rename : Text → Text) : Prop where
  isTarget : ∀ {target}, IsTarget target → IsTarget (rename target)
  startsWithDigit : ∀ {target}, StartsWithDigit target → StartsWithDigit (rename target)

/-- A reference with its targets spelled anew. -/
def retarget (rename : Text → Text) (reference : Reference) : Reference :=
  { reference with
    list := [','].intercalate (reference.targets.map rename) ++ reference.trailing }

section Retarget

variable {rename : Text → Text} {reference : Reference}

theorem Renaming.isTarget_of_mem (hrename : Renaming rename) (h : reference.WellFormed)
    {target : Text} (htarget : target ∈ reference.targets.map rename) : IsTarget target := by
  obtain ⟨old, hold, rfl⟩ := List.mem_map.1 htarget
  exact hrename.isTarget (isTarget_of_mem_targets h hold)

theorem Renaming.core_retarget (hrename : Renaming rename) (h : reference.WellFormed) :
    (reference.retarget rename).core = [','].intercalate (reference.targets.map rename) := by
  rw [core, retarget, Text.trimEnd_append_of_blank _ fun c hc => isBlank_of_mem_trailing hc]
  apply Text.trimEnd_eq_self
  apply Text.endsFilled_intercalate (by decide)
  exact fun target htarget => (hrename.isTarget_of_mem h htarget).trimmed.last

/-- The blanks that end a target list are kept. -/
theorem Renaming.trailing_retarget (hrename : Renaming rename) (h : reference.WellFormed) :
    (reference.retarget rename).trailing = reference.trailing := by
  rw [trailing, hrename.core_retarget h, retarget]
  exact List.drop_left

/-- The targets are spelled anew one by one. -/
theorem Renaming.targets_retarget (hrename : Renaming rename) (h : reference.WellFormed) :
    (reference.retarget rename).targets = reference.targets.map rename := by
  have hcommas : ∀ target ∈ reference.targets.map rename, ',' ∉ target := fun target htarget =>
    (hrename.isTarget_of_mem h htarget).no_comma
  have hne : reference.targets.map rename ≠ [] := by
    obtain ⟨first, others, htargets, -⟩ := h.exists_first_target
    simp [htargets]
  have htrimmed : ∀ target ∈ reference.targets.map rename, target.trim = id target :=
    fun target htarget => Text.trim_eq_self (hrename.isTarget_of_mem h htarget).trimmed
  rw [targets, hrename.core_retarget h, Text.splitOn_eq_list_splitOn,
    List.splitOn_intercalate ',' hcommas hne, List.map_congr_left htrimmed, List.map_id]

theorem Renaming.wellFormed_retarget (hrename : Renaming rename) (h : reference.WellFormed) :
    (reference.retarget rename).WellFormed := by
  refine ⟨h.word, h.gap, ?_, fun c hc => ?_⟩
  · obtain ⟨first, others, htargets, hfirst⟩ := h.exists_first_target
    obtain ⟨digit, hhead, hdigit⟩ := hrename.startsWithDigit hfirst
    refine ⟨digit, ?_, hdigit⟩
    obtain ⟨rest, hrest⟩ := List.head?_eq_some_iff.1 hhead
    rw [retarget, htargets, List.map_cons, hrest]
    cases others <;> simp
  · rcases List.mem_append.1 hc with hc | hc
    · rcases Text.mem_intercalate hc with rfl | ⟨target, htarget, hc⟩
      · decide
      · exact (hrename.isTarget_of_mem h htarget).inList c hc
    · simp [inList, isBlank_of_mem_trailing hc]

/-- Spelling targets anew touches the target lists only. -/
theorem Renaming.respelling (hrename : Renaming rename) : Respelling (retarget rename) where
  wellFormed := hrename.wellFormed_retarget
  word _ := rfl
  gap _ := rfl

/-- What holds of commas and of the characters of a reference holds after spelling it anew, if the
new spellings keep it. -/
theorem forall_mem_text_retarget {P : Char → Prop} (hcomma : P ',')
    (hrename : ∀ target : Text, (∀ c ∈ target, P c) → ∀ c ∈ rename target, P c)
    (h : ∀ c ∈ reference.text, P c) : ∀ c ∈ (reference.retarget rename).text, P c := by
  rw [text, List.forall_mem_append] at h ⊢
  obtain ⟨hstem, hlist⟩ := h
  rw [← reference.core_append_trailing, List.forall_mem_append] at hlist
  obtain ⟨hcore, htrailing⟩ := hlist
  refine ⟨hstem, fun c hc => ?_⟩
  rcases List.mem_append.1 hc with hc | hc
  · rcases Text.mem_intercalate hc with rfl | ⟨target, htarget, hc⟩
    · exact hcomma
    · obtain ⟨old, hold, rfl⟩ := List.mem_map.1 htarget
      obtain ⟨entry, hentry, rfl⟩ := List.mem_map.1 hold
      have hpart := (Text.trim_isInfix entry).trans (Text.infix_of_mem_splitOn hentry)
      exact hrename _ (fun d hd => hcore d (hpart.subset hd)) c hc
  · exact htrailing c hc

/-- A reference ends as its list does. -/
theorem WellFormed.endsFilled_text (h : reference.WellFormed) :
    reference.text.EndsFilled ↔ reference.list.EndsFilled := by
  obtain ⟨digit, hhead, -⟩ := h.digit
  obtain ⟨rest, hlist⟩ := List.head?_eq_some_iff.1 hhead
  exact Text.endsFilled_append (hlist ▸ List.cons_ne_nil digit rest)

/-- A reference that ends without a blank does so with other targets. -/
theorem Renaming.endsFilled_retarget (hrename : Renaming rename) (h : reference.WellFormed)
    (hfilled : reference.text.EndsFilled) : (reference.retarget rename).text.EndsFilled := by
  rw [(hrename.wellFormed_retarget h).endsFilled_text]
  -- The old list ends without a blank, so it keeps no blanks for the new one.
  have htrailing : reference.trailing = [] := by
    rw [trailing, core, Text.trimEnd_eq_self (h.endsFilled_text.1 hfilled), List.drop_length]
  have hcore : (reference.retarget rename).core = (reference.retarget rename).list := by
    rw [hrename.core_retarget h, retarget, htrailing, List.append_nil]
  rw [← hcore]
  exact Text.endsFilled_trimEnd _

theorem Renaming.endsFilled_respellText (hrename : Renaming rename) {s : Text}
    (h : s.EndsFilled) : (Piece.respellText (retarget rename) s).EndsFilled := by
  -- Something follows a piece after the change if it did before, so the last piece decides.
  have hstep {old new rest : Text} (hsame : old.EndsFilled → new.EndsFilled)
      (ih : rest.EndsFilled → (Piece.respellText (retarget rename) rest).EndsFilled)
      (hwhole : (old ++ rest).EndsFilled) :
      (new ++ Piece.respellText (retarget rename) rest).EndsFilled := by
    by_cases hrest : rest = []
    · rw [hrest, List.append_nil] at hwhole
      rw [hrest, Piece.respellText_nil, List.append_nil]
      exact hsame hwhole
    · rw [Text.endsFilled_append hrest] at hwhole
      rw [Text.endsFilled_append (Piece.respellText_ne_nil hrename.respelling hrest)]
      exact ih hwhole
  induction s using Piece.scan_induction with
  | nil =>
      rw [Piece.respellText_nil]
      exact h
  | plain c rest hmatch ih =>
      rw [Piece.respellText_of_no_match hmatch]
      exact hstep (fun hfilled : Text.EndsFilled [c] => hfilled) ih h
  | jump reference rest hreference hstops ih =>
      rw [Piece.respellText_of_reference hreference hstops]
      exact hstep (hrename.endsFilled_retarget hreference) ih h

end Retarget

end Reference
end ColorBasic
