import ColorBasic.Proofs.TargetLists
import ColorBasic.Renumbering
import Mathlib.Data.List.Forall2

/-!
# Renumbering keeps the jumps of a listing

A renumbered line has the references of the old line, at the corresponding places and with the same
text around them.  Every target that a line answers to is spelled with the new number of the last
such line, and all other targets are kept.
-/

namespace ColorBasic

namespace Renumbering

/-- Position `k`, counted from zero, is that of the last line with the given number. -/
def IsLastWith (lines : List Text) (target : Text) (k : Nat) : Prop :=
  (∃ line, lines[k]? = some line ∧ label line = target) ∧
    ∀ (later : Nat) (line : Text), lines[later]? = some line → label line = target → later ≤ k

/-- A target that asks for a line and is not the number of any. -/
def Unresolved (lines : List Text) (target : Text) : Prop :=
  target ≠ [] ∧ ∀ line ∈ lines, label line ≠ target

instance (lines : List Text) (target : Text) : Decidable (Unresolved lines target) :=
  inferInstanceAs (Decidable (_ ∧ _))

section NumberMap

variable {lines : List Text} {line target : Text}

theorem isLastWith_concat_of_eq (h : label line = target) {k : Nat} :
    IsLastWith (lines ++ [line]) target k ↔ k = lines.length := by
  constructor
  · rintro ⟨⟨found, hfound, -⟩, hlater⟩
    have hbound := (List.getElem?_eq_some_iff.1 hfound).1
    have hle := hlater lines.length line (by simp) h
    rw [List.length_append, List.length_singleton] at hbound
    omega
  · rintro rfl
    refine ⟨⟨line, by simp, h⟩, fun later other hother _ => ?_⟩
    have hbound := (List.getElem?_eq_some_iff.1 hother).1
    rw [List.length_append, List.length_singleton] at hbound
    omega

theorem isLastWith_concat_of_ne (h : label line ≠ target) {k : Nat} :
    IsLastWith (lines ++ [line]) target k ↔ IsLastWith lines target k := by
  have hsame : ∀ (position : Nat) (other : Text), label other = target →
      ((lines ++ [line])[position]? = some other ↔ lines[position]? = some other) := by
    intro position other hother
    by_cases hposition : position < lines.length
    · rw [List.getElem?_append_left hposition]
    · rw [List.getElem?_append_right (by omega), List.getElem?_eq_none (Nat.le_of_not_lt hposition)]
      constructor
      · intro hfound
        rw [List.mem_singleton.1 (List.mem_of_getElem? hfound)] at hother
        exact (h hother).elim
      · intro hfound
        simp at hfound
  constructor
  · rintro ⟨⟨found, hfound, hlabel⟩, hlater⟩
    refine ⟨⟨found, (hsame k found hlabel).1 hfound, hlabel⟩, fun later other hother hequal => ?_⟩
    exact hlater later other ((hsame later other hequal).2 hother) hequal
  · rintro ⟨⟨found, hfound, hlabel⟩, hlater⟩
    refine ⟨⟨found, (hsame k found hlabel).2 hfound, hlabel⟩, fun later other hother hequal => ?_⟩
    exact hlater later other ((hsame later other hequal).1 hother) hequal

theorem NumberMap.getElem?_enter (map : NumberMap) (entry : Text × Nat) (target : Text) :
    (map.enter entry)[target]? =
      if label entry.1 = target ∧ target ≠ [] then some (newNumber entry.2) else map[target]? := by
  unfold enter
  by_cases hempty : label entry.1 = []
  · have hnot : ¬(label entry.1 = target ∧ target ≠ []) := fun h => h.2 (h.1.symm.trans hempty)
    rw [if_pos (List.isEmpty_iff.2 hempty), if_neg hnot]
  · rw [if_neg (by simpa using hempty), Std.HashMap.getElem?_insert]
    by_cases hlabel : label entry.1 = target
    · subst hlabel
      simp [hempty]
    · simp [hlabel]

theorem NumberMap.ofLines_concat (lines : List Text) (line : Text) :
    ofLines (lines ++ [line]) = (ofLines lines).enter (line, lines.length) := by
  rw [ofLines, List.zipIdx_append, List.foldl_append]
  simp [ofLines]

/-- The number found for a target is the new number of the last line with this number. -/
theorem NumberMap.getElem?_ofLines (lines : List Text) (target : Text) (n : Nat) :
    (ofLines lines)[target]? = some n ↔
      target ≠ [] ∧ ∃ k, IsLastWith lines target k ∧ n = newNumber k := by
  induction lines using List.reverseRecOn with
  | nil => simp [ofLines, IsLastWith]
  | append_singleton lines line ih =>
      -- The line that is entered last wins over all lines before it.
      rw [ofLines_concat, getElem?_enter]
      by_cases hlabel : label line = target
      · simp only [isLastWith_concat_of_eq hlabel]
        by_cases hempty : target = []
        · subst hempty
          rw [if_neg (by simp), ih]
          simp
        · rw [if_pos ⟨hlabel, hempty⟩]
          simp [hempty, eq_comm]
      · simp only [isLastWith_concat_of_ne hlabel]
        rw [if_neg fun h => hlabel h.1, ih]

/-- No number is found exactly for the unresolved targets and the empty one. -/
theorem NumberMap.getElem?_ofLines_eq_none_iff (lines : List Text) (target : Text) :
    (ofLines lines)[target]? = none ↔ target = [] ∨ Unresolved lines target := by
  induction lines using List.reverseRecOn with
  | nil =>
      by_cases hempty : target = [] <;> simp [ofLines, Unresolved, hempty]
  | append_singleton lines line ih =>
      rw [ofLines_concat, getElem?_enter]
      by_cases hfound : label line = target ∧ target ≠ []
      · rw [if_pos hfound]
        simp [Unresolved, hfound.2, hfound.1]
      · rw [if_neg hfound, ih]
        by_cases hempty : target = []
        · simp [hempty]
        · have hlabel : label line ≠ target := fun h => hfound ⟨h, hempty⟩
          simp [Unresolved, hempty, or_imp, forall_and, hlabel]

end NumberMap

/-- How renumbering spells a target. -/
inductive TargetFollows (lines : List Text) : Text → Text → Prop
  /-- The number of a line becomes the new number of the last line that has it. -/
  | found {target : Text} {k : Nat} (hne : target ≠ []) (hlast : IsLastWith lines target k) :
      TargetFollows lines target (Text.decimal (10 * (k + 1)))
  /-- Any other target is kept. -/
  | kept {target : Text} (h : target = [] ∨ Unresolved lines target) :
      TargetFollows lines target target

/-- References that differ in the spelling of their targets only. -/
structure ReferenceFollows (lines : List Text) (old new : Reference) : Prop where
  word : new.word = old.word
  gap : new.gap = old.gap
  targets : List.Forall₂ (TargetFollows lines) old.targets new.targets
  trailing : new.trailing = old.trailing
  list : new.list = [','].intercalate new.targets ++ new.trailing

/-- Pieces that differ in the spelling of targets only. -/
inductive PieceFollows (lines : List Text) : Piece → Piece → Prop
  | plain (c : Char) : PieceFollows lines (.plain c) (.plain c)
  | jump {old new : Reference} (h : ReferenceFollows lines old new) :
      PieceFollows lines (.jump old) (.jump new)

section Targets

variable (lines : List Text)

theorem targetFollows_renumberTarget (target : Text) :
    TargetFollows lines target (renumberTarget (.ofLines lines) target) := by
  unfold renumberTarget
  cases hfound : (NumberMap.ofLines lines)[target]? with
  | some n =>
      obtain ⟨hne, k, hlast, rfl⟩ := (NumberMap.getElem?_ofLines lines target n).1 hfound
      exact .found hne hlast
  | none => exact .kept ((NumberMap.getElem?_ofLines_eq_none_iff lines target).1 hfound)

theorem isTarget_decimal (n : Nat) : Reference.IsTarget (Text.decimal n) where
  trimmed := {
    head := fun c hc => Text.isBlank_of_mem_decimal (List.mem_of_mem_head? hc)
    last := fun c hc => Text.isBlank_of_mem_decimal (List.mem_of_mem_getLast? hc) }
  no_comma hcomma :=
    Reference.ne_comma_of_isDecimalDigit (Text.isDecimalDigit_of_mem_decimal hcomma) rfl
  inList c hc := by simp [Reference.inList, Text.isDecimalDigit_of_mem_decimal hc]

theorem startsWithDigit_decimal (n : Nat) : Reference.StartsWithDigit (Text.decimal n) := by
  cases hdecimal : Text.decimal n with
  | nil => simp [Text.decimal] at hdecimal
  | cons c rest =>
      have hc : c ∈ Text.decimal n := hdecimal ▸ List.mem_cons_self
      exact ⟨c, rfl, Text.isDecimalDigit_of_mem_decimal hc⟩

/-- What holds of decimal numbers and of a target holds of its new spelling. -/
theorem TargetFollows.keeps {lines : List Text} {P : Text → Prop} {old new : Text}
    (h : TargetFollows lines old new) (hdecimal : ∀ n, P (Text.decimal n)) (hold : P old) :
    P new := by
  cases h with
  | found hne hlast => exact hdecimal _
  | kept hkept => exact hold

theorem renaming_renumberTarget : Reference.Renaming (renumberTarget (.ofLines lines)) where
  isTarget h := (targetFollows_renumberTarget lines _).keeps isTarget_decimal h
  startsWithDigit h := (targetFollows_renumberTarget lines _).keeps startsWithDigit_decimal h

theorem referenceFollows_retarget {reference : Reference} (h : reference.WellFormed) :
    ReferenceFollows lines reference (reference.retarget (renumberTarget (.ofLines lines))) := by
  have hrename := renaming_renumberTarget lines
  refine ⟨rfl, rfl, ?_, hrename.trailing_retarget h, ?_⟩
  · rw [hrename.targets_retarget h, List.forall₂_map_right_iff, List.forall₂_same]
    exact fun target _ => targetFollows_renumberTarget lines target
  · rw [hrename.targets_retarget h, hrename.trailing_retarget h]
    rfl

end Targets

section Pieces

variable {lines : List Text} {old new : List Piece}

theorem forall₂_reference? (h : List.Forall₂ (PieceFollows lines) old new) :
    List.Forall₂ (ReferenceFollows lines) (old.filterMap Piece.reference?)
      (new.filterMap Piece.reference?) := by
  induction h with
  | nil => exact .nil
  | cons hpiece _ ih =>
      cases hpiece with
      | plain c => exact ih
      | jump hreference => exact .cons hreference ih

theorem surroundings_eq (h : List.Forall₂ (PieceFollows lines) old new) :
    Piece.surroundings old = Piece.surroundings new := by
  induction h with
  | nil => rfl
  | cons hpiece _ ih =>
      cases hpiece with
      | plain c => rw [Piece.surroundings, Piece.surroundings, ih]
      | jump hreference => rw [Piece.surroundings, Piece.surroundings, ih]

end Pieces

/-- The number that a line gets; a line without number gets none. -/
def newLabel (line : Text × Nat) : Text :=
  if label line.1 = [] then [] else Text.decimal (10 * (line.2 + 1))

/-- A line of a listing and what renumbering makes of it. -/
structure IsRenumbered (lines : List Text) (line : Text × Nat) (out : Text) : Prop where
  /-- Only the number at the start and the target lists change. -/
  pieces : List.Forall₂ (PieceFollows lines) (Piece.scan (newLabel line ++ body line.1))
    (Piece.scan out)
  /-- The new line is nothing but these pieces. -/
  text : (Piece.scan out).flatMap Piece.text = out
  /-- The new line has the references of the old one, and their targets follow the lines. -/
  references : List.Forall₂ (ReferenceFollows lines) (Reference.all line.1) (Reference.all out)
  /-- The text around the references differs in the number of the line only. -/
  surroundings : ∃ first others,
    Piece.surroundings (Piece.scan line.1) = (label line.1 ++ first) :: others ∧
      Piece.surroundings (Piece.scan out) = (newLabel line ++ first) :: others

section Labels

variable (line : Text × Nat)

theorem label_append_body (line : Text) : label line ++ body line = line :=
  List.takeWhile_append_dropWhile

theorem renumberLabel_eq : renumberLabel line = newLabel line ++ body line.1 := by
  unfold renumberLabel newLabel
  by_cases hempty : label line.1 = []
  · have hbody := label_append_body line.1
    rw [hempty, List.nil_append] at hbody
    rw [if_pos (List.isEmpty_iff.2 hempty), if_pos hempty, List.nil_append, hbody]
  · rw [if_neg (by simpa using hempty), if_neg hempty]
    rfl

theorem isDecimalDigit_of_mem_newLabel {c : Char} (h : c ∈ newLabel line) :
    Text.isDecimalDigit c = true := by
  unfold newLabel at h
  split at h
  · simp at h
  · exact Text.isDecimalDigit_of_mem_decimal h

theorem scan_eq_label :
    Piece.scan line.1 = (label line.1).map .plain ++ Piece.scan (body line.1) := by
  conv_lhs => rw [← label_append_body line.1]
  exact Piece.scan_digits_append (fun c hc => List.mem_takeWhile_imp hc) _

theorem scan_newLabel :
    Piece.scan (newLabel line ++ body line.1) =
      (newLabel line).map .plain ++ Piece.scan (body line.1) :=
  Piece.scan_digits_append (fun _ hc => isDecimalDigit_of_mem_newLabel line hc) _

/-- The number of a line holds no reference. -/
theorem all_newLabel_append :
    Reference.all (newLabel line ++ body line.1) = Reference.all line.1 := by
  have hplain : ∀ chars : Text, (chars.map Piece.plain).filterMap Piece.reference? = [] := by
    intro chars
    rw [List.filterMap_map]
    exact List.filterMap_eq_nil_iff.2 fun _ _ => rfl
  rw [Reference.all, Reference.all, scan_newLabel, scan_eq_label line,
    List.filterMap_append, List.filterMap_append, hplain, hplain]

end Labels

section Lines

variable (lines : List Text) (line : Text × Nat)

theorem renumberTargets_eq (map : NumberMap) (s : Text) :
    renumberTargets map s =
      Piece.respellText (Reference.retarget (renumberTarget map)) s := by
  refine List.flatMap_congr fun piece _ => ?_
  cases piece with
  | plain c => rfl
  | jump reference => exact List.append_assoc _ _ _

/-- A renumbered line has the pieces of the line with its new number, with new targets. -/
theorem scan_renumberLine :
    Piece.scan (renumberLine (.ofLines lines) line) =
      (Piece.scan (newLabel line ++ body line.1)).map
        (Piece.respell (Reference.retarget (renumberTarget (.ofLines lines)))) := by
  rw [renumberLine, renumberTargets_eq,
    Piece.scan_respellText (renaming_renumberTarget lines).respelling, renumberLabel_eq]

theorem isRenumbered_renumberLine :
    IsRenumbered lines line (renumberLine (.ofLines lines) line) := by
  have hscan := scan_renumberLine lines line
  have hpieces : List.Forall₂ (PieceFollows lines) (Piece.scan (newLabel line ++ body line.1))
      (Piece.scan (renumberLine (.ofLines lines) line)) := by
    rw [hscan, List.forall₂_map_right_iff, List.forall₂_same]
    intro piece hpiece
    cases piece with
    | plain c => exact .plain c
    | jump reference =>
        exact .jump (referenceFollows_retarget lines (Piece.wellFormed_of_mem_scan hpiece))
  refine ⟨hpieces, ?_, ?_, ?_⟩
  · rw [hscan, List.flatMap_map, renumberLine, renumberTargets_eq, renumberLabel_eq]
    rfl
  · rw [← all_newLabel_append]
    exact forall₂_reference? hpieces
  · obtain ⟨first, others, hbody⟩ := Piece.exists_cons_surroundings (Piece.scan (body line.1))
    refine ⟨first, others, ?_, ?_⟩
    · rw [scan_eq_label, Piece.surroundings_plain_append hbody]
    · rw [← surroundings_eq hpieces, scan_newLabel, Piece.surroundings_plain_append hbody]

variable {line}

theorem renumberLabel_ne_nil (h : line.1 ≠ []) : renumberLabel line ≠ [] := by
  unfold renumberLabel
  split
  · exact h
  · simp [Text.decimal]

theorem no_feed_renumberLabel (h : ∀ c ∈ line.1, c ≠ '\n') :
    ∀ c ∈ renumberLabel line, c ≠ '\n' := by
  rw [renumberLabel_eq, List.forall_mem_append]
  constructor
  · rintro c hc rfl
    exact absurd (isDecimalDigit_of_mem_newLabel line hc) (by decide)
  · intro c hc
    exact h c ((List.dropWhile_suffix _).subset hc)

theorem endsFilled_renumberLabel (h : line.1.EndsFilled) : (renumberLabel line).EndsFilled := by
  rw [renumberLabel_eq]
  by_cases hbody : body line.1 = []
  · -- The line is a number alone.
    intro c hc
    rw [hbody, List.append_nil] at hc
    have hdigit := isDecimalDigit_of_mem_newLabel line (List.mem_of_mem_getLast? hc)
    exact Text.isBlank_of_isDecimalDigit hdigit
  · rw [← label_append_body line.1, Text.endsFilled_append hbody] at h
    rw [Text.endsFilled_append hbody]
    exact h

/-- Renumbering a line of a listing gives one line. -/
theorem isLine_renumberLine (hne : line.1 ≠ []) (hfeed : '\n' ∉ line.1)
    (hfilled : line.1.EndsFilled) :
    (renumberLine (.ofLines lines) line).IsLine := by
  have hrename := renaming_renumberTarget lines
  have hkeeps : ∀ target : Text, (∀ c ∈ target, c ≠ '\n') →
      ∀ c ∈ renumberTarget (.ofLines lines) target, c ≠ '\n' := by
    intro target htarget
    refine (targetFollows_renumberTarget lines target).keeps (P := fun t => ∀ c ∈ t, c ≠ '\n')
      ?_ htarget
    rintro n c hc rfl
    exact absurd (Text.isDecimalDigit_of_mem_decimal hc) (by decide)
  rw [renumberLine, renumberTargets_eq]
  refine ⟨?_, ?_, ?_⟩
  · exact Piece.respellText_ne_nil hrename.respelling (renumberLabel_ne_nil hne)
  · have hchars : ∀ c ∈ line.1, c ≠ '\n' := fun c hc heq => hfeed (heq ▸ hc)
    intro hmem
    exact Piece.forall_mem_respellText
      (fun reference => Reference.forall_mem_text_retarget (by decide) hkeeps)
      (no_feed_renumberLabel hchars) _ hmem rfl
  · intro hreturn
    exact absurd (hrename.endsFilled_respellText (endsFilled_renumberLabel hfilled) _ hreturn)
      (by decide)

/-- The lines of a renumbered listing are the renumbered lines. -/
theorem lines_renumber (listing : Text) :
    (renumber listing).lines =
      (listingLines listing).zipIdx.map (renumberLine (.ofLines (listingLines listing))) := by
  refine Text.lines_joinLines fun out hout => ?_
  obtain ⟨line, hline, rfl⟩ := List.mem_map.1 hout
  obtain ⟨hmem, hfilled⟩ := List.mem_filter.1 (List.fst_mem_of_mem_zipIdx hline)
  obtain ⟨source, hsource, htrim⟩ := List.mem_map.1 hmem
  refine isLine_renumberLine _ (by simpa using hfilled) ?_ ?_
  · rw [← htrim]
    exact fun hfeed =>
      Text.no_feed_of_mem_lines hsource ((Text.trim_isInfix source).subset hfeed)
  · rw [← htrim]
    exact (Text.trimmed_trim source).last

theorem isDangling_eq (target : Text) :
    isDangling (.ofLines lines) target = decide (Unresolved lines target) := by
  have hnone := NumberMap.getElem?_ofLines_eq_none_iff lines target
  rw [isDangling, Std.HashMap.contains_eq_isSome_getElem?]
  by_cases hempty : target = []
  · simp [hempty, Unresolved]
  · cases hfound : (NumberMap.ofLines lines)[target]? with
    | none => simp [hempty, (hnone.1 hfound).resolve_left hempty]
    | some n =>
        have hresolved : ¬Unresolved lines target := fun h => by
          simp [hnone.2 (.inr h)] at hfound
        simp [hresolved]

end Lines

/-- The reports about a line: its missing number, then its unresolved targets. -/
theorem lineReports_eq (lines : List Text) (line : Text × Nat) :
    lineReports (.ofLines lines) line =
      (if label line.1 = [] then [.missingLineNumber line.1] else []) ++
        (((Reference.all line.1).flatMap Reference.targets).filter
          fun target => Unresolved lines target).map
            (.danglingReference (newLabel line ++ body line.1)) := by
  have hdangling : isDangling (.ofLines lines) = fun target => decide (Unresolved lines target) :=
    funext (isDangling_eq lines)
  simp only [lineReports, hdangling, renumberLabel_eq, all_newLabel_append, List.isEmpty_iff,
    List.filter_flatMap, List.map_flatMap]

/-- Renumbering keeps the jumps of a listing and everything else.  Line by line, the new listing
has the references of the old one with the same text around them, and each target that a line
answers to is spelled with the new number of the last such line.  Lines without number and targets
without line are reported in the order of the text. -/
theorem renumber_keeps_jumps (listing : Text) :
    List.Forall₂ (IsRenumbered (listingLines listing)) (listingLines listing).zipIdx
        (renumber listing).lines ∧
      reports listing =
        (listingLines listing).zipIdx.flatMap fun line =>
          (if label line.1 = [] then [.missingLineNumber line.1] else []) ++
            (((Reference.all line.1).flatMap Reference.targets).filter
              fun target => Unresolved (listingLines listing) target).map
                (.danglingReference (newLabel line ++ body line.1)) := by
  constructor
  · rw [lines_renumber, List.forall₂_map_right_iff, List.forall₂_same]
    exact fun line _ => isRenumbered_renumberLine _ line
  · exact List.flatMap_congr fun line _ => lineReports_eq _ line

example : renumber "5 GOTO 7 ,\n7 IFA THEN5, 9 ELSE X".toList =
    "10 GOTO 20,\n20 IFA THEN10,9 ELSE X".toList := by cbv

end Renumbering
end ColorBasic
