import ColorBasic.Proofs.JumpStructure

/-!
# Renumbered listings are settled

In a settled listing every line that has a number has the one of its place.  A target then names
either no line or the line that it would get, so renumbering finds nothing to change.  Renumbering
settles every listing at once, whatever its numbers, targets and blanks were.
-/

namespace ColorBasic

namespace Piece

variable {f : Reference → Reference}

/-- A text begins as before when its references are changed. -/
theorem head?_respellText (hf : Reference.Respelling f) (s : Text) :
    (respellText f s).head? = s.head? := by
  induction s using scan_induction with
  | nil => rw [respellText_nil]
  | plain c rest hmatch _ =>
      rw [respellText_of_no_match hmatch]
      rfl
  | jump reference rest hreference hrest _ =>
      obtain ⟨c, others, hword, -⟩ := Reference.exists_cons_of_mem_words hreference.word
      rw [respellText_of_reference hreference hrest, Reference.text, Reference.text, hf.word, hword]
      rfl

theorem respellText_digits_append {digits : Text}
    (h : ∀ c ∈ digits, Text.isDecimalDigit c = true) (rest : Text) :
    respellText f (digits ++ rest) = digits ++ respellText f rest := by
  rw [respellText, scan_digits_append h, List.flatMap_append, List.flatMap_map]
  congr 1
  exact List.flatMap_singleton' digits

end Piece

namespace Renumbering

/-- Lines that are numbered by their places, if they have a number. -/
def Settled (lines : List Text) : Prop :=
  ∀ (k : Nat) (line : Text), lines[k]? = some line →
    label line = [] ∨ label line = Text.decimal (newNumber k)

section Settled

variable {lines : List Text}

/-- A target that names a settled line has the number that this line would get. -/
theorem Settled.renumberTarget_eq (h : Settled lines) (target : Text) :
    renumberTarget (.ofLines lines) target = target := by
  have hfollows := targetFollows_renumberTarget lines target
  generalize renumberTarget (.ofLines lines) target = new at hfollows ⊢
  cases hfollows with
  | found hne hlast =>
      obtain ⟨⟨line, hline, hlabel⟩, -⟩ := hlast
      rcases h _ line hline with hempty | hnumber
      · exact absurd (hlabel.symm.trans hempty) hne
      · exact hnumber.symm.trans hlabel
  | kept _ => rfl

theorem Settled.renumberLabel_eq (h : Settled lines) {line : Text × Nat}
    (hline : line ∈ lines.zipIdx) : renumberLabel line = line.1 := by
  have hplace : lines[line.2]? = some line.1 := List.mk_mem_zipIdx_iff_getElem?.1 hline
  conv_rhs => rw [← label_append_body line.1]
  rw [Renumbering.renumberLabel_eq, newLabel]
  by_cases hempty : label line.1 = []
  · rw [if_pos hempty, hempty]
  · rw [if_neg hempty, (h _ _ hplace).resolve_left hempty]
    rfl

end Settled

/-- A line whose target lists have no blanks around their commas. -/
structure Tidy (line : Text) : Prop where
  text : (Piece.scan line).flatMap Piece.text = line
  list : ∀ reference, Piece.jump reference ∈ Piece.scan line →
    reference.list = [','].intercalate reference.targets ++ reference.trailing

theorem Tidy.renumberTargets_eq {line : Text} (h : Tidy line) {map : NumberMap}
    (hmap : ∀ target, renumberTarget map target = target) : renumberTargets map line = line := by
  have hpieces : ∀ piece ∈ Piece.scan line, renumberPiece map piece = piece.text := by
    intro piece hpiece
    cases piece with
    | plain c => rfl
    | jump reference =>
        have htargets : reference.targets.map (renumberTarget map) = reference.targets :=
          List.map_id'' hmap _
        rw [renumberPiece, htargets, List.append_assoc, ← h.list reference hpiece]
        rfl
  rw [renumberTargets, List.flatMap_congr hpieces, h.text]

section RenumberedLines

variable (lines : List Text)

/-- The lines that renumbering makes of the given ones. -/
def renumberedLines : List Text := lines.zipIdx.map (renumberLine (.ofLines lines))

theorem list_eq_of_pieceFollows {old new : List Piece}
    (h : List.Forall₂ (PieceFollows lines) old new) {reference : Reference}
    (hmem : Piece.jump reference ∈ new) :
    reference.list = [','].intercalate reference.targets ++ reference.trailing := by
  induction h with
  | nil => simp at hmem
  | cons hpiece _ ih =>
      rcases List.mem_cons.1 hmem with rfl | hmem
      · cases hpiece with
        | jump hfollows => exact hfollows.list
      · exact ih hmem

theorem tidy_renumberLine (line : Text × Nat) : Tidy (renumberLine (.ofLines lines) line) where
  text := (isRenumbered_renumberLine lines line).text
  list _ hmem := list_eq_of_pieceFollows lines (isRenumbered_renumberLine lines line).pieces hmem

/-- The number that a line gets stands alone: no digit follows it. -/
theorem label_renumberLine (line : Text × Nat) :
    label (renumberLine (.ofLines lines) line) = newLabel line := by
  have hrespelling := (renaming_renumberTarget lines).respelling
  have hdigits : ∀ c ∈ newLabel line, Text.isDecimalDigit c = true :=
    fun c hc => isDecimalDigit_of_mem_newLabel line hc
  have hbody : ∀ c, (Piece.respellText (Reference.retarget (renumberTarget (.ofLines lines)))
      (body line.1)).head? = some c → Text.isDecimalDigit c = false := by
    intro c hc
    rw [Piece.head?_respellText hrespelling] at hc
    have hnot := List.head?_dropWhile_not Text.isDecimalDigit line.1
    rw [show line.1.dropWhile Text.isDecimalDigit = body line.1 from rfl, hc] at hnot
    exact hnot
  rw [renumberLine, renumberTargets_eq, Renumbering.renumberLabel_eq,
    Piece.respellText_digits_append hdigits]
  exact (Text.span_append hdigits hbody).1

theorem settled_renumberedLines : Settled (renumberedLines lines) := by
  intro k out hout
  obtain ⟨line, hline, rfl⟩ : ∃ line, lines.zipIdx[k]? = some line ∧
      renumberLine (.ofLines lines) line = out := by
    simpa [renumberedLines] using hout
  have hplace : line.2 = k := by
    rw [List.getElem?_zipIdx] at hline
    obtain ⟨text, -, rfl⟩ := Option.map_eq_some_iff.1 hline
    exact Nat.zero_add k
  rw [label_renumberLine, newLabel, hplace]
  split
  · exact .inl rfl
  · exact .inr rfl

variable {lines}

/-- Renumbering leaves no blanks at the ends of a line that has none there. -/
theorem trimmed_renumberLine {line : Text × Nat} (h : line.1.Trimmed) :
    (renumberLine (.ofLines lines) line).Trimmed := by
  have hrename := renaming_renumberTarget lines
  rw [renumberLine, renumberTargets_eq]
  refine ⟨fun c hc => ?_, hrename.endsFilled_respellText (endsFilled_renumberLabel h.last)⟩
  rw [Piece.head?_respellText hrename.respelling, renumberLabel] at hc
  split at hc
  · exact h.head c hc
  · rw [List.head?_append_of_ne_nil _ (by simp [Text.decimal])] at hc
    exact Text.isBlank_of_mem_decimal (List.mem_of_mem_head? hc)

end RenumberedLines

theorem trimmed_of_mem_listingLines {listing line : Text} (h : line ∈ listingLines listing) :
    line.Trimmed := by
  obtain ⟨source, -, rfl⟩ := List.mem_map.1 (List.mem_filter.1 h).1
  exact Text.trimmed_trim source

/-- A renumbered listing is read as the lines that renumbering made. -/
theorem listingLines_renumber (listing : Text) :
    listingLines (renumber listing) = renumberedLines (listingLines listing) := by
  have hlines : ∀ out ∈ renumberedLines (listingLines listing), out.trim = id out ∧ out ≠ [] := by
    intro out hout
    obtain ⟨line, hline, rfl⟩ := List.mem_map.1 hout
    have hmem := List.fst_mem_of_mem_zipIdx hline
    constructor
    · exact Text.trim_eq_self (trimmed_renumberLine (trimmed_of_mem_listingLines hmem))
    · have hne : line.1 ≠ [] := by simpa using (List.mem_filter.1 hmem).2
      rw [renumberLine, renumberTargets_eq]
      exact Piece.respellText_ne_nil (renaming_renumberTarget _).respelling
        (renumberLabel_ne_nil hne)
  rw [listingLines, lines_renumber]
  change (List.map Text.trim (renumberedLines (listingLines listing))).filter _ = _
  rw [List.map_congr_left fun out hout => (hlines out hout).1, List.map_id, List.filter_eq_self]
  exact fun out hout => by simpa using (hlines out hout).2

/-- Renumbering settles a listing: doing it again changes nothing. -/
theorem renumber_renumber (listing : Text) : renumber (renumber listing) = renumber listing := by
  have hsettled := settled_renumberedLines (listingLines listing)
  have hstays : ∀ line ∈ (renumberedLines (listingLines listing)).zipIdx,
      renumberLine (.ofLines (renumberedLines (listingLines listing))) line = line.1 := by
    intro line hline
    obtain ⟨old, -, hold⟩ := List.mem_map.1 (List.fst_mem_of_mem_zipIdx hline)
    rw [renumberLine, hsettled.renumberLabel_eq hline, ← hold]
    exact (tidy_renumberLine _ old).renumberTargets_eq hsettled.renumberTarget_eq
  rw [renumber, listingLines_renumber, List.map_congr_left hstays, List.zipIdx_map_fst]
  rfl

end Renumbering
end ColorBasic
