import ColorBasic.Proofs.SettledNumbers
import Mathlib.Data.List.Permutation

/-!
# The destinations of a renumbered listing

Renumbering and the search for destinations find the same targets, but one of them reads a target
as a spelling and the other as a number.  The destinations of a renumbered listing are the new
numbers of the targets that name a line, and the values of the other targets where they have one.
If no target dangles, every destination is the number of a line.
-/

namespace ColorBasic

section Repetitions

theorem eraseRepsLoop_eq (a : Nat) (numbers kept : List Nat) :
    List.eraseRepsBy.loop (· == ·) a numbers kept =
      kept.reverse ++ List.eraseRepsBy.loop (· == ·) a numbers [] := by
  induction numbers generalizing a kept with
  | nil => simp [List.eraseRepsBy.loop]
  | cons b numbers ih =>
      rw [List.eraseRepsBy.loop, List.eraseRepsBy.loop]
      split
      · exact ih a kept
      · rw [ih b (a :: kept), ih b [a], List.reverse_cons, List.append_assoc]
        rfl

theorem eraseReps_cons_cons (a b : Nat) (numbers : List Nat) :
    (a :: b :: numbers).eraseReps =
      if a = b then (b :: numbers).eraseReps else a :: (b :: numbers).eraseReps := by
  show List.eraseRepsBy.loop (· == ·) a (b :: numbers) [] = _
  rw [List.eraseRepsBy.loop]
  by_cases hab : a = b
  · subst hab
    rw [if_pos rfl, BEq.rfl]
    rfl
  · rw [if_neg hab, beq_false_of_ne hab]
    exact eraseRepsLoop_eq b numbers [a]

theorem mem_eraseReps {x : Nat} {numbers : List Nat} : x ∈ numbers.eraseReps ↔ x ∈ numbers := by
  induction numbers with
  | nil => rfl
  | cons a numbers ih =>
      cases numbers with
      | nil => rfl
      | cons b numbers =>
          rw [eraseReps_cons_cons]
          split
          · rename_i hab
            rw [ih, hab]
            simp
          · rw [List.mem_cons, ih, ← List.mem_cons]

/-- Numbers in order are in strict order without their repetitions. -/
theorem pairwise_lt_eraseReps {numbers : List Nat} (h : numbers.Pairwise (· ≤ ·)) :
    numbers.eraseReps.Pairwise (· < ·) := by
  induction numbers with
  | nil => exact .nil
  | cons a numbers ih =>
      cases numbers with
      | nil => exact List.pairwise_singleton _ _
      | cons b numbers =>
          obtain ⟨ha, hrest⟩ := List.pairwise_cons.1 h
          rw [eraseReps_cons_cons]
          split
          · exact ih hrest
          · rename_i hab
            refine List.pairwise_cons.2 ⟨fun x hx => ?_, ih hrest⟩
            have hfirst : a < b := Nat.lt_of_le_of_ne (ha b List.mem_cons_self) hab
            rcases List.mem_cons.1 (mem_eraseReps.1 hx) with rfl | hx
            · exact hfirst
            · exact Nat.lt_of_lt_of_le hfirst ((List.pairwise_cons.1 hrest).1 x hx)

end Repetitions

namespace Renumbering

/-- The targets of all jumps of a listing, in the order of the text. -/
def jumpTargets (listing : Text) : List Text :=
  (listingLines listing).flatMap fun line => (Reference.all line).flatMap Reference.targets

section Destinations

variable (listing : Text)

/-- The destinations of a listing are the numbers that its targets spell. -/
theorem mem_destinations_iff {n : Nat} :
    n ∈ destinations listing ↔ ∃ target ∈ jumpTargets listing, destination? target = some n := by
  have hnumbers : ((listingLines listing).flatMap Reference.all).flatMap
        (fun r => r.targets.filterMap destination?) =
      (jumpTargets listing).filterMap destination? := by
    rw [jumpTargets, ← List.flatMap_assoc, List.filterMap_flatMap]
  unfold destinations
  dsimp only
  rw [hnumbers, mem_eraseReps, List.mem_mergeSort, List.mem_filterMap]

theorem pairwise_lt_destinations : (destinations listing).Pairwise (· < ·) := by
  apply pairwise_lt_eraseReps
  refine (List.pairwise_mergeSort ?_ ?_ _).imp of_decide_eq_true
  · intro a b c hab hbc
    rw [decide_eq_true_eq] at hab hbc ⊢
    exact Nat.le_trans hab hbc
  · intro a b
    rw [Bool.or_eq_true, decide_eq_true_eq, decide_eq_true_eq]
    exact Nat.le_total a b

end Destinations

theorem wellFormed_of_mem_all {s : Text} {reference : Reference} (h : reference ∈ Reference.all s) :
    reference.WellFormed := by
  obtain ⟨piece, hpiece, hreference⟩ := List.mem_filterMap.1 h
  cases piece with
  | plain c => simp [Piece.reference?] at hreference
  | jump found =>
      obtain rfl := Option.some.inj hreference
      exact Piece.wellFormed_of_mem_scan hpiece

section Lines

variable (lines : List Text) (line : Text × Nat)

/-- A renumbered line has the references of the line, with new targets. -/
theorem all_renumberLine :
    Reference.all (renumberLine (.ofLines lines) line) =
      (Reference.all line.1).map (Reference.retarget (renumberTarget (.ofLines lines))) := by
  rw [Reference.all, scan_renumberLine, List.filterMap_map, ← all_newLabel_append, Reference.all,
    List.map_filterMap]
  refine List.filterMap_congr fun piece _ => ?_
  cases piece <;> rfl

theorem flatMap_targets_renumberLine :
    (Reference.all (renumberLine (.ofLines lines) line)).flatMap Reference.targets =
      ((Reference.all line.1).flatMap Reference.targets).map
        (renumberTarget (.ofLines lines)) := by
  rw [all_renumberLine, List.flatMap_map, List.map_flatMap]
  refine List.flatMap_congr fun reference hreference => ?_
  exact (renaming_renumberTarget lines).targets_retarget (wellFormed_of_mem_all hreference)

end Lines

/-- Renumbering spells the targets of a listing anew, one by one. -/
theorem jumpTargets_renumber (listing : Text) :
    jumpTargets (renumber listing) =
      (jumpTargets listing).map (renumberTarget (.ofLines (listingLines listing))) := by
  rw [jumpTargets, listingLines_renumber, jumpTargets]
  generalize listingLines listing = lines
  have hplaces (f : Text → List Text) :
      lines.zipIdx.flatMap (fun line => f line.1) = lines.flatMap f := by
    rw [← List.flatMap_map, List.zipIdx_map_fst]
  rw [renumberedLines, List.flatMap_map, List.map_flatMap, ← hplaces]
  exact List.flatMap_congr fun line _ => flatMap_targets_renumberLine lines line

/-- A renumbered target spells the new number of its line, or what it spelled before. -/
theorem destination?_renumberTarget_eq_some_iff (map : NumberMap) (target : Text) (n : Nat) :
    destination? (renumberTarget map target) = some n ↔
      (map[target]? = some n ∧ n < destinationLimit) ∨
        (map[target]? = none ∧ destination? target = some n) := by
  unfold renumberTarget
  cases map[target]? with
  | none => simp
  | some m =>
      rw [destination?, Text.readNumeral?_decimal, Option.filter_eq_some_iff, decide_eq_true_eq]
      simp

section Numbers

variable {lines : List Text} {target : Text} {n : Nat}

/-- New numbers count the lines by tens. -/
theorem NumberMap.le_of_getElem?_ofLines (h : (ofLines lines)[target]? = some n) :
    n ≤ 10 * lines.length := by
  obtain ⟨-, k, ⟨⟨line, hline, -⟩, -⟩, rfl⟩ := (getElem?_ofLines lines target n).1 h
  have hk := (List.getElem?_eq_some_iff.1 hline).1
  unfold newNumber
  omega

/-- The number that replaces a target is the new number of one of the lines. -/
theorem exists_renumberedLine (h : (NumberMap.ofLines lines)[target]? = some n) :
    ∃ line ∈ renumberedLines lines, label line = Text.decimal n := by
  obtain ⟨hne, k, ⟨⟨line, hline, hlabel⟩, -⟩, rfl⟩ :=
    (NumberMap.getElem?_ofLines lines target n).1 h
  have hmem : (line, k) ∈ lines.zipIdx := List.mk_mem_zipIdx_iff_getElem?.2 hline
  refine ⟨_, List.mem_map_of_mem hmem, ?_⟩
  rw [label_renumberLine, newLabel, if_neg (hlabel ▸ hne)]
  rfl

end Numbers

/-- A listing without report of a dangling target has no unresolved one. -/
theorem not_unresolved_of_reports {listing : Text}
    (h : ∀ line target, .danglingReference line target ∉ reports listing) {target : Text}
    (htarget : target ∈ jumpTargets listing) : ¬Unresolved (listingLines listing) target := by
  intro hunresolved
  obtain ⟨line, hline, hmem⟩ := List.mem_flatMap.1 htarget
  obtain ⟨k, hk⟩ := List.mem_iff_getElem?.1 hline
  have hplace : (line, k) ∈ (listingLines listing).zipIdx := List.mk_mem_zipIdx_iff_getElem?.2 hk
  refine h (newLabel (line, k) ++ body line) target (List.mem_flatMap.2 ⟨_, hplace, ?_⟩)
  rw [lineReports_eq]
  refine List.mem_append_right _ (List.mem_map_of_mem (List.mem_filter.2 ⟨hmem, ?_⟩))
  exact decide_eq_true hunresolved

/-- The destinations of a renumbered listing are the new numbers of the targets that name a line
and the numbers that the other targets spell, ascending and each once; only a number beyond the
limit is none, and new numbers stay below ten times the number of lines.  If no target dangles, all
destinations are numbers of lines. -/
theorem destinations_renumber (listing : Text) :
    (∀ n, n ∈ destinations (renumber listing) ↔
        ∃ target ∈ jumpTargets listing,
          ((NumberMap.ofLines (listingLines listing))[target]? = some n ∧ n < destinationLimit) ∨
            ((NumberMap.ofLines (listingLines listing))[target]? = none ∧
              destination? target = some n)) ∧
      (∀ (target : Text) (n : Nat), (NumberMap.ofLines (listingLines listing))[target]? = some n →
        n ≤ 10 * (listingLines listing).length) ∧
      (destinations (renumber listing)).Pairwise (· < ·) ∧
      ((∀ line target, .danglingReference line target ∉ reports listing) →
        ∀ n ∈ destinations (renumber listing),
          ∃ line ∈ listingLines (renumber listing), label line = Text.decimal n) := by
  have hmem : ∀ n, n ∈ destinations (renumber listing) ↔
      ∃ target ∈ jumpTargets listing,
        ((NumberMap.ofLines (listingLines listing))[target]? = some n ∧ n < destinationLimit) ∨
          ((NumberMap.ofLines (listingLines listing))[target]? = none ∧
            destination? target = some n) := by
    intro n
    rw [mem_destinations_iff, jumpTargets_renumber]
    simp only [List.mem_map, exists_exists_and_eq_and, destination?_renumberTarget_eq_some_iff]
  refine ⟨hmem, fun _ _ => NumberMap.le_of_getElem?_ofLines, pairwise_lt_destinations _, ?_⟩
  intro hreports n hn
  rw [listingLines_renumber]
  obtain ⟨target, htarget, ⟨hfound, -⟩ | ⟨hnone, hvalue⟩⟩ := (hmem n).1 hn
  · exact exists_renumberedLine hfound
  · -- A target without a line is empty, for an unresolved one would have been reported.
    rcases (NumberMap.getElem?_ofLines_eq_none_iff _ _).1 hnone with rfl | hunresolved
    · simp [destination?, Text.readNumeral?] at hvalue
    · exact (not_unresolved_of_reports hreports htarget hunresolved).elim

example : destinations (renumber "7 GOTO 7, 007, 1 0, 99999999999999999999".toList) = [7, 10] := by
  cbv

/-- Two lines out of order that jump to each other and to themselves. -/
def crossedListing : Text := "7 ON A GOTO 7 , 5,,7\n5 IF B THEN 5 ELSE 7".toList

theorem destinations_renumber_crossed :
    (∀ line target, .danglingReference line target ∉ reports crossedListing) ∧
      20 ∈ destinations (renumber crossedListing) ∧
        ∃ line ∈ listingLines (renumber crossedListing), label line = Text.decimal 20 := by
  have hreports : reports crossedListing = [] := by cbv
  have hdangling : ∀ line target, .danglingReference line target ∉ reports crossedListing := by
    rw [hreports]
    exact fun _ _ => List.not_mem_nil
  have hdestinations : destinations (renumber crossedListing) = [10, 20] := by cbv
  have hmem : 20 ∈ destinations (renumber crossedListing) := by
    rw [hdestinations]
    decide
  exact ⟨hdangling, hmem, (destinations_renumber crossedListing).2.2.2 hdangling 20 hmem⟩

end Renumbering
end ColorBasic
