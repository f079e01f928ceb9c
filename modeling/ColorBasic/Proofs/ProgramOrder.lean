import ColorBasic.Program
import Mathlib.Data.List.Nodup

/-!
# The order of the lines of a program

Arranging lines is sorting what remains when every line that a later one replaces is left out.
Which lines remain, and in which order, depends on their numbers alone.  Lines in ascending order
repeat no number.
-/

namespace ColorBasic
namespace Program

variable {α β : Type} {number : α → UInt16}

/-- Entries in strictly ascending order of their numbers. -/
def Ascending (number : α → UInt16) (entries : List α) : Prop :=
  entries.Pairwise fun first second => number first < number second

/-- The entries that no later entry of the same number replaces, in the order of the text. -/
def lastOfEach (number : α → UInt16) : List α → List α
  | [] => []
  | entry :: later =>
    if number entry ∈ later.map number then lastOfEach number later
    else entry :: lastOfEach number later

/-- The last entry of each number, in ascending order of the numbers. -/
def latest (number : α → UInt16) (entries : List α) : List α :=
  (lastOfEach number entries).mergeSort fun first second => number first ≤ number second

theorem mem_map_lastOfEach (number : α → UInt16) (entries : List α) (n : UInt16) :
    n ∈ (lastOfEach number entries).map number ↔ n ∈ entries.map number := by
  induction entries with
  | nil => rfl
  | cons entry later ih =>
      rw [lastOfEach, List.map_cons, List.mem_cons]
      split
      · rename_i hmem
        rw [ih]
        exact ⟨.inr, fun h => h.elim (fun heq => heq ▸ hmem) id⟩
      · rw [List.map_cons, List.mem_cons, ih]

theorem mem_of_mem_lastOfEach {entries : List α} {entry : α}
    (h : entry ∈ lastOfEach number entries) : entry ∈ entries := by
  induction entries with
  | nil => exact h
  | cons first later ih =>
      rw [lastOfEach] at h
      split at h
      · exact List.mem_cons_of_mem _ (ih h)
      · rcases List.mem_cons.1 h with rfl | h
        · exact List.mem_cons_self
        · exact List.mem_cons_of_mem _ (ih h)

theorem nodup_map_lastOfEach (number : α → UInt16) (entries : List α) :
    ((lastOfEach number entries).map number).Nodup := by
  induction entries with
  | nil => exact List.nodup_nil
  | cons entry later ih =>
      rw [lastOfEach]
      split
      · exact ih
      · rename_i hnew
        rw [List.map_cons, List.nodup_cons, mem_map_lastOfEach]
        exact ⟨hnew, ih⟩

theorem lastOfEach_eq_self {entries : List α} (h : (entries.map number).Nodup) :
    lastOfEach number entries = entries := by
  induction entries with
  | nil => rfl
  | cons entry later ih =>
      rw [List.map_cons, List.nodup_cons] at h
      rw [lastOfEach, if_neg h.1, ih h.2]

theorem map_lastOfEach (f : α → β) (number : β → UInt16) (entries : List α) :
    (lastOfEach (number ∘ f) entries).map f = lastOfEach number (entries.map f) := by
  induction entries with
  | nil => rfl
  | cons entry later ih =>
      rw [List.map_cons, lastOfEach, lastOfEach, List.map_map, Function.comp_apply]
      by_cases hmem : number (f entry) ∈ later.map (number ∘ f)
      · rw [if_pos hmem, if_pos hmem, ih]
      · rw [if_neg hmem, if_neg hmem, List.map_cons, ih]

/-- The numbers decide which entries remain and in which order. -/
theorem map_latest (f : α → β) (number : β → UInt16) (entries : List α) :
    (latest (number ∘ f) entries).map f = latest number (entries.map f) := by
  rw [latest, latest, ← map_lastOfEach]
  exact List.map_mergeSort fun _ _ _ _ => rfl

theorem mem_of_mem_latest {entries : List α} {entry : α} (h : entry ∈ latest number entries) :
    entry ∈ entries :=
  mem_of_mem_lastOfEach (List.mem_mergeSort.1 h)

theorem Ascending.nodup {entries : List α} (h : Ascending number entries) :
    (entries.map number).Nodup := by
  rw [List.Nodup, List.pairwise_map]
  exact h.imp fun hlt => UInt16.ne_of_lt hlt

theorem ascending_latest (number : α → UInt16) (entries : List α) :
    Ascending number (latest number entries) := by
  have hsorted : (latest number entries).Pairwise fun first second =>
      decide (number first ≤ number second) = true := by
    apply List.pairwise_mergeSort
    · intro first second third hfirst hsecond
      simp only [decide_eq_true_eq] at hfirst hsecond ⊢
      exact UInt16.le_trans hfirst hsecond
    · intro first second
      simpa using UInt16.le_total (number first) (number second)
  have hdistinct : ((latest number entries).map number).Nodup :=
    ((List.mergeSort_perm _ _).map number).nodup_iff.2 (nodup_map_lastOfEach number entries)
  rw [List.Nodup, List.pairwise_map] at hdistinct
  refine (hsorted.and hdistinct).imp fun h => ?_
  exact UInt16.lt_of_le_of_ne (of_decide_eq_true h.1) h.2

/-- Ascending entries with the same members are the same list. -/
theorem Ascending.eq_of_perm {first second : List α} (hfirst : Ascending number first)
    (hsecond : Ascending number second) (h : first.Perm second) : first = second :=
  h.eq_of_pairwise
    (fun _ _ _ _ hab hba => (UInt16.lt_irrefl _ (UInt16.lt_trans hab hba)).elim) hfirst hsecond

theorem latest_eq_self {entries : List α} (h : Ascending number entries) :
    latest number entries = entries := by
  refine (ascending_latest number entries).eq_of_perm h ?_
  rw [latest, lastOfEach_eq_self h.nodup]
  exact List.mergeSort_perm _ _

/-- Of a line and two later ones that share a smaller number, the last one and the line remain. -/
theorem latest_retyped {first old last : α} (horder : number last < number first)
    (hsame : number old = number last) : latest number [first, old, last] = [last, first] := by
  have hne : number first ≠ number last := (UInt16.ne_of_lt horder).symm
  have hle : ¬number first ≤ number last := UInt16.not_le.2 horder
  simp [latest, lastOfEach, List.mergeSort, List.MergeSort.Internal.splitInTwo, hsame, hne, hle]

theorem addEarlier_of_mem {line : Line} {lines : List Line} (hlines : Ascending Line.number lines)
    (h : line.number ∈ lines.map Line.number) : addEarlier line lines = lines := by
  induction lines with
  | nil => simp at h
  | cons first rest ih =>
      obtain ⟨hfirst, hrest⟩ := List.pairwise_cons.1 hlines
      rw [addEarlier]
      rcases List.mem_cons.1 h with heq | h
      · rw [if_neg (by simp [heq]), if_pos heq]
      · obtain ⟨other, hother, hnumber⟩ := List.mem_map.1 h
        have hlt : first.number < line.number := hnumber ▸ hfirst other hother
        rw [if_neg (UInt16.lt_asymm hlt), if_neg (UInt16.ne_of_lt hlt).symm, ih hrest h]

theorem addEarlier_perm {line : Line} {lines : List Line}
    (h : line.number ∉ lines.map Line.number) : (addEarlier line lines).Perm (line :: lines) := by
  induction lines with
  | nil => exact .refl _
  | cons first rest ih =>
      rw [List.map_cons, List.mem_cons, not_or] at h
      rw [addEarlier]
      split
      · exact .refl _
      · rw [if_neg h.1]
        exact ((ih h.2).cons first).trans (.swap line first rest)

theorem ascending_addEarlier {line : Line} {lines : List Line}
    (hlines : Ascending Line.number lines) : Ascending Line.number (addEarlier line lines) := by
  by_cases hmem : line.number ∈ lines.map Line.number
  · rw [addEarlier_of_mem hlines hmem]
    exact hlines
  · induction lines with
    | nil => exact List.pairwise_singleton _ _
    | cons first rest ih =>
        obtain ⟨hfirst, hrest⟩ := List.pairwise_cons.1 hlines
        rw [List.map_cons, List.mem_cons, not_or] at hmem
        rw [addEarlier]
        split
        · rename_i hlt
          refine List.pairwise_cons.2 ⟨fun other hother => ?_, hlines⟩
          rcases List.mem_cons.1 hother with rfl | hother
          · exact hlt
          · exact UInt16.lt_trans hlt (hfirst other hother)
        · rename_i hge
          rw [if_neg hmem.1]
          refine List.pairwise_cons.2 ⟨fun other hother => ?_, ih hrest hmem.2⟩
          rcases List.mem_cons.1 ((addEarlier_perm hmem.2).subset hother) with rfl | hother
          · exact UInt16.lt_of_le_of_ne (UInt16.not_lt.1 hge) (Ne.symm hmem.1)
          · exact hfirst other hother

theorem ascending_arrange (lines : List Line) : Ascending Line.number (arrange lines) := by
  induction lines with
  | nil => exact List.Pairwise.nil
  | cons line later ih => exact ascending_addEarlier ih

theorem arrange_perm (lines : List Line) :
    (arrange lines).Perm (lastOfEach Line.number lines) := by
  induction lines with
  | nil => exact .refl _
  | cons line later ih =>
      -- A line is left out on both sides for the same reason.
      have hnumbers : line.number ∈ (arrange later).map Line.number ↔
          line.number ∈ later.map Line.number :=
        (ih.map Line.number).mem_iff.trans (mem_map_lastOfEach Line.number later line.number)
      change (addEarlier line (arrange later)).Perm _
      rw [lastOfEach]
      by_cases hmem : line.number ∈ later.map Line.number
      · rw [if_pos hmem, addEarlier_of_mem (ascending_arrange later) (hnumbers.2 hmem)]
        exact ih
      · rw [if_neg hmem]
        exact (addEarlier_perm fun h => hmem (hnumbers.1 h)).trans (ih.cons line)

/-- Arranging lines sorts the last line of each number. -/
theorem arrange_eq_latest (lines : List Line) : arrange lines = latest Line.number lines :=
  (ascending_arrange lines).eq_of_perm (ascending_latest Line.number lines)
    ((arrange_perm lines).trans (List.mergeSort_perm _ _).symm)

/-- Arranging lines that are made of entries arranges the entries. -/
theorem arrange_map (f : α → Line) (entries : List α) :
    arrange (entries.map f) = (latest (Line.number ∘ f) entries).map f := by
  rw [arrange_eq_latest, map_latest]

section Repetitions

theorem repeatedNumbers_congr {seen other : Std.HashSet UInt16}
    (h : ∀ number, number ∈ seen ↔ number ∈ other) (numbers : List UInt16) :
    repeatedNumbers seen numbers = repeatedNumbers other numbers := by
  induction numbers generalizing seen other with
  | nil => rfl
  | cons number numbers ih =>
      have hinsert : ∀ n, n ∈ seen.insert number ↔ n ∈ other.insert number := by
        intro n
        rw [Std.HashSet.mem_insert, Std.HashSet.mem_insert, h]
      have hcontains : seen.contains number = other.contains number := by
        rw [Bool.eq_iff_iff]
        exact h number
      rw [repeatedNumbers, repeatedNumbers, hcontains, ih h, ih hinsert]

/-- Entering a number that was seen before changes nothing. -/
theorem repeatedNumbers_cons (seen : Std.HashSet UInt16) (number : UInt16)
    (numbers : List UInt16) :
    repeatedNumbers seen (number :: numbers) =
      (if seen.contains number then [number] else []) ++
        repeatedNumbers (seen.insert number) numbers := by
  rw [repeatedNumbers]
  by_cases hseen : seen.contains number = true
  · have hsame : ∀ n, n ∈ seen ↔ n ∈ seen.insert number := by
      intro n
      rw [Std.HashSet.mem_insert]
      refine ⟨.inr, fun h => h.elim (fun heq => ?_) id⟩
      rw [← eq_of_beq heq]
      exact hseen
    rw [if_pos hseen, if_pos hseen, repeatedNumbers_congr hsame]
    rfl
  · rw [if_neg hseen, if_neg hseen]
    rfl

theorem repeatedNumbers_eq_nil {seen : Std.HashSet UInt16} {numbers : List UInt16}
    (h : numbers.Nodup) (hseen : ∀ number ∈ numbers, number ∉ seen) :
    repeatedNumbers seen numbers = [] := by
  induction numbers generalizing seen with
  | nil => rfl
  | cons number numbers ih =>
      obtain ⟨hnew, hrest⟩ := List.nodup_cons.1 h
      rw [List.forall_mem_cons] at hseen
      rw [repeatedNumbers_cons, if_neg (by simpa using hseen.1), List.nil_append]
      refine ih hrest fun other hother => ?_
      rw [Std.HashSet.mem_insert, not_or]
      refine ⟨fun heq => hnew ?_, hseen.2 other hother⟩
      rw [eq_of_beq heq]
      exact hother

/-- Lines in ascending order repeat no number. -/
theorem Ascending.duplicateReports_eq_nil {lines : List Line}
    (h : Ascending Line.number lines) : duplicateReports lines = [] := by
  rw [duplicateReports, repeatedNumbers_eq_nil h.nodup (by simp)]
  rfl

end Repetitions

end Program
end ColorBasic
