import ColorBasic.Dump.Annotation
import ColorBasic.Machine.Table
import ColorBasic.Proofs.Fallible

/-!
# The two readers of a dump

Reading lines and annotating follow the same walk, but only reading lines looks at the last byte of
a record.  A record without its terminator is therefore an error for one reader and goes unnoticed
by the other; in all else they agree.
-/

namespace ColorBasic

namespace Record

/-- Whether the stored code of a record ends with the terminator. -/
def isTerminated (record : Record) : Bool := record.tokens.getLast? = some 0

/-- Records hold lines up to the first one without a terminator. -/
theorem mapM_line (records : List Record) :
    records.mapM line =
      match records.find? (!·.isTerminated) with
      | some record => .error (.missingTerminator record.tokens)
      | none => .ok (records.map fun record => ⟨record.number, record.tokens.dropLast⟩) := by
  induction records with
  | nil => rfl
  | cons record records ih =>
      rw [List.mapM_cons, ih, line, Line.ofTerminated]
      by_cases hlast : record.tokens.getLast? = some 0
      · rw [if_pos hlast, List.find?_cons_of_neg (by simp [isTerminated, hlast])]
        cases records.find? (!·.isTerminated) <;> rfl
      · rw [if_neg hlast, List.find?_cons_of_pos (by simp [isTerminated, hlast])]
        rfl

end Record

namespace Dump

/-- The first record of a dump that does not end with the terminator. -/
def firstUnterminated? (dump : Bytes) (start : UInt16) : Option Record :=
  (survey dump start).records.find? (!·.isTerminated)

/-- What is wrong with a dump for a reader that needs no end mark: the first record without its
terminator, or else the fault of the walk. -/
def firstError? (dump : Bytes) (start : UInt16) : Option Error :=
  ((firstUnterminated? dump start).map fun record => .missingTerminator record.tokens).or
    (survey dump start).fault

section Readers

variable {table : TokenTable} {dump : Bytes} {start : UInt16}

theorem readLines_eq_error_iff {error : Error} :
    readLines dump start = .error error ↔ firstError? dump start = some error := by
  unfold readLines firstError? firstUnterminated?
  dsimp only
  rw [Record.mapM_line]
  cases (survey dump start).records.find? (!·.isTerminated) with
  | some record => simp [bind, Except.bind]
  | none =>
      cases (survey dump start).fault with
      | some fault => simp [bind, Except.bind, throw, throwThe, MonadExceptOf.throw]
      | none => simp [bind, Except.bind, pure, Except.pure]

/-- A dump that can be read has neither a fault nor a record without its terminator. -/
theorem fault_eq_none_of_readLines {lines : List Line} (h : readLines dump start = .ok lines) :
    (survey dump start).fault = none := by
  have hnone : firstError? dump start = none := by
    cases herror : firstError? dump start with
    | none => rfl
    | some error => simp [readLines_eq_error_iff.2 herror] at h
  exact (Option.or_eq_none_iff.1 hnone).2

theorem annotate_of_fault {error : Error} (h : (survey dump start).fault = some error) :
    annotate table dump start = .error error := by
  simp only [annotate, h]

/-- Without a fault a dump can be annotated exactly if the walk has read the end mark. -/
theorem exists_annotate_eq_ok_iff (h : (survey dump start).fault = none) :
    (∃ rows, annotate table dump start = .ok rows) ↔
      (survey dump start).final.foundEnd = true := by
  simp only [annotate, h]
  split
  · rename_i hend
    exact ⟨fun _ => hend, fun _ => ⟨_, rfl⟩⟩
  · rename_i hend
    exact ⟨fun ⟨_, hrows⟩ => by simp at hrows, fun hfound => (hend hfound).elim⟩

theorem annotate_of_missing_end (h : (survey dump start).fault = none)
    (hend : (survey dump start).final.foundEnd = false) :
    annotate table dump start = .error (.truncated (survey dump start).final.offset) := by
  simp [annotate, h, hend]

/-- Annotating fails with no other error than a fault of the walk or the missing end mark. -/
theorem fault_of_annotate_eq_missingTerminator {tokens : Bytes}
    (h : annotate table dump start = .error (.missingTerminator tokens)) :
    (survey dump start).fault = some (.missingTerminator tokens) := by
  unfold annotate at h
  dsimp only at h
  split at h
  · rename_i error hfault
    rw [hfault, Except.error.inj h]
  · split at h <;> simp at h

end Readers

/-- What the two readers of a dump are to have in common: annotating fails with every error that
reading lines fails with, and where lines can be read only a missing end mark stops it. -/
def ReadersAgree (table : TokenTable) (dump : Bytes) (start : UInt16) : Prop :=
  (∀ error, readLines dump start = .error error → annotate table dump start = .error error) ∧
    ∀ lines, readLines dump start = .ok lines →
      ((∃ rows, annotate table dump start = .ok rows) ↔
          (survey dump start).final.foundEnd = true) ∧
        ((survey dump start).final.foundEnd = false →
          annotate table dump start = .error (.truncated (survey dump start).final.offset))

/-- The two readers agree on a dump exactly if all of its records end with the terminator, or the
walk happens to fail with the very error that the first one without it is for the other reader. -/
theorem readersAgree_iff (table : TokenTable) (dump : Bytes) (start : UInt16) :
    ReadersAgree table dump start ↔
      ∀ record, firstUnterminated? dump start = some record →
        (survey dump start).fault = some (.missingTerminator record.tokens) := by
  constructor
  · rintro ⟨herrors, -⟩ record hrecord
    have hread : readLines dump start = .error (.missingTerminator record.tokens) := by
      rw [readLines_eq_error_iff, firstError?, hrecord]
      rfl
    exact fault_of_annotate_eq_missingTerminator (herrors _ hread)
  · intro hfault
    refine ⟨fun error herror => ?_, fun lines hlines => ?_⟩
    · apply annotate_of_fault
      rw [readLines_eq_error_iff, firstError?] at herror
      cases hrecord : firstUnterminated? dump start with
      | some record =>
          rw [hrecord] at herror
          rw [hfault record hrecord]
          exact herror
      | none =>
          rw [hrecord] at herror
          exact herror
    · have hnone := fault_eq_none_of_readLines hlines
      exact ⟨exists_annotate_eq_ok_iff hnone, annotate_of_missing_end hnone⟩

/-- One line whose code is not terminated, and the end mark. -/
def unterminatedDump : Bytes := [0x1E, 0x06, 0x00, 0x0A, 0x41, 0x00, 0x00]

theorem not_readersAgree_unterminated :
    readLines unterminatedDump 0x1E01 = .error (.missingTerminator [0x41]) ∧
      annotate Machine.dragon32.table unterminatedDump 0x1E01 =
        .ok ["program start address: $1e01".toList, "$1e06 -> next address (length: 5)".toList,
          "$000a -> 10 (line number)".toList, "tokens:".toList, "\t  $41 -> 'A'".toList,
          "$0000 -> end address".toList] ∧
        ¬ReadersAgree Machine.dragon32.table unterminatedDump 0x1E01 := by
  have hread : readLines unterminatedDump 0x1E01 = .error (.missingTerminator [0x41]) := by
    decide +kernel
  have hannotate : annotate Machine.dragon32.table unterminatedDump 0x1E01 =
      .ok ["program start address: $1e01".toList, "$1e06 -> next address (length: 5)".toList,
        "$000a -> 10 (line number)".toList, "tokens:".toList, "\t  $41 -> 'A'".toList,
        "$0000 -> end address".toList] := by decide +kernel
  refine ⟨hread, hannotate, fun hagree => ?_⟩
  have herror := hagree.1 _ hread
  simp [hannotate] at herror

end Dump
end ColorBasic
