import ColorBasic.Proofs.DumpGrammar
import ColorBasic.Proofs.DumpReaders
import Mathlib.Algebra.GroupWithZero.Nat

/-!
# Dumps that are cut off

A dump that lost its end is read up to the cut.  Where at most one byte stands between the last
record and the cut the lines before it are read as if nothing were missing, and only annotating
notices that there is no end mark.  A cut anywhere else is an error for both readers that names the
place of the cut.
-/

namespace ColorBasic

namespace Walk

/-- A record whose address is there and whose end is missing is truncated. -/
theorem step_of_cut {walk : Walk} {record : Record} {k : Nat} (hstopped : walk.stopped = false)
    (hrecord : record.StandsAt walk.address) (hunread : walk.unread = record.bytes.take k)
    (haddress : 2 ≤ k) (hcut : k < record.bytes.length) :
    walk.step = (.fault (.truncated walk.size), walk.stop) := by
  obtain ⟨next, number, tokens⟩ := record
  obtain ⟨hne, hnext⟩ := hrecord
  dsimp only at hnext
  rw [Record.length_bytes] at hnext hcut
  dsimp only at hnext hcut
  have hzero : next ≠ 0 := by
    rintro rfl
    simp at hnext
  have horder : ¬next ≤ walk.address := by
    rw [UInt16.le_iff_toNat_le]
    omega
  have hlong : (walk.unread.take (next.toNat - walk.address.toNat)).length <
      next.toNat - walk.address.toNat := by
    rw [List.length_take, hunread, List.length_take]
    omega
  -- The two bytes of the address are there, whatever is left of the rest.
  obtain ⟨rest, hshape⟩ : ∃ rest,
      walk.unread = (next >>> 8).toUInt8 :: next.toUInt8 :: rest := by
    obtain ⟨more, rfl⟩ : ∃ more, k = more + 2 := ⟨k - 2, by omega⟩
    exact ⟨_, hunread⟩
  unfold step
  rw [hstopped, if_neg (by simp), hshape]
  dsimp only
  rw [wordOfBytes_wordBytes, if_neg hzero, if_neg horder]
  unfold readRecord
  dsimp only
  split
  · rw [if_pos hlong]
  · rfl

end Walk

namespace Dump

/-- The offset after the first `j` records of the dump of the given lines: each has an address, a
number, the code and the terminator. -/
def recordEnd (lines : List Line) (j : Nat) : Nat :=
  ((lines.take j).map fun line => line.code.length + 5).sum

theorem length_bytes_of_line {record : Record} {line : Line} (h : record.line = .ok line) :
    record.bytes.length = line.code.length + 5 := by
  rw [Record.length_bytes, (Record.line_eq_ok_iff.1 h).2, List.length_append]
  rfl

section RecordEnd

variable (lines : List Line)

@[simp] theorem recordEnd_zero : recordEnd lines 0 = 0 := rfl

@[simp] theorem recordEnd_cons_succ (line : Line) (j : Nat) :
    recordEnd (line :: lines) (j + 1) = line.code.length + 5 + recordEnd lines j := by
  simp [recordEnd]

/-- Records end at least five bytes apart. -/
theorem recordEnd_add_le {i j : Nat} (hij : i < j) (hj : j ≤ lines.length) :
    recordEnd lines i + 5 ≤ recordEnd lines j := by
  induction lines generalizing i j with
  | nil =>
      rw [List.length_nil] at hj
      omega
  | cons line lines ih =>
      obtain ⟨j, rfl⟩ : ∃ later, j = later + 1 := ⟨j - 1, by omega⟩
      rw [recordEnd_cons_succ]
      cases i with
      | zero =>
          rw [recordEnd_zero]
          omega
      | succ i =>
          have hlater := ih (Nat.lt_of_succ_lt_succ hij) (Nat.le_of_succ_le_succ hj)
          rw [recordEnd_cons_succ]
          omega

end RecordEnd

/-- A walk over a dump that is cut off at `k`: it has found the first `j` records and not the next.
Between records it ends as if the dump did, and inside a record it fails at the cut. -/
structure CutAfter (lines : List Line) (walk : Walk) (k j : Nat) : Prop where
  le_length : j ≤ lines.length
  end_le : recordEnd lines j ≤ k
  lt_next_end : j < lines.length → k < recordEnd lines (j + 1)
  records : walk.survey.records.mapM Record.line = .ok (lines.take j)
  rest :
    (k < recordEnd lines j + 2 ∧ walk.survey.fault = none ∧
        walk.survey.final.foundEnd = walk.foundEnd ∧
        walk.survey.final.offset = walk.offset + recordEnd lines j) ∨
      (recordEnd lines j + 2 ≤ k ∧ walk.survey.fault = some (.truncated (walk.offset + k)))

section Cutting

variable {line : Line} {lines : List Line} {walk : Walk} {record : Record} {k j : Nat}

/-- A walk ends before the first record if the cut leaves less than an address. -/
theorem cutAfter_of_short (hstopped : walk.stopped = false) (hlength : walk.unread.length = k)
    (hk : k < 2) : CutAfter lines walk k 0 := by
  have hsurvey := Walk.survey_of_finish (Walk.step_of_short hstopped (hlength ▸ hk))
  refine ⟨Nat.zero_le _, Nat.zero_le _, fun hne => ?_, ?_, .inl ?_⟩
  · have hfirst : recordEnd lines 0 + 5 ≤ recordEnd lines (0 + 1) :=
      recordEnd_add_le lines Nat.zero_lt_one hne
    omega
  · rw [hsurvey]
    rfl
  · rw [hsurvey, recordEnd_zero]
    exact ⟨by omega, rfl, rfl, rfl⟩

/-- A walk fails at the first record if the cut goes through it behind its address. -/
theorem cutAfter_of_cut (hstopped : walk.stopped = false) (hstands : record.StandsAt walk.address)
    (hline : record.line = .ok line) (hunread : walk.unread = record.bytes.take k)
    (haddress : 2 ≤ k) (hcut : k < record.bytes.length) : CutAfter (line :: lines) walk k 0 := by
  have hsize : walk.size = walk.offset + k := by
    rw [Walk.size, hunread, List.length_take, Nat.min_eq_left (by omega)]
  have hsurvey :=
    Walk.survey_of_fault (Walk.step_of_cut hstopped hstands hunread haddress hcut)
  refine ⟨Nat.zero_le _, Nat.zero_le _, fun _ => ?_, ?_, .inr ?_⟩
  · rw [recordEnd_cons_succ, recordEnd_zero, ← length_bytes_of_line hline]
    exact hcut
  · rw [hsurvey]
    rfl
  · rw [hsurvey, hsize, recordEnd_zero]
    exact ⟨by omega, rfl⟩

/-- A walk that has passed the first record comes to the cut among the others. -/
theorem CutAfter.cons {unread : Bytes}
    (hstep : walk.step = (.record record, walk.advance record unread))
    (hline : record.line = .ok line) (h : CutAfter lines (walk.advance record unread) k j) :
    CutAfter (line :: lines) walk (record.bytes.length + k) (j + 1) := by
  have hsurvey := Walk.survey_of_record hstep
  have hlength := length_bytes_of_line hline
  have hoffset : (walk.advance record unread).offset = walk.offset + record.bytes.length := rfl
  refine ⟨Nat.succ_le_succ h.le_length, ?_, fun hj => ?_, ?_, ?_⟩
  · have hend := h.end_le
    rw [recordEnd_cons_succ]
    omega
  · have hnext := h.lt_next_end (Nat.lt_of_succ_lt_succ hj)
    rw [recordEnd_cons_succ]
    omega
  · rw [hsurvey, List.mapM_cons, hline, h.records]
    rfl
  · rw [hsurvey, recordEnd_cons_succ, ← hlength, ← Nat.add_assoc, ← Nat.add_assoc, ← hoffset]
    rcases h.rest with ⟨hlt, hfault, hend, hfinal⟩ | ⟨hle, hfault⟩
    · exact .inl ⟨by omega, hfault, hend, hfinal⟩
    · exact .inr ⟨by omega, hfault⟩

/-- A dump begins with a record of the first line, and the others follow at the address that this
record names. -/
theorem exists_record_of_writeFrom {address : UInt16} {image : Bytes}
    (h : writeFrom address.toNat (line :: lines) = .ok image) :
    ∃ (first : Record) (rest : Bytes), first.StandsAt address ∧ first.line = .ok line ∧
      writeFrom first.next.toNat lines = .ok rest ∧ image = first.bytes ++ rest := by
  obtain ⟨hfits, rest, hrest, himage⟩ := writeFrom_cons_eq_ok_iff.1 h
  obtain ⟨hstands, hline⟩ := Record.standsAt_and_line_iff.2 ⟨hfits, rfl⟩
  rw [← UInt16.toNat_ofNat_of_lt' hfits] at hrest
  exact ⟨_, rest, hstands, hline, hrest, himage⟩

/-- A walk over the first bytes of a dump finds the records that end before the cut. -/
theorem exists_cutAfter (walk : Walk) {image : Bytes}
    (himage : writeFrom walk.address.toNat lines = .ok image) (hk : k < image.length)
    (hstopped : walk.stopped = false) (hunread : walk.unread = image.take k) :
    ∃ j, CutAfter lines walk k j := by
  have hlength : walk.unread.length = k := by
    rw [hunread, List.length_take, Nat.min_eq_left (by omega)]
  induction lines generalizing image walk k with
  | nil =>
      obtain rfl := Except.ok.inj himage
      exact ⟨0, cutAfter_of_short hstopped hlength hk⟩
  | cons line lines ih =>
      obtain ⟨first, rest, hstands, hline, hrest, rfl⟩ := exists_record_of_writeFrom himage
      by_cases hshort : k < 2
      · exact ⟨0, cutAfter_of_short hstopped hlength hshort⟩
      · by_cases hcut : k < first.bytes.length
        · rw [List.take_append_of_le_length (by omega)] at hunread
          exact ⟨0, cutAfter_of_cut hstopped hstands hline hunread (by omega) hcut⟩
        · -- The first record is whole, so the cut is one of the dump of the other lines.
          obtain ⟨later, rfl⟩ : ∃ later, k = first.bytes.length + later :=
            ⟨k - first.bytes.length, by omega⟩
          rw [List.take_length_add_append] at hunread
          rw [List.length_append] at hk
          have hstep := Walk.step_of_standsAt hstopped hstands hunread
          obtain ⟨j, hj⟩ := ih (walk.advance first (rest.take later)) hrest (by omega)
            hstopped rfl (by rw [Walk.advance, List.length_take, Nat.min_eq_left (by omega)])
          exact ⟨j + 1, hj.cons hstep hline⟩

/-- The records end too far apart for a cut to be just behind the ends of two of them. -/
theorem CutAfter.eq_of_near (h : CutAfter lines walk k j) {i : Nat} (hi : i ≤ lines.length)
    (hnear : k = recordEnd lines i ∨ k = recordEnd lines i + 1) : i = j := by
  have hend := h.end_le
  rcases Nat.lt_trichotomy i j with hlt | heq | hgt
  · have hapart := recordEnd_add_le lines hlt h.le_length
    omega
  · exact heq
  · have hnext := h.lt_next_end (Nat.lt_of_lt_of_le hgt hi)
    have hle : j + 1 ≤ i := hgt
    rcases Nat.eq_or_lt_of_le hle with rfl | hlt
    · omega
    · have hapart := recordEnd_add_le lines hlt hi
      omega

end Cutting

/-- A reader that finds lines before a fault gives the fault. -/
theorem readLines_of_records {dump : Bytes} {start : UInt16} {lines : List Line}
    (h : (survey dump start).records.mapM Record.line = .ok lines) :
    readLines dump start =
      match (survey dump start).fault with
      | some error => .error error
      | none => .ok lines := by
  unfold readLines
  dsimp only
  rw [h]
  cases (survey dump start).fault <;> rfl

/-- A dump that is cut off is read up to the cut.  If the cut is at the end of a record, or one byte
behind it, the lines before it are read, and only annotating fails, at the end of that record.
Anywhere else both readers fail at the cut. -/
theorem cut_detected (table : TokenTable) (lines : List Line) (start : UInt16) (dump : Bytes)
    (h : writeLines lines start = .ok dump) (k : Nat) (hk : k < dump.length) :
    (∀ j ≤ lines.length, k = recordEnd lines j ∨ k = recordEnd lines j + 1 →
      readLines (dump.take k) start = .ok (lines.take j) ∧
        annotate table (dump.take k) start = .error (.truncated (recordEnd lines j))) ∧
      ((∀ j ≤ lines.length, k ≠ recordEnd lines j ∧ k ≠ recordEnd lines j + 1) →
        readLines (dump.take k) start = .error (.truncated k) ∧
          annotate table (dump.take k) start = .error (.truncated k)) := by
  obtain ⟨i, hcut⟩ := exists_cutAfter (.start (dump.take k) start) h hk rfl rfl
  have hread := readLines_of_records hcut.records
  constructor
  · intro j hj hnear
    obtain rfl := hcut.eq_of_near hj hnear
    rcases hcut.rest with ⟨-, hfault, hend, hoffset⟩ | ⟨hle, -⟩
    · rw [Walk.start, Nat.zero_add] at hoffset
      rw [hread, annotate_of_missing_end hfault hend]
      rw [show (survey (dump.take k) start).fault = none from hfault]
      exact ⟨rfl, congrArg _ (congrArg _ hoffset)⟩
    · omega
  · intro hfar
    have hend := hcut.end_le
    have hi := hfar i hcut.le_length
    rcases hcut.rest with ⟨hlt, -⟩ | ⟨-, hfault⟩
    · omega
    · rw [Walk.start, Nat.zero_add] at hfault
      rw [hread, annotate_of_fault hfault]
      rw [show (survey (dump.take k) start).fault = some (.truncated k) from hfault]
      exact ⟨rfl, rfl⟩

/-- A program of two lines. -/
def twoLines : List Line := [⟨10, [0xA0]⟩, ⟨20, [0x87, 0x20, 0x41]⟩]

/-- The dump of the two lines. -/
def twoLinesDump : Bytes :=
  [0x1E, 0x07, 0x00, 0x0A, 0xA0, 0x00, 0x1E, 0x0F, 0x00, 0x14, 0x87, 0x20, 0x41, 0x00, 0x00, 0x00]

theorem cut_detected_twoLines :
    writeLines twoLines 0x1E01 = .ok twoLinesDump ∧
      (readLines (twoLinesDump.take 7) 0x1E01 = .ok [⟨10, [0xA0]⟩] ∧
        annotate Machine.dragon32.table (twoLinesDump.take 7) 0x1E01 = .error (.truncated 6)) ∧
      (readLines (twoLinesDump.take 13) 0x1E01 = .error (.truncated 13) ∧
        annotate Machine.dragon32.table (twoLinesDump.take 13) 0x1E01 = .error (.truncated 13)) ∧
      (readLines (twoLinesDump.take 15) 0x1E01 = .ok twoLines ∧
        annotate Machine.dragon32.table (twoLinesDump.take 15) 0x1E01 =
          .error (.truncated 14)) := by
  have hwritten : writeLines twoLines 0x1E01 = .ok twoLinesDump := by rfl
  have hdetected := cut_detected Machine.dragon32.table twoLines 0x1E01 twoLinesDump hwritten
  have hfar : ∀ j ≤ twoLines.length, 13 ≠ recordEnd twoLines j ∧ 13 ≠ recordEnd twoLines j + 1 := by
    decide
  refine ⟨hwritten, ?_, ?_, ?_⟩
  · exact (hdetected 7 (by decide)).1 1 (by decide) (by decide)
  · exact (hdetected 13 (by decide)).2 hfar
  · exact (hdetected 15 (by decide)).1 2 (by decide) (by decide)

end Dump
end ColorBasic
