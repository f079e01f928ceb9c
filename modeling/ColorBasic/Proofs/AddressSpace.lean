import ColorBasic.Proofs.DumpGrammar
import Mathlib.Algebra.GroupWithZero.Nat

/-!
# Programs and the address space

Writing checks that the address behind every record is a word, and the end mark, which follows the
last record, is not checked.  A dump whose records end at the last address has room for half of the
mark and is written nevertheless.  All other programs are written exactly if the whole dump has room
in the address space, whatever the order of their lines.
-/

namespace ColorBasic
namespace Dump

/-- The number of bytes that the records of the given lines take: each has an address, a number, the
code and the terminator. -/
def recordsSize (lines : List Line) : Nat := (lines.map fun line => line.code.length + 5).sum

@[simp] theorem recordsSize_nil : recordsSize [] = 0 := rfl

@[simp] theorem recordsSize_cons (line : Line) (lines : List Line) :
    recordsSize (line :: lines) = line.code.length + 5 + recordsSize lines := by
  simp [recordsSize]

theorem recordsSize_perm {lines other : List Line} (h : other.Perm lines) :
    recordsSize other = recordsSize lines :=
  (h.map fun line : Line => line.code.length + 5).sum_nat

section Writing

variable {address : Nat} {lines : List Line}

/-- Records that end at an address are written, and the end mark after them. -/
theorem exists_writeFrom (h : address + recordsSize lines < UInt16.size) :
    ∃ image, writeFrom address lines = .ok image ∧ image.length = recordsSize lines + 2 := by
  induction lines generalizing address with
  | nil => exact ⟨[0, 0], rfl, rfl⟩
  | cons line lines ih =>
      rw [recordsSize_cons] at h
      obtain ⟨rest, hrest, hlength⟩ := @ih (address + line.code.length + 5) (by omega)
      refine ⟨_, writeFrom_cons_eq_ok_iff.2 ⟨by omega, rest, hrest, rfl⟩, ?_⟩
      rw [List.length_append, Record.length_bytes, List.length_append, List.length_singleton,
        hlength, recordsSize_cons]
      omega

/-- The first record that ends beyond the last address ends the writing. -/
theorem writeFrom_eq_programTooLarge (haddress : address < UInt16.size)
    (h : UInt16.size ≤ address + recordsSize lines) :
    writeFrom address lines = .error .programTooLarge := by
  induction lines generalizing address with
  | nil =>
      rw [recordsSize_nil] at h
      omega
  | cons line lines ih =>
      rw [recordsSize_cons] at h
      rw [writeFrom]
      split
      · rename_i hfits
        rw [ih hfits (by omega)]
        rfl
      · rfl

end Writing

section Fitting

variable {lines : List Line} {start : UInt16}

/-- A program is written exactly if the end of its records has an address. -/
theorem exists_writeLines_iff :
    (∃ dump, writeLines lines start = .ok dump) ↔
      start.toNat + recordsSize lines < UInt16.size := by
  constructor
  · rintro ⟨dump, hdump⟩
    by_contra hlarge
    have herror := writeFrom_eq_programTooLarge start.toNat_lt (Nat.not_lt.1 hlarge)
    rw [writeLines, herror] at hdump
    cases hdump
  · intro hfits
    obtain ⟨dump, hdump, -⟩ := exists_writeFrom hfits
    exact ⟨dump, hdump⟩

theorem length_of_writeLines {dump : Bytes} (h : writeLines lines start = .ok dump) :
    dump.length = recordsSize lines + 2 := by
  obtain ⟨image, himage, hlength⟩ := exists_writeFrom (exists_writeLines_iff.1 ⟨dump, h⟩)
  rw [writeLines, himage] at h
  rw [← Except.ok.inj h, hlength]

/-- A program is written exactly if the whole dump with its end mark has room in the address space,
and refused for its size otherwise. -/
structure WritesWhatFits (lines : List Line) (start : UInt16) : Prop where
  written_iff : (∃ dump, writeLines lines start = .ok dump) ↔
    start.toNat + recordsSize lines + 2 ≤ UInt16.size
  refused : UInt16.size < start.toNat + recordsSize lines + 2 →
    writeLines lines start = .error .programTooLarge
  inside : ∀ dump, writeLines lines start = .ok dump → start.toNat + dump.length ≤ UInt16.size

/-- Only a program whose records end at the last address is written without room for its end
mark. -/
theorem writesWhatFits_iff_end_ne :
    WritesWhatFits lines start ↔ start.toNat + recordsSize lines ≠ UInt16.size - 1 := by
  constructor
  · intro h hlast
    have hwritten : ∃ dump, writeLines lines start = .ok dump :=
      exists_writeLines_iff.2 (by rw [hlast]; decide)
    have hroom := h.written_iff.1 hwritten
    rw [hlast] at hroom
    exact absurd hroom (by decide)
  · intro hne
    have hsize : UInt16.size = 65536 := rfl
    refine ⟨?_, fun hlarge => ?_, fun dump hdump => ?_⟩
    · rw [exists_writeLines_iff]
      omega
    · exact writeFrom_eq_programTooLarge start.toNat_lt (by omega)
    · have hend := exists_writeLines_iff.1 ⟨dump, hdump⟩
      rw [length_of_writeLines hdump]
      omega

end Fitting

/-- A program is written exactly if the end of its records has an address, and refused for its size
otherwise; the order of the lines does not matter.  So it is written exactly if it fits with its end
mark, unless its records end at the last address. -/
theorem written_exactly (lines : List Line) (start : UInt16) :
    ((∃ dump, writeLines lines start = .ok dump) ↔
        start.toNat + recordsSize lines < UInt16.size) ∧
      (UInt16.size ≤ start.toNat + recordsSize lines →
        writeLines lines start = .error .programTooLarge) ∧
      (∀ dump, writeLines lines start = .ok dump → dump.length = recordsSize lines + 2) ∧
      (∀ other : List Line, other.Perm lines →
        ((∃ dump, writeLines other start = .ok dump) ↔
          ∃ dump, writeLines lines start = .ok dump)) ∧
      (WritesWhatFits lines start ↔ start.toNat + recordsSize lines ≠ UInt16.size - 1) := by
  refine ⟨exists_writeLines_iff, writeFrom_eq_programTooLarge start.toNat_lt,
    fun dump => length_of_writeLines, fun other hperm => ?_, writesWhatFits_iff_end_ne⟩
  rw [exists_writeLines_iff, exists_writeLines_iff, recordsSize_perm hperm]

/-- The record of the line ends at the last address, and the end mark begins there. -/
theorem not_writesWhatFits_lastAddress :
    writeLines [⟨10, [0xA0]⟩] 0xFFF9 = .ok [0xFF, 0xFF, 0x00, 0x0A, 0xA0, 0x00, 0x00, 0x00] ∧
      ¬WritesWhatFits [⟨10, [0xA0]⟩] 0xFFF9 := by
  have hwritten : writeLines [⟨10, [0xA0]⟩] 0xFFF9 =
      .ok [0xFF, 0xFF, 0x00, 0x0A, 0xA0, 0x00, 0x00, 0x00] := by rfl
  refine ⟨hwritten, fun h => ?_⟩
  have hinside := h.inside _ hwritten
  exact absurd hinside (by decide)

end Dump
end ColorBasic
