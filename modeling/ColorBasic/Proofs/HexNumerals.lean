import ColorBasic.Text.Numeral
import Mathlib.Algebra.Group.Nat.Defs

/-!
# Hexadecimal numerals

A hexadecimal numeral has a fixed width, so it is read back without anything to mark its end.  This
holds in lower and in upper case, and for the digits of a list of bytes as a whole.
-/

namespace ColorBasic.Text

/-- A way to write digits so that they are read as hexadecimal ones. -/
def SpellsDigits (spell : Char → Char) : Prop :=
  ∀ d < 16, digitValue? 16 (spell (Nat.digitChar d)) = some d

theorem spellsDigits_id : SpellsDigits id := by
  unfold SpellsDigits
  decide

theorem spellsDigits_toUpper : SpellsDigits Char.toUpper := by
  unfold SpellsDigits
  decide

@[simp] theorem length_lowerHex (width n : Nat) : (lowerHex width n).length = width := by
  induction width generalizing n with
  | zero => rfl
  | succ width ih => rw [lowerHex, List.length_append, ih, List.length_singleton]

theorem exists_digit_of_mem_lowerHex {width n : Nat} {c : Char} (h : c ∈ lowerHex width n) :
    ∃ d < 16, Nat.digitChar d = c := by
  induction width generalizing n with
  | zero => simp [lowerHex] at h
  | succ width ih =>
      rw [lowerHex, List.mem_append, List.mem_singleton] at h
      rcases h with h | rfl
      · exact ih h
      · exact ⟨n % 16, Nat.mod_lt _ (by decide), rfl⟩

section Reading

variable {spell : Char → Char}

theorem foldlM_lowerHex (hspell : SpellsDigits spell) (width n : Nat) :
    ((lowerHex width n).map spell).foldlM
        (fun value c => (digitValue? 16 c).map (value * 16 + ·)) 0 =
      some (n % 16 ^ width) := by
  induction width generalizing n with
  | zero => simp [lowerHex, Nat.mod_one]
  | succ width ih =>
      have hdigit := hspell (n % 16) (Nat.mod_lt _ (by decide))
      have hvalue : n / 16 % 16 ^ width * 16 + n % 16 = n % 16 ^ (width + 1) := by
        rw [Nat.pow_succ, Nat.mul_comm (16 ^ width), Nat.mod_mul]
        omega
      rw [lowerHex, List.map_append, List.foldlM_append, ih]
      simp [hdigit, hvalue]

/-- A numeral is read back, however its digits are spelled, if its width holds the number. -/
theorem readNumeral?_map_lowerHex (hspell : SpellsDigits spell) {width n : Nat}
    (hwidth : 0 < width) (hn : n < 16 ^ width) :
    readNumeral? 16 ((lowerHex width n).map spell) = some n := by
  have hne : ((lowerHex width n).map spell).isEmpty = false := by
    rw [← Bool.not_eq_true, List.isEmpty_iff_length_eq_zero, List.length_map, length_lowerHex]
    omega
  rw [readNumeral?, hne, if_neg (by simp), foldlM_lowerHex hspell, Nat.mod_eq_of_lt hn]

end Reading

theorem readNumeral?_lowerHex {width n : Nat} (hwidth : 0 < width) (hn : n < 16 ^ width) :
    readNumeral? 16 (lowerHex width n) = some n := by
  have hread := readNumeral?_map_lowerHex spellsDigits_id hwidth hn
  rwa [List.map_id] at hread

theorem readNumeral?_upperHex {width n : Nat} (hwidth : 0 < width) (hn : n < 16 ^ width) :
    readNumeral? 16 (upperHex width n) = some n :=
  readNumeral?_map_lowerHex spellsDigits_toUpper hwidth hn

/-- Texts that begin with numerals of one width agree only if the numbers and the rests do. -/
theorem lowerHex_append_inj {width m n : Nat} {s t : Text} (hwidth : 0 < width)
    (hm : m < 16 ^ width) (hn : n < 16 ^ width)
    (h : lowerHex width m ++ s = lowerHex width n ++ t) : m = n ∧ s = t := by
  obtain ⟨hnumeral, hrest⟩ := List.append_inj h (by rw [length_lowerHex, length_lowerHex])
  have hread := readNumeral?_lowerHex hwidth hm
  rw [hnumeral, readNumeral?_lowerHex hwidth hn] at hread
  exact ⟨(Option.some.inj hread).symm, hrest⟩

/-- The numeral of a word tells the word, whatever follows. -/
theorem word_eq_of_lowerHex_append {v w : UInt16} {s t : Text}
    (h : lowerHex 4 v.toNat ++ s = lowerHex 4 w.toNat ++ t) : v = w :=
  UInt16.toNat_inj.1 (lowerHex_append_inj (by decide) v.toNat_lt w.toNat_lt h).1

theorem readWord?_upperHex {width n : Nat} (hwidth : 0 < width) (hn : n < 16 ^ width)
    (hword : n < UInt16.size) : readWord? 16 (upperHex width n) = some (UInt16.ofNat n) := by
  rw [readWord?, readNumeral?_upperHex hwidth hn]
  exact if_pos hword

/-- The bytes that pairs of hexadecimal digits stand for. -/
def readBytes? : Text → Option Bytes
  | [] => some []
  | [_] => none
  | high :: low :: rest => do
    let value ← readNumeral? 16 [high, low]
    return UInt8.ofNat value :: (← readBytes? rest)

theorem readBytes?_upperHex_append (b : UInt8) (rest : Text) :
    readBytes? (upperHex 2 b.toNat ++ rest) = (readBytes? rest).map (b :: ·) := by
  have hread : readNumeral? 16 (upperHex 2 b.toNat) = some b.toNat :=
    readNumeral?_upperHex (by decide) b.toNat_lt
  change readBytes? (_ :: _ :: rest) = _
  rw [readBytes?]
  change (readNumeral? 16 (upperHex 2 b.toNat) >>= _) = _
  rw [hread]
  cases readBytes? rest <;> simp

/-- The digits of bytes are read back as these bytes. -/
theorem readBytes?_hexDump (bytes : Bytes) : readBytes? (hexDump bytes) = some bytes := by
  induction bytes with
  | nil => rfl
  | cons b bytes ih =>
      rw [hexDump, List.flatMap_cons, readBytes?_upperHex_append]
      change (readBytes? (hexDump bytes)).map _ = _
      rw [ih, Option.map_some]

end ColorBasic.Text
