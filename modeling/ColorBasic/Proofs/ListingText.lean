import ColorBasic.Text.DecimalDigit
import ColorBasic.Text.Lines
import ColorBasic.Text.Numeral
import Mathlib.Data.List.DropRight
import Mathlib.Data.List.Infix

/-!
# Lines, blanks and numerals in listing text

Trimming leaves text without blanks at either end.  Joining lines and splitting the result gives
the lines back, if none of them is empty, holds a line feed or ends with a carriage return.  The
decimal numeral of a number is read back as this number.
-/

namespace ColorBasic.Text

section Trimming

/-- Text that does not end with a blank. -/
def EndsFilled (s : Text) : Prop := ∀ c, s.getLast? = some c → isBlank c = false

/-- Text without blanks at either end. -/
structure Trimmed (s : Text) : Prop where
  head : ∀ c, s.head? = some c → isBlank c = false
  last : s.EndsFilled

theorem endsFilled_append {s t : Text} (h : t ≠ []) : (s ++ t).EndsFilled ↔ t.EndsFilled := by
  rw [EndsFilled, EndsFilled, List.getLast?_append_of_ne_nil _ h]

theorem trimEnd_eq_rdropWhile (s : Text) : trimEnd s = s.rdropWhile isBlank := rfl

theorem trimEnd_isPrefix (s : Text) : trimEnd s <+: s := List.rdropWhile_prefix isBlank s

theorem endsFilled_trimEnd (s : Text) : (trimEnd s).EndsFilled := by
  intro c hc
  obtain ⟨hne, rfl⟩ := List.mem_getLast?_eq_getLast hc
  exact eq_false_of_ne_true (List.rdropWhile_last_not isBlank s hne)

theorem trimEnd_eq_self {s : Text} (h : s.EndsFilled) : trimEnd s = s := by
  rw [trimEnd_eq_rdropWhile, List.rdropWhile_eq_self_iff]
  intro hne
  simp [h _ (List.getLast?_eq_some_getLast hne)]

theorem trim_isInfix (s : Text) : trim s <:+: s :=
  (trimEnd_isPrefix _).isInfix.trans (List.dropWhile_suffix _).isInfix

theorem trimmed_trim (s : Text) : Trimmed (trim s) := by
  refine ⟨fun c hc => ?_, endsFilled_trimEnd _⟩
  obtain ⟨rest, hrest⟩ := trimEnd_isPrefix (trimStart s)
  have hstart : (trimStart s).head? = some c := by
    rw [← hrest, List.head?_append, show trimEnd (trimStart s) = trim s from rfl, hc]
    rfl
  have hnot := List.head?_dropWhile_not isBlank s
  rw [show s.dropWhile isBlank = trimStart s from rfl, hstart] at hnot
  exact hnot

theorem trim_eq_self {s : Text} (h : Trimmed s) : trim s = s := by
  have hstart : trimStart s = s := by
    cases s with
    | nil => rfl
    | cons c rest => simp [trimStart, h.head c rfl]
  rw [trim, hstart, trimEnd_eq_self h.last]

end Trimming

section Splitting

variable {separator : Char}

theorem splitOn_eq_list_splitOn (s : Text) : splitOn separator s = List.splitOn separator s := by
  induction s with
  | nil => rfl
  | cons c rest ih =>
      have hsplit : splitOn separator (c :: rest) =
          if c = separator then [] :: splitOn separator rest
          else consFirst c (splitOn separator rest) := rfl
      rw [hsplit, ih, List.splitOn_cons_eq_if_modifyHead]
      simp only [beq_iff_eq]
      split
      · rfl
      · obtain ⟨piece, pieces, hpieces⟩ :=
          List.exists_cons_of_ne_nil (List.splitOn_ne_nil separator rest)
        rw [hpieces]
        rfl

theorem infix_intercalate {pieces : List Text} {piece : Text} (h : piece ∈ pieces) :
    piece <:+: [separator].intercalate pieces := by
  induction pieces with
  | nil => simp at h
  | cons first rest ih =>
      cases rest with
      | nil =>
          rw [List.mem_singleton.1 h, List.intercalate_singleton]
      | cons second rest =>
          rw [List.intercalate_cons_cons]
          rcases List.mem_cons.1 h with rfl | h
          · exact ((List.prefix_append _ _).trans (List.prefix_append _ _)).isInfix
          · exact (ih h).trans (List.suffix_append _ _).isInfix

theorem infix_of_mem_splitOn {s piece : Text} (h : piece ∈ splitOn separator s) : piece <:+: s := by
  have hjoined : [separator].intercalate (splitOn separator s) = s := by
    rw [splitOn_eq_list_splitOn, List.intercalate_splitOn]
  rw [← hjoined]
  exact infix_intercalate h

theorem not_mem_of_mem_splitOn {s piece : Text} (h : piece ∈ splitOn separator s) :
    separator ∉ piece := by
  induction s generalizing piece with
  | nil => simp [List.mem_singleton.1 h]
  | cons c rest ih =>
      rw [splitOn_eq_list_splitOn, List.splitOn_cons_eq_if_modifyHead,
        ← splitOn_eq_list_splitOn] at h
      split at h
      · rcases List.mem_cons.1 h with rfl | h
        · simp
        · exact ih h
      · rename_i hc
        cases hpieces : splitOn separator rest with
        | nil => simp [hpieces] at h
        | cons first pieces =>
            rw [hpieces] at ih h
            rcases List.mem_cons.1 h with rfl | h
            · have hfirst := ih List.mem_cons_self
              rw [List.mem_cons, not_or]
              exact ⟨fun heq => hc (by simp [heq]), hfirst⟩
            · exact ih (List.mem_cons_of_mem _ h)

theorem splitOn_intercalate {texts : List Text} (hne : texts ≠ []) :
    splitOn separator ([separator].intercalate texts) = texts.flatMap (splitOn separator) := by
  induction texts with
  | nil => exact (hne rfl).elim
  | cons first rest ih =>
      cases rest with
      | nil => simp
      | cons second rest =>
          rw [List.intercalate_cons_cons, List.append_assoc, List.singleton_append,
            splitOn_eq_list_splitOn, List.splitOn_append_cons_self, ← splitOn_eq_list_splitOn,
            ← splitOn_eq_list_splitOn, ih (by simp)]
          rfl

end Splitting

section Lines

/-- A line that stays one line when it is joined with others and the text is split again. -/
structure IsLine (line : Text) : Prop where
  /-- An empty line would get lost at the end. -/
  ne_nil : line ≠ []
  /-- A line feed would end the line early. -/
  no_feed : '\n' ∉ line
  /-- A carriage return at the end would count as part of the line end. -/
  no_return : line.getLast? ≠ some '\r'

theorem linesOfPieces_eq_self {pieces : List Text} (h : ∀ piece ∈ pieces, piece.IsLine) :
    linesOfPieces pieces = pieces := by
  fun_induction linesOfPieces pieces with
  | case1 => rfl
  | case2 last hempty =>
      exact ((h last (List.mem_singleton_self last)).ne_nil (List.isEmpty_iff.1 hempty)).elim
  | case3 last hempty => rfl
  | case4 piece pieces hlast ih =>
      have hpiece := h piece List.mem_cons_self
      rw [dropReturn, if_neg hpiece.no_return,
        ih fun other hother => h other (List.mem_cons_of_mem _ hother)]

/-- Joined lines are split into the same lines. -/
theorem lines_joinLines {texts : List Text} (h : ∀ line ∈ texts, line.IsLine) :
    (joinLines texts).lines = texts := by
  by_cases hne : texts = []
  · subst hne
    rfl
  · rw [lines, joinLines, splitOn_eq_list_splitOn,
      List.splitOn_intercalate '\n' (fun line hline => (h line hline).no_feed) hne,
      linesOfPieces_eq_self h]

/-- A line begins where a piece between line feeds begins, and at most its end is missing. -/
theorem exists_piece_of_mem_lines {s line : Text} (h : line ∈ s.lines) :
    ∃ piece ∈ splitOn '\n' s, line <+: piece := by
  unfold lines at h
  generalize splitOn '\n' s = pieces at h ⊢
  fun_induction linesOfPieces pieces with
  | case1 => simp at h
  | case2 last hempty => simp at h
  | case3 last hempty =>
      rw [List.mem_singleton.1 h]
      exact ⟨last, List.mem_singleton_self last, List.prefix_rfl⟩
  | case4 piece pieces hlast ih =>
      rcases List.mem_cons.1 h with rfl | h
      · refine ⟨piece, List.mem_cons_self, ?_⟩
        unfold dropReturn
        split
        · exact List.dropLast_prefix piece
        · exact List.prefix_rfl
      · obtain ⟨found, hfound, hbegin⟩ := ih h
        exact ⟨found, List.mem_cons_of_mem _ hfound, hbegin⟩

theorem no_feed_of_mem_lines {s line : Text} (h : line ∈ s.lines) : '\n' ∉ line := by
  obtain ⟨piece, hpiece, hbegin⟩ := exists_piece_of_mem_lines h
  exact fun hfeed => not_mem_of_mem_splitOn hpiece (hbegin.subset hfeed)

end Lines

section Numerals

theorem digitValue?_digitChar {d : Nat} (h : d < 10) :
    digitValue? 10 (Nat.digitChar d) = some d := by
  have hall : ∀ d < 10, digitValue? 10 (Nat.digitChar d) = some d := by decide
  exact hall d h

theorem foldlM_decimal (n : Nat) :
    (decimal n).foldlM (fun value c => (digitValue? 10 c).map (value * 10 + ·)) 0 = some n := by
  induction n using Nat.strongRecOn with
  | ind n ih =>
      rw [decimal, Nat.toDigits_eq_if (by decide)]
      split
      · rename_i hsmall
        simp [digitValue?_digitChar hsmall]
      · rename_i hlarge
        have hrest := ih (n / 10) (by omega)
        rw [decimal] at hrest
        rw [List.foldlM_append, hrest]
        have hdigit := digitValue?_digitChar (show n % 10 < 10 by omega)
        simp only [List.foldlM_cons, List.foldlM_nil, Option.bind_eq_bind, Option.bind_some, hdigit,
          Option.map_some, Option.pure_def]
        congr 1
        omega

theorem readNumeral?_decimal (n : Nat) : readNumeral? 10 (decimal n) = some n := by
  have hne : (decimal n).isEmpty = false := by simp [decimal]
  rw [readNumeral?, hne, if_neg (by simp), foldlM_decimal]

theorem readWord?_decimal (n : Nat) :
    readWord? 10 (decimal n) = if n < UInt16.size then some (UInt16.ofNat n) else none := by
  rw [readWord?, readNumeral?_decimal]

theorem isDigit_of_mem_decimal {n : Nat} {c : Char} (h : c ∈ decimal n) : c.isDigit = true :=
  Nat.isDigit_of_mem_toDigits (by decide) (by decide) h

theorem toNat_of_isDigit {c : Char} (h : c.isDigit = true) : 0x30 ≤ c.toNat ∧ c.toNat ≤ 0x39 := by
  simp only [Char.isDigit, Bool.and_eq_true, decide_eq_true_eq] at h
  exact ⟨UInt32.le_iff_toNat_le.1 h.1, UInt32.le_iff_toNat_le.1 h.2⟩

theorem isDecimalDigit_of_isDigit {c : Char} (h : c.isDigit = true) : isDecimalDigit c = true := by
  have hbounds := toNat_of_isDigit h
  refine List.any_eq_true.2 ⟨(0x30, 0x39), List.mem_cons_self, ?_⟩
  simpa using hbounds

theorem isDecimalDigit_of_mem_decimal {n : Nat} {c : Char} (h : c ∈ decimal n) :
    isDecimalDigit c = true :=
  isDecimalDigit_of_isDigit (isDigit_of_mem_decimal h)

theorem isDigit_of_digitValue? {c : Char} {value : Nat} (h : digitValue? 10 c = some value) :
    c.isDigit = true := by
  unfold digitValue? at h
  obtain ⟨hvalue, hsmall⟩ := Option.filter_eq_some_iff.1 h
  rw [decide_eq_true_eq] at hsmall
  split at hvalue
  · rename_i hdigit
    rw [Char.isDigit, Bool.and_eq_true, decide_eq_true_eq, decide_eq_true_eq]
    exact hdigit
  · -- The value of a letter is ten at least.
    split at hvalue
    · have heq := Option.some.inj hvalue
      omega
    · split at hvalue
      · have heq := Option.some.inj hvalue
        omega
      · exact absurd hvalue (by simp)

theorem isDigit_of_foldlM {s : Text} {start value : Nat}
    (h : s.foldlM (fun value c => (digitValue? 10 c).map (value * 10 + ·)) start = some value) :
    ∀ c ∈ s, c.isDigit = true := by
  induction s generalizing start with
  | nil => simp
  | cons c rest ih =>
      rw [List.foldlM_cons] at h
      obtain ⟨next, hnext, hrest⟩ := Option.bind_eq_some_iff.1 h
      obtain ⟨digit, hdigit, -⟩ := Option.map_eq_some_iff.1 hnext
      exact List.forall_mem_cons.2 ⟨isDigit_of_digitValue? hdigit, ih hrest⟩

/-- A text that is read as a number consists of decimal digits, of which it has one at least. -/
theorem isDigit_of_readWord? {s : Text} {value : UInt16} (h : readWord? 10 s = some value) :
    s ≠ [] ∧ ∀ c ∈ s, c.isDigit = true := by
  unfold readWord? readNumeral? at h
  by_cases hempty : s.isEmpty = true
  · simp [hempty] at h
  · rw [if_neg hempty] at h
    split at h
    · rename_i n hn
      exact ⟨fun hnil => hempty (List.isEmpty_iff.2 hnil), isDigit_of_foldlM hn⟩
    · exact absurd h (by simp)

theorem isBlank_of_mem_decimal {n : Nat} {c : Char} (h : c ∈ decimal n) : isBlank c = false := by
  have hbounds := toNat_of_isDigit (isDigit_of_mem_decimal h)
  simp only [isBlank, inRanges, blankRanges, List.any_cons, List.any_nil, Bool.or_false,
    Bool.or_eq_false_iff, Bool.and_eq_false_iff, decide_eq_false_iff_not]
  omega

end Numerals

end ColorBasic.Text
