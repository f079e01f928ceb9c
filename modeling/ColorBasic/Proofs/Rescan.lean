import ColorBasic.Proofs.LineScan

/-!
# Scanning a changed line

A scan looks ahead only as far as a keyword reaches.  What stands after a place that no keyword
reaches across can therefore be changed, and all lexemes before it are read again as they were.
Putting in a space makes such a place, and taking one out must leave one.
-/

namespace ColorBasic
namespace TokenTable

/-- Lexemes that a scan of their text reads again. -/
def Scanned (table : TokenTable) (mode : Mode) (lexemes : List Lexeme) : Prop :=
  table.scan mode (lexemes.flatMap Lexeme.text) = lexemes

/-- A place in a text that no keyword reaches across. -/
def Uncrossed (table : TokenTable) (before after : Text) : Prop :=
  ∀ keyword ∈ table.keywords, ∀ first second, keyword.text = first ++ second →
    first ≠ [] → second ≠ [] → first <:+ before → ¬second <+: after

variable {table : TokenTable}

section Places

variable {before after : Text}

theorem Uncrossed.of_suffix {part : Text} (h : table.Uncrossed before after)
    (hpart : part <:+ before) : table.Uncrossed part after :=
  fun keyword hmem first second htext hfirst hsecond hends =>
    h keyword hmem first second htext hfirst hsecond (hends.trans hpart)

theorem uncrossed_nil (before : Text) : table.Uncrossed before [] :=
  fun _ _ _ _ _ _ hsecond _ hbegin => hsecond (List.prefix_nil.1 hbegin)

/-- A character that continues no keyword ends all of them. -/
theorem uncrossed_cons {c : Char} (h : ∀ keyword ∈ table.keywords, c ∉ keyword.text.tail)
    (before after : Text) : table.Uncrossed before (c :: after) := by
  intro keyword hmem first second htext hfirst hsecond _ hbegin
  apply h keyword hmem
  cases second with
  | nil => exact (hsecond rfl).elim
  | cons d others =>
      obtain ⟨rfl, -⟩ := List.cons_prefix_cons.1 hbegin
      rw [htext, List.tail_append_of_ne_nil hfirst]
      simp

/-- A character that every keyword can only end with starts none that goes on. -/
theorem uncrossed_concat {c : Char} (h : ∀ keyword ∈ table.keywords, c ∉ keyword.text.dropLast)
    (before after : Text) : table.Uncrossed (before ++ [c]) after := by
  intro keyword hmem first second htext hfirst hsecond hends _
  apply h keyword hmem
  obtain ⟨init, last, rfl⟩ := List.eq_nil_or_concat' first |>.resolve_left hfirst
  have hlast : last = c := by
    have hsame := (List.suffix_append init [last]).trans hends
    have hone := List.suffix_of_suffix_length_le hsame (List.suffix_append before [c]) (by simp)
    simpa using hone.eq_of_length (by simp)
  rw [htext, List.dropLast_append_of_ne_nil hsecond, hlast]
  simp

/-- Up to a place that no keyword reaches across, a search does not look any further. -/
theorem Uncrossed.longestMatch?_append (h : table.Uncrossed before after) (hne : before ≠ []) :
    table.longestMatch? (before ++ after) = table.longestMatch? before := by
  refine longestMatch?_congr fun keyword hmem => ⟨fun hbegin => ?_, fun hbegin => ?_⟩
  · rcases List.prefix_or_prefix_of_prefix hbegin (List.prefix_append before after) with hin | hout
    · exact hin
    · obtain ⟨second, hsecond⟩ := hout
      by_cases hempty : second = []
      · rw [← hsecond, hempty, List.append_nil]
      · rw [← hsecond, List.prefix_append_right_inj] at hbegin
        exact (h keyword hmem before second hsecond.symm hne hempty List.suffix_rfl hbegin).elim
  · exact hbegin.trans (List.prefix_append before after)

end Places

section Reading

variable {mode : Mode} {c : Char} {rest : Text}

/-- The lexeme that is read next begins the text. -/
theorem exists_text_read (table : TokenTable) (mode : Mode) (c : Char) (rest : Text) :
    ∃ more after, (table.read mode c rest).1.text = c :: more ∧ rest = more ++ after := by
  have hplain : ∃ more after, (Lexeme.plain c).text = c :: more ∧ rest = more ++ after :=
    ⟨[], rest, rfl, rfl⟩
  unfold read
  dsimp only
  split
  · split
    · rename_i keyword hmatch
      have hsplit := text_append_drop_of_longestMatch? hmatch
      have hne := table.text_ne_nil keyword (mem_and_prefix_of_longestMatch? hmatch).1
      obtain ⟨first, more, htext⟩ := List.exists_cons_of_ne_nil hne
      rw [htext, List.cons_append] at hsplit
      obtain ⟨rfl, hrest⟩ := List.cons.inj hsplit
      exact ⟨more, _, htext, hrest.symm⟩
    · exact hplain
  · exact hplain

theorem read_congr {other : Text}
    (h : mode.reading c = .code → c ≠ '"' →
      table.longestMatch? (c :: rest) = table.longestMatch? (c :: other)) :
    table.read mode c rest = table.read mode c other := by
  unfold read
  by_cases hcode : mode.reading c = .code ∧ c ≠ '"'
  · rw [if_pos hcode, if_pos hcode, h hcode.1 hcode.2]
  · rw [if_neg hcode, if_neg hcode]

/-- Lexemes are read again if the first one is, and the others are in the mode after it. -/
theorem scanned_cons_iff {lexeme : Lexeme} {lexemes : List Lexeme} :
    table.Scanned mode (lexeme :: lexemes) ↔
      ∃ c more next, lexeme.text = c :: more ∧
        table.read mode c (more ++ lexemes.flatMap Lexeme.text) = (lexeme, next) ∧
          table.Scanned next lexemes := by
  unfold Scanned
  rw [List.flatMap_cons]
  constructor
  · intro h
    cases hwhole : lexeme.text ++ lexemes.flatMap Lexeme.text with
    | nil =>
        rw [hwhole, scan_nil] at h
        cases h
    | cons c rest =>
        rw [hwhole, scan_cons] at h
        obtain ⟨hfirst, hothers⟩ := List.cons.inj h
        obtain ⟨more, after, htext, -⟩ := exists_text_read table mode c rest
        rw [hfirst] at htext hothers
        obtain rfl : more ++ lexemes.flatMap Lexeme.text = rest := by
          rw [htext, List.cons_append] at hwhole
          exact (List.cons.inj hwhole).2
        refine ⟨c, more, _, htext, Prod.ext hfirst rfl, ?_⟩
        rw [htext] at hothers
        simpa using hothers
  · rintro ⟨c, more, next, htext, hread, hothers⟩
    rw [htext, List.cons_append, scan_cons, hread]
    simp [htext, hothers]

end Reading

section Tails

variable {mode : Mode} {before old new : List Lexeme}

/-- After a place that no keyword reaches across, lexemes can be exchanged for any others that are
read in the same modes. -/
theorem Scanned.exchange (h : table.Scanned mode (before ++ old))
    (hplace : table.Uncrossed (before.flatMap Lexeme.text) (new.flatMap Lexeme.text))
    (htail : ∀ mode, table.Scanned mode old → table.Scanned mode new) :
    table.Scanned mode (before ++ new) := by
  induction before generalizing mode with
  | nil => exact htail mode h
  | cons lexeme before ih =>
      rw [List.cons_append] at h ⊢
      rw [List.flatMap_cons] at hplace
      obtain ⟨c, more, next, htext, hread, hrest⟩ := scanned_cons_iff.1 h
      refine scanned_cons_iff.2
        ⟨c, more, next, htext, ?_, ih hrest (hplace.of_suffix (List.suffix_append _ _))⟩
      rw [← hread]
      refine read_congr fun hcode hquote => ?_
      -- On either side the search ends at the place, so it finds what it finds up to there.
      rw [htext] at hplace
      have hnew := hplace.longestMatch?_append (by simp)
      simp only [List.flatMap_append, List.cons_append, List.append_assoc] at hnew hread ⊢
      rw [hnew]
      have hpart : c :: (more ++ before.flatMap Lexeme.text) <+:
          c :: (more ++ (before.flatMap Lexeme.text ++ old.flatMap Lexeme.text)) := by
        rw [← List.append_assoc, ← List.cons_append]
        exact List.prefix_append _ _
      cases hmatch : table.longestMatch?
          (c :: (more ++ (before.flatMap Lexeme.text ++ old.flatMap Lexeme.text))) with
      | none => exact longestMatch?_eq_none_of_prefix hmatch hpart
      | some keyword =>
          rw [table.read_of_match hcode hquote hmatch] at hread
          have hkeyword : keyword.text = c :: more := by
            rw [← htext, ← (Prod.mk.inj hread).1]
            rfl
          apply longestMatch?_of_prefix hmatch hpart
          rw [hkeyword, ← List.cons_append]
          exact List.prefix_append _ _

/-- What stands before any place is scanned alike alone. -/
theorem Scanned.of_append (h : table.Scanned mode (before ++ old)) : table.Scanned mode before := by
  rw [← List.append_nil before]
  exact h.exchange (uncrossed_nil _) fun mode _ => table.scan_nil mode

section Spaces

variable (hblank : ∀ keyword ∈ table.keywords, ' ' ∉ keyword.text)

include hblank

theorem longestMatch?_space (rest : Text) : table.longestMatch? (' ' :: rest) = none := by
  refine longestMatch?_eq_none_iff.2 fun keyword hmem hbegin => hblank keyword hmem ?_
  obtain ⟨first, others, htext⟩ := List.exists_cons_of_ne_nil (table.text_ne_nil keyword hmem)
  rw [htext] at hbegin ⊢
  rw [(List.cons_prefix_cons.1 hbegin).1]
  exact List.mem_cons_self

theorem read_space (mode : Mode) (rest : Text) :
    table.read mode ' ' rest = (.plain ' ', mode) := by
  have hreading : mode.reading ' ' = mode := by simp [Mode.reading]
  by_cases hcode : mode = .code
  · rw [table.read_of_no_match (hreading.trans hcode) (by decide) (longestMatch?_space hblank rest),
      hcode]
  · rw [table.read_of_literal (by rwa [hreading]), hreading]
    cases mode <;> simp [Mode.afterChar] at hcode ⊢

/-- A space is read in every mode and changes none. -/
theorem scanned_space_iff : table.Scanned mode (.plain ' ' :: old) ↔ table.Scanned mode old := by
  rw [scanned_cons_iff]
  constructor
  · rintro ⟨c, more, next, htext, hread, hold⟩
    obtain ⟨rfl, rfl⟩ := List.cons.inj htext
    rw [read_space hblank] at hread
    rwa [(Prod.mk.inj hread).2]
  · exact fun h => ⟨' ', [], mode, rfl, read_space hblank mode _, h⟩

theorem Scanned.insert_space (h : table.Scanned mode (before ++ old)) :
    table.Scanned mode (before ++ .plain ' ' :: old) := by
  refine h.exchange ?_ fun _ => (scanned_space_iff hblank).2
  exact uncrossed_cons (fun keyword hmem hc => hblank keyword hmem (List.mem_of_mem_tail hc)) _ _

theorem Scanned.drop_space (h : table.Scanned mode (before ++ .plain ' ' :: old))
    (hplace : table.Uncrossed (before.flatMap Lexeme.text) (old.flatMap Lexeme.text)) :
    table.Scanned mode (before ++ old) :=
  h.exchange hplace fun _ => (scanned_space_iff hblank).1

end Spaces

end Tails

end TokenTable
end ColorBasic
