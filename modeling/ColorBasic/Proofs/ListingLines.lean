import ColorBasic.Program
import ColorBasic.Proofs.Fallible
import ColorBasic.Proofs.ListingText

/-!
# Listing lines and what they hold

A listing line holds a number and code as it was typed.  Writing both again gives a line that holds
the same, so a listing made of such lines is parsed into what the lines hold.
-/

namespace ColorBasic

/-- Code as a listing line can hold it. -/
structure Text.IsCode (code : Text) : Prop where
  ne_nil : code ≠ []
  last : code.EndsFilled
  no_feed : '\n' ∉ code

/-- What follows the first space of a line is code, if the line does not end with a blank. -/
theorem Text.isCode_of_endsFilled {numeral code : Text} (h : (numeral ++ ' ' :: code).EndsFilled)
    (hfeed : '\n' ∉ code) : code.IsCode := by
  have hne : code ≠ [] := by
    rintro rfl
    exact absurd (h ' ' (by simp)) (by decide)
  rw [List.append_cons, Text.endsFilled_append hne] at h
  exact ⟨hne, h, hfeed⟩

namespace Line

/-- The listing line with the given number and code. -/
def typed (source : UInt16 × Text) : Text :=
  Text.decimal source.1.toNat ++ ' ' :: source.2

/-- The line that is stored for the given number and code. -/
def ofSource (table : TokenTable) (source : UInt16 × Text) : Line :=
  ⟨source.1, table.storeCode source.2⟩

/-- A line is split at the first space of its trimmed text. -/
theorem split_eq_ok {line : Text} {number : UInt16} {code : Text}
    (h : split line = .ok (number, code)) :
    ∃ numeral, line.trim = numeral ++ ' ' :: code ∧ Text.readWord? 10 numeral = some number := by
  unfold split at h
  dsimp only at h
  split at h
  · simp at h
  · rename_i c rest hrest
    have hspace : c = ' ' := by
      have hhead := List.head?_dropWhile_not (fun c => decide (c ≠ ' ')) line.trim
      rw [hrest] at hhead
      simpa using hhead
    split at h
    · rename_i value hvalue
      obtain ⟨rfl, rfl⟩ := Prod.mk.inj (Except.ok.inj h)
      refine ⟨_, ?_, hvalue⟩
      conv_lhs =>
        rw [← List.takeWhile_append_dropWhile (p := fun c => decide (c ≠ ' ')) (l := line.trim)]
      rw [hrest, hspace]
    · simp at h

theorem isCode_of_split {line : Text} (hfeed : '\n' ∉ line) {number : UInt16} {code : Text}
    (h : split line = .ok (number, code)) : code.IsCode := by
  obtain ⟨numeral, htrim, -⟩ := split_eq_ok h
  have hlast := (Text.trimmed_trim line).last
  rw [htrim] at hlast
  refine Text.isCode_of_endsFilled hlast fun hmem => hfeed ?_
  apply (Text.trim_isInfix line).subset
  rw [htrim]
  simp [hmem]

/-- The listing line with the given code and a number of any size. -/
def numbered (n : Nat) (code : Text) : Text := Text.decimal n ++ ' ' :: code

theorem trimmed_numbered (n : Nat) {code : Text} (h : code.IsCode) :
    (numbered n code).Trimmed := by
  have hdigits : Text.decimal n ≠ [] := Nat.toDigits_ne_nil
  constructor
  · intro c hc
    rw [numbered, List.head?_append_of_ne_nil _ hdigits] at hc
    exact Text.isBlank_of_mem_decimal (List.mem_of_mem_head? hc)
  · rw [numbered, List.append_cons]
    exact (Text.endsFilled_append h.ne_nil).2 h.last

/-- A numbered line is split into its number and its code, if a line can have that number. -/
theorem split_numbered (n : Nat) {code : Text} (h : code.IsCode) :
    split (numbered n code) =
      if n < UInt16.size then .ok (UInt16.ofNat n, code)
      else .error (.lineNumber (Text.decimal n)) := by
  have hdigits : ∀ c ∈ Text.decimal n, decide (c ≠ ' ') = true := by
    intro c hc
    have hblank := Text.isBlank_of_mem_decimal hc
    rw [decide_eq_true_eq]
    rintro rfl
    exact absurd hblank (by decide)
  have hnumber : (numbered n code).takeWhile (fun c => decide (c ≠ ' ')) = Text.decimal n := by
    rw [numbered, List.takeWhile_append_of_pos hdigits]
    simp
  have hcode : (numbered n code).dropWhile (fun c => decide (c ≠ ' ')) = ' ' :: code := by
    rw [numbered, List.dropWhile_append_of_pos hdigits]
    simp
  unfold split
  dsimp only
  rw [Text.trim_eq_self (trimmed_numbered n h), hnumber, hcode]
  dsimp only
  rw [Text.readWord?_decimal]
  by_cases hfits : n < UInt16.size
  · simp only [if_pos hfits]
  · simp only [if_neg hfits]

theorem trimmed_typed {source : UInt16 × Text} (h : source.2.IsCode) :
    (typed source).Trimmed :=
  trimmed_numbered source.1.toNat h

theorem split_typed {source : UInt16 × Text} (h : source.2.IsCode) :
    split (typed source) = .ok source := by
  have hsplit := split_numbered source.1.toNat h
  rw [if_pos source.1.toNat_lt, UInt16.ofNat_toNat] at hsplit
  exact hsplit

theorem isLine_typed {source : UInt16 × Text} (h : source.2.IsCode) : (typed source).IsLine := by
  refine ⟨by simp [typed], fun hfeed => ?_, fun hreturn => ?_⟩
  · rcases List.mem_append.1 hfeed with hfeed | hfeed
    · exact absurd (Text.isBlank_of_mem_decimal hfeed) (by decide)
    · rcases List.mem_cons.1 hfeed with hfeed | hfeed
      · exact absurd hfeed (by decide)
      · exact h.no_feed hfeed
  · exact absurd ((trimmed_typed h).last _ hreturn) (by decide)

theorem parse_eq_ok_iff {table : TokenTable} {text : Text} {line : Line} :
    parse table text = .ok line ↔
      ∃ source, split text = .ok source ∧ line = ofSource table source := by
  unfold parse
  rw [bind_eq_ok_iff]
  simp only [pure, Except.pure, Except.ok.injEq, eq_comm]
  rfl

end Line

namespace Program

/-- The numbers and codes of a listing in the order of the text. -/
def sources (listing : Text) : List (UInt16 × Text) :=
  listing.filledLines.filterMap fun line => (Line.split line).toOption

theorem mem_sources_iff {listing : Text} {source : UInt16 × Text} :
    source ∈ sources listing ↔ ∃ line ∈ listing.filledLines, Line.split line = .ok source := by
  rw [sources, List.mem_filterMap]
  simp only [toOption_eq_some_iff]

theorem mem_sources {listing : Text} {source : UInt16 × Text} (h : source ∈ sources listing) :
    ∃ line ∈ listing.lines, Line.split line = .ok source := by
  obtain ⟨line, hline, hsplit⟩ := mem_sources_iff.1 h
  exact ⟨line, (List.mem_filter.1 hline).1, hsplit⟩

theorem isCode_of_mem_sources {listing : Text} {source : UInt16 × Text}
    (h : source ∈ sources listing) : source.2.IsCode := by
  obtain ⟨line, hline, hsplit⟩ := mem_sources h
  exact Line.isCode_of_split (Text.no_feed_of_mem_lines hline) hsplit

/-- A listing that is parsed gives the stored lines of all that its lines hold. -/
theorem parseLines_eq_ok {table : TokenTable} {listing : Text} {lines : List Line}
    (h : parseLines table listing = .ok lines) :
    lines = (sources listing).map (Line.ofSource table) := by
  rw [parseLines, mapM_eq_ok_iff] at h
  unfold sources
  generalize listing.filledLines = texts at h ⊢
  induction h with
  | nil => rfl
  | cons hparse _ ih =>
      obtain ⟨source, hsplit, rfl⟩ := Line.parse_eq_ok_iff.1 hparse
      rw [ih, List.filterMap_cons, hsplit]
      rfl

theorem filledLines_joinLines_typed {entries : List (UInt16 × Text)}
    (h : ∀ source ∈ entries, source.2.IsCode) :
    (Text.joinLines (entries.map Line.typed)).filledLines = entries.map Line.typed := by
  have hlines : ∀ line ∈ entries.map Line.typed, line.IsLine ∧ line.Trimmed := by
    intro line hline
    obtain ⟨source, hsource, rfl⟩ := List.mem_map.1 hline
    exact ⟨Line.isLine_typed (h source hsource), Line.trimmed_typed (h source hsource)⟩
  rw [Text.filledLines, Text.lines_joinLines fun line hline => (hlines line hline).1,
    List.filter_eq_self]
  intro line hline
  rw [Text.isBlankText, Text.trim_eq_self (hlines line hline).2]
  simpa using (hlines line hline).1.ne_nil

/-- A listing made of numbers and codes is parsed into their stored lines. -/
theorem parseLines_joinLines_typed (table : TokenTable) {entries : List (UInt16 × Text)}
    (h : ∀ source ∈ entries, source.2.IsCode) :
    parseLines table (Text.joinLines (entries.map Line.typed)) =
      .ok (entries.map (Line.ofSource table)) := by
  rw [parseLines, filledLines_joinLines_typed h, mapM_eq_ok_iff, List.forall₂_map_left_iff,
    List.forall₂_map_right_iff, List.forall₂_same]
  intro source hsource
  exact Line.parse_eq_ok_iff.2 ⟨source, Line.split_typed (h source hsource), rfl⟩

end Program
end ColorBasic
