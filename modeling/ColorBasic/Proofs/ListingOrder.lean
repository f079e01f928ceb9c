import ColorBasic.Proofs.RespacedListing
import ColorBasic.Proofs.TargetLists
import Mathlib.Data.List.Perm.Basic

/-!
# The order of the lines of a listing

A listing is parsed into the last line of each of its numbers, in ascending order, and every line
that replaces an earlier one is reported.  All of this depends on the numbers alone, so reformatting
orders and reports the same lines, and fails on the same ones.  If no number is repeated, the order
of the lines in the text does not matter.
-/

namespace ColorBasic

namespace Text

theorem trim_append_of_blank (s : Text) {blanks : Text} (h : ∀ c ∈ blanks, isBlank c = true) :
    trim (s ++ blanks) = trim s := by
  rw [trim, trim, trimStart, trimStart, List.dropWhile_append]
  split
  · rename_i hempty
    rw [List.isEmpty_iff.1 hempty, List.dropWhile_eq_nil_iff.2 h]
  · exact trimEnd_append_of_blank _ h

theorem trim_dropReturn (s : Text) : trim (dropReturn s) = trim s := by
  unfold dropReturn
  split
  · rename_i hreturn
    obtain ⟨front, rfl⟩ := List.getLast?_eq_some_iff.1 hreturn
    have hblank : ∀ c ∈ ['\r'], isBlank c = true := List.forall_mem_singleton.2 (by decide)
    rw [List.dropLast_concat, trim_append_of_blank front hblank]
  · rfl

/-- The ends of lines do not matter for what the lines hold between blanks. -/
theorem filter_trim_linesOfPieces (pieces : List Text) :
    ((linesOfPieces pieces).map trim).filter (!·.isEmpty) =
      (pieces.map trim).filter (!·.isEmpty) := by
  fun_induction linesOfPieces pieces with
  | case1 => rfl
  | case2 last hempty =>
      rw [List.isEmpty_iff.1 hempty]
      rfl
  | case3 last hempty => rfl
  | case4 piece pieces hlast ih =>
      rw [List.map_cons, List.map_cons, trim_dropReturn, List.filter_cons, List.filter_cons, ih]

theorem map_trim_filledLines (s : Text) :
    s.filledLines.map trim = (s.lines.map trim).filter (!·.isEmpty) := by
  rw [filledLines, List.filter_map]
  rfl

/-- Joined texts are split into lines that hold the same between blanks. -/
theorem map_trim_filledLines_joinLines {texts : List Text} (h : ∀ text ∈ texts, '\n' ∉ text) :
    (joinLines texts).filledLines.map trim = (texts.map trim).filter (!·.isEmpty) := by
  by_cases hne : texts = []
  · subst hne
    rfl
  · rw [map_trim_filledLines, lines, joinLines, splitOn_eq_list_splitOn,
      List.splitOn_intercalate '\n' h hne, filter_trim_linesOfPieces]

end Text

theorem mapM_eq_ok_of_perm {ε α β : Type} {f : α → Except ε β} {xs moved : List α} {ys : List β}
    (h : xs.mapM f = .ok ys) (hperm : moved.Perm xs) :
    ∃ zs, moved.mapM f = .ok zs ∧ zs.Perm ys := by
  obtain ⟨zs, hzs, hys⟩ := List.perm_comp_forall₂ hperm (mapM_eq_ok_iff.1 h)
  exact ⟨zs, mapM_eq_ok_iff.2 hzs, hys⟩

namespace Line

theorem split_trim (text : Text) : split text.trim = split text := by
  unfold split
  rw [Text.trim_eq_self (Text.trimmed_trim text)]

theorem mapM_split_trim (texts : List Text) :
    (texts.map Text.trim).mapM split = texts.mapM split := by
  rw [List.mapM_map]
  exact congrArg (List.mapM · texts) (funext split_trim)

end Line

namespace Program

section Repetitions

/-- The numbers that occur before their own place, one for each such place. -/
def repetitions (numbers : List UInt16) : List UInt16 :=
  (numbers.zipIdx.filter fun entry => entry.1 ∈ numbers.take entry.2).map Prod.fst

theorem repeatedNumbers_eq_filter {seen : Std.HashSet UInt16} {before : List UInt16}
    (hseen : ∀ number, number ∈ seen ↔ number ∈ before) (numbers : List UInt16) :
    repeatedNumbers seen numbers =
      (numbers.zipIdx.filter fun entry => entry.1 ∈ before ++ numbers.take entry.2).map
        Prod.fst := by
  induction numbers generalizing seen before with
  | nil => rfl
  | cons number numbers ih =>
      -- The first number is one of those before the others.
      have hinsert : ∀ n, n ∈ seen.insert number ↔ n ∈ before ++ [number] := by
        intro n
        rw [Std.HashSet.mem_insert, hseen, List.mem_append, List.mem_singleton, beq_iff_eq,
          or_comm, eq_comm]
      have hlater : (numbers.zipIdx 1).filter
            (fun entry => decide (entry.1 ∈ before ++ (number :: numbers).take entry.2)) =
          (numbers.zipIdx.filter fun entry =>
            decide (entry.1 ∈ before ++ [number] ++ numbers.take entry.2)).map
              fun entry => (entry.1, entry.2 + 1) := by
        rw [List.zipIdx_succ, List.filter_map]
        refine congrArg _ (List.filter_congr fun entry _ => ?_)
        simp
      have hfirst : seen.contains number = decide (number ∈ before) := by
        rw [Bool.eq_iff_iff, decide_eq_true_eq]
        exact hseen number
      rw [repeatedNumbers_cons, ih hinsert, hfirst, List.zipIdx_cons, List.filter_cons, hlater,
        List.take_zero, List.append_nil]
      split
      · rw [List.map_cons, List.map_map]
        rfl
      · rw [List.map_map]
        rfl

theorem repeatedNumbers_eq_repetitions (numbers : List UInt16) :
    repeatedNumbers ∅ numbers = repetitions numbers := by
  have hseen : ∀ number, number ∈ (∅ : Std.HashSet UInt16) ↔ number ∈ ([] : List UInt16) := by simp
  exact repeatedNumbers_eq_filter hseen numbers

theorem repetitions_eq_nil {numbers : List UInt16} (h : numbers.Nodup) :
    repetitions numbers = [] := by
  rw [← repeatedNumbers_eq_repetitions]
  exact repeatedNumbers_eq_nil h (by simp)

end Repetitions

section Arranging

variable {entries : List (UInt16 × Text)}

theorem duplicateReports_map {α : Type} (f : α → Line) (entries : List α) :
    duplicateReports (entries.map f) =
      (repetitions (entries.map (Line.number ∘ f))).map .duplicateLine := by
  rw [duplicateReports, repeatedNumbers_eq_repetitions, List.map_map]

/-- Entries without a repeated number are arranged in one way, whatever their order is. -/
theorem latest_eq_of_perm {moved : List (UInt16 × Text)} (hperm : moved.Perm entries)
    (h : (entries.map Prod.fst).Nodup) : latest Prod.fst moved = latest Prod.fst entries := by
  have hmoved : (moved.map Prod.fst).Nodup := (hperm.map Prod.fst).nodup_iff.2 h
  -- Nothing is replaced on either side, so both sides sort the same entries.
  refine (ascending_latest _ _).eq_of_perm (ascending_latest _ _) ?_
  rw [latest, latest, lastOfEach_eq_self h, lastOfEach_eq_self hmoved]
  exact (List.mergeSort_perm _ _).trans (hperm.trans (List.mergeSort_perm _ _).symm)

/-- An entry that remains was read from the last text that has its number. -/
theorem exists_last_text {texts : List Text} {source : UInt16 × Text}
    (h : source ∈ lastOfEach Prod.fst (texts.filterMap fun text => (Line.split text).toOption)) :
    ∃ earlier text later, texts = earlier ++ text :: later ∧ Line.split text = .ok source ∧
      ∀ other ∈ later, ∀ found, Line.split other = .ok found → found.1 ≠ source.1 := by
  induction texts with
  | nil => simp [lastOfEach] at h
  | cons first texts ih =>
      -- An entry of the texts after the first one was read from one of them.
      have hlater (hmem : source ∈ lastOfEach Prod.fst
          (texts.filterMap fun text => (Line.split text).toOption)) :
          ∃ earlier text later, first :: texts = earlier ++ text :: later ∧
            Line.split text = .ok source ∧
              ∀ other ∈ later, ∀ found, Line.split other = .ok found → found.1 ≠ source.1 := by
        obtain ⟨earlier, text, later, rfl, hsplit, hlast⟩ := ih hmem
        exact ⟨first :: earlier, text, later, rfl, hsplit, hlast⟩
      rw [List.filterMap_cons] at h
      cases hfirst : Line.split first with
      | error e =>
          rw [hfirst] at h
          exact hlater h
      | ok entry =>
          simp only [hfirst, Except.toOption, lastOfEach] at h
          split at h
          · exact hlater h
          · rename_i hnew
            rcases List.mem_cons.1 h with rfl | h
            · -- The first text is the last of its number, or its entry would have been left out.
              refine ⟨[], first, texts, rfl, hfirst, fun other hother found hfound heq => hnew ?_⟩
              exact List.mem_map.2
                ⟨found, List.mem_filterMap.2 ⟨other, hother, toOption_eq_some_iff.2 hfound⟩, heq⟩
            · exact hlater h

end Arranging

section Permutation

variable {listing : Text} {entries : List (UInt16 × Text)}

/-- A listing with its lines in another order holds the same entries in another order. -/
theorem mapM_split_of_perm {permuted : List Text} (hperm : permuted.Perm listing.lines)
    (h : listing.filledLines.mapM Line.split = .ok entries) :
    ∃ moved, (Text.joinLines permuted).filledLines.mapM Line.split = .ok moved ∧
      moved.Perm entries := by
  have hfeed : ∀ text ∈ permuted, '\n' ∉ text := fun text htext =>
    Text.no_feed_of_mem_lines (hperm.subset htext)
  -- Joining the lines again can change their ends, which only blanks show.
  rw [← Line.mapM_split_trim, Text.map_trim_filledLines] at h
  rw [← Line.mapM_split_trim, Text.map_trim_filledLines_joinLines hfeed]
  exact mapM_eq_ok_of_perm h ((hperm.map Text.trim).filter _)

end Permutation

/-- The lines are the program that a listing holds: in ascending order they have the numbers that
occur in the listing, and each of them is the last one of its number. -/
structure Holds (table : TokenTable) (listing : Text) (lines : List Line) : Prop where
  ascending : Ascending Line.number lines
  numbers : ∀ number, number ∈ lines.map Line.number ↔
    ∃ text ∈ listing.filledLines, ∃ code, Line.split text = .ok (number, code)
  last : ∀ line ∈ lines, ∃ earlier text later, listing.filledLines = earlier ++ text :: later ∧
    Line.parse table text = .ok line ∧
      ∀ other ∈ later, ∀ source, Line.split other = .ok source → source.1 ≠ line.number

theorem holds_latest (table : TokenTable) (listing : Text) :
    Holds table listing ((latest Prod.fst (sources listing)).map (Line.ofSource table)) where
  ascending := List.pairwise_map.2 (ascending_latest Prod.fst (sources listing))
  numbers number := by
    have hnumber : Line.number ∘ Line.ofSource table = Prod.fst := rfl
    have hperm : (latest Prod.fst (sources listing)).Perm (lastOfEach Prod.fst (sources listing)) :=
      List.mergeSort_perm _ _
    rw [List.map_map, hnumber, (hperm.map Prod.fst).mem_iff, mem_map_lastOfEach, List.mem_map]
    constructor
    · rintro ⟨source, hsource, rfl⟩
      obtain ⟨text, htext, hsplit⟩ := mem_sources_iff.1 hsource
      exact ⟨text, htext, source.2, hsplit⟩
    · rintro ⟨text, htext, code, hsplit⟩
      exact ⟨(number, code), mem_sources_iff.2 ⟨text, htext, hsplit⟩, rfl⟩
  last line hline := by
    obtain ⟨source, hsource, rfl⟩ := List.mem_map.1 hline
    obtain ⟨earlier, text, later, htexts, hsplit, hlast⟩ :=
      exists_last_text (List.mem_mergeSort.1 hsource)
    exact ⟨earlier, text, later, htexts, Line.parse_eq_ok_iff.2 ⟨source, hsplit, rfl⟩, hlast⟩

end Program

namespace Conversion

variable {table : TokenTable} {listing : Text} {entries : List (UInt16 × Text)}

/-- A listing is parsed into the latest of its entries. -/
theorem listingToLines_of_mapM (table : TokenTable)
    (h : listing.filledLines.mapM Line.split = .ok entries) :
    (listingToLines table listing).result =
        .ok ((Program.latest Prod.fst entries).map (Line.ofSource table)) ∧
      (listingToLines table listing).reports.program =
        (Program.repetitions (entries.map Prod.fst)).map .duplicateLine := by
  rw [listingToLines, Program.parseLines_eq_map, h]
  exact ⟨congrArg Except.ok (Program.arrange_map (Line.ofSource table) entries),
    Program.duplicateReports_map _ entries⟩

/-- A listing is reformatted from the latest of its entries. -/
theorem reformat_of_mapM (table : TokenTable)
    (h : listing.filledLines.mapM Line.split = .ok entries) :
    (reformat table listing).result =
        .ok (Text.joinLines (Program.list table ((Program.latest Prod.fst entries).map fun source =>
          ⟨source.1, Line.respaceCode table source.2⟩))) ∧
      (reformat table listing).reports.program =
        (Program.repetitions (entries.map Prod.fst)).map .duplicateLine := by
  rw [reformat, Program.parseRespaced_eq_map, h]
  exact ⟨congrArg (fun lines => Except.ok (Text.joinLines (Program.list table lines)))
    (Program.arrange_map (fun source => ⟨source.1, Line.respaceCode table source.2⟩) entries),
    Program.duplicateReports_map _ entries⟩

/-- Parsing and reformatting fail on the same line and report nothing on the program. -/
theorem fails_of_mapM (table : TokenTable) {error : Error}
    (h : listing.filledLines.mapM Line.split = .error error) :
    (listingToLines table listing).result = .error (.program error) ∧
      (listingToLines table listing).reports.program = [] ∧
        (reformat table listing).result = .error (.program error) ∧
          (reformat table listing).reports.program = [] := by
  rw [listingToLines, reformat, Program.parseLines_eq_map, Program.parseRespaced_eq_map, h]
  exact ⟨rfl, rfl, rfl, rfl⟩

/-- A listing that is parsed has a number and code in each line that is not blank. -/
theorem mapM_split_of_listingToLines {lines : List Line}
    (h : (listingToLines table listing).result = .ok lines) :
    listing.filledLines.mapM Line.split = .ok (Program.sources listing) := by
  cases hread : listing.filledLines.mapM Line.split with
  | error error =>
      rw [(fails_of_mapM table hread).1] at h
      cases h
  | ok entries => rw [Program.mapM_split_eq_ok hread]

/-- The order of the lines of a listing does not matter if no number is repeated. -/
theorem listingToLines_of_perm (table : TokenTable) {permuted : List Text}
    (hperm : permuted.Perm listing.lines)
    (h : listing.filledLines.mapM Line.split = .ok entries)
    (hnodup : (entries.map Prod.fst).Nodup) :
    (listingToLines table (Text.joinLines permuted)).result =
      (listingToLines table listing).result := by
  obtain ⟨moved, hmoved, hmoves⟩ := Program.mapM_split_of_perm hperm h
  rw [(listingToLines_of_mapM table hmoved).1, (listingToLines_of_mapM table h).1,
    Program.latest_eq_of_perm hmoves hnodup]

theorem listingToDump_congr {other : Text}
    (h : (listingToLines table other).result = (listingToLines table listing).result)
    (start : UInt16) :
    (listingToDump table other start).result = (listingToDump table listing start).result := by
  show (listingToLines table other).result.bind _ = (listingToLines table listing).result.bind _
  rw [h]

/-- A listing is parsed into the last line of each of its numbers, in ascending order, with a report
for each number that occurred before.  Without repeated numbers, the order of its lines does not
matter.  Reformatting orders the same numbers with the same reports, and fails as parsing does. -/
theorem listing_ordered (table : TokenTable) (listing : Text) :
    (∀ lines, (listingToLines table listing).result = .ok lines →
      Program.Holds table listing lines ∧
      listing.filledLines.mapM Line.split = .ok (Program.sources listing) ∧
      (listingToLines table listing).reports.program =
        (Program.repetitions ((Program.sources listing).map Prod.fst)).map .duplicateLine ∧
      (((Program.sources listing).map Prod.fst).Nodup → ∀ permuted, permuted.Perm listing.lines →
        (listingToLines table (Text.joinLines permuted)).result = .ok lines ∧
        ∀ start, (listingToDump table (Text.joinLines permuted) start).result =
          (listingToDump table listing start).result) ∧
      ∃ respaced, respaced.map Line.number = lines.map Line.number ∧
        (reformat table listing).result = .ok (Text.joinLines (Program.list table respaced))) ∧
    (∀ failure, (listingToLines table listing).result = .error failure ↔
      (reformat table listing).result = .error failure) ∧
    (reformat table listing).reports.program = (listingToLines table listing).reports.program := by
  -- Both conversions read the same numbers first, so one reading decides over both of them.
  cases hread : listing.filledLines.mapM Line.split with
  | error error =>
      obtain ⟨hlines, hreports, hreformat, hsame⟩ := fails_of_mapM table hread
      rw [hlines, hreformat, hreports, hsame]
      refine ⟨fun lines h => ?_, fun failure => ?_, rfl⟩
      · cases h
      · rw [Except.error.injEq, Except.error.injEq]
  | ok entries =>
      obtain rfl := Program.mapM_split_eq_ok hread
      obtain ⟨hlines, hreports⟩ := listingToLines_of_mapM table hread
      obtain ⟨hreformat, hsame⟩ := reformat_of_mapM table hread
      refine ⟨fun lines h => ?_, ?_, by rw [hsame, hreports]⟩
      · rw [hlines] at h
        obtain rfl := Except.ok.inj h
        refine ⟨Program.holds_latest table listing, rfl, hreports, fun hnodup permuted hperm => ?_,
          _, ?_, hreformat⟩
        · have hresult := listingToLines_of_perm table hperm hread hnodup
          exact ⟨hresult.trans hlines, listingToDump_congr hresult⟩
        · rw [List.map_map, List.map_map]
          rfl
      · rw [hlines, hreformat]
        simp

/-- A program out of order with a blank line in it. -/
def scatteredListing : Text := "30 END\n\n10 CLS\n20 GOTO10".toList

/-- The lines of the scattered program. -/
def scatteredLines : List Line :=
  [⟨10, [0xA0]⟩, ⟨20, [0x81, 0xBC, 0x31, 0x30]⟩, ⟨30, [0x8A]⟩]

theorem listing_ordered_scattered :
    (listingToLines Machine.dragon32.table scatteredListing).result = .ok scatteredLines ∧
      (listingToLines Machine.dragon32.table "10 CLS\n20 GOTO10\n30 END\n".toList).result =
        .ok scatteredLines ∧
      (listingToLines Machine.dragon32.table "10 END\n10 CLS\n10 CLS".toList).reports.program =
        [.duplicateLine 10, .duplicateLine 10] := by
  have hlines : (listingToLines Machine.dragon32.table scatteredListing).result =
      .ok scatteredLines := by decide +kernel
  have hretyped : (listingToLines Machine.dragon32.table "10 END\n10 CLS\n10 CLS".toList).result =
      .ok [⟨10, [0xA0]⟩] := by decide +kernel
  have hperm : ["10 CLS".toList, "20 GOTO10".toList, "30 END".toList, []].Perm
      scatteredListing.lines := by decide +kernel
  have hnodup : ((Program.sources scatteredListing).map Prod.fst).Nodup := by decide +kernel
  obtain ⟨-, -, -, hsame, -⟩ := (listing_ordered Machine.dragon32.table _).1 _ hlines
  obtain ⟨-, -, hreports, -⟩ := (listing_ordered Machine.dragon32.table _).1 _ hretyped
  refine ⟨hlines, (hsame hnodup _ hperm).1, hreports.trans ?_⟩
  decide +kernel

end Conversion

end ColorBasic
