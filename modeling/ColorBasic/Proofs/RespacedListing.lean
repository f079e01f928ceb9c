import ColorBasic.Proofs.Reconvergence
import ColorBasic.Proofs.RespacedLines

/-!
# Reformatted listings

A listing of seven bit characters that is reformatted is the listing of the same program with other
spaces: it is parsed without a report, into the same numbers, and the code of every line differs
only in its spaces.
-/

namespace ColorBasic

namespace Line

variable {table : TokenTable}

/-- The respaced code of a line as it is listed. -/
def respacedText (table : TokenTable) (code : Text) : Text :=
  table.detokenize (table.revealCode (respaceCode table code))

/-- A number and code, with the code respaced. -/
def respacedSource (table : TokenTable) (source : UInt16 × Text) : UInt16 × Text :=
  (source.1, respacedText table source.2)

theorem parse_eq_map (table : TokenTable) :
    parse table = fun line => (split line).map (ofSource table) := by
  funext line
  unfold parse
  cases split line <;> rfl

theorem parseRespaced_eq_map (table : TokenTable) :
    parseRespaced table = fun line =>
      (split line).map fun source => ⟨source.1, respaceCode table source.2⟩ := by
  funext line
  unfold parseRespaced
  cases split line <;> rfl

end Line

namespace TokenTable

variable {table : TokenTable} {code : Text}

/-- What a respaced line is listed as is stored as the respaced line. -/
theorem Spaceable.respaced_respacedText (htable : table.Spaceable)
    (hascii : ∀ c ∈ code, c.toNat < 0x80) (hcode : code.IsCode) :
    table.Respaced code (Line.respacedText table code) := by
  obtain ⟨respaced, hrespaced⟩ := htable.exists_respaced hascii hcode
  have hlossless := lossless_of_ascii htable.regular hrespaced.ascii
  have htext : Line.respacedText table code = respaced := by
    rw [Line.respacedText, ← hrespaced.stored, (hlossless.detokenize_storeCode htable.regular).1]
  rw [htext]
  exact hrespaced

end TokenTable

namespace Program

variable {table : TokenTable} {listing : Text}

/-- The code of a source is part of the listing. -/
theorem subset_of_mem_sources {source : UInt16 × Text} (h : source ∈ sources listing) :
    source.2 ⊆ listing := by
  rw [show listing = Text.joinLines [listing] by simp [Text.joinLines]] at h
  obtain ⟨whole, hwhole, hpart⟩ := isInfix_of_mem_sources_joinLines h
  rw [List.mem_singleton.1 hwhole] at hpart
  exact hpart.subset

theorem mapM_split_eq_ok {entries : List (UInt16 × Text)}
    (h : listing.filledLines.mapM Line.split = .ok entries) : entries = sources listing := by
  rw [mapM_eq_ok_iff] at h
  unfold sources
  generalize listing.filledLines = texts at h ⊢
  induction h with
  | nil => rfl
  | cons hsplit _ ih =>
      rw [ih, List.filterMap_cons, hsplit]
      rfl

theorem mapM_split_joinLines_typed {entries : List (UInt16 × Text)}
    (h : ∀ source ∈ entries, source.2.IsCode) :
    (Text.joinLines (entries.map Line.typed)).filledLines.mapM Line.split = .ok entries := by
  rw [filledLines_joinLines_typed h, mapM_eq_ok_iff, List.forall₂_map_left_iff, List.forall₂_same]
  exact fun source hsource => Line.split_typed (h source hsource)

theorem sources_joinLines_typed {entries : List (UInt16 × Text)}
    (h : ∀ source ∈ entries, source.2.IsCode) :
    sources (Text.joinLines (entries.map Line.typed)) = entries :=
  (mapM_split_eq_ok (mapM_split_joinLines_typed h)).symm

theorem parseLines_eq_map (table : TokenTable) (listing : Text) :
    parseLines table listing =
      (listing.filledLines.mapM Line.split).map (List.map (Line.ofSource table)) := by
  rw [parseLines, Line.parse_eq_map, mapM_map]

theorem parseRespaced_eq_map (table : TokenTable) (listing : Text) :
    parseRespaced table listing =
      (listing.filledLines.mapM Line.split).map
        (List.map fun source => ⟨source.1, Line.respaceCode table source.2⟩) := by
  rw [parseRespaced, Line.parseRespaced_eq_map, mapM_map]

/-- A listing of lossless code is parsed without a report. -/
theorem parseReports_joinLines_typed {entries : List (UInt16 × Text)}
    (h : ∀ source ∈ entries, source.2.IsCode ∧ table.Lossless source.2) :
    parseReports table (Text.joinLines (entries.map Line.typed)) = [] := by
  rw [parseReports, filledLines_joinLines_typed fun source hsource => (h source hsource).1,
    List.flatMap_eq_nil_iff]
  intro line hline
  obtain ⟨source, hsource, rfl⟩ := List.mem_map.1 ((List.takeWhile_subset _) hline)
  rw [Line.parseReports, Line.split_typed (h source hsource).1]
  exact (h source hsource).2.storeCodeReports_eq_nil

end Program

namespace Conversion

variable {table : TokenTable} {listing : Text}

/-- A listing is reformatted to the listing of its latest lines with their code respaced. -/
theorem reformat_eq_ok (htable : table.Spaceable)
    (hascii : ∀ source ∈ Program.sources listing, ∀ c ∈ source.2, c.toNat < 0x80) {text : Text}
    (h : (reformat table listing).result = .ok text) :
    listing.filledLines.mapM Line.split = .ok (Program.sources listing) ∧
      text = Text.joinLines (((Program.latest Prod.fst (Program.sources listing)).map
        (Line.respacedSource table)).map Line.typed) := by
  obtain ⟨lines, hlines, rfl⟩ := map_eq_ok_iff.1 (mapError_eq_ok_iff.1 h)
  rw [Program.parseRespaced_eq_map] at hlines
  obtain ⟨entries, hentries, rfl⟩ := map_eq_ok_iff.1 hlines
  obtain rfl := Program.mapM_split_eq_ok hentries
  refine ⟨hentries, ?_⟩
  have hrespaced : ∀ source ∈ Program.sources listing,
      table.Respaced source.2 (Line.respacedText table source.2) := fun source hsource =>
    htable.respaced_respacedText (hascii source hsource) (Program.isCode_of_mem_sources hsource)
  -- The respaced lines are the stored lines of the respaced texts.
  have hstored : (Program.sources listing).map
        (fun source => ⟨source.1, Line.respaceCode table source.2⟩) =
      ((Program.sources listing).map (Line.respacedSource table)).map (Line.ofSource table) := by
    rw [List.map_map]
    refine List.map_congr_left fun source hsource => ?_
    rw [Function.comp_apply, Line.respacedSource, Line.ofSource, (hrespaced source hsource).stored]
  have hlatest : Program.latest Prod.fst
        ((Program.sources listing).map (Line.respacedSource table)) =
      (Program.latest Prod.fst (Program.sources listing)).map (Line.respacedSource table) :=
    (Program.map_latest (Line.respacedSource table) Prod.fst _).symm
  rw [hstored, arrange_ofSource, hlatest, (TokenTable.list_of_lossless htable.regular ?_).1]
  intro entry hentry
  obtain ⟨source, hsource, rfl⟩ := List.mem_map.1 hentry
  exact TokenTable.lossless_of_ascii htable.regular
    (hrespaced source (Program.mem_of_mem_latest hsource)).ascii

/-- A reformatted listing holds the latest lines of the listing with their code respaced. -/
theorem sources_reformat (htable : table.Spaceable)
    (hascii : ∀ source ∈ Program.sources listing, ∀ c ∈ source.2, c.toNat < 0x80) {text : Text}
    (h : (reformat table listing).result = .ok text) :
    Program.sources text =
      (Program.latest Prod.fst (Program.sources listing)).map (Line.respacedSource table) := by
  rw [(reformat_eq_ok htable hascii h).2]
  refine Program.sources_joinLines_typed fun entry hentry => ?_
  obtain ⟨source, hsource, rfl⟩ := List.mem_map.1 hentry
  have hmem := Program.mem_of_mem_latest hsource
  exact (htable.respaced_respacedText (hascii source hmem)
    (Program.isCode_of_mem_sources hmem)).isCode

/-- A listing of entries in ascending order is reformatted entry by entry. -/
theorem reformat_joinLines_typed (htable : table.Spaceable) {entries : List (UInt16 × Text)}
    (hentries : ∀ source ∈ entries, source.2.IsCode ∧ ∀ c ∈ source.2, c.toNat < 0x80)
    (hascending : Program.Ascending Prod.fst entries) :
    (reformat table (Text.joinLines (entries.map Line.typed))).result =
      .ok (Text.joinLines ((entries.map (Line.respacedSource table)).map Line.typed)) := by
  have hcode : ∀ source ∈ entries, source.2.IsCode := fun source hsource =>
    (hentries source hsource).1
  have hsplit := Program.mapM_split_joinLines_typed hcode
  have hsources := Program.sources_joinLines_typed hcode
  obtain ⟨text, htext⟩ : ∃ text,
      (reformat table (Text.joinLines (entries.map Line.typed))).result = .ok text := by
    rw [reformat, Program.parseRespaced_eq_map, hsplit]
    exact ⟨_, rfl⟩
  have hreformat := (reformat_eq_ok htable ?_ htext).2
  · rw [htext, hreformat, hsources, Program.latest_eq_self hascending]
  · rw [hsources]
    exact fun source hsource => (hentries source hsource).2

/-- A listing of entries in ascending order is parsed into their lines without a report. -/
theorem listingToLines_joinLines_typed {entries : List (UInt16 × Text)}
    (hentries : ∀ source ∈ entries, source.2.IsCode ∧ table.Lossless source.2)
    (hascending : Program.Ascending Prod.fst entries) :
    listingToLines table (Text.joinLines (entries.map Line.typed)) =
      { result := .ok (entries.map (Line.ofSource table)) } := by
  have hlines : Program.Ascending Line.number (entries.map (Line.ofSource table)) :=
    List.pairwise_map.2 hascending
  rw [listingToLines, Program.parseLines_joinLines_typed table fun source hsource =>
    (hentries source hsource).1, Program.parseReports_joinLines_typed hentries]
  simp only [Except.map, programResult, Except.mapError, reportsOn,
    hlines.duplicateReports_eq_nil, arrange_ofSource, Program.latest_eq_self hascending]
  rfl

/-- A reformatted listing is parsed without a report into the numbers that the listing has, and into
code that differs from its code only in spaces. -/
theorem reformat_changes_spaces_only (machine : Machine) (listing text : Text)
    (hascii : ∀ c ∈ listing, c.toNat < 0x80)
    (h : (reformat machine.table listing).result = .ok text) :
    ∃ before after, (listingToLines machine.table listing).result = .ok before ∧
      listingToLines machine.table text = { result := .ok after } ∧
        List.Forall₂ (fun old new => new.number = old.number ∧
          new.code.filter (· ≠ 0x20) = old.code.filter (· ≠ 0x20)) before after := by
  have htable := machine.table_spaceable
  have hsources : ∀ source ∈ Program.sources listing, ∀ c ∈ source.2, c.toNat < 0x80 :=
    fun source hsource c hc => hascii c (Program.subset_of_mem_sources hsource hc)
  obtain ⟨hsplit, rfl⟩ := reformat_eq_ok htable hsources h
  have hlatest : ∀ source ∈ Program.latest Prod.fst (Program.sources listing),
      (∀ c ∈ source.2, c.toNat < 0x80) ∧ source.2.IsCode := fun source hsource =>
    ⟨hsources source (Program.mem_of_mem_latest hsource),
      Program.isCode_of_mem_sources (Program.mem_of_mem_latest hsource)⟩
  refine ⟨(Program.latest Prod.fst (Program.sources listing)).map (Line.ofSource machine.table), _,
    ?_, listingToLines_joinLines_typed ?_ ?_, ?_⟩
  · rw [listingToLines, Program.parseLines_eq_map, hsplit]
    exact congrArg Except.ok (arrange_ofSource machine.table _)
  · intro entry hentry
    obtain ⟨source, hsource, rfl⟩ := List.mem_map.1 hentry
    obtain ⟨hcode, hiscode⟩ := hlatest source hsource
    have hrespaced := htable.respaced_respacedText hcode hiscode
    exact ⟨hrespaced.isCode, TokenTable.lossless_of_ascii htable.regular hrespaced.ascii⟩
  · exact List.pairwise_map.2 (Program.ascending_latest Prod.fst (Program.sources listing))
  · -- Both programs are made of the latest sources, so their lines correspond one to one.
    rw [List.map_map, List.forall₂_map_left_iff, List.forall₂_map_right_iff, List.forall₂_same]
    intro source hsource
    obtain ⟨hcode, hiscode⟩ := hlatest source hsource
    refine ⟨rfl, ?_⟩
    show (machine.table.storeCode (Line.respacedText machine.table source.2)).filter _ = _
    rw [(htable.respaced_respacedText hcode hiscode).stored,
      htable.filter_respaceCode hcode hiscode.last]
    rfl

/-- A program out of order with a line typed twice, jumps in two words and hidden colons. -/
def looseListing : Text :=
  "20 IFA=1THENGO TO10ELSE'  X\n10 OLD\n10 GO SUB 9 , B:DATA A , B".toList

/-- The reformatted form of the loose program. -/
def tidyListing : Text :=
  "10 GOSUB 9,B:DATA A , B\n20 IF A=1 THEN GOTO 10 ELSE '  X".toList

theorem reformat_loose :
    (reformat Machine.dragon32.table looseListing).result = .ok tidyListing ∧
      ∃ before after,
        (listingToLines Machine.dragon32.table looseListing).result = .ok before ∧
          listingToLines Machine.dragon32.table tidyListing = { result := .ok after } ∧
            List.Forall₂ (fun old new => new.number = old.number ∧
              new.code.filter (· ≠ 0x20) = old.code.filter (· ≠ 0x20)) before after := by
  have hreformat : (reformat Machine.dragon32.table looseListing).result = .ok tidyListing := by
    decide +kernel
  have hall : looseListing.all (·.toNat < 0x80) = true := by decide +kernel
  have hascii : ∀ c ∈ looseListing, c.toNat < 0x80 := fun c hc =>
    of_decide_eq_true (List.all_eq_true.1 hall c hc)
  exact ⟨hreformat, reformat_changes_spaces_only .dragon32 _ _ hascii hreformat⟩

end Conversion
end ColorBasic
