import ColorBasic.Proofs.ListingOrder
import ColorBasic.Proofs.SettledNumbers

/-!
# Renumbered listings as programs

Parsing and renumbering read the number of a line in different ways, but they agree on the lines
that can be parsed.  A listing that is parsed is therefore parsed after renumbering, line by line
and in the order of the text, as long as the new numbers are numbers of lines: up to 65530.
-/

namespace ColorBasic

namespace Renumbering

section Line

variable {text : Text} {source : UInt16 × Text}

/-- Parsing and renumbering agree on the number of a line that can be parsed. -/
theorem label_and_body_of_split (h : Line.split text = .ok source) :
    label text.trim ≠ [] ∧ body text.trim = ' ' :: source.2 := by
  obtain ⟨numeral, htrim, hnumeral⟩ := Line.split_eq_ok h
  obtain ⟨hne, hdigits⟩ := Text.isDigit_of_readWord? hnumeral
  have hspace : ∀ c, (' ' :: source.2).head? = some c → Text.isDecimalDigit c = false := by
    intro c hc
    rw [← Option.some.inj hc]
    decide
  obtain ⟨hlabel, hbody⟩ :=
    Text.span_append (fun c hc => Text.isDecimalDigit_of_isDigit (hdigits c hc)) hspace
  rw [label, body, htrim, hlabel, hbody]
  exact ⟨hne, rfl⟩

/-- A line that can be parsed keeps the space between its number and its code. -/
theorem renumberLine_of_split (h : Line.split text = .ok source) (map : NumberMap) (k : Nat) :
    renumberLine map (text.trim, k) =
      Line.numbered (newNumber k) (renumberTargets map source.2) := by
  obtain ⟨hlabel, hbody⟩ := label_and_body_of_split h
  have hspace : Reference.match? (' ' :: source.2) = none :=
    Reference.match?_cons_of_inList (by decide) _
  -- No jump begins in the new number or at the space, so only the code is spelled anew.
  rw [renumberLine, renumberLabel, if_neg (by simpa using hlabel), hbody, renumberTargets_eq,
    Piece.respellText_digits_append fun _ hc => Text.isDecimalDigit_of_mem_decimal hc,
    Piece.respellText_of_no_match hspace, ← renumberTargets_eq]
  rfl

/-- Renumbering the targets of code leaves code that a listing line can hold. -/
theorem isCode_renumberTargets (hfeed : '\n' ∉ text) (h : Line.split text = .ok source)
    (lines : List Text) : (renumberTargets (.ofLines lines) source.2).IsCode := by
  have htrimmed := Text.trimmed_trim text
  have hne : text.trim ≠ [] := by
    obtain ⟨numeral, htrim, -⟩ := Line.split_eq_ok h
    simp [htrim]
  -- The code ends as the renumbered line does, whatever the place of the line is.
  have hline : (renumberLine (.ofLines lines) (text.trim, 0)).IsLine :=
    isLine_renumberLine lines hne
      (fun hmem => hfeed ((Text.trim_isInfix text).subset hmem)) htrimmed.last
  have hlast : (renumberLine (.ofLines lines) (text.trim, 0)).EndsFilled :=
    (trimmed_renumberLine htrimmed).last
  rw [renumberLine_of_split h, Line.numbered] at hline hlast
  refine Text.isCode_of_endsFilled hlast fun hmem => hline.no_feed ?_
  exact List.mem_append_right _ (List.mem_cons_of_mem _ hmem)

end Line

section Listing

variable {texts : List Text} {entries : List (UInt16 × Text)}

/-- Lines that can be parsed are numbered by their places. -/
theorem map_renumberLine
    (h : List.Forall₂ (fun text source => Line.split text = .ok source) texts entries)
    (map : NumberMap) (k : Nat) :
    ((texts.map Text.trim).zipIdx k).map (renumberLine map) =
      ((entries.map fun source => renumberTargets map source.2).zipIdx k).map fun entry =>
        Line.numbered (newNumber entry.2) entry.1 := by
  induction h generalizing k with
  | nil => rfl
  | cons hsplit _ ih =>
      rw [List.map_cons, List.zipIdx_cons, List.map_cons, ih (k + 1), renumberLine_of_split hsplit]
      rfl

/-- Codes with the numbers that renumbering gives to lines, from the line at place `k` on. -/
def placed (k : Nat) (codes : List Text) : List (UInt16 × Text) :=
  (codes.zipIdx k).map fun entry => (UInt16.ofNat (newNumber entry.2), entry.1)

theorem map_snd_placed (codes : List Text) : (placed 0 codes).map Prod.snd = codes := by
  rw [placed, List.map_map]
  exact List.zipIdx_map_fst 0 codes

/-- The numbers of up to 6553 codes are the multiples of ten. -/
theorem map_number_placed {codes : List Text} (h : codes.length ≤ 6553) :
    (placed 0 codes).map (fun source => source.1.toNat) =
      (List.range codes.length).map newNumber := by
  rw [List.range_eq_range', ← List.zipIdx_map_snd 0 codes, placed, List.map_map, List.map_map]
  refine List.map_congr_left fun entry hentry => UInt16.toNat_ofNat_of_lt' ?_
  have hplace := (List.mem_zipIdx hentry).2.1
  rw [newNumber, UInt16.size]
  omega

theorem ascending_placed {codes : List Text} (h : codes.length ≤ 6553) :
    Program.Ascending Prod.fst (placed 0 codes) := by
  have hnumbers : ((placed 0 codes).map fun source => source.1.toNat).Pairwise (· < ·) := by
    rw [map_number_placed h, List.pairwise_map]
    refine List.pairwise_lt_range.imp fun hlt => ?_
    unfold newNumber
    omega
  exact (List.pairwise_map.1 hnumbers).imp UInt16.lt_iff_toNat_lt.2

/-- Lines numbered by tens are read if there are not too many of them. -/
theorem mapM_split_numbered {codes : List Text} (hcodes : ∀ code ∈ codes, code.IsCode) {k : Nat}
    (hk : k ≤ 6553) :
    ((codes.zipIdx k).map fun entry => Line.numbered (newNumber entry.2) entry.1).mapM Line.split =
      if k + codes.length ≤ 6553 then
        .ok (placed k codes)
      else .error (.lineNumber "65540".toList) := by
  induction codes generalizing k with
  | nil =>
      rw [List.length_nil, Nat.add_zero, if_pos hk]
      rfl
  | cons code codes ih =>
      rw [List.forall_mem_cons] at hcodes
      rw [List.zipIdx_cons, List.map_cons, List.mapM_cons, Line.split_numbered _ hcodes.1,
        List.length_cons]
      by_cases hlast : k = 6553
      · -- The line at this place would get the number 65540.
        subst hlast
        have hnumber : Text.decimal (newNumber 6553) = "65540".toList := by decide
        have hlarge : ¬newNumber 6553 < UInt16.size := by decide
        rw [if_neg hlarge, if_neg (by omega), hnumber]
        rfl
      · have hfits : newNumber k < UInt16.size := by
          unfold newNumber
          rw [UInt16.size]
          omega
        rw [if_pos hfits, ih hcodes.2 (by omega), Nat.add_right_comm k 1, ← Nat.add_assoc]
        split <;> rfl

end Listing

section Parsing

variable {listing : Text}

/-- The lines that renumbering reads are the lines that parsing reads, without the blanks around
them. -/
theorem listingLines_eq (listing : Text) :
    listingLines listing = listing.filledLines.map Text.trim := by
  rw [listingLines, List.filter_map]
  rfl

/-- The code of a listing that can be parsed, with its targets renumbered, line by line. -/
def renumberedCodes (listing : Text) : List Text :=
  (Program.sources listing).map fun source =>
    renumberTargets (.ofLines (listingLines listing)) source.2

theorem length_renumberedCodes
    (h : listing.filledLines.mapM Line.split = .ok (Program.sources listing)) :
    (renumberedCodes listing).length = listing.filledLines.length := by
  rw [renumberedCodes, List.length_map, (mapM_eq_ok_iff.1 h).length_eq]

/-- A renumbered listing is read if it does not have too many lines. -/
theorem mapM_split_renumber
    (h : listing.filledLines.mapM Line.split = .ok (Program.sources listing)) :
    (renumber listing).filledLines.mapM Line.split =
      if listing.filledLines.length ≤ 6553 then
        .ok (placed 0 (renumberedCodes listing))
      else .error (.lineNumber "65540".toList) := by
  have hall := mapM_eq_ok_iff.1 h
  have hcodes : ∀ code ∈ renumberedCodes listing, code.IsCode := by
    intro code hcode
    obtain ⟨source, hsource, rfl⟩ := List.mem_map.1 hcode
    obtain ⟨text, htext, hsplit⟩ := Program.mem_sources hsource
    exact isCode_renumberTargets (Text.no_feed_of_mem_lines htext) hsplit _
  have hread := mapM_split_numbered hcodes (Nat.zero_le 6553)
  rw [Nat.zero_add, length_renumberedCodes h] at hread
  have hlines := map_renumberLine hall (.ofLines (listingLines listing)) 0
  rw [← listingLines_eq] at hlines
  rw [← Line.mapM_split_trim, ← listingLines_eq, listingLines_renumber, renumberedLines, hlines]
  exact hread

/-- The lines of a listing keep their places and their code, except for the targets. -/
theorem forall₂_placed
    (h : listing.filledLines.mapM Line.split = .ok (Program.sources listing)) :
    List.Forall₂ (fun text entry => ∃ source, Line.split text = .ok source ∧
        entry.2 = renumberTargets (.ofLines (listingLines listing)) source.2)
      listing.filledLines (placed 0 (renumberedCodes listing)) := by
  have hcodes : List.Forall₂ (fun text code => ∃ source, Line.split text = .ok source ∧
        code = renumberTargets (.ofLines (listingLines listing)) source.2)
      listing.filledLines ((placed 0 (renumberedCodes listing)).map Prod.snd) := by
    rw [map_snd_placed, renumberedCodes, List.forall₂_map_right_iff]
    exact (mapM_eq_ok_iff.1 h).imp fun text source hsplit => ⟨source, hsplit, rfl⟩
  exact List.forall₂_map_right_iff.1 hcodes

end Parsing

end Renumbering

namespace Conversion

open Renumbering

/-- A listing that is parsed is parsed after renumbering if it has at most 6553 lines.  Then its
lines get the multiples of ten in the order of the text, and none replaces another.  Line 6554
would get a number that is not the number of a line. -/
theorem listingToLines_renumber (table : TokenTable) (listing : Text) {before : List Line}
    (h : (listingToLines table listing).result = .ok before) :
    ((∃ lines, (listingToLines table (Renumbering.renumber listing)).result = .ok lines) ↔
      listing.filledLines.length ≤ 6553) ∧
    (∀ lines, (listingToLines table (Renumbering.renumber listing)).result = .ok lines →
      lines.map (fun line => line.number.toNat) =
        (List.range listing.filledLines.length).map (fun k => 10 * (k + 1)) ∧
      List.Forall₂ (fun text line => ∃ source, Line.split text = .ok source ∧
          line.code = table.storeCode
            (renumberTargets (.ofLines (listingLines listing)) source.2))
        listing.filledLines lines ∧
      (listingToLines table (Renumbering.renumber listing)).reports.program = []) ∧
    (6553 < listing.filledLines.length →
      (listingToLines table (Renumbering.renumber listing)).result =
        .error (.program (.lineNumber "65540".toList))) := by
  have hread := mapM_split_of_listingToLines h
  have hrenumbered := mapM_split_renumber hread
  by_cases hfits : listing.filledLines.length ≤ 6553
  · rw [if_pos hfits] at hrenumbered
    have hlength := length_renumberedCodes hread
    have hnumbers := map_number_placed (hlength.trans_le hfits)
    have hascending := ascending_placed (hlength.trans_le hfits)
    obtain ⟨hresult, hreports⟩ := listingToLines_of_mapM table hrenumbered
    -- The numbers ascend, so arranging the lines changes nothing.
    rw [Program.latest_eq_self hascending] at hresult
    rw [Program.repetitions_eq_nil hascending.nodup] at hreports
    refine ⟨⟨fun _ => hfits, fun _ => ⟨_, hresult⟩⟩, fun lines hlines => ?_, fun hmany => by omega⟩
    obtain rfl := Except.ok.inj (hresult.symm.trans hlines)
    refine ⟨?_, ?_, hreports⟩
    · rw [List.map_map, ← hlength]
      exact hnumbers
    · rw [List.forall₂_map_right_iff]
      refine (forall₂_placed hread).imp fun text entry => ?_
      rintro ⟨source, hsplit, hcode⟩
      exact ⟨source, hsplit, congrArg table.storeCode hcode⟩
  · rw [if_neg hfits] at hrenumbered
    have hresult := (fails_of_mapM table hrenumbered).1
    have hnone : ∀ lines,
        (listingToLines table (Renumbering.renumber listing)).result ≠ .ok lines := by
      intro lines
      rw [hresult]
      exact nofun
    exact ⟨⟨fun ⟨lines, hlines⟩ => absurd hlines (hnone lines), fun hfew => absurd hfew hfits⟩,
      fun lines hlines => absurd hlines (hnone lines), fun _ => hresult⟩

/-- A program out of order with a line typed twice. -/
def repeatedListing : Text := "30 GOTO5,30\n\n5 OLD\n5 GOTO30".toList

/-- One line more than there are multiples of ten among the line numbers. -/
def overlongEntries : List (UInt16 × Text) := List.replicate 6554 (1, "A".toList)

theorem listingToLines_renumber_repeated :
    (∃ lines, (listingToLines Machine.dragon32.table
          (Renumbering.renumber repeatedListing)).result = .ok lines ∧
        lines.map (fun line => line.number.toNat) = [10, 20, 30]) ∧
      (listingToLines Machine.dragon32.table
        (Renumbering.renumber repeatedListing)).reports.program = [] ∧
      (listingToLines Machine.dragon32.table (Renumbering.renumber
          (Text.joinLines (overlongEntries.map Line.typed)))).result =
        .error (.program (.lineNumber "65540".toList)) := by
  have hbefore : (listingToLines Machine.dragon32.table repeatedListing).result =
      .ok [⟨5, [0x81, 0xBC, 0x33, 0x30]⟩, ⟨30, [0x81, 0xBC, 0x35, 0x2C, 0x33, 0x30]⟩] := by
    decide +kernel
  have hlength : repeatedListing.filledLines.length = 3 := by decide +kernel
  have hcode : ∀ source ∈ overlongEntries, source.2.IsCode := by
    intro source hsource
    rw [List.eq_of_mem_replicate hsource]
    refine ⟨by decide, fun c hc => ?_, by decide⟩
    rw [← Option.some.inj hc]
    decide
  have hlong : 6553 < (Text.joinLines (overlongEntries.map Line.typed)).filledLines.length := by
    rw [Program.filledLines_joinLines_typed hcode, List.length_map, overlongEntries,
      List.length_replicate]
    omega
  have hparsed := (listingToLines_of_mapM Machine.dragon32.table
    (Program.mapM_split_joinLines_typed hcode)).1
  obtain ⟨hiff, hrenumbered, -⟩ := listingToLines_renumber Machine.dragon32.table _ hbefore
  obtain ⟨lines, hlines⟩ := hiff.2 (by omega)
  obtain ⟨hnumbers, -, hreports⟩ := hrenumbered lines hlines
  rw [hlength] at hnumbers
  exact ⟨⟨lines, hlines, hnumbers⟩, hreports,
    (listingToLines_renumber Machine.dragon32.table _ hparsed).2.2 hlong⟩

end Conversion
end ColorBasic
