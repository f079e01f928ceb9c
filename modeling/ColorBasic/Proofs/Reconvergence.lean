import ColorBasic.Proofs.RoundTrip

/-!
# Dumps reconverge

Any bytes may stand in a dump: tokens inside strings, keywords spelled out, words that no table
lists, line feeds.  The listing of a dump is nevertheless lossless text, and stays so when it is cut
into lines and trimmed, so the dump that is made from it is listed and dumped again unchanged.
-/

namespace ColorBasic

namespace TokenTable

variable {table : TokenTable} {code : Text}

/-- Keywords are spelled in characters of seven bits. -/
def Ascii (table : TokenTable) : Prop :=
  ∀ keyword ∈ table.keywords, ∀ c ∈ keyword.text, c.toNat < 0x80

/-- A part of lossless text is lossless. -/
theorem Lossless.of_isInfix {part : Text} (h : table.Lossless code) (hpart : part <:+: code) :
    table.Lossless part where
  keeps c hc := h.keeps c (hpart.subset hc)
  marks hmark := h.marks (dropLast_subset_of_isInfix hpart hmark)

/-- Lossless texts are joined to lossless text, unless the mark's character gets inside. -/
theorem Lossless.append {start : Text} (hstart : table.Lossless start) (h : table.Lossless code)
    (hmark : 'ÿ' ∈ start → code = []) : table.Lossless (start ++ code) := by
  by_cases hne : code = []
  · rw [hne, List.append_nil]
    exact hstart
  · refine ⟨fun c hc => ?_, fun hmem => ?_⟩
    · exact (List.mem_append.1 hc).elim (hstart.keeps c) (h.keeps c)
    · rw [List.dropLast_append_of_ne_nil hne] at hmem
      rcases List.mem_append.1 hmem with hmem | hmem
      · exact hne (hmark hmem)
      · exact h.marks hmem

/-- What is shown for a token is a keyword, one unmapped character or nothing. -/
theorem shown_cases (table : TokenTable) (token : Token) :
    (∃ keyword ∈ table.keywords, table.shown token = keyword.text) ∨
      (∃ b, token = .byte b ∧ table.KeepsChar (Char.ofUInt8 b) ∧
        table.shown token = [Char.ofUInt8 b]) ∨
      table.shown token = [] := by
  unfold shown textOfToken?
  cases hkeyword : table.keywordOfToken? token with
  | some keyword => exact .inl ⟨keyword, List.mem_of_find?_eq_some hkeyword, rfl⟩
  | none =>
      cases token with
      | word w => exact .inr (.inr rfl)
      | byte b =>
          refine .inr (.inl ⟨b, rfl, ⟨?_, fun keyword hmem hvalue => ?_⟩, rfl⟩)
          · exact Nat.le_of_lt_succ b.toNat_lt
          · apply keywordOfToken?_eq_none_iff.1 hkeyword keyword hmem
            apply UInt16.toNat_inj.1
            rw [hvalue, Token.value, UInt8.toNat_toUInt16]
            rfl

/-- Only a single mark is shown as the character with its byte. -/
theorem lossless_shown (hregular : table.Regular) (hascii : table.Ascii) (token : Token) :
    table.Lossless (table.shown token) ∧
      ('ÿ' ∈ table.shown token → token = .byte wordMark) := by
  rcases table.shown_cases token with ⟨keyword, hmem, htext⟩ | ⟨b, rfl, hkeeps, htext⟩ | htext
  · have htextAscii := hascii keyword hmem
    rw [htext]
    exact ⟨lossless_of_ascii hregular htextAscii,
      fun hmark => (mark_not_mem_of_ascii htextAscii hmark).elim⟩
  · rw [htext]
    refine ⟨⟨fun c hc => List.mem_singleton.1 hc ▸ hkeeps, by simp⟩, fun hmark => ?_⟩
    have hvalue := congrArg Char.toNat (List.mem_singleton.1 hmark)
    exact congrArg Token.byte (UInt8.toNat_inj.1 hvalue.symm)
  · rw [htext]
    exact ⟨⟨by simp, by simp⟩, by simp⟩

/-- The text of any bytes is lossless: a single mark can only be their last token. -/
theorem lossless_detokenize (hregular : table.Regular) (hascii : table.Ascii) (bytes : Bytes) :
    table.Lossless (table.detokenize bytes) := by
  have hdecodable := Token.decodable_decode bytes
  unfold detokenize
  generalize Token.decode bytes = tokens at hdecodable
  induction tokens with
  | nil => exact ⟨by simp, by simp⟩
  | cons token tokens ih =>
      obtain ⟨hlossless, hmark⟩ := lossless_shown hregular hascii token
      refine hlossless.append (ih hdecodable.tail) fun hmem => ?_
      -- The mark's character comes from a single mark, which nothing follows.
      rcases hdecodable.head with hself | ⟨-, hlast⟩
      · rw [hmark hmem] at hself
        exact (hself rfl).elim
      · rw [hlast]
        rfl

/-- Every listed line is lossless text. -/
theorem lossless_listed (hregular : table.Regular) (hascii : table.Ascii) (line : Line) :
    table.Lossless (line.listed table) := by
  rw [Line.listed, ← List.singleton_append, ← List.append_assoc]
  have hnumber : ∀ c ∈ Text.decimal line.number.toNat ++ [' '], c.toNat < 0x80 := by
    intro c hc
    rcases List.mem_append.1 hc with hc | hc
    · have hbounds := Text.toNat_of_isDigit (Text.isDigit_of_mem_decimal hc)
      omega
    · rw [List.mem_singleton.1 hc]
      decide
  apply (lossless_of_ascii hregular hnumber).append (lossless_detokenize hregular hascii _)
  exact fun hmark => (mark_not_mem_of_ascii hnumber hmark).elim

end TokenTable

namespace Program

/-- The code of a source of joined texts is part of one of the texts. -/
theorem isInfix_of_mem_sources_joinLines {texts : List Text} {source : UInt16 × Text}
    (h : source ∈ sources (Text.joinLines texts)) : ∃ text ∈ texts, source.2 <:+: text := by
  have hne : texts ≠ [] := by
    rintro rfl
    simp [sources, Text.joinLines, Text.filledLines, Text.lines, Text.splitOn,
      Text.linesOfPieces] at h
  obtain ⟨line, hline, hsplit⟩ := mem_sources h
  obtain ⟨numeral, htrim, -⟩ := Line.split_eq_ok hsplit
  obtain ⟨piece, hpiece, hbegin⟩ := Text.exists_piece_of_mem_lines hline
  rw [Text.joinLines, Text.splitOn_intercalate hne] at hpiece
  obtain ⟨text, htext, hpiece⟩ := List.mem_flatMap.1 hpiece
  have hcode : source.2 <:+: line.trim := by
    rw [htrim]
    exact ((List.suffix_cons _ _).trans (List.suffix_append _ _)).isInfix
  refine ⟨text, htext, ?_⟩
  calc
    source.2 <:+: line.trim := hcode
    _ <:+: line := Text.trim_isInfix line
    _ <:+: piece := hbegin.isInfix
    _ <:+: text := Text.infix_of_mem_splitOn hpiece

end Program

namespace Conversion

/-- The listing of any dump has lossless sources. -/
theorem lossless_sources_of_dumpToListing {table : TokenTable} (hregular : table.Regular)
    (hascii : table.Ascii) {dump : Bytes} {start : UInt16} {texts : List Text}
    (h : (dumpToListing table dump start).result = .ok texts) :
    ∀ source ∈ Program.sources (Text.joinLines texts), table.Lossless source.2 := by
  obtain ⟨lines, -, rfl⟩ := map_eq_ok_iff.1 (mapError_eq_ok_iff.1 h)
  intro source hsource
  obtain ⟨text, htext, hpart⟩ := Program.isInfix_of_mem_sources_joinLines hsource
  obtain ⟨line, -, rfl⟩ := List.mem_map.1 htext
  exact (TokenTable.lossless_listed hregular hascii line).of_isInfix hpart

/-- Listing any dump and dumping the listing gives a fixed point, if both succeed: that dump is
listed, without a report, and its listing has the same dump. -/
theorem dump_reconverges (machine : Machine) (start : UInt16) (dump settled : Bytes)
    (texts : List Text) (hlist : (dumpToListing machine.table dump start).result = .ok texts)
    (hdump : (listingToDump machine.table (Text.joinLines texts) start).result = .ok settled) :
    ∃ settledTexts,
      dumpToListing machine.table settled start = { result := .ok settledTexts } ∧
        (listingToDump machine.table (Text.joinLines settledTexts) start).result = .ok settled := by
  have hlossless := lossless_sources_of_dumpToListing machine.table_regular
    machine.keywords_text_ascii hlist
  exact ⟨_, dumpToListing_of_lossless machine.table_regular hlossless hdump⟩

/-- A line with an `ELSE` without its colon, a word of no keyword, a line feed and a single mark. -/
def wildDump : Bytes :=
  [0x1E, 0x0E, 0x00, 0x0A, 0x84, 0xFF, 0xF7, 0x0A, 0x35, 0x20, 0x80, 0xFF, 0x00]

/-- The two lines that the wild line stands for. -/
def settledDump : Bytes :=
  [0x1E, 0x08, 0x00, 0x05, 0x80, 0xFF, 0x00, 0x1E, 0x0F, 0x00, 0x0A, 0x3A, 0x84, 0x00, 0x00, 0x00]

theorem dump_reconverges_wild :
    (dumpToListing Machine.dragon32.table wildDump 0x1E01).result =
        .ok ["10 ELSE\n5 FORÿ".toList] ∧
      (listingToDump Machine.dragon32.table (Text.joinLines ["10 ELSE\n5 FORÿ".toList])
        0x1E01).result = .ok settledDump ∧
      ∃ settledTexts,
        dumpToListing Machine.dragon32.table settledDump 0x1E01 = { result := .ok settledTexts } ∧
          (listingToDump Machine.dragon32.table (Text.joinLines settledTexts) 0x1E01).result =
            .ok settledDump := by
  have hlist : (dumpToListing Machine.dragon32.table wildDump 0x1E01).result =
      .ok ["10 ELSE\n5 FORÿ".toList] := by decide +kernel
  have hdump : (listingToDump Machine.dragon32.table
      (Text.joinLines ["10 ELSE\n5 FORÿ".toList]) 0x1E01).result = .ok settledDump := by
    decide +kernel
  exact ⟨hlist, hdump, dump_reconverges .dragon32 0x1E01 _ _ _ hlist hdump⟩

end Conversion
end ColorBasic
