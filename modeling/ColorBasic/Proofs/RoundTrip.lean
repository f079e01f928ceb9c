import ColorBasic.Proofs.ContainerFormat
import ColorBasic.Proofs.DumpGrammar
import ColorBasic.Proofs.ListingLines
import ColorBasic.Proofs.ProgramOrder
import ColorBasic.Proofs.StoredCode
import ColorBasic.Session

/-!
# Listings survive conversion

A program is written to a dump or a container and listed again.  The listing has the last line of
each number in ascending order, each as it was typed, and converting it again gives the same dump.
-/

namespace ColorBasic

namespace Program

/-- The listing that a program gets: the last line of each number, in ascending order. -/
def canonicalListing (listing : Text) : List Text :=
  (latest Prod.fst (sources listing)).map Line.typed

end Program

namespace Machine

/-- A character that a machine lists as it was typed: of seven bits, or of eight and no token. -/
def IsPlain (machine : Machine) (c : Char) : Prop :=
  c.toNat < 0x80 ∨
    (c.toNat ≤ 0xFE ∧ ∀ keyword ∈ machine.keywords, keyword.value.toNat ≠ c.toNat)

instance (machine : Machine) (c : Char) : Decidable (machine.IsPlain c) :=
  inferInstanceAs (Decidable (_ ∨ _))

theorem IsPlain.keepsChar {machine : Machine} {c : Char} (h : machine.IsPlain c) :
    machine.table.KeepsChar c := by
  rcases h with hsmall | ⟨hbyte, hkeywords⟩
  · exact machine.table_regular.keepsChar hsmall
  · exact ⟨by omega, hkeywords⟩

theorem IsPlain.ne_mark {machine : Machine} {c : Char} (h : machine.IsPlain c) : c ≠ 'ÿ' := by
  rintro rfl
  rcases h with hsmall | ⟨hbyte, -⟩
  · exact absurd hsmall (by decide)
  · exact absurd hbyte (by decide)

theorem lossless_of_isPlain {machine : Machine} {code : Text}
    (h : ∀ c ∈ code, machine.IsPlain c) : machine.table.Lossless code where
  keeps c hc := (h c hc).keepsChar
  marks hmark := (h _ (List.dropLast_subset _ hmark)).ne_mark rfl

end Machine

namespace TokenTable

variable {table : TokenTable}

/-- A line of lossless code is listed with its number and its code, without any report. -/
theorem Lossless.listed_ofSource (hregular : table.Regular) {source : UInt16 × Text}
    (h : table.Lossless source.2) :
    (Line.ofSource table source).listed table = Line.typed source ∧
      (Line.ofSource table source).listedReports table = [] := by
  obtain ⟨htext, hreports⟩ := h.detokenize_storeCode hregular
  constructor
  · rw [Line.listed, Line.typed, Line.revealed, Line.ofSource, htext]
  · rw [Line.listedReports, Line.revealed, Line.ofSource, hreports]

theorem list_of_lossless (hregular : table.Regular) {entries : List (UInt16 × Text)}
    (h : ∀ source ∈ entries, table.Lossless source.2) :
    Program.list table (entries.map (Line.ofSource table)) = entries.map Line.typed ∧
      Program.listReports table (entries.map (Line.ofSource table)) = [] := by
  constructor
  · rw [Program.list, List.map_map]
    exact List.map_congr_left fun source hsource => ((h source hsource).listed_ofSource hregular).1
  · rw [Program.listReports, List.flatMap_map, List.flatMap_eq_nil_iff]
    exact fun source hsource => ((h source hsource).listed_ofSource hregular).2

end TokenTable

namespace Conversion

variable {table : TokenTable} {listing : Text} {start : UInt16} {dump : Bytes}

theorem arrange_ofSource (table : TokenTable) (entries : List (UInt16 × Text)) :
    Program.arrange (entries.map (Line.ofSource table)) =
      (Program.latest Prod.fst entries).map (Line.ofSource table) :=
  Program.arrange_map (Line.ofSource table) entries

/-- A listing has a dump if all its lines are parsed and the latest ones fit the address space. -/
theorem listingToDump_eq_ok_iff :
    (listingToDump table listing start).result = .ok dump ↔
      ∃ lines, Program.parseLines table listing = .ok lines ∧
        Dump.writeLines (Program.arrange lines) start = .ok dump := by
  have hresult : (listingToDump table listing start).result =
      programResult ((Program.parseLines table listing).map Program.arrange) >>=
        fun lines => programResult (Dump.writeLines lines start) := rfl
  simp only [hresult, bind_eq_ok_iff, programResult, mapError_eq_ok_iff, map_eq_ok_iff]
  constructor
  · rintro ⟨_, ⟨lines, hlines, rfl⟩, hdump⟩
    exact ⟨lines, hlines, hdump⟩
  · rintro ⟨lines, hlines, hdump⟩
    exact ⟨_, ⟨lines, hlines, rfl⟩, hdump⟩

/-- The dump of lossless code is listed without reports, and the listing has the same dump. -/
theorem dumpToListing_of_lossless (hregular : table.Regular)
    (hlossless : ∀ source ∈ Program.sources listing, table.Lossless source.2)
    (h : (listingToDump table listing start).result = .ok dump) :
    dumpToListing table dump start = { result := .ok (Program.canonicalListing listing) } ∧
      (listingToDump table (Text.joinLines (Program.canonicalListing listing)) start).result =
        .ok dump := by
  obtain ⟨lines, hparsed, hdump⟩ := listingToDump_eq_ok_iff.1 h
  rw [Program.parseLines_eq_ok hparsed, arrange_ofSource] at hdump
  have hread := Dump.readLines_of_writeLines hdump
  have hlatest : ∀ source ∈ Program.latest Prod.fst (Program.sources listing),
      table.Lossless source.2 ∧ source.2.IsCode := by
    intro source hsource
    have hmem := Program.mem_of_mem_latest hsource
    exact ⟨hlossless source hmem, Program.isCode_of_mem_sources hmem⟩
  obtain ⟨hlist, hreports⟩ := TokenTable.list_of_lossless hregular fun source hsource =>
    (hlatest source hsource).1
  constructor
  · rw [dumpToListing, hread]
    simp only [Except.map, programResult, Except.mapError, reportsOn, hlist, hreports]
    rfl
  · have hparsed := Program.parseLines_joinLines_typed table fun source hsource =>
      (hlatest source hsource).2
    refine listingToDump_eq_ok_iff.2 ⟨_, hparsed, ?_⟩
    -- The listing is in order and names each number once, so arranging it changes nothing.
    rw [arrange_ofSource, Program.latest_eq_self (Program.ascending_latest _ _)]
    exact hdump

/-- A container is made of the dump for its load address. -/
theorem listingToContainer_eq_ok {load exec : UInt16} {bytes : Bytes}
    (h : (listingToContainer table listing load exec).result = .ok bytes) :
    ∃ dump container, (listingToDump table listing load).result = .ok dump ∧
      Container.pack .basic load exec dump = .ok container ∧ container.toBytes = bytes := by
  have hresult : (listingToContainer table listing load exec).result =
      (listingToDump table listing load).result >>= fun dump =>
        ((Container.pack .basic load exec dump).map Container.toBytes).mapError .container := rfl
  simp only [hresult, bind_eq_ok_iff, mapError_eq_ok_iff, map_eq_ok_iff] at h
  obtain ⟨dump, hdump, container, hpack, hbytes⟩ := h
  exact ⟨dump, container, hdump, hpack, hbytes⟩

/-- The container of a dump is unpacked to the listing that the dump has at the load address. -/
theorem containerToListing_of_pack {load exec : UInt16} {container : Container}
    {lines : List Text} (hpack : Container.pack .basic load exec dump = .ok container)
    (hlist : dumpToListing table dump load = { result := .ok lines }) :
    containerToListing table container.toBytes = { result := .ok (Text.joinLines lines) } := by
  rw [containerToListing, (Container.consistent_of_pack hpack).load_toBytes]
  obtain ⟨-, rfl⟩ := Container.pack_eq_ok_iff.1 hpack
  simp only [hlist]
  rfl

end Conversion

@[simp] theorem Reports.append_empty (reports : Reports) : reports ++ ({} : Reports) = reports := by
  show Reports.append reports {} = reports
  simp only [Reports.append, List.append_nil]

/-- A request that reports nothing leaves the session as it is. -/
theorem Session.perform_of_silent {session : Session} {request : Request} {answer : Answer}
    (h : request.answer session.table session.programStart = { result := .ok answer }) :
    session.perform request = (.ok answer, session) := by
  rw [perform, h]
  simp only [Reports.append_empty]

/-- The bytes that packing answers are the container for the addresses of the request. -/
theorem Session.listingToContainer_of_pack {session : Session} {listing : Text}
    {load exec : Option UInt16} {bytes : Bytes}
    (h : (session.perform (.pack listing load exec)).1 = .ok (.bytes bytes)) :
    (Conversion.listingToContainer session.table listing (load.getD session.programStart)
      (exec.getD session.programStart)).result = .ok bytes := by
  obtain ⟨packed, hpacked, hbytes⟩ := map_eq_ok_iff.1 h
  rw [hpacked, Answer.bytes.inj hbytes]

namespace Conversion

/-- A program of plain characters is listed from its dump as it was typed: the last line of each
number, in ascending order and without a report.  That listing has the same dump, and any session
of the machine gets it from the container of the program and keeps its own reports. -/
theorem listing_roundTrip (machine : Machine) (listing : Text)
    (hplain : ∀ source ∈ Program.sources listing, ∀ c ∈ source.2, machine.IsPlain c) :
    (∀ start dump, (listingToDump machine.table listing start).result = .ok dump →
      dumpToListing machine.table dump start =
          { result := .ok (Program.canonicalListing listing) } ∧
        (listingToDump machine.table (Text.joinLines (Program.canonicalListing listing))
          start).result = .ok dump) ∧
      ∀ packer reader : Session, packer.table = machine.table → reader.table = machine.table →
        ∀ load exec bytes, (packer.perform (.pack listing load exec)).1 = .ok (.bytes bytes) →
          reader.perform (.unpack bytes) =
            (.ok (.text (Text.joinLines (Program.canonicalListing listing))), reader) := by
  have hlossless : ∀ source ∈ Program.sources listing, machine.table.Lossless source.2 :=
    fun source hsource => Machine.lossless_of_isPlain (hplain source hsource)
  refine ⟨fun start dump => dumpToListing_of_lossless machine.table_regular hlossless, ?_⟩
  intro packer reader hpacker hreader load exec bytes hpacked
  have hcontainer := Session.listingToContainer_of_pack hpacked
  rw [hpacker] at hcontainer
  -- The reader uses the load address that the container holds, not its own program start.
  obtain ⟨dump, container, hdump, hpack, rfl⟩ := listingToContainer_eq_ok hcontainer
  obtain ⟨hlist, -⟩ := dumpToListing_of_lossless machine.table_regular hlossless hdump
  apply Session.perform_of_silent
  rw [Request.answer, hreader, containerToListing_of_pack hpack hlist]
  rfl

/-- A program out of order in which a line is typed twice. -/
def retypedListing : Text := "20 IFA=1THEN10ELSE'é\n10 OLD\n10 DATA'é:'X".toList

/-- The dump of the retyped program. -/
def retypedDump : Bytes :=
  [0x1E, 0x0D, 0x00, 0x0A, 0x86, 0x27, 0xE9, 0x3A, 0x3A, 0x83, 0x58, 0x00, 0x1E, 0x1E, 0x00, 0x14,
    0x85, 0x41, 0xCB, 0x31, 0xBF, 0x31, 0x30, 0x3A, 0x84, 0x3A, 0x83, 0xE9, 0x00, 0x00, 0x00]

theorem listing_roundTrip_retyped :
    (∀ source ∈ Program.sources retypedListing, ∀ c ∈ source.2, Machine.dragon32.IsPlain c) ∧
      dumpToListing Machine.dragon32.table retypedDump 0x1E01 =
        { result := .ok ["10 DATA'é:'X".toList, "20 IFA=1THEN10ELSE'é".toList] } ∧
      ((Session.ofTable Machine.dragon32.table).setProgramStart 0x2601).perform
          (.unpack ([0x55, 0x01, 0x1E, 0x01, 0x00, 0x1F, 0x00, 0x07, 0xAA] ++ retypedDump)) =
        (.ok (.text "10 DATA'é:'X\n20 IFA=1THEN10ELSE'é".toList),
          (Session.ofTable Machine.dragon32.table).setProgramStart 0x2601) := by
  have hsources : Program.sources retypedListing =
      [(20, "IFA=1THEN10ELSE'é".toList), (10, "OLD".toList), (10, "DATA'é:'X".toList)] := by
    decide +kernel
  have hplain : ∀ source ∈ Program.sources retypedListing, ∀ c ∈ source.2,
      Machine.dragon32.IsPlain c := by
    have hall : (Program.sources retypedListing).all
        (fun source => source.2.all fun c => Machine.dragon32.IsPlain c) = true := by
      rw [hsources]
      decide +kernel
    intro source hsource c hc
    exact of_decide_eq_true (List.all_eq_true.1 (List.all_eq_true.1 hall source hsource) c hc)
  have hlisting : Program.canonicalListing retypedListing =
      ["10 DATA'é:'X".toList, "20 IFA=1THEN10ELSE'é".toList] := by
    rw [Program.canonicalListing, hsources, Program.latest_retyped]
    · decide +kernel
    · decide
    · rfl
  have hjoined : Text.joinLines ["10 DATA'é:'X".toList, "20 IFA=1THEN10ELSE'é".toList] =
      "10 DATA'é:'X\n20 IFA=1THEN10ELSE'é".toList := by decide +kernel
  have hdump : (listingToDump Machine.dragon32.table retypedListing 0x1E01).result =
      .ok retypedDump := by decide +kernel
  have hpacked : ((Session.ofTable Machine.dragon32.table).perform
      (.pack retypedListing none (some 7))).1 =
        .ok (.bytes ([0x55, 0x01, 0x1E, 0x01, 0x00, 0x1F, 0x00, 0x07, 0xAA] ++ retypedDump)) := by
    show ((listingToDump Machine.dragon32.table retypedListing 0x1E01).result.bind fun dump =>
      ((Container.pack .basic 0x1E01 7 dump).map Container.toBytes).mapError .container).map
        Answer.bytes = _
    rw [hdump]
    rfl
  obtain ⟨hdumps, hcontainers⟩ := listing_roundTrip .dragon32 retypedListing hplain
  rw [hlisting] at hdumps hcontainers
  rw [hjoined] at hcontainers
  refine ⟨hplain, (hdumps 0x1E01 retypedDump hdump).1, ?_⟩
  exact hcontainers _ _ rfl rfl none (some 7) _ hpacked

end Conversion
end ColorBasic
