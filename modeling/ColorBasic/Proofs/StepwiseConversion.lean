import ColorBasic.Proofs.Reporting

/-!
# Conversions one report at a time

Each conversion is run here step by step, as a nest of loops over lines, segments, lexemes and
tokens that reports what it meets and stops where it fails.  Whatever reports wait before, the run
has the result of the conversion and adds its reports: a failure in the middle of a program keeps
what was reported on the code before it, and reports nothing on the program as a whole.
-/

namespace ColorBasic
namespace Reporting

section Steps

/-- Stores a character, and reports one that has no byte. -/
def storeChar (c : Char) : Reporting UInt8 := do
  reportIf (!Text.isStorable c) .code (.unmappedChar c)
  return Text.storedByte c

/-- Stores a lexeme. -/
def storeLexeme : Lexeme → Reporting Bytes
  | .keyword k => return k.token.bytes
  | .plain c => return [← storeChar c]

/-- Stores a segment. -/
def storeSegment (table : TokenTable) (segment : Segment) : Reporting Bytes :=
  match segment.kind with
  | .code => return table.hideColons (← (table.munch segment.text).mapM storeLexeme).flatten
  | _ => segment.text.mapM storeChar

/-- Parses a listing line. -/
def parseLine (table : TokenTable) (line : Text) : Reporting Line := do
  let (number, code) ← ofResult (Conversion.programResult (Line.split line))
  return ⟨number, (← (Segment.classify table code).mapM (storeSegment table)).flatten⟩

/-- Parses a listing line and respaces it. -/
def respaceLine (table : TokenTable) (line : Text) : Reporting Line := do
  let (number, code) ← ofResult (Conversion.programResult (Line.split line))
  let part ← (Segment.classify table code).foldlM (fun part segment => do
    let _ ← storeSegment table segment
    return part.append table segment) (⟨[], false⟩ : RespacedPart)
  return ⟨number, part.code⟩

/-- Reports the lines that replace earlier ones; `seen` holds the numbers so far. -/
def reportRepeated (seen : Std.HashSet UInt16) : List Line → Reporting Unit
  | [] => return
  | line :: lines => do
    reportIf (seen.contains line.number) .program (.duplicateLine line.number)
    reportRepeated (seen.insert line.number) lines

/-- Shows a token, and reports one that has no text. -/
def showToken (table : TokenTable) (token : Token) : Reporting Text := do
  reportIf (table.textOfToken? token).isNone .code (.unknownToken token.value)
  return table.shown token

/-- Shows stored code. -/
def showCode (table : TokenTable) (code : Bytes) : Reporting Text :=
  return (← (Token.decode code).mapM (showToken table)).flatten

/-- Shows a program line. -/
def listLine (table : TokenTable) (line : Line) : Reporting Text :=
  return Text.decimal line.number.toNat ++ ' ' :: (← showCode table (line.revealed table))

/-- Shows stored code token by token. -/
def breakDown (table : TokenTable) (code : Bytes) : Reporting (List Text) :=
  (Token.decode code).mapM fun token =>
    return TokenTable.valueColumn token ++ " -> ".toList ++ Text.quoted (← showToken table token)

/-- Annotates the records of a dump from where a walk stands. -/
def annotateFrom (table : TokenTable) (walk : Walk) : Reporting (List Text) :=
  match _h : walk.step with
  | (.record record, after) => do
    -- Three rows stand above the breakdown of the code.
    let heading := (Dump.annotateRecord table walk.address record).take 3
    let rows ← breakDown table record.tokens
    return heading ++ rows ++ (← annotateFrom table after)
  | (.fault error, _) => throw (.program error)
  | (.finish, after) => do
    if after.foundEnd then return ["$0000 -> end address".toList]
    else throw (.program (.truncated after.offset))
termination_by walk.unread.length
decreasing_by exact Walk.unread_step_lt _h

/-- Renumbers a target, and reports one without a line. -/
def renumberTarget (map : Renumbering.NumberMap) (line target : Text) : Reporting Text := do
  reportIf (Renumbering.isDangling map target) .references (.danglingReference line target)
  return Renumbering.renumberTarget map target

/-- Renumbers the targets of a piece of a line. -/
def renumberPiece (map : Renumbering.NumberMap) (line : Text) : Piece → Reporting Text
  | .plain c => return [c]
  | .jump r => return r.word ++ r.gap ++
      [','].intercalate (← r.targets.mapM (renumberTarget map line)) ++ r.trailing

/-- Renumbers a line at its position, and reports one without a number. -/
def renumberLine (map : Renumbering.NumberMap) (line : Text × Nat) : Reporting Text := do
  reportIf (Renumbering.label line.1).isEmpty .references (.missingLineNumber line.1)
  let numbered := Renumbering.renumberLabel line
  return (← (Piece.scan numbered).mapM (renumberPiece map numbered)).flatten

end Steps

section Conversions

variable (table : TokenTable)

/-- Reads all lines of a listing and arranges them; which of them are replaced is reported when
all are read. -/
def listingToLines (listing : Text) : Reporting (List Line) := do
  let lines ← listing.filledLines.mapM (parseLine table)
  reportRepeated ∅ lines
  return Program.arrange lines

/-- Arranges the lines of a listing and writes them to a dump. -/
def listingToDump (listing : Text) (start : UInt16) : Reporting Bytes := do
  let lines ← listingToLines table listing
  ofResult (Conversion.programResult (Dump.writeLines lines start))

/-- Reads all lines of a dump and then lists them. -/
def dumpToListing (dump : Bytes) (start : UInt16) : Reporting (List Text) := do
  let lines ← ofResult (Conversion.programResult (Dump.readLines dump start))
  lines.mapM (listLine table)

/-- Annotates a dump record by record, without reading it as a whole first. -/
def annotateDump (dump : Bytes) (start : UInt16) : Reporting (List Text) :=
  return ("program start address: $".toList ++ Text.lowerHex 4 start.toNat) ::
    (← annotateFrom table (.start dump start))

/-- Renumbers the lines of a listing one after the other, with the numbers of all lines known. -/
def renumber (listing : Text) : Reporting Text :=
  let lines := Renumbering.listingLines listing
  return Text.joinLines (← lines.zipIdx.mapM (renumberLine (.ofLines lines)))

/-- Respaces the lines of a listing, arranges them and lists them; which of them are replaced is
reported last, when the listing is there. -/
def reformat (listing : Text) : Reporting Text := do
  let lines ← listing.filledLines.mapM (respaceLine table)
  let texts ← (Program.arrange lines).mapM (listLine table)
  reportRepeated ∅ lines
  return Text.joinLines texts

/-- Writes a listing to a dump at the load address and packs that into a container. -/
def listingToContainer (listing : Text) (load exec : UInt16) : Reporting Bytes := do
  let dump ← listingToDump table listing load
  ofResult (((Container.pack .basic load exec dump).map Container.toBytes).mapError .container)

/-- Reads a container and lists its payload, whatever the header calls it; another kind of payload
is reported before the code. -/
def containerToListing (bytes : Bytes) : Reporting Text := do
  let container ← ofResult ((Container.load bytes).mapError .container)
  reportIf (container.fileType? ≠ some .basic) .program (.wrongFileType container.header.fileType)
  return Text.joinLines (← dumpToListing table container.data container.header.load)

/-- Answers a request step by step. -/
def answer (programStart : UInt16) : Request → Reporting Answer
  | .arrange listing => .lines <$> listingToLines table listing
  | .writeDump listing start => .bytes <$> listingToDump table listing (start.getD programStart)
  | .readDump dump start => .rows <$> dumpToListing table dump (start.getD programStart)
  | .annotate dump start => .rows <$> annotateDump table dump (start.getD programStart)
  | .breakDown code => .rows <$> breakDown table code
  | .renumber listing => .text <$> renumber listing
  | .destinations listing => return .numbers (Renumbering.destinations listing)
  | .reformat listing => .text <$> reformat table listing
  | .pack listing load exec =>
    .bytes <$> listingToContainer table listing (load.getD programStart) (exec.getD programStart)
  | .unpack bytes => .text <$> containerToListing table bytes
  | .tokenize text =>
    (.bytes ∘ List.flatten) <$> (table.munch text).mapM storeLexeme
  | .detokenize code => .text <$> showCode table code

end Conversions

section Storing

variable (table : TokenTable)

theorem yields_storeChar (c : Char) :
    (storeChar c).Yields ⟨.ok (Text.storedByte c), .about .code (Text.charReports c)⟩ := by
  refine ((yields_reportIf _ _ _).bind_pure fun _ => Text.storedByte c).of_eq ?_
  unfold Text.charReports
  cases Text.isStorable c <;> rfl

theorem yields_storeLexeme (lexeme : Lexeme) :
    (storeLexeme lexeme).Yields ⟨.ok lexeme.bytes, .about .code lexeme.reports⟩ := by
  cases lexeme with
  | keyword k =>
      rw [Lexeme.reports, Reports.about_nil]
      exact yields_pure k.token.bytes
  | plain c => exact (yields_storeChar c).bind_pure fun b => [b]

theorem yields_munch (text : Text) :
    ((table.munch text).mapM storeLexeme).Yields
      ⟨.ok ((table.munch text).map Lexeme.bytes), .about .code (table.tokenizeReports text)⟩ :=
  yields_mapM_ok yields_storeLexeme _

theorem flatten_map_bytes_munch (text : Text) :
    ((table.munch text).map Lexeme.bytes).flatten = table.tokenize text := by
  rw [TokenTable.tokenize, List.flatMap_def]

theorem yields_storeSegment (segment : Segment) :
    (storeSegment table segment).Yields
      ⟨.ok (segment.stored table), .about .code (segment.storedReports table)⟩ := by
  obtain ⟨kind, text⟩ := segment
  cases kind with
  | code =>
      refine ((yields_munch table text).bind_pure fun parts =>
        table.hideColons parts.flatten).of_eq ?_
      simp only [Outcome.map, Except.map, flatten_map_bytes_munch]
      rfl
  | string => exact yields_mapM_ok yields_storeChar text
  | comment => exact yields_mapM_ok yields_storeChar text
  | data => exact yields_mapM_ok yields_storeChar text

theorem yields_parseLine (line : Text) :
    (parseLine table line).Yields
      ⟨Conversion.programResult (Line.parse table line),
        .about .code (Line.parseReports table line)⟩ := by
  refine ((yields_ofResult _).bind fun (source : UInt16 × Text) =>
    (yields_mapM_ok (yields_storeSegment table) (Segment.classify table source.2)).bind_pure
      fun parts => (⟨source.1, parts.flatten⟩ : Line)).of_eq ?_
  unfold Line.parse Line.parseReports
  cases Line.split line with
  | error error => rw [Reports.about_nil]; rfl
  | ok source =>
      simp only [TokenTable.storeCode, List.flatMap_def]
      rfl

theorem yields_respaceLine (line : Text) :
    (respaceLine table line).Yields
      ⟨Conversion.programResult (Line.parseRespaced table line),
        .about .code (Line.parseReports table line)⟩ := by
  have hsegment (part : RespacedPart) (segment : Segment) :=
    (yields_storeSegment table segment).bind_pure fun _ => part.append table segment
  refine ((yields_ofResult _).bind fun (source : UInt16 × Text) =>
    (yields_foldlM_ok hsegment (Segment.classify table source.2) ⟨[], false⟩).bind_pure
      fun part => (⟨source.1, part.code⟩ : Line)).of_eq ?_
  unfold Line.parseRespaced Line.parseReports
  cases Line.split line with
  | error error => rw [Reports.about_nil]; rfl
  | ok source => rfl

theorem parseReports_of_unreadable {line : Text} (h : Program.isReadable line = false) :
    Line.parseReports table line = [] := by
  unfold Program.isReadable at h
  unfold Line.parseReports
  cases hsplit : Line.split line with
  | error error => rfl
  | ok source =>
      rw [hsplit] at h
      cases h

/-- A listing is read line by line, up to the first line that cannot be read. -/
theorem yields_lines {steps : Text → Reporting Line} {parse : Text → Except Error Line}
    (h : ∀ line, (steps line).Yields
      ⟨Conversion.programResult (parse line), .about .code (Line.parseReports table line)⟩)
    (hreadable : ∀ line, (parse line).isOk = Program.isReadable line) (listing : Text) :
    (listing.filledLines.mapM steps).Yields
      ⟨Conversion.programResult (listing.filledLines.mapM parse),
        .about .code (Program.parseReports table listing)⟩ := by
  refine (yields_mapM h _).of_eq ?_
  have hreports (lines : List Text) :
      reportsThrough (fun line => Conversion.programResult (parse line)) (Line.parseReports table)
          lines =
        (lines.takeWhile Program.isReadable).flatMap (Line.parseReports table) := by
    induction lines with
    | nil => rfl
    | cons line lines ih =>
        rw [reportsThrough, List.takeWhile_cons, ← hreadable, ih]
        cases hparse : parse line with
        | error error =>
            have hunreadable : Program.isReadable line = false := by
              rw [← hreadable, hparse]
              rfl
            exact parseReports_of_unreadable table hunreadable
        | ok parsed => rfl
  rw [hreports, Program.parseReports]
  exact congrArg (Outcome.mk · _) (mapM_mapError parse Failure.program _)

end Storing

section Showing

variable (table : TokenTable)

theorem yields_showToken (token : Token) :
    (showToken table token).Yields
      ⟨.ok (table.shown token), .about .code (table.shownReports token)⟩ := by
  refine ((yields_reportIf _ _ _).bind_pure fun _ => table.shown token).of_eq ?_
  unfold TokenTable.shownReports
  cases table.textOfToken? token <;> rfl

theorem yields_showCode (code : Bytes) :
    (showCode table code).Yields
      ⟨.ok (table.detokenize code), .about .code (table.detokenizeReports code)⟩ := by
  refine ((yields_mapM_ok (yields_showToken table) (Token.decode code)).bind_pure
    List.flatten).of_eq ?_
  rw [TokenTable.detokenize, List.flatMap_def]
  rfl

theorem yields_listLine (line : Line) :
    (listLine table line).Yields
      ⟨.ok (line.listed table), .about .code (line.listedReports table)⟩ :=
  (yields_showCode table (line.revealed table)).bind_pure _

theorem yields_list (lines : List Line) :
    (lines.mapM (listLine table)).Yields
      ⟨.ok (Program.list table lines), .about .code (Program.listReports table lines)⟩ :=
  yields_mapM_ok (yields_listLine table) lines

theorem yields_breakDown (code : Bytes) :
    (breakDown table code).Yields
      ⟨.ok (table.breakdown code), .about .code (table.detokenizeReports code)⟩ :=
  yields_mapM_ok (fun token => (yields_showToken table token).bind_pure _) _

end Showing

section Annotating

variable (table : TokenTable)

/-- The annotation of what a walk finds in a dump from an address on. -/
def annotated (address : UInt16) (found : Survey) : Except Error (List Text) :=
  match found.fault with
  | some error => .error error
  | none =>
    if found.final.foundEnd then
      .ok (Dump.annotateRecords table address found.records ++ ["$0000 -> end address".toList])
    else .error (.truncated found.final.offset)

theorem annotate_eq_map (dump : Bytes) (start : UInt16) :
    Dump.annotate table dump start =
      (annotated table start (Dump.survey dump start)).map
        (("program start address: $".toList ++ Text.lowerHex 4 start.toNat) :: ·) := by
  unfold Dump.annotate annotated
  obtain ⟨records, fault, final⟩ := Dump.survey dump start
  cases fault with
  | some error => rfl
  | none =>
      dsimp only
      split <;> rfl

/-- The records before a fault are reported on. -/
theorem yields_annotateFrom (walk : Walk) :
    (annotateFrom table walk).Yields
      ⟨Conversion.programResult (annotated table walk.address walk.survey),
        .about .code (walk.survey.records.flatMap fun record =>
          table.detokenizeReports record.tokens)⟩ := by
  fun_induction annotateFrom table walk with
  | case1 walk record after hstep heading ih =>
      -- The later records are annotated from the address that this one names.
      have haddress : after.address = record.next := by
        rw [(Walk.step_eq_record hstep).2.2.2]
        rfl
      rw [haddress] at ih
      refine ((yields_breakDown table record.tokens).bind_ok (ih.bind_pure _)).of_eq ?_
      rw [Walk.survey_of_record hstep]
      dsimp only
      rw [List.flatMap_cons, Reports.about_append]
      refine congrArg (Outcome.mk · _) ?_
      unfold annotated
      dsimp only
      cases after.survey.fault with
      | some error => rfl
      | none =>
          dsimp only
          split
          · rw [Dump.annotateRecords, List.append_assoc]
            rfl
          · rfl
  | case2 walk error after hstep =>
      rw [Walk.survey_of_fault hstep]
      exact yields_ofResult (.error (.program error))
  | case3 walk after hstep hend =>
      rw [Walk.survey_of_finish hstep]
      simp only [annotated, if_pos hend]
      exact yields_pure _
  | case4 walk after hstep hend =>
      rw [Walk.survey_of_finish hstep]
      simp only [annotated, if_neg hend]
      exact yields_ofResult (.error _)

end Annotating

section Repetitions

theorem yields_reportRepeated (seen : Std.HashSet UInt16) (lines : List Line) :
    (reportRepeated seen lines).Yields ⟨.ok (), .about .program
      ((Program.repeatedNumbers seen (lines.map Line.number)).map .duplicateLine)⟩ := by
  induction lines generalizing seen with
  | nil => exact yields_pure ()
  | cons line lines ih =>
      refine ((yields_reportIf _ _ _).bind_ok (ih (seen.insert line.number))).of_eq ?_
      rw [List.map_cons, Program.repeatedNumbers_cons, List.map_append, Reports.about_append]
      split <;> rfl

end Repetitions

section Renumbering

variable (map : Renumbering.NumberMap)

theorem yields_renumberTarget (line target : Text) :
    (renumberTarget map line target).Yields
      ⟨.ok (Renumbering.renumberTarget map target), .about .references
        (if Renumbering.isDangling map target then [.danglingReference line target] else [])⟩ :=
  (yields_reportIf _ _ _).bind_pure _

theorem yields_renumberPiece (line : Text) (piece : Piece) :
    (renumberPiece map line piece).Yields
      ⟨.ok (Renumbering.renumberPiece map piece), .about .references
        (piece.reference?.toList.flatMap fun r =>
          (r.targets.filter (Renumbering.isDangling map)).map (.danglingReference line))⟩ := by
  cases piece with
  | plain c => exact yields_pure [c]
  | jump r =>
      refine ((yields_mapM_ok (yields_renumberTarget map line) r.targets).bind_pure _).of_eq ?_
      have hdangling : (r.targets.filter (Renumbering.isDangling map)).map
            (Diagnostic.danglingReference line) =
          r.targets.flatMap fun target =>
            if Renumbering.isDangling map target then [.danglingReference line target] else [] := by
        induction r.targets with
        | nil => rfl
        | cons target targets ih =>
            rw [List.flatMap_cons, ← ih, List.filter_cons]
            split <;> rfl
      rw [Piece.reference?, Option.toList_some, List.flatMap_singleton, hdangling]
      rfl

theorem yields_renumberLine (line : Text × Nat) :
    (renumberLine map line).Yields
      ⟨.ok (Renumbering.renumberLine map line),
        .about .references (Renumbering.lineReports map line)⟩ := by
  refine ((yields_reportIf _ _ _).bind_ok ((yields_mapM_ok (yields_renumberPiece map
    (Renumbering.renumberLabel line)) (Piece.scan _)).bind_pure List.flatten)).of_eq ?_
  rw [Renumbering.lineReports, Reports.about_append, Reference.all,
    List.filterMap_eq_flatMap_toList, List.flatMap_assoc, Renumbering.renumberLine,
    Renumbering.renumberTargets, List.flatMap_def]
  rfl

end Renumbering

section Outcomes

variable (table : TokenTable)

theorem yields_listingToLines (listing : Text) :
    (listingToLines table listing).Yields (Conversion.listingToLines table listing) := by
  have hreadable : ∀ line, (Line.parse table line).isOk = Program.isReadable line := by
    intro line
    unfold Line.parse Program.isReadable
    cases Line.split line <;> rfl
  refine ((yields_lines table (yields_parseLine table) hreadable listing).bind fun lines =>
    (yields_reportRepeated ∅ lines).bind_pure fun _ => Program.arrange lines).of_eq ?_
  unfold Conversion.listingToLines Program.parseLines
  cases listing.filledLines.mapM (Line.parse table) <;> rfl

theorem yields_listingToDump (listing : Text) (start : UInt16) :
    (listingToDump table listing start).Yields (Conversion.listingToDump table listing start) :=
  (yields_listingToLines table listing).andThen _

theorem yields_dumpToListing (dump : Bytes) (start : UInt16) :
    (dumpToListing table dump start).Yields (Conversion.dumpToListing table dump start) := by
  refine ((yields_ofResult _).bind fun lines => yields_list table lines).of_eq ?_
  unfold Conversion.dumpToListing
  cases Dump.readLines dump start <;> rfl

theorem yields_annotateDump (dump : Bytes) (start : UInt16) :
    (annotateDump table dump start).Yields
      (Conversion.dumpToAnnotation table dump start) := by
  have hwalk : (annotateFrom table (.start dump start)).Yields
      ⟨Conversion.programResult (annotated table start (Dump.survey dump start)),
        .about .code (Dump.annotateReports table dump start)⟩ :=
    yields_annotateFrom table (.start dump start)
  refine (hwalk.bind_pure _).of_eq ?_
  unfold Conversion.dumpToAnnotation
  rw [annotate_eq_map]
  cases annotated table start (Dump.survey dump start) <;> rfl

theorem yields_renumber (listing : Text) :
    (renumber listing).Yields (Conversion.renumber listing) :=
  (yields_mapM_ok (yields_renumberLine _) _).bind_pure _

theorem yields_reformat (listing : Text) :
    (reformat table listing).Yields (Conversion.reformat table listing) := by
  have hreadable : ∀ line, (Line.parseRespaced table line).isOk = Program.isReadable line := by
    intro line
    unfold Line.parseRespaced Program.isReadable
    cases Line.split line <;> rfl
  refine ((yields_lines table (yields_respaceLine table) hreadable listing).bind fun lines =>
    (yields_list table (Program.arrange lines)).bind_ok
      ((yields_reportRepeated ∅ lines).bind_pure fun _ => _)).of_eq ?_
  unfold Conversion.reformat Program.parseRespaced
  cases listing.filledLines.mapM (Line.parseRespaced table) with
  | error error => rfl
  | ok lines =>
      have hreports (listed repeated : List Diagnostic) :
          Reports.about .code listed ++ Reports.about .program repeated =
            { program := repeated, code := listed } := by
        show Reports.mk repeated (listed ++ []) [] = _
        rw [List.append_nil]
      simp only [Outcome.bind, Outcome.map, Conversion.programResult, Except.mapError, hreports]
      rfl

theorem yields_listingToContainer (listing : Text) (load exec : UInt16) :
    (listingToContainer table listing load exec).Yields
      (Conversion.listingToContainer table listing load exec) :=
  (yields_listingToDump table listing load).andThen _

theorem yields_containerToListing (bytes : Bytes) :
    (containerToListing table bytes).Yields (Conversion.containerToListing table bytes) := by
  refine ((yields_ofResult _).bind fun (container : Container) =>
    (yields_reportIf _ _ _).bind_ok ((yields_dumpToListing table container.data
      container.header.load).bind_pure Text.joinLines)).of_eq ?_
  unfold Conversion.containerToListing
  cases Container.load bytes with
  | error error => rfl
  | ok container =>
      have hkind : (if decide (container.fileType? ≠ some .basic) = true then
            [Diagnostic.wrongFileType container.header.fileType] else []) =
          Conversion.fileTypeReports container := by
        unfold Conversion.fileTypeReports
        by_cases hbasic : container.fileType? = some .basic
        · rw [if_neg (by simp [hbasic]), if_pos hbasic]
        · rw [if_pos (by simpa using hbasic), if_neg hbasic]
      dsimp only
      rw [← hkind]
      rfl

/-- Answering a request step by step gives its answer and its reports, whatever waits before. -/
theorem yields_answer (programStart : UInt16) (request : Request) :
    (answer table programStart request).Yields (request.answer table programStart) := by
  cases request with
  | arrange listing => exact (yields_listingToLines table listing).map _
  | writeDump listing start => exact (yields_listingToDump table listing _).map _
  | readDump dump start => exact (yields_dumpToListing table dump _).map _
  | annotate dump start => exact (yields_annotateDump table dump _).map _
  | breakDown code => exact (yields_breakDown table code).map _
  | renumber listing => exact (yields_renumber listing).map _
  | destinations listing => exact yields_pure _
  | reformat listing => exact (yields_reformat table listing).map _
  | pack listing load exec => exact (yields_listingToContainer table listing _ _).map _
  | unpack bytes => exact (yields_containerToListing table bytes).map _
  | tokenize text =>
      refine ((yields_munch table text).map _).of_eq ?_
      simp only [Outcome.map, Except.map, Function.comp_apply, flatten_map_bytes_munch]
      rfl
  | detokenize code => exact (yields_showCode table code).map _

end Outcomes

end Reporting
end ColorBasic
