import ColorBasic.Conversion
import ColorBasic.Machine.Table
import ColorBasic.Settings

/-!
# Sessions

A session makes conversions with one token table and one program start, and keeps the reports that
wait to be taken.

A request is answered from the table and the program start alone; a session only remembers what was
reported.
-/

namespace ColorBasic

/-- The conversions that a session offers.  An address that is left out is the program start. -/
inductive Request where
  /-- The arranged lines of a listing. -/
  | arrange (listing : Text)
  /-- The dump of a listing. -/
  | writeDump (listing : Text) (start : Option UInt16)
  /-- The listing of a dump. -/
  | readDump (dump : Bytes) (start : Option UInt16)
  /-- The annotated form of a dump. -/
  | annotate (dump : Bytes) (start : Option UInt16)
  /-- The breakdown of stored code. -/
  | breakDown (code : Bytes)
  /-- A listing with new line numbers. -/
  | renumber (listing : Text)
  /-- The jump targets of a listing. -/
  | destinations (listing : Text)
  /-- A listing with normal spacing. -/
  | reformat (listing : Text)
  /-- The container of a listing. -/
  | pack (listing : Text) (load exec : Option UInt16)
  /-- The listing of the program in a container. -/
  | unpack (bytes : Bytes)
  /-- Text with its keywords tokenized. -/
  | tokenize (text : Text)
  /-- The text of stored code. -/
  | detokenize (code : Bytes)
  deriving DecidableEq, Repr

/-- What a request is answered with. -/
inductive Answer where
  /-- Program lines. -/
  | lines (lines : List Line)
  /-- Bytes. -/
  | bytes (bytes : Bytes)
  /-- Text. -/
  | text (text : Text)
  /-- Rows of text. -/
  | rows (rows : List Text)
  /-- Numbers. -/
  | numbers (numbers : List Nat)
  deriving DecidableEq, Repr

/-- The answer to a request, from the table and the program start alone. -/
def Request.answer (table : TokenTable) (programStart : UInt16) : Request → Outcome Answer
  | .arrange listing => (Conversion.listingToLines table listing).map .lines
  | .writeDump listing start =>
    (Conversion.listingToDump table listing (start.getD programStart)).map .bytes
  | .readDump dump start =>
    (Conversion.dumpToListing table dump (start.getD programStart)).map .rows
  | .annotate dump start =>
    (Conversion.dumpToAnnotation table dump (start.getD programStart)).map .rows
  | .breakDown code => (Conversion.codeToBreakdown table code).map .rows
  | .renumber listing => (Conversion.renumber listing).map .text
  | .destinations listing => (Conversion.destinations listing).map .numbers
  | .reformat listing => (Conversion.reformat table listing).map .text
  | .pack listing load exec =>
    (Conversion.listingToContainer table listing (load.getD programStart)
      (exec.getD programStart)).map .bytes
  | .unpack bytes => (Conversion.containerToListing table bytes).map .text
  | .tokenize text => (Conversion.textToCode table text).map .bytes
  | .detokenize code => (Conversion.codeToText table code).map .text

/-- A table, a program start and the reports that wait to be taken. -/
structure Session where
  /-- The token table. -/
  table : TokenTable
  /-- The address that is used where none is given. -/
  programStart : UInt16
  /-- The reports since they were last taken. -/
  pending : Reports

namespace Session

/-- A new session with the given table. -/
def ofTable (table : TokenTable) : Session := ⟨table, Settings.defaultStart, {}⟩

/-- A new session with the given settings. -/
def ofSettings (settings : Settings) : Session :=
  ⟨settings.machine.table, settings.programStart, {}⟩

/-- The machine of a session. -/
def machine (session : Session) : Machine := session.table.machine

/-- Answers a request and remembers its reports, also if it fails. -/
def perform (session : Session) (request : Request) : Except Failure Answer × Session :=
  let outcome := request.answer session.table session.programStart
  (outcome.result, { session with pending := session.pending ++ outcome.reports })

/-- Sets the program start. -/
def setProgramStart (session : Session) (start : UInt16) : Session :=
  { session with programStart := start }

/-- The reports since they were last taken, and the session without them. -/
def takeReports (session : Session) : List Diagnostic × Session :=
  (session.pending.all, { session with pending := {} })

end Session
end ColorBasic
