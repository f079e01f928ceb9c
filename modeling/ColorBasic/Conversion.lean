import ColorBasic.Dump.Annotation
import ColorBasic.Outcome
import ColorBasic.Respacing
import ColorBasic.Renumbering

/-!
# Conversions between the forms of a program

The forms are the listing, the arranged lines, the memory dump and the container.  Every conversion
is a function of a token table and its inputs alone.
-/

namespace ColorBasic.Conversion

/-- A result in which the program may be at fault. -/
def programResult {α : Type} (result : Except Error α) : Except Failure α :=
  result.mapError .program

/-- The reports on a result: `always` are made in any case, `onSuccess` only with a value. -/
def reportsOn {ε α : Type} (result : Except ε α) (always : Reports) (onSuccess : α → Reports) :
    Reports :=
  match result with
  | .ok value => always ++ onSuccess value
  | .error _ => always

/-- The arranged lines of a listing. -/
def listingToLines (table : TokenTable) (listing : Text) : Outcome (List Line) :=
  let parsed := Program.parseLines table listing
  { result := programResult (parsed.map Program.arrange)
    reports := reportsOn parsed { code := Program.parseReports table listing } fun lines =>
      { program := Program.duplicateReports lines } }

/-- The dump of a listing at the given address. -/
def listingToDump (table : TokenTable) (listing : Text) (start : UInt16) : Outcome Bytes :=
  (listingToLines table listing).andThen fun lines => programResult (Dump.writeLines lines start)

/-- The listing of a dump at the given address. -/
def dumpToListing (table : TokenTable) (dump : Bytes) (start : UInt16) : Outcome (List Text) :=
  let lines := Dump.readLines dump start
  { result := programResult (lines.map (Program.list table))
    reports := reportsOn lines {} fun lines => { code := Program.listReports table lines } }

/-- The annotated form of a dump at the given address. -/
def dumpToAnnotation (table : TokenTable) (dump : Bytes) (start : UInt16) :
    Outcome (List Text) :=
  { result := programResult (Dump.annotate table dump start)
    reports := { code := Dump.annotateReports table dump start } }

/-- The breakdown of stored code. -/
def codeToBreakdown (table : TokenTable) (code : Bytes) : Outcome (List Text) :=
  { result := .ok (table.breakdown code)
    reports := { code := table.detokenizeReports code } }

/-- Text with its keywords tokenized, wherever they stand. -/
def textToCode (table : TokenTable) (text : Text) : Outcome Bytes :=
  { result := .ok (table.tokenize text)
    reports := { code := table.tokenizeReports text } }

/-- The text of stored code. -/
def codeToText (table : TokenTable) (code : Bytes) : Outcome Text :=
  { result := .ok (table.detokenize code)
    reports := { code := table.detokenizeReports code } }

/-- A listing with new line numbers. -/
def renumber (listing : Text) : Outcome Text :=
  { result := .ok (Renumbering.renumber listing)
    reports := { references := Renumbering.reports listing } }

/-- The jump targets of a listing. -/
def destinations (listing : Text) : Outcome (List Nat) :=
  { result := .ok (Renumbering.destinations listing) }

/-- A listing with normal spacing. -/
def reformat (table : TokenTable) (listing : Text) : Outcome Text :=
  let parsed := Program.parseRespaced table listing
  { result :=
      programResult
        (parsed.map fun lines => Text.joinLines (Program.list table (Program.arrange lines)))
    reports := reportsOn parsed { code := Program.parseReports table listing } fun lines =>
      { program := Program.duplicateReports lines
        code := Program.listReports table (Program.arrange lines) } }

/-- The container of a listing, which is tokenized for the load address. -/
def listingToContainer (table : TokenTable) (listing : Text) (load exec : UInt16) :
    Outcome Bytes :=
  (listingToDump table listing load).andThen fun dump =>
    ((Container.pack .basic load exec dump).map Container.toBytes).mapError .container

/-- The reports on the kind of payload of a container. -/
def fileTypeReports (container : Container) : List Diagnostic :=
  if container.fileType? = some .basic then [] else [.wrongFileType container.header.fileType]

/-- The listing of the program in a container, which is taken to be loaded at the load address. -/
def containerToListing (table : TokenTable) (bytes : Bytes) : Outcome Text :=
  match Container.load bytes with
  | .error error => { result := .error (.container error) }
  | .ok container =>
    let listing := dumpToListing table container.data container.header.load
    { result := listing.result.map Text.joinLines
      reports := { program := fileTypeReports container } ++ listing.reports }

end ColorBasic.Conversion
