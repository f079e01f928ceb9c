import ColorBasic.Address
import ColorBasic.CommandLine.Failure
import ColorBasic.CommandLine.Options
import ColorBasic.Container.Metadata
import ColorBasic.HexView
import ColorBasic.Log
import ColorBasic.Session
import ColorBasic.Text.Encoding

/-!
# Commands

Commands are functions from arguments and input to output, log, messages and exit code.

The input is read and checked first, then the settings, and then the conversion is made.  Nothing
is written to the output unless the command succeeds.  The log is written on the way: whatever is
wrong with the input or the settings, and each report when it is made.  Messages come at the end.
-/

namespace ColorBasic.CommandLine

/-- What a command leaves behind. -/
structure Finish where
  /-- The exit code. -/
  exitCode : UInt8
  /-- What is written to the output. -/
  output : Bytes
  /-- The records that are written to the log. -/
  log : List LogRecord
  /-- What is written beside the output, for the person who runs the command. -/
  messages : Text
  deriving DecidableEq, Repr

/-- All that is written beside the output, where a logger shows the records of the log.  It shows
nothing of a record that it leaves out. -/
def Finish.besideOutput (finish : Finish) (logger : LogRecord → Text) : Text :=
  finish.log.flatMap logger ++ finish.messages

/-- The record about a command line without a command. -/
def noCommandRecord : LogRecord :=
  ⟨.error, "No subcommand was found, try `dragonkit --help`".toList⟩

/-- The record about an input that is no text. -/
def notTextRecord (command : Command) : LogRecord :=
  ⟨.error,
    "the input to ".toList ++ command.name ++ " could not be interpreted as a string".toList⟩

/-- The record about an input with nothing in it. -/
def noInputRecord (command : Command) : LogRecord :=
  ⟨.error, command.name ++ " did not receive any data from previous node".toList⟩

/-- The input as text that is not blank. -/
def inputText (command : Command) (input : Bytes) : Logged CommandError Text :=
  match Text.decode? input with
  | none => .fail .notText (notTextRecord command)
  | some text =>
    if text.isBlankText then .fail .invalidCommand (noInputRecord command) else pure text

/-- The input as bytes, of which there must be some. -/
def inputBytes (command : Command) (input : Bytes) : Logged CommandError Bytes :=
  if input.isEmpty then .fail .invalidCommand (noInputRecord command) else pure input

/-- The address that an option stands for. -/
def readAddress (s : Text) : Logged CommandError UInt16 :=
  match Address.parse? s with
  | some address => pure address
  | none => .fail .outOfRange ⟨.error, Address.faultMessage s⟩

/-- The records about written settings. -/
def settingsRecords (warnings : List SettingsWarning) : List LogRecord :=
  warnings.map fun warning => ⟨.warn, warning.message⟩

/-- The settings that the options write out, or the default. -/
def configured (config : Option Text) : Logged CommandError Settings :=
  match config with
  | none => pure Settings.default
  | some json =>
    match Settings.parse? json with
    | some (settings, warnings) => ⟨.ok settings, settingsRecords warnings⟩
    | none => .ofResult (.error .settings)

/-- Settings with the address of the program, which is the load address too. -/
def withAddress (settings : Settings) : Option Text → Logged CommandError Settings
  | none => pure settings
  | some s => do
    let address ← readAddress s
    return { settings with programStart := address, load := some address }

/-- Settings with the exec address. -/
def withExec (settings : Settings) : Option Text → Logged CommandError Settings
  | none => pure settings
  | some s => do
    let address ← readAddress s
    return { settings with exec := some address }

/-- The settings of the options: what is written out, overridden by the other options. -/
def Options.settings (options : Options) : Logged CommandError Settings := do
  let written ← configured options.config
  let chosen := { written with machine := options.machine.getD written.machine }
  let addressed ← withAddress chosen options.address
  withExec addressed options.exec

/-- The records about the lines and the code of a program.  The code is gone through first, and
lines that replace earlier ones are found at the end. -/
def programRecords (reports : Reports) : List LogRecord :=
  (reports.code ++ reports.program).map fun report => ⟨.warn, report.message⟩

/-- The records about bytes that a container is followed by. -/
def surplusRecords (bytes : Bytes) : List LogRecord :=
  match Container.load bytes with
  | .ok container =>
    (container.surplusMessage? bytes).toList.map fun message => ⟨.warn, message⟩
  | .error _ => []

/-- The records about a container and the program in it.  The container is gone through first. -/
def containerRecords (bytes : Bytes) (reports : Reports) : List LogRecord :=
  surplusRecords bytes ++
    (reports.program ++ reports.code).map fun report => ⟨.warn, report.message⟩

/-- The records about new line numbers.  All lines are numbered before the first one is
rewritten. -/
def renumberingRecords (listing : Text) : List LogRecord :=
  (Renumbering.redefinitions (Renumbering.listingLines listing)).map
      (fun redefinition => ⟨.warn, redefinition.message⟩) ++
    (Renumbering.reports listing).map fun report => ⟨.error, report.message⟩

/-- The messages about reports: one line each and the number of them. -/
def reportMessages (reports : List Diagnostic) : Text :=
  if reports.isEmpty then []
  else
    Text.terminateLines (reports.map fun report => "warning: ".toList ++ report.message) ++
      "! ".toList ++ Text.decimal reports.length ++ " warnings\n".toList

/-- What a command writes that succeeds. -/
structure Written where
  /-- What is written to the output. -/
  output : Bytes
  /-- What is written beside it. -/
  messages : Text := []

/-- The last step of a command that makes a conversion: its value is written by `write`. -/
def conclude {α : Type} (outcome : Outcome α) (records : Reports → List LogRecord)
    (write : α → Bytes) : Logged CommandError Written where
  result :=
    match outcome.result with
    | .ok value => .ok ⟨write value, reportMessages outcome.reports.all⟩
    | .error failure => .error (.conversion failure)
  log := records outcome.reports

/-- What is left behind after the steps of a command. -/
def finished (steps : Logged CommandError Written) : Finish :=
  match steps.result with
  | .ok written => ⟨0, written.output, steps.log, written.messages⟩
  | .error error => ⟨1, [], steps.log, "Error: ".toList ++ error.shown ++ ['\n']⟩

/-- What a command line leaves behind that cannot be understood. -/
def misused : Finish := ⟨2, [], [], "usage".toList⟩

/-- Rows of text as output. -/
def writeRows (rows : List Text) : Bytes := (Text.terminateLines rows).encode

/-- A text as output, with a line feed after it. -/
def writeText (s : Text) : Bytes := writeRows [s]

/-- Bytes as output, or their hex view. -/
def writeBytes (options : Options) (address : UInt16) (bytes : Bytes) : Bytes :=
  if options.console then writeRows (HexView.rows address.toNat bytes) else bytes

/-- The message that every jump has its line. -/
def resolvedMessage : Text := "✓ all references resolved\n".toList

/-- The steps of a command. -/
def Command.steps (command : Command) (options : Options) (input : Bytes) :
    Logged CommandError Written :=
  match command with
  | .tokenize => do
    let listing ← inputText command input
    let settings ← options.settings
    let outcome :=
      Conversion.listingToDump settings.machine.table listing settings.programStart
    conclude outcome programRecords (writeBytes options settings.programStart)
  | .detokenize => do
    let dump ← inputBytes command input
    let settings ← options.settings
    let outcome := Conversion.dumpToListing settings.machine.table dump settings.programStart
    conclude outcome programRecords writeRows
  | .inspect => do
    let dump ← inputBytes command input
    let settings ← options.settings
    let outcome := Conversion.dumpToAnnotation settings.machine.table dump settings.programStart
    conclude outcome programRecords writeRows
  | .renumber => do
    let listing ← inputText command input
    let reports := Renumbering.reports listing
    .write (renumberingRecords listing)
    return ⟨writeText (Renumbering.renumber listing),
      if reports.isEmpty then resolvedMessage else reportMessages reports⟩
  | .destinations => do
    let listing ← inputText command input
    return { output := writeRows ((Renumbering.destinations listing).map Text.decimal) }
  | .reformat => do
    let listing ← inputText command input
    let settings ← options.settings
    conclude (Conversion.reformat settings.machine.table listing) programRecords writeText
  | .pack => do
    let listing ← inputText command input
    let settings ← options.settings
    let outcome := Conversion.listingToContainer settings.machine.table listing
      settings.effectiveLoad settings.effectiveExec
    conclude outcome programRecords (writeBytes options 0)
  | .unpack => do
    let bytes ← inputBytes command input
    let settings ← options.settings
    let outcome := Conversion.containerToListing settings.machine.table bytes
    conclude outcome (containerRecords bytes) writeText
  | .describe => do
    let bytes ← inputBytes command input
    .write (surplusRecords bytes)
    let container ← .ofResult ((Container.load bytes).mapError (.conversion ∘ .container))
    return { output := writeText (container.toJson options.indent) }

/-- Runs a command on the given input. -/
def Command.run (command : Command) (options : Options) (input : Bytes) : Finish :=
  finished (command.steps options input)

/-- The name and the version of the program. -/
def versionText : Text := "dragonkit 0.1.0".toList

/-- Runs the program with the given arguments and input. -/
def run (arguments : List Text) (input : Bytes) : Finish :=
  match Invocation.read arguments with
  | none => misused
  | some .nothing => finished (.fail .invalidCommand noCommandRecord)
  | some .version => finished (pure { output := writeText versionText })
  | some (.run command options) => command.run options input

end ColorBasic.CommandLine
