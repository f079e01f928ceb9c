import ColorBasic.Json
import ColorBasic.Machine
import ColorBasic.Text.Literal

/-!
# Settings

Settings are the machine and the addresses that conversions use.

Settings are written as a JSON object.  A member that is missing or has a value of the wrong kind
leaves the default, and a wrong value is worth a warning.  Other members are ignored.
-/

namespace ColorBasic

/-- The machine and the addresses that conversions use. -/
structure Settings where
  /-- The machine whose keywords are used. -/
  machine : Machine
  /-- The address of the first record. -/
  programStart : UInt16
  /-- The load address of containers, if it differs from the program start. -/
  load : Option UInt16
  /-- The exec address of containers, if it differs from the program start. -/
  exec : Option UInt16
  deriving DecidableEq, Repr

/-- What is wrong with a member of written settings. -/
inductive SettingsWarning where
  /-- The JSON value is no object. -/
  | notObject
  /-- The member is no number of sixteen bits. -/
  | notWord (name : Text)
  /-- The member is no string. -/
  | notString (name : Text)
  /-- There is no machine of this name. -/
  | unknownMachine (name : Text) (kept : Machine)
  deriving DecidableEq, Repr

/-- The message of a warning. -/
def SettingsWarning.message : SettingsWarning → Text
  | notObject => "settings should be a JSON object".toList
  | notWord name =>
    "setting ".toList ++ name ++ " ignored, expected a 16 bit unsigned integer".toList
  | notString name => "setting ".toList ++ name ++ " ignored, expected a string".toList
  | unknownMachine name kept =>
    "unknown machine ".toList ++ Text.literal name ++ ", keeping ".toList ++ kept.name

namespace Settings

/-- The address of the first record if nothing else is said. -/
def defaultStart : UInt16 := 0x1E01

/-- The settings if nothing is said. -/
def default : Settings := ⟨.dragon32, defaultStart, none, none⟩

/-- The load address of containers. -/
def effectiveLoad (settings : Settings) : UInt16 := settings.load.getD settings.programStart

/-- The exec address of containers. -/
def effectiveExec (settings : Settings) : UInt16 := settings.exec.getD settings.programStart

/-- The value of a member, or `current` if it is missing or wrong, with a warning if it is wrong. -/
def update {α : Type} (json : Json) (name : Text) (read : Json → Option α)
    (fault : Text → SettingsWarning) (current : α) : α × List SettingsWarning :=
  match json.get? name with
  | none => (current, [])
  | some value =>
    match read value with
    | some updated => (updated, [])
    | none => (current, [fault name])

/-- Updates a word. -/
def updateWord (json : Json) (name : Text) (current : UInt16) : UInt16 × List SettingsWarning :=
  update json name Json.word? .notWord current

/-- Updates a word that need not be set. -/
def updateOptionalWord (json : Json) (name : Text) (current : Option UInt16) :
    Option UInt16 × List SettingsWarning :=
  update json name (fun value => value.word?.map some) .notWord current

/-- Updates a text. -/
def updateText (json : Json) (name : Text) (current : Text) : Text × List SettingsWarning :=
  update json name Json.text? .notString current

/-- Updates the machine by its name. -/
def updateMachine (json : Json) (current : Machine) : Machine × List SettingsWarning :=
  let (name, warnings) := updateText json "machine".toList current.name
  match Machine.ofName? name with
  | some machine => (machine, warnings)
  | none => (current, warnings ++ [.unknownMachine name current])

/-- The settings that a JSON value stands for, with the warnings in the order of the names. -/
def ofJson (json : Json) : Settings × List SettingsWarning :=
  if json.isObject then
    let (exec, execWarnings) := updateOptionalWord json "execAddress".toList default.exec
    let (load, loadWarnings) := updateOptionalWord json "loadAddress".toList default.load
    let (machine, machineWarnings) := updateMachine json default.machine
    let (start, startWarnings) := updateWord json "programStart".toList default.programStart
    (⟨machine, start, load, exec⟩,
      execWarnings ++ loadWarnings ++ machineWarnings ++ startWarnings)
  else (default, [.notObject])

/-- The settings that a text stands for, `none` if it is no JSON text. -/
def parse? (s : Text) : Option (Settings × List SettingsWarning) := (Json.parse? s).map ofJson

end Settings
end ColorBasic
