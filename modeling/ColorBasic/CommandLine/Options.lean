import ColorBasic.Machine
import ColorBasic.Text.Numeral

/-!
# The grammar of the command line

A command line names a command and then options.  An option is written with one letter or with its
name; its value follows directly, after an equals sign, or as the next argument, which must not
start with a dash unless it is a dash.  No option may be repeated, and nothing may follow the
argument of two dashes.
-/

namespace ColorBasic.CommandLine

/-- The commands. -/
inductive Command where
  /-- Listing to dump. -/
  | tokenize
  /-- Dump to listing. -/
  | detokenize
  /-- Dump to annotated dump. -/
  | inspect
  /-- Listing to listing with new line numbers. -/
  | renumber
  /-- Listing to jump targets. -/
  | destinations
  /-- Listing to listing with normal spacing. -/
  | reformat
  /-- Listing to container. -/
  | pack
  /-- Container to listing. -/
  | unpack
  /-- Container to its description. -/
  | describe
  deriving DecidableEq, Repr

/-- The options. -/
inductive OptionName where
  /-- The machine. -/
  | machine
  /-- The address of the program. -/
  | address
  /-- The exec address. -/
  | exec
  /-- Settings as JSON text. -/
  | config
  /-- Whether bytes are written as a hex view. -/
  | console
  /-- The indentation of JSON text. -/
  | indent
  deriving DecidableEq, Repr

namespace Command

/-- The name of a command. -/
def name : Command → Text
  | tokenize => "tokenize".toList
  | detokenize => "detokenize".toList
  | inspect => "inspect".toList
  | renumber => "renumber".toList
  | destinations => "destinations".toList
  | reformat => "reformat".toList
  | pack => "pack".toList
  | unpack => "unpack".toList
  | describe => "meta".toList

/-- The command of a given name. -/
def ofName? (name : Text) : Option Command :=
  match String.ofList name with
  | "tokenize" => some tokenize
  | "tok" => some tokenize
  | "detokenize" => some detokenize
  | "dtok" => some detokenize
  | "inspect" => some inspect
  | "renumber" => some renumber
  | "destinations" => some destinations
  | "reformat" => some reformat
  | "pack" => some pack
  | "unpack" => some unpack
  | "meta" => some describe
  | _ => none

/-- The options that a command takes. -/
def options : Command → List OptionName
  | tokenize => [.machine, .address, .config, .console]
  | detokenize => [.machine, .address, .config]
  | inspect => [.machine, .address, .config]
  | renumber => []
  | destinations => []
  | reformat => [.machine, .config]
  | pack => [.machine, .address, .exec, .config, .console]
  | unpack => [.machine, .config]
  | describe => [.indent]

end Command

namespace OptionName

/-- The option of a given letter. -/
def ofLetter? : Char → Option OptionName
  | 'm' => some machine
  | 'a' => some address
  | 'x' => some exec
  | 'c' => some config
  | _ => none

/-- The option of a given name. -/
def ofName? (name : Text) : Option OptionName :=
  match String.ofList name with
  | "machine" => some machine
  | "addr" => some address
  | "exec" => some exec
  | "config" => some config
  | "console" => some console
  | "indent" => some indent
  | _ => none

end OptionName

/-- The values of the options of a command line. -/
structure Options where
  /-- The machine. -/
  machine : Option Machine := none
  /-- The address of the program as it is written. -/
  address : Option Text := none
  /-- The exec address as it is written. -/
  exec : Option Text := none
  /-- The settings as JSON text. -/
  config : Option Text := none
  /-- Whether bytes are written as a hex view. -/
  console : Bool := false
  /-- The indentation of JSON text. -/
  indent : Option Nat := none
  deriving DecidableEq, Repr

namespace Options

/-- The indentation that a text stands for: at most fifteen spaces, with an optional sign. -/
def readIndent? : Text → Option Nat
  | '+' :: digits => (Text.readNumeral? 10 digits).filter (· < 16)
  | '-' :: digits => (Text.readNumeral? 10 digits).filter (· = 0)
  | digits => (Text.readNumeral? 10 digits).filter (· < 16)

/-- Sets an option that has a value, unless it is set or the value is unfit. -/
def set (options : Options) (name : OptionName) (value : Text) : Option Options :=
  match name with
  | .machine =>
    match options.machine, Machine.ofName? value with
    | none, some machine => some { options with machine := some machine }
    | _, _ => none
  | .address =>
    if options.address.isSome then none else some { options with address := some value }
  | .exec => if options.exec.isSome then none else some { options with exec := some value }
  | .config => if options.config.isSome then none else some { options with config := some value }
  | .console => none
  | .indent =>
    match options.indent, readIndent? value with
    | none, some spaces => some { options with indent := some spaces }
    | _, _ => none

/-- Sets the option without value. -/
def setConsole (options : Options) : Option Options :=
  if options.console then none else some { options with console := true }

/-- The option that an argument names and the value that it holds, if it holds one. -/
def readArgument? : Text → Option (OptionName × Option Text)
  | '-' :: '-' :: rest =>
    let value? :=
      match rest.dropWhile (· ≠ '=') with
      | _ :: value => some value
      | [] => none
    (OptionName.ofName? (rest.takeWhile (· ≠ '='))).map (·, value?)
  | '-' :: letter :: rest =>
    let value? :=
      match rest with
      | [] => none
      | '=' :: value => some value
      | value => some value
    (OptionName.ofLetter? letter).map (·, value?)
  | _ => none

/-- Whether an argument can be the value of the option before it. -/
def isValue (argument : Text) : Bool := argument.head? ≠ some '-' ∨ argument = ['-']

/-- The options after those that are read, `none` if an argument is wrong. -/
def read (command : Command) (options : Options) : List Text → Option Options
  | [] => some options
  | argument :: rest =>
    if argument = ['-', '-'] then if rest.isEmpty then some options else none
    else
      match readArgument? argument with
      | none => none
      | some (name, value?) =>
        if command.options.contains name then
          match name, value?, rest with
          | .console, none, rest =>
            match options.setConsole with
            | some options => read command options rest
            | none => none
          | .console, some _, _ => none
          | name, some value, rest =>
            match options.set name value with
            | some options => read command options rest
            | none => none
          | _, none, [] => none
          | name, none, value :: rest =>
            if isValue value then
              match options.set name value with
              | some options => read command options rest
              | none => none
            else none
        else none

end Options

/-- What a command line asks for. -/
inductive Invocation where
  /-- Nothing. -/
  | nothing
  /-- The version. -/
  | version
  /-- A command. -/
  | run (command : Command) (options : Options)
  deriving DecidableEq, Repr

/-- What the arguments ask for, `none` if they are wrong. -/
def Invocation.read : List Text → Option Invocation
  | [] => some .nothing
  | argument :: rest =>
    if argument = ['-', '-'] then if rest.isEmpty then some .nothing else none
    else if argument = "--version".toList ∨ ['-', 'V'].isPrefixOf argument then some .version
    else
      match Command.ofName? argument with
      | some command => (Options.read command {} rest).map (.run command)
      | none => none

end ColorBasic.CommandLine
