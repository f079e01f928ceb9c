import ColorBasic.Container

/-!
# The header and the payload of a file as JSON text

Numbers of the header are written in hexadecimal digits, except the length.  The text is minified,
or has one member on each line with a given number of spaces for each level.
-/

namespace ColorBasic.Container

/-- A line break and the indentation of a level, or nothing in minified text. -/
def lineBreak (indent : Option Nat) (level : Nat) : Text :=
  match indent with
  | some spaces => '\n' :: List.replicate (spaces * level) ' '
  | none => []

/-- A text in quotes; it must hold nothing that needs an escape. -/
def jsonText (s : Text) : Text := '"' :: s ++ ['"']

/-- One member of an object. -/
def jsonMember (indent : Option Nat) (name value : Text) : Text :=
  jsonText name ++ (if indent.isSome then [':', ' '] else [':']) ++ value

/-- An object at the given level, with the texts of its members' values. -/
def jsonObject (indent : Option Nat) (level : Nat) (members : List (Text × Text)) : Text :=
  let inner := lineBreak indent (level + 1)
  '{' :: inner ++
    (',' :: inner).intercalate (members.map fun member => jsonMember indent member.1 member.2) ++
    lineBreak indent level ++ ['}']

/-- The name of the kind of payload. -/
def typeName (container : Container) : Text :=
  match container.fileType? with
  | some .basic => "BASIC".toList
  | some .machineCode => "machine code".toList
  | none => "unknown".toList

/-- The header and the payload as JSON text. -/
def toJson (indent : Option Nat) (container : Container) : Text :=
  let header := container.header
  let fields :=
    [("file_type".toList, jsonText (Text.upperHex 2 header.fileType.toNat)),
     ("file_type_name".toList, jsonText container.typeName),
     ("load_address".toList, jsonText (Text.upperHex 4 header.load.toNat)),
     ("length".toList, Text.decimal header.length.toNat),
     ("exec_address".toList, jsonText (Text.upperHex 4 header.exec.toNat))]
  jsonObject indent 0
    [("dragondos".toList, jsonObject indent 1 fields),
     ("data".toList, jsonText (Text.hexDump container.data))]

end ColorBasic.Container
