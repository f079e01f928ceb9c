import ColorBasic.Text.Literal
import ColorBasic.Text.Numeral

/-!
# What makes the conversion of a program fail

An error ends the conversion that met it.  What a conversion gets over is a diagnostic instead.
-/

namespace ColorBasic

/-- The reasons for which a conversion of a program fails. -/
inductive Error where
  /-- No space stands between the line number and the code of the line. -/
  | missingSeparator (line : Text)
  /-- The text before the code is not a line number. -/
  | lineNumber (number : Text)
  /-- The stored code of a line does not end with a zero byte. -/
  | missingTerminator (tokens : Bytes)
  /-- The address of the following record is not beyond the record itself. -/
  | addressOrder (next start : UInt16)
  /-- The dump ends inside a record. -/
  | truncated (offset : Nat)
  /-- The program reaches beyond the last address. -/
  | programTooLarge
  /-- A keyword text is empty or listed twice. -/
  | duplicateText (text : Text)
  /-- A token value is listed twice. -/
  | duplicateValue (value : UInt16)
  /-- There is no machine of this name. -/
  | unknownMachine (name : Text)
  deriving DecidableEq, Repr

/-- The text that names a doubly used table entry. -/
def Error.duplicateValueText (value : UInt16) : Text := '$' :: Text.lowerHex 4 value.toNat

/-- The message that explains an error. -/
def Error.message : Error → Text
  | missingSeparator line =>
    "no space between line number and code in line: ".toList ++ Text.literal line
  | lineNumber number => "invalid line number: ".toList ++ Text.literal number
  | missingTerminator tokens => "line code does not end with $00: ".toList ++ Text.hexList tokens
  | addressOrder next start =>
    "next address $".toList ++ Text.upperHex 4 next.toNat ++
      " is not beyond program start $".toList ++ Text.upperHex 4 start.toNat
  | truncated offset => "program dump is truncated at offset ".toList ++ Text.decimal offset
  | programTooLarge => "program does not fit in the address space".toList
  | duplicateText text =>
    "token table maps the text ".toList ++ Text.literal text ++ " more than once".toList
  | duplicateValue value =>
    "token table maps the text ".toList ++ Text.literal (duplicateValueText value) ++
      " more than once".toList
  | unknownMachine name => "unknown machine ".toList ++ Text.literal name

end ColorBasic
