import ColorBasic.Outcome
import ColorBasic.Text.Literal

/-!
# How the command line shows what made a command fail

A failure is shown by the name of its cause, followed by what the cause tells.
-/

namespace ColorBasic.CommandLine

/-- A name followed by one value in parentheses. -/
def shownValue (name : String) (value : Text) : Text := name.toList ++ '(' :: value ++ [')']

/-- A name followed by named values in braces. -/
def shownFields (name : String) (fields : List (String × Text)) : Text :=
  name.toList ++ [' ', '{', ' '] ++
    [',', ' '].intercalate (fields.map fun field => field.1.toList ++ ':' :: ' ' :: field.2) ++
    [' ', '}']

/-- How an error of a program is shown. -/
def shownError : Error → Text
  | .missingSeparator line => shownValue "MissingSeparator" line.literal
  | .lineNumber number => shownValue "LineNumber" number.literal
  | .missingTerminator tokens => shownValue "MissingTerminator" (Text.hexList tokens).literal
  | .addressOrder next start =>
    shownFields "AddressOrder"
      [("next", Text.decimal next.toNat), ("start", Text.decimal start.toNat)]
  | .truncated offset => shownFields "Truncated" [("offset", Text.decimal offset)]
  | .programTooLarge => "ProgramTooLarge".toList
  | .duplicateText text => shownValue "DuplicateToken" text.literal
  | .duplicateValue value => shownValue "DuplicateToken" (Error.duplicateValueText value).literal
  | .unknownMachine name => shownValue "UnknownMachine" name.literal

/-- How an error of a container is shown. -/
def shownContainerError : ContainerError → Text
  | .empty => "Empty".toList
  | .badMarker offset expected found =>
    shownFields "BadMarker"
      [("offset", Text.decimal offset), ("expected", Text.decimal expected.toNat),
       ("found", Text.decimal found.toNat)]
  | .unsupportedFormat format => shownValue "UnsupportedFormat" format.literal
  | .unknownFormat first => shownValue "UnknownFormat" (Text.decimal first.toNat)
  | .lengthMismatch declared actual =>
    shownFields "LengthMismatch"
      [("declared", Text.decimal declared), ("actual", Text.decimal actual)]
  | .tooLarge size => shownValue "TooLarge" (Text.decimal size)

/-- The reasons for which a command fails. -/
inductive CommandError where
  /-- There is no command, or nothing for it to work on. -/
  | invalidCommand
  /-- An address is not a number of sixteen bits. -/
  | outOfRange
  /-- The settings are no JSON text. -/
  | settings
  /-- The input is not encoded text. -/
  | notText
  /-- The conversion failed. -/
  | conversion (failure : Failure)
  deriving DecidableEq, Repr

/-- How a failed command is shown. -/
def CommandError.shown : CommandError → Text
  | invalidCommand => "InvalidCommand".toList
  | outOfRange => "OutOfRange".toList
  | settings => "Json".toList
  | notText =>
    shownFields "Error"
      [("kind", "InvalidData".toList),
       ("message", Text.literal "stream did not contain valid UTF-8".toList)]
  | conversion (.program error) => shownError error
  | conversion (.container error) => shownContainerError error

end ColorBasic.CommandLine
