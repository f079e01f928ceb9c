import ColorBasic.Text.Literal
import ColorBasic.Text.Numeral

/-!
# What a conversion reports when it succeeds only in part

A diagnostic stands beside the result, which is then the best that could be made.
-/

namespace ColorBasic

/-- The reports about a conversion that went on. -/
inductive Diagnostic where
  /-- A two byte token that the table does not list; it is shown as empty text. -/
  | unknownToken (value : UInt16)
  /-- A character that no byte stands for; a question mark is stored in its place. -/
  | unmappedChar (char : Char)
  /-- A jump to a line that does not exist; it is left as written. -/
  | danglingReference (line target : Text)
  /-- A line of a listing that does not start with a number. -/
  | missingLineNumber (line : Text)
  /-- A line that replaces an earlier one of the same number. -/
  | duplicateLine (number : UInt16)
  /-- A container that does not hold a tokenized program. -/
  | wrongFileType (fileType : UInt8)
  deriving DecidableEq, Repr

/-- The message that explains a diagnostic. -/
def Diagnostic.message : Diagnostic → Text
  | unknownToken value =>
    "token $".toList ++ Text.lowerHex 4 value.toNat ++ " is not in the token table".toList
  | unmappedChar char =>
    "character ".toList ++ Text.charLiteral char ++ " cannot be stored, replaced with '?'".toList
  | danglingReference line target =>
    "in line ".toList ++ Text.literal line ++ ": line no. ".toList ++ Text.literal target ++
      " doesn't exist".toList
  | missingLineNumber line => "line ".toList ++ Text.literal line ++ " has no line number".toList
  | duplicateLine number =>
    "line ".toList ++ Text.decimal number.toNat ++
      " is defined more than once, last one wins".toList
  | wrongFileType fileType =>
    "file type $".toList ++ Text.upperHex 2 fileType.toNat ++
      " is not $01 (tokenized BASIC)".toList

end ColorBasic
