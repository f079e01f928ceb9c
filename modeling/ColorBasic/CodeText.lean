import ColorBasic.Diagnostic
import ColorBasic.Text.Quoted
import ColorBasic.TokenTable

/-!
# The text of stored code

Stored code is shown as a listing shows it and as a breakdown token by token.

A two byte token that the table does not list is shown as empty text and reported.
-/

namespace ColorBasic.TokenTable

/-- The text that is shown for a token. -/
def shown (table : TokenTable) (token : Token) : Text := (table.textOfToken? token).getD []

/-- The report about showing a token. -/
def shownReports (table : TokenTable) (token : Token) : List Diagnostic :=
  if (table.textOfToken? token).isSome then [] else [.unknownToken token.value]

/-- The text of stored code. -/
def detokenize (table : TokenTable) (code : Bytes) : Text :=
  (Token.decode code).flatMap table.shown

/-- The reports about showing stored code, as listing or as breakdown. -/
def detokenizeReports (table : TokenTable) (code : Bytes) : List Diagnostic :=
  (Token.decode code).flatMap table.shownReports

/-- The value of a token in the breakdown; the values of bytes and words end in one column. -/
def valueColumn : Token → Text
  | .byte b => "\t  $".toList ++ Text.lowerHex 2 b.toNat
  | .word w => "\t$".toList ++ Text.lowerHex 4 w.toNat

/-- One row of the breakdown. -/
def breakdownRow (table : TokenTable) (token : Token) : Text :=
  valueColumn token ++ " -> ".toList ++ Text.quoted (table.shown token)

/-- The breakdown of stored code, one row for each token. -/
def breakdown (table : TokenTable) (code : Bytes) : List Text :=
  (Token.decode code).map table.breakdownRow

end ColorBasic.TokenTable
