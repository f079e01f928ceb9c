import ColorBasic.Machine
import ColorBasic.Token

/-!
# The keywords of each machine

Every machine numbers its statements and operators from `$80` on and its functions from `$FF80`
on.  Extended Color BASIC continues both numberings of Color BASIC.  The texts are spelled out as
characters, so that closed facts about them evaluate without decoding strings.
-/

namespace ColorBasic

/-- A keyword or operator: its text and the value of the token that stands for it. -/
structure Keyword where
  /-- The value of the keyword's token. -/
  value : UInt16
  /-- The text of the keyword as it is typed and listed. -/
  text : Text
  deriving DecidableEq, Repr

namespace Keyword

/-- The token that stands for a keyword. -/
def token (keyword : Keyword) : Token := Token.ofValue keyword.value

/-- Keywords with consecutive values. -/
def numberFrom (first : Nat) : List Text → List Keyword
  | [] => []
  | text :: texts => ⟨UInt16.ofNat first, text⟩ :: numberFrom (first + 1) texts

end Keyword

namespace Machine

/-- The statements and operators of the Dragon 32. -/
def dragonStatements : List Text :=
  [['F', 'O', 'R'], ['G', 'O'], ['R', 'E', 'M'], ['\''], ['E', 'L', 'S', 'E'], ['I', 'F'],
   ['D', 'A', 'T', 'A'], ['P', 'R', 'I', 'N', 'T'], ['O', 'N'], ['I', 'N', 'P', 'U', 'T'],
   ['E', 'N', 'D'], ['N', 'E', 'X', 'T'], ['D', 'I', 'M'], ['R', 'E', 'A', 'D'], ['L', 'E', 'T'],
   ['R', 'U', 'N'], ['R', 'E', 'S', 'T', 'O', 'R', 'E'], ['R', 'E', 'T', 'U', 'R', 'N'],
   ['S', 'T', 'O', 'P'], ['P', 'O', 'K', 'E'], ['C', 'O', 'N', 'T'], ['L', 'I', 'S', 'T'],
   ['C', 'L', 'E', 'A', 'R'], ['N', 'E', 'W'], ['D', 'E', 'F'], ['C', 'L', 'O', 'A', 'D'],
   ['C', 'S', 'A', 'V', 'E'], ['O', 'P', 'E', 'N'], ['C', 'L', 'O', 'S', 'E'],
   ['L', 'L', 'I', 'S', 'T'], ['S', 'E', 'T'], ['R', 'E', 'S', 'E', 'T'], ['C', 'L', 'S'],
   ['M', 'O', 'T', 'O', 'R'], ['S', 'O', 'U', 'N', 'D'], ['A', 'U', 'D', 'I', 'O'],
   ['E', 'X', 'E', 'C'], ['S', 'K', 'I', 'P', 'F'], ['D', 'E', 'L'], ['E', 'D', 'I', 'T'],
   ['T', 'R', 'O', 'N'], ['T', 'R', 'O', 'F', 'F'], ['L', 'I', 'N', 'E'], ['P', 'C', 'L', 'S'],
   ['P', 'S', 'E', 'T'], ['P', 'R', 'E', 'S', 'E', 'T'], ['S', 'C', 'R', 'E', 'E', 'N'],
   ['P', 'C', 'L', 'E', 'A', 'R'], ['C', 'O', 'L', 'O', 'R'], ['C', 'I', 'R', 'C', 'L', 'E'],
   ['P', 'A', 'I', 'N', 'T'], ['G', 'E', 'T'], ['P', 'U', 'T'], ['D', 'R', 'A', 'W'],
   ['P', 'C', 'O', 'P', 'Y'], ['P', 'M', 'O', 'D', 'E'], ['P', 'L', 'A', 'Y'],
   ['D', 'L', 'O', 'A', 'D'], ['R', 'E', 'N', 'U', 'M'], ['T', 'A', 'B', '('], ['T', 'O'],
   ['S', 'U', 'B'], ['F', 'N'], ['T', 'H', 'E', 'N'], ['N', 'O', 'T'], ['S', 'T', 'E', 'P'],
   ['O', 'F', 'F'], ['+'], ['-'], ['*'], ['/'], ['^'], ['A', 'N', 'D'], ['O', 'R'], ['>'], ['='],
   ['<'], ['U', 'S', 'I', 'N', 'G']]

/-- The functions of the Dragon 32. -/
def dragonFunctions : List Text :=
  [['S', 'G', 'N'], ['I', 'N', 'T'], ['A', 'B', 'S'], ['P', 'O', 'S'], ['R', 'N', 'D'],
   ['S', 'Q', 'R'], ['L', 'O', 'G'], ['E', 'X', 'P'], ['S', 'I', 'N'], ['C', 'O', 'S'],
   ['T', 'A', 'N'], ['A', 'T', 'N'], ['P', 'E', 'E', 'K'], ['L', 'E', 'N'], ['S', 'T', 'R', '$'],
   ['V', 'A', 'L'], ['A', 'S', 'C'], ['C', 'H', 'R', '$'], ['E', 'O', 'F'],
   ['J', 'O', 'Y', 'S', 'T', 'K'], ['F', 'I', 'X'], ['H', 'E', 'X', '$'],
   ['L', 'E', 'F', 'T', '$'], ['R', 'I', 'G', 'H', 'T', '$'], ['M', 'I', 'D', '$'],
   ['P', 'O', 'I', 'N', 'T'], ['I', 'N', 'K', 'E', 'Y', '$'], ['M', 'E', 'M'],
   ['V', 'A', 'R', 'P', 'T', 'R'], ['I', 'N', 'S', 'T', 'R'], ['T', 'I', 'M', 'E', 'R'],
   ['P', 'P', 'O', 'I', 'N', 'T'], ['S', 'T', 'R', 'I', 'N', 'G', '$'], ['U', 'S', 'R']]

/-- The statements and operators of Color BASIC. -/
def colorStatements : List Text :=
  [['F', 'O', 'R'], ['G', 'O'], ['R', 'E', 'M'], ['\''], ['E', 'L', 'S', 'E'], ['I', 'F'],
   ['D', 'A', 'T', 'A'], ['P', 'R', 'I', 'N', 'T'], ['O', 'N'], ['I', 'N', 'P', 'U', 'T'],
   ['E', 'N', 'D'], ['N', 'E', 'X', 'T'], ['D', 'I', 'M'], ['R', 'E', 'A', 'D'], ['R', 'U', 'N'],
   ['R', 'E', 'S', 'T', 'O', 'R', 'E'], ['R', 'E', 'T', 'U', 'R', 'N'], ['S', 'T', 'O', 'P'],
   ['P', 'O', 'K', 'E'], ['C', 'O', 'N', 'T'], ['L', 'I', 'S', 'T'], ['C', 'L', 'E', 'A', 'R'],
   ['N', 'E', 'W'], ['C', 'L', 'O', 'A', 'D'], ['C', 'S', 'A', 'V', 'E'], ['O', 'P', 'E', 'N'],
   ['C', 'L', 'O', 'S', 'E'], ['L', 'L', 'I', 'S', 'T'], ['S', 'E', 'T'],
   ['R', 'E', 'S', 'E', 'T'], ['C', 'L', 'S'], ['M', 'O', 'T', 'O', 'R'],
   ['S', 'O', 'U', 'N', 'D'], ['A', 'U', 'D', 'I', 'O'], ['E', 'X', 'E', 'C'],
   ['S', 'K', 'I', 'P', 'F'], ['T', 'A', 'B', '('], ['T', 'O'], ['S', 'U', 'B'],
   ['T', 'H', 'E', 'N'], ['N', 'O', 'T'], ['S', 'T', 'E', 'P'], ['O', 'F', 'F'], ['+'], ['-'],
   ['*'], ['/'], ['^'], ['A', 'N', 'D'], ['O', 'R'], ['>'], ['='], ['<']]

/-- The functions of Color BASIC. -/
def colorFunctions : List Text :=
  [['S', 'G', 'N'], ['I', 'N', 'T'], ['A', 'B', 'S'], ['U', 'S', 'R'], ['R', 'N', 'D'],
   ['S', 'I', 'N'], ['P', 'E', 'E', 'K'], ['L', 'E', 'N'], ['S', 'T', 'R', '$'], ['V', 'A', 'L'],
   ['A', 'S', 'C'], ['C', 'H', 'R', '$'], ['E', 'O', 'F'], ['J', 'O', 'Y', 'S', 'T', 'K'],
   ['L', 'E', 'F', 'T', '$'], ['R', 'I', 'G', 'H', 'T', '$'], ['M', 'I', 'D', '$'],
   ['P', 'O', 'I', 'N', 'T'], ['I', 'N', 'K', 'E', 'Y', '$'], ['M', 'E', 'M']]

/-- The statements that Extended Color BASIC adds to Color BASIC. -/
def extensionStatements : List Text :=
  [['D', 'E', 'L'], ['E', 'D', 'I', 'T'], ['T', 'R', 'O', 'N'], ['T', 'R', 'O', 'F', 'F'],
   ['D', 'E', 'F'], ['L', 'E', 'T'], ['L', 'I', 'N', 'E'], ['P', 'C', 'L', 'S'],
   ['P', 'S', 'E', 'T'], ['P', 'R', 'E', 'S', 'E', 'T'], ['S', 'C', 'R', 'E', 'E', 'N'],
   ['P', 'C', 'L', 'E', 'A', 'R'], ['C', 'O', 'L', 'O', 'R'], ['C', 'I', 'R', 'C', 'L', 'E'],
   ['P', 'A', 'I', 'N', 'T'], ['G', 'E', 'T'], ['P', 'U', 'T'], ['D', 'R', 'A', 'W'],
   ['P', 'C', 'O', 'P', 'Y'], ['P', 'M', 'O', 'D', 'E'], ['P', 'L', 'A', 'Y'],
   ['D', 'L', 'O', 'A', 'D'], ['R', 'E', 'N', 'U', 'M'], ['F', 'N'], ['U', 'S', 'I', 'N', 'G']]

/-- The functions that Extended Color BASIC adds to Color BASIC. -/
def extensionFunctions : List Text :=
  [['A', 'T', 'N'], ['C', 'O', 'S'], ['T', 'A', 'N'], ['E', 'X', 'P'], ['F', 'I', 'X'],
   ['L', 'O', 'G'], ['P', 'O', 'S'], ['S', 'Q', 'R'], ['H', 'E', 'X', '$'],
   ['V', 'A', 'R', 'P', 'T', 'R'], ['I', 'N', 'S', 'T', 'R'], ['T', 'I', 'M', 'E', 'R'],
   ['P', 'P', 'O', 'I', 'N', 'T'], ['S', 'T', 'R', 'I', 'N', 'G', '$']]

/-- The keywords of the Dragon 32. -/
def dragonKeywords : List Keyword :=
  Keyword.numberFrom 0x80 dragonStatements ++ Keyword.numberFrom 0xFF80 dragonFunctions

/-- The keywords of Color BASIC. -/
def colorKeywords : List Keyword :=
  Keyword.numberFrom 0x80 colorStatements ++ Keyword.numberFrom 0xFF80 colorFunctions

/-- The keywords that Extended Color BASIC adds to Color BASIC. -/
def extensionKeywords : List Keyword :=
  Keyword.numberFrom 0xB5 extensionStatements ++ Keyword.numberFrom 0xFF94 extensionFunctions

/-- The keywords of a machine in the order of its table. -/
def keywords : Machine → List Keyword
  | dragon32 => dragonKeywords
  | coco => colorKeywords
  | cocoExtended => colorKeywords ++ extensionKeywords

end Machine
end ColorBasic
