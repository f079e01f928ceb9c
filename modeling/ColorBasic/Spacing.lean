import ColorBasic.HiddenColon

/-!
# The spacing of tokenized code

Respacing puts one space around each keyword and none around the punctuation operators, and then
drops the spaces after a colon, an opening parenthesis or a comma, before a comma, and inside
`GO TO` and `GO SUB`.  Literals must not be respaced: the rules hold in code only.
-/

namespace ColorBasic

/-- What respacing needs to know about the tokens of a table. -/
structure SpacingRules where
  /-- The operators that need no space on either side. -/
  tight : List Token
  /-- The tokens that get a space on either side. -/
  spaced : Token → Bool
  /-- Sequences with a space to drop, each with what remains of it, in the order of dropping. -/
  joints : List (List Token × List Token)

namespace SpacingRules

/-- The rules for the tokens of a table. -/
def ofTable (table : TokenTable) : SpacingRules :=
  let tight := [':', '(', ')', '+', '-', '*', '/', '^', '<', '=', '>'].map table.tokenOfChar
  let goJoints :=
    match table.tokenOfText? ['G', 'O'], table.tokenOfText? ['T', 'O'],
      table.tokenOfText? ['S', 'U', 'B'] with
    | some goToken, some toToken, some subToken =>
      [([goToken, .space, toToken], [goToken, toToken]),
       ([goToken, .space, subToken], [goToken, subToken])]
    | _, _, _ => []
  let colon := table.colon
  let comma := table.tokenOfChar ','
  let opening := table.tokenOfChar '('
  { tight := tight
    spaced := fun token => table.isKeyword token && !tight.contains token
    joints := goJoints ++
      [([colon, .space], [colon]), ([opening, .space], [opening]), ([comma, .space], [comma]),
       ([.space, comma], [comma])] }

/-- Spaces around keywords.  `last` is the token written last, and `follows` tells whether a
keyword was read last, which makes a space that follows superfluous. -/
def spread (rules : SpacingRules) (last : Option Token) (follows : Bool) :
    List Token → List Token
  | [] => []
  | token :: rest =>
    if rules.spaced token then
      let before := if last.all (· = .space) then [] else [Token.space]
      if rest.head?.any rules.tight.contains then
        before ++ token :: spread rules (some token) true rest
      else
        before ++ token :: .space :: spread rules (some .space) true rest
    else if token = .space ∧ follows = true then spread rules last false rest
    else token :: spread rules (some token) false rest

end SpacingRules

namespace Token

/-- Replaces every occurrence of a non-empty sequence, from left to right. -/
def replaceAll (old new : List Token) : List Token → List Token
  | [] => []
  | token :: rest =>
    if old.isPrefixOf (token :: rest) then new ++ replaceAll old new (rest.drop (old.length - 1))
    else token :: replaceAll old new rest
termination_by tokens => tokens.length
decreasing_by all_goals grind

end Token

namespace SpacingRules

/-- Spaces where the rules want them and nowhere else. -/
def respace (rules : SpacingRules) (tokens : List Token) : List Token :=
  rules.joints.foldl (fun tokens joint => Token.replaceAll joint.1 joint.2 tokens)
    (rules.spread none false tokens)

end SpacingRules

namespace TokenTable

/-- Code without hidden colons, respaced. -/
def respace (table : TokenTable) (code : Bytes) : Bytes :=
  Token.encode ((SpacingRules.ofTable table).respace (Token.decode code))

/-- Stored code, respaced. -/
def respaceStored (table : TokenTable) (code : Bytes) : Bytes :=
  table.hideColons (table.respace (table.revealCode code))

end TokenTable
end ColorBasic
