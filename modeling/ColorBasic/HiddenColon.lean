import ColorBasic.TokenTable

/-!
# Hidden colons

The interpreter stores a colon in front of every apostrophe and every `ELSE` token, and a listing
never shows it.
-/

namespace ColorBasic.TokenTable

/-- The tokens in front of which a colon is stored. -/
def colonTargets (table : TokenTable) : List Token :=
  [['\''], ['E', 'L', 'S', 'E']].filterMap table.tokenOfText?

/-- The token of the colon. -/
def colon (table : TokenTable) : Token := table.tokenOfChar ':'

/-- Puts a colon in front of each target. -/
def insertColons (colon : Token) (targets : List Token) (tokens : List Token) : List Token :=
  tokens.flatMap fun token => if token ∈ targets then [colon, token] else [token]

/-- Removes each colon that stands directly before a target. -/
def removeColons (colon : Token) (targets : List Token) : List Token → List Token
  | [] => []
  | [token] => [token]
  | token :: next :: rest =>
    if token = colon ∧ next ∈ targets then removeColons colon targets (next :: rest)
    else token :: removeColons colon targets (next :: rest)

/-- Code with the hidden colons put in. -/
def hideColons (table : TokenTable) (code : Bytes) : Bytes :=
  Token.encode (insertColons table.colon table.colonTargets (Token.decode code))

/-- Code with the hidden colons taken out. -/
def revealCode (table : TokenTable) (code : Bytes) : Bytes :=
  Token.encode (removeColons table.colon table.colonTargets (Token.decode code))

end ColorBasic.TokenTable
