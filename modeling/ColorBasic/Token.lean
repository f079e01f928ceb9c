import ColorBasic.Text.Numeral

/-!
# Tokens and their stored form

A token is one byte, or a two byte word stored high byte first.  In stored code the byte `$FF`
announces a word, whose low byte follows; a `$FF` with nothing after it stands for itself.
-/

namespace ColorBasic

/-- The byte that announces a two byte token. -/
def wordMark : UInt8 := 0xFF

/-- The two bytes of a word, high byte first. -/
def wordBytes (w : UInt16) : Bytes := [(w >>> 8).toUInt8, w.toUInt8]

/-- The word with the given high and low byte. -/
def wordOfBytes (high low : UInt8) : UInt16 := (high.toUInt16 <<< 8) ||| low.toUInt16

/-- One unit of tokenized code. -/
inductive Token where
  /-- A character or a keyword stored in one byte. -/
  | byte (value : UInt8)
  /-- A function name stored in two bytes. -/
  | word (value : UInt16)
  deriving DecidableEq, Repr

namespace Token

/-- The shortest token with the given value. -/
def ofValue (value : UInt16) : Token :=
  if value ≤ 0xFF then .byte value.toUInt8 else .word value

/-- The number that a token table lists for a token. -/
def value : Token → UInt16
  | .byte b => b.toUInt16
  | .word w => w

/-- The stored form of a token. -/
def bytes : Token → Bytes
  | .byte b => [b]
  | .word w => wordBytes w

/-- The space character as a token. -/
def space : Token := .byte 0x20

/-- The stored form of a sequence of tokens. -/
def encode (tokens : List Token) : Bytes := tokens.flatMap bytes

/-- The tokens that stored code consists of. -/
def decode : Bytes → List Token
  | [] => []
  | [b] => [.byte b]
  | b :: low :: rest =>
    if b = wordMark then .word (wordOfBytes b low) :: decode rest
    else .byte b :: decode (low :: rest)

@[simp] theorem encode_nil : encode [] = [] := rfl

@[simp] theorem encode_cons (token : Token) (tokens : List Token) :
    encode (token :: tokens) = token.bytes ++ encode tokens := rfl

@[simp] theorem encode_append (first second : List Token) :
    encode (first ++ second) = encode first ++ encode second := by
  simp [encode]

end Token
end ColorBasic
