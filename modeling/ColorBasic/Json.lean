import ColorBasic.Json.Number

/-!
# JSON values and their strict reading

Text is first cut into symbols and the symbols are then read with a stack of the arrays and objects
that are open.  Nothing may follow the value but blanks, and at most 127 arrays and objects may be
open at once.
-/

namespace ColorBasic

/-- A JSON value. -/
inductive Json where
  /-- The value `null`. -/
  | null
  /-- A truth value. -/
  | bool (value : Bool)
  /-- A number, and the natural number that it is written as, if any. -/
  | number (natural? : Option Nat)
  /-- A string. -/
  | string (text : Text)
  /-- An array. -/
  | array (items : List Json)
  /-- An object with its members in the order of the text. -/
  | object (members : List (Text × Json))

namespace Json

/-- A unit of JSON text. -/
inductive Symbol where
  /-- A value without parts that is no string. -/
  | scalar (value : Json)
  /-- A string, which may be a value or a name. -/
  | string (text : Text)
  /-- The start of an array. -/
  | beginArray
  /-- The end of an array. -/
  | endArray
  /-- The start of an object. -/
  | beginObject
  /-- The end of an object. -/
  | endObject
  /-- The colon after a name. -/
  | colon
  /-- The comma between items or members. -/
  | comma

namespace Symbol

/-- Whether a character may stand between symbols. -/
def isSpace (c : Char) : Bool := c = ' ' ∨ c = '\t' ∨ c = '\n' ∨ c = '\r'

/-- The character that a letter after a backslash stands for. -/
def simpleEscape? (c : Char) : Option Char :=
  match c with
  | '"' => some '"'
  | '\\' => some '\\'
  | '/' => some '/'
  | 'b' => some '\x08'
  | 'f' => some '\x0c'
  | 'n' => some '\n'
  | 'r' => some '\r'
  | 't' => some '\t'
  | _ => none

/-- Whether a number is the first half of a surrogate pair. -/
def isLead (n : Nat) : Bool := 0xD800 ≤ n ∧ n < 0xDC00

/-- Whether a number is the second half of a surrogate pair. -/
def isTrail (n : Nat) : Bool := 0xDC00 ≤ n ∧ n < 0xE000

/-- The character that a surrogate pair stands for. -/
def pairedChar (lead trail : Nat) : Char :=
  Char.ofNat (0x10000 + (lead - 0xD800) * 0x400 + (trail - 0xDC00))

/-- Reads the four digits of an escape. -/
def readUnit : Text → Option (Nat × Text)
  | a :: b :: c :: d :: rest => (Text.readNumeral? 16 [a, b, c, d]).map (·, rest)
  | _ => none

/-- Reads the character of an escape whose mark has been read. -/
def readCodePoint (s : Text) : Option (Char × Text) := do
  let (first, rest) ← readUnit s
  if isLead first then
    match rest with
    | '\\' :: 'u' :: pair =>
      let (second, rest) ← readUnit pair
      if isTrail second then some (pairedChar first second, rest) else none
    | _ => none
  else if isTrail first then none
  else some (Char.ofNat first, rest)

/-- Reads one character of a string, and `none` in its place at the closing quote. -/
def readChar : Text → Option (Option Char × Text)
  | [] => none
  | '"' :: rest => some (none, rest)
  | '\\' :: 'u' :: rest => (readCodePoint rest).map fun (c, rest) => (some c, rest)
  | '\\' :: c :: rest => (simpleEscape? c).map fun c => (some c, rest)
  | c :: rest => if c = '\\' ∨ c.toNat < 0x20 then none else some (some c, rest)

theorem length_readUnit_lt {s rest : Text} {unit : Nat} (h : readUnit s = some (unit, rest)) :
    rest.length < s.length := by
  unfold readUnit at h
  split at h
  · simp only [Option.map_eq_some_iff, Prod.mk.injEq] at h
    obtain ⟨_, _, _, rfl⟩ := h
    simp only [List.length_cons]
    omega
  · simp at h

theorem length_readCodePoint_lt {s rest : Text} {c : Char}
    (h : readCodePoint s = some (c, rest)) : rest.length < s.length := by
  unfold readCodePoint at h
  simp only [Option.bind_eq_bind, Option.bind_eq_some_iff] at h
  obtain ⟨⟨first, after⟩, hfirst, h⟩ := h
  have hafter := length_readUnit_lt hfirst
  dsimp only at h
  split at h
  · split at h
    · rename_i pair
      simp only [Option.bind_eq_some_iff] at h
      obtain ⟨⟨second, last⟩, hsecond, h⟩ := h
      have hlast := length_readUnit_lt hsecond
      simp only [List.length_cons] at hafter
      dsimp only at h
      split at h
      · obtain ⟨_, rfl⟩ := Prod.mk.inj (Option.some.inj h)
        omega
      · simp at h
    · simp at h
  · split at h
    · simp at h
    · obtain ⟨_, rfl⟩ := Prod.mk.inj (Option.some.inj h)
      exact hafter

theorem length_readChar_lt {s rest : Text} {c? : Option Char}
    (h : readChar s = some (c?, rest)) : rest.length < s.length := by
  unfold readChar at h
  split at h
  · simp at h
  · simp only [Option.some.injEq, Prod.mk.injEq] at h
    simp [← h.2]
  · simp only [Option.map_eq_some_iff, Prod.mk.injEq, Prod.exists] at h
    obtain ⟨_, _, hread, _, rfl⟩ := h
    have := length_readCodePoint_lt hread
    simp only [List.length_cons]
    omega
  · simp only [Option.map_eq_some_iff, Prod.mk.injEq] at h
    obtain ⟨_, _, _, rfl⟩ := h
    simp only [List.length_cons]
    omega
  · split at h
    · simp at h
    · simp only [Option.some.injEq, Prod.mk.injEq] at h
      simp [← h.2]

/-- Reads a string whose opening quote has been read. -/
def readString (s : Text) : Option (Text × Text) :=
  match _h : readChar s with
  | none => none
  | some (none, rest) => some ([], rest)
  | some (some c, rest) => (readString rest).map fun (text, rest) => (c :: text, rest)
termination_by s.length
decreasing_by exact length_readChar_lt _h

/-- Reads one symbol. -/
def read : Text → Option (Symbol × Text)
  | '[' :: rest => some (.beginArray, rest)
  | ']' :: rest => some (.endArray, rest)
  | '{' :: rest => some (.beginObject, rest)
  | '}' :: rest => some (.endObject, rest)
  | ':' :: rest => some (.colon, rest)
  | ',' :: rest => some (.comma, rest)
  | '"' :: rest => (readString rest).map fun (text, rest) => (.string text, rest)
  | 'n' :: 'u' :: 'l' :: 'l' :: rest => some (.scalar .null, rest)
  | 't' :: 'r' :: 'u' :: 'e' :: rest => some (.scalar (.bool true), rest)
  | 'f' :: 'a' :: 'l' :: 's' :: 'e' :: rest => some (.scalar (.bool false), rest)
  | s => (Numeral.read s).map fun (numeral, rest) => (.scalar (.number numeral.natural?), rest)

/-- The symbols of a text.  Every symbol takes up some text, so `fuel` symbols are enough for a
text of that length. -/
def readAllWith : (fuel : Nat) → Text → Option (List Symbol)
  | _, [] => some []
  | 0, _ :: _ => none
  | fuel + 1, c :: rest =>
    if isSpace c then readAllWith fuel rest
    else do
      let (symbol, rest) ← read (c :: rest)
      return symbol :: (← readAllWith fuel rest)

/-- The symbols of a text. -/
def readAll (s : Text) : Option (List Symbol) := readAllWith s.length s

end Symbol

/-- An array or object that is open, with the parts read so far, last part first. -/
inductive Frame where
  /-- An open array. -/
  | array (items : List Json)
  /-- An open object, and the name that was read last. -/
  | object (members : List (Text × Json)) (name : Text)

/-- What has to come next. -/
inductive Expectation where
  /-- A value. -/
  | value
  /-- A value or the end of an array. -/
  | valueOrEnd
  /-- A name. -/
  | name
  /-- A name or the end of an object. -/
  | nameOrEnd
  /-- The colon after a name. -/
  | colon
  /-- A comma or the end of an array or object. -/
  | commaOrEnd
  /-- Nothing, since the value is complete. -/
  | nothing (value : Json)

/-- The state of reading a value. -/
structure Reading where
  /-- The open arrays and objects, innermost first. -/
  stack : List Frame
  /-- What has to come next. -/
  expects : Expectation

namespace Reading

/-- The greatest number of arrays and objects that may be open. -/
def depthLimit : Nat := 127

/-- The state in which a value begins. -/
def start : Reading := ⟨[], .value⟩

/-- The state after a complete value inside the given frames. -/
def place (value : Json) : List Frame → Reading
  | [] => ⟨[], .nothing value⟩
  | .array items :: stack => ⟨.array (value :: items) :: stack, .commaOrEnd⟩
  | .object members name :: stack => ⟨.object ((name, value) :: members) name :: stack, .commaOrEnd⟩

/-- The state after the start of an array or object, unless too many are open. -/
def enter (frame : Frame) (expects : Expectation) (stack : List Frame) : Option Reading :=
  if stack.length < depthLimit then some ⟨frame :: stack, expects⟩ else none

/-- The state after the start of a value, if the symbol starts one. -/
def beginValue (stack : List Frame) : Symbol → Option Reading
  | .scalar value => some (place value stack)
  | .string text => some (place (.string text) stack)
  | .beginArray => enter (.array []) .valueOrEnd stack
  | .beginObject => enter (.object [] []) .nameOrEnd stack
  | _ => none

/-- The state after the end of the innermost array or object, if the symbol ends it. -/
def finish (symbol : Symbol) : List Frame → Option Reading
  | .array items :: stack =>
    match symbol with
    | .endArray => some (place (.array items.reverse) stack)
    | _ => none
  | .object members _ :: stack =>
    match symbol with
    | .endObject => some (place (.object members.reverse) stack)
    | _ => none
  | [] => none

/-- The state after a name, if the symbol is a string and an object is open. -/
def readName (symbol : Symbol) : List Frame → Option Reading
  | .object members _ :: stack =>
    match symbol with
    | .string name => some ⟨.object members name :: stack, .colon⟩
    | _ => none
  | _ => none

/-- The state after a comma. -/
def separate : List Frame → Option Reading
  | .array items :: stack => some ⟨.array items :: stack, .value⟩
  | .object members name :: stack => some ⟨.object members name :: stack, .name⟩
  | [] => none

/-- The state after one more symbol. -/
def step (reading : Reading) (symbol : Symbol) : Option Reading :=
  match reading.expects, symbol with
  | .value, symbol => beginValue reading.stack symbol
  | .valueOrEnd, .endArray => finish .endArray reading.stack
  | .valueOrEnd, symbol => beginValue reading.stack symbol
  | .name, symbol => readName symbol reading.stack
  | .nameOrEnd, .endObject => finish .endObject reading.stack
  | .nameOrEnd, symbol => readName symbol reading.stack
  | .colon, .colon => some ⟨reading.stack, .value⟩
  | .colon, _ => none
  | .commaOrEnd, .comma => separate reading.stack
  | .commaOrEnd, symbol => finish symbol reading.stack
  | .nothing _, _ => none

/-- The value that has been read, if it is complete. -/
def value? (reading : Reading) : Option Json :=
  match reading.expects with
  | .nothing value => some value
  | _ => none

end Reading

/-- The value that a text stands for. -/
def parse? (s : Text) : Option Json := do
  let symbols ← Symbol.readAll s
  let reading ← symbols.foldlM Reading.step Reading.start
  reading.value?

/-- The value of a member of an object; of several members with one name the last counts. -/
def get? (json : Json) (name : Text) : Option Json :=
  match json with
  | .object members => (members.reverse.find? (·.1 = name)).map Prod.snd
  | _ => none

/-- Whether a value is an object. -/
def isObject : Json → Bool
  | .object _ => true
  | _ => false

/-- The value as a number of sixteen bits. -/
def word? : Json → Option UInt16
  | .number (some n) => if n < UInt16.size then some (UInt16.ofNat n) else none
  | _ => none

/-- The value as text. -/
def text? : Json → Option Text
  | .string text => some text
  | _ => none

end Json
end ColorBasic
