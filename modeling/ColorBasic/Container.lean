import ColorBasic.Token

/-!
# Dragon DOS files

A file is a header of nine bytes and the payload.  The header holds the mark `$55`, the file type,
the load address, the length of the payload, the exec address and the mark `$AA`, all words high
byte first.  The length in the header is binding: bytes beyond it are ignored.
-/

namespace ColorBasic

/-- The kinds of payload that a header can name. -/
inductive FileType where
  /-- A tokenized BASIC program. -/
  | basic
  /-- Machine code. -/
  | machineCode
  deriving DecidableEq, Repr

namespace FileType

/-- The byte that stands for a file type. -/
def code : FileType → UInt8
  | basic => 0x01
  | machineCode => 0x02

/-- The file type that a byte stands for. -/
def ofCode? (code : UInt8) : Option FileType :=
  if code = 0x01 then some basic
  else if code = 0x02 then some machineCode
  else none

end FileType

/-- The reasons for which a container cannot be read or made. -/
inductive ContainerError where
  /-- There are no bytes at all. -/
  | empty
  /-- A byte of the header that never changes is wrong. -/
  | badMarker (offset : Nat) (expected found : UInt8)
  /-- The format is known and cannot be read. -/
  | unsupportedFormat (format : Text)
  /-- The first byte belongs to no known format. -/
  | unknownFormat (first : UInt8)
  /-- There are fewer bytes than declared. -/
  | lengthMismatch (declared actual : Nat)
  /-- The payload is longer than a header can tell. -/
  | tooLarge (size : Nat)
  deriving DecidableEq, Repr

/-- The message that explains an error. -/
def ContainerError.message : ContainerError → Text
  | empty => "container is empty".toList
  | badMarker offset expected found =>
    "bad marker at offset ".toList ++ Text.decimal offset ++ ": expected $".toList ++
      Text.upperHex 2 expected.toNat ++ ", found $".toList ++ Text.upperHex 2 found.toNat
  | unsupportedFormat format => format ++ " format is not supported".toList
  | unknownFormat first =>
    "unknown container format, first byte $".toList ++ Text.upperHex 2 first.toNat
  | lengthMismatch declared actual =>
    "header declares ".toList ++ Text.decimal declared ++ " bytes but ".toList ++
      Text.decimal actual ++ " are available".toList
  | tooLarge size =>
    "payload of ".toList ++ Text.decimal size ++ " bytes does not fit in the container".toList

/-- The header of a file. -/
structure Header where
  /-- The byte that tells the kind of payload. -/
  fileType : UInt8
  /-- The address that the payload is loaded at. -/
  load : UInt16
  /-- The length of the payload. -/
  length : UInt16
  /-- The address that execution starts at. -/
  exec : UInt16
  /-- The last byte of the header. -/
  tail : UInt8
  deriving DecidableEq, Repr

/-- A file: its header and its payload. -/
structure Container where
  /-- The header. -/
  header : Header
  /-- The payload. -/
  data : Bytes
  deriving DecidableEq, Repr

namespace Container

/-- The first byte of a header. -/
def headMark : UInt8 := 0x55

/-- The last byte of a header. -/
def tailMark : UInt8 := 0xAA

/-- The number of bytes of a header. -/
def headerSize : Nat := 9

/-- The file with the given payload. -/
def pack (fileType : FileType) (load exec : UInt16) (data : Bytes) :
    Except ContainerError Container :=
  if data.length < UInt16.size then
    .ok ⟨⟨fileType.code, load, UInt16.ofNat data.length, exec, tailMark⟩, data⟩
  else .error (.tooLarge data.length)

/-- The bytes of a header. -/
def headerBytes (header : Header) : Bytes :=
  headMark :: header.fileType ::
    wordBytes header.load ++ wordBytes header.length ++ wordBytes header.exec ++ [header.tail]

/-- The bytes of a file. -/
def toBytes (container : Container) : Bytes := headerBytes container.header ++ container.data

/-- The payload after a header, cut to the declared length. -/
def withPayload (header : Header) (rest : Bytes) : Except ContainerError Container :=
  let data := rest.take header.length.toNat
  if header.tail ≠ tailMark then .error (.badMarker (headerSize - 1) tailMark header.tail)
  else if data.length < header.length.toNat then
    .error (.lengthMismatch header.length.toNat rest.length)
  else .ok ⟨header, data⟩

/-- Reads a file. -/
def ofBytes : Bytes → Except ContainerError Container
  | head :: fileType :: load₁ :: load₀ :: length₁ :: length₀ :: exec₁ :: exec₀ :: tail :: rest =>
    if head ≠ headMark then .error (.badMarker 0 headMark head)
    else
      withPayload
        ⟨fileType, wordOfBytes load₁ load₀, wordOfBytes length₁ length₀, wordOfBytes exec₁ exec₀,
          tail⟩
        rest
  | bytes => .error (.lengthMismatch headerSize bytes.length)

/-- The format that a leading zero byte suggests. -/
def diskFormat : Text := "CoCo DECB (Disk Extended Color BASIC)".toList

/-- Tells the format by the first byte and reads the file. -/
def load (bytes : Bytes) : Except ContainerError Container :=
  match bytes with
  | [] => .error .empty
  | first :: _ =>
    if first = headMark then ofBytes bytes
    else if first = 0x00 then .error (.unsupportedFormat diskFormat)
    else .error (.unknownFormat first)

/-- The kind of payload, if the header names a known one. -/
def fileType? (container : Container) : Option FileType :=
  FileType.ofCode? container.header.fileType

/-- The number of bytes after the declared length, of those that the container was read from. -/
def surplus (container : Container) (bytes : Bytes) : Nat :=
  bytes.length - (headerSize + container.data.length)

/-- The message about bytes after the declared length, if there are any. -/
def surplusMessage? (container : Container) (bytes : Bytes) : Option Text :=
  if container.surplus bytes = 0 then none
  else
    some ("ignoring ".toList ++ Text.decimal (container.surplus bytes) ++
      " bytes after the declared length".toList)

end Container
end ColorBasic
