import ColorBasic.Text.Numeral

/-!
# Encoded text

Outside the program, text is bytes in UTF-8.
-/

namespace ColorBasic.Text

/-- The bytes of encoded text. -/
def encode (s : Text) : Bytes := s.flatMap String.utf8EncodeChar

/-- The text that bytes encode. -/
def decode? (bytes : Bytes) : Option Text :=
  (String.fromUTF8? ⟨bytes.toArray⟩).map String.toList

theorem toByteArray_encode (text : Text) : text.encode.toByteArray = text.utf8Encode := rfl

end ColorBasic.Text
