import TypedProperties.Text.Basic

/-! Text and bytes: the encoding of files. -/
namespace TypedProperties

abbrev Bytes := List UInt8

namespace Text

def encode (t : Text) : Bytes := t.flatMap String.utf8EncodeChar

/-- The text that the bytes encode, if they are well formed. -/
def decode (bytes : Bytes) : Option Text :=
  bytes.toByteArray.utf8Decode?.map Array.toList

@[simp] theorem encode_append (s t : Text) : encode (s ++ t) = encode s ++ encode t := by
  simp [encode]

@[simp] theorem decode_encode (t : Text) : decode (encode t) = some t := by
  have h : (encode t).toByteArray = List.utf8Encode t := rfl
  simp [decode, h]

end Text
end TypedProperties
