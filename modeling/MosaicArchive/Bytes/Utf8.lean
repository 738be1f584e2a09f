import MosaicArchive.Bytes.FixedWidth

/-!
Text as a list of Unicode scalar values and its strict UTF-8 encoding.
Decoding rejects overlong forms, surrogates and values above `0x10FFFF`, so a
byte string is the encoding of at most one text and decoding finds it.
-/

namespace Utf8

open FixedWidth

/-- A string of Unicode scalar values. -/
abbrev Text := List Char

instance (text : Text) (texts : List Text) : Decidable (text ∈ texts) := inferInstance

def encode (text : Text) : Bytes := text.flatMap String.utf8EncodeChar

/-- Strict decoding; `none` where the bytes are not valid UTF-8. -/
def decode (bytes : Bytes) : Option Text := bytes.toByteArray.utf8Decode?.map Array.toList

theorem decode_encode (text : Text) : decode (encode text) = some text := by
  have h : (encode text).toByteArray = text.utf8Encode := rfl
  rw [decode, h, List.utf8Decode?_utf8Encode]
  rfl

theorem encode_of_decode {bytes : Bytes} {text : Text} (h : decode bytes = some text) :
    encode text = bytes := by
  obtain ⟨chars, hchars, rfl⟩ := Option.map_eq_some_iff.mp h
  have hsome : bytes.toByteArray.utf8Decode?.isSome := by rw [hchars]; rfl
  have hback : chars.toList.utf8Encode = bytes.toByteArray := by
    rw [← ByteArray.utf8Encode_get_utf8Decode? (h := hsome), Option.get_of_eq_some hsome hchars]
  have hdata : (encode chars.toList).toByteArray.data.toList = bytes.toByteArray.data.toList :=
    congrArg (fun b : ByteArray => b.data.toList) hback
  simpa only [List.toList_data_toByteArray] using hdata

theorem decode_eq_some {bytes : Bytes} {text : Text} :
    decode bytes = some text ↔ encode text = bytes := by
  constructor
  · exact encode_of_decode
  · rintro rfl
    exact decode_encode text

theorem encode_inj {s t : Text} (h : encode s = encode t) : s = t := by
  have hdecode := congrArg decode h
  rw [decode_encode, decode_encode] at hdecode
  exact Option.some.inj hdecode

end Utf8
