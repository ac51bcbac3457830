import Mathlib.Data.List.Basic

/-!
# UTF-8

The bytes of a text, and the text of bytes that are well-formed. Decoding inverts encoding, and
the first byte of a text tells its first character if that is an ASCII one.
-/

namespace Utf8

/-- The bytes of a text. -/
def encode (cs : List Char) : List UInt8 := cs.flatMap String.utf8EncodeChar

/-- The text of bytes that are well-formed. -/
def decode (bytes : List UInt8) : Option (List Char) :=
  (String.fromUTF8? bytes.toByteArray).map String.toList

theorem toByteArray_ofList (cs : List Char) :
    (String.ofList cs).toByteArray = (encode cs).toByteArray :=
  String.toByteArray_ofList

theorem toByteArray_inj {as bs : List UInt8} (h : as.toByteArray = bs.toByteArray) : as = bs := by
  have data := congrArg (fun b : ByteArray => b.data.toList) h
  simpa only [List.toList_data_toByteArray] using data

/-- A text is read from its own bytes, and from no others. -/
theorem decode_eq_some_iff {bytes : List UInt8} {cs : List Char} :
    decode bytes = some cs ↔ encode cs = bytes := by
  unfold decode
  rw [String.fromUTF8?]
  constructor
  · intro read
    split at read
    · rename_i valid
      have text := Option.some.inj read
      have same := toByteArray_ofList (String.fromUTF8 bytes.toByteArray valid).toList
      rw [String.ofList_toList, text] at same
      exact (toByteArray_inj same).symm
    · cases read
  · intro same
    have bytes' : (String.ofList cs).toByteArray = bytes.toByteArray := by
      rw [toByteArray_ofList, same]
    have valid : bytes.toByteArray.IsValidUTF8 := bytes' ▸ (String.ofList cs).isValidUTF8
    rw [dif_pos valid]
    have text : String.fromUTF8 bytes.toByteArray valid = String.ofList cs := by
      apply String.toByteArray_inj.mp
      exact bytes'.symm
    rw [Option.map_some, text, String.toList_ofList]

theorem encode_cons (c : Char) (cs : List Char) :
    encode (c :: cs) = String.utf8EncodeChar c ++ encode cs := rfl

/-- An ASCII character is its only byte. -/
theorem encode_cons_of_lt {c : Char} (ascii : c.toNat < 128) (cs : List Char) :
    encode (c :: cs) = UInt8.ofNat c.toNat :: encode cs := by
  have one : c.utf8Size = 1 := Char.utf8Size_eq_one_iff.mpr (UInt32.le_iff_toNat_le.mpr
    (Nat.le_of_lt_succ ascii))
  rw [encode_cons, String.utf8EncodeChar_eq_singleton one]
  rfl

theorem decode_encode (cs : List Char) : decode (encode cs) = some cs :=
  decode_eq_some_iff.mpr rfl

end Utf8
