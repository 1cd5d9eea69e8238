import ReversePolish.Proofs.LossyDecoding

/-!
# The bytes of a text

A text is written in UTF-8, one character after the other, and decoding the bytes gives it back. A
byte that could stand for itself does so: it is in no longer character.
-/

namespace ReversePolish

open String (utf8EncodeChar)

theorem toList_loop (bytes : ByteArray) (start : Nat) (front : List UInt8) :
    ByteArray.toList.loop bytes start front = front.reverse ++ bytes.data.toList.drop start := by
  fun_induction ByteArray.toList.loop bytes start front with
  | case1 start front hlt ih =>
    have hlt' : start < bytes.data.toList.length := by simpa using hlt
    rw [ih, List.drop_eq_getElem_cons hlt']
    simp [ByteArray.get!, hlt]
  | case2 start front hle =>
    rw [List.drop_eq_nil_of_le (by simpa using Nat.le_of_not_lt hle)]
    simp

theorem toList_toUTF8 (text : String) : text.toUTF8.toList = text.toByteArray.data.toList := by
  rw [ByteArray.toList, toList_loop]
  rfl

theorem toList_toUTF8_append (text text' : String) :
    (text ++ text').toUTF8.toList = text.toUTF8.toList ++ text'.toUTF8.toList := by
  rw [toList_toUTF8, toList_toUTF8, toList_toUTF8, String.toByteArray_append,
    ByteArray.toList_data_append]

theorem length_toList_toUTF8 (text : String) :
    text.toUTF8.toList.length = text.utf8ByteSize := by
  rw [toList_toUTF8]
  exact String.size_toByteArray

theorem toList_toUTF8_eq_flatMap (text : String) :
    text.toUTF8.toList = text.toList.flatMap utf8EncodeChar := by
  have hchars : text.toByteArray = text.toList.utf8Encode := by
    rw [← String.toByteArray_ofList, String.ofList_toList]
  rw [toList_toUTF8, hchars, List.utf8Encode, List.toList_data_toByteArray]

theorem decodes_flatMap (text : List Char) : Decodes (text.flatMap utf8EncodeChar) text := by
  induction text with
  | nil => exact .nil
  | cons c text ih => exact ih.char c

/-- Nothing of a text is replaced. -/
theorem decodeUtf8_toUTF8 (text : String) : decodeUtf8 text.toUTF8.toList = text.toList := by
  rw [toList_toUTF8_eq_flatMap]
  exact (Decodes.iff_eq_decodeUtf8.1 (decodes_flatMap text.toList)).symm

/-- A byte that could stand for itself is in the one character that it stands for. -/
theorem eq_ofNat_of_mem_utf8EncodeChar {byte : UInt8} {c : Char} (h : byte ∈ utf8EncodeChar c)
    (hbyte : byte.toNat < 0x80) : c = Char.ofNat byte.toNat := by
  have hencode : utf8EncodeChar c = utf8EncodeChar (Char.ofNat byte.toNat) := by
    rw [eq_of_mem_utf8EncodeChar h hbyte, utf8EncodeChar_ofNat hbyte]
  exact (eq_of_utf8EncodeChar_append (congrArg (· ++ []) hencode)).1

theorem mem_of_mem_toUTF8 {text : String} {byte : UInt8} (h : byte ∈ text.toUTF8.toList)
    (hbyte : byte.toNat < 0x80) : Char.ofNat byte.toNat ∈ text.toList := by
  rw [toList_toUTF8_eq_flatMap, List.mem_flatMap] at h
  obtain ⟨c, hc, hmem⟩ := h
  exact eq_ofNat_of_mem_utf8EncodeChar hmem hbyte ▸ hc

theorem getLast?_of_getLast?_toUTF8 {text : String} {byte : UInt8}
    (h : text.toUTF8.toList.getLast? = some byte) (hbyte : byte.toNat < 0x80) :
    text.toList.getLast? = some (Char.ofNat byte.toNat) := by
  rw [toList_toUTF8_eq_flatMap] at h
  rcases List.eq_nil_or_concat text.toList with hnil | ⟨front, c, hfront⟩
  · simp [hnil] at h
  · rw [hfront, List.concat_eq_append, List.flatMap_append, List.flatMap_singleton,
      List.getLast?_append_of_ne_nil _ String.utf8EncodeChar_ne_nil] at h
    rw [hfront, List.concat_eq_append, List.getLast?_concat,
      eq_ofNat_of_mem_utf8EncodeChar (List.mem_of_getLast? h) hbyte]

end ReversePolish
