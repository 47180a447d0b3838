import DogStatsD.Proofs.Line.Plain
import Mathlib.Data.String.Basic

/-!
# Bytes of Texts

A server gets bytes. The size of a text is the number of its bytes, whatever characters they are of,
so a server that knows the size can take the text off the front of what it got without looking at
it.

* `bytesOf`, `textOf?`: the bytes of a text, and the text of some bytes;
* `take_bytesOf`, `drop_bytesOf`: so many bytes as a text has are the text;
* `bytesOf_digits`: digits are their own bytes;
* `utf8ByteSize_escapeNewlines`: the size of an escaped text is known before it is escaped.
-/

namespace DogStatsD

/-- The bytes of a text. -/
def bytesOf (text : String) : List UInt8 :=
  text.toUTF8.data.toList

/-- The text of some bytes, if they are those of one. -/
def textOf? (bytes : List UInt8) : Option String :=
  String.fromUTF8? bytes.toByteArray

/-- The bytes of a text are those of its characters. -/
theorem bytesOf_eq_flatMap (text : String) :
    bytesOf text = text.toList.flatMap String.utf8EncodeChar := by
  conv_lhs => rw [← String.ofList_toList (s := text)]
  rw [bytesOf, String.toUTF8_eq_toByteArray, String.toByteArray_ofList, List.utf8Encode,
    List.data_toByteArray]

@[simp]
theorem bytesOf_append (front back : String) :
    bytesOf (front ++ back) = bytesOf front ++ bytesOf back := by
  simp only [bytesOf_eq_flatMap, String.toList_append, List.flatMap_append]

@[simp]
theorem length_bytesOf (text : String) : (bytesOf text).length = text.utf8ByteSize := by
  rw [bytesOf, Array.length_toList, String.toUTF8_eq_toByteArray]
  exact String.size_toByteArray

/-- The bytes of a text are read as this text. -/
@[simp]
theorem textOf?_bytesOf (text : String) : textOf? (bytesOf text) = some text := by
  have hbytes : (bytesOf text).toByteArray = text.toByteArray :=
    ByteArray.ext List.data_toByteArray
  unfold textOf? String.fromUTF8?
  rw [hbytes, dif_pos text.isValidUTF8]
  rfl

/-- At the front of some bytes, a text takes as many as its size says. -/
theorem take_bytesOf (text : String) (rest : List UInt8) :
    (bytesOf text ++ rest).take text.utf8ByteSize = bytesOf text := by
  rw [← length_bytesOf, List.take_left]

theorem drop_bytesOf (text : String) (rest : List UInt8) :
    (bytesOf text ++ rest).drop text.utf8ByteSize = rest := by
  rw [← length_bytesOf, List.drop_left]

/-! ## Digits -/

/-- Whether a byte is a decimal digit. -/
def isDigitByte (byte : UInt8) : Bool :=
  (Char.ofUInt8 byte).isDigit

/-- A digit is its own byte. -/
theorem utf8EncodeChar_digit {c : Char} (h : c.isDigit = true) :
    String.utf8EncodeChar c = [c.toUInt8] ∧ Char.ofUInt8 c.toUInt8 = c := by
  obtain ⟨-, hhigh⟩ : 48 ≤ c.val.toNat ∧ c.val.toNat ≤ 57 := by
    simpa [Char.isDigit, UInt32.le_iff_toNat_le] using h
  refine ⟨if_pos (by omega), Char.ext (UInt32.toNat_inj.mp ?_)⟩
  change c.val.toNat % 256 = c.val.toNat
  omega

/-- The bytes of digits are the digits one by one. -/
theorem bytesOf_digits {digits : List Char} (h : ∀ c ∈ digits, c.isDigit = true) :
    bytesOf (String.ofList digits) = digits.map Char.toUInt8 := by
  rw [bytesOf_eq_flatMap, String.toList_ofList]
  induction digits with
  | nil => rfl
  | cons c rest ih =>
    obtain ⟨hc, hrest⟩ := List.forall_mem_cons.mp h
    rw [List.flatMap_cons, ih hrest, (utf8EncodeChar_digit hc).1, List.map_cons]
    rfl

/-- Digits are read back from their bytes. -/
theorem map_ofUInt8_digits {digits : List Char} (h : ∀ c ∈ digits, c.isDigit = true) :
    (digits.map Char.toUInt8).map Char.ofUInt8 = digits := by
  rw [List.map_map]
  exact (List.map_congr_left fun c hc => (utf8EncodeChar_digit (h c hc)).2).trans (List.map_id _)

/-! ## Sizes -/

namespace Line

/-- Escaping adds a character for each newline, all of one byte. -/
theorem utf8Len_escapeChars (text : List Char) :
    String.utf8Len (escapeChars text) = String.utf8Len text + text.count '\n' := by
  induction text with
  | nil => rfl
  | cons c rest ih =>
    unfold escapeChars
    split
    next hnewline =>
      subst hnewline
      rw [String.utf8Len_cons, String.utf8Len_cons, String.utf8Len_cons, ih, List.count_cons_self]
      have hone : ('\\').utf8Size = 1 ∧ ('n').utf8Size = 1 ∧ ('\n').utf8Size = 1 := by decide
      omega
    next hother =>
      rw [String.utf8Len_cons, String.utf8Len_cons, ih, List.count_cons_of_ne hother]
      omega

/-- The number of bytes announced for a text is that of the text as it is written. -/
theorem utf8ByteSize_escapeNewlines (text : String) :
    (escapeNewlines text).utf8ByteSize = escapedSize text := by
  rw [escapeNewlines, String.utf8ByteSize_ofList, utf8Len_escapeChars, String.utf8Len_toList,
    escapedSize]

end Line

end DogStatsD
