import DogStatsD.Proofs.Line.Fields
import DogStatsD.Proofs.Server.Notices
import DogStatsD.Proofs.Server.Records

/-!
# Parts of Notices Read Back

Each thing that the reading of notices does undoes one thing that the writing of them does: taking a
text off the front of some bytes undoes putting it there, cutting a line at its bars undoes putting
them between its pieces, and looking for the mark of each field in turn undoes leaving out the
fields that are not set.

* `skip?_bytesOf`, `readSize?_ofNat`, `takeText?_bytesOf`: texts and numbers at the front;
* `readPieces?_intercalate`: pieces with bars between them;
* `Apart`, `readMarked?_pieces`: fields whose marks are told apart by their first characters.
-/

namespace DogStatsD.Server

open Line (Marked Parts)

/-! ## The front of some bytes -/

theorem skip?_bytesOf (text : String) (rest : List UInt8) :
    skip? text (bytesOf text ++ rest) = some rest :=
  List.isPrefixOf?_eq_some_iff_append_eq.mpr rfl

/-- A number is read as far as its digits go. -/
theorem readSize?_ofNat (n : Nat) {rest : List UInt8}
    (hrest : ∀ byte ∈ rest.head?, isDigitByte byte = false) :
    readSize? (bytesOf (Decimal.ofNat n) ++ rest) = some (n, rest) := by
  have hdigits : ∀ c ∈ Decimal.digitChars n, c.isDigit = true :=
    fun c hc => Nat.isDigit_of_mem_toDigits (by decide) (by decide) hc
  have hbytes : bytesOf (Decimal.ofNat n) = (Decimal.digitChars n).map Char.toUInt8 :=
    bytesOf_digits hdigits
  have hall : ∀ byte ∈ bytesOf (Decimal.ofNat n), isDigitByte byte = true := by
    intro byte hbyte
    rw [hbytes] at hbyte
    obtain ⟨c, hc, rfl⟩ := List.mem_map.mp hbyte
    rw [isDigitByte, (utf8EncodeChar_digit (hdigits c hc)).2]
    exact hdigits c hc
  -- The byte behind the number ends it.
  have hstop : rest.takeWhile isDigitByte = [] ∧ rest.dropWhile isDigitByte = rest := by
    cases rest with
    | nil => exact ⟨rfl, rfl⟩
    | cons byte rest =>
      have hbyte := hrest byte rfl
      exact ⟨List.takeWhile_cons_of_neg (by simp [hbyte]),
        List.dropWhile_cons_of_neg (by simp [hbyte])⟩
  rw [readSize?, List.takeWhile_append_of_pos hall, List.dropWhile_append_of_pos hall, hstop.1,
    hstop.2, List.append_nil, hbytes, map_ofUInt8_digits hdigits, readNat?_digitChars]
  rfl

/-- A text is taken off by its size, whatever is in it. -/
theorem takeText?_bytesOf (text : String) (rest : List UInt8) :
    takeText? text.utf8ByteSize (bytesOf text ++ rest) = some (text, rest) := by
  have hsize : text.utf8ByteSize ≤ (bytesOf text ++ rest).length := by
    rw [List.length_append, length_bytesOf]
    exact Nat.le_add_right _ _
  rw [takeText?, if_pos hsize, take_bytesOf, drop_bytesOf, textOf?_bytesOf]
  rfl

/-! ## Pieces -/

/-- Pieces with bars between them are what a line is cut into. -/
theorem readPieces?_intercalate {pieces : List (List Char)} (hne : pieces ≠ [])
    (hplain : ∀ c ∈ ['|', '\n'], ∀ piece ∈ pieces, c ∉ piece) :
    readPieces? (['|'].intercalate pieces ++ ['\n']) = some pieces := by
  have hnewline : '\n' ∉ ['|'].intercalate pieces :=
    not_mem_intercalate (by decide) (hplain '\n' (by decide))
  have hline : linesIn? (['|'].intercalate pieces ++ ['\n']) = some [['|'].intercalate pieces] :=
    linesIn?_append hnewline []
  rw [readPieces?, hline]
  exact congrArg some (List.splitOn_intercalate '|' (hplain '|' (by decide)) hne)

/-! ## Fields -/

/-- Marks that are told apart by their first characters. -/
def Apart (marks : List (List Char)) : Prop :=
  [] ∉ marks ∧ (marks.map List.head?).Nodup

instance (marks : List (List Char)) : Decidable (Apart marks) :=
  inferInstanceAs (Decidable (_ ∧ _))

/-- A mark does not stand at the front of a text that begins with another character. -/
theorem isPrefixOf?_eq_none {mark text : List Char} (hne : mark ≠ [])
    (h : mark.head? ≠ text.head?) : mark.isPrefixOf? text = none := by
  rw [Option.eq_none_iff_forall_ne_some]
  intro rest hrest
  obtain rfl := List.isPrefixOf?_eq_some_iff_append_eq.mp hrest
  exact h (List.head?_append_of_ne_nil mark hne).symm

/-- The fields before which other ones stand are found where they are set, and only there. -/
theorem takeField_piece {mark : List Char} {text : Option (List Char)}
    {pieces : List (List Char)} (h : ∀ piece ∈ pieces, mark.isPrefixOf? piece = none) :
    takeField mark (Parts.piece mark text ++ pieces) = (text, pieces) := by
  cases text with
  | some text =>
    have hfound : mark.isPrefixOf? (mark ++ text) = some text :=
      List.isPrefixOf?_eq_some_iff_append_eq.mpr rfl
    change takeField mark ((mark ++ text) :: pieces) = _
    rw [takeField, hfound]
  | none =>
    change takeField mark pieces = _
    cases pieces with
    | nil => rfl
    | cons piece rest => rw [takeField, h piece List.mem_cons_self]

/-- Fields are read back from their pieces. -/
theorem readMarked?_pieces {fields : Marked} (hmarks : Apart (fields.map Prod.fst)) :
    readMarked? (fields.map Prod.fst) fields.pieces = some (fields.map Prod.snd) := by
  induction fields with
  | nil => rfl
  | cons field rest ih =>
    obtain ⟨hempty, hdistinct⟩ := hmarks
    rw [List.map_cons, List.mem_cons, not_or] at hempty
    rw [List.map_cons, List.map_cons, List.nodup_cons] at hdistinct
    -- No piece behind begins with this mark, since its own mark begins with another character.
    have hothers : ∀ piece ∈ Marked.pieces rest, field.1.isPrefixOf? piece = none := by
      intro piece hpiece
      obtain ⟨other, hother, hin⟩ := List.mem_flatMap.mp hpiece
      obtain ⟨text, -, rfl⟩ := List.mem_map.mp hin
      have hmark : other.1 ∈ rest.map Prod.fst := List.mem_map_of_mem hother
      have hne : other.1 ≠ [] := fun hnil => hempty.2 (hnil ▸ hmark)
      refine isPrefixOf?_eq_none (Ne.symm hempty.1) fun hhead => hdistinct.1 ?_
      rw [hhead, List.head?_append_of_ne_nil other.1 hne]
      exact List.mem_map_of_mem hmark
    have htake : takeField field.1 (Marked.pieces (field :: rest)) =
        (field.2, Marked.pieces rest) := takeField_piece hothers
    simp only [List.map_cons, readMarked?, htake, ih ⟨hempty.2, hdistinct.2⟩, Option.map_some]

/-- The number in a field is read back. -/
theorem readOptional_digits (n : Option Nat) :
    readOptional readNat? (n.map Decimal.digitChars) = some n := by
  have hread : readOptional readNat? (n.map Decimal.digitChars) = some (n.map id) :=
    readOptional_map readNat?_digitChars n
  rw [hread, Option.map_id, id]

/-- What is spelt by a name is read back from a field that holds the name. -/
theorem readOptional_name {α : Type} {read : String → Option α} {name : α → String}
    (h : ∀ a, read (name a) = some a) (value : Option α) :
    readOptional (read ∘ String.ofList) (value.map fun a => (name a).toList) = some value := by
  have hread : ∀ a, (read ∘ String.ofList) (name a).toList = some (id a) := by
    intro a
    rw [Function.comp_apply, String.ofList_toList]
    exact h a
  rw [readOptional_map hread, Option.map_id, id]

/-- A text is read back from its characters. -/
theorem map_ofList_texts {α : Type} (text : α → String) (value : Option α) :
    (value.map fun a => (text a).toList).map String.ofList = value.map text := by
  cases value with
  | none => rfl
  | some a => exact congrArg some String.ofList_toList

theorem map_ofList_toList (value : Option String) :
    (value.map String.toList).map String.ofList = value :=
  (map_ofList_texts id value).trans Option.map_id'

/-- A short text is read back without its newlines. -/
theorem map_ofList_shortText (value : Option String) :
    (Line.shortText value).map String.ofList = value.map Line.dropNewlines :=
  map_ofList_texts Line.dropNewlines value

/-- Tags are read back without their newlines; no tags are not read as one that is empty. -/
theorem readTags_ofTags {o : Line.Options} (ho : o.NoticeUnambiguous) {tags : List String}
    (h : ∀ tag ∈ tags, Avoids [',', '|'] tag) :
    readTags ((Parts.ofTags tags).tagsText o) = (o.globalTags ++ tags).map Line.dropNewlines :=
  readTags_tagsText (o := { o with metricNamespace := none }) ho.unambiguous
    (Parts.unambiguous_ofTags h)

end DogStatsD.Server
