import DogStatsD.Proofs.Line.Plain
import Mathlib.Data.String.Basic

/-!
# Parts of Metric Lines

The lines of samples and of batches are of one make: a name, some texts of values, a kind, and the
fields behind it. Cut at its bars, such a line falls into pieces, none of which holds a bar or a
newline as long as the parts hold none.

* `Line.Parts.line`: the line of its parts;
* `Line.Parts.toList_line`: it is its pieces with bars between them, and a newline;
* `Line.Parts.not_mem_pieces`: no piece holds a bar or a newline.
-/

namespace DogStatsD

/-! ## Parts with a separator between them -/

/-- Parts with a character between them are parts with the character before each but the first. -/
theorem intercalate_eq_flatMap (separator : Char) (first : List Char) (rest : List (List Char)) :
    [separator].intercalate (first :: rest) = first ++ rest.flatMap (separator :: ·) := by
  induction rest generalizing first with
  | nil => simp
  | cons next rest ih =>
    rw [List.intercalate_cons_cons, ih, List.flatMap_cons]
    simp

/-- A character that no part holds is not between the parts either, unless it separates them. -/
theorem not_mem_intercalate {separator c : Char} {parts : List (List Char)} (hne : c ≠ separator)
    (h : ∀ part ∈ parts, c ∉ part) : c ∉ [separator].intercalate parts := by
  cases parts with
  | nil => exact List.not_mem_nil
  | cons first rest =>
    obtain ⟨hfirst, hrest⟩ := List.forall_mem_cons.mp h
    rw [intercalate_eq_flatMap, List.mem_append, List.mem_flatMap]
    rintro (hmem | ⟨part, hpart, hmem⟩)
    · exact hfirst hmem
    · obtain heq | hmem := List.mem_cons.mp hmem
      · exact hne heq
      · exact hrest part hpart hmem

/-- Leaving newlines out of a text brings nothing new into it. -/
theorem mem_dropNewlines {c : Char} {text : String} :
    c ∈ (Line.dropNewlines text).toList ↔ c ∈ text.toList ∧ c ≠ '\n' := by
  simp [Line.dropNewlines]

/-- A text without newlines avoids what it avoided, and newlines. -/
theorem Avoids.dropNewlines {marks : List Char} {text : String} (h : Avoids marks text) :
    Avoids ('\n' :: marks) (Line.dropNewlines text) := by
  intro c hc hmem
  obtain ⟨hin, hne⟩ := mem_dropNewlines.mp hmem
  rcases List.mem_cons.mp hc with rfl | hmark
  · exact hne rfl
  · exact h c hmark hin

namespace Line

/-- What a metric line is made of, the options apart. -/
structure Parts where
  name : String
  /-- The texts of the values. -/
  texts : List String
  kind : Kind
  tags : List String := []
  rate : Float := 1.0
  cardinality : Option Cardinality := none
  timestamp : Option Nat := none

namespace Parts

def ofMetric (m : Metric) : Parts where
  name := m.name
  texts := [valueText m.value]
  kind := m.kind
  tags := m.tags
  rate := m.rate
  cardinality := m.cardinality
  timestamp := m.timestamp

def ofBatch (b : Batch) : Parts where
  name := b.context.name
  texts := b.values.map Decimal.ofFloat
  kind := b.kind
  tags := b.context.tags
  rate := b.rate
  cardinality := b.context.cardinality

variable (o : Options) (p : Parts)

/-- The line of some parts. -/
def line : String :=
  header o p.name ++ ":".intercalate p.texts ++
    trailer o p.kind p.tags p.rate p.cardinality p.timestamp

/-- The line of a metric is the line of its parts. -/
theorem line_ofMetric (m : Metric) : (ofMetric m).line o = Line.ofMetric o m := by
  simp [line, ofMetric, Line.ofMetric]

/-- The line of a batch is the line of its parts. -/
theorem line_ofBatch (b : Batch) : (ofBatch b).line o = Line.ofBatch o b := rfl

/-! ## Pieces -/

/-- A field with its mark, if it is there. -/
def piece (mark : List Char) (text : Option (List Char)) : List (List Char) :=
  text.toList.map (mark ++ ·)

/-- The text of the field of the rate. -/
def rateText : Option (List Char) :=
  if p.rate < 1.0 then some (Decimal.ofFloat p.rate).toList else none

/-- The text of the field of tags: the global ones, then the own ones. -/
def tagsText : Option (List Char) :=
  match o.globalTags ++ p.tags with
  | [] => none
  | all => some ([','].intercalate (all.map fun tag => (dropNewlines tag).toList))

def cardinalityText : Option (List Char) :=
  (p.cardinality.or o.cardinality).map (·.name.toList)

/-- What stands between the bars of a line from the third piece on. -/
def fieldPieces : List (List Char) :=
  piece ['@'] p.rateText ++ piece ['#'] (p.tagsText o) ++
    piece ['c', ':'] (o.containerId.map String.toList) ++
    piece ['T'] (p.timestamp.map Decimal.digitChars) ++
    piece ['c', 'a', 'r', 'd', ':'] (p.cardinalityText o)

/-- What stands between the bars of a line. -/
def pieces : List (List Char) :=
  [':'].intercalate ((o.metricNamespace.getD "" ++ p.name).toList :: p.texts.map String.toList) ::
    p.kind.mark.toList :: p.fieldPieces o

theorem toList_field (mark : String) (value : Option String) :
    (field mark value).toList =
      (value.map String.toList).toList.flatMap (mark.toList ++ ·) := by
  cases value <;> simp [field]

theorem flatMap_piece (mark : List Char) (text : Option (List Char)) :
    (piece mark text).flatMap ('|' :: ·) = text.toList.flatMap (('|' :: mark) ++ ·) := by
  cases text <;> simp [piece]

/-- The field of the rate is there if there is a rate to show. -/
theorem toList_rateField :
    (rateField p.rate).toList = (piece ['@'] p.rateText).flatMap ('|' :: ·) := by
  unfold rateField rateText
  split <;> simp [piece]

/-- The field of tags is there if there are any tags, global or own. -/
theorem toList_tagField :
    (o.tagField p.tags).toList = (piece ['#'] (p.tagsText o)).flatMap ('|' :: ·) := by
  unfold Options.tagField tagsText
  cases o.globalTags ++ p.tags <;> simp [piece, String.toList_intercalate, Function.comp_def]

/-- What stands behind the values of a line is the type and the fields, each behind a bar. -/
theorem toList_trailer :
    (trailer o p.kind p.tags p.rate p.cardinality p.timestamp).toList =
      '|' :: p.kind.mark.toList ++ (p.fieldPieces o).flatMap ('|' :: ·) ++ ['\n'] := by
  have htimestamp : (p.timestamp.map Decimal.ofNat).map String.toList =
      p.timestamp.map Decimal.digitChars := by
    cases p.timestamp <;> simp [Decimal.ofNat]
  have hcardinality : ((p.cardinality.or o.cardinality).map Cardinality.name).map String.toList =
      p.cardinalityText o := by
    rw [Option.map_map]
    rfl
  simp only [trailer, fieldPieces, Options.containerField, Options.cardinalityField,
    String.toList_append, List.flatMap_append, toList_rateField, toList_tagField, toList_field,
    htimestamp, hcardinality, flatMap_piece]
  simp

/-- A line is its pieces with bars between them, and a newline. -/
theorem toList_line (hne : p.texts ≠ []) :
    (p.line o).toList = ['|'].intercalate (p.pieces o) ++ ['\n'] := by
  obtain ⟨first, rest, htexts⟩ := List.exists_cons_of_ne_nil hne
  rw [line, String.toList_append, toList_trailer, pieces, intercalate_eq_flatMap, htexts,
    List.map_cons, List.intercalate_cons_cons]
  simp [header, String.toList_intercalate]

end Parts

end Line

/-! ## Parts that do not divide a line -/

/-- The characters that may not occur in a name or in a value. -/
def valueMarks : List Char :=
  [':', '|', '\n']

/-- Options that put nothing on a line by which it would be cut in the wrong place. Newlines are
left out of tags in any case. -/
structure Line.Options.Unambiguous (o : Line.Options) : Prop where
  space : ∀ text ∈ o.metricNamespace, Avoids valueMarks text
  tags : ∀ tag ∈ o.globalTags, Avoids [',', '|'] tag
  container : ∀ id ∈ o.containerId, Avoids ['|', '\n'] id

namespace Line.Parts

/-- Parts that put nothing on a line by which it would be cut in the wrong place. -/
structure Unambiguous (p : Parts) : Prop where
  name : Avoids valueMarks p.name
  texts : ∀ text ∈ p.texts, Avoids valueMarks text
  tags : ∀ tag ∈ p.tags, Avoids [',', '|'] tag

variable {o : Options} {p : Parts}

/-- A field holds no character that neither its mark nor its text holds. -/
theorem not_mem_piece {c : Char} {mark : List Char} {text : Option (List Char)} (hmark : c ∉ mark)
    (htext : ∀ chars ∈ text, c ∉ chars) : ∀ chars ∈ piece mark text, c ∉ chars := by
  intro chars hchars
  obtain ⟨inner, hinner, rfl⟩ := List.mem_map.mp hchars
  rw [List.mem_append, not_or]
  exact ⟨hmark, htext inner (Option.mem_toList.mp hinner)⟩

/-- The name in its namespace holds nothing that neither of the two holds. -/
theorem not_mem_name (ho : o.Unambiguous) (hp : p.Unambiguous) {c : Char} (hc : c ∈ valueMarks) :
    c ∉ (o.metricNamespace.getD "" ++ p.name).toList := by
  rw [String.toList_append, List.mem_append, not_or]
  refine ⟨?_, hp.name c hc⟩
  cases hnamespace : o.metricNamespace with
  | none => exact List.not_mem_nil
  | some text => exact ho.space text hnamespace c hc

/-- The rate on a line holds nothing that divides the line. -/
theorem not_mem_rateText {c : Char} (hc : c ∈ dividers) : ∀ chars ∈ p.rateText, c ∉ chars := by
  intro chars hchars
  obtain ⟨-, rfl⟩ : p.rate < 1.0 ∧ (Decimal.ofFloat p.rate).toList = chars := by
    simpa [rateText] using hchars
  exact avoids_ofFloat p.rate c hc

/-- The tags on a line hold no bar and no newline, as they are separated by commas only. -/
theorem not_mem_tagsText (ho : o.Unambiguous) (hp : p.Unambiguous) {c : Char}
    (hc : c ∈ ['|', '\n']) : ∀ chars ∈ p.tagsText o, c ∉ chars := by
  have hne : c ≠ ',' ∧ c ∈ ['\n', ',', '|'] := by
    simp only [List.mem_cons, List.not_mem_nil, or_false] at hc
    rcases hc with rfl | rfl <;> decide
  intro chars hchars
  unfold tagsText at hchars
  split at hchars
  · cases hchars
  · obtain rfl := Option.some.inj hchars
    refine not_mem_intercalate hne.1 (List.forall_mem_map.mpr fun tag htag => ?_)
    have hplain : Avoids [',', '|'] tag := by
      rcases List.mem_append.mp htag with hglobal | hown
      · exact ho.tags tag hglobal
      · exact hp.tags tag hown
    exact hplain.dropNewlines c hne.2

/-- The cardinality on a line is a plain name. -/
theorem not_mem_cardinalityText {c : Char} (hc : c ∈ ['|', '\n']) :
    ∀ chars ∈ p.cardinalityText o, c ∉ chars := by
  intro chars hchars
  obtain ⟨cardinality, -, rfl⟩ := Option.map_eq_some_iff.mp hchars
  have hname : Avoids ['|', '\n'] cardinality.name := by
    cases cardinality <;> decide
  exact hname c hc

/-- No piece of a line holds a bar or a newline. -/
theorem not_mem_pieces (ho : o.Unambiguous) (hp : p.Unambiguous) {c : Char}
    (hc : c ∈ ['|', '\n']) : ∀ chars ∈ p.pieces o, c ∉ chars := by
  -- No text of a line may hold a bar or a newline, and no field is marked with one.
  have hmarks : c ∈ valueMarks ∧ c ∈ dividers ∧ c ≠ ':' ∧ c ∉ ['@'] ∧ c ∉ ['#'] ∧
      c ∉ ['c', ':'] ∧ c ∉ ['T'] ∧ c ∉ ['c', 'a', 'r', 'd', ':'] := by
    simp only [List.mem_cons, List.not_mem_nil, or_false] at hc
    rcases hc with rfl | rfl <;> decide
  obtain ⟨hvalue, hdivider, hcolon, hrate, htags, hcontainer, htimestamp, hcardinality⟩ := hmarks
  have hhead : c ∉ [':'].intercalate
      ((o.metricNamespace.getD "" ++ p.name).toList :: p.texts.map String.toList) := by
    refine not_mem_intercalate hcolon ?_
    rw [List.forall_mem_cons, List.forall_mem_map]
    exact ⟨not_mem_name ho hp hvalue, fun text htext => hp.texts text htext c hvalue⟩
  have hkind : Avoids ['|', '\n'] p.kind.mark := by
    cases p.kind <;> decide
  have hid : ∀ chars ∈ o.containerId.map String.toList, c ∉ chars := by
    intro chars hchars
    obtain ⟨id, hin, rfl⟩ := Option.map_eq_some_iff.mp hchars
    exact ho.container id hin c hc
  have hdigits : ∀ chars ∈ p.timestamp.map Decimal.digitChars, c ∉ chars := by
    intro chars hchars
    obtain ⟨n, -, rfl⟩ := Option.map_eq_some_iff.mp hchars
    have hplain := avoids_of_allNumber (Decimal.allNumber_digitChars n) c hdivider
    rwa [String.toList_ofList] at hplain
  simp only [pieces, fieldPieces, List.forall_mem_cons, List.forall_mem_append]
  refine ⟨hhead, hkind c hc, ⟨⟨⟨?_, ?_⟩, ?_⟩, ?_⟩, ?_⟩
  · exact not_mem_piece hrate (not_mem_rateText hdivider)
  · exact not_mem_piece htags (not_mem_tagsText ho hp hc)
  · exact not_mem_piece hcontainer hid
  · exact not_mem_piece htimestamp hdigits
  · exact not_mem_piece hcardinality (not_mem_cardinalityText hc)

/-- There is no newline between the pieces of a line, either. -/
theorem newline_not_mem_pieces (ho : o.Unambiguous) (hp : p.Unambiguous) :
    '\n' ∉ ['|'].intercalate (p.pieces o) :=
  not_mem_intercalate (by decide) (not_mem_pieces ho hp (by decide))

end Line.Parts

end DogStatsD
