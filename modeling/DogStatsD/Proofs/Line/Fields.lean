import DogStatsD.Proofs.Line.Messages

/-!
# Fields of Notices

Behind what an event or a service check begins with, there are fields that may each be set or not.
Cut at its bars, this part of the line falls into one piece for each field that is set, and none of
the pieces holds a bar or a newline as long as what was put into them holds none.

* `Line.Marked`: fields with their marks, and `Line.Marked.pieces`, the pieces they make;
* `Line.Marked.Free`: a character occurs in no field;
* `Line.eventFields`, `Line.checkFields`: the fields of an event and of a service check;
* `Line.toList_eventTail`, `Line.toList_ofServiceCheck`: the lines, cut at the bars behind the title
  and the text of an event and at all bars of a service check.
-/

namespace DogStatsD

open Line (Options Parts)

/-! ## Options and notices that do not divide a line -/

/-- Options that put nothing on the line of a notice by which it would be cut in the wrong place. A
namespace is not on this line. -/
structure Line.Options.NoticeUnambiguous (o : Options) : Prop where
  tags : ∀ tag ∈ o.globalTags, Avoids [',', '|'] tag
  container : ∀ id ∈ o.containerId, Avoids ['|', '\n'] id

/-- An event that puts nothing on its line by which it would be cut in the wrong place. Title and
text may hold anything. -/
structure Event.Unambiguous (e : Event) : Prop where
  hostname : ∀ text ∈ e.hostname, Avoids ['|'] text
  aggregationKey : ∀ text ∈ e.aggregationKey, Avoids ['|'] text
  sourceType : ∀ text ∈ e.sourceType, Avoids ['|'] text
  tags : ∀ tag ∈ e.tags, Avoids [',', '|'] tag

/-- A service check that puts nothing on its line by which it would be cut in the wrong place, the
message apart. -/
structure ServiceCheck.Unambiguous (c : ServiceCheck) : Prop where
  name : Avoids ['|'] c.name
  hostname : ∀ text ∈ c.hostname, Avoids ['|'] text
  tags : ∀ tag ∈ c.tags, Avoids [',', '|'] tag

/-- A notice is written without a namespace, so that of the options is as good as none. -/
theorem Line.Options.NoticeUnambiguous.unambiguous {o : Options} (h : o.NoticeUnambiguous) :
    ({ o with metricNamespace := none } : Options).Unambiguous where
  space _ hmem := absurd hmem (by simp)
  tags := h.tags
  container := h.container

namespace Line

/-- The parts of a line that has tags and nothing else. -/
def Parts.ofTags (tags : List String) : Parts where
  name := ""
  texts := []
  kind := .count
  tags := tags

theorem Parts.unambiguous_ofTags {tags : List String} (h : ∀ tag ∈ tags, Avoids [',', '|'] tag) :
    (ofTags tags).Unambiguous :=
  ⟨fun _ _ => List.not_mem_nil, List.forall_mem_nil _, h⟩

/-! ## Fields with marks -/

/-- Fields in their order: the mark of each, and its text if it is set. -/
abbrev Marked := List (List Char × Option (List Char))

namespace Marked

/-- What stands between the bars of a line of fields. -/
def pieces (fields : Marked) : List (List Char) :=
  fields.flatMap fun field => Parts.piece field.1 field.2

/-- A character occurs in none of the marks and none of the texts. -/
structure Free (c : Char) (fields : Marked) : Prop where
  marks : ∀ mark ∈ fields.map Prod.fst, c ∉ mark
  texts : ∀ value ∈ fields.map Prod.snd, ∀ text ∈ value, c ∉ text

/-- A character that occurs in no field occurs in no piece. -/
theorem Free.not_mem_pieces {c : Char} {fields : Marked} (h : Free c fields) :
    ∀ piece ∈ fields.pieces, c ∉ piece := by
  intro piece hpiece
  obtain ⟨field, hfield, hin⟩ := List.mem_flatMap.mp hpiece
  exact Parts.not_mem_piece (h.marks _ (List.mem_map_of_mem hfield))
    (h.texts _ (List.mem_map_of_mem hfield)) piece hin

end Marked

/-- The text of a field that is written without its newlines. -/
def shortText (value : Option String) : Option (List Char) :=
  value.map fun text => (dropNewlines text).toList

/-- The fields of an event. -/
def eventFields (o : Options) (e : Event) : Marked :=
  [(['d', ':'], e.timestamp.map Decimal.digitChars),
    (['h', ':'], shortText e.hostname),
    (['k', ':'], shortText e.aggregationKey),
    (['p', ':'], e.priority.map (·.name.toList)),
    (['s', ':'], shortText e.sourceType),
    (['t', ':'], e.alertType.map (·.name.toList)),
    (['#'], (Parts.ofTags e.tags).tagsText o),
    (['c', ':'], o.containerId.map String.toList)]

/-- The fields of a service check. -/
def checkFields (o : Options) (c : ServiceCheck) : Marked :=
  [(['d', ':'], c.timestamp.map Decimal.digitChars),
    (['h', ':'], shortText c.hostname),
    (['#'], (Parts.ofTags c.tags).tagsText o),
    (['m', ':'], c.message.map fun text => (messageText text).toList),
    (['c', ':'], o.containerId.map String.toList)]

/-! ## Fields that do not divide a line -/

section

variable {o : Options} {c : Char} (hc : c ∈ ['|', '\n'])
include hc

theorem not_mem_digits {n : Option Nat} : ∀ text ∈ n.map Decimal.digitChars, c ∉ text := by
  intro text htext
  obtain ⟨n, -, rfl⟩ := Option.map_eq_some_iff.mp htext
  have hsub : ['|', '\n'] ⊆ dividers := by decide
  have hplain := avoids_of_allNumber (Decimal.allNumber_digitChars n) c (hsub hc)
  rwa [String.toList_ofList] at hplain

theorem not_mem_shortText {value : Option String} (h : ∀ text ∈ value, Avoids ['|'] text) :
    ∀ text ∈ shortText value, c ∉ text := by
  intro text htext
  obtain ⟨given, hgiven, rfl⟩ := Option.map_eq_some_iff.mp htext
  have hsub : ['|', '\n'] ⊆ ['\n', '|'] := by decide
  exact (h given hgiven).dropNewlines c (hsub hc)

theorem not_mem_name {α : Type} {value : Option α} {name : α → String}
    (h : ∀ a, Avoids ['|', '\n'] (name a)) :
    ∀ text ∈ value.map (fun a => (name a).toList), c ∉ text := by
  intro text htext
  obtain ⟨a, -, rfl⟩ := Option.map_eq_some_iff.mp htext
  exact h a c hc

variable (ho : o.NoticeUnambiguous)
include ho

theorem not_mem_tags {tags : List String} (h : ∀ tag ∈ tags, Avoids [',', '|'] tag) :
    ∀ text ∈ (Parts.ofTags tags).tagsText o, c ∉ text :=
  Parts.not_mem_tagsText ho.unambiguous (Parts.unambiguous_ofTags h) hc

theorem not_mem_container : ∀ text ∈ o.containerId.map String.toList, c ∉ text := by
  intro text htext
  obtain ⟨id, hid, rfl⟩ := Option.map_eq_some_iff.mp htext
  exact ho.container id hid c hc

/-- No field of an event holds a bar or a newline. -/
theorem free_eventFields {e : Event} (he : e.Unambiguous) : (eventFields o e).Free c := by
  have hpriority : ∀ priority : Priority, Avoids ['|', '\n'] priority.name := by
    intro priority
    cases priority <;> decide
  have halert : ∀ alert : AlertType, Avoids ['|', '\n'] alert.name := by
    intro alert
    cases alert <;> decide
  constructor
  · simp only [List.mem_cons, List.not_mem_nil, or_false] at hc
    rcases hc with rfl | rfl <;> simp [eventFields]
  · simp only [eventFields, List.map_cons, List.map_nil, List.forall_mem_cons]
    exact ⟨not_mem_digits hc, not_mem_shortText hc he.hostname,
      not_mem_shortText hc he.aggregationKey, not_mem_name hc hpriority,
      not_mem_shortText hc he.sourceType, not_mem_name hc halert, not_mem_tags hc ho he.tags,
      not_mem_container hc ho, List.forall_mem_nil _⟩

/-- Messages have no newlines, and no bars if none was put into them: then no field of a service
check holds any. -/
theorem free_checkFields {check : ServiceCheck} (hcheck : check.Unambiguous)
    (hmessage : ∀ text ∈ check.message, Avoids ['|'] text) : (checkFields o check).Free c := by
  constructor
  · simp only [List.mem_cons, List.not_mem_nil, or_false] at hc
    rcases hc with rfl | rfl <;> simp [checkFields]
  · simp only [checkFields, List.map_cons, List.map_nil, List.forall_mem_cons]
    refine ⟨not_mem_digits hc, not_mem_shortText hc hcheck.hostname,
      not_mem_tags hc ho hcheck.tags, ?_, not_mem_container hc ho, List.forall_mem_nil _⟩
    intro text htext
    obtain ⟨given, hgiven, rfl⟩ := Option.map_eq_some_iff.mp htext
    exact not_mem_messageText hc (hmessage given hgiven)

end

/-! ## Lines -/

theorem toList_ofNat (n : Nat) : (Decimal.ofNat n).toList = Decimal.digitChars n :=
  String.toList_ofList

theorem toList_ownTagField (o : Options) (tags : List String) :
    (o.tagField tags).toList =
      (Parts.piece ['#'] ((Parts.ofTags tags).tagsText o)).flatMap ('|' :: ·) :=
  Parts.toList_tagField o (Parts.ofTags tags)

/-- What stands on an event line behind the text of the event. -/
def eventTail (o : Options) (e : Event) : String :=
  field "|d:" (e.timestamp.map Decimal.ofNat)
    ++ field "|h:" (e.hostname.map dropNewlines)
    ++ field "|k:" (e.aggregationKey.map dropNewlines)
    ++ field "|p:" (e.priority.map Priority.name)
    ++ field "|s:" (e.sourceType.map dropNewlines)
    ++ field "|t:" (e.alertType.map AlertType.name)
    ++ o.tagField e.tags ++ o.containerField ++ "\n"

theorem ofEvent_eq (o : Options) (e : Event) :
    ofEvent o e =
      eventHead e.title e.text ++ escapeNewlines e.title ++ "|" ++ escapeNewlines e.text ++
        eventTail o e := by
  simp only [ofEvent, eventTail, String.append_assoc]

/-- Behind the text of an event, there is its fields with a bar before each, and a newline. -/
theorem toList_eventTail (o : Options) (e : Event) :
    (eventTail o e).toList =
      ['|'].intercalate ([] :: Marked.pieces (eventFields o e)) ++ ['\n'] := by
  rw [intercalate_eq_flatMap]
  simp only [eventTail, Marked.pieces, eventFields, shortText, Options.containerField,
    String.toList_append, List.flatMap_cons, List.flatMap_append, List.flatMap_nil,
    Parts.toList_field, toList_ownTagField, Parts.flatMap_piece, Option.map_map,
    Function.comp_def, toList_ofNat]
  simp

/-- The line of a service check is its name, its status and its fields with bars between them, and a
newline. -/
theorem toList_ofServiceCheck (o : Options) (c : ServiceCheck) :
    (ofServiceCheck o c).toList =
      ['|'].intercalate (['_', 's', 'c'] :: (dropNewlines c.name).toList ::
        c.status.code.toList :: Marked.pieces (checkFields o c)) ++ ['\n'] := by
  rw [intercalate_eq_flatMap]
  simp only [ofServiceCheck, Marked.pieces, checkFields, shortText, Options.containerField,
    String.toList_append, List.flatMap_cons, List.flatMap_append, List.flatMap_nil,
    Parts.toList_field, toList_ownTagField, Parts.flatMap_piece, Option.map_map,
    Function.comp_def, toList_ofNat]
  simp

end Line

end DogStatsD
