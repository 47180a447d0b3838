import DogStatsD.Line.Writer

/-!
# Lines Written in Place

Writing a line behind a text appends exactly the line, whatever the text holds already.

* `putTrailer_eq`, `putHeader_eq`: the parts of a metric line;
* `putSample_eq`: the line of a sample, for each kind of sample.
-/

namespace DogStatsD.Line

/-- An optional field is written as the field behind the text. -/
theorem putField_eq (mark : String) (value : Option String) (text : String) :
    putField mark value text = text ++ field mark value := by
  cases value with
  | none => simp [putField, field]
  | some value => simp [putField, field, String.append_assoc]

/-- After the first tag, tags go on with a comma each. -/
theorem putTags_true (tags : List String) (text : String) :
    putTags true tags text = text ++ String.join (tags.map fun tag => "," ++ dropNewlines tag) := by
  induction tags generalizing text with
  | nil => simp [putTags]
  | cons tag rest ih => simp [putTags, ih, String.append_assoc]

/-- Texts with separators between them are texts with a separator before each but the first. -/
theorem intercalate_cons (separator first : String) (rest : List String) :
    separator.intercalate (first :: rest) = first ++ String.join (rest.map (separator ++ ·)) := by
  induction rest generalizing first with
  | nil => simp
  | cons next rest ih =>
    rw [String.intercalate_cons_cons, ih]
    simp [String.append_assoc]

/-- The field of tags is written as a whole behind the text. -/
theorem putTags_eq (o : Options) (tags : List String) (text : String) :
    putTags false (o.globalTags ++ tags) text = text ++ o.tagField tags := by
  unfold Options.tagField
  cases o.globalTags ++ tags with
  | nil => simp [putTags]
  | cons tag rest =>
    simp only [putTags, putTags_true, List.map_cons, intercalate_cons, List.map_map]
    simp [String.append_assoc, Function.comp_def]

/-- The header of a metric line is written as a whole behind the text. -/
theorem putHeader_eq (o : Options) (name text : String) :
    putHeader o name text = text ++ header o name := by
  unfold putHeader header
  cases o.metricNamespace with
  | none => simp [String.append_assoc]
  | some metricNamespace => simp [String.append_assoc]

/-- The trailer of a metric line is written as a whole behind the text. -/
theorem putTrailer_eq (o : Options) (kind : Kind) (tags : List String) (rate : Float)
    (cardinality : Option Cardinality) (timestamp : Option Nat) (text : String) :
    putTrailer o kind tags rate cardinality timestamp text =
      text ++ trailer o kind tags rate cardinality timestamp := by
  -- The rate is the only field without a helper of its own.
  have hrate (text : String) :
      (if rate < 1.0 then text ++ "|@" ++ Decimal.ofFloat rate else text) =
        text ++ rateField rate := by
    unfold rateField
    split <;> simp [String.append_assoc]
  simp only [putTrailer]
  rw [hrate]
  simp only [putTags_eq, putField_eq, trailer, Options.containerField, Options.cardinalityField,
    String.append_assoc]

/-- The line of a metric sample is written as a whole behind the text. -/
theorem putMetric_eq (o : Options) (m : Metric) (text : String) :
    putMetric o m text = text ++ ofMetric o m := by
  simp only [putMetric, putHeader_eq, putTrailer_eq, ofMetric, String.append_assoc]

/-- The line of an event is written as a whole behind the text. -/
theorem putEvent_eq (o : Options) (e : Event) (text : String) :
    putEvent o e text = text ++ ofEvent o e := by
  simp only [putEvent, putField_eq, putTags_eq, ofEvent, eventHead, Options.containerField,
    String.append_assoc]

/-- The line of a service check is written as a whole behind the text. -/
theorem putServiceCheck_eq (o : Options) (c : ServiceCheck) (text : String) :
    putServiceCheck o c text = text ++ ofServiceCheck o c := by
  simp only [putServiceCheck, putField_eq, putTags_eq, ofServiceCheck, Options.containerField,
    String.append_assoc]

/-- The line of a sample is written as a whole behind the text. -/
theorem putSample_eq (o : Options) (s : Sample) (text : String) :
    putSample o s text = text ++ ofSample o s := by
  cases s with
  | metric m => exact putMetric_eq o m text
  | event e => exact putEvent_eq o e text
  | serviceCheck c => exact putServiceCheck_eq o c text

end DogStatsD.Line
