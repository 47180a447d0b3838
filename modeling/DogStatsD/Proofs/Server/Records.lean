import DogStatsD.Proofs.Payload.History
import DogStatsD.Proofs.Server.Decoding
import DogStatsD.Proofs.Server.Grammar
import DogStatsD.Proofs.Server.Numbers

/-!
# Records Read Back

Whatever writes go into a payload, the strict reading of its lines gives back what was written, as
long as no part holds a character by which the line is cut in the wrong place.

* `Line.Parts.record`: what a line says;
* `Server.readFields?_fieldPieces`, `Server.decodeLine?_pieces`: fields and lines are read back;
* `Server.decode?_join`: so are payloads;
* `Payload.Log`, `Payload.Log.run`: a payload and the parts of the lines written to it;
* `Payload.decode?_ofSteps`: what a server reads after any history.
-/

namespace DogStatsD

open Line (Parts)

/-- A kind is read back from its mark. -/
theorem Kind.ofMark?_mark (kind : Kind) : Kind.ofMark? kind.mark = some kind := by
  cases kind <;> decide

/-- A cardinality is read back from its name. -/
theorem Cardinality.ofName?_name (cardinality : Cardinality) :
    Cardinality.ofName? cardinality.name = some cardinality := by
  cases cardinality <;> decide

/-- What the line of some parts says. -/
def Line.Parts.record (o : Line.Options) (p : Parts) : Server.Record where
  name := o.metricNamespace.getD "" ++ p.name
  values := p.texts
  kind := p.kind
  rate := if p.rate < 1.0 then some (Decimal.ofFloat p.rate) else none
  tags := (o.globalTags ++ p.tags).map Line.dropNewlines
  container := o.containerId
  timestamp := p.timestamp
  cardinality := p.cardinality.or o.cardinality

namespace Server

/-! ## Fields -/

/-- A field that the reading of texts understands is read if it is there. -/
theorem readOptional_map {α β : Type} {read : List Char → Option α} {text : β → List Char}
    {value : β → α} (h : ∀ b, read (text b) = some (value b)) (field : Option β) :
    readOptional read (field.map text) = some (field.map value) := by
  cases field with
  | none => rfl
  | some b => simp [readOptional, h]

/-- The fields of a line are told apart by their marks. -/
theorem readFields?_fieldPieces (o : Line.Options) (p : Parts) :
    readFields? (p.fieldPieces o) = some
      { rate := p.rateText
        tags := p.tagsText o
        container := o.containerId.map String.toList
        timestamp := p.timestamp.map Decimal.digitChars
        cardinality := p.cardinalityText o } := by
  unfold Parts.fieldPieces Parts.piece
  generalize p.rateText = rate
  generalize p.tagsText o = tags
  generalize o.containerId.map String.toList = container
  generalize p.timestamp.map Decimal.digitChars = timestamp
  generalize p.cardinalityText o = cardinality
  -- Any of the fields may be missing.
  cases rate <;> cases tags <;> cases container <;> cases timestamp <;> cases cardinality <;> rfl

/-! ## Lines -/

/-- A line is read back as its record. -/
theorem decodeLine?_pieces {o : Line.Options} {p : Parts} (ho : o.Unambiguous)
    (hp : p.Unambiguous) (hne : p.texts ≠ []) :
    decodeLine? (['|'].intercalate (p.pieces o)) = some (p.record o) := by
  have htimestamp : readOptional readNat? (p.timestamp.map Decimal.digitChars) =
      some (p.timestamp.map id) :=
    readOptional_map readNat?_digitChars p.timestamp
  have hcardinality : readOptional (Cardinality.ofName? ∘ String.ofList) (p.cardinalityText o) =
      some ((p.cardinality.or o.cardinality).map id) :=
    readOptional_map (fun cardinality => by simp [Cardinality.ofName?_name]) _
  have hvalues : (p.texts.map String.toList).isEmpty = false := by simpa using hne
  rw [decodeLine?, cutLine?_pieces ho hp]
  simp only [Option.bind_eq_bind, Option.bind_some, hvalues, Bool.not_false, guard, if_true,
    Option.pure_def, String.ofList_toList, Kind.ofMark?_mark, readFields?_fieldPieces, htimestamp,
    hcardinality, map_ofList_rateText, readTags_tagsText ho hp]
  simp [Parts.record, Function.comp_def]

/-! ## Payloads -/

/-- The lines of a text that begins with one are that one and those of the rest. -/
theorem linesIn?_append {line : List Char} (h : '\n' ∉ line) (rest : List Char) :
    linesIn? (line ++ '\n' :: rest) = (linesIn? rest).map (line :: ·) := by
  unfold linesIn?
  rw [List.splitOn_append_cons_self_of_not_mem h, List.reverse_cons]
  cases hrest : (rest.splitOn '\n').reverse with
  | nil => exact absurd (List.reverse_eq_nil_iff.mp hrest) (List.splitOn_ne_nil _ _)
  | cons last lines => cases last <;> simp

/-- The lines of a payload are those that were written. -/
theorem linesIn?_join {o : Line.Options} (ho : o.Unambiguous) {parts : List Parts}
    (hparts : ∀ p ∈ parts, p.Unambiguous ∧ p.texts ≠ []) :
    linesIn? (String.join (parts.map (Parts.line o))).toList =
      some (parts.map fun p => ['|'].intercalate (p.pieces o)) := by
  induction parts with
  | nil => rfl
  | cons p rest ih =>
    obtain ⟨⟨hp, hne⟩, hrest⟩ := List.forall_mem_cons.mp hparts
    rw [List.map_cons, String.join_cons, String.toList_append, Parts.toList_line o p hne,
      List.append_assoc, List.singleton_append,
      linesIn?_append (Parts.newline_not_mem_pieces ho hp), ih hrest]
    rfl

/-- A payload is read back as the records of its lines. -/
theorem decode?_join {o : Line.Options} (ho : o.Unambiguous) {parts : List Parts}
    (hparts : ∀ p ∈ parts, p.Unambiguous ∧ p.texts ≠ []) :
    decode? (String.join (parts.map (Parts.line o))) = some (parts.map (Parts.record o)) := by
  have hrecords : (parts.map fun p => ['|'].intercalate (p.pieces o)).mapM decodeLine? =
      some (parts.map (Parts.record o)) := by
    induction parts with
    | nil => rfl
    | cons p rest ih =>
      obtain ⟨⟨hp, hne⟩, hrest⟩ := List.forall_mem_cons.mp hparts
      rw [List.map_cons, List.mapM_cons, decodeLine?_pieces ho hp hne, ih hrest]
      rfl
  rw [decode?, linesIn?_join ho hparts]
  exact hrecords

end Server

/-! ## Histories of payloads -/

/-- A metric that puts nothing on a line by which it would be cut in the wrong place. -/
structure Metric.Unambiguous (m : Metric) : Prop where
  name : Avoids valueMarks m.name
  tags : ∀ tag ∈ m.tags, Avoids [',', '|'] tag
  member : ∀ text, m.value = .set text → Avoids [':', '|'] text

/-- The same for what merged metrics have in common. -/
structure Context.Unambiguous (c : Context) : Prop where
  name : Avoids valueMarks c.name
  tags : ∀ tag ∈ c.tags, Avoids [',', '|'] tag

/-- An entry that is a metric, merged or not, and can be read back. -/
def Entry.Unambiguous : Entry → Prop
  | .sample (.metric m) => m.Unambiguous
  | .sample (.event _) | .sample (.serviceCheck _) => False
  | .batch b => b.context.Unambiguous

/-- The value of such a metric does not divide its line. -/
theorem Metric.Unambiguous.valueText {m : Metric} (h : m.Unambiguous) :
    Avoids valueMarks (Line.valueText m.value) := by
  have hsub : valueMarks ⊆ dividers ∧ valueMarks ⊆ ['\n', ':', '|'] := by decide
  cases hvalue : m.value with
  | set text => exact (h.member text hvalue).dropNewlines.mono hsub.2
  | count value => exact (avoids_ofInt _).mono hsub.1
  | gauge value | histogram value | distribution value | timing value =>
    exact (avoids_ofFloat value).mono hsub.1

/-- Such a metric makes parts that do not divide their line. -/
theorem Line.Parts.unambiguous_ofMetric {m : Metric} (h : m.Unambiguous) :
    (ofMetric m).Unambiguous :=
  ⟨h.name, List.forall_mem_singleton.mpr h.valueText, h.tags⟩

/-- So does a batch, whose values are numbers. -/
theorem Line.Parts.unambiguous_ofBatch {b : Batch} (h : b.context.Unambiguous) :
    (ofBatch b).Unambiguous := by
  refine ⟨h.name, ?_, h.tags⟩
  intro text htext
  obtain ⟨value, -, rfl⟩ := List.mem_map.mp htext
  exact (avoids_ofFloat value).mono (by decide)

namespace Payload

/-- What the outcome of writing a metric tells to be on the line. -/
def told : Entry → Except WriteError Nat → Option Parts
  | .sample (.metric m), .ok _ => some (.ofMetric m)
  | .batch b, .ok count | .batch b, .error (.partly count) => some (.ofBatch (b.take count))
  | .sample _, _ | .batch _, .error .full => none

/-- A payload and the parts of the lines written to it since it was last emptied. -/
structure Log where
  payload : Payload
  parts : List Parts := []

namespace Log

/-- Carry out a step, and note what its outcome tells to be on the line. -/
def step (o : Line.Options) (l : Log) : Step → Log
  | .write e =>
    let (outcome, payload) := l.payload.write o e
    { payload, parts := l.parts ++ (told e outcome).toList }
  | .reset => { payload := l.payload.reset }

/-- Carry out steps one after the other. -/
def run (o : Line.Options) (l : Log) (steps : List Step) : Log :=
  steps.foldl (step o) l

/-- The log of some steps from an empty payload. -/
def ofSteps (o : Line.Options) (limits : Limits) (steps : List Step) : Log :=
  run o { payload := { limits } } steps

/-- The payload holds the lines of the parts noted, which can be read back. -/
structure Sound (o : Line.Options) (l : Log) : Prop where
  text_eq : l.payload.text = String.join (l.parts.map (Parts.line o))
  readable : ∀ p ∈ l.parts, p.Unambiguous ∧ p.texts ≠ []

/-- What is noted of a metric is the line written. -/
theorem map_line_told {e : Entry} (h : e.Unambiguous) (o : Line.Options)
    (outcome : Except WriteError Nat) :
    (told e outcome).toList.map (Parts.line o) = written o e outcome := by
  cases e with
  | sample s =>
    cases s with
    | metric m =>
      cases outcome with
      | ok count => exact congrArg (fun line => [line]) (Parts.line_ofMetric o m)
      | error e => rfl
    | event e => exact h.elim
    | serviceCheck c => exact h.elim
  | batch b =>
    match outcome with
    | .ok count | .error (.partly count) =>
      exact congrArg (fun line => [line]) (Parts.line_ofBatch o (b.take count))
    | .error .full => rfl

/-- A batch of which something was written has a first value on the line. -/
theorem take_values_ne_nil {o : Line.Options} {p : Payload} {b : Batch} {count : Nat}
    (h : (p.writeBatch o b).1 = .ok count ∨ (p.writeBatch o b).1 = .error (.partly count)) :
    (b.take count).values ≠ [] := by
  obtain ⟨scratch, hwrite⟩ := writeBatch_eq o p b
  have hle := batchRoom_le_length o p b
  -- The outcome tells the number of values for which there was room.
  have hcount : count = p.batchRoom o b ∧ p.batchRoom o b ≠ 0 := by
    rw [hwrite] at h
    unfold outcome at h
    split_ifs at h with hnone hpart <;> simp_all
  intro hnil
  rcases List.take_eq_nil_iff.mp hnil with hzero | hvalues
  · exact hcount.2 (hcount.1 ▸ hzero)
  · rw [hvalues, List.length_nil] at hle
    exact hcount.2 (Nat.le_zero.mp hle)

/-- What is noted of a write can be read back. -/
theorem readable_told {o : Line.Options} {p : Payload} {e : Entry} (h : e.Unambiguous) :
    ∀ parts ∈ told e (p.write o e).1, parts.Unambiguous ∧ parts.texts ≠ [] := by
  intro parts hparts
  cases e with
  | sample s =>
    cases s with
    | metric m =>
      generalize (p.write o (.sample (.metric m))).1 = outcome at hparts
      cases outcome with
      | ok count =>
        obtain rfl := Option.some.inj hparts
        exact ⟨Parts.unambiguous_ofMetric h, List.cons_ne_nil _ _⟩
      | error e => cases hparts
    | event e => exact h.elim
    | serviceCheck c => exact h.elim
  | batch b =>
    generalize houtcome : (p.write o (.batch b)).1 = outcome at hparts
    match outcome, hparts with
    | .ok count, hparts =>
      obtain rfl := Option.some.inj hparts
      exact ⟨Parts.unambiguous_ofBatch h, fun hnil =>
        take_values_ne_nil (.inl houtcome) (List.map_eq_nil_iff.mp hnil)⟩
    | .error (.partly count), hparts =>
      obtain rfl := Option.some.inj hparts
      exact ⟨Parts.unambiguous_ofBatch h, fun hnil =>
        take_values_ne_nil (.inr houtcome) (List.map_eq_nil_iff.mp hnil)⟩

/-- A step keeps a log sound. -/
theorem Sound.step {o : Line.Options} {l : Log} (hl : l.Sound o) {s : Step}
    (hs : ∀ e, s = .write e → e.Unambiguous) : (l.step o s).Sound o := by
  cases s with
  | reset => exact ⟨rfl, List.forall_mem_nil _⟩
  | write e =>
    have he := hs e rfl
    refine ⟨?_, ?_⟩
    · rw [Log.step, text_write, hl.text_eq, List.map_append, map_line_told he, String.join_append]
    · intro p hp
      rcases List.mem_append.mp hp with hold | hnew
      · exact hl.readable p hold
      · exact readable_told he p (Option.mem_toList.mp hnew)

/-- Steps keep a log sound. -/
theorem Sound.run {o : Line.Options} {l : Log} (hl : l.Sound o) {steps : List Step}
    (hsteps : ∀ e, .write e ∈ steps → e.Unambiguous) : (l.run o steps).Sound o := by
  induction steps generalizing l with
  | nil => exact hl
  | cons s rest ih =>
    refine ih (hl.step fun e he => ?_) fun e he => hsteps e (List.mem_cons_of_mem s he)
    exact hsteps e (he ▸ List.mem_cons_self)

end Log

/-- After any writes of metrics and batches and any resets, a server reads the records of what was
written since the last reset, in order. Payloads with the same text hold the same records. -/
theorem decode?_ofSteps {o : Line.Options} (ho : o.Unambiguous) (limits : Limits)
    (steps : List Step) (hsteps : ∀ e, .write e ∈ steps → e.Unambiguous) :
    Server.decode? (Log.ofSteps o limits steps).payload.text =
      some ((Log.ofSteps o limits steps).parts.map (Parts.record o)) ∧
    ∀ (limits' : Limits) (steps' : List Step), (∀ e, .write e ∈ steps' → e.Unambiguous) →
      (Log.ofSteps o limits' steps').payload.text = (Log.ofSteps o limits steps).payload.text →
        (Log.ofSteps o limits' steps').parts.map (Parts.record o) =
          (Log.ofSteps o limits steps).parts.map (Parts.record o) := by
  have hread (limits : Limits) {steps : List Step}
      (hsteps : ∀ e, .write e ∈ steps → e.Unambiguous) :
      Server.decode? (Log.ofSteps o limits steps).payload.text =
        some ((Log.ofSteps o limits steps).parts.map (Parts.record o)) := by
    have hstart : Log.Sound o { payload := { limits } } := ⟨rfl, List.forall_mem_nil _⟩
    have hsound := hstart.run hsteps
    rw [Log.ofSteps, hsound.text_eq]
    exact Server.decode?_join ho hsound.readable
  refine ⟨hread limits hsteps, ?_⟩
  intro limits' steps' hsteps' htext
  have hrecords := hread limits' hsteps'
  rw [htext, hread limits hsteps] at hrecords
  exact (Option.some.inj hrecords).symm

/-- A member of a set and a batch, in a namespace and with the fields of a client on them. -/
theorem decode?_ofSteps_member_and_batch :
    let o : Line.Options :=
      { metricNamespace := some "app.", globalTags := ["e"], containerId := some "id"
        cardinality := some .low }
    let member : Entry :=
      .metric { name := "m", value := .set "x\ny", tags := ["", "t\n"], rate := 0.5 }
    let batch : Entry :=
      .batch
        { kind := .timing, context := { name := "b", cardinality := some .none }
          values := [1.5, 2.0], rate := 1.0 }
    let steps : List Step := [.write member, .write batch]
    (Log.ofSteps o ⟨80, 2⟩ steps).payload.text =
      "app.m:xy|s|@0.5|#e,,t|c:id|card:low\napp.b:1.5:2|ms|#e|c:id|card:none\n" ∧
    Server.decode? (Log.ofSteps o ⟨80, 2⟩ steps).payload.text =
      some ((Log.ofSteps o ⟨80, 2⟩ steps).parts.map (Parts.record o)) := by
  intro o member batch steps
  have ho : o.Unambiguous := by
    constructor <;> decide
  have hsteps : ∀ e, .write e ∈ steps → e.Unambiguous := by
    intro e he
    simp only [steps, List.mem_cons, Step.write.injEq, List.not_mem_nil, or_false] at he
    rcases he with rfl | rfl
    · exact ⟨by decide, by decide, fun text htext => by cases htext; decide⟩
    · exact ⟨by decide, by decide⟩
  exact ⟨by decide +kernel, (decode?_ofSteps ho ⟨80, 2⟩ steps hsteps).1⟩

end Payload

end DogStatsD
