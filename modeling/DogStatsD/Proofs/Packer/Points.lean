import DogStatsD.Proofs.Outbox.Wire
import DogStatsD.Proofs.Server.Decoding

/-!
# Points on Their Way

What a packer writes reaches the server: the points on the wire and those in the payload being
filled are, in this order, those that were there before and those of the entries added since. A
batch may go over many lines and payloads, but its points stay together and in order.

* `Entry.points`: the points that an entry stands for;
* `Packer.Passes`: a part of a run passes some points on, unless it counts a loss;
* `Packer.passes_handOver`, `Packer.passes_add`: handing over passes nothing on, adding an entry
  passes its points on.
-/

namespace DogStatsD

open Server

/-! ## Payloads -/

namespace Payload

/-- The text of a payload is made of whole lines, and is empty if it has none. -/
def Whole (p : Payload) : Prop :=
  if p.lines = 0 then p.text = "" else Line.Ended p.text

theorem whole_empty (limits : Limits) : Whole { limits } :=
  rfl

/-- A payload to which a line is appended ends in a whole line. -/
theorem whole_append (p : Payload) {line : String} (hline : Line.Ended line) :
    (p.append line).Whole :=
  hline.append_left p.text

/-- A line behind whole lines brings its points behind theirs. -/
theorem Whole.points_append {p : Payload} (h : p.Whole) (line : String) :
    pointsIn (p.append line).text = pointsIn p.text ++ pointsIn line := by
  unfold Whole at h
  split at h
  · -- Nothing stands before the line.
    show pointsIn (p.text ++ line) = _
    rw [h, String.empty_append]
    rfl
  · exact pointsIn_append h line

/-- A payload without lines has no points. -/
theorem Whole.points_eq_nil {p : Payload} (h : p.Whole) (hlines : p.lines = 0) :
    pointsIn p.text = [] := by
  rw [Whole, if_pos hlines] at h
  rw [h]
  rfl

end Payload

/-! ## Entries -/

/-- A metric shows neither a rate nor a timestamp, and puts nothing on its line that divides it. -/
structure Metric.IsPlain (o : Line.Options) (m : Metric) : Prop where
  /-- The rate is not shown. -/
  rate : ¬m.rate < 1.0
  timestamp : m.timestamp = none
  context : (Context.ofMetric none m).IsPlain o
  member : ∀ member, m.value = .set member → Avoids valueMarks member

/-- A batch shows no rate, and puts nothing on its lines that divides them. -/
structure Batch.IsPlain (o : Line.Options) (b : Batch) : Prop where
  /-- The rate is not shown. -/
  rate : ¬b.rate < 1.0
  context : b.context.IsPlain o

/-- A metric or a batch puts nothing on its lines that divides them. -/
def Entry.IsPlain (o : Line.Options) : Entry → Prop
  | .sample (.metric m) => m.IsPlain o
  | .sample (.event _) | .sample (.serviceCheck _) => False
  | .batch b => b.IsPlain o

/-- The point that a metric stands for. -/
def Metric.point (o : Line.Options) (m : Metric) : Point :=
  (o.keyOf m.kind (Context.ofMetric none m), Line.valueText m.value)

/-- The points that the values of a batch stand for. -/
def Batch.points (o : Line.Options) (b : Batch) : List Point :=
  b.values.map fun value => (o.keyOf b.kind b.context, Decimal.ofFloat value)

/-- The points that an entry stands for. -/
def Entry.points (o : Line.Options) : Entry → List Point
  | .sample (.metric m) => [m.point o]
  | .sample (.event _) | .sample (.serviceCheck _) => []
  | .batch b => b.points o

/-- The points of an entry have its name in its namespace. -/
theorem name_of_mem_points {o : Line.Options} {e : Entry} {point : Point}
    (h : point ∈ e.points o) : point.1.name = o.metricNamespace.getD "" ++ e.routingName := by
  cases e with
  | sample s =>
    cases s with
    | metric m =>
      obtain rfl := List.mem_singleton.mp h
      rfl
    | event | serviceCheck => cases h
  | batch b =>
    obtain ⟨value, -, rfl⟩ := List.mem_map.mp h
    rfl

/-- The value of a plain metric is a plain text. -/
theorem avoids_valueText {o : Line.Options} {m : Metric} (h : m.IsPlain o) :
    Avoids valueMarks (Line.valueText m.value) := by
  have hmember := h.member
  cases hvalue : m.value with
  | count value => exact (avoids_ofInt _).mono (by decide)
  | set member =>
    have havoids := hmember member hvalue
    rw [Line.valueText, dropNewlines_eq_self (havoids.mono (by decide))]
    exact havoids
  | gauge value | histogram value | distribution value | timing value =>
    exact (avoids_ofFloat value).mono (by decide)

/-- The server reads one point off the line of a plain metric. -/
theorem pointsIn_ofMetric {o : Line.Options} {m : Metric} (ho : o.IsPlain) (hm : m.IsPlain o) :
    pointsIn (Line.ofMetric o m) = [m.point o] := by
  have hline : Line.ofMetric o m =
      Line.ofTexts o m.kind (Context.ofMetric none m) m.rate [Line.valueText m.value] := by
    simp [Line.ofMetric, Line.ofTexts, Context.ofMetric, hm.timestamp]
  rw [hline, pointsIn_ofTexts ho hm.context m.kind hm.rate (List.cons_ne_nil _ _)]
  · rfl
  · simpa using avoids_valueText hm

/-- The points of a batch are those of its first values and those of the others. -/
theorem Batch.points_take_append_drop (o : Line.Options) (b : Batch) (count : Nat) :
    (b.take count).points o ++ (b.drop count).points o = b.points o := by
  simp [Batch.points, Batch.take, Batch.drop]

/-- The server reads the points of a plain batch off its line. -/
theorem pointsIn_ofBatch {o : Line.Options} {b : Batch} (ho : o.IsPlain) (hb : b.IsPlain o)
    (hne : b.values ≠ []) : pointsIn (Line.ofBatch o b) = b.points o := by
  have hpoints := pointsIn_ofTexts ho hb.context b.kind hb.rate
    (mt (List.map_eq_nil_iff (f := Decimal.ofFloat)).mp hne) fun text htext => by
      obtain ⟨value, -, rfl⟩ := List.mem_map.mp htext
      exact (avoids_ofFloat value).mono (by decide)
  rw [List.map_map] at hpoints
  exact hpoints

/-! ## Packers -/

/-- The points on the wire. -/
def Outbox.points (o : Outbox Scripted) : List Point :=
  o.wire.flatMap pointsIn

namespace Packer

/-- The points in the payload being filled. -/
def points (p : Packer) : List Point :=
  pointsIn p.current.text

/-- The payload being filled is made of whole lines, under the given settings and limits. -/
structure Ready (options : Line.Options) (limits : Limits) (p : Packer) : Prop where
  options_eq : p.options = options
  limits_eq : p.current.limits = limits
  whole : p.current.Whole

/-- A part of a run leaves packer and outbox in order and passes some points on, unless it counts a
loss: some of the points that were to go are on the wire then, the others in the payload. -/
structure Passes (options : Line.Options) (limits : Limits) (before : Packer × Outbox Scripted)
    (points : List Point) (after : Packer × Outbox Scripted) : Prop where
  ready : after.1.Ready options limits
  clean : after.2.Clean limits
  oversized_le : before.1.oversized ≤ after.1.oversized
  lost_le : before.2.lost ≤ after.2.lost
  /-- Without a loss, no point is missing. -/
  points_eq : after.1.oversized = before.1.oversized → after.2.lost = before.2.lost →
    ∃ gone, after.2.points = before.2.points ++ gone ∧
      gone ++ after.1.points = before.1.points ++ points

variable {options : Line.Options} {limits : Limits} {p : Packer} {o : Outbox Scripted}
  {before after last : Packer × Outbox Scripted} {points more : List Point}

theorem passes_refl (hp : p.Ready options limits) (ho : o.Clean limits) :
    Passes options limits (p, o) [] (p, o) :=
  ⟨hp, ho, Nat.le_refl _, Nat.le_refl _, fun _ _ => ⟨[], by simp⟩⟩

/-- Points that are passed on, and others passed on later, are passed on in that order. -/
theorem Passes.trans (h : Passes options limits before points after)
    (hlast : Passes options limits after more last) :
    Passes options limits before (points ++ more) last := by
  have hover := h.oversized_le
  have hover' := hlast.oversized_le
  have hlost := h.lost_le
  have hlost' := hlast.lost_le
  -- What has gone on the wire in both parts is the front of what was to go.
  refine ⟨hlast.ready, hlast.clean, hover.trans hover', hlost.trans hlost', ?_⟩
  intro heq heq'
  -- Without a loss in the whole, there was none in either part.
  obtain ⟨gone, hwire, hpoints⟩ := h.points_eq (by omega) (by omega)
  obtain ⟨later, hwire', hpoints'⟩ := hlast.points_eq (by omega) (by omega)
  refine ⟨gone ++ later, ?_, ?_⟩
  · rw [hwire', hwire, List.append_assoc]
  · rw [List.append_assoc, hpoints', ← List.append_assoc, hpoints, List.append_assoc]

/-- Handing over passes nothing on: the points in the payload are on the wire then. -/
theorem passes_handOver (hp : p.Ready options limits) (ho : o.Clean limits) :
    Passes options limits (p, o) [] (p.handOver o) := by
  rw [handOver_eq ho]
  by_cases hempty : p.current.lines = 0
  · -- Then nothing is handed over.
    rw [if_pos hempty]
    exact passes_refl hp ho
  · rw [if_neg hempty]
    have htake := Outbox.passes_takeOver ho hp.limits_eq hempty
    refine ⟨⟨hp.options_eq, rfl, Payload.whole_empty limits⟩, htake.clean, Nat.le_refl _,
      htake.lost_le, fun _ heq => ⟨p.points, ?_, rfl⟩⟩
    rw [Outbox.points, htake.wire_eq heq, List.flatMap_append, List.flatMap_singleton]
    rfl

/-- After handing over, nothing is in the payload. -/
theorem points_handOver (hp : p.Ready options limits) (ho : o.Clean limits) :
    (p.handOver o).1.points = [] := by
  rw [handOver_eq ho]
  by_cases hempty : p.current.lines = 0
  · rw [if_pos hempty]
    exact hp.whole.points_eq_nil hempty
  · rw [if_neg hempty]
    rfl

/-- A line that is appended passes its points on. -/
theorem passes_append (hp : p.Ready options limits) (ho : o.Clean limits) {line : String}
    (hline : Line.Ended line) :
    Passes options limits (p, o) (pointsIn line) ({ p with current := p.current.append line }, o) :=
  ⟨⟨hp.options_eq, hp.limits_eq, Payload.whole_append _ hline⟩, ho, Nat.le_refl _, Nat.le_refl _,
    fun _ _ => ⟨[], (List.append_nil _).symm, hp.whole.points_append line⟩⟩

/-- An entry that is dropped is a loss, so that whatever was to be passed on is excused. -/
theorem passes_drop (hp : p.Ready options limits) (ho : o.Clean limits) (points : List Point) :
    Passes options limits (p, o) points (p.drop, o) :=
  ⟨⟨hp.options_eq, hp.limits_eq, hp.whole⟩, ho, Nat.le_succ _, Nat.le_refl _,
    fun heq => absurd heq (Nat.succ_ne_self _)⟩

/-- Adding a sample passes the points of its line on. -/
theorem passes_addSample (hp : p.Ready options limits) (ho : o.Clean limits) (s : Sample) :
    Passes options limits (p, o) (pointsIn (Line.ofSample options s)) (p.addSample o s) := by
  obtain rfl := hp.options_eq
  have hline := Line.ended_ofSample p.options s
  by_cases hroom : p.current.HasRoom (Line.ofSample p.options s)
  · rw [addSample_of_hasRoom hroom]
    exact passes_append hp ho hline
  · have hover := passes_handOver hp ho
    rw [addSample_of_not_hasRoom hroom]
    -- What happens to the sample happens after handing over.
    refine hover.trans ?_
    dsimp only
    split
    · exact passes_append hover.ready hover.clean hline
    · exact passes_drop hover.ready hover.clean _

/-! ## Batches -/

variable {b : Batch}

/-- Writing a batch passes on the points of the values written. -/
theorem passes_writeBatch (hoptions : options.IsPlain) (hp : p.Ready options limits)
    (ho : o.Clean limits) (hb : b.IsPlain options) :
    Passes options limits (p, o) ((b.take (p.current.batchRoom options b)).points options)
      ({ p with current := (p.current.writeBatch options b).2 }, o) := by
  obtain ⟨scratch, hwrite⟩ := Payload.writeBatch_eq options p.current b
  have hle := Payload.batchRoom_le_length options p.current b
  generalize p.current.batchRoom options b = room at hwrite hle ⊢
  rw [hwrite]
  dsimp only
  by_cases hnone : room = 0
  · -- Nothing was written, but the place for trailers may be another.
    subst hnone
    exact ⟨⟨hp.options_eq, hp.limits_eq, hp.whole⟩, ho, Nat.le_refl _, Nat.le_refl _,
      fun _ _ => ⟨[], by simp [Batch.points, Batch.take, Packer.points]⟩⟩
  · rw [if_neg hnone]
    have hvalues : (b.take room).values ≠ [] := by
      rw [← List.length_pos_iff, Batch.take, List.length_take]
      omega
    have hline : pointsIn (Line.ofBatch options (b.take room)) = (b.take room).points options :=
      pointsIn_ofBatch hoptions ⟨hb.rate, hb.context⟩ hvalues
    rw [← hline]
    exact ⟨⟨hp.options_eq, hp.limits_eq, Payload.whole_append _ (Line.ended_ofBatch _ _)⟩, ho,
      Nat.le_refl _, Nat.le_refl _,
      fun _ _ => ⟨[], (List.append_nil _).symm, hp.whole.points_append _⟩⟩

/-- The outcome of writing a batch tells how many values were written. -/
theorem outcome_writeBatch (options : Line.Options) (p : Payload) (b : Batch) :
    (p.writeBatch options b).1 =
      Payload.outcome b.values.length (p.batchRoom options b) := by
  obtain ⟨scratch, hwrite⟩ := Payload.writeBatch_eq options p b
  rw [hwrite]

/-- Writing some values of a batch passes their points on, as many as the outcome tells. -/
theorem passes_addSome (hoptions : options.IsPlain) (hp : p.Ready options limits)
    (ho : o.Clean limits) (hb : b.IsPlain options) :
    ∃ count, (p.addSome o b).1 = Payload.outcome b.values.length count ∧
      Passes options limits (p, o) ((b.take count).points options) (p.addSome o b).2 := by
  obtain rfl := hp.options_eq
  have hwrite := passes_writeBatch hoptions hp ho hb
  have houtcome := outcome_writeBatch p.options p.current b
  unfold addSome
  split
  next current hfull =>
    -- Nothing fits, and nothing was passed on: the values go into the payload that comes next.
    rw [hfull] at hwrite houtcome
    have hnone : p.current.batchRoom p.options b = 0 :=
      Payload.outcome_eq_full_iff.mp houtcome.symm
    have hover := hwrite.trans (passes_handOver hwrite.ready hwrite.clean)
    have hnext := passes_writeBatch hoptions hover.ready hover.clean hb
    have hall := hover.trans hnext
    rw [hnone] at hall
    dsimp only at hall ⊢
    rw [options_handOver] at hall ⊢
    exact ⟨_, outcome_writeBatch _ _ _, hall⟩
  next outcome current hnot hsome =>
    rw [hsome] at hwrite houtcome
    exact ⟨_, houtcome, hwrite⟩

/-- Adding a batch passes its points on, over however many lines and payloads. -/
theorem passes_addBatch (hoptions : options.IsPlain) (hp : p.Ready options limits)
    (ho : o.Clean limits) (hb : b.IsPlain options) :
    Passes options limits (p, o) (b.points options) (p.addBatch o b) := by
  fun_induction addBatch p o b with
  | case1 p o b hnone =>
    rw [Batch.points, hnone]
    exact passes_refl hp ho
  | case2 p o b hne written q oq hsome =>
    -- Every value was written, so that there are no others.
    obtain ⟨count, houtcome, hpass⟩ := passes_addSome hoptions hp ho hb
    rw [hsome] at houtcome hpass
    have hall : b.values.take count = b.values :=
      List.take_of_length_le (Payload.le_of_outcome_eq_ok houtcome.symm)
    rwa [Batch.take, hall] at hpass
  | case3 p o b hne q oq hsome =>
    -- The rest is dropped, and counted.
    obtain ⟨count, -, hpass⟩ := passes_addSome hoptions hp ho hb
    rw [hsome] at hpass
    have hdrop := hpass.trans (passes_drop hpass.ready hpass.clean ((b.drop count).points options))
    rwa [Batch.points_take_append_drop] at hdrop
  | case4 p o b hne written q oq hsome r _ hhand ih =>
    obtain ⟨count, houtcome, hpass⟩ := passes_addSome hoptions hp ho hb
    rw [hsome] at houtcome hpass
    -- The rest goes on with the next payload.
    obtain rfl := Payload.eq_of_outcome_eq_partly houtcome.symm
    have hover := hpass.trans (passes_handOver hpass.ready hpass.clean)
    rw [hhand] at hover
    have hrest := hover.trans (ih hover.ready hover.clean ⟨hb.rate, hb.context⟩)
    rwa [List.append_nil, Batch.points_take_append_drop] at hrest

/-- Adding an entry passes its points on. -/
theorem passes_add (hoptions : options.IsPlain) (hp : p.Ready options limits)
    (ho : o.Clean limits) {e : Entry} (he : e.IsPlain options) :
    Passes options limits (p, o) (e.points options) (p.add o e) := by
  cases e with
  | sample s =>
    cases s with
    | metric m =>
      have hadd := passes_addSample hp ho (.metric m)
      rwa [show Line.ofSample options (.metric m) = Line.ofMetric options m from rfl,
        pointsIn_ofMetric hoptions he] at hadd
    | event | serviceCheck => cases he
  | batch b => exact passes_addBatch hoptions hp ho he

end Packer

end DogStatsD
