import DogStatsD.Client.Config
import DogStatsD.Proofs.Aggregator.Points
import DogStatsD.Proofs.Pipeline.Delivery

/-!
# Runs of a Client

One thread of control sends metrics to a client and flushes it, and in between the threads beside it
take their turns: that of the outbox writes payloads, and two others flush the aggregator and the
shards from time to time. Tables have no order of their own, so that a flush may take the entries in
any order.

* `Turn`, `Turn.run`: what happens in a run;
* `Client.Tracks`: what was written and what waits in the aggregator leave the same state with a
  server as everything sent;
* `Client.Tracks.run`, `Client.Tracks.runAll`: whatever happens, a client stays on track.
-/

namespace DogStatsD

open Server

/-- An order to take entries in. -/
structure Reordering where
  order : List Entry → List Entry
  /-- None is lost or doubled. -/
  perm : ∀ entries, (order entries).Perm entries

namespace Client

variable {τ : Type} [Transport τ]

/-- Write out what the aggregator has merged, in some order. -/
def flushAggregatorIn (r : Reordering) (c : Client τ) : Client τ :=
  match c.aggregator with
  | none => c
  | some a =>
    { c with aggregator := some a.flush.2, pipeline := c.pipeline.putAll (r.order a.flush.1) }

/-- Write out everything, what the aggregator has merged in some order, and wait until it is
written. -/
def flushIn (r : Reordering) (c : Client τ) : Except SendError Unit × Client τ :=
  if c.closed then (.error .closed, c)
  else
    let c := c.flushAggregatorIn r
    (.ok (), { c with pipeline := c.pipeline.flush })

/-- In the order in which contexts were first met, this is the flush of the client. -/
theorem flushIn_eq_flush (c : Client τ) : c.flushIn ⟨id, fun _ => .rfl⟩ = c.flush := by
  unfold flushIn flush flushAggregatorIn flushAggregator
  cases c.aggregator <;> rfl

end Client

/-- What happens in a run. -/
inductive Turn where
  | send (metric : Metric)
  | flush (order : Reordering)
  | deliver
  /-- All threads beside the caller catch up. -/
  | catchUp
  /-- It is time to flush the shards. -/
  | handOver
  /-- It is time to flush the aggregator. -/
  | flushAggregator (order : Reordering)

namespace Turn

/-- The metric sent. -/
def sent? : Turn → Option Metric
  | .send m => some m
  | .flush _ | .deliver | .catchUp | .handOver | .flushAggregator _ => none

/-- Take a turn. -/
def run (c : Client Scripted) : Turn → Client Scripted
  | .send m => (c.submit (.metric m)).2
  | .flush order => (c.flushIn order).2
  | .deliver =>
    { c with pipeline := { c.pipeline with outbox := c.pipeline.outbox.deliverNext } }
  | .catchUp => c.catchUp
  | .handOver => { c with pipeline := c.pipeline.handOver }
  | .flushAggregator order => c.flushAggregatorIn order

/-- Take turns one after the other. -/
def runAll (c : Client Scripted) (turns : List Turn) : Client Scripted :=
  turns.foldl run c

end Turn

/-! ## Metrics merged -/

/-- The merge of a metric into a context. -/
def Merge.ofMetric (context : Context) (m : Metric) : Merge :=
  match m.value with
  | .gauge value => .gauge context value
  | .count value => .count context value
  | .set member => .set context member
  | .histogram value => .observation .histogram context value m.rate
  | .distribution value => .observation .distribution context value m.rate
  | .timing value => .observation .timing context value m.rate

section

variable (o : Line.Options) (m : Metric)

theorem kind_ofMetric (context : Context) : (Merge.ofMetric context m).kind = m.kind := by
  unfold Merge.ofMetric Metric.kind
  cases m.value <;> rfl

/-- Wherever the cardinality is resolved, a metric arrives under the same key. -/
theorem point_ofMetric :
    (Merge.ofMetric (Context.ofMetric o.cardinality m) m).point o = m.point o := by
  have hkey (kind : Kind) : o.keyOf kind (Context.ofMetric o.cardinality m) =
      o.keyOf kind (Context.ofMetric none m) := by
    simp [Line.Options.keyOf, Context.ofMetric, Option.or_assoc]
  unfold Merge.ofMetric Metric.point Metric.kind
  cases m.value <;> simp [Merge.point, hkey, Value.kind, Line.valueText]

variable {o m}

theorem isPlain_ofMetric (hm : m.IsPlain o) (hrate : m.rate = 1.0) :
    (Merge.ofMetric (Context.ofMetric o.cardinality m) m).IsPlain o := by
  have hcontext : (Merge.ofMetric (Context.ofMetric o.cardinality m) m).context =
      Context.ofMetric o.cardinality m := by
    unfold Merge.ofMetric
    cases m.value <;> rfl
  refine ⟨?_, ?_, ?_, ?_⟩
  · rw [hcontext]
    exact ⟨hm.context.name, hm.context.tags⟩
  · rw [hcontext]
    simp [Context.IsResolved, Context.ofMetric, Option.or_assoc]
  · intro context member heq
    have hmember := hm.member
    unfold Merge.ofMetric at heq
    cases hvalue : m.value <;> rw [hvalue] at heq <;> cases heq
    exact hmember member hvalue
  · intro kind context value rate heq
    unfold Merge.ofMetric at heq
    cases hvalue : m.value <;> rw [hvalue] at heq <;> cases heq <;> exact ⟨rfl, hrate⟩

/-- An unsampled metric is merged or handed back, and no draw is made. -/
theorem aggregate_eq (a : Aggregator) (d : Draws) (hrate : m.rate = 1.0) :
    a.aggregate d m =
      if a.takes m then
        (none, (Merge.ofMetric (Context.ofMetric a.settings.cardinality m) m).apply a, d)
      else (some m, a, d) := by
  -- A rate of one keeps everything.
  have hkeeps : d.keeps m.rate = (true, d) := by
    rw [hrate]
    exact if_pos (by decide)
  unfold Aggregator.aggregate Merge.ofMetric
  split
  · cases m.value <;> simp [Aggregator.observe, hkeeps, Merge.apply]
  · rfl

end

/-- The client accepts a metric, which is not sampled and puts nothing on its line that divides
it. -/
structure Metric.IsOrdinary (o : Line.Options) (m : Metric) : Prop where
  valid : m.validate = .ok ()
  /-- It is not sampled. -/
  rate : m.rate = 1.0
  plain : m.IsPlain o

/-! ## On track -/

namespace Client

/-- What waits in the aggregator of a client, if it has one. -/
def Pending (options : Line.Options) (merges : List Merge) : Option Aggregator → Prop
  | none => merges = []
  | some a => ∃ settings, a.Holds settings merges ∧ settings.cardinality = options.cardinality ∧
      (settings.extended = true → settings.maxSamples = none) ∧
      ∀ m ∈ merges, m.kind.isReservoir = true → settings.extended = true

/-- A client is open, has written some points and merged some metrics, and what it has written and
merged leaves the same state with a server as what was sent. -/
structure TracksBy (options : Line.Options) (limits : Limits) (written : List Point)
    (merges : List Merge) (sent : List Point) (c : Client Scripted) : Prop where
  opened : c.closed = false
  /-- What was written is delivered. -/
  delivers : c.pipeline.Delivers options limits written
  /-- What was merged waits in the aggregator. -/
  pending : Pending options merges c.aggregator
  plain : ∀ m ∈ merges, m.IsPlain options
  /-- Written and merged, it is as good as sent. -/
  state_eq : State.ofPoints (written ++ merges.map (Merge.point options)) = State.ofPoints sent

/-- A client is on track if it is so by some points and merges. -/
def Tracks (options : Line.Options) (limits : Limits) (sent : List Point) (c : Client Scripted) :
    Prop :=
  ∃ written merges, c.TracksBy options limits written merges sent

variable {options : Line.Options} {limits : Limits} {c : Client Scripted}
  {written sent : List Point} {merges : List Merge}

/-- What changes nothing but the deliveries keeps a client on track. -/
theorem TracksBy.pipeline (h : c.TracksBy options limits written merges sent)
    {later : Pipeline Scripted} (hlater : later.Delivers options limits written) :
    TracksBy options limits written merges sent { c with pipeline := later } :=
  ⟨h.opened, hlater, h.pending, h.plain, h.state_eq⟩

/-- A metric that is not merged is written. It may overtake what waits in the aggregator, since it
is no gauge then. -/
theorem TracksBy.write (h : c.TracksBy options limits written merges sent)
    (hoptions : options.IsPlain) {m : Metric} (hm : m.IsPlain options) (hback : merges = [] ∨
      m.kind.isReservoir = true) :
    TracksBy options limits (written ++ [m.point options]) merges (sent ++ [m.point options])
      { c with pipeline := c.pipeline.put (.metric m) } := by
  have hput : (c.pipeline.put (.metric m)).Delivers options limits (written ++ [m.point options]) :=
    h.delivers.put hoptions (show Entry.IsPlain options (.metric m) from hm)
  refine ⟨h.opened, hput, h.pending, h.plain, ?_⟩
  rw [← ofPoints_append_congr h.state_eq rfl, List.append_assoc, List.append_assoc]
  refine ofPoints_append_congr rfl ?_
  rcases hback with rfl | hreservoir
  · rfl
  · -- The point changes places with those of the merges.
    refine ofPoints_perm List.perm_append_comm ?_
    intro key hkey
    have hkind : m.kind.mark ≠ key.mark := by
      rw [hkey]
      revert hreservoir
      cases m.kind <;> decide
    have hnone : textsAt key [m.point options] = [] :=
      textsAt_eq_nil fun point hpoint heq => hkind (by
        obtain rfl := List.mem_singleton.mp hpoint
        rw [← heq]
        rfl)
    rw [textsAt_append, textsAt_append, hnone, List.append_nil, List.nil_append]

/-- A metric that is merged waits behind the others. -/
theorem TracksBy.merge (h : c.TracksBy options limits written merges sent) {a : Aggregator}
    (ha : c.aggregator = some a) {m : Metric} (hm : m.IsPlain options) (hrate : m.rate = 1.0)
    (htakes : a.takes m = true) :
    let merge := Merge.ofMetric (Context.ofMetric a.settings.cardinality m) m
    TracksBy options limits written (merges ++ [merge]) (sent ++ [m.point options])
      { c with aggregator := some (merge.apply a) } := by
  intro merge
  have hpending := h.pending
  rw [ha] at hpending
  obtain ⟨settings, hholds, hcardinality, hbound, hobserved⟩ := hpending
  -- The aggregator adds the cardinality that the lines would show.
  have hmerge : merge = Merge.ofMetric (Context.ofMetric options.cardinality m) m := by
    rw [← hcardinality, ← hholds.settings_eq]
  refine ⟨h.opened, h.delivers, ⟨settings, hholds.apply merge, hcardinality, hbound, ?_⟩, ?_, ?_⟩
  · intro other hother hreservoir
    rcases List.mem_append.mp hother with hold | hnew
    · exact hobserved other hold hreservoir
    · -- An aggregator takes observations only if it is extended to them.
      obtain rfl := List.mem_singleton.mp hnew
      rw [kind_ofMetric] at hreservoir
      rw [Aggregator.takes, hreservoir, hholds.settings_eq] at htakes
      simpa using (Bool.and_eq_true_iff.mp htakes).2
  · intro other hother
    rcases List.mem_append.mp hother with hold | hnew
    · exact h.plain other hold
    · rw [List.mem_singleton.mp hnew, hmerge]
      exact isPlain_ofMetric hm hrate
  · -- The merge comes last, as what was sent did.
    rw [List.map_append, ← List.append_assoc]
    refine ofPoints_append_congr h.state_eq ?_
    rw [hmerge, List.map_singleton, point_ofMetric]

/-- An accepted metric keeps a client on track. -/
theorem TracksBy.process (h : c.TracksBy options limits written merges sent)
    (hoptions : options.IsPlain) {m : Metric} (hm : m.IsOrdinary options) :
    let merged := c.merge (.metric m)
    match merged with
    | (none, c) => c.Tracks options limits (sent ++ [m.point options])
    | (some sample, c) =>
      Tracks options limits (sent ++ [m.point options])
        { c with pipeline := (c.pipeline.dispatch sample).2 } := by
  have hone : (1.0 : Float) ≤ m.rate := by
    rw [hm.rate]
    decide
  have hdispatch := Pipeline.dispatch_eq_put h.delivers.direct hone
  have hpending := h.pending
  unfold Client.merge
  cases ha : c.aggregator with
  | none =>
    rw [ha] at hpending
    dsimp only
    rw [hdispatch]
    exact ⟨_, _, h.write hoptions hm.plain (.inl hpending)⟩
  | some a =>
    dsimp only
    rw [aggregate_eq a _ hm.rate]
    by_cases htakes : a.takes m = true
    · rw [if_pos htakes]
      exact ⟨_, _, h.merge ha hm.plain hm.rate htakes⟩
    · -- Without a timestamp, only an observation is handed back.
      have hreservoir : m.kind.isReservoir = true := by
        rw [Aggregator.takes, hm.plain.timestamp] at htakes
        by_contra hnone
        simp [hnone] at htakes
      rw [if_neg htakes]
      dsimp only [Option.map_some]
      rw [hdispatch]
      -- The aggregator is put back as it was.
      have hwrite := h.write hoptions hm.plain (.inr hreservoir)
      exact ⟨_, _, hwrite.opened, hwrite.delivers, ha ▸ hwrite.pending, hwrite.plain,
        hwrite.state_eq⟩

/-- Sending a metric keeps a client on track. -/
theorem Tracks.send (h : c.Tracks options limits sent) (hoptions : options.IsPlain) {m : Metric}
    (hm : m.IsOrdinary options) :
    (c.submit (.metric m)).2.Tracks options limits (sent ++ [m.point options]) := by
  obtain ⟨written, merges, h⟩ := h
  have hvalidate : (Sample.metric m).validate = .ok () := hm.valid
  have hcounted : TracksBy options limits written merges sent
      { c with accepted := c.accepted.count (.metric m) } :=
    ⟨h.opened, h.delivers, h.pending, h.plain, h.state_eq⟩
  have hprocess := hcounted.process hoptions hm
  have hopen : ¬c.closed = true := by simp [h.opened]
  -- Nothing turns the sample away, so that it is counted and then merged or dispatched.
  unfold submit
  rw [if_neg hopen, hvalidate]
  dsimp only at hprocess ⊢
  split at hprocess
  next later hmerge =>
    rw [hmerge]
    exact hprocess
  next sample later hmerge =>
    rw [hmerge]
    exact hprocess

/-- Flushing the aggregator writes what was merged. -/
theorem TracksBy.flushAggregatorIn (h : c.TracksBy options limits written merges sent)
    (hoptions : options.IsPlain) (r : Reordering) :
    ∃ written, (c.flushAggregatorIn r).TracksBy options limits written [] sent := by
  have hpending := h.pending
  unfold Client.flushAggregatorIn
  cases ha : c.aggregator with
  | none =>
    rw [ha] at hpending
    obtain rfl := hpending
    exact ⟨written, h⟩
  | some a =>
    rw [ha] at hpending
    obtain ⟨settings, hholds, hcardinality, hbound, hobserved⟩ := hpending
    -- No observation is discarded: there is no bound, or there is no observation.
    have hentries : entriesOf settings.maxSamples merges = entriesOf none merges := by
      by_cases hextended : settings.extended = true
      · rw [hbound hextended]
      · refine entriesOf_bound _ ?_
        intro m hm
        exact Bool.eq_false_iff.mpr (mt (hobserved m hm) hextended)
    -- Whatever the order is, the entries are those of the merges.
    have hperm := (r.perm a.flush.1).trans hholds.flush_perm
    rw [hentries] at hperm
    have hplain : ∀ e ∈ r.order a.flush.1, e.IsPlain options := fun e he =>
      isPlain_entriesOf h.plain e (hperm.mem_iff.mp he)
    have hnext : a.flush.2.Holds settings [] := by
      rw [Aggregator.flush_snd, hholds.settings_eq]
      exact Aggregator.holds_nil settings _
    refine ⟨_, h.opened, h.delivers.putAll hoptions hplain,
      ⟨settings, hnext, hcardinality, hbound, List.forall_mem_nil _⟩, List.forall_mem_nil _, ?_⟩
    rw [List.map_nil, List.append_nil, ← h.state_eq]
    exact ofPoints_append_congr rfl (ofPoints_flushed h.plain hperm)

/-- The points under a key are among those with its name. -/
theorem textsAt_named (key : SeriesKey) (points : List Point) :
    textsAt key (named key.name points) = textsAt key points := by
  unfold textsAt named
  rw [List.filter_filter]
  congr 1
  refine List.filter_congr ?_
  intro point _
  by_cases hkey : point.1 = key <;> simp [hkey]

/-- A flush delivers everything that was sent, unless something is lost. -/
theorem Tracks.flushIn (h : c.Tracks options limits sent) (hoptions : options.IsPlain)
    (r : Reordering) :
    (c.flushIn r).2.Tracks options limits sent ∧
      ((c.flushIn r).2.pipeline.lost = 0 →
        State.ofPayloads (c.flushIn r).2.pipeline.outbox.transport.accepted =
          State.ofPoints sent) := by
  obtain ⟨written, merges, h⟩ := h
  obtain ⟨flushed, hflushed⟩ := h.flushAggregatorIn hoptions r
  obtain ⟨hdelivers, hnamed⟩ := hflushed.delivers.flush
  have hopen : ¬c.closed = true := by simp [h.opened]
  unfold Client.flushIn
  rw [if_neg hopen]
  refine ⟨⟨_, _, hflushed.pipeline hdelivers⟩, ?_⟩
  intro hzero
  -- Points of different names change places on their way, but a key has only one name.
  rw [← hflushed.state_eq, List.map_nil, List.append_nil]
  refine ofPoints_congr ?_
  intro key
  rw [← textsAt_named, hnamed hzero key.name, textsAt_named]

/-- A turn keeps a client on track. -/
theorem Tracks.run (h : c.Tracks options limits sent) (hoptions : options.IsPlain) (turn : Turn)
    (hturn : ∀ m ∈ turn.sent?, m.IsOrdinary options) :
    (turn.run c).Tracks options limits (sent ++ turn.sent?.toList.map (Metric.point options)) := by
  cases turn with
  | send m => exact h.send hoptions (hturn m rfl)
  | flush r => simpa [Turn.sent?, Turn.run] using (h.flushIn hoptions r).1
  | deliver =>
    obtain ⟨written, merges, h⟩ := h
    have hnext := h.delivers.outbox (Outbox.passes_deliverNext h.delivers.clean)
    simpa [Turn.sent?] using ⟨written, merges, h.pipeline hnext⟩
  | catchUp =>
    obtain ⟨written, merges, h⟩ := h
    simpa [Turn.sent?] using ⟨written, merges, h.pipeline h.delivers.catchUp⟩
  | handOver =>
    obtain ⟨written, merges, h⟩ := h
    simpa [Turn.sent?] using ⟨written, merges, h.pipeline h.delivers.handOver.1⟩
  | flushAggregator r =>
    obtain ⟨written, merges, h⟩ := h
    obtain ⟨flushed, hflushed⟩ := h.flushAggregatorIn hoptions r
    simpa [Turn.sent?] using ⟨flushed, [], hflushed⟩

/-- Turns keep a client on track. -/
theorem Tracks.runAll (h : c.Tracks options limits sent) (hoptions : options.IsPlain)
    {turns : List Turn} (hturns : ∀ m ∈ turns.filterMap Turn.sent?, m.IsOrdinary options) :
    (Turn.runAll c turns).Tracks options limits
      (sent ++ (turns.filterMap Turn.sent?).map (Metric.point options)) := by
  induction turns generalizing c sent with
  | nil => simpa [Turn.runAll] using h
  | cons turn rest ih =>
    -- What the first turn sends comes before what the others send.
    have hsent : (turn :: rest).filterMap Turn.sent? =
        turn.sent?.toList ++ rest.filterMap Turn.sent? := by
      cases hturn : turn.sent? <;> simp [hturn]
    rw [hsent] at hturns ⊢
    have hfirst := h.run hoptions turn fun m hm => hturns m (by simp [Option.mem_def.mp hm])
    have hrest := ih hfirst fun m hm => hturns m (List.mem_append_right _ hm)
    rwa [List.append_assoc, ← List.map_append] at hrest

end Client

end DogStatsD
