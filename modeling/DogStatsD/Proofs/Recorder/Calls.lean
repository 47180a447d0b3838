import DogStatsD.Proofs.Aggregator.Singles
import DogStatsD.Proofs.Client.Turns
import DogStatsD.Proofs.Recorder.Updates

/-!
# Calls on a Recorder

An application names counters and gauges and updates them through a recorder, and from time to time
the client of the recorder is flushed. The registries of the recorder outlive a flush, while the
aggregator of the client starts anew.

* `RecorderCall`, `RecorderCall.run`, `RecorderCall.runWindows`: what is asked of a recorder;
* `Client.Waits`: what was reported waits in the aggregator;
* `Recorder.Follows`, `Recorder.Follows.run`: a recorder goes along with the calls;
* `Recorder.Follows.runWindows`: it does so over any windows.
-/

namespace DogStatsD

/-! ## Calls -/

/-- What is asked of a recorder. -/
inductive RecorderCall where
  | counter (use : Use CounterUpdate)
  | gauge (use : Use GaugeUpdate)

namespace RecorderCall

/-- The key that a call names. -/
def key : RecorderCall → Key
  | .counter use => use.key
  | .gauge use => use.key

def counter? : RecorderCall → Option (Use CounterUpdate)
  | .counter use => some use
  | .gauge _ => none

def gauge? : RecorderCall → Option (Use GaugeUpdate)
  | .gauge use => some use
  | .counter _ => none

variable {τ : Type} [Transport τ]

/-- Carry out a call. -/
def run (r : Recorder τ) : RecorderCall → Recorder τ
  | .counter ⟨key, none⟩ => r.registerCounter key
  | .counter ⟨key, some (.increment n)⟩ => r.incrementCounter key n
  | .counter ⟨key, some (.setTotal total)⟩ => r.setCounter key total
  | .gauge ⟨key, none⟩ => r.registerGauge key
  | .gauge ⟨key, some (.set value)⟩ => r.setGauge key value
  | .gauge ⟨key, some (.increment value)⟩ => r.incrementGauge key value
  | .gauge ⟨key, some (.decrement value)⟩ => r.decrementGauge key value

/-- Carry out calls one after the other. -/
def runAll (r : Recorder τ) (calls : List RecorderCall) : Recorder τ :=
  calls.foldl run r

/-- Carry out the calls of a window and flush the client at its end. -/
def runWindow (r : Recorder τ) (window : List RecorderCall) : Recorder τ :=
  let r := runAll r window
  { r with client := r.client.flush.2 }

/-- Carry out windows one after the other. -/
def runWindows (r : Recorder τ) (windows : List (List RecorderCall)) : Recorder τ :=
  windows.foldl runWindow r

end RecorderCall

/-! ## Waiting reports -/

/-- A client accepts what is reported under a key, unless the name is empty. -/
theorem Key.validate_metric {key : Key} (h : key.name ≠ "") (value : Value) :
    (key.metric value).validate = .ok () := by
  have hname : (key.metric value).name ≠ "" := h
  have hrate : validRate (key.metric value).rate = true := by
    show validRate 1.0 = true
    decide
  rw [Metric.validate, if_neg hname, hrate]
  rfl

namespace Client

variable {τ : Type}

/-- A client is open, and its aggregator has merged what waits to be flushed. -/
structure Waits (settings : AggregatorSettings) (merges : List Merge) (c : Client τ) : Prop where
  opened : c.closed = false
  holds : ∃ a, c.aggregator = some a ∧ a.Holds settings merges

variable [Transport τ] {c : Client τ} {settings : AggregatorSettings} {merges : List Merge}

/-- What is reported under a key is merged into the context of the key. -/
theorem Waits.send (h : c.Waits settings merges) {key : Key} (hname : key.name ≠ "") {value : Value}
    (hkind : value.kind.isReservoir = false) :
    (c.send (.metric (key.metric value))).2.Waits settings
      (merges ++ [Merge.ofMetric (key.context settings.cardinality) (key.metric value)]) := by
  obtain ⟨hopen, a, ha, hholds⟩ := h
  have hvalidate : (Sample.metric (key.metric value)).validate = .ok () :=
    Key.validate_metric hname value
  -- Without a timestamp, and as no observation, the metric is merged whatever the settings.
  have htakes : a.takes (key.metric value) = true := by
    have hmetric : (key.metric value).kind.isReservoir = false := hkind
    rw [Aggregator.takes, hmetric]
    rfl
  have hcontext : Context.ofMetric a.settings.cardinality (key.metric value) =
      key.context settings.cardinality := by
    rw [hholds.settings_eq]
    rfl
  have haggregate (d : Draws) := aggregate_eq (m := key.metric value) a d rfl
  have hnotClosed : ¬c.closed = true := by simp [hopen]
  unfold Client.send submit
  rw [if_neg hnotClosed, hvalidate]
  simp only [merge, ha, haggregate, if_pos htakes, Option.map_none, catchUp, hcontext]
  exact ⟨hopen, _, rfl, hholds.apply _⟩

/-- A flush succeeds, and what waited goes to the pipeline. -/
theorem Waits.flush (h : c.Waits settings merges) :
    c.flush.2.Waits settings [] ∧ ∃ a, c.aggregator = some a ∧ a.Holds settings merges ∧
      c.flush = (.ok (), { c with
        aggregator := some a.flush.2
        pipeline := (c.pipeline.putAll a.flush.1).flush }) := by
  obtain ⟨hopen, a, ha, hholds⟩ := h
  have hnotClosed : ¬c.closed = true := by simp [hopen]
  have hflush : c.flush = (.ok (), { c with
      aggregator := some a.flush.2
      pipeline := (c.pipeline.putAll a.flush.1).flush }) := by
    unfold Client.flush flushAggregator
    rw [if_neg hnotClosed, ha]
  have hempty : a.flush.2.Holds settings [] := by
    rw [Aggregator.flush_snd, hholds.settings_eq]
    exact Aggregator.holds_nil settings _
  refine ⟨?_, a, ha, hholds, hflush⟩
  rw [hflush]
  exact ⟨hopen, _, rfl, hempty⟩

end Client

/-! ## What calls report -/

/-- What is merged of a call after earlier ones. -/
def RecorderCall.merge? (cardinality : Option Cardinality) (before : List RecorderCall) :
    RecorderCall → Option Merge
  | .counter use =>
    (reportOf Counter.report (before.filterMap RecorderCall.counter?) use).map fun (key, n) =>
      .count (key.context cardinality) n
  | .gauge use =>
    (reportOf gaugeReport (before.filterMap RecorderCall.gauge?) use).map fun (key, value) =>
      .gauge (key.context cardinality) value

/-- What is merged of calls. -/
def mergesOf (cardinality : Option Cardinality) (before : List RecorderCall) :
    List RecorderCall → List Merge
  | [] => []
  | call :: rest =>
    (call.merge? cardinality before).toList ++ mergesOf cardinality (before ++ [call]) rest

section

variable (cardinality : Option Cardinality) (before calls : List RecorderCall)

theorem mergesOf_concat (call : RecorderCall) :
    mergesOf cardinality before (calls ++ [call]) =
      mergesOf cardinality before calls ++
        (call.merge? cardinality (before ++ calls)).toList := by
  induction calls generalizing before with
  | nil => simp [mergesOf]
  | cons first rest ih => simp [mergesOf, ih]

/-- The counts merged are the reports of counters. -/
theorem counts_mergesOf :
    (mergesOf cardinality before calls).filterMap Merge.count? =
      byContext cardinality (reportsOf Counter.report (before.filterMap RecorderCall.counter?)
        (calls.filterMap RecorderCall.counter?)) := by
  induction calls generalizing before with
  | nil => rfl
  | cons call rest ih =>
    rw [mergesOf, List.filterMap_append, ih]
    cases call with
    | counter use =>
      cases hreport : reportOf Counter.report (before.filterMap RecorderCall.counter?) use <;>
        simp [RecorderCall.merge?, RecorderCall.counter?, reportsOf, byContext, Merge.count?,
          hreport]
    | gauge use =>
      cases hreport : reportOf gaugeReport (before.filterMap RecorderCall.gauge?) use <;>
        simp [List.filterMap_cons, RecorderCall.merge?, RecorderCall.counter?, Merge.count?,
          hreport]

/-- The gauges merged are the reports of gauges. -/
theorem gauges_mergesOf :
    (mergesOf cardinality before calls).filterMap Merge.gauge? =
      byContext cardinality (reportsOf gaugeReport (before.filterMap RecorderCall.gauge?)
        (calls.filterMap RecorderCall.gauge?)) := by
  induction calls generalizing before with
  | nil => rfl
  | cons call rest ih =>
    rw [mergesOf, List.filterMap_append, ih]
    cases call with
    | counter use =>
      cases hreport : reportOf Counter.report (before.filterMap RecorderCall.counter?) use <;>
        simp [List.filterMap_cons, RecorderCall.merge?, RecorderCall.gauge?, Merge.gauge?, hreport]
    | gauge use =>
      cases hreport : reportOf gaugeReport (before.filterMap RecorderCall.gauge?) use <;>
        simp [RecorderCall.merge?, RecorderCall.gauge?, reportsOf, byContext, Merge.gauge?, hreport]

/-- Nothing else is merged. -/
theorem isSome_of_mem_mergesOf {m : Merge} (h : m ∈ mergesOf cardinality before calls) :
    m.count?.isSome = true ∨ m.gauge?.isSome = true := by
  induction calls generalizing before with
  | nil => cases h
  | cons call rest ih =>
    rcases List.mem_append.mp h with hfirst | hrest
    · rw [Option.mem_toList] at hfirst
      cases call with
      | counter use =>
        obtain ⟨_, -, rfl⟩ := Option.map_eq_some_iff.mp hfirst
        exact .inl rfl
      | gauge use =>
        obtain ⟨_, -, rfl⟩ := Option.map_eq_some_iff.mp hfirst
        exact .inr rfl
    · exact ih _ hrest

end

/-! ## Recorders and calls -/

namespace Recorder

variable {τ : Type}

/-- A recorder has carried out earlier calls and those of the open window. -/
structure Follows (settings : AggregatorSettings) (earlier window : List RecorderCall)
    (r : Recorder τ) : Prop where
  counters : r.counters.Follows Counter.after ((earlier ++ window).filterMap RecorderCall.counter?)
  gauges : r.gauges.Follows gaugeAfter ((earlier ++ window).filterMap RecorderCall.gauge?)
  /-- What the window has reported waits in the aggregator. -/
  waits : r.client.Waits settings (mergesOf settings.cardinality earlier window)

variable [Transport τ] {r : Recorder τ} {settings : AggregatorSettings}
  {earlier window : List RecorderCall}

/-- Report a value, if there is one. -/
def reportAny (r : Recorder τ) (key : Key) : Option Value → Recorder τ
  | none => r
  | some value => r.report key value

@[simp]
theorem counters_reportAny (key : Key) (value? : Option Value) :
    (r.reportAny key value?).counters = r.counters := by
  cases value? <;> rfl

@[simp]
theorem gauges_reportAny (key : Key) (value? : Option Value) :
    (r.reportAny key value?).gauges = r.gauges := by
  cases value? <;> rfl

/-- What is reported under a key waits with the rest. -/
theorem waits_reportAny {merges : List Merge} (h : r.client.Waits settings merges) {key : Key}
    (hname : key.name ≠ "") {value? : Option Value}
    (hkind : ∀ value ∈ value?, value.kind.isReservoir = false) {merge? : Option Merge}
    (hmerge : merge? = value?.map fun value =>
      Merge.ofMetric (key.context settings.cardinality) (key.metric value)) :
    (r.reportAny key value?).client.Waits settings (merges ++ merge?.toList) := by
  cases value? with
  | none => simpa [reportAny, hmerge] using h
  | some value => simpa [reportAny, report, hmerge] using h.send hname (hkind value rfl)

/-- A call on a counter puts it back in the state of its updates, under its first key, and reports
what it has grown by. -/
theorem Follows.run_counter (h : r.Follows settings earlier window) (use : Use CounterUpdate) :
    let uses := (earlier ++ window).filterMap RecorderCall.counter?
    let first := firstNamed uses use.key
    let before := updatesOf uses use.key
    RecorderCall.run r (.counter use) =
      { r with
        counters := r.counters.put first (Counter.after (before ++ use.update?.toList)) }.reportAny
          first ((use.update?.bind (Counter.report before)).map .count) := by
  intro uses first before
  have hfind : r.counters.find use.key {} = (first, Counter.after before) := h.counters use.key
  obtain ⟨key, update?⟩ := use
  rcases update? with _ | n | total
  · simp only [RecorderCall.run, registerCounter, hfind, Option.toList_none, List.append_nil]
    rfl
  · simp only [RecorderCall.run, incrementCounter, hfind, Option.toList_some, Counter.after_concat]
    rfl
  · -- A total may report nothing, but the counter is put back all the same.
    simp only [RecorderCall.run, setCounter, hfind, Option.toList_some, Counter.after_concat]
    have hgrown : Counter.report before (.setTotal total) =
        ((Counter.after before).setTotal total).1 := rfl
    simp only [Option.bind_some, hgrown]
    cases ((Counter.after before).setTotal total).1 <;> rfl

/-- A call on a gauge puts it back in the state of its updates, under its first key, and reports
that. -/
theorem Follows.run_gauge (h : r.Follows settings earlier window) (use : Use GaugeUpdate) :
    let uses := (earlier ++ window).filterMap RecorderCall.gauge?
    let first := firstNamed uses use.key
    let before := updatesOf uses use.key
    RecorderCall.run r (.gauge use) =
      { r with gauges := r.gauges.put first (gaugeAfter (before ++ use.update?.toList)) }.reportAny
        first ((use.update?.bind (gaugeReport before)).map .gauge) := by
  intro uses first before
  have hfind : r.gauges.find use.key 0.0 = (first, gaugeAfter before) := h.gauges use.key
  have hafter (update : GaugeUpdate) :
      gaugeAfter (before ++ [update]) = update.apply (gaugeAfter before) := by
    simp [gaugeAfter]
  obtain ⟨key, update?⟩ := use
  rcases update? with _ | update
  · simp only [RecorderCall.run, registerGauge, hfind, Option.toList_none, List.append_nil]
    rfl
  · have hreport : gaugeReport before update = some (update.apply (gaugeAfter before)) :=
      congrArg some (hafter update)
    simp only [Option.toList_some, Option.bind_some, hafter, hreport]
    cases update <;> simp only [RecorderCall.run, setGauge, incrementGauge, decrementGauge,
      updateGauge, hfind] <;> rfl

/-- What is kept of a call comes after what is kept of the others. -/
theorem filterMap_concat {β : Type} (keep : RecorderCall → Option β)
    (earlier window : List RecorderCall) (call : RecorderCall) :
    (earlier ++ (window ++ [call])).filterMap keep =
      (earlier ++ window).filterMap keep ++ (keep call).toList := by
  rw [← List.append_assoc, List.filterMap_append]
  cases hkeep : keep call <;> simp [hkeep]

/-- A call keeps a recorder with the calls. -/
theorem Follows.run (h : r.Follows settings earlier window) {call : RecorderCall}
    (hname : call.key.name ≠ "") : (call.run r).Follows settings earlier (window ++ [call]) := by
  -- The first key of an instrument has the name of all of them.
  have hfirst {υ : Type} (uses : List (Use υ)) : (firstNamed uses call.key).name ≠ "" := by
    rw [(Key.same_iff.mp (firstNamed_same uses call.key)).1]
    exact hname
  cases call with
  | counter use =>
    rw [h.run_counter use]
    refine ⟨?_, ?_, ?_⟩
    · rw [counters_reportAny, filterMap_concat]
      exact h.counters.use use rfl
    · -- Gauges see nothing of the call.
      rw [gauges_reportAny, filterMap_concat]
      simpa [RecorderCall.gauge?] using h.gauges
    · rw [mergesOf_concat]
      refine waits_reportAny ?_ (hfirst _) ?_ ?_
      · exact h.waits
      · intro value hvalue
        obtain ⟨n, -, rfl⟩ := Option.mem_map.mp hvalue
        rfl
      · rw [RecorderCall.merge?, reportOf, Option.map_map, Option.map_map]
        rfl
  | gauge use =>
    rw [h.run_gauge use]
    refine ⟨?_, ?_, ?_⟩
    · -- Counters see nothing of the call.
      rw [counters_reportAny, filterMap_concat]
      simpa [RecorderCall.counter?] using h.counters
    · rw [gauges_reportAny, filterMap_concat]
      exact h.gauges.use use rfl
    · rw [mergesOf_concat]
      refine waits_reportAny ?_ (hfirst _) ?_ ?_
      · exact h.waits
      · intro value hvalue
        obtain ⟨x, -, rfl⟩ := Option.mem_map.mp hvalue
        rfl
      · rw [RecorderCall.merge?, reportOf, Option.map_map, Option.map_map]
        rfl

/-- Calls keep a recorder with the calls. -/
theorem Follows.runAll (h : r.Follows settings earlier window) {calls : List RecorderCall}
    (hnames : ∀ call ∈ calls, call.key.name ≠ "") :
    (RecorderCall.runAll r calls).Follows settings earlier (window ++ calls) := by
  induction calls generalizing r window with
  | nil => simpa [RecorderCall.runAll] using h
  | cons call rest ih =>
    have hfirst := h.run (hnames call List.mem_cons_self)
    have hrest := ih hfirst fun c hc => hnames c (List.mem_cons_of_mem _ hc)
    rwa [List.append_assoc, List.singleton_append] at hrest

/-- A flush closes the window, and the registries stay. -/
theorem Follows.flush (h : r.Follows settings earlier window) :
    Follows settings (earlier ++ window) [] { r with client := r.client.flush.2 } := by
  refine ⟨?_, ?_, h.waits.flush.1⟩
  · rw [List.append_nil]
    exact h.counters
  · rw [List.append_nil]
    exact h.gauges

/-- Windows keep a recorder with the calls. -/
theorem Follows.runWindows (h : r.Follows settings earlier []) {windows : List (List RecorderCall)}
    (hnames : ∀ call ∈ windows.flatten, call.key.name ≠ "") :
    (RecorderCall.runWindows r windows).Follows settings (earlier ++ windows.flatten) [] := by
  induction windows generalizing r earlier with
  | nil => simpa [RecorderCall.runWindows] using h
  | cons window rest ih =>
    rw [List.flatten_cons] at hnames ⊢
    have hwindow := (h.runAll fun c hc => hnames c (List.mem_append_left _ hc)).flush
    have hrest := ih hwindow fun c hc => hnames c (List.mem_append_right _ hc)
    rwa [List.nil_append, List.append_assoc] at hrest

end Recorder

end DogStatsD
