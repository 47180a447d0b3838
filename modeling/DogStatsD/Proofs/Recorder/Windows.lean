import DogStatsD.Proofs.Client.Start
import DogStatsD.Proofs.Recorder.Calls
import DogStatsD.Transport.Scripted

/-!
# What Is Flushed of Counters and Gauges

A window ends when the client of a recorder is flushed. What the aggregator then gives back of a
counter is the sum of what it has grown by in the window, and of a gauge its value, which all
updates so far have made. Each growth is capped at the largest count; their sum is not, and wraps
around.

* `Recorder.follows_start`: a new recorder goes along with no calls;
* `flush_gives_updates`: what is flushed after any windows;
* `flushed_total_wraps`: where the sum of a counter is as large as it should be.
-/

namespace DogStatsD

/-! ## Reports in a window -/

/-- What a counter grows by in a window after earlier calls. -/
def growthsIn (earlier window : List RecorderCall) (key : Key) : List ℕ :=
  growths (updatesOf (earlier.filterMap RecorderCall.counter?) key).getLast?
    (updatesOf (window.filterMap RecorderCall.counter?) key)

/-- The updates of a gauge. -/
def gaugeUpdates (calls : List RecorderCall) (key : Key) : List GaugeUpdate :=
  updatesOf (calls.filterMap RecorderCall.gauge?) key

/-- The context that a counter reports to. -/
def counterContext (cardinality : Option Cardinality) (calls : List RecorderCall) (key : Key) :
    Context :=
  (firstNamed (calls.filterMap RecorderCall.counter?) key).context cardinality

/-- The context that a gauge reports to. -/
def gaugeContext (cardinality : Option Cardinality) (calls : List RecorderCall) (key : Key) :
    Context :=
  (firstNamed (calls.filterMap RecorderCall.gauge?) key).context cardinality

section

variable {a : Aggregator} {settings : AggregatorSettings} {earlier window : List RecorderCall}
  {key : Key}

/-- The total of a counter is flushed if it has grown. -/
theorem counts_flush (h : a.Holds settings (mergesOf settings.cardinality earlier window))
    (hdistinct : Distinguishable ((earlier ++ window).filterMap RecorderCall.counter?))
    (hnamed : IsNamed ((earlier ++ window).filterMap RecorderCall.counter?) key) :
    let context := counterContext settings.cardinality (earlier ++ window) key
    let grown := growthsIn earlier window key
    metricsFor .count context a.flush.1 =
      if grown = [] then []
      else [context.metric (.count (Int64.ofNat (grown.map capped).sum))] := by
  intro context grown
  -- Under the context of a counter stand the reports of this counter alone, which are its growths.
  have hitems : itemsOf ((mergesOf settings.cardinality earlier window).filterMap Merge.count?)
      context = grown.map fun n => Int64.ofNat (capped n) := by
    rw [counts_mergesOf]
    simp only [context, counterContext, List.filterMap_append] at hdistinct hnamed ⊢
    exact (itemsOf_reportsOf settings.cardinality hdistinct hnamed).trans
      (Counter.reportsAfter_report _ _)
  have hflush := h.counts_flush context
  simpa only [hitems, sumOf_capped, List.map_eq_nil_iff] using hflush

/-- The value of a gauge is flushed if it was updated. -/
theorem gauges_flush (h : a.Holds settings (mergesOf settings.cardinality earlier window))
    (hdistinct : Distinguishable ((earlier ++ window).filterMap RecorderCall.gauge?))
    (hnamed : IsNamed ((earlier ++ window).filterMap RecorderCall.gauge?) key) :
    let context := gaugeContext settings.cardinality (earlier ++ window) key
    metricsFor .gauge context a.flush.1 =
      if gaugeUpdates window key = [] then []
      else [context.metric (.gauge (gaugeAfter (gaugeUpdates (earlier ++ window) key)))] := by
  intro context
  -- The reports of this window are all that was merged since the flush before.
  have hitems : itemsOf ((mergesOf settings.cardinality earlier window).filterMap Merge.gauge?)
      context = reportsAfter gaugeReport (gaugeUpdates earlier key) (gaugeUpdates window key) := by
    rw [gauges_mergesOf]
    simp only [context, gaugeContext, List.filterMap_append] at hdistinct hnamed ⊢
    exact itemsOf_reportsOf settings.cardinality hdistinct hnamed
  have hupdates : gaugeUpdates (earlier ++ window) key =
      gaugeUpdates earlier key ++ gaugeUpdates window key := by
    rw [gaugeUpdates, List.filterMap_append, updatesOf_append]
    rfl
  -- The aggregator keeps the last report, which tells of the updates of earlier windows too.
  have hflush := h.gauges_flush context
  simp only [hitems, gaugeReports_eq_nil] at hflush
  rw [hflush, hupdates]
  split
  · rfl
  next hupdated => rw [lastOf_gaugeReports _ hupdated]

/-- All that is flushed belongs to a counter or a gauge that was named. -/
theorem mem_flush (h : a.Holds settings (mergesOf settings.cardinality earlier window)) {e : Entry}
    (he : e ∈ a.flush.1) :
    (∃ key total, IsNamed ((earlier ++ window).filterMap RecorderCall.counter?) key ∧
      e = .metric ((counterContext settings.cardinality (earlier ++ window) key).metric
        (.count total))) ∨
    ∃ key value, IsNamed ((earlier ++ window).filterMap RecorderCall.gauge?) key ∧
      e = .metric ((gaugeContext settings.cardinality (earlier ++ window) key).metric
        (.gauge value)) := by
  have hmem := h.mem_flush (fun m hm => isSome_of_mem_mergesOf _ _ _ hm) he
  rw [counts_mergesOf, gauges_mergesOf] at hmem
  rcases hmem with ⟨context, hcontext, total, rfl⟩ | ⟨context, hcontext, value, rfl⟩
  · obtain ⟨key, hnamed, rfl⟩ := exists_of_mem_byContext hcontext
    rw [← List.filterMap_append] at hnamed ⊢
    exact .inl ⟨key, total, hnamed, rfl⟩
  · obtain ⟨key, hnamed, rfl⟩ := exists_of_mem_byContext hcontext
    rw [← List.filterMap_append] at hnamed ⊢
    exact .inr ⟨key, value, hnamed, rfl⟩

end

/-! ## Recorders -/

section

variable {τ : Type} [Transport τ]

/-- A new recorder goes along with no calls. -/
theorem Recorder.follows_start {c : Config} (haggregation : c.aggregation = true) {transport : τ}
    {route : String → Nat} {draws : Draws} {client : Client τ}
    (hbuild : c.buildWith transport route draws = .ok client) :
    Follows ⟨c.extendedAggregation, c.maxSamples, c.options.cardinality⟩ [] []
      (ofClient c client) := by
  obtain ⟨-, later, -, rfl⟩ := Config.eq_of_buildWith hbuild
  refine ⟨Registry.follows_nil _, Registry.follows_nil _, rfl, _, if_pos haggregation, ?_⟩
  exact Aggregator.holds_nil _ _

/-- What waits after any windows, and what a flush does with it. -/
theorem Recorder.exists_flush {c : Config} (haggregation : c.aggregation = true) {transport : τ}
    {route : String → Nat} {draws : Draws} {client : Client τ}
    (hbuild : c.buildWith transport route draws = .ok client) (earlier : List (List RecorderCall))
    (window : List RecorderCall) (hnames : ∀ call ∈ earlier.flatten ++ window, call.key.name ≠ "") :
    let start := ofClient c client
    let last := (RecorderCall.runAll (RecorderCall.runWindows start earlier) window).client
    ∃ a, last.aggregator = some a ∧
      last.flush = (.ok (), { last with
        aggregator := some a.flush.2
        pipeline := (last.pipeline.putAll a.flush.1).flush }) ∧
      a.Holds ⟨c.extendedAggregation, c.maxSamples, c.options.cardinality⟩
        (mergesOf c.options.cardinality earlier.flatten window) := by
  -- The windows before leave nothing waiting; the calls since then are followed one by one.
  intro start last
  have hstart := Recorder.follows_start haggregation hbuild
  have hearlier := hstart.runWindows fun call hmem => hnames call (List.mem_append_left _ hmem)
  have hwindow := hearlier.runAll fun call hmem => hnames call (List.mem_append_right _ hmem)
  obtain ⟨-, a, ha, hholds, hflush⟩ := hwindow.waits.flush
  exact ⟨a, ha, hflush, hholds⟩

/-- After any windows of calls on a new recorder whose client aggregates, and any calls since, with
any transport, routing and draws, a flush of the client succeeds and writes what its aggregator
gives back. If the instruments named have names that are not empty, and differ in name or tags, this
is:

* for each counter that has grown since the flush before, one count, the sum of what it has grown
  by with each update, capped each time, as a number of sixty-four bits that wraps around;
* for each gauge that was updated since the flush before, its value after all updates it ever had;
* nothing for any other instrument.

Each stands under the name and tags with which its instrument was first named. -/
theorem flush_gives_updates (c : Config) (haggregation : c.aggregation = true) (transport : τ)
    (route : String → Nat) (draws : Draws) {client : Client τ}
    (hbuild : c.buildWith transport route draws = .ok client) (earlier : List (List RecorderCall))
    (window : List RecorderCall) :
    let start := Recorder.ofClient c client
    let last := (RecorderCall.runAll (RecorderCall.runWindows start earlier) window).client
    let calls := earlier.flatten ++ window
    let counters := calls.filterMap RecorderCall.counter?
    let gauges := calls.filterMap RecorderCall.gauge?
    let cardinality := c.options.cardinality
    (∀ call ∈ calls, call.key.name ≠ "") → Distinguishable counters → Distinguishable gauges →
    ∃ a, last.aggregator = some a ∧
      last.flush = (.ok (), { last with
        aggregator := some a.flush.2
        pipeline := (last.pipeline.putAll a.flush.1).flush }) ∧
      (∀ key, IsNamed counters key →
        let context := counterContext cardinality calls key
        let grown := growthsIn earlier.flatten window key
        metricsFor .count context a.flush.1 =
          if grown = [] then []
          else [context.metric (.count (Int64.ofNat (grown.map capped).sum))]) ∧
      (∀ key, IsNamed gauges key →
        let context := gaugeContext cardinality calls key
        metricsFor .gauge context a.flush.1 =
          if gaugeUpdates window key = [] then []
          else [context.metric (.gauge (gaugeAfter (gaugeUpdates calls key)))]) ∧
      ∀ e ∈ a.flush.1,
        (∃ key total, IsNamed counters key ∧
          e = .metric ((counterContext cardinality calls key).metric (.count total))) ∨
        ∃ key value, IsNamed gauges key ∧
          e = .metric ((gaugeContext cardinality calls key).metric (.gauge value)) := by
  intro start last calls counters gauges cardinality hnames hcounters hgauges
  obtain ⟨a, ha, hflush, hholds⟩ := Recorder.exists_flush haggregation hbuild earlier window hnames
  exact ⟨a, ha, hflush, fun key => counts_flush hholds hcounters,
    fun key => gauges_flush hholds hgauges, fun e => mem_flush hholds⟩

/-- A counter set to totals reports what they have grown by since the window before, and nothing for
the total that went back; a gauge keeps its value from the window before. -/
theorem flush_gives_updates_two_windows :
    let config : Config := { workers := 1, poolSize := 1 }
    let client : Client Scripted :=
      { aggregator := config.aggregator
        pipeline := config.pipeline { timeout := some config.writeTimeout } (fun _ => 0)
          { word := fun _ => 0 } }
    let start := Recorder.ofClient config client
    let total (n : UInt64) : RecorderCall := .counter ⟨⟨"uptime", []⟩, some (.setTotal n)⟩
    let first : List RecorderCall := [total 100, .gauge ⟨⟨"load", []⟩, some (.set 2.0)⟩]
    let second : List RecorderCall :=
      [total 130, total 145, total 10, .gauge ⟨⟨"load", []⟩, some (.increment 1.5)⟩]
    let last := (RecorderCall.runAll (RecorderCall.runWindows start [first]) second).client
    ∃ a, last.aggregator = some a ∧
      metricsFor .count ⟨"uptime", none, []⟩ a.flush.1 =
        [{ name := "uptime", value := .count 45 }] ∧
      metricsFor .gauge ⟨"load", none, []⟩ a.flush.1 =
        [{ name := "load", value := .gauge (2.0 + 1.5) }] := by
  intro config client start total first second last
  have hbuild : config.buildWith ({} : Scripted) (fun _ => 0) { word := fun _ => 0 } = .ok client :=
    rfl
  obtain ⟨a, ha, -, hcounts, hgauges, -⟩ := flush_gives_updates config rfl ({} : Scripted)
    (fun _ => 0) { word := fun _ => 0 } hbuild [first] second (by decide) (by decide) (by decide)
  exact ⟨a, ha, hcounts ⟨"uptime", []⟩ (by decide), hgauges ⟨"load", []⟩ (by decide)⟩

/-- After any windows of calls on a new recorder whose client aggregates, and any calls since, with
any transport, routing and draws, if the counters named have names that are not empty, and differ in
name or tags: what is flushed of a counter that has grown is the sum of what it has grown by with
each update, capped each time, as a signed number of sixty-four bits that wraps around. Where the
capped growths add up to at most the largest count, this is not negative, and is the sum of the
growths, capped. -/
theorem flushed_total_wraps (c : Config) (haggregation : c.aggregation = true) (transport : τ)
    (route : String → Nat) (draws : Draws) {client : Client τ}
    (hbuild : c.buildWith transport route draws = .ok client) (earlier : List (List RecorderCall))
    (window : List RecorderCall) :
    let start := Recorder.ofClient c client
    let last := (RecorderCall.runAll (RecorderCall.runWindows start earlier) window).client
    let calls := earlier.flatten ++ window
    let counters := calls.filterMap RecorderCall.counter?
    (∀ call ∈ calls, call.key.name ≠ "") → Distinguishable counters →
    ∃ a, last.aggregator = some a ∧ ∀ key, IsNamed counters key →
      let context := counterContext c.options.cardinality calls key
      let grown := growthsIn earlier.flatten window key
      grown ≠ [] → ∃ total : Int64,
        metricsFor .count context a.flush.1 = [context.metric (.count total)] ∧
        total.toInt = ((grown.map capped).sum : ℤ).bmod (2 ^ 64) ∧
        ((grown.map capped).sum ≤ 2 ^ 63 - 1 →
          0 ≤ total.toInt ∧ total.toInt = capped grown.sum) := by
  intro start last calls counters hnames hcounters
  obtain ⟨a, ha, -, hholds⟩ := Recorder.exists_flush haggregation hbuild earlier window hnames
  refine ⟨a, ha, ?_⟩
  intro key hnamed context grown hgrown
  have hflush := counts_flush hholds hcounters hnamed
  refine ⟨_, hflush.trans (if_neg hgrown), Int64.toInt_ofNat', ?_⟩
  -- A sum that fits does not wrap around, and is the sum of the growths, capped once.
  intro hfits
  have htotal : (Int64.ofNat (grown.map capped).sum).toInt = capped grown.sum := by
    rw [Int64.toInt_ofNat_of_lt (by omega), sum_map_capped hfits]
  exact ⟨htotal ▸ Int.natCast_nonneg _, htotal⟩

/-- A counter that grows by more than the largest count is flushed as the largest count. -/
theorem flushed_total_wraps_largest :
    let config : Config := { workers := 1, poolSize := 1 }
    let client : Client Scripted :=
      { aggregator := config.aggregator
        pipeline := config.pipeline { timeout := some config.writeTimeout } (fun _ => 0)
          { word := fun _ => 0 } }
    let start := Recorder.ofClient config client
    let total (n : UInt64) : RecorderCall := .counter ⟨⟨"bytes", []⟩, some (.setTotal n)⟩
    let last := (RecorderCall.runAll start [total 3, total 18446744073709551615]).client
    ∃ a, last.aggregator = some a ∧
      ∃ n : Int64, metricsFor .count ⟨"bytes", none, []⟩ a.flush.1 =
        [{ name := "bytes", value := .count n }] ∧ 0 ≤ n.toInt ∧ n.toInt = 2 ^ 63 - 1 := by
  intro config client start total last
  have hbuild : config.buildWith ({} : Scripted) (fun _ => 0) { word := fun _ => 0 } = .ok client :=
    rfl
  obtain ⟨a, ha, hcounters⟩ := flushed_total_wraps config rfl ({} : Scripted) (fun _ => 0)
    { word := fun _ => 0 } hbuild [] [total 3, total 18446744073709551615] (by decide) (by decide)
  obtain ⟨n, hn, -, hcapped⟩ := hcounters ⟨"bytes", []⟩ (by decide) (by decide)
  obtain ⟨hnonneg, htotal⟩ := hcapped (by decide)
  exact ⟨a, ha, n, hn, hnonneg, htotal⟩

/-- Two increments by the largest count make a negative one. -/
theorem two_largest_increments_negative :
    let config : Config := { workers := 1, poolSize := 1 }
    let client : Client Scripted :=
      { aggregator := config.aggregator
        pipeline := config.pipeline { timeout := some config.writeTimeout } (fun _ => 0)
          { word := fun _ => 0 } }
    let start := Recorder.ofClient config client
    let increment : RecorderCall := .counter ⟨⟨"bytes", []⟩, some (.increment 9223372036854775807)⟩
    ∃ a, (RecorderCall.runAll start [increment, increment]).client.aggregator = some a ∧
      metricsFor .count ⟨"bytes", none, []⟩ a.flush.1 =
        [{ name := "bytes", value := .count (-2) }] ∧ (-2 : Int64).toInt < 0 := by
  intro config client start increment
  have hbuild : config.buildWith ({} : Scripted) (fun _ => 0) { word := fun _ => 0 } = .ok client :=
    rfl
  obtain ⟨a, ha, -, hholds⟩ :=
    Recorder.exists_flush rfl hbuild [] [increment, increment] (by decide)
  have hnamed : IsNamed ([increment, increment].filterMap RecorderCall.counter?) ⟨"bytes", []⟩ := by
    decide
  have hgrown : growthsIn [] [increment, increment] ⟨"bytes", []⟩ =
      [9223372036854775807, 9223372036854775807] := by decide
  have hwrapped : Int64.ofNat ([9223372036854775807, 9223372036854775807].map capped).sum = -2 := by
    decide
  have hflush := counts_flush hholds (by decide) hnamed
  rw [← hwrapped, ← hgrown]
  exact ⟨a, ha, hflush, by decide⟩

end

end DogStatsD
