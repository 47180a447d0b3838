import DogStatsD.Proofs.Client.Start
import DogStatsD.Proofs.Client.Turns

/-!
# Aggregation Is Transparent

Whether a client aggregates does not show at the server: as long as nothing is dropped, the state of
the server after a flush is that of the metrics sent, one by one, whatever the client merged in
between.

* `tracks_buildWith`: a new client is on track;
* `Run`: a run of a new client from its start to a flush;
* `Run.state_eq`: after a run, the server is in the state of the metrics sent;
* `aggregation_transparent`: with and without aggregation, the server is in the same state.
-/

namespace DogStatsD

open Server

/-- No drop counter has moved. -/
structure Telemetry.NothingDropped (t : Telemetry) : Prop where
  payloads : t.payloadsDropped = 0
  oversized : t.oversized = 0
  overflowed : t.overflowed = 0

/-- A new client in which callers process their samples is on track. -/
theorem tracks_buildWith {config : Config} {transport : Scripted} {route : String → Nat}
    {draws : Draws} {client : Client Scripted}
    (hbuild : config.buildWith transport route draws = .ok client)
    (hfresh : transport.writes = #[]) (hmode : config.channelMode = false)
    (hbound : config.extendedAggregation = true → config.maxSamples = none) :
    client.Tracks config.options config.limits [] := by
  obtain ⟨hvalid, later, htimeout, rfl⟩ := Config.eq_of_buildWith hbuild
  -- Setting the timeout writes nothing.
  have hwrites : later.writes = #[] := by
    have hlater : (transport.setWriteTimeout config.writeTimeout).2.writes = #[] := by
      unfold Scripted.setWriteTimeout
      split <;> exact hfresh
    rw [show transport.setWriteTimeout config.writeTimeout = (.ok (), later) from htimeout]
      at hlater
    exact hlater
  -- The outbox begins with a pool of empty payloads and nothing on the wire.
  let outbox : Outbox Scripted :=
    { capacity := config.queueSize, transport := later,
      pool := .new config.poolSize config.limits }
  have hclean : outbox.Clean config.limits := ⟨Pool.clean_new _ _, by simp [outbox]⟩
  have hwire : outbox.wire = [] := by simp [outbox, Outbox.wire, Scripted.accepted, hwrites]
  have hnew :=
    Pipeline.delivers_new config.options hclean hwire (workers_pos hvalid) route draws
  let pipeline := Pipeline.new config.options config.workers route draws outbox
  have hstart : pipeline.outbox.Passes config.limits [] pipeline.outbox.start :=
    ⟨⟨hnew.clean.pool, hnew.clean.limits_eq⟩, Nat.le_refl _, fun _ => (List.append_nil _).symm⟩
  refine ⟨[], [], rfl, ?_, ?_, List.forall_mem_nil _, rfl⟩
  · unfold Config.pipeline
    rw [hmode]
    exact hnew.outbox hstart
  · unfold Config.aggregator
    split
    · exact ⟨_, Aggregator.holds_nil _ _, rfl, hbound, List.forall_mem_nil _⟩
    · rfl

/-- A run of a new client, which ends with a flush. -/
structure Run (config : Config) where
  transport : Scripted
  route : String → Nat
  draws : Draws
  client : Client Scripted
  /-- What happens before the last flush. -/
  turns : List Turn
  order : Reordering
  /-- Nothing was written before. -/
  fresh : transport.writes = #[]
  build : config.buildWith transport route draws = .ok client

namespace Run

variable {config : Config} (run : Run config)

/-- The client in the end. -/
def last : Client Scripted :=
  Turn.runAll run.client (run.turns ++ [.flush run.order])

/-- The metrics sent. -/
def sent : List Metric :=
  run.turns.filterMap Turn.sent?

/-- The payloads delivered, in the order of their delivery. -/
def delivered : List String :=
  run.last.pipeline.outbox.transport.accepted

/-- If nothing was dropped, the server is in the state of the metrics sent one by one. -/
theorem state_eq (hmode : config.channelMode = false)
    (hbound : config.extendedAggregation = true → config.maxSamples = none)
    (hoptions : config.options.IsPlain) (hmetrics : ∀ m ∈ run.sent, m.IsOrdinary config.options)
    (hkept : run.last.telemetry.NothingDropped) :
    State.ofPayloads run.delivered =
      State.ofPoints (run.sent.map (Metric.point config.options)) := by
  have hstart := tracks_buildWith run.build run.fresh hmode hbound
  have htracks := hstart.runAll hoptions hmetrics
  have hlast : run.last = ((Turn.runAll run.client run.turns).flushIn run.order).2 := by
    rw [last, Turn.runAll, List.foldl_append]
    rfl
  unfold delivered
  rw [hlast] at hkept ⊢
  refine (htracks.flushIn hoptions run.order).2 ?_
  exact Nat.add_eq_zero_iff.mpr ⟨hkept.oversized, hkept.payloads⟩

end Run

/-- Take any configuration in which callers process their samples and the options are plain, and run
it twice with the same metrics, once without aggregation and once with basic or unbounded extended
aggregation. Whatever is flushed when, whatever the threads beside the caller do in between, and
however names are routed, the server is in the same state after the last flush if no drop counter
has moved. -/
theorem aggregation_transparent (config : Config) (hmode : config.channelMode = false)
    (hoptions : config.options.IsPlain) (extended : Bool)
    (hbound : extended = true → config.maxSamples = none)
    (off : Run { config with aggregation := false, extendedAggregation := false })
    (on : Run { config with aggregation := true, extendedAggregation := extended })
    (hsent : on.sent = off.sent) (hmetrics : ∀ m ∈ off.sent, m.IsOrdinary config.options)
    (hoff : off.last.telemetry.NothingDropped) (hon : on.last.telemetry.NothingDropped) :
    State.ofPayloads on.delivered = State.ofPayloads off.delivered := by
  -- Both states are that of the metrics sent, which are the same.
  rw [on.state_eq hmode hbound hoptions (hsent ▸ hmetrics) hon,
    off.state_eq hmode (fun h => absurd h Bool.false_ne_true) hoptions hmetrics hoff, hsent]

/-- Two counts and a member sent twice make four lines without aggregation and two with it, and
leave the same state. -/
theorem aggregation_transparent_four_metrics :
    let config : Config := { workers := 1, poolSize := 1 }
    let count (value : Int64) : Turn := .send { name := "a", value := .count value }
    let member : Turn := .send { name := "b", value := .set "x", tags := ["t"] }
    let asMet : Reordering := ⟨id, fun _ => .rfl⟩
    let offConfig : Config := { config with aggregation := false, extendedAggregation := false }
    let onConfig : Config := { config with aggregation := true, extendedAggregation := true }
    let client (config : Config) : Client Scripted :=
      { aggregator := config.aggregator
        pipeline := config.pipeline { timeout := some config.writeTimeout } (fun _ => 0)
          { word := fun _ => 0 } }
    let off : Run offConfig :=
      { transport := {}, route := fun _ => 0, draws := { word := fun _ => 0 }
        client := client offConfig, turns := [count 1, member, .deliver, count 2, member]
        order := asMet, fresh := rfl, build := rfl }
    let on : Run onConfig :=
      { transport := {}, route := fun _ => 0, draws := { word := fun _ => 0 }
        client := client onConfig, turns := [count 1, .handOver, member, count 2, member]
        order := asMet, fresh := rfl, build := rfl }
    off.delivered = ["a:1|c\nb:x|s|#t\na:2|c\nb:x|s|#t\n"] ∧
    on.delivered = ["a:3|c\nb:x|s|#t\n"] ∧
    State.ofPayloads on.delivered = State.ofPayloads off.delivered := by
  intro config count member asMet offConfig onConfig client off on
  have hoptions : config.options.IsPlain := by
    constructor <;> simp [config]
  have hone : ¬(1.0 : Float) < 1.0 := by decide
  have hrate : validRate 1.0 = true := by decide
  -- Both metrics are ordinary: valid, unsampled, without timestamps or separators.
  have hcount (value : Int64) : Metric.IsOrdinary config.options
      { name := "a", value := .count value } :=
    ⟨by simp [Metric.validate, hrate, checkTimestamp], rfl, hone, rfl,
      ⟨show Avoids valueMarks ("" ++ "a") by decide, List.forall_mem_nil _⟩, fun _ h => nomatch h⟩
  have hmember : Metric.IsOrdinary config.options
      { name := "b", value := .set "x", tags := ["t"] } :=
    ⟨by decide, rfl, hone, rfl, ⟨by decide, by decide⟩, fun _ h => by cases h; decide⟩
  have hmetrics : ∀ m ∈ off.sent, m.IsOrdinary config.options := by
    intro m hm
    have hsent : off.sent = [{ name := "a", value := .count 1 },
      { name := "b", value := .set "x", tags := ["t"] }, { name := "a", value := .count 2 },
      { name := "b", value := .set "x", tags := ["t"] }] := rfl
    rw [hsent] at hm
    simp only [List.mem_cons, List.not_mem_nil, or_false] at hm
    rcases hm with rfl | rfl | rfl | rfl
    · exact hcount 1
    · exact hmember
    · exact hcount 2
    · exact hmember
  have hoff : off.last.telemetry.NothingDropped :=
    ⟨by decide +kernel, by decide +kernel, by decide +kernel⟩
  have hon : on.last.telemetry.NothingDropped :=
    ⟨by decide +kernel, by decide +kernel, by decide +kernel⟩
  exact ⟨by decide +kernel, by decide +kernel, aggregation_transparent config rfl hoptions true
    (fun _ => rfl) off on rfl hmetrics hoff hon⟩

end DogStatsD
