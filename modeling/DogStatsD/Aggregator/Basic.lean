import DogStatsD.Aggregator.Reservoir
import DogStatsD.Aggregator.Table
import DogStatsD.Draws
import DogStatsD.Telemetry

/-!
# Aggregators

An aggregator merges metric samples per context until it is flushed: counts add up, of gauges the
last value stands, sets keep their distinct members, and observations gather in reservoirs. Samples
with a timestamp are handed back, and so are observations unless aggregation is extended to them.
-/

namespace DogStatsD

/-- The settings of an aggregator. -/
structure AggregatorSettings where
  /-- Whether histograms, distributions and timings are gathered too. -/
  extended : Bool := false
  /-- The most observations kept per context, if bounded. -/
  maxSamples : Option Nat := none
  cardinality : Option Cardinality := none
  deriving DecidableEq, Inhabited

/-- Samples merged since the last flush. -/
structure Aggregator where
  settings : AggregatorSettings
  /-- Running sums, which wrap around at 64 bits. -/
  counts : Table Int64 := {}
  gauges : Table Float := {}
  /-- Distinct members, the oldest first. -/
  sets : Table (List String) := {}
  histograms : Table Reservoir := {}
  distributions : Table Reservoir := {}
  timings : Table Reservoir := {}
  contexts : KindCounts := {}

namespace Aggregator

def count (a : Aggregator) (context : Context) (value : Int64) : Aggregator :=
  { a with counts := a.counts.merge context 0 (· + value) }

def gauge (a : Aggregator) (context : Context) (value : Float) : Aggregator :=
  { a with gauges := a.gauges.merge context 0.0 fun _ => value }

/-- Add a member to a list of distinct members. -/
def insertMember (value : String) (members : List String) : List String :=
  if value ∈ members then members else members ++ [value]

/-- Add a member to a set. -/
def set (a : Aggregator) (context : Context) (value : String) : Aggregator :=
  { a with sets := a.sets.merge context [] (insertMember value) }

/-- Keep an observation that sampling has kept. The first one of a context fixes the rate. -/
def record (a : Aggregator) (kind : Kind) (context : Context) (value rate : Float) : Aggregator :=
  let fresh : Reservoir := { bound := a.settings.maxSamples, firstRate := rate }
  match kind with
  | .histogram => { a with histograms := a.histograms.merge context fresh (·.record value) }
  | .distribution =>
    { a with distributions := a.distributions.merge context fresh (·.record value) }
  | .timing => { a with timings := a.timings.merge context fresh (·.record value) }
  | .gauge | .count | .set => a

/-- Sample an observation, and keep it if sampling does. -/
def observe (a : Aggregator) (d : Draws) (kind : Kind) (context : Context) (value rate : Float) :
    Aggregator × Draws :=
  let (kept, d) := d.keeps rate
  (if kept then a.record kind context value rate else a, d)

/-- Whether a metric sample is merged rather than handed back. -/
def takes (a : Aggregator) (m : Metric) : Bool :=
  m.timestamp.isNone && (!m.kind.isReservoir || a.settings.extended)

/-- Merge a metric sample, or hand it back. -/
def aggregate (a : Aggregator) (d : Draws) (m : Metric) : Option Metric × Aggregator × Draws :=
  if a.takes m then
    let context := Context.ofMetric a.settings.cardinality m
    (none,
      match m.value with
      | .gauge value => (a.gauge context value, d)
      | .count value => (a.count context value, d)
      | .set value => (a.set context value, d)
      | .histogram value => a.observe d .histogram context value m.rate
      | .distribution value => a.observe d .distribution context value m.rate
      | .timing value => a.observe d .timing context value m.rate)
  else (some m, a, d)

/-- Take the sums out. -/
def drainCounts (a : Aggregator) : List Entry × Aggregator :=
  (a.counts.entries.map fun (context, sum) => .metric (context.metric (.count sum)),
    { a with counts := {}, contexts := a.contexts.add .count a.counts.size })

/-- Take the last values out. -/
def drainGauges (a : Aggregator) : List Entry × Aggregator :=
  (a.gauges.entries.map fun (context, value) => .metric (context.metric (.gauge value)),
    { a with gauges := {}, contexts := a.contexts.add .gauge a.gauges.size })

/-- Take the members out, each as a sample of its own. -/
def drainSets (a : Aggregator) : List Entry × Aggregator :=
  (a.sets.entries.flatMap fun (context, members) =>
      members.map fun member => .metric (context.metric (.set member)),
    { a with sets := {}, contexts := a.contexts.add .set a.sets.size })

def batches (kind : Kind) (t : Table Reservoir) : List Entry :=
  t.entries.filterMap fun (context, reservoir) =>
    let values := reservoir.values
    if values.isEmpty then none
    else some (.batch { kind, context, values, rate := reservoir.rate })

/-- Take the observations of histograms out. -/
def drainHistograms (a : Aggregator) : List Entry × Aggregator :=
  (batches .histogram a.histograms,
    { a with histograms := {}, contexts := a.contexts.add .histogram a.histograms.size })

/-- Take the observations of distributions out. -/
def drainDistributions (a : Aggregator) : List Entry × Aggregator :=
  (batches .distribution a.distributions,
    { a with distributions := {}, contexts := a.contexts.add .distribution a.distributions.size })

/-- Take the observations of timings out. -/
def drainTimings (a : Aggregator) : List Entry × Aggregator :=
  (batches .timing a.timings,
    { a with timings := {}, contexts := a.contexts.add .timing a.timings.size })

/-- Take the merged entries of one kind out. -/
def drain (a : Aggregator) : Kind → List Entry × Aggregator
  | .count => a.drainCounts
  | .gauge => a.drainGauges
  | .set => a.drainSets
  | .histogram => a.drainHistograms
  | .distribution => a.drainDistributions
  | .timing => a.drainTimings

/-- The order in which a flush drains the kinds. -/
def drainOrder : List Kind :=
  [.count, .gauge, .set, .histogram, .distribution, .timing]

def drainAll (a : Aggregator) : List Kind → List Entry × Aggregator
  | [] => ([], a)
  | kind :: rest =>
    let (entries, a) := a.drain kind
    let (others, a) := a.drainAll rest
    (entries ++ others, a)

/-- Take everything out. -/
def flush (a : Aggregator) : List Entry × Aggregator :=
  a.drainAll drainOrder

end Aggregator

end DogStatsD
