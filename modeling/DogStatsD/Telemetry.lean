import DogStatsD.Outbox

/-!
# Telemetry

What a client has accepted, merged, sent and dropped since it was built.
-/

namespace DogStatsD

/-- A number for each kind of metric. -/
structure KindCounts where
  gauge : Nat := 0
  count : Nat := 0
  set : Nat := 0
  histogram : Nat := 0
  distribution : Nat := 0
  timing : Nat := 0
  deriving DecidableEq, Inhabited

namespace KindCounts

/-- Raise the number of one kind. -/
def add (c : KindCounts) (kind : Kind) (n : Nat) : KindCounts :=
  match kind with
  | .gauge => { c with gauge := c.gauge + n }
  | .count => { c with count := c.count + n }
  | .set => { c with set := c.set + n }
  | .histogram => { c with histogram := c.histogram + n }
  | .distribution => { c with distribution := c.distribution + n }
  | .timing => { c with timing := c.timing + n }

def of (c : KindCounts) : Kind → Nat
  | .gauge => c.gauge
  | .count => c.count
  | .set => c.set
  | .histogram => c.histogram
  | .distribution => c.distribution
  | .timing => c.timing

/-- The numbers of all kinds together. -/
def total (c : KindCounts) : Nat :=
  c.gauge + c.count + c.set + c.histogram + c.distribution + c.timing

end KindCounts

/-- The samples accepted. -/
structure Accepted where
  points : KindCounts := {}
  events : Nat := 0
  serviceChecks : Nat := 0
  deriving DecidableEq, Inhabited

namespace Accepted

def count (a : Accepted) : Sample → Accepted
  | .metric m => { a with points := a.points.add m.kind 1 }
  | .event _ => { a with events := a.events + 1 }
  | .serviceCheck _ => { a with serviceChecks := a.serviceChecks + 1 }

/-- The number of samples accepted. -/
def total (a : Accepted) : Nat :=
  a.points.total + a.events + a.serviceChecks

end Accepted

/-- A reading of all counters. -/
structure Telemetry where
  accepted : Accepted := {}
  contexts : KindCounts := {}
  ledger : Ledger := {}
  /-- Entries dropped because they did not fit into an empty payload. -/
  oversized : Nat := 0
  /-- Samples dropped because a channel was full. -/
  overflowed : Nat := 0
  deriving DecidableEq, Inhabited

namespace Telemetry

/-- Payloads dropped for whatever reason. -/
def payloadsDropped (t : Telemetry) : Nat :=
  t.ledger.overflowed.payloads + t.ledger.failed.payloads

/-- Bytes dropped for whatever reason. -/
def bytesDropped (t : Telemetry) : Nat :=
  t.ledger.overflowed.bytes + t.ledger.failed.bytes

/-- Metric samples accepted. -/
def metricPoints (t : Telemetry) : Nat :=
  t.accepted.points.total

/-- Contexts flushed by the aggregator. -/
def aggregatedContexts (t : Telemetry) : Nat :=
  t.contexts.total

end Telemetry

end DogStatsD
