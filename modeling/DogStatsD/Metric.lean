import DogStatsD.Cardinality
import DogStatsD.Duration

/-!
# Metrics

A metric sample is one observation of a named quantity: a gauge, a count, a member of a set, or an
observation of a histogram, distribution or timing.
-/

namespace DogStatsD

/-- The kinds of metrics. -/
inductive Kind where
  /-- A value of which the last one counts. -/
  | gauge
  /-- A difference to add to a total. -/
  | count
  /-- A set of which the distinct members count. -/
  | set
  /-- Observations summarised by the server's agent. -/
  | histogram
  /-- Observations summarised globally. -/
  | distribution
  | timing
  deriving DecidableEq, Inhabited

namespace Kind

/-- The type mark of a kind on the wire. -/
def mark : Kind → String
  | .gauge => "g"
  | .count => "c"
  | .set => "s"
  | .histogram => "h"
  | .distribution => "d"
  | .timing => "ms"

/-- Whether values of this kind are kept one by one rather than merged. -/
def isReservoir : Kind → Bool
  | .histogram | .distribution | .timing => true
  | .gauge | .count | .set => false

/-- Whether samples of this kind may carry the time they were taken at. -/
def hasTimestamp : Kind → Bool
  | .gauge | .count => true
  | .set | .histogram | .distribution | .timing => false

end Kind

/-- The value of a metric sample. -/
inductive Value where
  | gauge (value : Float)
  | count (value : Int64)
  | set (value : String)
  | histogram (value : Float)
  | distribution (value : Float)
  /-- A duration in milliseconds. -/
  | timing (value : Float)
  deriving BEq, Inhabited

def Value.kind : Value → Kind
  | .gauge _ => .gauge
  | .count _ => .count
  | .set _ => .set
  | .histogram _ => .histogram
  | .distribution _ => .distribution
  | .timing _ => .timing

/-- A metric sample. -/
structure Metric where
  name : String
  value : Value
  /-- Tags in the order they were given; a tag may occur twice. -/
  tags : List String := []
  /-- The share of samples that the caller sends. -/
  rate : Float := 1.0
  /-- A cardinality of its own, which goes before the client's. -/
  cardinality : Option Cardinality := none
  /-- The time of the observation in seconds since the epoch. -/
  timestamp : Option Nat := none
  deriving BEq, Inhabited

namespace Metric

def kind (m : Metric) : Kind :=
  m.value.kind

def ofDuration (name : String) (d : Duration) : Metric :=
  { name, value := .timing d.milliseconds }

end Metric

end DogStatsD
