import DogStatsD.Metric
import DogStatsD.Event
import DogStatsD.ServiceCheck

/-!
# Samples

What an application sends: a metric sample, an event or a service check. A sample is checked before
it enters the client; `Sample.validate` names the first fault found.
-/

namespace DogStatsD

/-- Something that an application sends. -/
inductive Sample where
  | metric (metric : Metric)
  | event (event : Event)
  | serviceCheck (check : ServiceCheck)
  deriving BEq, Inhabited

/-- Why a sample is turned away. -/
inductive Rejection where
  | emptyMetricName
  /-- A sample rate is not above zero and at most one. -/
  | rateOutOfRange
  /-- A metric of this kind cannot carry a timestamp. -/
  | timestampUnsupported
  /-- A timestamp is the epoch itself. -/
  | timestampAtEpoch
  | emptyEventTitle
  | emptyCheckName
  deriving DecidableEq

def Rejection.message : Rejection → String
  | .emptyMetricName => "metric name must not be empty"
  | .rateOutOfRange => "sample rate must be in the range (0, 1]"
  | .timestampUnsupported => "timestamps are only supported for gauges and counts"
  | .timestampAtEpoch => "timestamp must be after the Unix epoch"
  | .emptyEventTitle => "event title must not be empty"
  | .emptyCheckName => "service check name must not be empty"

/-- Whether a sample rate lies above zero and is at most one, which no NaN does. -/
def validRate (rate : Float) : Bool :=
  decide (0.0 < rate) && decide (rate ≤ 1.0)

/-- Refuse a timestamp that is the epoch itself. -/
def checkTimestamp (timestamp : Option Nat) : Except Rejection Unit :=
  if timestamp = some 0 then .error .timestampAtEpoch else .ok ()

/-- Check a metric sample: its name, then its rate, then its timestamp. -/
def Metric.validate (m : Metric) : Except Rejection Unit :=
  if m.name = "" then .error .emptyMetricName
  else if !validRate m.rate then .error .rateOutOfRange
  else if m.timestamp.isSome && !m.kind.hasTimestamp then .error .timestampUnsupported
  else checkTimestamp m.timestamp

/-- Check an event: its title, then its timestamp. -/
def Event.validate (e : Event) : Except Rejection Unit :=
  if e.title = "" then .error .emptyEventTitle else checkTimestamp e.timestamp

/-- Check a service check: its name, then its timestamp. -/
def ServiceCheck.validate (c : ServiceCheck) : Except Rejection Unit :=
  if c.name = "" then .error .emptyCheckName else checkTimestamp c.timestamp

namespace Sample

def validate : Sample → Except Rejection Unit
  | .metric m => m.validate
  | .event e => e.validate
  | .serviceCheck c => c.validate

/-- The name that decides which shard a sample goes to. -/
def routingName : Sample → String
  | .metric m => m.name
  | .event e => e.title
  | .serviceCheck c => c.name

end Sample

end DogStatsD
