import DogStatsD.Client.Basic

/-!
# Calls of a Client

One call for each kind of sample, for callers that do not build samples themselves. Every call sends
one sample.
-/

namespace DogStatsD

/-- What a caller asks of a client. -/
inductive Call where
  | send (sample : Sample)
  | gauge (name : String) (value : Float) (tags : List String) (rate : Float)
  | gaugeAt (name : String) (value : Float) (tags : List String) (timestamp : Nat)
  | count (name : String) (value : Int64) (tags : List String) (rate : Float)
  | countAt (name : String) (value : Int64) (tags : List String) (timestamp : Nat)
  /-- Add one to a count. -/
  | increment (name : String) (tags : List String) (rate : Float)
  /-- Take one from a count. -/
  | decrement (name : String) (tags : List String) (rate : Float)
  | set (name value : String) (tags : List String) (rate : Float)
  | histogram (name : String) (value : Float) (tags : List String) (rate : Float)
  | distribution (name : String) (value : Float) (tags : List String) (rate : Float)
  | timing (name : String) (value : Duration) (tags : List String) (rate : Float)

def Call.sample : Call → Sample
  | .send sample => sample
  | .gauge name value tags rate => .metric { name, value := .gauge value, tags, rate }
  | .gaugeAt name value tags timestamp =>
    .metric { name, value := .gauge value, tags, timestamp := some timestamp }
  | .count name value tags rate => .metric { name, value := .count value, tags, rate }
  | .countAt name value tags timestamp =>
    .metric { name, value := .count value, tags, timestamp := some timestamp }
  | .increment name tags rate => .metric { name, value := .count 1, tags, rate }
  | .decrement name tags rate => .metric { name, value := .count (-1), tags, rate }
  | .set name value tags rate => .metric { name, value := .set value, tags, rate }
  | .histogram name value tags rate => .metric { name, value := .histogram value, tags, rate }
  | .distribution name value tags rate =>
    .metric { name, value := .distribution value, tags, rate }
  | .timing name value tags rate => .metric { Metric.ofDuration name value with tags, rate }

namespace Client

variable {τ : Type} [Transport τ]

/-- Carry out a call. -/
def call (c : Client τ) (k : Call) : Except SendError Unit × Client τ :=
  c.send k.sample

/-- Carry out a call a number of times, and count how often it is accepted. -/
def callTimes (c : Client τ) (k : Call) : Nat → Nat × Client τ
  | 0 => (0, c)
  | times + 1 =>
    let (outcome, c) := c.call k
    let (accepted, c) := c.callTimes k times
    (if outcome.isOk then accepted + 1 else accepted, c)

end Client

end DogStatsD
