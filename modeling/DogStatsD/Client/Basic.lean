import DogStatsD.Aggregator.Basic
import DogStatsD.Pipeline

/-!
# Clients

A client checks each sample, counts it, and either merges it in its aggregator or takes it to its
pipeline. Flushing writes out everything merged and packed so far; closing does the same for the
last time, stops what runs beside the callers and closes the transport.

`Client.submit` is what a caller does by itself; the other operations also let receivers and the
thread of the outbox catch up before they return.
-/

namespace DogStatsD

/-- A client. -/
structure Client (τ : Type) where
  closed : Bool := false
  aggregator : Option Aggregator
  pipeline : Pipeline τ
  accepted : Accepted := {}

namespace Client

variable {τ : Type}

/-- Let the aggregator merge a sample. Returns the sample if it was not merged. -/
def merge (c : Client τ) (sample : Sample) : Option Sample × Client τ :=
  match sample, c.aggregator with
  | .metric m, some a =>
    let (left, a, draws) := a.aggregate c.pipeline.draws m
    (left.map .metric,
      { c with aggregator := some a, pipeline := { c.pipeline with draws } })
  | sample, _ => (some sample, c)

/-- Accept a sample, merge it or take it to its shard. -/
def submit (c : Client τ) (sample : Sample) : Except SendError Unit × Client τ :=
  if c.closed then (.error .closed, c)
  else
    match sample.validate with
    | .error reason => (.error (.invalidSample reason), c)
    | .ok () =>
      -- The sample counts as accepted, whatever becomes of it.
      match { c with accepted := c.accepted.count sample }.merge sample with
      | (none, c) => (.ok (), c)
      | (some sample, c) =>
        let (outcome, pipeline) := c.pipeline.dispatch sample
        (outcome, { c with pipeline })

/-- Submit a sample and hold up its receiver in the middle of it. -/
def sendHeld (c : Client τ) (sample : Sample) : Except SendError Unit × Client τ :=
  let (outcome, c) := c.submit sample
  (outcome, { c with pipeline := c.pipeline.hold sample.routingName })

/-- A reading of the client's counters. -/
def telemetry (c : Client τ) : Telemetry :=
  { c.pipeline.telemetry with
    accepted := c.accepted
    contexts := (c.aggregator.map Aggregator.contexts).getD {} }

variable [Transport τ]

/-- Let receivers and the thread of the outbox catch up. -/
def catchUp (c : Client τ) : Client τ :=
  { c with pipeline := c.pipeline.catchUp }

/-- Let go of the receivers that are held up. -/
def release (c : Client τ) : Client τ :=
  { c with pipeline := c.pipeline.release }

def send (c : Client τ) (sample : Sample) : Except SendError Unit × Client τ :=
  let (outcome, c) := c.submit sample
  (outcome, c.catchUp)

/-- Write out what the aggregator has merged. -/
def flushAggregator (c : Client τ) : Client τ :=
  match c.aggregator with
  | none => c
  | some a =>
    let (entries, a) := a.flush
    { c with aggregator := some a, pipeline := c.pipeline.putAll entries }

/-- Write out everything, and wait until it is written. -/
def flush (c : Client τ) : Except SendError Unit × Client τ :=
  if c.closed then (.error .closed, c)
  else
    let c := c.flushAggregator
    (.ok (), { c with pipeline := c.pipeline.flush })

/-- Write out everything for the last time and close the transport. Closing again does nothing. -/
def close (c : Client τ) : Except SendError Unit × Client τ :=
  if c.closed then (.ok (), c)
  else
    -- The receivers stop first, so that what waited in their channels goes out as well.
    let c := { c with closed := true, pipeline := c.pipeline.stop }
    let c := c.flushAggregator
    let pipeline := c.pipeline.handOver
    let (outcome, outbox) := pipeline.outbox.close
    (outcome.mapError .transport, { c with pipeline := { pipeline with outbox } })

/-- Close the client whatever comes of it, as when nobody holds it any more. -/
def shutDown (c : Client τ) : Client τ :=
  c.close.2

end Client

end DogStatsD
