import DogStatsD.Client.Config
import DogStatsD.Recorder.Instrument

/-!
# Recorders

A recorder sends the updates of instruments through a client: counters as counts, gauges as gauges,
histograms as distributions or histograms. Errors of the client are not reported to the updating
party.
-/

namespace DogStatsD

/-- A recorder. -/
structure Recorder (τ : Type) where
  /-- Where updates are sent. -/
  client : Client τ
  histogramsAsDistributions : Bool
  counters : Registry Counter := {}
  gauges : Registry Float := {}
  histograms : Registry Unit := {}

namespace Recorder

variable {τ : Type}

/-- A recorder without instruments. -/
def ofClient (c : Config) (client : Client τ) : Recorder τ :=
  { client, histogramsAsDistributions := c.histogramsAsDistributions }

variable [Transport τ]

def build (c : Config) (transport : τ) : Except BuildError (Recorder τ) :=
  (c.build transport).map (ofClient c)

/-- Report a value, whatever the client says. -/
def report (r : Recorder τ) (key : Key) (value : Value) : Recorder τ :=
  { r with client := (r.client.send (.metric (key.metric value))).2 }

/-- Name a counter, which adds it if it was not named before. -/
def registerCounter (r : Recorder τ) (key : Key) : Recorder τ :=
  let (key, counter) := r.counters.find key {}
  { r with counters := r.counters.put key counter }

def incrementCounter (r : Recorder τ) (key : Key) (n : UInt64) : Recorder τ :=
  let (key, counter) := r.counters.find key {}
  let (value, counter) := counter.increment n
  { r with counters := r.counters.put key counter }.report key (.count value)

def setCounter (r : Recorder τ) (key : Key) (total : UInt64) : Recorder τ :=
  let (key, counter) := r.counters.find key {}
  let (grown, counter) := counter.setTotal total
  let r := { r with counters := r.counters.put key counter }
  match grown with
  | some value => r.report key (.count value)
  | none => r

/-- Name a gauge, which adds it if it was not named before. -/
def registerGauge (r : Recorder τ) (key : Key) : Recorder τ :=
  let (key, value) := r.gauges.find key 0.0
  { r with gauges := r.gauges.put key value }

/-- Change a gauge, which starts at zero. -/
def updateGauge (r : Recorder τ) (key : Key) (change : Float → Float) : Recorder τ :=
  let (key, value) := r.gauges.find key 0.0
  let value := change value
  { r with gauges := r.gauges.put key value }.report key (.gauge value)

def setGauge (r : Recorder τ) (key : Key) (value : Float) : Recorder τ :=
  r.updateGauge key fun _ => value

def incrementGauge (r : Recorder τ) (key : Key) (value : Float) : Recorder τ :=
  r.updateGauge key (· + value)

def decrementGauge (r : Recorder τ) (key : Key) (value : Float) : Recorder τ :=
  r.updateGauge key (· - value)

def recordHistogram (r : Recorder τ) (key : Key) (value : Float) : Recorder τ :=
  let (key, state) := r.histograms.find key ()
  { r with histograms := r.histograms.put key state }.report key
    (if r.histogramsAsDistributions then .distribution value else .histogram value)

/-- Record an observation a number of times. -/
def recordHistogramTimes (r : Recorder τ) (key : Key) (value : Float) : Nat → Recorder τ
  | 0 =>
    let (key, state) := r.histograms.find key ()
    { r with histograms := r.histograms.put key state }
  | n + 1 => (r.recordHistogram key value).recordHistogramTimes key value n

/-- What comes of making a recorder the only one of the program. -/
inductive Installation (τ : Type) where
  | notBuilt (error : BuildError)
  /-- Another recorder is there already, so the client that was built is closed again. -/
  | refused (client : Client τ)
  | installed (recorder : Recorder τ)

/-- Build a recorder and make it the only one of the program, unless there is one already. -/
def install (c : Config) (transport : τ) (occupied : Bool) : Installation τ :=
  match build c transport with
  | .error e => .notBuilt e
  | .ok r => if occupied then .refused r.client.shutDown else .installed r

def Installation.error? : Installation τ → Option BuildError
  | .notBuilt e => some e
  | .refused _ => some .alreadyInstalled
  | .installed _ => none

end Recorder

end DogStatsD
