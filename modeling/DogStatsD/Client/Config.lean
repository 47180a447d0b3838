import DogStatsD.Client.Basic
import DogStatsD.Client.BuildError
import DogStatsD.Socket.Basic

/-!
# Configuration

The settings of a client, their defaults, and what makes them invalid. `Config.validate` names the
first fault found; `Config.build` makes a client of a valid configuration and a transport.
-/

namespace DogStatsD

/-- The settings of a client. -/
structure Config where
  /-- Where payloads go if no other transport is given. -/
  remoteAddress : RemoteAddress := .loopback
  /-- The most time that a write may take. -/
  writeTimeout : Duration := .ofParts 1 0
  /-- How large payloads may grow. -/
  limits : Limits := ⟨8192, Limits.unlimitedLines⟩
  /-- The number of payloads kept for reuse. -/
  poolSize : Nat := 2048
  /-- How often packed payloads are sent. -/
  payloadInterval : Duration := .ofNanoseconds 100000000
  workers : Nat := 32
  /-- The most payloads that wait to be sent. -/
  queueSize : Nat := 2048
  /-- Whether gauges, counts and sets are aggregated. -/
  aggregation : Bool := true
  /-- Whether histograms, distributions and timings are aggregated too. -/
  extendedAggregation : Bool := false
  /-- How often merged values are sent. -/
  aggregationInterval : Duration := .ofParts 2 0
  /-- The most observations kept per context, if bounded. -/
  maxSamples : Option Nat := none
  /-- Whether samples wait in channels. -/
  channelMode : Bool := false
  channels : ChannelSettings := ⟨4096, false⟩
  options : Line.Options := {}
  /-- Whether the recorder reports histograms as distributions. -/
  histogramsAsDistributions : Bool := true

namespace Config

/-- Set the remote address from its text. -/
def withRemoteAddress (c : Config) (text : String) : Except BuildError Config :=
  match RemoteAddress.parse text with
  | .ok address => .ok { c with remoteAddress := address }
  | .error reason => .error (.invalidRemoteAddress reason)

/-- Turn extended aggregation on or off; turning it on turns aggregation on. -/
def withExtendedAggregation (c : Config) (extended : Bool) : Config :=
  { c with extendedAggregation := extended, aggregation := extended || c.aggregation }

/-- The shortest line that is a metric. -/
def shortestMetric : String := "a:0|c\n"

/-- Check a configuration. -/
def validate (c : Config) : Except ConfigFault Unit :=
  if c.limits.maxBytes < shortestMetric.utf8ByteSize then .error .payloadTooShort
  else if c.limits.maxLines = 0 then .error .noElements
  else if c.poolSize = 0 then .error .emptyPool
  else if c.workers = 0 then .error .noWorkers
  else if c.queueSize = 0 then .error .emptyQueue
  else if c.channels.capacity = 0 then .error .emptyChannels
  else if c.payloadInterval.isZero || c.aggregationInterval.isZero then .error .zeroInterval
  else if c.extendedAggregation && !c.aggregation then .error .extendedWithoutAggregation
  else if c.maxSamples = some 0 then .error .emptyReservoirs
  else .ok ()

/-- The aggregator that a configuration asks for. -/
def aggregator (c : Config) : Option Aggregator :=
  if c.aggregation then
    some
      { settings :=
          { extended := c.extendedAggregation
            maxSamples := c.maxSamples
            cardinality := c.options.cardinality } }
  else none

/-- The socket transport that a configuration asks for. -/
def socketTransport {ν : Type} (c : Config) (network : ν) : SocketTransport ν :=
  { address := c.remoteAddress, writeTimeout := c.writeTimeout, network }

variable {τ : Type}

/-- The pipeline that a configuration asks for, before a transport. The thread of the outbox
runs. -/
def pipeline (c : Config) (transport : τ) (route : String → Nat) (draws : Draws) : Pipeline τ :=
  let outbox : Outbox τ :=
    { capacity := c.queueSize, transport, pool := .new c.poolSize c.limits }
  let pipeline := Pipeline.new c.options c.workers route draws outbox
  let pipeline := { pipeline with outbox := pipeline.outbox.start }
  if c.channelMode then pipeline.openChannels c.channels else pipeline

variable [Transport τ]

/-- Build a client with a choice of routing and sampling draws. -/
def buildWith (c : Config) (transport : τ) (route : String → Nat) (draws : Draws) :
    Except BuildError (Client τ) :=
  match c.validate with
  | .error reason => .error (.invalidConfiguration reason)
  | .ok () =>
    match Transport.setWriteTimeout transport c.writeTimeout with
    | (.error e, _) => .error (.invalidConfiguration (.timeoutRefused e))
    | (.ok (), transport) =>
      .ok { aggregator := c.aggregator, pipeline := c.pipeline transport route draws }

def build (c : Config) (transport : τ) : Except BuildError (Client τ) :=
  c.buildWith transport Pipeline.routeByName (.seeded 0)

end Config

end DogStatsD
