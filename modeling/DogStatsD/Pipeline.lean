import DogStatsD.SendError
import DogStatsD.Shard
import DogStatsD.Telemetry

/-!
# Pipelines

A pipeline spreads samples over shards by their names, so that the lines of one name stay in order,
and sends what the shards pack. Which shard a name goes to is up to a routing function. Samples are
either processed by the caller or put into the channel of their shard; entries flushed from an
aggregator never wait in a channel.
-/

namespace DogStatsD

/-- How channels behave. -/
structure ChannelSettings where
  /-- The most samples that wait for one shard. -/
  capacity : Nat
  /-- Whether the caller is told that a channel is full. -/
  reportFull : Bool
  deriving DecidableEq, Inhabited

/-- How samples enter the shards. -/
inductive Intake where
  | direct
  /-- Samples wait in channels for the receivers. -/
  | channels (settings : ChannelSettings)
  | stopped
  deriving DecidableEq

/-- The shards and what they share. -/
structure Pipeline (τ : Type) where
  /-- Chooses a shard for a name, up to the number of shards. -/
  route : String → Nat
  shards : List Shard
  intake : Intake := .direct
  /-- The number of samples dropped because a channel was full. -/
  overflowed : Nat := 0
  outbox : Outbox τ
  draws : Draws

namespace Pipeline

/-- A routing function: a number computed from the characters of a name. -/
def routeByName (name : String) : Nat :=
  name.toList.foldl (fun value c => (value * 31 + c.toNat) % UInt32.size) 7

variable {τ : Type}

/-- A number of shards, each with an empty payload from the pool. -/
def newShards (options : Line.Options) (o : Outbox τ) : Nat → List Shard × Outbox τ
  | 0 => ([], o)
  | count + 1 =>
    let (packer, o) := Packer.new options o
    let (shards, o) := newShards options o count
    ({ packer } :: shards, o)

/-- A pipeline of `count` shards before an outbox. -/
def new (options : Line.Options) (count : Nat) (route : String → Nat) (draws : Draws)
    (o : Outbox τ) : Pipeline τ :=
  let (shards, outbox) := newShards options o count
  { route, shards, outbox, draws }

def shardOf (p : Pipeline τ) (name : String) : Nat :=
  p.route name % p.shards.length

/-- Run an operation on one shard. -/
def atShard (p : Pipeline τ) (i : Nat)
    (f : Shard → Outbox τ → Draws → Shard × Outbox τ × Draws) : Pipeline τ :=
  match p.shards[i]? with
  | none => p
  | some s =>
    let (s, outbox, draws) := f s p.outbox p.draws
    { p with shards := p.shards.set i s, outbox, draws }

/-- Run an operation on each of some shards in turn. -/
def overShards (f : Shard → Outbox τ → Draws → Shard × Outbox τ × Draws) (o : Outbox τ)
    (d : Draws) : List Shard → List Shard × Outbox τ × Draws
  | [] => ([], o, d)
  | s :: rest =>
    let (s, o, d) := f s o d
    let (rest, o, d) := overShards f o d rest
    (s :: rest, o, d)

/-- Run an operation on each shard in turn. -/
def atShards (p : Pipeline τ) (f : Shard → Outbox τ → Draws → Shard × Outbox τ × Draws) :
    Pipeline τ :=
  let (shards, outbox, draws) := overShards f p.outbox p.draws p.shards
  { p with shards, outbox, draws }

/-- Put samples into channels from now on. -/
def openChannels (p : Pipeline τ) (settings : ChannelSettings) : Pipeline τ :=
  { p with intake := .channels settings }

/-- Put a sample into the channel of a shard, or drop it if there is no room. -/
def enqueue (p : Pipeline τ) (settings : ChannelSettings) (i : Nat) (sample : Sample) :
    Except SendError Unit × Pipeline τ :=
  match p.shards[i]? with
  | none => (.ok (), p)
  | some s =>
    -- A sample that is dropped counts in either case; whether the caller hears of it is a setting.
    if s.hasRoom settings.capacity then
      (.ok (), { p with shards := p.shards.set i (s.enqueue sample) })
    else
      (if settings.reportFull then .error .channelFull else .ok (),
        { p with overflowed := p.overflowed + 1 })

/-- Take a sample to its shard. -/
def dispatch (p : Pipeline τ) (sample : Sample) : Except SendError Unit × Pipeline τ :=
  let i := p.shardOf sample.routingName
  match p.intake with
  | .direct => (.ok (), p.atShard i fun s o d => s.process o d sample)
  | .channels settings => p.enqueue settings i sample
  | .stopped => (.error .closed, p)

/-- Write an entry in its shard, whatever waits in the channel. -/
def put (p : Pipeline τ) (entry : Entry) : Pipeline τ :=
  p.atShard (p.shardOf entry.routingName) fun s o d =>
    let (s, o) := s.put o entry
    (s, o, d)

/-- Let the receiver of a shard take one sample. -/
def receive (p : Pipeline τ) (i : Nat) : Pipeline τ :=
  p.atShard i Shard.receive

/-- Hold up the receiver of the shard of a name with the sample that it takes next. -/
def hold (p : Pipeline τ) (name : String) : Pipeline τ :=
  p.atShard (p.shardOf name) fun s o d =>
    let (s, o) := s.hold o
    (s, o, d)

def telemetry (p : Pipeline τ) : Telemetry where
  ledger := p.outbox.ledger
  oversized := Shard.oversizedTogether p.shards
  overflowed := p.overflowed

variable [Transport τ]

/-- Let the receivers work off their channels and the thread of the outbox its queue. -/
def catchUp (p : Pipeline τ) : Pipeline τ :=
  let p := p.atShards Shard.catchUp
  { p with outbox := p.outbox.catchUp }

/-- Let go of the receivers that are held up. -/
def release (p : Pipeline τ) : Pipeline τ :=
  let p := p.atShards Shard.finish
  { p with outbox := p.outbox.catchUp }

/-- Stop the receivers, which first work off their channels. -/
def stop (p : Pipeline τ) : Pipeline τ :=
  match p.intake with
  | .channels _ => { p.release with intake := .stopped }
  | .direct | .stopped => p

/-- Write entries, while the thread of the outbox keeps up. -/
def putAll (p : Pipeline τ) (entries : List Entry) : Pipeline τ :=
  entries.foldl (fun p entry => let p := p.put entry; { p with outbox := p.outbox.catchUp }) p

/-- Hand over the payloads of all shards, while the thread of the outbox keeps up. -/
def handOver (p : Pipeline τ) : Pipeline τ :=
  p.atShards fun s o d =>
    let (s, o) := s.handOver o
    (s, o.catchUp, d)

/-- Hand over all payloads and wait until they are written. -/
def flush (p : Pipeline τ) : Pipeline τ :=
  let p := p.handOver
  { p with outbox := p.outbox.flush }

end Pipeline

end DogStatsD
