import DogStatsD.Draws
import DogStatsD.Packer

/-!
# Shards

A shard turns the samples of its share of the names into lines. Samples either reach it directly or
wait in its channel for its receiver, which takes them one by one. A receiver can be held up in the
middle of a sample; until it is released, the samples behind it wait.

The operations pass on what shards share: the outbox and the stream of sampling draws.
-/

namespace DogStatsD

/-- A packer and the channel in front of it. -/
structure Shard where
  packer : Packer
  /-- The samples waiting in the channel, the next one first. -/
  waiting : List Sample := []
  /-- The sample that the receiver is held up with. -/
  held : Option Sample := none

namespace Shard

variable {τ : Type}

/-- Sample a sample as its rate asks: events and service checks are always kept. -/
def keeps (d : Draws) : Sample → Bool × Draws
  | .metric m => d.keeps m.rate
  | .event _ | .serviceCheck _ => (true, d)

/-- Write an entry; flushed entries are not sampled again. -/
def put (s : Shard) (o : Outbox τ) (entry : Entry) : Shard × Outbox τ :=
  let (packer, o) := s.packer.add o entry
  ({ s with packer }, o)

/-- Sample a sample, and write it if sampling keeps it. -/
def process (s : Shard) (o : Outbox τ) (d : Draws) (sample : Sample) :
    Shard × Outbox τ × Draws :=
  let (kept, d) := keeps d sample
  if kept then
    let (s, o) := s.put o (.sample sample)
    (s, o, d)
  else (s, o, d)

/-- Hand over the payload being filled. -/
def handOver (s : Shard) (o : Outbox τ) : Shard × Outbox τ :=
  let (packer, o) := s.packer.handOver o
  ({ s with packer }, o)

/-- Whether a sample finds room: in a channel of the given capacity, or with the receiver that waits
at an empty channel. -/
def hasRoom (s : Shard) (capacity : Nat) : Bool :=
  decide (s.waiting.length < capacity) || (s.held.isNone && s.waiting.isEmpty)

/-- Put a sample into the channel. -/
def enqueue (s : Shard) (sample : Sample) : Shard :=
  { s with waiting := s.waiting ++ [sample] }

/-- Let the receiver take one sample and process it, unless it is held up. -/
def receive (s : Shard) (o : Outbox τ) (d : Draws) : Shard × Outbox τ × Draws :=
  match s.held, s.waiting with
  | none, sample :: rest => { s with waiting := rest }.process o d sample
  | _, _ => (s, o, d)

/-- Let the receiver take one sample and hold it up there, at the point where it finds that the
current payload has no room for the sample and has handed the payload over. -/
def hold (s : Shard) (o : Outbox τ) : Shard × Outbox τ :=
  match s.held, s.waiting with
  | none, sample :: rest => { s with waiting := rest, held := some sample }.handOver o
  | _, _ => (s, o)

/-- Let a receiver that is held up finish its sample. -/
def release (s : Shard) (o : Outbox τ) (d : Draws) : Shard × Outbox τ × Draws :=
  match s.held with
  | some sample => { s with held := none }.process o d sample
  | none => (s, o, d)

/-- The number of entries that shards together have dropped because they did not fit. -/
def oversizedTogether : List Shard → Nat
  | [] => 0
  | s :: rest => s.packer.oversized + oversizedTogether rest

variable [Transport τ]

/-- Process samples one after the other, while the thread of the outbox keeps up. -/
def processAll (s : Shard) (o : Outbox τ) (d : Draws) :
    List Sample → Shard × Outbox τ × Draws
  | [] => (s, o, d)
  | sample :: rest =>
    let (s, o, d) := s.process o d sample
    s.processAll o.catchUp d rest

/-- Let the receiver work off its channel, unless it is held up. -/
def catchUp (s : Shard) (o : Outbox τ) (d : Draws) : Shard × Outbox τ × Draws :=
  if s.held.isSome then (s, o, d) else { s with waiting := [] }.processAll o d s.waiting

/-- Release the receiver and let it work off its channel. -/
def finish (s : Shard) (o : Outbox τ) (d : Draws) : Shard × Outbox τ × Draws :=
  let (s, o, d) := s.release o d
  s.catchUp o.catchUp d

end Shard

end DogStatsD
