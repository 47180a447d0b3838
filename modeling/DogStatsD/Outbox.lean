import DogStatsD.Pool
import DogStatsD.Transport.Basic

/-!
# Outboxes

Finished payloads wait in a bounded queue until they are written to the transport, by a thread of
the outbox while it runs and otherwise by whoever flushes. A payload that finds the queue full is
dropped, and one whose write fails is not tried again; either way it goes back to the pool, and the
ledger says what became of it. The thread, when it has nothing to do, waits to be given a payload,
so that even a queue without capacity passes on one payload at a time while the thread runs.

A caller that waits for everything queued so far puts a barrier into the queue. Whoever takes the
barrier out lets the caller go on, and by then all payloads before it are written.
-/

namespace DogStatsD

/-- A number of payloads, and their bytes together. -/
structure Tally where
  payloads : Nat := 0
  bytes : Nat := 0
  deriving DecidableEq, Inhabited

/-- Count one more payload. -/
def Tally.count (t : Tally) (bytes : Nat) : Tally :=
  ⟨t.payloads + 1, t.bytes + bytes⟩

/-- What became of the payloads. -/
structure Ledger where
  sent : Tally := {}
  overflowed : Tally := {}
  failed : Tally := {}
  deriving DecidableEq, Inhabited

/-- What waits in the queue. -/
inductive Command where
  | payload (payload : Payload)
  /-- A caller that waits for what is queued before it. -/
  | barrier (caller : Nat)

/-- The queue in front of a transport. -/
structure Outbox (τ : Type) where
  capacity : Nat
  /-- The commands waiting, the next one first. -/
  queue : List Command := []
  running : Bool := false
  transport : τ
  /-- Where payloads come from and go back to. -/
  pool : Pool
  ledger : Ledger := {}

namespace Outbox

variable {τ : Type}

/-- Take an empty payload from the pool. -/
def borrow (o : Outbox τ) : Payload × Outbox τ :=
  let (payload, pool) := o.pool.borrow
  (payload, { o with pool })

/-- Whether a payload finds room: in the queue, or with the thread that waits at an empty queue. -/
def hasRoom (o : Outbox τ) : Bool :=
  decide (o.queue.length < o.capacity) || (o.running && o.queue.isEmpty)

/-- Queue a payload, or drop it if there is no room. -/
def post (o : Outbox τ) (payload : Payload) : Outbox τ :=
  if o.hasRoom then
    { o with queue := o.queue ++ [.payload payload] }
  else
    -- What is dropped can be filled again.
    { o with
      pool := o.pool.put payload
      ledger := { o.ledger with overflowed := o.ledger.overflowed.count payload.size } }

variable [Transport τ]

/-- Write a payload to the transport unless it is empty, and put it back. -/
def deliver (o : Outbox τ) (payload : Payload) : Outbox τ :=
  if payload.isEmpty then { o with pool := o.pool.put payload }
  else
    match Transport.write o.transport payload.text with
    | (.ok _, transport) =>
      { o with
        transport
        pool := o.pool.put payload
        ledger := { o.ledger with sent := o.ledger.sent.count payload.size } }
    | (.error _, transport) =>
      { o with
        transport
        pool := o.pool.put payload
        ledger := { o.ledger with failed := o.ledger.failed.count payload.size } }

/-- Carry out a command. A barrier asks for nothing but to be taken out of the queue. -/
def perform (o : Outbox τ) : Command → Outbox τ
  | .payload payload => o.deliver payload
  | .barrier _ => o

/-- Take the next command out of the queue and carry it out. -/
def step? (o : Outbox τ) : Option (Command × Outbox τ) :=
  match o.queue with
  | [] => none
  | command :: rest => some (command, { o with queue := rest }.perform command)

/-- Carry out every command waiting. -/
def drain (o : Outbox τ) : Outbox τ :=
  o.queue.foldl perform { o with queue := [] }

/-- Let the thread of the outbox, if it runs, work off the queue. -/
def catchUp (o : Outbox τ) : Outbox τ :=
  if o.running then o.drain else o

def start (o : Outbox τ) : Outbox τ :=
  { o with running := true }

/-- Put a barrier behind everything queued. -/
def raise (o : Outbox τ) (caller : Nat) : Outbox τ :=
  { o with queue := o.queue ++ [.barrier caller] }

/-- Wait until everything queued is written. If the thread runs, the caller waits for room, puts a
barrier into the queue and waits until it is taken out; otherwise the caller does the work. -/
def flush (o : Outbox τ) : Outbox τ :=
  if o.running then (o.drain.raise 0).drain else o.drain

/-- Write everything queued, stop the thread, and close the transport. -/
def close (o : Outbox τ) : Except TransportError Unit × Outbox τ :=
  -- Nothing is queued between the flush and the end of the thread.
  let o := { o.flush with running := false }.drain
  let (outcome, transport) := Transport.close o.transport
  (outcome, { o with transport })

end Outbox

end DogStatsD
