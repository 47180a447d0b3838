import DogStatsD.Client.Basic
import DogStatsD.Proofs.Pipeline.Shards
import Mathlib.Data.List.Induction

/-!
# A Client and Its Threads

A client is used by many callers at once while threads of its own work beside them. Here all of them
are parties that take steps one at a time, in any order.

* Callers send, flush and close. A caller that has found the client open keeps it from being closed
  until its call returns.
* Receivers take samples out of the channels of their shards. A receiver that is told to stop works
  off its channel first.
* Tickers begin a flush whenever it is their time, of the aggregator or of the shards.
* The courier is the thread of the outbox, which writes payloads.

A flush takes one kind after the other out of the aggregator, which one party does at a time, then
writes the entries one by one, and then hands over the payloads of the shards one by one.

* `System.step?`, `System.run?`: a step of one party, and steps one after the other;
* `steps_induction`: what each step keeps, steps one after the other keep.
-/

namespace DogStatsD

/-- What holds before the first step, and is kept by each step, holds after the last one. -/
theorem steps_induction {σ α : Type} {step? : σ → α → Option σ} {motive : List α → σ → Prop}
    {s s' : σ} {moves : List α} (hrun : moves.foldlM step? s = some s') (start : motive [] s)
    (step : ∀ (front : List α) (move : α) (t t' : σ),
      motive front t → step? t move = some t' → motive (front ++ [move]) t') :
    motive moves s' := by
  induction moves using List.reverseRecOn generalizing s' with
  | nil =>
    cases hrun
    exact start
  | append_singleton front move ih =>
    rw [List.foldlM_append] at hrun
    obtain ⟨t, hfront, hlast⟩ := Option.bind_eq_some_iff.mp hrun
    obtain ⟨t', hstep, hdone⟩ := Option.bind_eq_some_iff.mp hlast
    cases hdone
    exact step front move t s' (ih hfront) hstep

/-- Let the receiver of a shard take the next sample in hand. -/
def Shard.take (s : Shard) : Shard :=
  match s.held, s.waiting with
  | none, sample :: rest => { s with waiting := rest, held := some sample }
  | _, _ => s

namespace System

/-! ## Parties -/

/-- What a caller asks for. -/
inductive Request where
  | send (sample : Sample)
  | flush
  | close

/-- What a client that is closed answers. -/
def Request.refusal : Request → Except SendError Unit
  | .send _ | .flush => .error .closed
  | .close => .ok ()

/-- An answer that a caller got. -/
structure Answer where
  caller : Nat
  request : Request
  outcome : Except SendError Unit

/-- The sample of a send that went well. -/
def Answer.sent? : Answer → Option Sample
  | { request := .send sample, outcome := .ok (), .. } => some sample
  | _ => none

/-- What a flush in progress has left to do, in this order. -/
structure Sweep where
  /-- The kinds to be taken out of the aggregator. -/
  kinds : List Kind := []
  /-- What was taken out and is to be written. -/
  entries : List Entry := []
  /-- The shards to hand over. -/
  shards : List Nat := []

/-- Where a caller stands. -/
inductive Caller where
  | idle
  /-- It has found the client open. -/
  | sending (sample : Sample)
  /-- The sample is accepted, and was not merged. -/
  | dispatching (sample : Sample)
  | flushing (sweep : Sweep)
  /-- It waits until its barrier is taken out of the queue. -/
  | awaiting
  /-- It works off the queue itself. -/
  | draining
  | closing

def Caller.isIdle : Caller → Bool
  | .idle => true
  | _ => false

def Caller.isClosing : Caller → Bool
  | .closing => true
  | _ => false

/-- Whether a caller keeps the client from being closed. -/
def Caller.holdsOpen (c : Caller) : Bool :=
  !c.isIdle && !c.isClosing

/-- Where the receiver of a channel stands. -/
inductive Receiver where
  | listening
  /-- It was told to stop, and works off its channel. -/
  | clearing
  /-- It has found its channel empty. -/
  | leaving
  | gone
  deriving DecidableEq

/-- Whether a receiver takes samples. -/
def Receiver.isServing : Receiver → Bool
  | .listening | .clearing => true
  | .leaving | .gone => false

/-- Where a ticker stands. -/
inductive Ticking where
  | waiting
  | working (sweep : Sweep)
  | gone

def Ticking.isGone : Ticking → Bool
  | .gone => true
  | .waiting | .working _ => false

/-- A thread that flushes from time to time. -/
structure Ticker where
  /-- What it does every time. -/
  plan : Sweep
  state : Ticking := .waiting

/-- Where the thread of the outbox stands. -/
inductive Courier where
  | idle
  /-- It has taken a command out of the queue. -/
  | holding (command : Command)
  | gone

def Courier.isGone : Courier → Bool
  | .gone => true
  | .idle | .holding _ => false

/-- The command that the courier has taken out of the queue. -/
def Courier.inHand : Courier → List Command
  | .holding command => [command]
  | .idle | .gone => []

/-- How far a caller has come with closing the client. -/
inductive Stage where
  /-- The client no longer counts as open. -/
  | signalling
  /-- Receivers and tickers are told to stop, and the caller waits until they are gone. -/
  | joining
  | sweeping (sweep : Sweep)
  /-- All payloads are handed over. -/
  | raising
  /-- The caller waits until its barrier is taken out of the queue. -/
  | awaiting
  | halting
  /-- The courier is told to stop, and the caller waits until it is gone. -/
  | joiningCourier
  | draining
  | closingTransport

/-- Whether a client is open, being closed, or closed. -/
inductive Phase where
  | opened
  | closing (caller : Nat) (stage : Stage)
  | closed

/-- Whether receivers and tickers are told to stop. -/
def Phase.isSignalled : Phase → Bool
  | .opened | .closing _ .signalling => false
  | .closing _ _ | .closed => true

/-- Who takes entries out of the aggregator. -/
inductive Party where
  | caller (index : Nat)
  | ticker (index : Nat)
  deriving DecidableEq

end System

/-- A client, its callers and its threads. -/
structure System (τ : Type) where
  client : Client τ
  callers : List System.Caller
  /-- The receivers of the channels, one for each shard. -/
  receivers : List System.Receiver
  tickers : List System.Ticker
  courier : System.Courier
  phase : System.Phase := .opened
  /-- The party that is taking entries out of the aggregator. -/
  drainer : Option System.Party := none
  /-- All answers so far, the oldest first. -/
  log : List System.Answer := []

namespace System

variable {τ : Type}

/-! ## Flushes -/

/-- A flush of the aggregator, if there is one. -/
def Sweep.ofAggregator (c : Client τ) : Sweep :=
  { kinds := if c.aggregator.isSome then Aggregator.drainOrder else [] }

/-- Handing over all shards. -/
def Sweep.ofShards (c : Client τ) : Sweep :=
  { shards := List.range c.pipeline.shards.length }

/-- A flush of the aggregator and of all shards. -/
def Sweep.whole (c : Client τ) : Sweep :=
  { ofAggregator c with shards := (ofShards c).shards }

/-- Whether nothing is left to do. -/
def Sweep.isDone (w : Sweep) : Bool :=
  w.kinds.isEmpty && w.entries.isEmpty && w.shards.isEmpty

/-- Do what comes next in a flush. -/
def Sweep.advance (c : Client τ) : Sweep → Sweep × Client τ
  | { kinds := kind :: kinds, entries, shards } =>
    match c.aggregator with
    | none => ({ kinds, entries, shards }, c)
    | some a =>
      let (drained, a) := a.drain kind
      ({ kinds, entries := entries ++ drained, shards }, { c with aggregator := some a })
  | { kinds := [], entries := entry :: entries, shards } =>
    ({ entries, shards }, { c with pipeline := c.pipeline.put entry })
  | { kinds := [], entries := [], shards := shard :: shards } =>
    ({ shards }, { c with pipeline := c.pipeline.handOverAt shard })
  | { kinds := [], entries := [], shards := [] } => ({}, c)

/-- Who is taking entries out of the aggregator after a step of a flush. -/
def drainerAfter (party : Party) (w later : Sweep) (drainer : Option Party) : Option Party :=
  if w.kinds.isEmpty then drainer else if later.kinds.isEmpty then none else some party

/-- Let a party do what comes next in its flush. Two parties do not take entries out of the
aggregator at the same time. -/
def advance? (s : System τ) (party : Party) (w : Sweep) : Option (Sweep × System τ) :=
  if w.kinds.isEmpty || s.drainer.all (· == party) then
    let (later, client) := w.advance s.client
    some (later, { s with client, drainer := drainerAfter party w later s.drainer })
  else none

theorem eq_of_advance? {s : System τ} {party : Party} {w : Sweep} {next : Sweep × System τ}
    (h : s.advance? party w = some next) :
    ∃ drainer, next =
      ((w.advance s.client).1, { s with client := (w.advance s.client).2, drainer }) := by
  unfold advance? at h
  split at h <;> cases h
  exact ⟨_, rfl⟩

/-! ## Steps -/

def setCaller (s : System τ) (i : Nat) (caller : Caller) : System τ :=
  { s with callers := s.callers.set i caller }

/-- Let a call return. -/
def answer (s : System τ) (i : Nat) (request : Request) (outcome : Except SendError Unit) :
    System τ :=
  { s.setCaller i .idle with log := s.log ++ [⟨i, request, outcome⟩] }

/-- A caller that did not get further stands where it stood. -/
theorem answer_of_idle {s : System τ} {i : Nat} (h : s.callers[i]? = some .idle)
    (request : Request) (outcome : Except SendError Unit) :
    s.answer i request outcome = { s with log := s.log ++ [⟨i, request, outcome⟩] } := by
  obtain ⟨hlt, hidle⟩ := List.getElem?_eq_some_iff.mp h
  have hsame : s.callers.set i .idle = s.callers := by rw [← hidle, List.set_getElem_self]
  rw [answer, setCaller, hsame]

def setPipeline (s : System τ) (pipeline : Pipeline τ) : System τ :=
  { s with client := { s.client with pipeline } }

def setOutbox (s : System τ) (outbox : Outbox τ) : System τ :=
  s.setPipeline { s.client.pipeline with outbox }

def setTicker (s : System τ) (i : Nat) (t : Ticker) : System τ :=
  { s with tickers := s.tickers.set i t }

/-- Whether the barrier of a caller is still in the queue or in the hands of the courier. -/
def hasBarrier (s : System τ) (i : Nat) : Bool :=
  let isBarrier : Command → Bool
    | .barrier caller => caller == i
    | .payload _ => false
  s.client.pipeline.outbox.queue.any isBarrier ||
    match s.courier with
    | .holding command => isBarrier command
    | .idle | .gone => false

/-- Begin a call. A caller that finds the client closed is turned away; one that wants to close it
waits until nobody keeps it open. -/
def call? (s : System τ) (i : Nat) (request : Request) : Option (System τ) :=
  match s.callers[i]? with
  | some .idle =>
    if s.client.closed then some (s.answer i request request.refusal)
    else
      match request with
      | .send sample => some (s.setCaller i (.sending sample))
      | .flush => some (s.setCaller i (.flushing (.whole s.client)))
      | .close =>
        if s.callers.any Caller.holdsOpen then none
        else
          some
            { s.setCaller i .closing with
              client := { s.client with closed := true }
              phase := .closing i .signalling }
  | _ => none

/-- A closed client turns callers away. -/
theorem call?_of_closed {s : System τ} (hclosed : s.client.closed = true) {i : Nat}
    (hidle : s.callers[i]? = some .idle) (request : Request) :
    s.call? i request = some { s with log := s.log ++ [⟨i, request, request.refusal⟩] } := by
  simp only [call?, hidle, hclosed, if_true, answer_of_idle hidle]

/-- Take a sample to its shard. A channel whose receiver is gone takes no samples. -/
def dispatch (s : System τ) (sample : Sample) : Except SendError Unit × Pipeline τ :=
  let p := s.client.pipeline
  match p.intake, s.receivers[p.shardOf sample.routingName]? with
  | .channels _, some .gone => (.error .closed, p)
  | _, _ => p.dispatch sample

variable [Transport τ]

/-- Go on with closing the client. -/
def shutDown? (s : System τ) (i : Nat) : Stage → Option (System τ)
  | .signalling => some { s with phase := .closing i .joining }
  | .joining =>
    if s.receivers.all (· == .gone) && s.tickers.all (·.state.isGone) then
      let p := s.client.pipeline
      let intake :=
        match p.intake with
        | .channels _ | .stopped => .stopped
        | .direct => .direct
      some
        { s.setPipeline { p with intake } with
          phase := .closing i (.sweeping (.whole s.client)) }
    else none
  | .sweeping w =>
    if w.isDone then some { s with phase := .closing i .raising }
    else (s.advance? (.caller i) w).map fun (w, s) => { s with phase := .closing i (.sweeping w) }
  | .raising =>
    let o := s.client.pipeline.outbox
    if o.running then
      if o.hasRoom then
        some { s.setOutbox (o.raise i) with phase := .closing i .awaiting }
      else none
    -- Without a thread, the caller works off the queue itself, as it does in the end.
    else some { s with phase := .closing i .joiningCourier }
  | .awaiting => if s.hasBarrier i then none else some { s with phase := .closing i .halting }
  | .halting =>
    some
      { s.setOutbox { s.client.pipeline.outbox with running := false } with
        phase := .closing i .joiningCourier }
  | .joiningCourier =>
    if s.courier.isGone then some { s with phase := .closing i .draining } else none
  | .draining =>
    match s.client.pipeline.outbox.step? with
    | none => some { s with phase := .closing i .closingTransport }
    | some (_, outbox) => some (s.setOutbox outbox)
  | .closingTransport =>
    let o := s.client.pipeline.outbox
    let (outcome, transport) := Transport.close o.transport
    some
      { (s.setOutbox { o with transport }).answer i .close (outcome.mapError .transport) with
        phase := .closed }

/-- Go on with a call. -/
def proceed? (s : System τ) (i : Nat) : Option (System τ) :=
  match s.callers[i]? with
  | none | some .idle => none
  | some (.sending sample) =>
    match sample.validate with
    | .error reason => some (s.answer i (.send sample) (.error (.invalidSample reason)))
    | .ok () =>
      match { s.client with accepted := s.client.accepted.count sample }.merge sample with
      | (none, client) => some ({ s with client }.answer i (.send sample) (.ok ()))
      | (some sample, client) => some ({ s with client }.setCaller i (.dispatching sample))
  | some (.dispatching sample) =>
    let (outcome, pipeline) := s.dispatch sample
    some ((s.setPipeline pipeline).answer i (.send sample) outcome)
  | some (.flushing w) =>
    let o := s.client.pipeline.outbox
    if !w.isDone then
      (s.advance? (.caller i) w).map fun (w, s) => s.setCaller i (.flushing w)
    else if !o.running then some (s.setCaller i .draining)
    else if o.hasRoom then some ((s.setOutbox (o.raise i)).setCaller i .awaiting)
    else none
  | some .awaiting => if s.hasBarrier i then none else some (s.answer i .flush (.ok ()))
  | some .draining =>
    match s.client.pipeline.outbox.step? with
    | none => some (s.answer i .flush (.ok ()))
    | some (_, outbox) => some (s.setOutbox outbox)
  | some .closing =>
    match s.phase with
    | .closing _ stage => s.shutDown? i stage
    | .opened | .closed => none

/-- What can happen next. -/
inductive Move where
  | call (caller : Nat) (request : Request)
  | proceed (caller : Nat)
  /-- A receiver takes a sample out of its channel. -/
  | take (shard : Nat)
  /-- A receiver processes the sample in hand. -/
  | process (shard : Nat)
  /-- A receiver hears that it is to stop. -/
  | clear (shard : Nat)
  /-- A receiver that is to stop finds its channel empty. -/
  | leave (shard : Nat)
  | retire (shard : Nat)
  /-- It is time for a ticker. -/
  | tick (ticker : Nat)
  | work (ticker : Nat)
  /-- A ticker hears that it is to stop. -/
  | quit (ticker : Nat)
  /-- The courier takes a command out of the queue. -/
  | fetch
  | carry
  /-- The courier hears that it is to stop. -/
  | exit

/-- Let a receiver go on from one state to another, if it may leave its shard so. -/
def turn? (s : System τ) (i : Nat) (before after : Receiver) (may : Shard → Bool) :
    Option (System τ) :=
  if s.receivers[i]? = some before ∧ s.client.pipeline.shards[i]?.all may then
    some { s with receivers := s.receivers.set i after }
  else none

/-- Let a receiver do something with its shard. -/
def serve? (s : System τ) (i : Nat)
    (f : Shard → Outbox τ → Draws → Shard × Outbox τ × Draws) : Option (System τ) :=
  if s.receivers[i]?.any Receiver.isServing then
    some (s.setPipeline (s.client.pipeline.atShard i f))
  else none

/-- Let a party take a step. -/
def step? (s : System τ) : Move → Option (System τ)
  | .call i request => s.call? i request
  | .proceed i => s.proceed? i
  | .take i => s.serve? i fun shard o d => (shard.take, o, d)
  | .process i => s.serve? i Shard.release
  | .clear i =>
    if s.phase.isSignalled then s.turn? i .listening .clearing fun shard => shard.held.isNone
    else none
  | .leave i =>
    s.turn? i .clearing .leaving fun shard => shard.held.isNone && shard.waiting.isEmpty
  | .retire i => s.turn? i .leaving .gone fun _ => true
  | .tick i =>
    match s.tickers[i]? with
    | some { plan, state := .waiting } => some (s.setTicker i { plan, state := .working plan })
    | _ => none
  | .work i =>
    match s.tickers[i]? with
    | some { plan, state := .working w } =>
      if w.isDone then some (s.setTicker i { plan })
      else
        (s.advance? (.ticker i) w).map fun (w, s) => s.setTicker i { plan, state := .working w }
    | _ => none
  | .quit i =>
    match s.tickers[i]?, s.phase.isSignalled with
    | some { plan, state := .waiting }, true => some (s.setTicker i { plan, state := .gone })
    | _, _ => none
  | .fetch =>
    match s.courier, s.client.pipeline.outbox.queue with
    | .idle, command :: queue =>
      some
        { s.setOutbox { s.client.pipeline.outbox with queue } with
          courier := .holding command }
    | _, _ => none
  | .carry =>
    match s.courier with
    | .holding command =>
      some { s.setOutbox (s.client.pipeline.outbox.perform command) with courier := .idle }
    | .idle | .gone => none
  | .exit =>
    match s.courier, s.client.pipeline.outbox.running with
    | .idle, false => some { s with courier := .gone }
    | _, _ => none

/-- Let parties take steps one after the other. -/
def run? (s : System τ) (moves : List Move) : Option (System τ) :=
  moves.foldlM step? s

/-- A client that nobody uses yet, and a number of callers. -/
def start (c : Client τ) (callers : Nat) : System τ :=
  let receiver :=
    match c.pipeline.intake with
    | .channels _ => .listening
    | .direct | .stopped => .gone
  { client := c
    callers := List.replicate callers .idle
    receivers := List.replicate c.pipeline.shards.length receiver
    tickers :=
      (if c.aggregator.isSome then [{ plan := .ofAggregator c }] else []) ++
        [{ plan := .ofShards c }]
    courier := if c.pipeline.outbox.running then .idle else .gone }

end System

end DogStatsD
