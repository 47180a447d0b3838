import DogStatsD.Proofs.Outbox.Drain
import DogStatsD.Proofs.Pipeline.Freight
import DogStatsD.Proofs.System.Basic

/-!
# A Pipeline and Its Threads

Samples are dispatched to the shards of a pipeline, either processed at once or put into channels,
from which receivers take them. Entries out of an aggregator are written to the shards beside them.
Payloads are handed over to the queue, out of which a courier takes them. In the end the receivers
are told to stop, then the courier, and what is left in the queue is worked off.

Here all of this happens in steps, in any order. A manifest notes which samples were dispatched, in
which order they were processed, and where their lines are; no step depends on it.

* `Plant.step?`, `Plant.run?`: a step, and steps one after the other;
* `Plant.Next`: what steps come to;
* `Plant.start`: a pipeline whose threads have just begun.
-/

namespace DogStatsD

/-! ## Manifests -/

/-- What has become of a sample that was dispatched. -/
inductive Fate where
  | accepted
  /-- Its channel was full. -/
  | full
  /-- The receiver of its channel was gone. -/
  | closed
  deriving DecidableEq

/-- A sample that was dispatched, what has become of it, and what its sender was told. -/
structure Dispatch where
  sample : Sample
  fate : Fate
  answer : Except SendError Unit

/-- Where samples are, and their lines. A line goes with the sample that it was written for; a line
of an entry out of an aggregator was written for none. -/
structure Manifest extends Freight (Option Sample) where
  /-- All samples dispatched, the oldest first. -/
  dispatched : List Dispatch := []
  /-- The samples that shards have processed, the oldest first. -/
  calls : List Sample := []
  /-- Those of them for which a line was written. -/
  kept : List Sample := []

namespace Manifest

variable {τ : Type}

/-- The samples accepted. -/
def accepted (m : Manifest) : List Sample :=
  (m.dispatched.filter (·.fate = .accepted)).map Dispatch.sample

def note (m : Manifest) (d : Dispatch) : Manifest :=
  { m with dispatched := m.dispatched ++ [d] }

/-- Follow a sample that a shard processes. -/
def call (m : Manifest) (p : Pipeline τ) (j : Nat) (sample : Sample) : Manifest where
  toFreight := m.process p j sample (some sample)
  dispatched := m.dispatched
  calls := m.calls ++ [sample]
  kept := m.kept ++ Row.samplesOf (Freight.linesFor p j sample (some sample))

end Manifest

/-! ## Steps -/

/-- A pipeline and its threads. -/
structure Plant (τ : Type) where
  pipeline : Pipeline τ
  /-- The receivers of the channels, one for each shard. -/
  receivers : List System.Receiver
  courier : System.Courier
  /-- Whether the receivers are told to stop. -/
  stopping : Bool := false
  manifest : Manifest := {}

namespace Plant

variable {τ : Type}

/-- Where a sample goes. -/
def home (s : Plant τ) (sample : Sample) : Nat :=
  s.pipeline.shardOf sample.routingName

/-- Take a sample to its shard. A channel whose receiver is gone takes no samples. -/
def dispatch (s : Plant τ) (sample : Sample) : Except SendError Unit × Pipeline τ :=
  match s.pipeline.intake, s.receivers[s.home sample]? with
  | .channels _, some .gone => (.error .closed, s.pipeline)
  | _, _ => s.pipeline.dispatch sample

/-- What becomes of a sample that is taken to its shard. -/
def fate (s : Plant τ) (sample : Sample) : Fate :=
  match s.pipeline.intake, s.receivers[s.home sample]? with
  | .direct, _ => .accepted
  | .stopped, _ | .channels _, some .gone => .closed
  | .channels settings, _ =>
    if s.pipeline.shards[s.home sample]?.any (·.hasRoom settings.capacity) then .accepted
    else .full

/-- Let a shard process a sample. -/
def processAt (s : Plant τ) (j : Nat) (sample : Sample) : Plant τ :=
  { s with
    pipeline := s.pipeline.atShard j fun shard o d => shard.process o d sample
    manifest := s.manifest.call s.pipeline j sample }

def note (s : Plant τ) (d : Dispatch) : Plant τ :=
  { s with manifest := s.manifest.note d }

def setOutbox (s : Plant τ) (outbox : Outbox τ) : Plant τ :=
  { s with pipeline := { s.pipeline with outbox } }

/-- Let lines be elsewhere. -/
def setFreight (s : Plant τ) (freight : Freight (Option Sample)) : Plant τ :=
  { s with manifest := { s.manifest with toFreight := freight } }

/-- Dispatch a sample. -/
def send (s : Plant τ) (sample : Sample) : Plant τ :=
  let (answer, pipeline) := s.dispatch sample
  let noted := s.note ⟨sample, s.fate sample, answer⟩
  if s.pipeline.intake = .direct then noted.processAt (s.home sample) sample
  else { noted with pipeline }

/-- What can happen next. -/
inductive Move where
  | dispatch (sample : Sample)
  /-- An entry out of the aggregator is written. -/
  | put (entry : Entry)
  /-- A receiver takes a sample out of its channel. -/
  | take (shard : Nat)
  /-- A receiver processes the sample in hand. -/
  | process (shard : Nat)
  /-- A receiver hears that it is to stop. -/
  | clear (shard : Nat)
  /-- A receiver that is to stop finds its channel empty. -/
  | leave (shard : Nat)
  | retire (shard : Nat)
  /-- The receivers are told to stop. -/
  | stop
  | handOver (shard : Nat)
  /-- A caller that waits for the courier puts a barrier into the queue. -/
  | raise (caller : Nat)
  /-- The courier takes a command out of the queue. -/
  | fetch
  | carry
  /-- The courier is told to stop. -/
  | halt
  | exit
  /-- Without a courier, a command is taken out of the queue and carried out. -/
  | drain

/-- The sample that is dispatched. -/
def Move.sample? : Move → Option Sample
  | .dispatch sample => some sample
  | _ => none

/-- The entry that is written. -/
def Move.entry? : Move → Option Entry
  | .put entry => some entry
  | _ => none

/-- Whether a receiver takes samples. -/
def isServing (s : Plant τ) (j : Nat) : Bool :=
  s.receivers[j]?.any System.Receiver.isServing

/-- Let a receiver go on from one state to another, if it may leave its shard so. -/
def turn? (s : Plant τ) (j : Nat) (before after : System.Receiver) (may : Shard → Bool) :
    Option (Plant τ) :=
  if s.receivers[j]? = some before ∧ s.pipeline.shards[j]?.all may then
    some { s with receivers := s.receivers.set j after }
  else none

/-- The sample that the receiver of a shard has in hand. -/
def held? (s : Plant τ) (j : Nat) : Option Sample :=
  s.pipeline.shards[j]?.bind Shard.held

variable [Transport τ]

/-- Let a party take a step. -/
def step? (s : Plant τ) : Move → Option (Plant τ)
  | .dispatch sample => some (s.send sample)
  | .put e =>
    some
      { s.setFreight (s.manifest.put s.pipeline (s.pipeline.shardOf e.routingName) e none) with
        pipeline := s.pipeline.put e }
  | .take j =>
    if s.isServing j then
      some { s with pipeline := s.pipeline.atShard j fun shard o d => (shard.take, o, d) }
    else none
  | .process j =>
    match s.isServing j, s.held? j with
    | true, some sample =>
      some
        { s with
          pipeline := s.pipeline.atShard j Shard.release
          manifest := s.manifest.call s.pipeline j sample }
    | _, _ => none
  | .clear j =>
    if s.stopping then s.turn? j .listening .clearing fun shard => shard.held.isNone else none
  | .leave j => s.turn? j .clearing .leaving fun shard => shard.held.isNone && shard.waiting.isEmpty
  | .retire j => s.turn? j .leaving .gone fun _ => true
  | .stop => some { s with stopping := true }
  | .handOver j =>
    some
      { s.setFreight (s.manifest.handOver s.pipeline j) with
        pipeline := s.pipeline.handOverAt j }
  | .raise caller =>
    if s.pipeline.outbox.hasRoom then
      some ((s.setOutbox (s.pipeline.outbox.raise caller)).setFreight s.manifest.raise)
    else none
  | .fetch =>
    match s.courier, s.pipeline.outbox.queue with
    | .idle, command :: queue =>
      some
        { (s.setOutbox { s.pipeline.outbox with queue }).setFreight s.manifest.fetch with
          courier := .holding command }
    | _, _ => none
  | .carry =>
    match s.courier with
    | .holding command =>
      some
        { (s.setOutbox (s.pipeline.outbox.perform command)).setFreight s.manifest.carry with
          courier := .idle }
    | .idle | .gone => none
  | .halt => some (s.setOutbox { s.pipeline.outbox with running := false })
  | .exit =>
    match s.courier, s.pipeline.outbox.running with
    | .idle, false => some { s with courier := .gone }
    | _, _ => none
  | .drain =>
    match s.courier, s.pipeline.outbox.step? with
    | .gone, some (_, outbox) =>
      some ((s.setOutbox outbox).setFreight s.manifest.fetch.carry)
    | _, _ => none

/-- Let parties take steps one after the other. -/
def run? (s : Plant τ) (moves : List Move) : Option (Plant τ) :=
  moves.foldlM step? s

theorem run?_append {s s' s'' : Plant τ} {front back : List Move} (hfront : s.run? front = some s')
    (hback : s'.run? back = some s'') : s.run? (front ++ back) = some s'' := by
  rw [run?, List.foldlM_append]
  exact Option.bind_eq_some_iff.mpr ⟨s', hfront, hback⟩

omit [Transport τ] in
/-- A pipeline whose threads have just begun. -/
def start (p : Pipeline τ) : Plant τ where
  pipeline := p
  receivers :=
    List.replicate p.shards.length
      (match p.intake with
      | .channels _ => .listening
      | .direct | .stopped => .gone)
  courier := if p.outbox.running then .idle else .gone

/-! ## What steps come to -/

omit [Transport τ] in
/-- Let the receiver of a shard put down what it has in hand. -/
def letGo (s : Plant τ) (j : Nat) : Plant τ :=
  { s with pipeline := s.pipeline.atShard j fun shard o d => ({ shard with held := none }, o, d) }

/-- What a step comes to. -/
inductive Next (s : Plant τ) : Move → Plant τ → Prop
  /-- The sample is processed at once. -/
  | direct (sample : Sample) (hintake : s.pipeline.intake = .direct) :
    Next s (.dispatch sample)
      ((s.note ⟨sample, .accepted, .ok ()⟩).processAt (s.home sample) sample)
  | enqueue {settings : ChannelSettings} {shard : Shard} (sample : Sample)
    (hintake : s.pipeline.intake = .channels settings)
    (hreceiver : s.receivers[s.home sample]? ≠ some .gone)
    (hs : s.pipeline.shards[s.home sample]? = some shard)
    (hroom : shard.hasRoom settings.capacity = true) :
    Next s (.dispatch sample)
      { s.note ⟨sample, .accepted, .ok ()⟩ with
        pipeline :=
          { s.pipeline with
            shards := s.pipeline.shards.set (s.home sample) (shard.enqueue sample) } }
  | overflow {settings : ChannelSettings} {shard : Shard} (sample : Sample)
    (hintake : s.pipeline.intake = .channels settings)
    (hs : s.pipeline.shards[s.home sample]? = some shard)
    (hfull : shard.hasRoom settings.capacity = false) :
    Next s (.dispatch sample)
      { s.note
          ⟨sample, .full, if settings.reportFull then .error .channelFull else .ok ()⟩ with
        pipeline := { s.pipeline with overflowed := s.pipeline.overflowed + 1 } }
  | refuse (sample : Sample) (hintake : s.pipeline.intake ≠ .direct)
    (hclosed : s.pipeline.intake = .stopped ∨ s.receivers[s.home sample]? = some .gone) :
    Next s (.dispatch sample) (s.note ⟨sample, .closed, .error .closed⟩)
  | put (e : Entry) :
    Next s (.put e)
      { s.setFreight (s.manifest.put s.pipeline (s.pipeline.shardOf e.routingName) e none) with
        pipeline := s.pipeline.put e }
  | take (j : Nat) (hserving : s.isServing j = true) :
    Next s (.take j)
      { s with pipeline := s.pipeline.atShard j fun shard o d => (shard.take, o, d) }
  | process (j : Nat) {shard : Shard} {sample : Sample} (hserving : s.isServing j = true)
    (hs : s.pipeline.shards[j]? = some shard) (hheld : shard.held = some sample) :
    Next s (.process j) ((s.letGo j).processAt j sample)
  /-- A receiver goes on to stop; it leaves its shard only when nothing is left there. -/
  | turn (move : Move) (j : Nat) {before after : System.Receiver}
    (hmove : move = .clear j ∨ move = .leave j ∨ move = .retire j)
    (hbefore : s.receivers[j]? = some before) (hne : before ≠ .gone)
    (hstopping : before = .listening → s.stopping = true)
    (hafter : after.isServing = true ∨ before = .leaving ∨
      ∀ shard, s.pipeline.shards[j]? = some shard → shard.waiting = [] ∧ shard.held = none) :
    Next s move { s with receivers := s.receivers.set j after }
  | stop : Next s .stop { s with stopping := true }
  | handOver (j : Nat) :
    Next s (.handOver j)
      { s.setFreight (s.manifest.handOver s.pipeline j) with
        pipeline := s.pipeline.handOverAt j }
  | raise (caller : Nat) (hroom : s.pipeline.outbox.hasRoom = true) :
    Next s (.raise caller)
      ((s.setOutbox (s.pipeline.outbox.raise caller)).setFreight s.manifest.raise)
  | fetch {command : Command} {queue : List Command} (hcourier : s.courier = .idle)
    (hqueue : s.pipeline.outbox.queue = command :: queue) :
    Next s .fetch
      { (s.setOutbox { s.pipeline.outbox with queue }).setFreight s.manifest.fetch with
        courier := .holding command }
  | carry {command : Command} (hcourier : s.courier = .holding command) :
    Next s .carry
      { (s.setOutbox (s.pipeline.outbox.perform command)).setFreight s.manifest.carry with
        courier := .idle }
  | halt : Next s .halt (s.setOutbox { s.pipeline.outbox with running := false })
  | exit (hcourier : s.courier = .idle) (hstopped : s.pipeline.outbox.running = false) :
    Next s .exit { s with courier := .gone }
  | drain {command : Command} {queue : List Command} (hcourier : s.courier = .gone)
    (hqueue : s.pipeline.outbox.queue = command :: queue) :
    Next s .drain
      ((s.setOutbox (({ s.pipeline.outbox with queue } : Outbox τ).perform command)).setFreight
        s.manifest.fetch.carry)

omit [Transport τ] in
/-- What a receiver does with the sample in hand is to put it down and process it. -/
theorem release_eq {s : Plant τ} {j : Nat} {shard : Shard} {sample : Sample}
    (hs : s.pipeline.shards[j]? = some shard) (hheld : shard.held = some sample) :
    ({ s with
      pipeline := s.pipeline.atShard j Shard.release
      manifest := s.manifest.call s.pipeline j sample } : Plant τ) =
      (s.letGo j).processAt j sample := by
  have hlt := (List.getElem?_eq_some_iff.mp hs).1
  have hletGo : (s.letGo j).pipeline =
      { s.pipeline with shards := s.pipeline.shards.set j { shard with held := none } } := by
    rw [letGo, Pipeline.atShard_of_getElem? hs]
  have hafter : (s.letGo j).pipeline.shards[j]? = some { shard with held := none } := by
    rw [hletGo]
    exact List.getElem?_set_self hlt
  -- The packer of the shard is the same as before.
  have hmanifest : s.manifest.call (s.letGo j).pipeline j sample =
      s.manifest.call s.pipeline j sample := by
    have hdraws : (s.letGo j).pipeline.draws = s.pipeline.draws := by rw [hletGo]
    have houtbox : (s.letGo j).pipeline.outbox = s.pipeline.outbox := by rw [hletGo]
    simp only [Manifest.call, Freight.process, Freight.put, Freight.linesFor, Pipeline.encodedAt,
      hafter, hs, hdraws, houtbox]
  have hpipeline : s.pipeline.atShard j Shard.release =
      (s.letGo j).pipeline.atShard j fun shard o d => shard.process o d sample := by
    rw [Pipeline.atShard_of_getElem? hafter, Pipeline.atShard_of_getElem? hs, hletGo]
    simp [Shard.release, hheld]
  rw [processAt, hpipeline]
  show _ = ({ s.letGo j with
    pipeline := _, manifest := s.manifest.call (s.letGo j).pipeline j sample } : Plant τ)
  rw [hmanifest]
  rfl

omit [Transport τ] in
/-- Without channels, a sample is processed when it is dispatched. -/
theorem send_of_direct {s : Plant τ} (hintake : s.pipeline.intake = .direct) (sample : Sample) :
    s.send sample = (s.note ⟨sample, .accepted, .ok ()⟩).processAt (s.home sample) sample := by
  simp [send, dispatch, fate, hintake, Pipeline.dispatch_of_direct hintake]

/-- What comes of dispatching a sample. -/
theorem next_send (s : Plant τ) (hpos : 0 < s.pipeline.shards.length) (sample : Sample) :
    Next s (.dispatch sample) (s.send sample) := by
  have hlt : s.home sample < s.pipeline.shards.length := Nat.mod_lt _ hpos
  -- The sample has a shard, as there is at least one.
  have hs := List.getElem?_eq_getElem hlt
  generalize s.pipeline.shards[s.home sample] = shard at hs
  cases hintake : s.pipeline.intake with
  | direct =>
    rw [send_of_direct hintake]
    exact .direct sample hintake
  | stopped =>
    have hnext := Next.refuse sample (by simp [hintake]) (.inl hintake)
    simpa [send, dispatch, fate, hintake, note, Pipeline.dispatch_of_stopped hintake] using hnext
  | channels settings =>
    by_cases hgone : s.receivers[s.home sample]? = some .gone
    · have hnext := Next.refuse sample (by simp [hintake]) (.inr hgone)
      simpa [send, dispatch, fate, hintake, hgone, note] using hnext
    · have hdispatch : s.dispatch sample = s.pipeline.enqueue settings (s.home sample) sample := by
        rw [← show _ = s.pipeline.enqueue settings (s.home sample) sample from
          Pipeline.dispatch_of_channels hintake sample]
        unfold dispatch
        split
        next hreceiver => exact absurd hreceiver hgone
        next => rfl
      have hfate : s.fate sample =
          if s.pipeline.shards[s.home sample]?.any (·.hasRoom settings.capacity) then .accepted
          else .full := by
        simp only [fate, hintake]
      cases hroom : shard.hasRoom settings.capacity with
      | true =>
        have hfate : s.fate sample = .accepted := by
          simp [hfate, hs, hroom]
        have hnext := Next.enqueue sample hintake hgone hs hroom
        simpa [send, hdispatch, hfate, hintake, Pipeline.enqueue, hs, hroom, note] using hnext
      | false =>
        have hfate : s.fate sample = .full := by
          simp [hfate, hs, hroom]
        have hnext := Next.overflow sample hintake hs hroom
        simpa [send, hdispatch, hfate, hintake, Pipeline.enqueue, hs, hroom, note] using hnext

/-- What comes of a step. -/
theorem next_of_step? {s s' : Plant τ} (hpos : 0 < s.pipeline.shards.length) {move : Move}
    (hstep : s.step? move = some s') : Next s move s' := by
  cases move with
  | dispatch sample =>
    cases hstep
    exact next_send s hpos sample
  | put e =>
    cases hstep
    exact .put e
  | take j =>
    obtain ⟨hserving, hstep⟩ := Option.ite_none_right_eq_some.mp hstep
    cases hstep
    exact .take j hserving
  | process j =>
    simp only [step?] at hstep
    split at hstep <;> cases hstep
    next sample hserving hheld =>
      obtain ⟨shard, hs, hheld⟩ := Option.bind_eq_some_iff.mp hheld
      rw [release_eq hs hheld]
      exact .process j hserving hs hheld
  | clear j =>
    simp only [step?, turn?] at hstep
    split at hstep
    next hstopping =>
      obtain ⟨hguard, hstep⟩ := Option.ite_none_right_eq_some.mp hstep
      cases hstep
      exact .turn _ j (.inl rfl) hguard.1 (by simp) (fun _ => hstopping) (.inl rfl)
    · cases hstep
  | leave j =>
    simp only [step?, turn?] at hstep
    obtain ⟨⟨hbefore, hquiet⟩, hstep⟩ := Option.ite_none_right_eq_some.mp hstep
    cases hstep
    refine .turn _ j (.inr (.inl rfl)) hbefore (by simp) (by simp) (.inr (.inr ?_))
    intro shard hs
    simpa [hs, and_comm] using hquiet
  | retire j =>
    simp only [step?, turn?] at hstep
    obtain ⟨hguard, hstep⟩ := Option.ite_none_right_eq_some.mp hstep
    cases hstep
    exact .turn _ j (.inr (.inr rfl)) hguard.1 (by simp) (by simp) (.inr (.inl rfl))
  | stop =>
    cases hstep
    exact .stop
  | handOver j =>
    cases hstep
    exact .handOver j
  | raise caller =>
    obtain ⟨hroom, hstep⟩ := Option.ite_none_right_eq_some.mp hstep
    cases hstep
    exact .raise caller hroom
  | fetch =>
    simp only [step?] at hstep
    split at hstep <;> cases hstep
    next hcourier hqueue => exact .fetch hcourier hqueue
  | carry =>
    simp only [step?] at hstep
    split at hstep <;> cases hstep
    next hcourier => exact .carry hcourier
  | halt =>
    cases hstep
    exact .halt
  | exit =>
    simp only [step?] at hstep
    split at hstep <;> cases hstep
    next hcourier hstopped => exact .exit hcourier hstopped
  | drain =>
    simp only [step?] at hstep
    split at hstep <;> cases hstep
    next command outbox hcourier hnext =>
      cases hqueue : s.pipeline.outbox.queue with
      | nil =>
        rw [Outbox.step?, hqueue] at hnext
        cases hnext
      | cons first rest =>
        rw [Outbox.step?_of_queue_eq_cons hqueue] at hnext
        cases hnext
        exact .drain hcourier hqueue

end Plant

end DogStatsD
