import DogStatsD.Proofs.Plant.Basic
import DogStatsD.Proofs.Pool.Usage
import DogStatsD.Proofs.System.Neat

/-!
# The Stock of a Pipeline

The payloads of a pipeline come out of one pool. Each shard always has one of them, and all others
that are out wait in the queue or are just being written. So whatever becomes of payloads, whether
they are sent, fail or find the queue full, the pool lacks no more than these.

* `Outbox.Stocked`: the pool lacks no more payloads than are held and waiting;
* `Shard.KeepsStock`: what a shard does with an outbox keeps it so;
* `Pipeline.Act`, `Pipeline.Stocked.act`: whatever a pipeline does keeps it so;
* `Plant.Stocked.step`, `Plant.Stocked.run`: so does every step of its threads;
* `Pool.clean_and_stocked`: what a pool gives out and what it has left, whoever uses it.
-/

namespace DogStatsD

/-! ## Outboxes -/

namespace Outbox

variable {τ : Type} {capacity held : Nat} {o : Outbox τ}

/-- The pool lacks no more payloads than are held by the users of the outbox or wait in its
queue. -/
def Stocked (capacity held : Nat) (o : Outbox τ) : Prop :=
  o.pool.Stocked capacity (held + (waiting o.queue).length)

/-- Whoever borrows a payload holds one more. -/
theorem Stocked.borrow (h : o.Stocked capacity held) : o.borrow.2.Stocked capacity (held + 1) := by
  have hpool := Pool.Stocked.borrow h
  rwa [Nat.add_right_comm] at hpool

/-- A payload that is posted waits, or goes back at once. -/
theorem Stocked.post (h : o.Stocked capacity (held + 1)) (payload : Payload) :
    (o.post payload).Stocked capacity held := by
  unfold Stocked at *
  unfold Outbox.post
  split
  · -- One fewer is held, and one more waits.
    rw [waiting_append, List.length_append, ← Nat.add_assoc, Nat.add_right_comm]
    exact h
  · rw [Nat.add_right_comm] at h
    exact h.put payload

/-- A barrier is no payload. -/
theorem Stocked.raise (h : o.Stocked capacity held) (caller : Nat) :
    (o.raise caller).Stocked capacity held := by
  unfold Stocked Outbox.raise at *
  rwa [waiting_append, waiting_cons_barrier, waiting_nil, List.append_nil]

/-- Whoever takes a command out of the queue holds its payload. -/
theorem Stocked.tail (h : o.Stocked capacity held) {command : Command} {rest : List Command}
    (hqueue : o.queue = command :: rest) :
    ({ o with queue := rest } : Outbox τ).Stocked capacity
      (held + (waiting [command]).length) := by
  have hwaiting : waiting o.queue = waiting [command] ++ waiting rest := by
    rw [hqueue, ← waiting_append, List.singleton_append]
  unfold Stocked at *
  rwa [hwaiting, List.length_append, ← Nat.add_assoc] at h

variable [Transport τ]

/-- A payload goes back to the pool whether it was written, failed or was empty. -/
theorem Stocked.deliver (h : o.Stocked capacity (held + 1)) (payload : Payload) :
    (o.deliver payload).Stocked capacity held := by
  have hput : (o.pool.put payload).Stocked capacity (held + (waiting o.queue).length) := by
    unfold Stocked at h
    rw [Nat.add_right_comm] at h
    exact h.put payload
  cases hempty : payload.isEmpty with
  | true =>
    rw [deliver_of_isEmpty hempty]
    exact hput
  | false =>
    rw [deliver_of_not_isEmpty hempty]
    exact hput

/-- Carrying a command out gives its payload back. -/
theorem Stocked.perform {command : Command}
    (h : o.Stocked capacity (held + (waiting [command]).length)) :
    (o.perform command).Stocked capacity held := by
  cases command with
  | payload payload => exact h.deliver payload
  | barrier caller => exact h

/-- Carrying out the command that stands first in the queue takes nothing out of stock. -/
theorem Stocked.next (h : o.Stocked capacity held) {command : Command} {rest : List Command}
    (hqueue : o.queue = command :: rest) :
    (({ o with queue := rest } : Outbox τ).perform command).Stocked capacity held :=
  (h.tail hqueue).perform

/-- The thread of the outbox keeps the stock: a payload that it writes goes back into the pool. -/
theorem Stocked.deliverNext (h : o.Stocked capacity held) :
    o.deliverNext.Stocked capacity held := by
  cases hqueue : o.queue with
  | nil =>
    rw [deliverNext_of_queue_eq_nil hqueue]
    exact h
  | cons command rest =>
    rw [deliverNext_of_queue_eq_cons hqueue]
    exact h.next hqueue

/-- Working off the whole queue keeps the stock. -/
theorem Stocked.drain (h : o.Stocked capacity held) : o.drain.Stocked capacity held :=
  drain_induction (motive := Stocked capacity held) (fun _ _ _ hqueue ho => ho.next hqueue) h

/-- When receivers and the thread of the outbox catch up, the stock is kept. -/
theorem Stocked.catchUp (h : o.Stocked capacity held) : o.catchUp.Stocked capacity held := by
  unfold Outbox.catchUp
  split
  · exact h.drain
  · exact h

/-- A flush adds a barrier to the queue and no payload, so that the stock is kept. -/
theorem Stocked.flush (h : o.Stocked capacity held) : o.flush.Stocked capacity held := by
  rw [flush_eq_drain]
  exact h.drain

/-- What is left in the queue goes back into the pool when the outbox is closed, too. -/
theorem Stocked.close (h : o.Stocked capacity held) : o.close.2.Stocked capacity held := by
  rw [close_eq]
  exact h.drain

end Outbox

/-! ## Shards -/

section Packer

variable {τ : Type} {capacity held : Nat} {o : Outbox τ}

/-- A packer has one payload before it hands over and one afterwards. -/
theorem Outbox.Stocked.handOver (h : o.Stocked capacity held) (p : Packer) :
    (p.handOver o).2.Stocked capacity held := by
  unfold Packer.handOver
  split
  · exact h
  · exact h.borrow.post p.current

/-- A packer takes as many payloads out of the pool as it hands over, whatever the entry. -/
theorem Outbox.Stocked.add (h : o.Stocked capacity held) (p : Packer) (e : Entry) :
    (p.add o e).2.Stocked capacity held :=
  Packer.related_add (R := fun o later => o.Stocked capacity held → later.Stocked capacity held)
    (fun _ ho => ho) (fun hfirst hlast ho => hlast (hfirst ho)) (fun p _ ho => ho.handOver p)
    p o e h

end Packer

namespace Shard

variable {τ : Type}

/-- An operation after which the pool lacks no more payloads than before, since the shard has one
before and one afterwards. -/
def KeepsStock (f : Shard → Outbox τ → Draws → Shard × Outbox τ × Draws) : Prop :=
  ∀ ⦃capacity held : Nat⦄ (s : Shard) (o : Outbox τ) (d : Draws),
    o.Stocked capacity held → (f s o d).2.1.Stocked capacity held

/-- A sample that is processed is written by the packer, or left out by sampling. -/
theorem keepsStock_process (sample : Sample) :
    KeepsStock fun s (o : Outbox τ) d => s.process o d sample := by
  intro capacity held s o d h
  dsimp only
  obtain ⟨d', hskip | hadd⟩ := s.process_cases o d sample
  · rw [hskip]
    exact h
  · rw [hadd]
    exact h.add s.packer (.sample sample)

theorem keepsStock_put (e : Entry) :
    KeepsStock fun s (o : Outbox τ) d => ((s.put o e).1, (s.put o e).2, d) :=
  fun _ _ s _ _ h => h.add s.packer e

theorem keepsStock_handOver :
    KeepsStock fun s (o : Outbox τ) d => ((s.handOver o).1, (s.handOver o).2, d) :=
  fun _ _ s _ _ h => h.handOver s.packer

/-- A receiver processes a sample of its channel, which takes no payload by itself. -/
theorem keepsStock_receive : KeepsStock fun s (o : Outbox τ) d => s.receive o d := by
  intro capacity held s o d h
  dsimp only [receive]
  split
  · exact keepsStock_process _ _ o d h
  · exact h

theorem keepsStock_hold :
    KeepsStock fun s (o : Outbox τ) d => ((s.hold o).1, (s.hold o).2, d) := by
  intro capacity held s o d h
  dsimp only [hold]
  split
  · exact h.handOver s.packer
  · exact h

theorem keepsStock_take : KeepsStock fun s (o : Outbox τ) d => (s.take, o, d) :=
  fun _ _ _ _ _ h => h

theorem keepsStock_release : KeepsStock fun s (o : Outbox τ) d => s.release o d := by
  intro capacity held s o d h
  dsimp only [release]
  split
  · exact keepsStock_process _ _ o d h
  · exact h

variable [Transport τ]

/-- So do any samples that are processed one after the other. -/
theorem keepsStock_processAll (samples : List Sample) :
    KeepsStock fun s (o : Outbox τ) d => s.processAll o d samples := by
  induction samples with
  | nil => exact fun _ _ _ _ _ h => h
  | cons sample rest ih =>
    intro capacity held s o d h
    exact ih _ _ _ (keepsStock_process sample s o d h).catchUp

theorem keepsStock_catchUp : KeepsStock fun s (o : Outbox τ) d => s.catchUp o d := by
  intro capacity held s o d h
  dsimp only [catchUp]
  split
  · exact h
  · exact keepsStock_processAll s.waiting _ o d h

/-- A receiver that finishes processes what is left and lets its packer hand over. -/
theorem keepsStock_finish : KeepsStock fun s (o : Outbox τ) d => s.finish o d :=
  fun _ _ s o d h => keepsStock_catchUp _ _ _ (keepsStock_release s o d h).catchUp

end Shard

/-! ## Pipelines -/

namespace Pipeline

variable {τ : Type}

/-- Each shard has a payload, `others` are out besides those waiting, and the pool lacks no more
than all of these. -/
structure Stocked (capacity count others : Nat) (p : Pipeline τ) : Prop where
  length_eq : p.shards.length = count
  outbox : p.outbox.Stocked capacity (count + others)

variable {capacity count others : Nat} {p : Pipeline τ}

/-- An outbox may change, as long as the stock is right together with the shards. -/
theorem Stocked.setOutbox (h : p.Stocked capacity count others) {o : Outbox τ}
    {later : Nat} (ho : o.Stocked capacity (count + later)) :
    ({ p with outbox := o } : Pipeline τ).Stocked capacity count later :=
  ⟨h.length_eq, ho⟩

/-- What keeps the stock at one shard keeps it in the pipeline. -/
theorem Stocked.atShard (h : p.Stocked capacity count others) (i : Nat)
    {f : Shard → Outbox τ → Draws → Shard × Outbox τ × Draws} (hf : Shard.KeepsStock f) :
    (p.atShard i f).Stocked capacity count others := by
  refine ⟨length_atShard.trans h.length_eq, ?_⟩
  unfold Pipeline.atShard
  split
  · exact h.outbox
  · exact hf _ _ _ h.outbox

/-- What keeps the stock at every shard keeps it in the pipeline. -/
theorem Stocked.atShards (h : p.Stocked capacity count others)
    {f : Shard → Outbox τ → Draws → Shard × Outbox τ × Draws} (hf : Shard.KeepsStock f) :
    (p.atShards f).Stocked capacity count others := by
  rw [atShards_eq_foldl]
  generalize List.range p.shards.length = indices
  induction indices generalizing p with
  | nil => exact h
  | cons i rest ih => exact ih (h.atShard i hf)

theorem Stocked.put (h : p.Stocked capacity count others) (e : Entry) :
    (p.put e).Stocked capacity count others :=
  h.atShard _ (Shard.keepsStock_put e)

theorem Stocked.handOverAt (h : p.Stocked capacity count others) (i : Nat) :
    (p.handOverAt i).Stocked capacity count others :=
  h.atShard i Shard.keepsStock_handOver

/-- A sample that waits or is turned away has no payload. -/
theorem Stocked.dispatch (h : p.Stocked capacity count others) (sample : Sample) :
    (p.dispatch sample).2.Stocked capacity count others := by
  cases hintake : p.intake with
  | direct =>
    rw [dispatch_of_direct hintake]
    exact h.atShard _ (Shard.keepsStock_process sample)
  | stopped =>
    rw [dispatch_of_stopped hintake]
    exact h
  | channels settings =>
    rw [dispatch_of_channels hintake, enqueue]
    split
    · exact h
    · split
      · exact ⟨List.length_set.trans h.length_eq, h.outbox⟩
      · exact ⟨h.length_eq, h.outbox⟩

/-- Each new shard borrows a payload. -/
theorem stocked_newShards {held : Nat} {o : Outbox τ} (h : o.Stocked capacity held)
    (options : Line.Options) (count : Nat) :
    (newShards options o count).1.length = count ∧
      (newShards options o count).2.Stocked capacity (held + count) := by
  induction count generalizing o held with
  | zero => exact ⟨rfl, h⟩
  | succ count ih =>
    -- The first shard borrows, so the others come to an outbox whose users hold one more.
    obtain ⟨hlength, houtbox⟩ := ih h.borrow
    rw [Nat.add_right_comm] at houtbox
    exact ⟨congrArg (· + 1) hlength, houtbox⟩

/-- A new pipeline has borrowed a payload for each of its shards. -/
theorem stocked_new (options : Line.Options) (count : Nat) (route : String → Nat) (draws : Draws)
    {o : Outbox τ} (h : o.Stocked capacity 0) :
    (Pipeline.new options count route draws o).Stocked capacity count 0 := by
  obtain ⟨hlength, houtbox⟩ := stocked_newShards h options count
  rw [Nat.zero_add] at houtbox
  exact ⟨hlength, houtbox⟩

/-- What can happen at a pipeline, until it is closed and afterwards. -/
inductive Act where
  | dispatch (sample : Sample)
  /-- An entry out of the aggregator is written. -/
  | put (entry : Entry)
  | receive (shard : Nat)
  /-- The receiver of a name is held up with the sample that it takes next. -/
  | hold (name : String)
  | release
  | handOver (shard : Nat)
  /-- Receivers and the thread of the outbox work off what waits for them. -/
  | catchUp
  | flush
  | openChannels (settings : ChannelSettings)
  | stop
  | start
  | raise (caller : Nat)
  /-- The command that stands first in the queue is carried out. -/
  | deliver
  | halt
  | close

variable [Transport τ]

def Act.run (p : Pipeline τ) : Act → Pipeline τ
  | .dispatch sample => (p.dispatch sample).2
  | .put e => p.put e
  | .receive i => p.receive i
  | .hold name => p.hold name
  | .release => p.release
  | .handOver i => p.handOverAt i
  | .catchUp => p.catchUp
  | .flush => p.flush
  | .openChannels settings => p.openChannels settings
  | .stop => p.stop
  | .start => { p with outbox := p.outbox.start }
  | .raise caller => { p with outbox := p.outbox.raise caller }
  | .deliver => { p with outbox := p.outbox.deliverNext }
  | .halt => { p with outbox := { p.outbox with running := false } }
  | .close => { p with outbox := p.outbox.close.2 }

/-- Receivers that are let go of keep the stock. -/
theorem Stocked.release (h : p.Stocked capacity count others) :
    p.release.Stocked capacity count others :=
  have hshards := h.atShards Shard.keepsStock_finish
  hshards.setOutbox hshards.outbox.catchUp

theorem Stocked.catchUp (h : p.Stocked capacity count others) :
    p.catchUp.Stocked capacity count others :=
  have hshards := h.atShards Shard.keepsStock_catchUp
  hshards.setOutbox hshards.outbox.catchUp

/-- All shards hand over, while the thread of the outbox keeps up. -/
theorem Stocked.handOver (h : p.Stocked capacity count others) :
    p.handOver.Stocked capacity count others :=
  h.atShards fun _ _ s o d ho => (Shard.keepsStock_handOver s o d ho).catchUp

/-- Whatever is done to a pipeline, its stock is kept. -/
theorem Stocked.act (h : p.Stocked capacity count others) (act : Act) :
    (act.run p).Stocked capacity count others := by
  cases act with
  | dispatch sample => exact h.dispatch sample
  | put e => exact h.put e
  | receive i => exact h.atShard i Shard.keepsStock_receive
  | hold name => exact h.atShard _ Shard.keepsStock_hold
  | release => exact h.release
  | handOver i => exact h.handOverAt i
  | catchUp => exact h.catchUp
  | flush => exact h.handOver.setOutbox h.handOver.outbox.flush
  | openChannels settings => exact ⟨h.length_eq, h.outbox⟩
  | stop =>
    simp only [Act.run, Pipeline.stop]
    split
    · exact ⟨h.release.length_eq, h.release.outbox⟩
    · exact h
    · exact h
  | start => exact h.setOutbox h.outbox
  | raise caller => exact h.setOutbox (h.outbox.raise caller)
  | deliver => exact h.setOutbox h.outbox.deliverNext
  | halt => exact h.setOutbox h.outbox
  | close => exact h.setOutbox h.outbox.close

/-- So it is after anything done to a pipeline. -/
theorem Stocked.acts (h : p.Stocked capacity count others) (acts : List Act) :
    (acts.foldl Act.run p).Stocked capacity count others := by
  induction acts generalizing p with
  | nil => exact h
  | cons act rest ih => exact ih (h.act act)

end Pipeline

/-! ## Threads -/

namespace Plant

variable {τ : Type}

/-- Besides those of the shards and those waiting, the courier has the payload that it is about to
write. -/
def Stocked (capacity count : Nat) (s : Plant τ) : Prop :=
  s.pipeline.Stocked capacity count (Outbox.waiting s.courier.inHand).length

variable {capacity count : Nat} {s s' : Plant τ}

/-- A step that does not concern the courier is a matter of the pipeline. -/
theorem Stocked.of_pipeline (h : s.Stocked capacity count)
    (hpipeline : ∀ {others : Nat}, s.pipeline.Stocked capacity count others →
      s'.pipeline.Stocked capacity count others)
    (hcourier : s'.courier = s.courier) : s'.Stocked capacity count := by
  unfold Stocked at *
  rw [hcourier]
  exact hpipeline h

/-- To send a sample is no matter of the courier. -/
theorem courier_send (s : Plant τ) (sample : Sample) : (s.send sample).courier = s.courier := by
  unfold send
  dsimp only
  split <;> rfl

/-- A sample is dispatched, unless the receiver of its channel is gone. -/
theorem pipeline_send (s : Plant τ) (sample : Sample) :
    (s.send sample).pipeline = s.pipeline ∨
      (s.send sample).pipeline = (s.pipeline.dispatch sample).2 := by
  by_cases hintake : s.pipeline.intake = .direct
  · rw [send_of_direct hintake, Pipeline.dispatch_of_direct hintake]
    exact .inr rfl
  · have hsend : (s.send sample).pipeline = (s.dispatch sample).2 := by
      simp only [send, hintake, if_false]
    rw [hsend, dispatch]
    split
    · exact .inl rfl
    · exact .inr rfl

variable [Transport τ]

/-- Every step of a plant keeps its stock. -/
theorem Stocked.step (h : s.Stocked capacity count) {move : Move} (hstep : s.step? move = some s') :
    s'.Stocked capacity count := by
  cases move with
  | dispatch sample =>
    cases hstep
    refine h.of_pipeline (fun hp => ?_) (courier_send s sample)
    -- A channel whose receiver is gone takes no sample, and the pipeline stays as it is.
    rcases pipeline_send s sample with hsame | hsent
    · rwa [hsame]
    · rw [hsent]
      exact hp.dispatch sample
  | put e =>
    cases hstep
    exact h.of_pipeline (fun hp => hp.put e) rfl
  | take j =>
    obtain ⟨-, hstep⟩ := Option.ite_none_right_eq_some.mp hstep
    cases hstep
    exact h.of_pipeline (fun hp => hp.atShard j Shard.keepsStock_take) rfl
  | process j =>
    simp only [step?] at hstep
    split at hstep <;> cases hstep
    exact h.of_pipeline (fun hp => hp.atShard j Shard.keepsStock_release) rfl
  | clear j =>
    simp only [step?, turn?] at hstep
    split at hstep
    · split at hstep <;> cases hstep
      exact h
    · cases hstep
  | leave j | retire j =>
    simp only [step?, turn?] at hstep
    split at hstep <;> cases hstep
    exact h
  | stop =>
    cases hstep
    exact h
  | handOver j =>
    cases hstep
    exact h.of_pipeline (fun hp => hp.handOverAt j) rfl
  | raise caller =>
    obtain ⟨-, hstep⟩ := Option.ite_none_right_eq_some.mp hstep
    cases hstep
    exact h.of_pipeline (fun hp => hp.setOutbox (hp.outbox.raise caller)) rfl
  | fetch =>
    simp only [step?] at hstep
    split at hstep <;> cases hstep
    next hcourier hqueue =>
      -- What was in the queue is now in hand.
      unfold Stocked at h
      rw [hcourier] at h
      exact h.setOutbox (h.outbox.tail hqueue)
  | carry =>
    simp only [step?] at hstep
    split at hstep <;> cases hstep
    next command hcourier =>
      -- What was in hand goes back to the pool, and nothing is in hand any more.
      unfold Stocked at h
      rw [hcourier] at h
      have hperform : (s.pipeline.outbox.perform command).Stocked capacity (count + 0) :=
        h.outbox.perform
      exact h.setOutbox hperform
  | halt =>
    cases hstep
    exact h.of_pipeline (fun hp => hp.setOutbox hp.outbox) rfl
  | exit =>
    simp only [step?] at hstep
    split at hstep <;> cases hstep
    next hcourier _ =>
      unfold Stocked at h
      rw [hcourier] at h
      exact h
  | drain =>
    simp only [step?] at hstep
    split at hstep <;> cases hstep
    next command outbox hcourier hnext =>
      refine h.of_pipeline (fun hp => hp.setOutbox ?_) rfl
      have hlater := hp.outbox.deliverNext
      rwa [Outbox.deliverNext, hnext] at hlater

/-- So it is after any steps of a plant. -/
theorem Stocked.run (h : s.Stocked capacity count) {moves : List Move}
    (hrun : s.run? moves = some s') : s'.Stocked capacity count :=
  steps_induction (motive := fun _ t => t.Stocked capacity count) hrun h
    fun _ _ _ _ hstocked hstep => hstocked.step hstep

omit [Transport τ] in
/-- At first, nothing has been taken out of the queue. -/
theorem stocked_start {p : Pipeline τ} (h : p.Stocked capacity count 0) :
    (Plant.start p).Stocked capacity count := by
  have hnone : (Plant.start p).courier.inHand = [] := by
    unfold start
    dsimp only
    split <;> rfl
  unfold Stocked
  rw [hnone]
  exact h

end Plant

/-! ## Pools -/

/-- However payloads are borrowed from a pool, written to, reset and put back: all payloads in the
pool are empty, and the next one borrowed shows what a new one would show. There are never more in
the pool than its capacity, and no fewer than its capacity without those that are out; so once all
are put back, the pool is full.

In a pipeline, those that are out are one for each shard and those that wait in the queue, whatever
has become of all others. While the threads of the pipeline are at work, a payload that the courier
has taken out of the queue and is about to write counts as one that waits. -/
theorem Pool.clean_and_stocked (capacity : Nat) (limits : Limits) :
    (∀ acts : List Usage.Act,
      let u := Usage.run { pool := .new capacity limits } acts
      (∀ payload ∈ u.pool.free, payload.isEmpty = true ∧ payload.text = "") ∧
      (∀ (options : Line.Options) (steps : List Payload.Step),
        u.pool.borrow.1.observe options steps = ({ limits } : Payload).observe options steps) ∧
      u.pool.available ≤ max capacity 1 ∧
      max capacity 1 ≤ u.pool.available + u.out.length ∧
      (u.out = [] → u.pool.available = max capacity 1)) ∧
    ∀ (τ : Type) [Transport τ] (transport : τ) (options : Line.Options) (count queueCapacity : Nat)
      (route : String → Nat) (draws : Draws) (running : Bool),
      let start :=
        Pipeline.new options count route draws
          { capacity := queueCapacity, running, transport, pool := .new capacity limits }
      (∀ acts : List Pipeline.Act,
        let o := (acts.foldl Pipeline.Act.run start).outbox
        o.pool.available ≤ max capacity 1 ∧
        max capacity 1 ≤ o.pool.available + (count + (Outbox.waiting o.queue).length)) ∧
      ∀ (intake : Intake) (moves : List Plant.Move) (s : Plant τ),
        (Plant.start { start with intake }).run? moves = some s →
        let o := s.pipeline.outbox
        o.pool.available ≤ max capacity 1 ∧
        max capacity 1 ≤
          o.pool.available + (count + (Outbox.waiting (s.courier.inHand ++ o.queue)).length) := by
  refine ⟨fun acts => ?_, fun τ _ transport options count queueCapacity route draws running => ?_⟩
  · intro u
    have hsound : u.Sound (max capacity 1) limits := (Usage.sound_new capacity limits).run acts
    refine ⟨fun payload hmem => hsound.isEmpty_of_mem_free hmem, fun options steps => ?_,
      hsound.stocked.available_le, hsound.stocked.le_available, fun hout => ?_⟩
    · rw [hsound.clean.borrow_fst]
    -- With none out, the bounds meet.
    · have hstocked := hsound.stocked
      rw [hout] at hstocked
      exact hstocked.available_eq
  · intro start
    have hstart : start.Stocked (max capacity 1) count 0 :=
      Pipeline.stocked_new options count route draws (stocked_new capacity limits)
    refine ⟨fun acts => ?_, fun intake moves s hrun => ?_⟩
    · have hacts := (hstart.acts acts).outbox
      exact ⟨hacts.available_le, hacts.le_available⟩
    · have hintake : ({ start with intake } : Pipeline τ).Stocked (max capacity 1) count 0 :=
        ⟨hstart.length_eq, hstart.outbox⟩
      have hplant := ((Plant.stocked_start hintake).run hrun).outbox
      refine ⟨hplant.available_le, ?_⟩
      rw [Outbox.waiting_append, List.length_append, ← Nat.add_assoc count]
      exact hplant.le_available

end DogStatsD
