import DogStatsD.Outbox

/-!
# Working off the Queue

Working the queue off is carrying out its commands one after the other, and flushing and closing an
outbox come down to that.

* `Outbox.perform_queue`: carrying out a command neither reads nor changes the queue;
* `Outbox.drain_of_queue_eq_cons`, `Outbox.drain_induction`: working off the queue, command by
  command;
* `Outbox.flush_eq_drain`, `Outbox.close_eq`: flushing and closing.
-/

namespace DogStatsD

namespace Outbox

variable {τ : Type} [Transport τ]

/-- An empty payload is not written, and goes back into the pool. -/
theorem deliver_of_isEmpty {payload : Payload} (h : payload.isEmpty = true) (o : Outbox τ) :
    o.deliver payload = { o with pool := o.pool.put payload } := by
  rw [deliver, if_pos h]

/-- A payload that is not empty is written, counted by the outcome, and put back. -/
theorem deliver_of_not_isEmpty {payload : Payload} (h : payload.isEmpty = false) (o : Outbox τ) :
    o.deliver payload =
      { o with
        transport := (Transport.write o.transport payload.text).2
        pool := o.pool.put payload
        ledger :=
          if (Transport.write o.transport payload.text).1.isOk then
            { o.ledger with sent := o.ledger.sent.count payload.size }
          else { o.ledger with failed := o.ledger.failed.count payload.size } } := by
  unfold deliver
  rw [h]
  obtain ⟨outcome, transport⟩ := Transport.write o.transport payload.text
  cases outcome <;> rfl

/-- Carrying out a command neither reads nor changes the queue. -/
theorem perform_queue (o : Outbox τ) (queue : List Command) (command : Command) :
    ({ o with queue } : Outbox τ).perform command = { o.perform command with queue } := by
  cases command with
  | barrier caller => rfl
  | payload payload =>
    show ({ o with queue } : Outbox τ).deliver payload = { o.deliver payload with queue }
    cases hempty : payload.isEmpty with
    | true => rw [deliver_of_isEmpty hempty, deliver_of_isEmpty hempty]
    | false => rw [deliver_of_not_isEmpty hempty, deliver_of_not_isEmpty hempty]

/-- To carry out a command puts nothing into the queue. -/
@[simp]
theorem queue_perform (o : Outbox τ) (command : Command) : (o.perform command).queue = o.queue := by
  show (({ o with queue := o.queue } : Outbox τ).perform command).queue = o.queue
  rw [perform_queue]

/-- The thread takes the first command of the queue and carries it out. -/
theorem step?_of_queue_eq_cons {o : Outbox τ} {command : Command} {rest : List Command}
    (h : o.queue = command :: rest) :
    o.step? = some (command, ({ o with queue := rest } : Outbox τ).perform command) := by
  rw [step?, h]

/-- The thread has nothing to do only if the queue is empty. -/
theorem queue_eq_nil_of_step? {o : Outbox τ} (h : o.step? = none) : o.queue = [] := by
  cases hqueue : o.queue with
  | nil => rfl
  | cons command rest =>
    rw [step?_of_queue_eq_cons hqueue] at h
    cases h

/-- An empty queue is worked off already. -/
theorem drain_of_queue_eq_nil {o : Outbox τ} (h : o.queue = []) : o.drain = o := by
  unfold drain
  rw [h, List.foldl_nil, ← h]

/-- Working off the queue is carrying out its head and then working off the rest. -/
theorem drain_of_queue_eq_cons {o : Outbox τ} {command : Command} {rest : List Command}
    (h : o.queue = command :: rest) :
    o.drain = (({ o with queue := rest } : Outbox τ).perform command).drain := by
  unfold drain
  rw [h, queue_perform, List.foldl_cons, perform_queue o [], perform_queue o rest]

/-- What holds still after every command holds after the queue is worked off. -/
theorem drain_induction {motive : Outbox τ → Prop}
    (step : ∀ (o : Outbox τ) (command : Command) (rest : List Command),
      o.queue = command :: rest → motive o →
        motive (({ o with queue := rest } : Outbox τ).perform command))
    {o : Outbox τ} (h : motive o) : motive o.drain := by
  -- The queue is emptied beforehand, whereas the steps are about its head: so the induction goes
  -- through outboxes that still have the rest of it.
  generalize hqueue : o.queue = commands
  induction commands generalizing o with
  | nil =>
    rw [drain_of_queue_eq_nil hqueue]
    exact h
  | cons command rest ih =>
    rw [drain_of_queue_eq_cons hqueue]
    exact ih (step o command rest hqueue h) (queue_perform _ command)

/-- To carry out a command does not stop the thread. -/
@[simp]
theorem running_perform (o : Outbox τ) (command : Command) :
    (o.perform command).running = o.running := by
  cases command with
  | barrier caller => rfl
  | payload payload =>
    show (o.deliver payload).running = o.running
    cases hempty : payload.isEmpty with
    | true => rw [deliver_of_isEmpty hempty]
    | false => rw [deliver_of_not_isEmpty hempty]

@[simp]
theorem running_drain (o : Outbox τ) : o.drain.running = o.running :=
  drain_induction (motive := fun later => later.running = o.running)
    (fun _ command _ _ h => (running_perform _ command).trans h) rfl

/-- Catching up does not stop the thread. -/
@[simp]
theorem running_catchUp (o : Outbox τ) : o.catchUp.running = o.running := by
  unfold catchUp
  split
  · exact running_drain o
  · rfl

/-- A thread that runs works off the whole queue. -/
theorem catchUp_of_running {o : Outbox τ} (h : o.running = true) : o.catchUp = o.drain :=
  if_pos h

/-- Nothing waits any more once the queue is worked off. -/
theorem queue_drain (o : Outbox τ) : o.drain.queue = [] := by
  generalize hqueue : o.queue = commands
  induction commands generalizing o with
  | nil => rw [drain_of_queue_eq_nil hqueue, hqueue]
  | cons command rest ih =>
    rw [drain_of_queue_eq_cons hqueue]
    exact ih _ (queue_perform _ command)

/-- A barrier in an empty queue changes nothing once it is taken out. -/
theorem drain_raise {o : Outbox τ} (h : o.queue = []) (caller : Nat) :
    (o.raise caller).drain = o := by
  have hraise : (o.raise caller).queue = [.barrier caller] := by
    rw [raise, h]
    rfl
  rw [drain_of_queue_eq_cons hraise]
  exact (drain_of_queue_eq_nil rfl).trans (by rw [perform, raise, ← h])

/-- Flushing is working off the queue, whoever does it. -/
theorem flush_eq_drain (o : Outbox τ) : o.flush = o.drain := by
  unfold flush
  rw [drain_raise (queue_drain o), ite_self]

/-- Behind a flush, the queue is empty. -/
theorem queue_flush (o : Outbox τ) : o.flush.queue = [] := by
  rw [flush_eq_drain]
  exact queue_drain o

/-- Closing works the queue off, stops the thread, and closes the transport. -/
theorem close_eq (o : Outbox τ) :
    o.close =
      ((Transport.close o.drain.transport).1,
        { o.drain with
          running := false, transport := (Transport.close o.drain.transport).2 }) := by
  have hidle : ({ o.drain with running := false } : Outbox τ).drain =
      { o.drain with running := false } :=
    drain_of_queue_eq_nil (queue_drain o)
  unfold close
  rw [flush_eq_drain, hidle]

end Outbox

end DogStatsD
