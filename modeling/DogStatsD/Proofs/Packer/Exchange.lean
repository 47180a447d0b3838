import DogStatsD.Packer
import DogStatsD.Proofs.Payload.Write

/-!
# Exchanging Payloads

A packer gives its payload to the outbox in exchange for an empty one out of the pool. The payload
it gets is empty because all that ever goes into the pool is.

* `Pool.Clean`, `Outbox.Clean`: only empty payloads are in the pool, and only payloads that will be
  welcome there are in the queue;
* `Clean.takeOver`, `Clean.deliverNext`: exchanging a payload and delivering one keep it so;
* `Packer.handOver_eq`: what a packer does with the outbox is exchanging its payload, unless that is
  empty.
-/

namespace DogStatsD

namespace Pool

/-- All payloads of the pool are empty and have the given limits. -/
structure Clean (p : Pool) (limits : Limits) : Prop where
  limits_eq : p.limits = limits
  /-- The payloads kept are as good as new. -/
  free_eq : ∀ payload ∈ p.free, payload = { limits }

/-- A new pool is clean: the payloads that it will give are empty. -/
theorem clean_new (capacity : Nat) (limits : Limits) : (Pool.new capacity limits).Clean limits where
  limits_eq := rfl
  free_eq _ hmem := (List.mem_replicate.mp hmem).2

/-- What is borrowed from a clean pool is as good as new. -/
theorem Clean.borrow_fst {p : Pool} {limits : Limits} (h : p.Clean limits) :
    p.borrow.1 = { limits } := by
  unfold borrow
  cases hfree : p.free with
  | nil => rw [h.limits_eq]
  | cons payload rest => exact h.free_eq payload (hfree ▸ List.mem_cons_self)

/-- Borrowing leaves a clean pool. -/
theorem Clean.borrow_snd {p : Pool} {limits : Limits} (h : p.Clean limits) :
    p.borrow.2.Clean limits := by
  unfold borrow
  cases hfree : p.free with
  | nil => exact h
  | cons payload rest =>
    exact ⟨h.limits_eq, fun q hq => h.free_eq q (hfree ▸ List.mem_cons_of_mem payload hq)⟩

/-- Putting a payload back leaves a clean pool, since it is emptied first. -/
theorem Clean.put {p : Pool} {limits : Limits} (h : p.Clean limits) {payload : Payload}
    (hlimits : payload.limits = limits) : (p.put payload).Clean limits := by
  unfold Pool.put
  split
  · refine ⟨h.limits_eq, ?_⟩
    intro q hq
    rcases List.mem_append.mp hq with hold | hnew
    · exact h.free_eq q hold
    · rw [List.mem_singleton.mp hnew, Payload.reset, hlimits]
  · exact h

end Pool

namespace Outbox

variable {τ : Type}

/-- Take a payload in exchange for an empty one. -/
def takeOver (o : Outbox τ) (payload : Payload) : Outbox τ :=
  o.borrow.2.post payload

def waiting (queue : List Command) : List Payload :=
  queue.filterMap fun
    | .payload payload => some payload
    | .barrier _ => none

@[simp]
theorem waiting_nil : waiting [] = [] := rfl

@[simp]
theorem waiting_cons_payload (payload : Payload) (queue : List Command) :
    waiting (.payload payload :: queue) = payload :: waiting queue := rfl

@[simp]
theorem waiting_cons_barrier (caller : Nat) (queue : List Command) :
    waiting (.barrier caller :: queue) = waiting queue := rfl

/-- The payloads in a queue wait in its order. -/
@[simp]
theorem waiting_append (front back : List Command) :
    waiting (front ++ back) = waiting front ++ waiting back :=
  List.filterMap_append

/-- The pool is clean, and the payloads waiting will leave it so. -/
structure Clean (o : Outbox τ) (limits : Limits) : Prop where
  pool : o.pool.Clean limits
  limits_eq : ∀ payload ∈ waiting o.queue, payload.limits = limits

/-- Borrowing takes an empty payload. -/
theorem Clean.borrow_fst {o : Outbox τ} {limits : Limits} (h : o.Clean limits) :
    o.borrow.1 = { limits } :=
  h.pool.borrow_fst

/-- Borrowing leaves the outbox clean. -/
theorem Clean.borrow_snd {o : Outbox τ} {limits : Limits} (h : o.Clean limits) :
    o.borrow.2.Clean limits :=
  ⟨h.pool.borrow_snd, h.limits_eq⟩

/-- Posting a payload leaves the outbox clean. -/
theorem Clean.post {o : Outbox τ} {limits : Limits} (h : o.Clean limits) {payload : Payload}
    (hlimits : payload.limits = limits) : (o.post payload).Clean limits := by
  unfold Outbox.post
  split
  · refine ⟨h.pool, ?_⟩
    intro q hq
    rw [waiting_append, List.mem_append] at hq
    rcases hq with hold | hnew
    · exact h.limits_eq q hold
    · rw [List.mem_singleton.mp hnew, hlimits]
  · exact ⟨h.pool.put hlimits, h.limits_eq⟩

/-- A barrier is no payload. -/
theorem Clean.raise {o : Outbox τ} {limits : Limits} (h : o.Clean limits) (caller : Nat) :
    (o.raise caller).Clean limits := by
  refine ⟨h.pool, fun payload hmem => h.limits_eq payload ?_⟩
  simpa [Outbox.raise] using hmem

/-- Exchanging a payload leaves the outbox clean. -/
theorem Clean.takeOver {o : Outbox τ} {limits : Limits} (h : o.Clean limits) {payload : Payload}
    (hlimits : payload.limits = limits) : (o.takeOver payload).Clean limits :=
  h.borrow_snd.post hlimits

variable [Transport τ]

/-- Delivering a payload leaves the outbox clean. -/
theorem Clean.deliver {o : Outbox τ} {limits : Limits} (h : o.Clean limits) {payload : Payload}
    (hlimits : payload.limits = limits) : (o.deliver payload).Clean limits := by
  unfold Outbox.deliver
  split
  · exact ⟨h.pool.put hlimits, h.limits_eq⟩
  · split <;> exact ⟨h.pool.put hlimits, h.limits_eq⟩

/-- What waits behind a command waited before. -/
theorem Clean.tail {τ : Type} {o : Outbox τ} {limits : Limits} (h : o.Clean limits)
    {command : Command} {rest : List Command} (hqueue : o.queue = command :: rest) :
    ({ o with queue := rest } : Outbox τ).Clean limits := by
  refine ⟨h.pool, fun payload hmem => h.limits_eq payload ?_⟩
  rw [hqueue]
  cases command with
  | payload first => exact List.mem_cons_of_mem first hmem
  | barrier caller => exact hmem

/-- Carrying out the command that stands first in the queue leaves the outbox clean. -/
theorem Clean.perform {o : Outbox τ} {limits : Limits} (h : o.Clean limits) {command : Command}
    {rest : List Command} (hqueue : o.queue = command :: rest) :
    (({ o with queue := rest } : Outbox τ).perform command).Clean limits := by
  cases command with
  | payload payload => exact (h.tail hqueue).deliver (h.limits_eq payload (by simp [hqueue]))
  | barrier caller => exact h.tail hqueue

/-- Let the thread of the outbox carry out one command, if any waits. -/
def deliverNext (o : Outbox τ) : Outbox τ :=
  match o.step? with
  | none => o
  | some (_, o) => o

theorem deliverNext_of_queue_eq_nil {o : Outbox τ} (h : o.queue = []) : o.deliverNext = o := by
  simp [deliverNext, step?, h]

/-- The thread carries out the first command of the queue. -/
theorem deliverNext_of_queue_eq_cons {o : Outbox τ} {command : Command} {rest : List Command}
    (h : o.queue = command :: rest) :
    o.deliverNext = ({ o with queue := rest } : Outbox τ).perform command := by
  simp [deliverNext, step?, h]

/-- Carrying out a command, if any waits, leaves the outbox clean. -/
theorem Clean.deliverNext {o : Outbox τ} {limits : Limits} (h : o.Clean limits) :
    o.deliverNext.Clean limits := by
  cases hqueue : o.queue with
  | nil =>
    rw [deliverNext_of_queue_eq_nil hqueue]
    exact h
  | cons command rest =>
    rw [deliverNext_of_queue_eq_cons hqueue]
    exact h.perform hqueue

end Outbox

namespace Packer

variable {τ : Type}

/-- A packer hands over by exchanging its payload, unless nothing was written to it. -/
theorem handOver_eq {p : Packer} {o : Outbox τ} {limits : Limits} (h : o.Clean limits) :
    p.handOver o =
      if p.current.lines = 0 then (p, o)
      else ({ p with current := { limits } }, o.takeOver p.current) := by
  unfold handOver Payload.isEmpty
  by_cases hempty : p.current.lines = 0
  · simp [hempty]
  · simp [hempty, h.borrow_fst, Outbox.takeOver]

/-- Handing over leaves the settings of the lines alone. -/
@[simp]
theorem options_handOver (p : Packer) (o : Outbox τ) : (p.handOver o).1.options = p.options := by
  unfold handOver
  split <;> rfl

/-- A sample that the payload being filled has room for is written there. -/
theorem addSample_of_hasRoom {p : Packer} {o : Outbox τ} {s : Sample}
    (h : p.current.HasRoom (Line.ofSample p.options s)) :
    p.addSample o s = ({ p with current := p.current.append (Line.ofSample p.options s) }, o) := by
  rw [addSample, Payload.writeSample_of_hasRoom h]

/-- Any other sample is written to the payload that the packer goes on with, if that has room for
it, and dropped otherwise. -/
theorem addSample_of_not_hasRoom {p : Packer} {o : Outbox τ} {s : Sample}
    (h : ¬p.current.HasRoom (Line.ofSample p.options s)) :
    p.addSample o s =
      let q := (p.handOver o).1
      (if q.current.HasRoom (Line.ofSample p.options s) then
          { q with current := q.current.append (Line.ofSample p.options s) }
        else q.drop,
        (p.handOver o).2) := by
  have hoptions := options_handOver p o
  have hsame : { p with current := p.current } = p := rfl
  -- The write that failed left the payload as it was.
  rw [addSample, Payload.writeSample_of_not_hasRoom h]
  dsimp only
  rw [hsame]
  generalize p.handOver o = q at hoptions ⊢
  rw [← hoptions, Payload.writeSample_eq]
  by_cases hroom : q.1.current.HasRoom (Line.ofSample q.1.options s)
  · simp only [hroom, if_true]
  · simp only [hroom, if_false]

end Packer

end DogStatsD
