import DogStatsD.Proofs.Outbox.Accounting
import DogStatsD.Proofs.System.Basic
import Mathlib.Data.List.Nodup
import Mathlib.Data.List.Range

/-!
# An Outbox and Its Users

Callers post payloads, wait for a barrier and close an outbox, while a courier takes one command
after the other out of its queue. A caller that closes the outbox waits for a barrier of its own,
stops the courier, and works off itself what the courier has left behind.

Barriers are numbered, so that each can be told from all others. A journal notes which commands have
come into the queue and which were carried out, in this order; no step depends on it.

* `Depot.step?`, `Depot.run?`: a step of one party, and steps one after the other;
* `Journal.Sound`: what has come into the queue is what was carried out, then what is left, and the
  payloads are accounted for;
* `Depot.Sound`: the same when the courier has a command in hand; the barriers, too, are accounted
  for;
* `Depot.Sound.step`, `Depot.Sound.run`: steps keep it so;
* `Depot.barrier_and_handover`: what this comes to for those who use the outbox.
-/

namespace DogStatsD

open Outbox (waiting textsOf)

/-! ## Journals -/

/-- The number of a barrier. -/
def Command.ticket? : Command → Option Nat
  | .barrier ticket => some ticket
  | .payload _ => none

/-- The numbers of the barriers among commands. -/
def Outbox.tickets (commands : List Command) : List Nat :=
  commands.filterMap Command.ticket?

@[simp]
theorem Outbox.tickets_append (front back : List Command) :
    tickets (front ++ back) = tickets front ++ tickets back :=
  List.filterMap_append

@[simp]
theorem Outbox.tickets_singleton (command : Command) :
    tickets [command] = command.ticket?.toList := by
  cases command <;> rfl

/-- What has happened to payloads and commands. -/
structure Journal where
  /-- The payloads posted, the oldest first. -/
  posted : List Payload := []
  /-- The commands that have come into the queue, the oldest first. -/
  queued : List Command := []
  /-- The commands that were carried out, the oldest first. -/
  done : List Command := []
  fates : Fates := {}

namespace Journal

open Outbox.History (Sorts)

variable {τ : Type}

/-- Post a payload to an outbox. -/
def post (j : Journal) (o : Outbox τ) (payload : Payload) : Journal where
  posted := j.posted ++ [payload]
  queued := if o.hasRoom then j.queued ++ [.payload payload] else j.queued
  done := j.done
  fates := j.fates.post o payload

/-- Put a barrier into the queue. -/
def raise (j : Journal) (ticket : Nat) : Journal :=
  { j with queued := j.queued ++ [.barrier ticket] }

/-- Let an outbox carry out a command. -/
def perform [Transport τ] (j : Journal) (o : Outbox τ) (command : Command) : Journal :=
  { j with done := j.done ++ [command], fates := j.fates.perform o command }

/-- What has come into the queue of an outbox was carried out or waits there, and all payloads
posted are accounted for. -/
structure Sound (failsWrite : Nat → Bool) (pool : Pool) (j : Journal) (o : Outbox Scripted) :
    Prop where
  queued_eq : j.queued = j.done ++ o.queue
  admitted_eq : j.fates.admitted = waiting j.queued
  sorts : Sorts j.posted j.fates.admitted j.fates.refused
  fates : Outbox.History.Sound failsWrite pool j.fates o

variable {failsWrite : Nat → Bool} {pool : Pool} {j : Journal} {o : Outbox Scripted}

/-- A payload that finds room comes into the queue behind all others. -/
theorem Sound.accept (h : j.Sound failsWrite pool o) (payload : Payload) :
    Sound failsWrite pool
      { j with
        posted := j.posted ++ [payload]
        queued := j.queued ++ [.payload payload]
        fates := { j.fates with admitted := j.fates.admitted ++ [payload] } }
      { o with queue := o.queue ++ [.payload payload] } := by
  refine ⟨?_, ?_, (h.sorts.concat payload).1, h.fates.accept payload⟩
  · show j.queued ++ [.payload payload] = j.done ++ (o.queue ++ [.payload payload])
    rw [h.queued_eq, List.append_assoc]
  · show j.fates.admitted ++ [payload] = waiting (j.queued ++ [.payload payload])
    rw [h.admitted_eq, Outbox.waiting_append]
    rfl

/-- A payload that finds no room does not come into the queue. -/
theorem Sound.refuse (h : j.Sound failsWrite pool o) (payload : Payload) :
    Sound failsWrite pool
      { j with
        posted := j.posted ++ [payload]
        fates :=
          { j.fates with
            refused := j.fates.refused ++ [payload]
            returned := j.fates.returned ++ [payload] } }
      { o with
        pool := o.pool.put payload
        ledger := { o.ledger with overflowed := o.ledger.overflowed.count payload.size } } :=
  ⟨h.queued_eq, h.admitted_eq, (h.sorts.concat payload).2, h.fates.refuse payload⟩

/-- A barrier is noted when it is raised. -/
theorem Sound.raise (h : j.Sound failsWrite pool o) (ticket : Nat) :
    (j.raise ticket).Sound failsWrite pool (o.raise ticket) := by
  refine ⟨?_, ?_, h.sorts, h.fates.raise ticket⟩
  · show j.queued ++ [.barrier ticket] = j.done ++ (o.queue ++ [.barrier ticket])
    rw [h.queued_eq, List.append_assoc]
  · show j.fates.admitted = waiting (j.queued ++ [.barrier ticket])
    rw [h.admitted_eq, Outbox.waiting_append]
    exact (List.append_nil _).symm

/-- Carrying out the command that stands first in the queue keeps a journal sound. -/
theorem Sound.perform (h : j.Sound failsWrite pool o) {command : Command} {rest : List Command}
    (hqueue : o.queue = command :: rest) :
    (j.perform o command).Sound failsWrite pool
      (({ o with queue := rest } : Outbox Scripted).perform command) := by
  obtain ⟨hadmitted, hrefused⟩ := j.fates.perform_sorted o command
  refine ⟨?_, hadmitted.trans h.admitted_eq, ?_, h.fates.perform hqueue⟩
  · show j.queued = j.done ++ [command] ++ (Outbox.perform _ command).queue
    rw [Outbox.queue_perform, h.queued_eq, hqueue, List.append_assoc]
    rfl
  · show Sorts j.posted (j.fates.perform o command).admitted (j.fates.perform o command).refused
    rw [hadmitted, hrefused]
    exact h.sorts

/-- The payloads written are those carried out that hold a line, in the same order. -/
theorem Sound.written_eq (h : j.Sound failsWrite pool o) :
    j.fates.written.map Prod.fst = (waiting j.done).filter Fates.holdsLine := by
  -- What is still in the queue counts as admitted, but was not written.
  have hadmitted := h.fates.tells.admitted_eq
  rw [h.admitted_eq, h.queued_eq, Outbox.waiting_append, List.filter_append] at hadmitted
  exact (List.append_cancel_right hadmitted).symm

/-- The transport was given the texts of the payloads carried out, and nothing else. -/
theorem Sound.writes_eq (h : j.Sound failsWrite pool o) :
    o.transport.writes.toList.map Prod.fst = textsOf j.done := by
  rw [h.fates.writes_fst, h.written_eq]
  rfl

/-- The payloads carried out and those refused went back to the pool, each once. -/
theorem Sound.returned_perm (h : j.Sound failsWrite pool o) :
    j.fates.returned.Perm (waiting j.done ++ j.fates.refused) := by
  -- What is still in the queue has not gone back yet.
  have hreturned := h.fates.tells.returned_perm
  rw [h.admitted_eq, h.queued_eq, Outbox.waiting_append, List.append_assoc] at hreturned
  refine (List.perm_append_right_iff (waiting o.queue)).mp (hreturned.trans ?_)
  rw [List.append_assoc]
  exact List.perm_append_comm.append_left _

end Journal

/-! ## Parties -/

namespace Depot

/-- Where a caller stands. -/
inductive Caller where
  | idle
  /-- It waits for room for its barrier. -/
  | raising
  /-- It waits until its barrier is taken out of the queue. -/
  | awaiting (ticket : Nat)
  /-- It is about to tell the courier to stop. -/
  | halting
  /-- It waits until the courier is gone. -/
  | joining
  /-- It works off the queue itself. -/
  | draining
  | closingTransport
  deriving DecidableEq

end Depot

/-- An outbox, its courier and its callers. -/
structure Depot (τ : Type) where
  outbox : Outbox τ
  courier : System.Courier := .idle
  callers : List Depot.Caller
  /-- The caller that closes the outbox. -/
  closer : Option Nat := none
  /-- The number of the next barrier. -/
  raised : Nat := 0
  /-- The barriers that were taken out, the oldest first. -/
  acknowledged : List Nat := []
  journal : Journal := {}

namespace Depot

variable {τ : Type}

def setCaller (s : Depot τ) (i : Nat) (caller : Caller) : Depot τ :=
  { s with callers := s.callers.set i caller }

def post (s : Depot τ) (payload : Payload) : Depot τ :=
  { s with outbox := s.outbox.post payload, journal := s.journal.post s.outbox payload }

/-- Put a new barrier into the queue. -/
def raise (s : Depot τ) : Depot τ :=
  { s with
    outbox := s.outbox.raise s.raised
    raised := s.raised + 1
    journal := s.journal.raise s.raised }

variable [Transport τ]

/-- Note that a command was carried out, which has left an outbox behind. Whoever waits for a
barrier hears of it. -/
def note (s : Depot τ) (command : Command) (outbox : Outbox τ) : Depot τ :=
  { s with
    outbox
    acknowledged := s.acknowledged ++ command.ticket?.toList
    journal := s.journal.perform s.outbox command }

/-- What can happen next. -/
inductive Move where
  | post (payload : Payload)
  /-- A caller begins to wait until everything queued is written. -/
  | flush (caller : Nat)
  /-- A caller begins to close the outbox, while nobody else waits. -/
  | close (caller : Nat)
  | proceed (caller : Nat)
  /-- The courier takes a command out of the queue. -/
  | fetch
  | carry
  /-- The courier hears that it is to stop, whatever is in the queue. -/
  | exit

/-- Let a caller go on with its call. -/
def proceed? (s : Depot τ) (i : Nat) : Option (Depot τ) :=
  match s.callers[i]? with
  | none | some .idle => none
  | some .raising =>
    if s.outbox.hasRoom then some (s.raise.setCaller i (.awaiting s.raised)) else none
  | some (.awaiting ticket) =>
    if ticket ∈ s.acknowledged then
      some (s.setCaller i (if s.closer = some i then .halting else .idle))
    else none
  | some .halting =>
    some { s.setCaller i .joining with outbox := { s.outbox with running := false } }
  | some .joining => if s.courier.isGone then some (s.setCaller i .draining) else none
  | some .draining =>
    match s.outbox.step? with
    | none => some (s.setCaller i .closingTransport)
    | some (command, outbox) => some (s.note command outbox)
  | some .closingTransport =>
    let transport := (Transport.close s.outbox.transport).2
    some { s.setCaller i .idle with outbox := { s.outbox with transport } }

/-- Let a party take a step. -/
def step? (s : Depot τ) : Move → Option (Depot τ)
  | .post payload => some (s.post payload)
  | .flush i =>
    if s.callers[i]? = some .idle ∧ s.closer = none then some (s.setCaller i .raising) else none
  | .close i =>
    if s.callers[i]? = some .idle ∧ s.closer = none ∧ ∀ caller ∈ s.callers, caller = .idle then
      some { s.setCaller i .raising with closer := some i }
    else none
  | .proceed i => s.proceed? i
  | .fetch =>
    match s.courier, s.outbox.queue with
    | .idle, command :: queue =>
      some { s with outbox := { s.outbox with queue }, courier := .holding command }
    | _, _ => none
  | .carry =>
    match s.courier with
    | .holding command =>
      some { s.note command (s.outbox.perform command) with courier := .idle }
    | .idle | .gone => none
  | .exit =>
    match s.courier, s.outbox.running with
    | .idle, false => some { s with courier := .gone }
    | _, _ => none

/-- Let parties take steps one after the other. -/
def run? (s : Depot τ) (moves : List Move) : Option (Depot τ) :=
  moves.foldlM step? s

omit [Transport τ] in
/-- An outbox whose courier has just begun, and a number of callers. -/
def start (o : Outbox τ) (callers : Nat) : Depot τ :=
  { outbox := o.start, callers := List.replicate callers .idle }

/-- What a step comes to. -/
inductive Next (s : Depot τ) : Depot τ → Prop
  /-- A caller that does not carry out commands goes on. -/
  | turn (i : Nat) (caller : Caller) (closer : Option Nat)
      (hcaller : caller = .draining → s.courier = .gone) :
      Next s { s.setCaller i caller with closer }
  | post (payload : Payload) : Next s (s.post payload)
  | raise (i : Nat) : Next s (s.raise.setCaller i (.awaiting s.raised))
  | halt (i : Nat) :
      Next s { s.setCaller i .joining with outbox := { s.outbox with running := false } }
  | fetch (command : Command) (queue : List Command) (hcourier : s.courier = .idle)
      (hqueue : s.outbox.queue = command :: queue) :
      Next s { s with outbox := { s.outbox with queue }, courier := .holding command }
  | carry (command : Command) (hcourier : s.courier = .holding command) :
      Next s { s.note command (s.outbox.perform command) with courier := .idle }
  | exit (hcourier : s.courier = .idle) : Next s { s with courier := .gone }
  /-- A caller that works off the queue carries out what stands first there. -/
  | drain (command : Command) (queue : List Command) (hcaller : .draining ∈ s.callers)
      (hqueue : s.outbox.queue = command :: queue) :
      Next s (s.note command (({ s.outbox with queue } : Outbox τ).perform command))
  | shut (i : Nat) :
      Next s
        { s.setCaller i .idle with
          outbox := { s.outbox with transport := (Transport.close s.outbox.transport).2 } }

/-- Every step of a depot is one of those told by `Next`. -/
theorem next_of_step? {s s' : Depot τ} {move : Move} (h : s.step? move = some s') : s.Next s' := by
  -- Most turns of a caller change nothing but where the caller stands.
  have hturn (i : Nat) {caller : Caller} (hcaller : caller ≠ .draining) :
      s.Next (s.setCaller i caller) :=
    .turn i caller s.closer fun heq => absurd heq hcaller
  cases move with
  | post payload =>
    cases h
    exact .post payload
  | flush i =>
    obtain ⟨-, h⟩ := Option.ite_none_right_eq_some.mp h
    cases h
    exact hturn i (by simp)
  | close i =>
    obtain ⟨-, h⟩ := Option.ite_none_right_eq_some.mp h
    cases h
    exact .turn i .raising (some i) (by simp)
  | proceed i =>
    simp only [step?, proceed?] at h
    split at h
    · cases h
    · cases h
    · -- raising
      obtain ⟨-, h⟩ := Option.ite_none_right_eq_some.mp h
      cases h
      exact .raise i
    · -- awaiting
      obtain ⟨-, h⟩ := Option.ite_none_right_eq_some.mp h
      cases h
      exact hturn i (by split <;> simp)
    · -- halting
      cases h
      exact .halt i
    · -- joining
      obtain ⟨hgone, h⟩ := Option.ite_none_right_eq_some.mp h
      cases h
      refine .turn i .draining s.closer fun _ => ?_
      cases hcourier : s.courier <;> simp_all [System.Courier.isGone]
    · -- draining
      next hdraining =>
      cases hqueue : s.outbox.queue with
      | nil =>
        simp only [Outbox.step?, hqueue] at h
        cases h
        exact hturn i (by simp)
      | cons command queue =>
        rw [Outbox.step?_of_queue_eq_cons hqueue] at h
        cases h
        exact .drain command queue (List.mem_of_getElem? hdraining) hqueue
    · -- closing the transport
      cases h
      exact .shut i
  | fetch =>
    simp only [step?] at h
    split at h <;> cases h
    next command queue hcourier hqueue => exact .fetch command queue hcourier hqueue
  | carry =>
    simp only [step?] at h
    split at h <;> cases h
    next command hcourier => exact .carry command hcourier
  | exit =>
    simp only [step?] at h
    split at h <;> cases h
    next hcourier _ => exact .exit hcourier

/-! ## Soundness -/

omit [Transport τ] in
/-- The outbox as if the courier had put back what it has in hand. -/
def whole (s : Depot τ) : Outbox τ :=
  { s.outbox with queue := s.courier.inHand ++ s.outbox.queue }

/-- The journal is sound, each barrier is taken out once, and only one party at a time takes
commands out of the queue. -/
structure Sound (failsWrite : Nat → Bool) (pool : Pool) (s : Depot Scripted) : Prop where
  journal : s.journal.Sound failsWrite pool s.whole
  tickets_eq : Outbox.tickets s.journal.queued = List.range s.raised
  acknowledged_eq : s.acknowledged = Outbox.tickets s.journal.done
  alone : .draining ∈ s.callers → s.courier = .gone

variable {failsWrite : Nat → Bool} {pool : Pool} {s s' : Depot Scripted}

omit [Transport τ] in
/-- If the courier has nothing in hand, everything is in the outbox. -/
theorem whole_of_inHand_eq_nil {s : Depot τ} (h : s.courier.inHand = []) : s.whole = s.outbox := by
  rw [whole, h, List.nil_append]

theorem Sound.post (h : s.Sound failsWrite pool) (payload : Payload) :
    (s.post payload).Sound failsWrite pool := by
  cases hroom : s.outbox.hasRoom with
  | true =>
    have houtbox : s.outbox.post payload =
        { s.outbox with queue := s.outbox.queue ++ [.payload payload] } := if_pos hroom
    -- It waits behind what the courier has in hand, too.
    have hwhole : (s.post payload).whole =
        { s.whole with queue := s.whole.queue ++ [.payload payload] } := by
      simp [whole, Depot.post, houtbox]
    have hjournal : (s.post payload).journal =
        { s.journal with
          posted := s.journal.posted ++ [payload]
          queued := s.journal.queued ++ [.payload payload]
          fates :=
            { s.journal.fates with admitted := s.journal.fates.admitted ++ [payload] } } := by
      simp [Depot.post, Journal.post, Fates.post, hroom]
    refine ⟨?_, ?_, ?_, h.alone⟩
    · rw [hwhole, hjournal]
      exact h.journal.accept payload
    · rw [hjournal, Outbox.tickets_append, h.tickets_eq]
      exact List.append_nil _
    · rw [hjournal]
      exact h.acknowledged_eq
  | false =>
    have houtbox : s.outbox.post payload =
        { s.outbox with
          pool := s.outbox.pool.put payload
          ledger :=
            { s.outbox.ledger with
              overflowed := s.outbox.ledger.overflowed.count payload.size } } := by
      simp [Outbox.post, hroom]
    have hjournal : (s.post payload).journal =
        { s.journal with
          posted := s.journal.posted ++ [payload]
          fates :=
            { s.journal.fates with
              refused := s.journal.fates.refused ++ [payload]
              returned := s.journal.fates.returned ++ [payload] } } := by
      simp [Depot.post, Journal.post, Fates.post, hroom]
    refine ⟨?_, ?_, ?_, h.alone⟩
    · rw [hjournal, whole]
      show Journal.Sound failsWrite pool _
        { s.outbox.post payload with queue := s.courier.inHand ++ (s.outbox.post payload).queue }
      rw [houtbox]
      exact h.journal.refuse payload
    · rw [hjournal]
      exact h.tickets_eq
    · rw [hjournal]
      exact h.acknowledged_eq

theorem Sound.raise (h : s.Sound failsWrite pool) : s.raise.Sound failsWrite pool := by
  have hwhole : s.raise.whole = s.whole.raise s.raised := by
    simp [whole, Depot.raise, Outbox.raise]
  refine ⟨?_, ?_, h.acknowledged_eq, h.alone⟩
  · rw [hwhole]
    exact h.journal.raise s.raised
  · show Outbox.tickets (s.journal.queued ++ [.barrier s.raised]) = List.range (s.raised + 1)
    rw [Outbox.tickets_append, h.tickets_eq, List.range_succ]
    rfl

/-- Whoever carries out the command that comes next, everything stays sound, as long as nobody has
another one in hand then. -/
theorem Sound.note (h : s.Sound failsWrite pool) {command : Command} {queue : List Command}
    (hqueue : s.whole.queue = command :: queue) {courier : System.Courier}
    (hcourier : courier.inHand = []) (halone : .draining ∈ s.callers → courier = .gone) :
    ({ s.note command (({ s.outbox with queue } : Outbox Scripted).perform command) with
      courier } : Depot Scripted).Sound failsWrite pool := by
  have hjournal := h.journal.perform hqueue
  refine ⟨?_, h.tickets_eq, ?_, halone⟩
  · rw [whole_of_inHand_eq_nil hcourier]
    -- What the courier has in hand makes no difference to what is written.
    have hfates : s.journal.fates.perform s.whole command =
        s.journal.fates.perform s.outbox command :=
      s.journal.fates.perform_queue s.outbox _ command
    rw [Journal.perform, hfates] at hjournal
    exact hjournal
  · show s.acknowledged ++ command.ticket?.toList = Outbox.tickets (s.journal.done ++ [command])
    rw [Outbox.tickets_append, h.acknowledged_eq, Outbox.tickets_singleton]

/-- A caller that works off the queue does so alone, whoever else goes on. -/
theorem Sound.alone_set (h : s.Sound failsWrite pool) {i : Nat} {caller : Caller}
    (hcaller : caller = .draining → s.courier = .gone)
    (hmem : .draining ∈ s.callers.set i caller) : s.courier = .gone := by
  rcases List.mem_or_eq_of_mem_set hmem with hold | heq
  · exact h.alone hold
  · exact hcaller heq.symm

/-- A step keeps everything sound. -/
theorem Sound.next (h : s.Sound failsWrite pool) (hnext : s.Next s') :
    s'.Sound failsWrite pool := by
  cases hnext with
  | turn i caller closer hcaller =>
    exact ⟨h.journal, h.tickets_eq, h.acknowledged_eq, h.alone_set hcaller⟩
  | post payload => exact h.post payload
  | raise i =>
    have hraise := h.raise
    exact ⟨hraise.journal, hraise.tickets_eq, hraise.acknowledged_eq, hraise.alone_set (by simp)⟩
  | halt i =>
    refine ⟨?_, h.tickets_eq, h.acknowledged_eq, h.alone_set (by simp)⟩
    exact ⟨h.journal.queued_eq, h.journal.admitted_eq, h.journal.sorts,
      h.journal.fates.running false⟩
  | fetch command queue hcourier hqueue =>
    -- What is taken out of the queue is in hand.
    have hwhole : s.whole = { s.outbox with queue := command :: queue } := by
      rw [whole, hcourier, hqueue]
      rfl
    refine ⟨?_, h.tickets_eq, h.acknowledged_eq, fun hmem => ?_⟩
    · have hjournal := h.journal
      rw [hwhole] at hjournal
      exact hjournal
    · cases hcourier.symm.trans (h.alone hmem)
  | carry command hcourier =>
    have hqueue : s.whole.queue = command :: s.outbox.queue := by
      rw [whole, hcourier]
      rfl
    exact h.note hqueue rfl fun hmem => by cases hcourier.symm.trans (h.alone hmem)
  | exit hcourier =>
    refine ⟨?_, h.tickets_eq, h.acknowledged_eq, fun _ => rfl⟩
    have hjournal := h.journal
    rw [whole_of_inHand_eq_nil (by rw [hcourier]; rfl)] at hjournal
    exact hjournal
  | drain command queue hcaller hqueue =>
    have hgone := h.alone hcaller
    -- With the courier gone, what comes next is what stands first in the queue.
    have hnone : s.courier.inHand = [] := by rw [hgone]; rfl
    exact h.note (by rw [whole_of_inHand_eq_nil hnone, hqueue]) hnone h.alone
  | shut i =>
    refine ⟨?_, h.tickets_eq, h.acknowledged_eq, h.alone_set (by simp)⟩
    exact ⟨h.journal.queued_eq, h.journal.admitted_eq, h.journal.sorts,
      h.journal.fates.closeTransport⟩

/-- Steps keep everything sound. -/
theorem Sound.run (h : s.Sound failsWrite pool) {moves : List Move}
    (hrun : s.run? moves = some s') : s'.Sound failsWrite pool :=
  steps_induction (motive := fun _ t => t.Sound failsWrite pool) hrun h
    fun _ _ _ _ hsound hstep => hsound.next (next_of_step? hstep)

/-- At first, nothing has happened. -/
theorem sound_start (capacity : Nat) (pool : Pool) (failsWrite : Nat → Bool) (failsClose : Bool)
    (callers : Nat) :
    (start { capacity, transport := { failsWrite, failsClose }, pool } callers).Sound failsWrite
      pool := by
  refine ⟨⟨rfl, rfl, ⟨.refl _, .refl _, .refl _⟩, ⟨rfl, rfl, rfl, rfl, .refl _⟩, rfl, rfl, ?_,
    rfl⟩, rfl, rfl, ?_⟩
  · intro i write hwrite
    cases hwrite
  · intro hmem
    cases List.eq_of_mem_replicate hmem

/-! ## Barriers -/

/-- What has come into the queue stays in front of what comes later. -/
theorem Next.queued {s s' : Depot τ} (h : s.Next s') : s.journal.queued <+: s'.journal.queued := by
  cases h with
  | post payload =>
    show s.journal.queued <+: if s.outbox.hasRoom then _ else _
    split
    · exact List.prefix_append _ _
    · exact List.prefix_rfl
  | raise i => exact List.prefix_append _ _
  | turn | halt | fetch | carry | exit | drain | shut => exact List.prefix_rfl

/-- Steps only add to what was ever queued. -/
theorem queued_run {s s' : Depot τ} {moves : List Move} (h : s.run? moves = some s') :
    s.journal.queued <+: s'.journal.queued :=
  steps_induction (motive := fun _ t => s.journal.queued <+: t.journal.queued) h List.prefix_rfl
    fun _ _ _ _ hprefix hstep => hprefix.trans (next_of_step? hstep).queued

/-- Once a barrier is taken out, what was queued before it is carried out. -/
theorem Sound.queued_before (h : s.Sound failsWrite pool) {ticket : Nat} {front : List Command}
    (hfresh : ticket ∉ Outbox.tickets front)
    (hfront : front ++ [.barrier ticket] <+: s.journal.queued)
    (hacknowledged : ticket ∈ s.acknowledged) : front <+: s.journal.done := by
  have hdone : s.journal.done <+: s.journal.queued := by
    rw [h.journal.queued_eq]
    exact List.prefix_append _ _
  rw [h.acknowledged_eq] at hacknowledged
  rcases List.prefix_or_prefix_of_prefix hfront hdone with hin | hshort
  · exact (List.prefix_append _ _).trans hin
  · -- Otherwise the barrier itself would not be carried out.
    rcases List.prefix_concat_iff.mp hshort with heq | hless
    · rw [heq]
      exact List.prefix_append _ _
    · exact absurd ((hless.sublist.filterMap Command.ticket?).subset hacknowledged) hfresh

/-- When a caller that has put a barrier into the queue may go on, everything that was queued before
is carried out. -/
theorem Sound.queued_before_return {s₀ : Depot Scripted} (h : s.Sound failsWrite pool)
    (h₀ : s₀.Sound failsWrite pool) {i : Nat} (hraising : s₀.callers[i]? = some .raising)
    {back : List Move} (hrun : s₀.run? (.proceed i :: back) = some s)
    (hawaiting : s.callers[i]? = some (.awaiting s₀.raised))
    (hreturns : (s.step? (.proceed i)).isSome) : s₀.journal.queued <+: s.journal.done := by
  -- The first step puts the barrier into the queue.
  obtain ⟨s₁, hraise, hback⟩ := Option.bind_eq_some_iff.mp hrun
  simp only [step?, proceed?, hraising] at hraise
  obtain ⟨-, hraise⟩ := Option.ite_none_right_eq_some.mp hraise
  cases hraise
  -- The caller goes on because its barrier was taken out.
  have hacknowledged : s₀.raised ∈ s.acknowledged := by
    by_contra hnot
    simp only [step?, proceed?, hawaiting, if_neg hnot] at hreturns
    cases hreturns
  refine h.queued_before ?_ (queued_run hback) hacknowledged
  rw [h₀.tickets_eq, List.mem_range]
  exact Nat.lt_irrefl _

/-- Whatever callers, the courier and the transport do, and in whatever order: each payload posted
comes into the queue or is refused. What comes into the queue is carried out once, in the same
order, also when a caller that closes the outbox takes over from the courier. The transport is given
the payloads that hold a line and nothing else, and the counters are those of its writes and of the
payloads refused, so that no barrier shows in them. Every payload goes back to the pool once. Each
barrier is taken out at most once. When a caller that waited for its barrier goes on, everything
that was queued before the barrier is carried out; and when a caller that closes the outbox has
worked off the queue, everything is. -/
theorem barrier_and_handover (capacity : Nat) (pool : Pool) (failsWrite : Nat → Bool)
    (failsClose : Bool) (callers : Nat) (moves : List Move) {s : Depot Scripted}
    (hrun : (start { capacity, transport := { failsWrite, failsClose }, pool } callers).run? moves =
      some s) :
    let o := s.outbox
    let j := s.journal
    let writes := o.transport.writes.toList
    -- Payloads posted come into the queue, if there is room.
    (waiting j.queued).Sublist j.posted ∧ (waiting j.queued ++ j.fates.refused).Perm j.posted ∧
    -- What comes into the queue comes out of it, in order.
    j.queued = j.done ++ (s.courier.inHand ++ o.queue) ∧
    -- The transport is given what comes out and holds a line.
    writes.map Prod.fst = textsOf j.done ∧
    (∀ i write, writes[i]? = some write → write.2 = !failsWrite i) ∧
    -- The counters are about payloads.
    o.ledger.sent = .ofTexts ((writes.filter (·.2)).map Prod.fst) ∧
    o.ledger.failed = .ofTexts ((writes.filter (!·.2)).map Prod.fst) ∧
    o.ledger.overflowed = .ofTexts (j.fates.refused.map Payload.text) ∧
    -- Payloads go back to the pool.
    o.pool = j.fates.returned.foldl Pool.put pool ∧
    j.fates.returned.Perm (waiting j.done ++ j.fates.refused) ∧
    -- Barriers are taken out, each at most once.
    s.acknowledged = Outbox.tickets j.done ∧ s.acknowledged.Nodup ∧
    -- A caller whose barrier is taken out may go on.
    (∀ (front back : List Move) (i : Nat) (s₀ : Depot Scripted),
      moves = front ++ .proceed i :: back →
      (start { capacity, transport := { failsWrite, failsClose }, pool } callers).run? front =
        some s₀ →
      s₀.callers[i]? = some .raising → s.callers[i]? = some (.awaiting s₀.raised) →
      (s.step? (.proceed i)).isSome →
        s₀.journal.queued <+: j.done ∧ textsOf s₀.journal.queued <+: writes.map Prod.fst ∧
          (waiting s₀.journal.queued).Subperm j.fates.returned) ∧
    -- A caller that closes the outbox stops when nothing is left.
    ∀ i s', s.callers[i]? = some .draining → s.step? (.proceed i) = some s' →
      s'.callers[i]? = some .closingTransport → j.done = j.queued := by
  intro o j writes
  have hstart := sound_start capacity pool failsWrite failsClose callers
  have h := hstart.run hrun
  have hqueued : j.queued = j.done ++ (s.courier.inHand ++ o.queue) := h.journal.queued_eq
  have hwrites : writes.map Prod.fst = textsOf j.done := h.journal.writes_eq
  have hsorts := h.journal.sorts
  rw [h.journal.admitted_eq] at hsorts
  refine ⟨hsorts.admitted_sublist, hsorts.perm, hqueued, hwrites, ?_,
    h.journal.fates.sent_eq, h.journal.fates.failed_eq, h.journal.fates.tells.overflowed_eq,
    h.journal.fates.pool_eq, h.journal.returned_perm, h.acknowledged_eq, ?_, ?_, ?_⟩
  · intro i write hwrite
    have hfates : writes = _ := h.journal.fates.writes_eq
    rw [hfates, List.getElem?_map] at hwrite
    obtain ⟨known, hknown, rfl⟩ := Option.map_eq_some_iff.mp hwrite
    exact h.journal.fates.outcome_eq i known hknown
  · -- No two barriers that come into the queue have the same number.
    have htickets := h.tickets_eq
    rw [h.journal.queued_eq, Outbox.tickets_append, ← h.acknowledged_eq] at htickets
    exact (htickets ▸ List.nodup_range).of_append_left
  · intro front back i s₀ hmoves hfront hraising hawaiting hreturns
    rw [hmoves, run?, List.foldlM_append] at hrun
    obtain ⟨s₁, hs₁, hrest⟩ := Option.bind_eq_some_iff.mp hrun
    obtain rfl : s₀ = s₁ := Option.some.inj (hfront.symm.trans hs₁)
    have hbefore : s₀.journal.queued <+: j.done :=
      h.queued_before_return (hstart.run hfront) hraising hrest hawaiting hreturns
    -- What is done before the barrier is written in that order, and its payloads go back to the
    -- pool.
    refine ⟨hbefore, ?_, ?_⟩
    · obtain ⟨more, hmore⟩ := hbefore
      rw [hwrites, ← hmore, Outbox.textsOf_append]
      exact List.prefix_append _ _
    · refine List.Subperm.trans ?_ h.journal.returned_perm.symm.subperm
      exact ((hbefore.sublist.filterMap _).trans (List.sublist_append_left _ _)).subperm
  · intro i s' hdraining hstep hclosing
    simp only [step?, proceed?, hdraining] at hstep
    split at hstep
    next hnone =>
      -- Nothing waits, and the courier is gone.
      have hgone := h.alone (List.mem_of_getElem? hdraining)
      rw [hqueued, Outbox.queue_eq_nil_of_step? hnone, hgone]
      exact (List.append_nil _).symm
    next =>
      cases hstep
      cases hdraining.symm.trans hclosing

/-- A payload that holds no line is not written: it may come into the queue before a barrier, and
the caller that waits for the barrier goes on without a write. -/
theorem empty_payload_not_written :
    let start :=
      start ({ capacity := 1, transport := {}, pool := .new 1 ⟨64, 8⟩ } : Outbox Scripted) 1
    ¬∀ (front back : List Move) (i : Nat) (s₀ s : Depot Scripted),
      start.run? front = some s₀ → start.run? (front ++ .proceed i :: back) = some s →
      s₀.callers[i]? = some .raising → s.callers[i]? = some (.awaiting s₀.raised) →
      (s.step? (.proceed i)).isSome →
        ∀ payload ∈ waiting s₀.journal.queued,
          payload.text ∈ s.outbox.transport.writes.toList.map Prod.fst := by
  intro start hall
  -- A payload without lines waits before the barrier, which is reached without a write.
  have hseen : ((start.run? [.post { limits := ⟨64, 8⟩ }, .flush 0, .fetch]).bind fun s₀ =>
      (start.run? [.post { limits := ⟨64, 8⟩ }, .flush 0, .fetch, .proceed 0, .carry, .fetch,
        .carry]).map fun s =>
        decide (s₀.callers[0]? = some .raising) &&
          (decide (s.callers[0]? = some (.awaiting s₀.raised)) &&
            ((s.step? (.proceed 0)).isSome &&
              (decide (({ limits := ⟨64, 8⟩ } : Payload) ∈ waiting s₀.journal.queued) &&
                decide (s.outbox.transport.writes = #[]))))) = some true := by
    decide +kernel
  obtain ⟨s₀, hfront, hnext⟩ := Option.bind_eq_some_iff.mp hseen
  obtain ⟨s, hrun, hs⟩ := Option.map_eq_some_iff.mp hnext
  simp only [Bool.and_eq_true, decide_eq_true_eq] at hs
  obtain ⟨hraising, hawaiting, hreturns, hqueued, hwrites⟩ := hs
  have hwritten := hall _ [.carry, .fetch, .carry] 0 s₀ s hfront hrun hraising hawaiting hreturns
    _ hqueued
  rw [hwrites] at hwritten
  cases hwritten

/-- Of four payloads, the first is written while a caller waits, the second is refused, the third is
written by the courier and the fourth by the caller that closes the outbox. -/
theorem barrier_and_handover_four_payloads :
    let payload (text : String) : Payload := { limits := ⟨64, 8⟩, text, lines := 1 }
    let failsWrite (i : Nat) : Bool := i == 1
    let start := start
      ({ capacity := 1, transport := { failsWrite }, pool := .new 1 ⟨64, 8⟩ } : Outbox Scripted) 2
    let front : List Move := [.post (payload "a"), .flush 0, .fetch]
    let back : List Move := [.post (payload "b"), .carry, .fetch, .carry]
    let rest : List Move :=
      [.proceed 0, .post (payload "c"), .close 1, .fetch, .proceed 1, .carry, .fetch, .carry,
        .proceed 1, .post (payload "d"), .proceed 1, .exit, .proceed 1, .proceed 1]
    (∃ s, start.run? (front ++ .proceed 0 :: back) = some s ∧ (s.step? (.proceed 0)).isSome ∧
      ["a"] <+: s.outbox.transport.writes.toList.map Prod.fst) ∧
    ∃ s s', start.run? (front ++ .proceed 0 :: back ++ rest) = some s ∧
      s.step? (.proceed 1) = some s' ∧ s'.callers[1]? = some .closingTransport ∧
      s.journal.done = s.journal.queued ∧
      s.outbox.transport.writes = #[("a", true), ("c", false), ("d", true)] ∧
      s.outbox.ledger.overflowed.payloads = 1 := by
  intro payload failsWrite start front back rest
  constructor
  · have hseen : ((start.run? front).bind fun s₀ =>
        (start.run? (front ++ .proceed 0 :: back)).map fun s =>
          decide (s₀.callers[0]? = some .raising) &&
            (decide (s.callers[0]? = some (.awaiting s₀.raised)) &&
              ((s.step? (.proceed 0)).isSome &&
                decide (textsOf s₀.journal.queued = ["a"])))) = some true := by
      decide +kernel
    obtain ⟨s₀, hfront, hnext⟩ := Option.bind_eq_some_iff.mp hseen
    obtain ⟨s, hrun, hs⟩ := Option.map_eq_some_iff.mp hnext
    simp only [Bool.and_eq_true, decide_eq_true_eq] at hs
    obtain ⟨hraising, hawaiting, hreturns, htexts⟩ := hs
    obtain ⟨-, -, -, -, -, -, -, -, -, -, -, -, hbarrier, -⟩ :=
      barrier_and_handover 1 (.new 1 ⟨64, 8⟩) failsWrite false 2 _ hrun
    obtain ⟨-, hwritten, -⟩ :=
      hbarrier front back 0 s₀ rfl hfront hraising hawaiting hreturns
    exact ⟨s, hrun, hreturns, htexts ▸ hwritten⟩
  -- The barrier lies behind, and the closing caller drains what the courier has left.
  · have hseen : ((start.run? (front ++ .proceed 0 :: back ++ rest)).bind fun s =>
        (s.step? (.proceed 1)).map fun s' =>
          decide (s.callers[1]? = some .draining) &&
            (decide (s'.callers[1]? = some .closingTransport) &&
              (decide (s.outbox.transport.writes = #[("a", true), ("c", false), ("d", true)]) &&
                decide (s.outbox.ledger.overflowed.payloads = 1)))) = some true := by
      decide +kernel
    obtain ⟨s, hrun, hnext⟩ := Option.bind_eq_some_iff.mp hseen
    obtain ⟨s', hstep, hs⟩ := Option.map_eq_some_iff.mp hnext
    simp only [Bool.and_eq_true, decide_eq_true_eq] at hs
    obtain ⟨hdraining, hclosing, hwrites, hrefused⟩ := hs
    obtain ⟨-, -, -, -, -, -, -, -, -, -, -, -, -, hclosed⟩ :=
      barrier_and_handover 1 (.new 1 ⟨64, 8⟩) failsWrite false 2 _ hrun
    exact ⟨s, s', hrun, hstep, hclosing, hclosed 1 s' hdraining hstep hclosing, hwrites, hrefused⟩

end Depot

end DogStatsD
