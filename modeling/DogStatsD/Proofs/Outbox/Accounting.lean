import DogStatsD.Proofs.Outbox.Fates

/-!
# Accounting of an Outbox

Payloads are posted, the thread is started and carries out commands, callers flush and close, in any
order and as often as they like. Whoever takes a payload out of the queue, it is written in its
turn, counted by what became of it, and given back once.

* `Outbox.Operation`, `Outbox.History.run`: what happens to an outbox, and its history beside it;
* `Outbox.History.Sound`: the transport and the pool, too, are those of the history;
* `Outbox.fifo_accounting`: what the transport, the counters and the pool have seen in the end.
-/

namespace DogStatsD

/-- The script decides the outcome of a write, which is recorded in either case. -/
theorem Scripted.write_eq (t : Scripted) (payload : String) :
    (Transport.write t payload).1.isOk = !t.failsWrite t.writes.size ∧
      (Transport.write t payload).2 =
        { t with writes := t.writes.push (payload, !t.failsWrite t.writes.size) } := by
  show (Scripted.write t payload).1.isOk = _ ∧ (Scripted.write t payload).2 = _
  unfold Scripted.write
  cases t.failsWrite t.writes.size <;> exact ⟨rfl, rfl⟩

instance : Add Tally where
  add first second := ⟨first.payloads + second.payloads, first.bytes + second.bytes⟩

namespace Tally

/-- Tallies of texts add up. -/
theorem ofTexts_append (front back : List String) :
    ofTexts (front ++ back) = ofTexts front + ofTexts back := by
  show ofTexts (front ++ back) = ⟨_, _⟩
  simp [ofTexts]

/-- The order of texts does not matter for a tally. -/
theorem ofTexts_perm {front back : List String} (h : front.Perm back) :
    ofTexts front = ofTexts back := by
  unfold ofTexts
  rw [h.length_eq, (h.map _).sum_eq]

theorem add_right_comm (first second third : Tally) :
    first + second + third = first + third + second := by
  show (⟨_, _⟩ : Tally) = ⟨_, _⟩
  congr 1
  · exact Nat.add_right_comm _ _ _
  · exact Nat.add_right_comm _ _ _

end Tally

namespace Outbox

/-- What happens to an outbox. -/
inductive Operation where
  | post (payload : Payload)
  | start
  /-- The thread, if it runs, carries out one command. -/
  | deliver
  /-- A caller that waits for the thread puts its barrier into the queue. -/
  | raise (caller : Nat)
  | flush
  | close

namespace Operation

/-- The payload posted. -/
def posted? : Operation → Option Payload
  | .post payload => some payload
  | .start | .deliver | .raise _ | .flush | .close => none

variable {τ : Type} [Transport τ]

def run (o : Outbox τ) : Operation → Outbox τ
  | .post payload => o.post payload
  | .start => o.start
  | .deliver => if o.running then o.deliverNext else o
  | .raise caller => if o.running && o.hasRoom then o.raise caller else o
  | .flush => o.flush
  | .close => o.close.2

end Operation

/-- An outbox and the fates of the payloads posted to it. -/
structure History (τ : Type) where
  outbox : Outbox τ
  fates : Fates := {}

namespace History

variable {τ : Type} [Transport τ]

/-- Carry out an operation, and note the fates of payloads. -/
def step (h : History τ) (operation : Operation) : History τ where
  outbox := operation.run h.outbox
  fates :=
    match operation with
    | .post payload => h.fates.post h.outbox payload
    | .start | .raise _ => h.fates
    | .deliver =>
      if h.outbox.running then h.fates.performAll h.outbox (h.outbox.queue.take 1) else h.fates
    | .flush | .close => h.fates.performAll h.outbox h.outbox.queue

/-- Carry out operations one after the other. -/
def run (h : History τ) (operations : List Operation) : History τ :=
  operations.foldl step h

theorem outbox_run (h : History τ) (operations : List Operation) :
    (h.run operations).outbox = operations.foldl Operation.run h.outbox := by
  induction operations generalizing h with
  | nil => rfl
  | cons operation rest ih => exact ih (h.step operation)

/-! ## Sound histories -/

/-- The counters, the transport and the pool are those of the history. -/
structure Sound (failsWrite : Nat → Bool) (pool : Pool) (f : Fates) (o : Outbox Scripted) :
    Prop where
  tells : f.Tells o
  script_eq : o.transport.failsWrite = failsWrite
  writes_eq : o.transport.writes.toList = f.written.map fun (payload, ok) => (payload.text, ok)
  /-- Only the script decides which writes fail. -/
  outcome_eq : ∀ i write, f.written[i]? = some write → write.2 = !failsWrite i
  /-- The pool was given back nothing else. -/
  pool_eq : o.pool = f.returned.foldl Pool.put pool

variable {failsWrite : Nat → Bool} {pool : Pool} {f : Fates} {o : Outbox Scripted}

/-- A payload that is admitted joins those waiting, at the end. -/
theorem Sound.accept (h : Sound failsWrite pool f o) (payload : Payload) :
    Sound failsWrite pool { f with admitted := f.admitted ++ [payload] }
      { o with queue := o.queue ++ [.payload payload] } :=
  ⟨h.tells.accept payload, h.script_eq, h.writes_eq, h.outcome_eq, h.pool_eq⟩

/-- A payload that is refused is counted, and goes back at once. -/
theorem Sound.refuse (h : Sound failsWrite pool f o) (payload : Payload) :
    Sound failsWrite pool
      { f with refused := f.refused ++ [payload], returned := f.returned ++ [payload] }
      { o with
        pool := o.pool.put payload
        ledger := { o.ledger with overflowed := o.ledger.overflowed.count payload.size } } :=
  ⟨h.tells.refuse payload, h.script_eq, h.writes_eq, h.outcome_eq, by simp [h.pool_eq]⟩

/-- A payload that is posted is admitted or refused, and accounted for either way. -/
theorem Sound.post (h : Sound failsWrite pool f o) (payload : Payload) :
    Sound failsWrite pool (f.post o payload) (o.post payload) := by
  unfold Fates.post Outbox.post
  split
  · exact h.accept payload
  · exact h.refuse payload

/-- A barrier is no payload. -/
theorem Sound.raise (h : Sound failsWrite pool f o) (caller : Nat) :
    Sound failsWrite pool f (o.raise caller) :=
  ⟨h.tells.raise caller, h.script_eq, h.writes_eq, h.outcome_eq, h.pool_eq⟩

/-- Carrying out the command that stands first in the queue keeps the history. -/
theorem Sound.perform (h : Sound failsWrite pool f o) {command : Command} {rest : List Command}
    (hqueue : o.queue = command :: rest) :
    Sound failsWrite pool (f.perform o command)
      (({ o with queue := rest } : Outbox Scripted).perform command) := by
  have htells := h.tells.perform hqueue
  cases command with
  | barrier caller => exact ⟨htells, h.script_eq, h.writes_eq, h.outcome_eq, h.pool_eq⟩
  | payload payload =>
    cases hempty : payload.isEmpty with
    | true =>
      simp only [Fates.perform, Outbox.perform, hempty, if_true, deliver_of_isEmpty hempty]
        at htells ⊢
      exact ⟨htells, h.script_eq, h.writes_eq, h.outcome_eq, by simp [h.pool_eq]⟩
    | false =>
      simp only [Fates.perform, Outbox.perform, hempty, Bool.false_eq_true, if_false,
        deliver_of_not_isEmpty hempty] at htells ⊢
      -- The write has the index of the next one, and its outcome is that of the script.
      have hlength : f.written.length = o.transport.writes.size := by
        rw [← Array.length_toList, h.writes_eq, List.length_map]
      obtain ⟨hok, hlater⟩ := Scripted.write_eq o.transport payload.text
      rw [h.script_eq, ← hlength] at hok hlater
      refine ⟨htells, ?_, ?_, ?_, by simp [h.pool_eq]⟩
      · rw [hlater]
      · rw [hlater, hok]
        simp [h.writes_eq]
      · intro i write hi
        rw [hok] at hi
        rcases Nat.lt_trichotomy i f.written.length with hold | rfl | hbeyond
        · rw [List.getElem?_append_left hold] at hi
          exact h.outcome_eq i write hi
        · simp only [List.getElem?_concat_length, Option.some.injEq] at hi
          rw [← hi]
        · rw [List.getElem?_eq_none (by simpa using Nat.succ_le_of_lt hbeyond)] at hi
          cases hi

/-- Working off the queue keeps the history. -/
theorem Sound.drain (h : Sound failsWrite pool f o) :
    Sound failsWrite pool (f.performAll o o.queue) o.drain :=
  Fates.drain_induction (motive := Sound failsWrite pool)
    (fun _ _ _ _ hqueue hsound => hsound.perform hqueue) h

/-- Starting and stopping the thread keeps the history. -/
theorem Sound.running (h : Sound failsWrite pool f o) (running : Bool) :
    Sound failsWrite pool f { o with running } :=
  ⟨⟨h.tells.sent_eq, h.tells.failed_eq, h.tells.overflowed_eq, h.tells.admitted_eq,
    h.tells.returned_perm⟩, h.script_eq, h.writes_eq, h.outcome_eq, h.pool_eq⟩

/-- The transport does not forget its writes when it is closed. -/
theorem Sound.closeTransport (h : Sound failsWrite pool f o) :
    Sound failsWrite pool f { o with transport := (Transport.close o.transport).2 } :=
  ⟨⟨h.tells.sent_eq, h.tells.failed_eq, h.tells.overflowed_eq, h.tells.admitted_eq,
    h.tells.returned_perm⟩, h.script_eq, h.writes_eq, h.outcome_eq, h.pool_eq⟩

/-- The transport was given the payloads written. -/
theorem Sound.writes_fst (h : Sound failsWrite pool f o) :
    o.transport.writes.toList.map Prod.fst = (f.written.map Prod.fst).map Payload.text := by
  rw [h.writes_eq, List.map_map, List.map_map]
  rfl

/-- Writes that went well count as sent, and only they. -/
theorem Sound.sent_eq (h : Sound failsWrite pool f o) :
    o.ledger.sent = .ofTexts ((o.transport.writes.toList.filter (·.2)).map Prod.fst) := by
  rw [h.tells.sent_eq, h.writes_eq, List.filter_map, List.map_map, Fates.sent, List.map_map]
  rfl

/-- Writes that failed count as such, and only they. -/
theorem Sound.failed_eq (h : Sound failsWrite pool f o) :
    o.ledger.failed = .ofTexts ((o.transport.writes.toList.filter (!·.2)).map Prod.fst) := by
  rw [h.tells.failed_eq, h.writes_eq, List.filter_map, List.map_map, Fates.failed, List.map_map]
  rfl

/-- An operation keeps the history. -/
theorem Sound.step {h : History Scripted} (hs : Sound failsWrite pool h.fates h.outbox)
    (operation : Operation) :
    Sound failsWrite pool (h.step operation).fates (h.step operation).outbox := by
  cases operation with
  | post payload => exact hs.post payload
  | start => exact hs.running true
  | deliver =>
    simp only [History.step, Operation.run]
    split
    · cases hqueue : h.outbox.queue with
      | nil =>
        rw [deliverNext_of_queue_eq_nil hqueue]
        exact hs
      | cons command rest =>
        rw [deliverNext_of_queue_eq_cons hqueue]
        exact hs.perform hqueue
    · exact hs
  | raise caller =>
    simp only [History.step, Operation.run]
    split
    · exact hs.raise caller
    · exact hs
  | flush =>
    simp only [History.step, Operation.run, flush_eq_drain]
    exact hs.drain
  | close =>
    simp only [History.step, Operation.run, close_eq]
    exact (hs.drain.running false).closeTransport

/-- Operations keep the history. -/
theorem Sound.run {h : History Scripted} (hs : Sound failsWrite pool h.fates h.outbox)
    (operations : List Operation) :
    Sound failsWrite pool (h.run operations).fates (h.run operations).outbox := by
  induction operations generalizing h with
  | nil => exact hs
  | cons operation rest ih => exact ih (hs.step operation)

/-! ## The payloads posted -/

section Posted

variable {τ : Type} [Transport τ]

/-- What became of some payloads posted: each was admitted or refused, in the order of posting. -/
structure Sorts (posted admitted refused : List Payload) : Prop where
  admitted_sublist : admitted.Sublist posted
  refused_sublist : refused.Sublist posted
  perm : (admitted ++ refused).Perm posted

/-- One payload more may be admitted, or refused. -/
theorem Sorts.concat {posted admitted refused : List Payload} (h : Sorts posted admitted refused)
    (payload : Payload) :
    Sorts (posted ++ [payload]) (admitted ++ [payload]) refused ∧
      Sorts (posted ++ [payload]) admitted (refused ++ [payload]) := by
  have hadmitted := h.admitted_sublist
  have hrefused := h.refused_sublist
  have hlater : (admitted ++ refused ++ [payload]).Perm (posted ++ [payload]) :=
    h.perm.append_right _
  refine ⟨⟨hadmitted.append (.refl _), hrefused.trans (List.sublist_append_left _ _), ?_⟩,
    ⟨hadmitted.trans (List.sublist_append_left _ _), hrefused.append (.refl _), ?_⟩⟩
  · refine List.Perm.trans ?_ hlater
    rw [List.append_assoc, List.append_assoc]
    exact List.perm_append_comm.append_left admitted
  · rwa [List.append_assoc] at hlater

/-- An operation sorts the payload that it posts. -/
theorem Sorts.step {posted : List Payload} {h : History τ}
    (hs : Sorts posted h.fates.admitted h.fates.refused) (operation : Operation) :
    Sorts (posted ++ operation.posted?.toList) (h.step operation).fates.admitted
      (h.step operation).fates.refused := by
  have hnone : Sorts (posted ++ []) h.fates.admitted h.fates.refused := by rwa [List.append_nil]
  cases operation with
  | post payload =>
    obtain ⟨hkeep, hrefuse⟩ := hs.concat payload
    simp only [History.step, Fates.post]
    split
    · exact hkeep
    · exact hrefuse
  | start => exact hnone
  | raise caller => exact hnone
  | deliver =>
    simp only [History.step]
    split
    · obtain ⟨hadmitted, hrefused⟩ :=
        Fates.performAll_sorted h.fates h.outbox (h.outbox.queue.take 1)
      rw [hadmitted, hrefused]
      exact hnone
    · exact hnone
  | flush | close =>
    obtain ⟨hadmitted, hrefused⟩ := Fates.performAll_sorted h.fates h.outbox h.outbox.queue
    simp only [History.step]
    rw [hadmitted, hrefused]
    exact hnone

/-- Operations sort the payloads that they post. -/
theorem Sorts.run {posted : List Payload} {h : History τ}
    (hs : Sorts posted h.fates.admitted h.fates.refused) (operations : List Operation) :
    Sorts (posted ++ operations.filterMap Operation.posted?) (h.run operations).fates.admitted
      (h.run operations).fates.refused := by
  induction operations generalizing posted h with
  | nil =>
    rw [List.filterMap_nil, List.append_nil]
    exact hs
  | cons operation rest ih =>
    have hnext := ih (hs.step operation)
    have hposted : (operation :: rest).filterMap Operation.posted? =
        operation.posted?.toList ++ rest.filterMap Operation.posted? := by
      cases hpost : operation.posted? <;> simp [hpost]
    rw [hposted, ← List.append_assoc]
    exact hnext

end Posted

end History

/-! ## The account -/

/-- The texts of the payloads among some that hold a line. -/
def linesOf (payloads : List Payload) : List String :=
  (payloads.filter Fates.holdsLine).map Payload.text

theorem linesOf_append (front back : List Payload) :
    linesOf (front ++ back) = linesOf front ++ linesOf back := by
  simp [linesOf]

theorem linesOf_perm {front back : List Payload} (h : front.Perm back) :
    (linesOf front).Perm (linesOf back) :=
  (h.filter _).map _

/-- A tally of writes is the tally of those that went well and of those that failed. -/
theorem ofTexts_writes (writes : List (String × Bool)) :
    Tally.ofTexts (writes.map Prod.fst) =
      Tally.ofTexts ((writes.filter (·.2)).map Prod.fst) +
        Tally.ofTexts ((writes.filter (!·.2)).map Prod.fst) := by
  rw [← Tally.ofTexts_append, ← List.map_append]
  exact Tally.ofTexts_perm ((List.filter_append_perm (·.2) writes).symm.map _)

/-- In whatever order payloads are posted, the thread delivers, and callers flush and close: the
payloads that found room are written once each, in the order posted, or are waiting; the counters
tell what became of all others; and each payload is put back into the pool once, when it has been
written or refused. -/
theorem fifo_accounting (capacity : Nat) (pool : Pool) (failsWrite : Nat → Bool)
    (failsClose : Bool) (operations : List Operation) :
    let start : Outbox Scripted :=
      { capacity, transport := { failsWrite, failsClose }, pool }
    let o := operations.foldl Operation.run start
    let f := (History.run { outbox := start } operations).fates
    let posted := operations.filterMap Operation.posted?
    let writes := o.transport.writes.toList
    -- The payloads posted either found room or were refused.
    f.admitted.Sublist posted ∧ f.refused.Sublist posted ∧
      (f.admitted ++ f.refused).Perm posted ∧
    -- The transport was given those that found room, and the script decided the outcome.
    writes.map Prod.fst ++ linesOf (waiting o.queue) = linesOf f.admitted ∧
    (∀ i write, writes[i]? = some write → write.2 = !failsWrite i) ∧
    -- The counters.
    o.ledger.sent = .ofTexts ((writes.filter (·.2)).map Prod.fst) ∧
    o.ledger.failed = .ofTexts ((writes.filter (!·.2)).map Prod.fst) ∧
    o.ledger.overflowed = .ofTexts (f.refused.map Payload.text) ∧
    Tally.ofTexts (linesOf posted) =
      o.ledger.sent + o.ledger.failed + .ofTexts (linesOf f.refused) +
        .ofTexts (linesOf (waiting o.queue)) ∧
    -- What was put back into the pool: nothing that waits, and nothing twice.
    o.pool = f.returned.foldl Pool.put pool ∧
    (f.returned ++ waiting o.queue).Perm posted ∧
    (linesOf f.returned).Perm (writes.map Prod.fst ++ linesOf f.refused) ∧
    o.close.2.queue = [] := by
  intro start o f posted writes
  have hsound : History.Sound failsWrite pool f o := by
    have hstart : History.Sound failsWrite pool {} start := by
      refine ⟨⟨rfl, rfl, rfl, rfl, .refl _⟩, rfl, rfl, ?_, rfl⟩
      intro i write hwrite
      cases hwrite
    have hrun := History.Sound.run (h := { outbox := start }) hstart operations
    rw [History.outbox_run] at hrun
    exact hrun
  have hsorts : History.Sorts posted f.admitted f.refused := by
    have hstart : History.Sorts [] [] [] := ⟨.refl _, .refl _, .refl _⟩
    have hrun := hstart.run (h := { outbox := start }) operations
    rwa [List.nil_append] at hrun
  have hwrites : writes = f.written.map fun (payload, ok) => (payload.text, ok) := hsound.writes_eq
  have hqueue : linesOf f.admitted = writes.map Prod.fst ++ linesOf (waiting o.queue) := by
    rw [linesOf, hsound.tells.admitted_eq, List.map_append, hsound.writes_fst]
    rfl
  have hsent : o.ledger.sent = .ofTexts ((writes.filter (·.2)).map Prod.fst) := hsound.sent_eq
  have hfailed : o.ledger.failed = .ofTexts ((writes.filter (!·.2)).map Prod.fst) :=
    hsound.failed_eq
  have hback : (f.returned ++ waiting o.queue).Perm posted :=
    hsound.tells.returned_perm.trans hsorts.perm
  refine ⟨hsorts.admitted_sublist, hsorts.refused_sublist, hsorts.perm, hqueue.symm, ?_, hsent,
    hfailed, hsound.tells.overflowed_eq, ?_, hsound.pool_eq, hback, ?_, ?_⟩
  · intro i write hwrite
    rw [hwrites, List.getElem?_map] at hwrite
    obtain ⟨known, hknown, rfl⟩ := Option.map_eq_some_iff.mp hwrite
    exact hsound.outcome_eq i known hknown
  · calc Tally.ofTexts (linesOf posted)
        = Tally.ofTexts (linesOf (f.admitted ++ f.refused)) :=
          Tally.ofTexts_perm (linesOf_perm hsorts.perm.symm)
      _ = Tally.ofTexts (writes.map Prod.fst) + .ofTexts (linesOf (waiting o.queue)) +
            .ofTexts (linesOf f.refused) := by
          rw [linesOf_append, Tally.ofTexts_append, hqueue, Tally.ofTexts_append]
      _ = o.ledger.sent + o.ledger.failed + .ofTexts (linesOf f.refused) +
            .ofTexts (linesOf (waiting o.queue)) := by
          rw [Tally.add_right_comm, ofTexts_writes, hsent, hfailed]
  · -- What waits cancels from the payloads given back and from those admitted.
    have hall := linesOf_perm hsound.tells.returned_perm
    rw [linesOf_append, linesOf_append, hqueue, List.append_assoc] at hall
    have hswap : (linesOf f.returned ++ linesOf (waiting o.queue)).Perm
        (writes.map Prod.fst ++ linesOf f.refused ++ linesOf (waiting o.queue)) := by
      refine hall.trans ?_
      rw [List.append_assoc]
      exact List.perm_append_comm.append_left _
    exact (List.perm_append_right_iff _).mp hswap
  · rw [close_eq]
    exact queue_drain o

end Outbox

end DogStatsD
