import DogStatsD.Proofs.System.Receivers
import DogStatsD.Proofs.System.Shutdown

/-!
# Calls without Interruption

A client carries out a call in one go, whereas a caller among its threads takes many steps. If
nobody else interferes and the threads keep up with the caller, the steps come to the same as the
call.

* `System.Ready`: all threads of an open client wait for something to do;
* `System.leads_submit`, `System.leads_flush`, `System.leads_close`: sending, flushing and closing.
-/

namespace DogStatsD

variable {τ : Type}

/-- A sample that is not merged is handed back as it was. -/
theorem Client.eq_of_merge {c : Client τ} {sample left : Sample}
    (h : (c.merge sample).1 = some left) : left = sample := by
  unfold merge at h
  split at h
  next m a _ =>
    simp only [Aggregator.aggregate] at h
    split at h
    · cases h
    · simpa using h.symm
  · simpa using h.symm

theorem Client.alike_submit (c : Client τ) (sample : Sample) :
    c.pipeline.Alike (c.submit sample).2.pipeline := by
  unfold submit
  split
  · exact .refl _
  · split
    · exact .refl _
    · obtain ⟨aggregator, draws, hmerge⟩ :=
        merge_snd { c with accepted := c.accepted.count sample } sample
      split
      next hmerged =>
        rw [hmerged] at hmerge
        subst hmerge
        exact ⟨rfl, rfl, rfl⟩
      next left later hmerged =>
        rw [hmerged] at hmerge
        subst hmerge
        have hdraws : c.pipeline.Alike { c.pipeline with draws } := ⟨rfl, rfl, rfl⟩
        exact hdraws.trans (Pipeline.alike_dispatch _ left)

/-- Where the receivers of an open client stand. -/
def Intake.receiver : Intake → System.Receiver
  | .channels _ => .listening
  | .direct | .stopped => .gone

/-- How samples enter the shards once the receivers have stopped. -/
def Intake.whenStopped : Intake → Intake
  | .channels _ | .stopped => .stopped
  | .direct => .direct

/-- Receivers that listen stop, and where there are none nothing changes. -/
theorem Pipeline.stop_cases [Transport τ] (p : Pipeline τ) :
    (p.intake.receiver = .listening ∧ p.release.intake.whenStopped = .stopped ∧
      p.stop = { p.release with intake := .stopped }) ∨
    (p.intake.receiver = .gone ∧ p.intake.whenStopped = p.intake ∧ p.stop = p) := by
  have hrelease := p.alike_release.intake_eq
  cases hintake : p.intake with
  | channels settings =>
    refine .inl ⟨rfl, ?_, ?_⟩
    · rw [hrelease, hintake]
      rfl
    · rw [stop, hintake]
  | direct => exact .inr ⟨rfl, rfl, by rw [stop, hintake]⟩
  | stopped => exact .inr ⟨rfl, rfl, by rw [stop, hintake]⟩

theorem Pipeline.running_stop [Transport τ] (p : Pipeline τ) :
    p.stop.outbox.running = p.outbox.running := by
  obtain ⟨-, -, hstop⟩ | ⟨-, -, hstop⟩ := p.stop_cases
  · rw [hstop]
    exact p.alike_release.running_eq
  · rw [hstop]

namespace System

variable {s s' : System τ} {i : Nat}

/-- All threads of a client wait for something to do. -/
structure Ready (s : System τ) : Prop where
  receivers_eq : s.receivers =
    List.replicate s.client.pipeline.shards.length s.client.pipeline.intake.receiver
  waiting : ∀ t ∈ s.tickers, t.state = .waiting
  courier_eq : s.courier = if s.client.pipeline.outbox.running then .idle else .gone
  drainer_eq : s.drainer = none

theorem Ready.courier_idle (h : s.Ready) (hrunning : s.client.pipeline.outbox.running = true) :
    s.courier = .idle := by
  rw [h.courier_eq, hrunning]
  rfl

/-- A call that changes neither the way into the shards nor the thread of the outbox leaves the
threads ready. -/
theorem Ready.alike (h : s.Ready) {c : Client τ} (halike : s.client.pipeline.Alike c.pipeline)
    (log : List Answer) : Ready { s with client := c, log } := by
  refine ⟨?_, h.waiting, ?_, h.drainer_eq⟩
  · rw [halike.length_eq, halike.intake_eq]
    exact h.receivers_eq
  · rw [halike.running_eq]
    exact h.courier_eq

/-- A sample whose receiver listens goes the way that the client sends it. -/
theorem dispatch_eq
    (hreceivers : s.receivers =
      List.replicate s.client.pipeline.shards.length s.client.pipeline.intake.receiver)
    (sample : Sample) : s.dispatch sample = s.client.pipeline.dispatch sample := by
  simp only [System.dispatch]
  split
  next settings hintake hgone =>
    rw [hreceivers, hintake] at hgone
    cases List.eq_of_mem_replicate (List.mem_of_getElem? hgone)
  · rfl

variable [Transport τ]

/-! ## Sending -/

/-- A sample that was not merged goes to its shard. -/
theorem leads_dispatch (hlt : i < s.callers.length)
    (hreceivers : s.receivers =
      List.replicate s.client.pipeline.shards.length s.client.pipeline.intake.receiver)
    (sample : Sample) :
    (s.setCaller i (.dispatching sample)).Leads
      ((s.setPipeline (s.client.pipeline.dispatch sample).2).answer i (.send sample)
        (s.client.pipeline.dispatch sample).1) := by
  have hcaller : (s.setCaller i (.dispatching sample)).callers[i]? = some (.dispatching sample) :=
    List.getElem?_set_self hlt
  have hdispatch : (s.setCaller i (.dispatching sample)).dispatch sample =
      s.client.pipeline.dispatch sample :=
    dispatch_eq (s := s.setCaller i _) hreceivers sample
  refine leads_step (m := .proceed i) ?_
  simp only [step?, proceed?, hcaller, hdispatch]
  simp [answer, setCaller, setPipeline]

/-- A caller that has found the client open checks its sample, and sends it if it is valid. -/
theorem leads_proceed (h : s.Ready) (hidle : s.callers[i]? = some .idle)
    (hopen : s.client.closed = false) (sample : Sample) :
    (s.setCaller i (.sending sample)).Leads
      (answer { s with client := (s.client.submit sample).2 } i (.send sample)
        (s.client.submit sample).1) := by
  have hlt := (List.getElem?_eq_some_iff.mp hidle).1
  have hsending : (s.setCaller i (.sending sample)).callers[i]? = some (.sending sample) :=
    List.getElem?_set_self hlt
  have hclient : (s.setCaller i (.sending sample)).client = s.client := rfl
  have hnot : ¬s.client.closed = true := by simp [hopen]
  cases hvalid : sample.validate with
  | error reason =>
    have hsubmit : s.client.submit sample = (.error (.invalidSample reason), s.client) := by
      simp only [Client.submit, if_neg hnot, hvalid]
    rw [hsubmit]
    refine leads_step (m := .proceed i) ?_
    simp only [step?, proceed?, hsending, hvalid]
    simp [answer, setCaller]
  | ok valid =>
    rcases hmerge : { s.client with accepted := s.client.accepted.count sample }.merge sample with
      ⟨left, client⟩
    cases left with
    | none =>
      have hsubmit : s.client.submit sample = (.ok (), client) := by
        simp only [Client.submit, if_neg hnot, hvalid, hmerge]
      rw [hsubmit]
      refine leads_step (m := .proceed i) ?_
      simp only [step?, proceed?, hsending, hvalid, hclient, hmerge]
      simp [answer, setCaller]
    | some left =>
      obtain rfl : left = sample := Client.eq_of_merge (by rw [hmerge])
      have hsubmit : s.client.submit left =
          ((client.pipeline.dispatch left).1,
            { client with pipeline := (client.pipeline.dispatch left).2 }) := by
        simp only [Client.submit, if_neg hnot, hvalid, hmerge]
      have hleft : (s.setCaller i (.sending left)).step? (.proceed i) =
          some (setCaller { s with client } i (.dispatching left)) := by
        simp only [step?, proceed?, hsending, hvalid, hclient, hmerge]
        simp [setCaller]
      -- Merging has changed neither the channels nor the shards.
      obtain ⟨aggregator, draws, hmerged⟩ :=
        Client.merge_snd { s.client with accepted := s.client.accepted.count left } left
      rw [hmerge] at hmerged
      have hdispatched := leads_dispatch (s := { s with client }) hlt (by
        rw [show client = _ from hmerged]
        exact h.receivers_eq) left
      rw [hsubmit]
      exact (leads_step hleft).trans hdispatched

/-- Submitting a sample. -/
theorem leads_submit (h : s.Ready) (hidle : s.callers[i]? = some .idle)
    (hopen : s.client.closed = false) (sample : Sample) :
    s.Leads
      { s with
        client := (s.client.submit sample).2
        log := s.log ++ [⟨i, .send sample, (s.client.submit sample).1⟩] } := by
  have hcall : s.step? (.call i (.send sample)) = some (s.setCaller i (.sending sample)) := by
    simp [step?, call?, hidle, hopen]
  have hproceeded := leads_proceed h hidle hopen sample
  rw [answer_of_idle (s := { s with client := (s.client.submit sample).2 }) hidle] at hproceeded
  exact (leads_step hcall).trans hproceeded

/-! ## Flushing -/

/-- The caller of a flush, once all payloads are handed over, waits until they are written. -/
theorem leads_await (hidle : s.callers[i]? = some .idle)
    (hcourier : s.client.pipeline.outbox.running = true → s.courier = .idle) :
    (s.setCaller i (.flushing {})).Leads
      ((s.setOutbox s.client.pipeline.outbox.drain).answer i .flush (.ok ())) := by
  have hlt := (List.getElem?_eq_some_iff.mp hidle).1
  have hcaller (o : Outbox τ) (caller : Caller) :
      ((s.setCaller i caller).setOutbox o).callers[i]? = some caller :=
    List.getElem?_set_self hlt
  generalize ho : s.client.pipeline.outbox = o at hcourier ⊢
  have hqueue := Outbox.queue_drain o
  cases hthread : o.running with
  | true =>
    -- A barrier finds room at the latest when the courier has emptied the queue.
    have hraise : ((s.setCaller i (.flushing {})).setOutbox o.drain).step? (.proceed i) =
        some ((s.setCaller i .awaiting).setOutbox (o.drain.raise i)) := by
      have hroom : o.drain.hasRoom = true := by simp [Outbox.hasRoom, hthread, hqueue]
      simp only [step?, proceed?, hcaller]
      simp [setOutbox, setPipeline, setCaller, Sweep.isDone, hthread, hroom]
    have hraised := leads_barrier (s := s.setCaller i (.flushing {}))
      (t := s.setCaller i .awaiting) (hcourier hthread) (hcourier hthread) hraise
    have hreturn : ((s.setCaller i .awaiting).setOutbox o.drain).step? (.proceed i) =
        some ((s.setOutbox o.drain).answer i .flush (.ok ())) := by
      have hbarrier : ((s.setCaller i .awaiting).setOutbox o.drain).hasBarrier i = false :=
        hasBarrier_eq_false (hcourier hthread) hqueue
      simp only [step?, proceed?, hcaller, hbarrier]
      simp [answer, setOutbox, setPipeline, setCaller]
    subst ho
    exact hraised.trans (leads_step hreturn)
  | false =>
    -- Without a courier, the caller works off the queue itself.
    have hturn : (s.setCaller i (.flushing {})).step? (.proceed i) =
        some (s.setCaller i .draining) := by
      have hflushing : (s.setCaller i (.flushing {})).callers[i]? = some (.flushing {}) :=
        List.getElem?_set_self hlt
      simp only [step?, proceed?, hflushing]
      simp [setCaller, Sweep.isDone, ho, hthread]
    have hworked := leads_workOff (s := s.setCaller i .draining) (m := .proceed i)
      (fun o command later hstep => by
        simp only [step?, proceed?, hcaller]
        rw [show ((s.setCaller i .draining).setOutbox o).client.pipeline.outbox = o from rfl, hstep]
        rfl) o
    have hreturn : ((s.setCaller i .draining).setOutbox o.drain).step? (.proceed i) =
        some ((s.setOutbox o.drain).answer i .flush (.ok ())) := by
      have hnone : o.drain.step? = none := by rw [Outbox.step?, hqueue]
      simp only [step?, proceed?, hcaller]
      rw [show ((s.setCaller i .draining).setOutbox o.drain).client.pipeline.outbox = o.drain
        from rfl, hnone]
      simp [answer, setOutbox, setPipeline, setCaller]
    subst ho
    exact (leads_step hturn).trans (hworked.trans (leads_step hreturn))

/-- Flushing. -/
theorem leads_flush (h : s.Ready) (hidle : s.callers[i]? = some .idle)
    (hopen : s.client.closed = false) :
    s.Leads
      { s with
        client := s.client.flush.2
        log := s.log ++ [⟨i, .flush, s.client.flush.1⟩] } := by
  have hlt := (List.getElem?_eq_some_iff.mp hidle).1
  have hcourier := fun hrunning => h.courier_idle hrunning
  let k : Course :=
    { caller := i, callers := fun w => s.callers.set i (.flushing w), phase := fun _ => s.phase }
  -- While the sweep lasts, its caller can always take the next step of it.
  have hgoes : k.Goes s := by
    intro c drainer w hdone
    have hflushing : (k.state s c drainer w).callers[i]? = some (.flushing w) :=
      List.getElem?_set_self hlt
    simp only [step?, show k.caller = i from rfl, proceed?, hflushing, hdone, Bool.not_false,
      if_true]
    cases hnext : (k.state s c drainer w).advance? (.caller i) w with
    | none => rfl
    | some next =>
      obtain ⟨later, rfl⟩ := eq_of_advance? hnext
      simp [setCaller, Course.state, k]
  have hcall : s.step? (.call i .flush) = some (k.state s s.client none (.whole s.client)) := by
    simp [step?, call?, hidle, hopen, setCaller, Course.state, k, h.drainer_eq]
  -- First the sweep, then the barrier, which the courier works up to.
  have hwhole := hgoes.whole hcourier
  have halike := s.client.alike_flushAggregator.trans
    s.client.flushAggregator.pipeline.alike_handOver
  let c : Client τ :=
    { s.client.flushAggregator with pipeline := s.client.flushAggregator.pipeline.handOver }
  have hawaited := leads_await (s := { s with client := c, drainer := none }) hidle
    (halike.of_running hcourier)
  have hflush : s.client.flush = (.ok (),
      { c with pipeline := { c.pipeline with outbox := c.pipeline.outbox.drain } }) := by
    simp only [Client.flush, hopen, Bool.false_eq_true, if_false, Pipeline.flush,
      Outbox.flush_eq_drain, c]
  rw [answer_of_idle (s := setOutbox { s with client := c, drainer := none } _) hidle] at hawaited
  rw [hflush, h.drainer_eq]
  exact (leads_step hcall).trans (hwhole.trans hawaited)

/-! ## Closing -/

/-- A caller has come to some stage of closing the client. -/
def atStage (s : System τ) (i : Nat) (stage : Stage) : System τ :=
  { s with phase := .closing i stage }

theorem proceed_atStage (hclosing : s.callers[i]? = some .closing) (stage : Stage) :
    (s.atStage i stage).step? (.proceed i) = (s.atStage i stage).shutDown? i stage := by
  have hcaller : (s.atStage i stage).callers[i]? = some .closing := hclosing
  simp only [step?, proceed?, hcaller]
  rfl

/-- Once the receivers have stopped and the tickers do, the caller that waits for them goes on. -/
theorem leads_pass (hclosing : s.callers[i]? = some .closing)
    (hreceivers : ∀ r ∈ s.receivers, r = .gone) (htickers : ∀ t ∈ s.tickers, t.state = .waiting) :
    ∃ tickers, (s.atStage i .joining).Leads
      (atStage
        { s.setPipeline
            { s.client.pipeline with intake := s.client.pipeline.intake.whenStopped } with
          tickers }
        i (.sweeping (.whole s.client))) := by
  obtain ⟨tickers, hquit, hgone⟩ := leads_quit (s := s.atStage i .joining) [] rfl
    (List.forall_mem_nil _) htickers rfl
  refine ⟨tickers, hquit.trans (leads_step (m := .proceed i) ?_)⟩
  have hall : (s.receivers.all (· == .gone) && tickers.all (·.state.isGone)) = true := by
    simp only [Bool.and_eq_true, List.all_eq_true, beq_iff_eq]
    exact ⟨hreceivers, fun t ht => by rw [hgone t ht]; rfl⟩
  refine (proceed_atStage (s := { s with tickers }) hclosing .joining).trans ?_
  simp only [shutDown?, atStage, hall, if_true]
  cases s.client.pipeline.intake <;> rfl

/-- Receivers and tickers stop, and the caller that waits for them goes on. -/
theorem leads_join (h : s.Ready) (hclosing : s.callers[i]? = some .closing) :
    ∃ receivers tickers, (s.atStage i .signalling).Leads
      (atStage { s.setPipeline s.client.pipeline.stop with receivers, tickers } i
        (.sweeping (.whole { s.client with pipeline := s.client.pipeline.stop }))) := by
  have hsignal := leads_step (proceed_atStage hclosing .signalling)
  have hreceivers := h.receivers_eq
  obtain ⟨hlistening, hstopped, hstop⟩ | ⟨hgone, hsame, hstop⟩ := s.client.pipeline.stop_cases
  · rw [hlistening] at hreceivers
    let receivers := List.replicate s.client.pipeline.shards.length Receiver.gone
    have hreleased := leads_release (s := s.atStage i .joining) hreceivers rfl
      fun hrunning => h.courier_idle hrunning
    obtain ⟨tickers, hpassed⟩ := leads_pass
      (s := { s.setPipeline s.client.pipeline.release with receivers }) hclosing
      (fun r hr => List.eq_of_mem_replicate hr) h.waiting
    refine ⟨receivers, tickers, hsignal.trans (hreleased.trans ?_)⟩
    rw [hstop, ← hstopped]
    exact hpassed
  · rw [hgone] at hreceivers
    obtain ⟨tickers, hpassed⟩ := leads_pass hclosing
      (fun r hr => List.eq_of_mem_replicate (hreceivers ▸ hr)) h.waiting
    rw [hsame] at hpassed
    refine ⟨s.receivers, tickers, hsignal.trans ?_⟩
    rw [hstop]
    exact hpassed

/-- The caller that closes the client does the last flush. -/
theorem leads_sweep (hclosing : s.callers[i]? = some .closing) (hdrainer : s.drainer = none)
    (hcourier : s.client.pipeline.outbox.running = true → s.courier = .idle) :
    (s.atStage i (.sweeping (.whole s.client))).Leads
      (atStage
        { s with
          client :=
            { s.client.flushAggregator with
              pipeline := s.client.flushAggregator.pipeline.handOver } }
        i .raising) := by
  let k : Course :=
    { caller := i, callers := fun _ => s.callers, phase := fun w => .closing i (.sweeping w) }
  have hgoes : k.Goes s := by
    intro c drainer w hdone
    refine (proceed_atStage (s := { s with client := c, drainer }) hclosing (.sweeping w)).trans ?_
    simp only [shutDown?, hdone, Bool.false_eq_true, if_false]
    change Option.map _ ((k.state s c drainer w).advance? (.caller i) w) = _
    cases hnext : (k.state s c drainer w).advance? (.caller i) w with
    | none => rfl
    | some next =>
      obtain ⟨later, rfl⟩ := eq_of_advance? hnext
      rfl
  have hwhole := hgoes.whole hcourier
  rw [← hdrainer] at hwhole
  let c : Client τ :=
    { s.client.flushAggregator with pipeline := s.client.flushAggregator.pipeline.handOver }
  exact hwhole.trans (leads_step (proceed_atStage (s := { s with client := c }) hclosing _))

/-- Once the courier is gone, the caller that closes the client works off what is left, closes the
transport and returns. -/
theorem leads_last (hclosing : s.callers[i]? = some .closing) (hgone : s.courier = .gone) :
    let o := s.client.pipeline.outbox.drain
    (s.atStage i .joiningCourier).Leads
      { (s.setOutbox { o with transport := (Transport.close o.transport).2 }).answer i .close
          ((Transport.close o.transport).1.mapError .transport) with
        phase := .closed } := by
  intro o
  have hjoined : (s.atStage i .joiningCourier).step? (.proceed i) =
      some (s.atStage i .draining) := by
    rw [proceed_atStage hclosing]
    simp only [shutDown?, atStage, hgone, Courier.isGone, if_true]
  have hdraining (o : Outbox τ) : ((s.atStage i .draining).setOutbox o).step? (.proceed i) =
      ((s.atStage i .draining).setOutbox o).shutDown? i .draining :=
    proceed_atStage (s := s.setOutbox o) hclosing .draining
  have houtbox (o : Outbox τ) :
      ((s.atStage i .draining).setOutbox o).client.pipeline.outbox = o :=
    rfl
  have hworked := leads_workOff (s := s.atStage i .draining) (m := .proceed i)
    (fun o command later hstep => by
      rw [hdraining, shutDown?, houtbox, hstep]
      rfl) s.client.pipeline.outbox
  have hempty : ((s.atStage i .draining).setOutbox o).step? (.proceed i) =
      some ((s.setOutbox o).atStage i .closingTransport) := by
    have hnone : o.step? = none := by rw [Outbox.step?, Outbox.queue_drain]
    rw [hdraining, shutDown?, houtbox, hnone]
    rfl
  have hreturn := proceed_atStage (s := s.setOutbox o) hclosing .closingTransport
  exact (leads_step hjoined).trans (hworked.trans ((leads_step hempty).trans (leads_step hreturn)))

/-- The caller that closes the client lets the courier write what is queued, stops it, closes the
transport and returns. -/
theorem leads_halt (hclosing : s.callers[i]? = some .closing)
    (hcourier : s.courier = if s.client.pipeline.outbox.running then .idle else .gone) :
    let o := s.client.pipeline.outbox
    (s.atStage i .raising).Leads
      { (setOutbox { s with courier := .gone } o.close.2).answer i .close
          (o.close.1.mapError .transport) with
        phase := .closed } := by
  intro o
  have hproceed (later : Outbox τ) (stage : Stage) :
      ((s.setOutbox later).atStage i stage).step? (.proceed i) =
        ((s.setOutbox later).atStage i stage).shutDown? i stage :=
    proceed_atStage (s := s.setOutbox later) hclosing stage
  have hqueue := Outbox.queue_drain o
  rw [Outbox.close_eq]
  cases hthread : o.running with
  | true =>
    have hidle : s.courier = .idle := by
      rw [hcourier, show s.client.pipeline.outbox = o from rfl, hthread]
      rfl
    -- As in a flush, the barrier finds room when the courier has emptied the queue.
    have hraise : ((s.setOutbox o.drain).atStage i .raising).step? (.proceed i) =
        some ((s.setOutbox (o.drain.raise i)).atStage i .awaiting) := by
      have hroom : o.drain.hasRoom = true := by simp [Outbox.hasRoom, hthread, hqueue]
      rw [hproceed]
      simp [shutDown?, atStage, setOutbox, setPipeline, hthread, hroom]
    have hraised := leads_barrier (s := s.atStage i .raising) (t := s.atStage i .awaiting) hidle
      hidle hraise
    have hawaited : ((s.setOutbox o.drain).atStage i .awaiting).step? (.proceed i) =
        some ((s.setOutbox o.drain).atStage i .halting) := by
      have hbarrier : ((s.setOutbox o.drain).atStage i .awaiting).hasBarrier i = false :=
        hasBarrier_eq_false hidle hqueue
      rw [hproceed]
      simp only [shutDown?, hbarrier, Bool.false_eq_true, if_false]
      rfl
    have hhalted := hproceed o.drain .halting
    let stopped : Outbox τ := { o.drain with running := false }
    have hexit : ((s.setOutbox stopped).atStage i .joiningCourier).step? .exit =
        some ((setOutbox { s with courier := .gone } stopped).atStage i .joiningCourier) := by
      simp [step?, atStage, setOutbox, setPipeline, stopped, hidle]
    have hstopped : stopped.drain = stopped := Outbox.drain_of_queue_eq_nil hqueue
    have hlast := leads_last (s := setOutbox { s with courier := .gone } stopped) hclosing rfl
    rw [show (setOutbox { s with courier := .gone } stopped).client.pipeline.outbox = stopped
      from rfl, hstopped] at hlast
    exact hraised.trans ((leads_step hawaited).trans ((leads_step hhalted).trans
      ((leads_step hexit).trans hlast)))
  | false =>
    have hgone : s.courier = .gone := by
      rw [hcourier, show s.client.pipeline.outbox = o from rfl, hthread]
      rfl
    have hraise : (s.atStage i .raising).step? (.proceed i) =
        some (s.atStage i .joiningCourier) := by
      rw [proceed_atStage hclosing]
      simp only [shutDown?]
      rw [show (s.atStage i .raising).client.pipeline.outbox = o from rfl, hthread]
      rfl
    have hrunning : o.drain.running = false := by rw [Outbox.running_drain, hthread]
    rw [← hgone, ← hrunning]
    exact (leads_step hraise).trans (leads_last hclosing hgone)

/-- Closing. -/
theorem leads_close (h : s.Ready) (hcallers : ∀ caller ∈ s.callers, caller = .idle)
    (hidle : s.callers[i]? = some .idle) (hopen : s.client.closed = false) :
    ∃ s', s.Leads s' ∧ s'.callers = s.callers ∧ s'.client = s.client.close.2 ∧
      s'.log = s.log ++ [⟨i, .close, s.client.close.1⟩] := by
  have hlt := (List.getElem?_eq_some_iff.mp hidle).1
  let c : Client τ := { s.client with closed := true }
  let begun : System τ := { s.setCaller i .closing with client := c }
  have hcall : s.step? (.call i .close) = some (begun.atStage i .signalling) := by
    have hnobody : s.callers.any Caller.holdsOpen = false := by
      rw [List.any_eq_false]
      intro caller hcaller
      rw [hcallers caller hcaller]
      decide
    simp [step?, call?, hidle, hopen, hnobody, begun, c, atStage, setCaller]
  -- The caller that closes is no idle one, but the threads are as ready as before.
  have hready : begun.Ready := ⟨h.receivers_eq, h.waiting, h.courier_eq, h.drainer_eq⟩
  have hclosing : begun.callers[i]? = some .closing := List.getElem?_set_self hlt
  obtain ⟨receivers, tickers, hjoined⟩ := leads_join hready hclosing
  let stopped : Client τ := { c with pipeline := c.pipeline.stop }
  let joined : System τ := { begun with client := stopped, receivers, tickers }
  have hstopped : stopped.pipeline.outbox.running = s.client.pipeline.outbox.running :=
    c.pipeline.running_stop
  have hswept := leads_sweep (s := joined) hclosing h.drainer_eq
    fun hrunning => h.courier_idle (hstopped.symm.trans hrunning)
  let flushed : Client τ :=
    { stopped.flushAggregator with pipeline := stopped.flushAggregator.pipeline.handOver }
  have hflushed : flushed.pipeline.outbox.running = s.client.pipeline.outbox.running :=
    (stopped.alike_flushAggregator.trans
      stopped.flushAggregator.pipeline.alike_handOver).running_eq.trans hstopped
  have hhalted := leads_halt (s := { joined with client := flushed }) hclosing (by
    rw [show ({ joined with client := flushed } : System τ).client = flushed from rfl, hflushed]
    exact h.courier_eq)
  refine ⟨_, (leads_step hcall).trans (hjoined.trans (hswept.trans hhalted)), ?_, ?_, ?_⟩
  · obtain ⟨hlt, hcaller⟩ := List.getElem?_eq_some_iff.mp hidle
    simp [answer, setCaller, setOutbox, setPipeline, joined, begun, ← hcaller]
  · rw [Client.close, if_neg (by simp [hopen])]
    rfl
  · rw [Client.close, if_neg (by simp [hopen])]
    rfl

end System

end DogStatsD
