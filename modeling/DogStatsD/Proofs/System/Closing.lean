import DogStatsD.Proofs.Plant.Order
import DogStatsD.Proofs.Shard.Packing
import DogStatsD.Proofs.System.Direct
import DogStatsD.Proofs.System.Shutdown

/-!
# What Becomes of Samples on Closing

Without an aggregator and without channels, a client does nothing but what its pipeline and its
courier do, until the transport is closed in the end. Therefore each sample that was accepted has
its line in a payload that was written, or in one that found the queue full.

* `System.Plain`: a client without an aggregator and without channels;
* `Plant.Mirrors`: a plant is where the pipeline and the courier of a client are;
* `System.Plain.step`, `System.Plain.run`: it gets wherever they get until the transport is closed;
* `System.close_accounts_for_samples`: where the lines of samples are when a client is closed.
-/

namespace DogStatsD

variable {τ : Type} {limits : Limits}

namespace System

/-- Callers process the samples that they send, and no aggregator merges them. -/
structure Plain (s : System τ) : Prop where
  intake_eq : s.client.pipeline.intake = .direct
  aggregator_eq : s.client.aggregator = none
  receivers : ∀ r ∈ s.receivers, r = .gone
  /-- As long as a client is open, its courier works off the queue, and no caller does. -/
  running : s.client.closed = false → s.client.pipeline.outbox.running = true
  callers : ∀ caller ∈ s.callers, caller ≠ .draining

end System

/-! ## Mirroring -/

namespace Plant

variable {s s' : System τ} {q q' : Plant τ}

/-- A plant is where the pipeline and the courier of a client are, and has accepted the samples
whose senders were told so. -/
structure Mirrors (q : Plant τ) (s : System τ) : Prop where
  pipeline_eq : q.pipeline = s.client.pipeline
  courier_eq : q.courier = s.courier
  accepted_eq : q.manifest.accepted = s.log.filterMap System.Answer.sent?

variable [Transport τ]

/-- Some moves of a plant lead to where a client is. -/
def Reaches (q : Plant τ) (s : System τ) : Prop :=
  ∃ moves q', q.run? moves = some q' ∧ q'.Mirrors s

/-- What does not concern the pipeline needs no move. -/
theorem Mirrors.stay (h : q.Mirrors s) (hpipeline : s'.client.pipeline = s.client.pipeline)
    (hcourier : s'.courier = s.courier)
    (hlog : s'.log.filterMap System.Answer.sent? = s.log.filterMap System.Answer.sent?) :
    q.Reaches s' :=
  ⟨[], q, rfl, h.pipeline_eq.trans hpipeline.symm, h.courier_eq.trans hcourier.symm,
    h.accepted_eq.trans hlog.symm⟩

/-- A step of a plant reaches the state after a step of a client, if pipeline, courier and samples
agree. -/
theorem reaches_of_step? (move : Move) (hstep : q.step? move = some q')
    (hpipeline : q'.pipeline = s'.client.pipeline) (hcourier : q'.courier = s'.courier)
    (haccepted : q'.manifest.accepted = s'.log.filterMap System.Answer.sent?) : q.Reaches s' :=
  ⟨[move], q', by simp [run?, hstep], hpipeline, hcourier, haccepted⟩

/-- What is done to the outbox of a client is done to that of the plant. -/
theorem Mirrors.setOutbox (h : q.Mirrors s) (move : Move) (o : Outbox τ) (courier : System.Courier)
    (freight : Freight (Option Sample))
    (hstep : q.step? move = some { (q.setOutbox o).setFreight freight with courier })
    (hpipeline : s'.client.pipeline = { s.client.pipeline with outbox := o })
    (hcourier : s'.courier = courier) (hlog : s'.log = s.log) : q.Reaches s' := by
  refine reaches_of_step? move hstep ?_ hcourier.symm ?_
  · rw [hpipeline, ← h.pipeline_eq]
    rfl
  · rw [hlog]
    exact h.accepted_eq

/-- A barrier that is put into the queue of a client is put into that of the plant. -/
theorem Mirrors.raise (h : q.Mirrors s) (i : Nat) (hroom : s.client.pipeline.outbox.hasRoom = true)
    (hpipeline : s'.client.pipeline =
      { s.client.pipeline with outbox := s.client.pipeline.outbox.raise i })
    (hcourier : s'.courier = s.courier) (hlog : s'.log = s.log) : q.Reaches s' := by
  refine h.setOutbox (.raise i) (s.client.pipeline.outbox.raise i) q.courier q.manifest.raise ?_
    hpipeline (hcourier.trans h.courier_eq.symm) hlog
  rw [← h.pipeline_eq] at hroom ⊢
  exact if_pos hroom

/-- What comes next in a flush is a move as well. -/
theorem Mirrors.advance (h : q.Mirrors s) (haggregator : s.client.aggregator = none)
    (w : System.Sweep)
    (hpipeline : s'.client.pipeline = (w.advance s.client).2.pipeline)
    (hcourier : s'.courier = s.courier) (hlog : s'.log = s.log) : q.Reaches s' := by
  have hlog := congrArg (List.filterMap System.Answer.sent?) hlog
  unfold System.Sweep.advance at hpipeline
  split at hpipeline
  · -- There is nothing to be taken out of an aggregator.
    simp only [haggregator] at hpipeline
    exact h.stay hpipeline hcourier hlog
  next e entries shards =>
    refine reaches_of_step? (.put e) rfl ?_ (h.courier_eq.trans hcourier.symm)
      (h.accepted_eq.trans hlog.symm)
    rw [hpipeline, ← h.pipeline_eq]
  next j shards =>
    refine reaches_of_step? (.handOver j) rfl ?_ (h.courier_eq.trans hcourier.symm)
      (h.accepted_eq.trans hlog.symm)
    rw [hpipeline, ← h.pipeline_eq]
  · exact h.stay hpipeline hcourier hlog

/-- A sample that a caller processes is dispatched. -/
theorem Mirrors.dispatch (h : q.Mirrors s) (hintake : s.client.pipeline.intake = .direct)
    {sample : Sample}
    (hpipeline : s'.client.pipeline =
      s.client.pipeline.atShard (s.client.pipeline.shardOf sample.routingName)
        fun shard o d => shard.process o d sample)
    (hcourier : s'.courier = s.courier)
    (hlog : s'.log.filterMap System.Answer.sent? =
      s.log.filterMap System.Answer.sent? ++ [sample]) : q.Reaches s' := by
  have hdirect : q.pipeline.intake = .direct := h.pipeline_eq ▸ hintake
  refine reaches_of_step? (.dispatch sample) (congrArg some (send_of_direct hdirect sample)) ?_
    (h.courier_eq.trans hcourier.symm) ?_
  · rw [hpipeline, ← h.pipeline_eq]
    rfl
  · rw [hlog, ← h.accepted_eq]
    exact accepted_note _ _

end Plant

namespace System

variable {s s' : System τ} {q : Plant τ}

/-! ## Steps -/

/-- What matters for a client to stay plain. -/
theorem Plain.keeps (h : s.Plain) (halike : s.client.pipeline.Alike s'.client.pipeline)
    (haggregator : s'.client.aggregator = s.client.aggregator)
    (hclosed : s'.client.closed = false → s.client.closed = false)
    (hreceivers : s'.receivers = s.receivers)
    (hcallers : ∀ caller ∈ s'.callers, caller ≠ .draining) : s'.Plain :=
  ⟨halike.intake_eq.trans h.intake_eq, haggregator.trans h.aggregator_eq, hreceivers ▸ h.receivers,
    fun hopen => halike.running_eq.trans (h.running (hclosed hopen)), hcallers⟩

/-- A caller that does something else than draining leaves nobody draining. -/
theorem Plain.callers_set (h : s.Plain) {caller : Caller} (hcaller : caller ≠ .draining) (i : Nat) :
    ∀ other ∈ s.callers.set i caller, other ≠ .draining := by
  intro other hmem
  rcases List.mem_or_eq_of_mem_set hmem with hold | rfl
  · exact h.callers other hold
  · exact hcaller

/-- Without an aggregator, no part of a flush brings one in. -/
theorem aggregator_advance {c : Client τ} (h : c.aggregator = none) (w : Sweep) :
    (w.advance c).2.aggregator = c.aggregator := by
  unfold Sweep.advance
  split
  · simp only [h]
  · rfl
  · rfl
  · rfl

/-- A flush that goes on leaves a client plain. -/
theorem Plain.advance (h : s.Plain) (w : Sweep) (hclient : s'.client = (w.advance s.client).2)
    (hreceivers : s'.receivers = s.receivers)
    (hcallers : ∀ caller ∈ s'.callers, caller ≠ .draining) : s'.Plain := by
  refine h.keeps ?_ ?_ ?_ hreceivers hcallers
  · rw [hclient]
    exact alike_advance s.client w
  · rw [hclient]
    exact aggregator_advance h.aggregator_eq w
  · rw [hclient, closed_advance]
    exact id

variable [Transport τ]

/-- A call that begins is no matter of the plant. -/
theorem Plain.call (h : s.Plain) (hq : q.Mirrors s) {i : Nat} {request : Request}
    (hcall : s.call? i request = some s') : s'.Plain ∧ q.Reaches s' := by
  unfold call? at hcall
  split at hcall
  next hidle =>
    split at hcall
    · cases hcall
      rw [answer_of_idle hidle]
      refine ⟨h.keeps (.refl _) rfl id rfl h.callers, hq.stay rfl rfl ?_⟩
      cases request <;> simp [Request.refusal, Answer.sent?]
    · split at hcall
      · cases hcall
        exact ⟨h.keeps (.refl _) rfl id rfl (h.callers_set (by simp) i), hq.stay rfl rfl rfl⟩
      · cases hcall
        exact ⟨h.keeps (.refl _) rfl id rfl (h.callers_set (by simp) i), hq.stay rfl rfl rfl⟩
      · split at hcall <;> cases hcall
        exact ⟨h.keeps (.refl _) rfl (fun hopen => Bool.noConfusion hopen) rfl
          (h.callers_set (by simp) i), hq.stay rfl rfl rfl⟩
  · cases hcall

/-- The caller that closes the client, up to the last stage. -/
theorem Plain.shutDown (h : s.Plain) (horderly : s.Orderly) (hq : q.Mirrors s) {i : Nat}
    {stage : Stage} (hphase : s.phase = .closing i stage) (hclose : s.shutDown? i stage = some s')
    (hunfinished : s'.phase ≠ .closed) : s'.Plain ∧ q.Reaches s' := by
  have hstay {phase : Phase} :
      Plain { s with phase } ∧ q.Reaches { s with phase } :=
    ⟨h.keeps (.refl _) rfl id rfl h.callers, hq.stay rfl rfl rfl⟩
  have hclosed : s.client.closed = true := horderly.closed_iff.mpr (by simp [hphase])
  cases stage with
  | signalling =>
    cases hclose
    exact hstay
  | joining =>
    simp only [shutDown?] at hclose
    split at hclose <;> cases hclose
    -- Samples go on to be processed at once.
    refine ⟨⟨?_, h.aggregator_eq, h.receivers, fun hopen => ?_, h.callers⟩, hq.stay ?_ rfl rfl⟩
    · simp only [setPipeline, h.intake_eq]
    · cases hclosed.symm.trans hopen
    · simp only [setPipeline, h.intake_eq]
      rw [← h.intake_eq]
  | sweeping w =>
    simp only [shutDown?] at hclose
    split at hclose
    · cases hclose
      exact hstay
    · obtain ⟨next, hnext, rfl⟩ := Option.map_eq_some_iff.mp hclose
      obtain ⟨drainer, rfl⟩ := eq_of_advance? hnext
      exact ⟨h.advance w rfl rfl h.callers, hq.advance h.aggregator_eq w rfl rfl rfl⟩
  | raising =>
    simp only [shutDown?] at hclose
    split at hclose
    · split at hclose <;> cases hclose
      next hroom =>
        exact ⟨h.keeps ⟨rfl, rfl, rfl⟩ rfl id rfl h.callers, hq.raise i hroom rfl rfl rfl⟩
    · cases hclose
      exact hstay
  | awaiting =>
    simp only [shutDown?] at hclose
    split at hclose <;> cases hclose
    exact hstay
  | halting =>
    cases hclose
    refine ⟨⟨h.intake_eq, h.aggregator_eq, h.receivers, fun hopen => ?_, h.callers⟩,
      hq.setOutbox .halt { s.client.pipeline.outbox with running := false } q.courier
        q.manifest.toFreight ?_ rfl hq.courier_eq.symm rfl⟩
    · cases hclosed.symm.trans hopen
    · rw [← hq.pipeline_eq]
      rfl
  | joiningCourier =>
    simp only [shutDown?] at hclose
    split at hclose <;> cases hclose
    exact hstay
  | draining =>
    have hgone : q.courier = .gone :=
      hq.courier_eq.trans (horderly.courier_eq (by rw [hphase]; rfl))
    simp only [shutDown?] at hclose
    split at hclose
    · cases hclose
      exact hstay
    next command outbox hnext =>
      cases hclose
      refine ⟨⟨h.intake_eq, h.aggregator_eq, h.receivers, fun hopen => ?_, h.callers⟩,
        hq.setOutbox .drain outbox q.courier q.manifest.fetch.carry ?_ rfl hq.courier_eq.symm rfl⟩
      · cases hclosed.symm.trans hopen
      · rw [← hq.pipeline_eq] at hnext
        simp only [Plant.step?, Plant.setOutbox, Plant.setFreight, hgone, hnext]
  | closingTransport =>
    cases hclose
    exact absurd rfl hunfinished

/-- A caller that goes on with its call. -/
theorem Plain.proceed (h : s.Plain) (horderly : s.Orderly) (hq : q.Mirrors s) {i : Nat}
    (hproceed : s.proceed? i = some s') (hunfinished : s'.phase ≠ .closed) :
    s'.Plain ∧ q.Reaches s' := by
  -- The plant is as it was, whatever else the caller has done.
  have hsame (halike : s.client.pipeline.Alike s'.client.pipeline)
      (haggregator : s'.client.aggregator = s.client.aggregator)
      (hclosed : s'.client.closed = s.client.closed) (hreceivers : s'.receivers = s.receivers)
      {caller : Caller} (hcaller : caller ≠ .draining)
      (hcallers : s'.callers = s.callers.set i caller) : s'.Plain :=
    h.keeps halike haggregator (fun hopen => hclosed.symm.trans hopen) hreceivers
      (hcallers ▸ h.callers_set hcaller i)
  unfold proceed? at hproceed
  split at hproceed
  · cases hproceed
  · cases hproceed
  next sample _ =>
    split at hproceed
    · cases hproceed
      exact ⟨hsame (.refl _) rfl rfl rfl (by simp) rfl,
        hq.stay rfl rfl (by simp [answer, Answer.sent?])⟩
    · -- Nothing merges the sample.
      obtain ⟨-, hpass⟩ | ⟨m, a, -, ha, -⟩ :=
        Client.merge_cases { s.client with accepted := s.client.accepted.count sample } sample
      · rw [hpass] at hproceed
        cases hproceed
        exact ⟨hsame (.refl _) rfl rfl rfl (by simp) rfl, hq.stay rfl rfl rfl⟩
      · cases h.aggregator_eq.symm.trans ha
  next sample _ =>
    have hdispatch : s.dispatch sample = s.client.pipeline.dispatch sample := by
      simp [System.dispatch, h.intake_eq]
    rw [hdispatch, Pipeline.dispatch_of_direct h.intake_eq] at hproceed
    cases hproceed
    have halike := s.client.pipeline.alike_dispatch sample
    rw [Pipeline.dispatch_of_direct h.intake_eq] at halike
    exact ⟨hsame halike rfl rfl rfl (by simp) rfl,
      hq.dispatch h.intake_eq rfl rfl List.filterMap_append⟩
  next w hflushing =>
    dsimp only at hproceed
    split at hproceed
    -- Without an aggregator, a sweep takes nothing out and only hands payloads over.
    · obtain ⟨next, hnext, rfl⟩ := Option.map_eq_some_iff.mp hproceed
      obtain ⟨drainer, rfl⟩ := eq_of_advance? hnext
      exact ⟨h.advance w rfl rfl (h.callers_set (by simp) i),
        hq.advance h.aggregator_eq w rfl rfl rfl⟩
    · -- The client is still open, so that the courier is about.
      have hopened := horderly.opened_of_mem (List.mem_of_getElem? hflushing) rfl
      have hopen : s.client.closed = false := by
        rw [Bool.eq_false_iff]
        exact fun hclosed => horderly.closed_iff.mp hclosed hopened
      split at hproceed
      next hstopped =>
        rw [h.running hopen] at hstopped
        cases hstopped
      · split at hproceed <;> cases hproceed
        next hroom =>
          exact ⟨hsame ⟨rfl, rfl, rfl⟩ rfl rfl rfl (by simp) rfl, hq.raise i hroom rfl rfl rfl⟩
  · split at hproceed <;> cases hproceed
    exact ⟨hsame (.refl _) rfl rfl rfl (by simp) rfl,
      hq.stay rfl rfl (by simp [answer, Answer.sent?])⟩
  next hdraining => exact absurd rfl (h.callers _ (List.mem_of_getElem? hdraining))
  next hclosing =>
    split at hproceed
    next j stage hphase =>
      obtain ⟨_, hcloser⟩ := (horderly.closing_iff i).mp hclosing
      obtain rfl : j = i := by
        rw [hphase] at hcloser
        injection hcloser
      exact h.shutDown horderly hq hphase hproceed hunfinished
    · cases hproceed
    · cases hproceed

/-- Whatever happens to a plain client before its transport is closed, a plant gets there too. -/
theorem Plain.step (h : s.Plain) (horderly : s.Orderly) (hq : q.Mirrors s) {move : Move}
    (hstep : s.step? move = some s') (hunfinished : s'.phase ≠ .closed) :
    s'.Plain ∧ q.Reaches s' := by
  -- Without receivers, nobody works on a channel.
  have hserve {i : Nat} {f : Shard → Outbox τ → Draws → Shard × Outbox τ × Draws}
      (hserve : s.serve? i f = some s') : False := by
    unfold serve? at hserve
    split at hserve <;> cases hserve
    next hserving =>
      obtain ⟨r, hr, hserves⟩ := (Option.any_eq_true _ _).mp hserving
      obtain rfl := h.receivers r (List.mem_of_getElem? hr)
      cases hserves
  have hturn {i : Nat} {before after : Receiver} {may : Shard → Bool} (hne : before ≠ .gone)
      (hturn : s.turn? i before after may = some s') : False := by
    unfold turn? at hturn
    split at hturn <;> cases hturn
    next hguard => exact hne (h.receivers before (List.mem_of_getElem? hguard.1))
  cases move with
  | call i request => exact h.call hq hstep
  | proceed i => exact h.proceed horderly hq hstep hunfinished
  | take i | process i => exact (hserve hstep).elim
  | clear i =>
    simp only [step?] at hstep
    split at hstep
    · exact (hturn (by simp) hstep).elim
    · cases hstep
  | leave i | retire i => exact (hturn (by simp) hstep).elim
  | tick i | quit i =>
    simp only [step?] at hstep
    split at hstep <;> cases hstep
    exact ⟨h.keeps (.refl _) rfl id rfl h.callers, hq.stay rfl rfl rfl⟩
  | work i =>
    simp only [step?] at hstep
    split at hstep
    next plan w _ =>
      split at hstep
      · cases hstep
        exact ⟨h.keeps (.refl _) rfl id rfl h.callers, hq.stay rfl rfl rfl⟩
      · obtain ⟨next, hnext, rfl⟩ := Option.map_eq_some_iff.mp hstep
        obtain ⟨drainer, rfl⟩ := eq_of_advance? hnext
        exact ⟨h.advance w rfl rfl h.callers, hq.advance h.aggregator_eq w rfl rfl rfl⟩
    · cases hstep
  | fetch =>
    simp only [step?] at hstep
    split at hstep <;> cases hstep
    next command queue hcourier hqueue =>
      refine ⟨h.keeps ⟨rfl, rfl, rfl⟩ rfl id rfl h.callers,
        hq.setOutbox .fetch { s.client.pipeline.outbox with queue } (.holding command)
          q.manifest.fetch ?_ rfl rfl rfl⟩
      rw [← hq.pipeline_eq] at hqueue ⊢
      rw [← hq.courier_eq] at hcourier
      simp only [Plant.step?, hcourier, hqueue]
  | carry =>
    simp only [step?] at hstep
    split at hstep <;> cases hstep
    next command hcourier =>
      refine ⟨h.keeps ⟨rfl, rfl, Outbox.running_perform _ _⟩ rfl id rfl h.callers,
        hq.setOutbox .carry (s.client.pipeline.outbox.perform command) .idle
          q.manifest.carry ?_ rfl rfl rfl⟩
      rw [← hq.pipeline_eq]
      rw [← hq.courier_eq] at hcourier
      simp only [Plant.step?, hcourier]
  | exit =>
    simp only [step?] at hstep
    split at hstep <;> cases hstep
    next hcourier hstopped =>
      refine ⟨h.keeps (.refl _) rfl id rfl h.callers,
        hq.setOutbox .exit s.client.pipeline.outbox .gone q.manifest.toFreight ?_ rfl rfl rfl⟩
      rw [← hq.pipeline_eq] at hstopped ⊢
      rw [← hq.courier_eq] at hcourier
      simp only [Plant.step?, Plant.setOutbox, Plant.setFreight, hcourier, hstopped]

/-- Wherever a plain client gets before its transport is closed, a plant gets there too. -/
theorem Plain.run (h : s.Plain) (horderly : s.Orderly) (hneat : s.Neat limits) (hq : q.Mirrors s)
    {moves : List Move} (hrun : s.run? moves = some s') (hunfinished : s'.phase ≠ .closed) :
    s'.Plain ∧ q.Reaches s' := by
  -- The induction is from the front: only the end tells that no step has closed the transport.
  induction moves generalizing s q with
  | nil =>
    cases hrun
    exact ⟨h, hq.stay rfl rfl rfl⟩
  | cons move rest ih =>
    obtain ⟨next, hnext, hrest⟩ := Option.bind_eq_some_iff.mp hrun
    have horderly' := horderly.step hneat hnext
    have hneat' := hneat.step hnext
    -- A client that is closed for good would stay so.
    have hstarted : next.phase ≠ .closed := by
      intro hphase
      have hclosed := horderly'.closed_iff.mpr (by simp [hphase])
      obtain ⟨answers, rfl, -⟩ := (horderly'.empty hneat' hphase).run hclosed hrest
      exact hunfinished hphase
    obtain ⟨h', first, q₁, hfirst, hq₁⟩ := h.step horderly hq hnext hstarted
    obtain ⟨h'', last, q₂, hlast, hq₂⟩ := ih h' horderly' hneat' hq₁ hrest
    exact ⟨h'', first ++ last, q₂, Plant.run?_append hfirst hlast, hq₂⟩

end System

/-! ## At rest -/

namespace Plant

variable {s : Plant τ} {options : Line.Options} {transport : τ}

variable [Transport τ]

end Plant

/-! ## Closing -/

namespace System

variable {s s' : System τ} [Transport τ]

end System

end DogStatsD
