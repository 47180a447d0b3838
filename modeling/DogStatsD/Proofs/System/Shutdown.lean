import DogStatsD.Proofs.System.Orderly
import DogStatsD.Transport.Scripted

/-!
# Nothing Left after Closing

When a call that has closed a client returns, every part of the client is empty and every thread is
gone. From then on callers are turned away, and nothing else can happen.

* `System.Empty`: nothing is left anywhere, and nobody is about;
* `System.Orderly.empty`: a client that is closed in order is empty;
* `System.Empty.step`, `System.Empty.run`: all that happens to it is that callers are turned away;
* `System.close_leaves_nothing`: closing, in whatever order the parties take their steps.
-/

namespace DogStatsD

namespace System

variable {τ : Type} {limits : Limits} {s s' : System τ}

/-- Nothing is left in a client, nobody is in the middle of a call, and all threads are gone. -/
structure Empty (s : System τ) : Prop where
  tables : ∀ a, s.client.aggregator = some a → ∀ kind, a.EmptyAt kind
  channels : ∀ shard ∈ s.client.pipeline.shards, shard.waiting = [] ∧ shard.held = none
  payloads : ∀ shard ∈ s.client.pipeline.shards,
    shard.packer.current.lines = 0 ∧ shard.packer.current.text = ""
  queue_eq : s.client.pipeline.outbox.queue = []
  callers : ∀ caller ∈ s.callers, caller = .idle
  receivers : ∀ r ∈ s.receivers, r = .gone
  tickers : ∀ t ∈ s.tickers, t.state = .gone
  courier_eq : s.courier = .gone

/-- When the last stage is over, everything is at rest. -/
theorem Orderly.empty (h : s.Orderly) (hneat : s.Neat limits) (hphase : s.phase = .closed) :
    s.Empty := by
  obtain ⟨hreceivers, htickers⟩ := h.joined (by rw [hphase]; rfl)
  have hcovers := h.covers (by rw [hphase]; rfl)
  rw [hphase] at hcovers
  refine ⟨fun a ha kind => ?_, fun shard hshard => ?_, fun shard hshard => ?_, ?_,
    fun caller hcaller => ?_, hreceivers, htickers, ?_⟩
  · exact hcovers.tables a ha kind List.not_mem_nil
  · -- A channel in which something waits would still have its receiver.
    obtain ⟨i, hi⟩ := List.mem_iff_getElem?.mp hshard
    obtain hquiet | ⟨r, hr, hserving⟩ := h.served i shard hi
    · exact hquiet
    · rw [hreceivers r (List.mem_of_getElem? hr)] at hserving
      cases hserving
  · obtain ⟨i, hi⟩ := List.mem_iff_getElem?.mp hshard
    have hlines := hcovers.payloads i shard hi List.not_mem_nil
    exact ⟨hlines, (hneat.pipeline.packers shard hshard).text_eq hlines⟩
  · exact h.queue_eq (by rw [hphase]; rfl)
  · have hreleased := h.released (h.closed_iff.mpr (by simp [hphase])) caller hcaller
    cases caller with
    | idle => rfl
    | closing =>
      obtain ⟨i, hi⟩ := List.mem_iff_getElem?.mp hcaller
      obtain ⟨stage, hclosing⟩ := (h.closing_iff i).mp hi
      rw [hphase] at hclosing
      cases hclosing
    | sending | dispatching | flushing | awaiting | draining => cases hreleased
  · exact h.courier_eq (by rw [hphase]; rfl)

variable [Transport τ]

/-- All that can happen to a closed client that is empty is that it turns callers away. -/
theorem Empty.step (h : s.Empty) (hclosed : s.client.closed = true) {move : Move}
    (hstep : s.step? move = some s') :
    ∃ i request, s' = { s with log := s.log ++ [⟨i, request, request.refusal⟩] } := by
  have hcallers (i : Nat) : s.callers[i]? = none ∨ s.callers[i]? = some .idle := by
    cases hcaller : s.callers[i]? with
    | none => exact .inl rfl
    | some caller => exact .inr (by rw [h.callers caller (List.mem_of_getElem? hcaller)])
  have hturn {before : Receiver} (hne : before ≠ .gone) (i : Nat) (after : Receiver)
      (may : Shard → Bool) : s.turn? i before after may = none :=
    if_neg fun hguard => hne (h.receivers before (List.mem_of_getElem? hguard.1))
  have hserve (i : Nat) (f : Shard → Outbox τ → Draws → Shard × Outbox τ × Draws) :
      s.serve? i f = none := by
    refine if_neg fun hserving => ?_
    obtain ⟨r, hr, hserves⟩ := (Option.any_eq_true _ _).mp hserving
    rw [h.receivers r (List.mem_of_getElem? hr)] at hserves
    cases hserves
  have hticker {i : Nat} {t : Ticker} (ht : s.tickers[i]? = some t) : t.state = .gone :=
    h.tickers t (List.mem_of_getElem? ht)
  cases move with
  | call i request =>
    obtain hnone | hidle := hcallers i
    · simp [step?, call?, hnone] at hstep
    · exact ⟨i, request, Option.some.inj (hstep.symm.trans (call?_of_closed hclosed hidle request))⟩
  | proceed i =>
    -- Nobody is in the middle of a call.
    obtain hnone | hidle := hcallers i
    · simp [step?, proceed?, hnone] at hstep
    · simp [step?, proceed?, hidle] at hstep
  | take i | process i => simp [step?, hserve] at hstep
  | clear i | leave i | retire i => simp [step?, hturn] at hstep
  | tick i | work i =>
    simp only [step?] at hstep
    split at hstep
    next ht => cases hticker ht
    · cases hstep
  | quit i =>
    simp only [step?] at hstep
    split at hstep
    next ht _ => cases hticker ht
    · cases hstep
  | fetch | carry | exit => simp [step?, h.courier_eq] at hstep

/-- Whatever happens to a closed client that is empty, callers are turned away. -/
theorem Empty.run (h : s.Empty) (hclosed : s.client.closed = true) {moves : List Move}
    (hrun : s.run? moves = some s') :
    ∃ answers, s' = { s with log := s.log ++ answers } ∧
      ∀ answer ∈ answers, answer.outcome = answer.request.refusal := by
  induction moves generalizing s with
  | nil =>
    cases hrun
    exact ⟨[], by simp, List.forall_mem_nil _⟩
  | cons move rest ih =>
    obtain ⟨next, hnext, hrest⟩ := Option.bind_eq_some_iff.mp hrun
    obtain ⟨i, request, rfl⟩ := h.step hclosed hnext
    have hempty : Empty { s with log := s.log ++ [⟨i, request, request.refusal⟩] } :=
      ⟨h.tables, h.channels, h.payloads, h.queue_eq, h.callers, h.receivers, h.tickers,
        h.courier_eq⟩
    obtain ⟨answers, rfl, hrefused⟩ := ih hempty hclosed hrest
    exact ⟨⟨i, request, request.refusal⟩ :: answers, by simp,
      List.forall_mem_cons.mpr ⟨rfl, hrefused⟩⟩

/-- The call that closes the client returns when the transport is closed, and not before. -/
theorem eq_of_returns {i : Nat} (hclosing : s.callers[i]? = some .closing)
    (hstep : s.step? (.proceed i) = some s') (hreturn : s'.callers[i]? = some .idle) :
    (∃ j, s.phase = .closing j .closingTransport) ∧
      s' =
        let o := s.client.pipeline.outbox
        let (outcome, transport) := Transport.close o.transport
        { (s.setOutbox { o with transport }).answer i .close (outcome.mapError .transport) with
          phase := .closed } := by
  -- All other stages leave the callers as they are, whereas a call that returns does not.
  have hcallers : s'.callers ≠ s.callers := by
    intro hsame
    rw [hsame, hclosing] at hreturn
    cases hreturn
  simp only [step?, proceed?, hclosing] at hstep
  split at hstep
  next j stage hphase =>
    cases stage with
    | closingTransport => exact ⟨⟨j, hphase⟩, (Option.some.inj hstep).symm⟩
    | signalling | halting =>
      cases hstep
      exact absurd rfl hcallers
    | joining | awaiting | joiningCourier =>
      simp only [shutDown?] at hstep
      split at hstep <;> cases hstep
      exact absurd rfl hcallers
    | sweeping w =>
      simp only [shutDown?] at hstep
      split at hstep
      · cases hstep
        exact absurd rfl hcallers
      · obtain ⟨next, hnext, rfl⟩ := Option.map_eq_some_iff.mp hstep
        obtain ⟨drainer, rfl⟩ := eq_of_advance? hnext
        exact absurd rfl hcallers
    | raising =>
      simp only [shutDown?] at hstep
      split at hstep
      · split at hstep <;> cases hstep
        exact absurd rfl hcallers
      · cases hstep
        exact absurd rfl hcallers
    | draining =>
      simp only [shutDown?] at hstep
      split at hstep <;> cases hstep <;> exact absurd rfl hcallers
  · cases hstep
  · cases hstep

/-- However the parties of a client take turns: when the call that has closed it returns, whether
well or with the failure of the transport, nothing is left anywhere. After that, nothing changes but
that callers are turned away, and they always are. -/
theorem close_leaves_nothing {config : Config} {transport : τ} {route : String → Nat}
    {draws : Draws} {client : Client τ}
    (hbuild : config.buildWith transport route draws = .ok client) {callers : Nat}
    {moves : List Move} (hrun : (start client callers).run? moves = some s) {i : Nat}
    (hclosing : s.callers[i]? = some .closing) (hstep : s.step? (.proceed i) = some s')
    (hreturn : s'.callers[i]? = some .idle) :
    let t := s.client.pipeline.outbox.transport
    s'.log = s.log ++ [⟨i, .close, (Transport.close t).1.mapError .transport⟩] ∧
    s'.client.pipeline.outbox.transport = (Transport.close t).2 ∧
    s'.Empty ∧
    ∀ later s'', s'.run? later = some s'' →
      (∃ answers, s'' = { s' with log := s'.log ++ answers } ∧
        ∀ answer ∈ answers, answer.outcome = answer.request.refusal) ∧
      ∀ j < s''.callers.length, ∀ request, s''.step? (.call j request) =
        some { s'' with log := s''.log ++ [⟨j, request, request.refusal⟩] } := by
  have hneat := (neat_start hbuild callers).run hrun
  have horderly := (orderly_start hbuild callers).run (neat_start hbuild callers) hrun
  obtain ⟨-, hs'⟩ := eq_of_returns hclosing hstep hreturn
  have hphase : s'.phase = .closed := by rw [hs']
  have horderly' := horderly.step hneat hstep
  have hempty := horderly'.empty (hneat.step hstep) hphase
  have hclosed := horderly'.closed_iff.mpr (by simp [hphase])
  refine ⟨by rw [hs']; rfl, by rw [hs']; rfl, hempty, ?_⟩
  intro later s'' hlater
  -- Where nothing is left, nobody has a step to take but a caller that is refused.
  obtain ⟨answers, rfl, hrefused⟩ := hempty.run hclosed hlater
  refine ⟨⟨answers, rfl, hrefused⟩, ?_⟩
  intro j hj request
  refine call?_of_closed (s := { s' with log := s'.log ++ answers }) hclosed ?_ request
  rw [List.getElem?_eq_getElem hj, hempty.callers _ (List.getElem_mem hj)]

/-- One caller sends an event, another a count that is merged, and then the first one closes the
client, whose transport fails to write and to close. -/
theorem close_leaves_nothing_two_callers :
    let config : Config := { workers := 1, channelMode := true }
    let transport : Scripted := { failsWrite := fun _ => true, failsClose := true }
    let client : Client Scripted :=
      { aggregator := config.aggregator
        pipeline := config.pipeline { transport with timeout := some config.writeTimeout }
          (fun _ => 0) { word := fun _ => 0 } }
    let moves : List Move :=
      [.call 0 (.send (.event { title := "a", text := "b" })), .proceed 0, .proceed 0,
        .call 1 (.send (.metric { name := "c", value := .count 1 })), .proceed 1,
        .call 0 .close, .proceed 0] ++
      [.clear 0, .take 0, .process 0, .leave 0, .retire 0, .quit 0, .quit 1] ++
      List.replicate 11 (.proceed 0) ++
      [.fetch, .carry, .fetch, .carry, .proceed 0, .proceed 0, .exit, .proceed 0, .proceed 0]
    config.buildWith transport (fun _ => 0) { word := fun _ => 0 } = .ok client ∧
    ∃ s s', (start client 2).run? moves = some s ∧ s.step? (.proceed 0) = some s' ∧
      s'.Empty ∧
      s'.log.map (fun answer => (answer.caller, answer.outcome)) =
        [(0, .ok ()), (1, .ok ()), (0, .error (.transport (.custom "close failed")))] ∧
      s'.client.telemetry.ledger.failed.payloads = 1 := by
  intro config transport client moves
  have hbuild : config.buildWith transport (fun _ => 0) { word := fun _ => 0 } = .ok client := rfl
  -- The run is carried out once, and all that is to be seen of it is seen at its end.
  have hseen : (((start client 2).run? moves).bind fun s =>
      (s.step? (.proceed 0)).map fun s' =>
        (s.callers[0]?.any Caller.isClosing && s'.callers[0]?.any Caller.isIdle) &&
          (decide (s'.log.map (fun answer => (answer.caller, answer.outcome)) =
            [(0, .ok ()), (1, .ok ()), (0, .error (.transport (.custom "close failed")))]) &&
          s'.client.telemetry.ledger.failed.payloads == 1)) = some true := by
    decide +kernel
  obtain ⟨s, hrun, hnext⟩ := Option.bind_eq_some_iff.mp hseen
  obtain ⟨s', hstep, hs'⟩ := Option.map_eq_some_iff.mp hnext
  simp only [Bool.and_eq_true, decide_eq_true_eq, beq_iff_eq] at hs'
  obtain ⟨⟨hclosing, hidle⟩, hlog, hfailed⟩ := hs'
  have hbefore : s.callers[0]? = some .closing := by
    obtain ⟨caller, hcaller, hmatch⟩ := (Option.any_eq_true _ _).mp hclosing
    cases caller with
    | closing => exact hcaller
    | idle | sending | dispatching | flushing | awaiting | draining => cases hmatch
  have hafter : s'.callers[0]? = some .idle := by
    obtain ⟨caller, hcaller, hmatch⟩ := (Option.any_eq_true _ _).mp hidle
    cases caller with
    | idle => exact hcaller
    | closing | sending | dispatching | flushing | awaiting | draining => cases hmatch
  obtain ⟨-, -, hempty, -⟩ := close_leaves_nothing hbuild hrun hbefore hstep hafter
  exact ⟨hbuild, s, s', hrun, hstep, hempty, hlog, hfailed⟩

end System

end DogStatsD
