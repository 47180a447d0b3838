import DogStatsD.Proofs.System.Course
import DogStatsD.Proofs.System.Rest

/-!
# Callers That Process Samples Themselves

Without channels, the callers of a client process the samples that they send, and its threads are
the tickers and the courier. As long as nobody closes such a client, there are only a few things
that can happen next.

* `System.Direct`: a client in use like that;
* `System.Next`: what can happen to it next, and what comes of it;
* `System.Direct.next`: nothing else can happen;
* `System.Next.direct`: the client stays in use like that;
* `System.direct_start`: at first it is;
* `System.closed_of_step`: a client that was closed stays closed.
-/

namespace DogStatsD

variable {τ : Type}

/-- A sample is merged if the aggregator takes it, and otherwise handed back. -/
theorem Client.merge_cases (c : Client τ) (sample : Sample) :
    ((∀ m a, sample = .metric m → c.aggregator = some a → a.takes m = false) ∧
      c.merge sample = (some sample, c)) ∨
    ∃ m a, sample = .metric m ∧ c.aggregator = some a ∧ a.takes m = true ∧
      c.merge sample =
        (none,
          { c with
            aggregator := some (a.aggregate c.pipeline.draws m).2.1
            pipeline := { c.pipeline with draws := (a.aggregate c.pipeline.draws m).2.2 } }) := by
  rcases sample with m | event | check
  · rcases ha : c.aggregator with - | a
    · exact .inl ⟨by simp, by simp [merge, ha]⟩
    · cases htakes : a.takes m with
      | true =>
        exact .inr ⟨m, a, rfl, rfl, htakes, by simp [merge, ha, Aggregator.aggregate, htakes]⟩
      | false =>
        have hsame : { c with aggregator := some a } = c := by rw [← ha]
        refine .inl ⟨?_, by simp [merge, ha, Aggregator.aggregate, htakes, hsame]⟩
        rintro _ _ ⟨rfl⟩ ⟨rfl⟩
        exact htakes
  · exact .inl ⟨by simp, by simp [merge]⟩
  · exact .inl ⟨by simp, by simp [merge]⟩

namespace System

/-! ## Flushes in progress -/

/-- What a caller has left to do of a flush. -/
def Caller.sweep : Caller → Sweep
  | .flushing w => w
  | _ => {}

/-- What a ticker has left to do of a flush. -/
def Ticking.sweep : Ticking → Sweep
  | .working w => w
  | .waiting | .gone => {}

/-- What a party has left to do of a flush. -/
def sweep (s : System τ) : Party → Sweep
  | .caller i => (s.callers[i]?.map Caller.sweep).getD {}
  | .ticker i => (s.tickers[i]?.map (·.state.sweep)).getD {}

/-- A party is in the middle of a flush. -/
def Flushes (s : System τ) (w : Sweep) : Party → Prop
  | .caller i => s.callers[i]? = some (.flushing w)
  | .ticker i => ∃ plan, s.tickers[i]? = some { plan, state := .working w }

/-- Let a party get on with its flush. -/
def setSweep (s : System τ) (w : Sweep) : Party → System τ
  | .caller i => s.setCaller i (.flushing w)
  | .ticker i =>
    match s.tickers[i]? with
    | some t => s.setTicker i { t with state := .working w }
    | none => s

/-- The move by which a party gets on. -/
def Party.move : Party → Move
  | .caller i => .proceed i
  | .ticker i => .work i

variable {s s' : System τ}

/-- What a party has left to do is what it flushes. -/
theorem sweep_of_flushes {w : Sweep} {party : Party} (h : s.Flushes w party) :
    s.sweep party = w := by
  cases party with
  | caller i => simp [sweep, show s.callers[i]? = _ from h, Caller.sweep]
  | ticker i =>
    obtain ⟨plan, hplan⟩ := h
    simp [sweep, hplan, Ticking.sweep]

/-- A caller that does something changes nothing about the flushes of others. -/
theorem sweep_setCaller {i : Nat} {caller : Caller} (h : s.callers[i]? = some caller)
    (later : Caller) :
    (s.setCaller i later).sweep = Function.update s.sweep (.caller i) later.sweep := by
  have hlt := (List.getElem?_eq_some_iff.mp h).1
  funext party
  by_cases hparty : party = .caller i
  · subst hparty
    simp [sweep, setCaller, hlt]
  · rw [Function.update_of_ne hparty]
    cases party with
    | caller j =>
      have hne : i ≠ j := fun hij => hparty (by rw [hij])
      simp [sweep, setCaller, List.getElem?_set_ne hne]
    | ticker j => rfl

/-- A ticker that does something changes nothing about the flushes of others. -/
theorem sweep_setTicker {i : Nat} {t : Ticker} (h : s.tickers[i]? = some t) (later : Ticker) :
    (s.setTicker i later).sweep = Function.update s.sweep (.ticker i) later.state.sweep := by
  have hlt := (List.getElem?_eq_some_iff.mp h).1
  funext party
  by_cases hparty : party = .ticker i
  · subst hparty
    simp [sweep, setTicker, hlt]
  · rw [Function.update_of_ne hparty]
    cases party with
    | caller j => rfl
    | ticker j =>
      have hne : i ≠ j := fun hij => hparty (by rw [hij])
      simp [sweep, setTicker, List.getElem?_set_ne hne]

/-- To note how far a flush has come does not touch the client. -/
@[simp]
theorem client_setSweep (w : Sweep) (party : Party) :
    (s.setSweep w party).client = s.client := by
  cases party with
  | caller i => rfl
  | ticker i =>
    unfold setSweep
    dsimp only
    split <;> rfl

/-- Nor does it touch the courier. -/
@[simp]
theorem courier_setSweep (w : Sweep) (party : Party) :
    (s.setSweep w party).courier = s.courier := by
  cases party with
  | caller i => rfl
  | ticker i =>
    unfold setSweep
    dsimp only
    split <;> rfl

/-- Nor does it give an answer to anybody. -/
@[simp]
theorem log_setSweep (w : Sweep) (party : Party) : (s.setSweep w party).log = s.log := by
  cases party with
  | caller i => rfl
  | ticker i =>
    unfold setSweep
    dsimp only
    split <;> rfl

/-- When a party gets on with its flush, nothing changes about the flushes of others. -/
theorem sweep_setSweep {w : Sweep} {party : Party} (h : s.Flushes w party) (client : Client τ)
    (drainer : Option Party) (later : Sweep) :
    ({ s with client, drainer }.setSweep later party).sweep =
      Function.update s.sweep party later := by
  cases party with
  | caller i => exact sweep_setCaller (s := { s with client, drainer }) h _
  | ticker i =>
    obtain ⟨plan, hplan⟩ := h
    simp only [setSweep, hplan]
    exact sweep_setTicker (s := { s with client, drainer }) hplan _

/-! ## In use -/

/-- Callers process samples themselves, the courier is about, and nobody has closed the client. -/
structure Direct (s : System τ) : Prop where
  opened : s.phase = .opened
  closed_eq : s.client.closed = false
  intake_eq : s.client.pipeline.intake = .direct
  running : s.client.pipeline.outbox.running = true
  shards_pos : 0 < s.client.pipeline.shards.length
  receivers : ∀ r ∈ s.receivers, r = .gone
  courier_ne : s.courier ≠ .gone
  /-- Nobody works off the queue but the courier. -/
  callers : ∀ caller ∈ s.callers, caller ≠ .draining ∧ caller ≠ .closing
  /-- No ticker begins with something to write. -/
  plans : ∀ t ∈ s.tickers, t.plan.entries = []

/-- There is a shard for every entry. -/
theorem Direct.shardOf_lt (h : s.Direct) (name : String) :
    s.client.pipeline.shardOf name < s.client.pipeline.shards.length :=
  Nat.mod_lt _ h.shards_pos

/-- What matters for a client to stay in use. -/
theorem Direct.keeps (h : s.Direct) (hphase : s'.phase = s.phase)
    (hclosed : s'.client.closed = s.client.closed)
    (halike : s.client.pipeline.Alike s'.client.pipeline) (hreceivers : s'.receivers = s.receivers)
    (hcourier : s'.courier ≠ .gone)
    (hcallers : ∀ caller ∈ s'.callers, caller ≠ .draining ∧ caller ≠ .closing)
    (hplans : ∀ t ∈ s'.tickers, t.plan.entries = []) : s'.Direct :=
  ⟨hphase.trans h.opened, hclosed.trans h.closed_eq, halike.intake_eq.trans h.intake_eq,
    halike.running_eq.trans h.running, halike.length_eq ▸ h.shards_pos, hreceivers ▸ h.receivers,
    hcourier, hcallers, hplans⟩

/-- If no caller closes the client, none does after one of them has done something else. -/
theorem Direct.callers_set (h : s.Direct) {caller : Caller}
    (hcaller : caller ≠ .draining ∧ caller ≠ .closing) (i : Nat) :
    ∀ other ∈ s.callers.set i caller, other ≠ .draining ∧ other ≠ .closing := by
  intro other hmem
  rcases List.mem_or_eq_of_mem_set hmem with hold | rfl
  · exact h.callers other hold
  · exact hcaller

/-- The plans of tickers do not change when one of them does something. -/
theorem Direct.plans_set (h : s.Direct) {t : Ticker} {i : Nat} (ht : s.tickers[i]? = some t)
    (state : Ticking) : ∀ other ∈ s.tickers.set i { t with state }, other.plan.entries = [] := by
  intro other hmem
  rcases List.mem_or_eq_of_mem_set hmem with hold | rfl
  · exact h.plans other hold
  · exact h.plans t (List.mem_of_getElem? ht)

/-- What comes next in a flush leaves a pipeline alike. -/
theorem alike_advance (c : Client τ) (w : Sweep) :
    c.pipeline.Alike (w.advance c).2.pipeline := by
  unfold Sweep.advance
  split
  · split <;> exact .refl _
  · exact c.pipeline.alike_put _
  · exact c.pipeline.alike_handOverAt _
  · exact .refl _

variable [Transport τ]

/-- What can happen next to a client in use, and what comes of it. -/
inductive Next (s : System τ) : Move → System τ → Prop
  | send {i : Nat} {sample : Sample} (h : s.callers[i]? = some .idle) :
    Next s (.call i (.send sample)) (s.setCaller i (.sending sample))
  | flush {i : Nat} (h : s.callers[i]? = some .idle) :
    Next s (.call i .flush) (s.setCaller i (.flushing (.whole s.client)))
  | reject {i : Nat} {sample : Sample} {reason : Rejection}
    (h : s.callers[i]? = some (.sending sample)) (hreason : sample.validate = .error reason) :
    Next s (.proceed i) (s.answer i (.send sample) (.error (.invalidSample reason)))
  /-- The sample is merged, and the call returns. -/
  | merge {i : Nat} {m : Metric} {a : Aggregator} (h : s.callers[i]? = some (.sending (.metric m)))
    (hvalid : (Sample.metric m).validate = .ok ()) (ha : s.client.aggregator = some a)
    (htakes : a.takes m = true) :
    Next s (.proceed i)
      ({ s with
        client :=
          { s.client with
            accepted := s.client.accepted.count (.metric m)
            aggregator := some (a.aggregate s.client.pipeline.draws m).2.1
            pipeline :=
              { s.client.pipeline with
                draws := (a.aggregate s.client.pipeline.draws m).2.2 } } }.answer
        i (.send (.metric m)) (.ok ()))
  /-- The sample is accepted, and not merged. -/
  | pass {i : Nat} {sample : Sample} (h : s.callers[i]? = some (.sending sample))
    (hback : ∀ m a, sample = .metric m → s.client.aggregator = some a → a.takes m = false) :
    Next s (.proceed i)
      ({ s with
        client := { s.client with accepted := s.client.accepted.count sample } }.setCaller
        i (.dispatching sample))
  /-- The sample is processed by its shard, and the call returns. -/
  | dispatch {i : Nat} {sample : Sample} (h : s.callers[i]? = some (.dispatching sample)) :
    Next s (.proceed i)
      ((s.setPipeline (s.client.pipeline.dispatch sample).2).answer i (.send sample) (.ok ()))
  /-- A party does what comes next in its flush. -/
  | advance (party : Party) {w : Sweep} (drainer : Option Party) (h : s.Flushes w party)
    (hleft : w.isDone = false) :
    Next s party.move
      ({ s with client := (w.advance s.client).2, drainer }.setSweep (w.advance s.client).1 party)
  | raise {i : Nat} (h : s.callers[i]? = some (.flushing {})) :
    Next s (.proceed i)
      ((s.setOutbox (s.client.pipeline.outbox.raise i)).setCaller i .awaiting)
  /-- The call of a flush returns. -/
  | finish {i : Nat} (h : s.callers[i]? = some .awaiting) (hbarrier : s.hasBarrier i = false) :
    Next s (.proceed i) (s.answer i .flush (.ok ()))
  | tick {i : Nat} {plan : Sweep} (h : s.tickers[i]? = some { plan }) :
    Next s (.tick i) (s.setTicker i { plan, state := .working plan })
  | rest {i : Nat} {plan : Sweep} (h : s.tickers[i]? = some { plan, state := .working {} }) :
    Next s (.work i) (s.setTicker i { plan })
  | fetch {command : Command} {queue : List Command} (h : s.courier = .idle)
    (hqueue : s.client.pipeline.outbox.queue = command :: queue) :
    Next s .fetch
      { s.setOutbox { s.client.pipeline.outbox with queue } with courier := .holding command }
  | carry {command : Command} (h : s.courier = .holding command) :
    Next s .carry
      { s.setOutbox (s.client.pipeline.outbox.perform command) with courier := .idle }

/-- Going on with a call of a client in use. -/
theorem Direct.next_proceed (h : s.Direct) {i : Nat} (hproceed : s.proceed? i = some s') :
    Next s (.proceed i) s' := by
  unfold proceed? at hproceed
  split at hproceed
  · cases hproceed
  · cases hproceed
  next sample hsending =>
    split at hproceed
    next reason hreason =>
      cases hproceed
      exact .reject hsending hreason
    next hvalid =>
      obtain ⟨hback, hpass⟩ | ⟨m, a, rfl, ha, htakes, hmerge⟩ :=
        Client.merge_cases { s.client with accepted := s.client.accepted.count sample } sample
      · rw [hpass] at hproceed
        cases hproceed
        exact .pass hsending hback
      · rw [hmerge] at hproceed
        cases hproceed
        exact .merge hsending hvalid ha htakes
  next sample hdispatching =>
    -- Without channels, a sample goes straight to its shard.
    have hdispatch : s.dispatch sample = s.client.pipeline.dispatch sample := by
      simp [System.dispatch, h.intake_eq]
    rw [hdispatch, Pipeline.dispatch_of_direct h.intake_eq] at hproceed
    cases hproceed
    have hturn := Next.dispatch hdispatching
    rwa [Pipeline.dispatch_of_direct h.intake_eq] at hturn
  next w hflushing =>
    dsimp only at hproceed
    split at hproceed
    next hleft =>
      obtain ⟨next, hnext, rfl⟩ := Option.map_eq_some_iff.mp hproceed
      obtain ⟨drainer, rfl⟩ := eq_of_advance? hnext
      exact .advance (.caller i) drainer hflushing (by simpa using hleft)
    next hdone =>
      obtain rfl := Sweep.eq_nil_of_isDone (by simpa using hdone)
      -- The courier of a client in use is running, so that a barrier is raised.
      split at hproceed
      next hstopped => simp [h.running] at hstopped
      · split at hproceed <;> cases hproceed
        exact .raise hflushing
  next hawaiting =>
    split at hproceed <;> cases hproceed
    next hbarrier => exact .finish hawaiting (by simpa using hbarrier)
  next hdraining => exact absurd rfl (h.callers _ (List.mem_of_getElem? hdraining)).1
  next hclosing => exact absurd rfl (h.callers _ (List.mem_of_getElem? hclosing)).2

/-- The call of a flush begins with everything left to do. -/
theorem Direct.eq_of_flush (h : s.Direct) {i : Nat} (hcall : s.step? (.call i .flush) = some s') :
    s.callers[i]? = some .idle ∧ s' = s.setCaller i (.flushing (.whole s.client)) := by
  simp only [step?, call?, h.closed_eq] at hcall
  split at hcall <;> cases hcall
  next hidle => exact ⟨hidle, rfl⟩

/-- As long as nobody closes a client in use, nothing but these can happen to it. -/
theorem Direct.next (h : s.Direct) {move : Move} (hstep : s.step? move = some s')
    (hopen : s'.client.closed = false) : Next s move s' := by
  -- Without receivers, nobody works on a channel.
  have hserve {i : Nat} {f : Shard → Outbox τ → Draws → Shard × Outbox τ × Draws}
      (hserve : s.serve? i f = some s') : False := by
    unfold serve? at hserve
    split at hserve <;> cases hserve
    next hserving =>
      obtain ⟨r, hr, hserves⟩ := (Option.any_eq_true _ _).mp hserving
      obtain rfl := h.receivers r (List.mem_of_getElem? hr)
      cases hserves
  have hturn {i : Nat} {before after : Receiver} {may : Shard → Bool} (hne : before ≠ .gone)
      (hturn : s.turn? i before after may = some s') : False := by
    unfold turn? at hturn
    split at hturn <;> cases hturn
    next hguard => exact hne (h.receivers before (List.mem_of_getElem? hguard.1))
  cases move with
  | call i request =>
    simp only [step?, call?, h.closed_eq] at hstep
    split at hstep
    next hidle =>
      cases request with
      | send sample =>
        cases hstep
        exact .send hidle
      | flush =>
        cases hstep
        exact .flush hidle
      | close =>
        -- A client that a caller begins to close is closed from then on.
        simp only [Bool.false_eq_true, if_false] at hstep
        split at hstep <;> cases hstep
        cases hopen
    · cases hstep
  | proceed i => exact h.next_proceed hstep
  | take i | process i => exact (hserve hstep).elim
  | clear i =>
    simp only [step?, h.opened, Phase.isSignalled] at hstep
    cases hstep
  | leave i => exact (hturn (by simp) hstep).elim
  | retire i => exact (hturn (by simp) hstep).elim
  | tick i =>
    simp only [step?] at hstep
    split at hstep <;> cases hstep
    next hticker => exact .tick hticker
  | work i =>
    simp only [step?] at hstep
    split at hstep
    next plan w hticker =>
      split at hstep
      next hdone =>
        cases hstep
        obtain rfl := Sweep.eq_nil_of_isDone hdone
        exact .rest hticker
      next hleft =>
        obtain ⟨next, hnext, rfl⟩ := Option.map_eq_some_iff.mp hstep
        obtain ⟨drainer, rfl⟩ := eq_of_advance? hnext
        have hadvance := Next.advance (.ticker i) drainer ⟨plan, hticker⟩
          (Bool.eq_false_iff.mpr hleft)
        simpa only [Party.move, setSweep, hticker] using hadvance
    · cases hstep
  | quit i =>
    simp only [step?, h.opened, Phase.isSignalled] at hstep
    split at hstep <;> cases hstep
    next hsignalled => cases hsignalled
  | fetch =>
    simp only [step?] at hstep
    split at hstep <;> cases hstep
    next hcourier hqueue => exact .fetch hcourier hqueue
  | carry =>
    simp only [step?] at hstep
    split at hstep <;> cases hstep
    next hcourier => exact .carry hcourier
  | exit =>
    simp only [step?, h.running] at hstep
    split at hstep <;> cases hstep
    next hstopped => cases hstopped

/-! ## Staying in use -/

/-- No step changes to which shard a name belongs. -/
theorem Next.shardOf_eq (h : s.Direct) {move : Move} (hnext : Next s move s') (name : String) :
    s'.client.pipeline.shardOf name = s.client.pipeline.shardOf name := by
  cases hnext with
  | dispatch =>
    rw [Pipeline.dispatch_of_direct h.intake_eq]
    exact Pipeline.shardOf_atShard name
  | @advance party w drainer hflushes hleft =>
    rw [client_setSweep]
    match w with
    | { kinds := kind :: kinds, entries, shards } =>
      cases ha : s.client.aggregator <;> simp [Sweep.advance, ha]
    | { kinds := [], entries := e :: entries, shards } => exact Pipeline.shardOf_atShard name
    | { kinds := [], entries := [], shards := j :: shards } => exact Pipeline.shardOf_atShard name
    | { kinds := [], entries := [], shards := [] } => cases hleft
  | send | flush | reject | merge | pass | raise | finish | tick | rest | fetch | carry => rfl

/-- A client in use stays in use. -/
theorem Next.direct (h : s.Direct) {move : Move} (hnext : Next s move s') : s'.Direct := by
  cases hnext with
  | send | flush | reject | finish =>
    exact h.keeps rfl rfl (.refl _) rfl h.courier_ne (h.callers_set (by simp) _) h.plans
  | merge | pass | raise =>
    exact h.keeps rfl rfl ⟨rfl, rfl, rfl⟩ rfl h.courier_ne (h.callers_set (by simp) _) h.plans
  | dispatch =>
    exact h.keeps rfl rfl (Pipeline.alike_dispatch _ _) rfl h.courier_ne
      (h.callers_set (by simp) _) h.plans
  | @advance party w drainer hflushes =>
    have hclosed := closed_advance s.client w
    have halike := alike_advance s.client w
    cases party with
    | caller i =>
      exact h.keeps rfl hclosed halike rfl h.courier_ne (h.callers_set (by simp) _) h.plans
    | ticker i =>
      obtain ⟨plan, hticker⟩ := hflushes
      simp only [setSweep, hticker]
      exact h.keeps rfl hclosed halike rfl h.courier_ne h.callers (h.plans_set hticker _)
  | tick hticker | rest hticker =>
    exact h.keeps rfl rfl (.refl _) rfl h.courier_ne h.callers (h.plans_set hticker _)
  | fetch => exact h.keeps rfl rfl ⟨rfl, rfl, rfl⟩ rfl (by simp) h.callers h.plans
  | carry =>
    exact h.keeps rfl rfl ⟨rfl, rfl, Outbox.running_perform _ _⟩ rfl (by simp) h.callers h.plans

/-- At first, a client without channels is in use. -/
theorem direct_start {config : Config} {transport : τ} {route : String → Nat} {draws : Draws}
    {client : Client τ} (hbuild : config.buildWith transport route draws = .ok client)
    (hmode : config.channelMode = false) (callers : Nat) : (start client callers).Direct := by
  obtain ⟨hvalid, later, -, rfl⟩ := Config.eq_of_buildWith hbuild
  obtain ⟨pool, -, hpipeline⟩ := config.pipeline_eq later route draws
  have hintake : (config.pipeline later route draws).intake = .direct := by simp [hpipeline, hmode]
  refine ⟨rfl, rfl, hintake, ?_, ?_, ?_, ?_, ?_, ?_⟩
  · simp [start, hpipeline]
  · simpa [start, hpipeline] using workers_pos hvalid
  · intro r hr
    simpa [start, hintake] using List.eq_of_mem_replicate hr
  · simp [start, hpipeline]
  · intro caller hcaller
    rw [List.eq_of_mem_replicate hcaller]
    simp
  · intro t ht
    obtain hmem | hmem := List.mem_append.mp ht
    · split at hmem
      · rw [List.mem_singleton.mp hmem]
        rfl
      · cases hmem
    · rw [List.mem_singleton.mp hmem]
      rfl

/-! ## Staying closed -/

/-- Whatever the caller that closes a client does, the client stays closed. -/
theorem closed_shutDown (h : s.client.closed = true) {i : Nat} {stage : Stage}
    (hclose : s.shutDown? i stage = some s') : s'.client.closed = true := by
  cases stage with
  | signalling | halting | closingTransport =>
    cases hclose
    exact h
  | joining | awaiting | joiningCourier | draining =>
    simp only [shutDown?] at hclose
    split at hclose <;> cases hclose <;> exact h
  | sweeping w =>
    simp only [shutDown?] at hclose
    split at hclose
    · cases hclose
      exact h
    · obtain ⟨next, hnext, rfl⟩ := Option.map_eq_some_iff.mp hclose
      obtain ⟨drainer, rfl⟩ := eq_of_advance? hnext
      exact (closed_advance s.client w).trans h
  | raising =>
    simp only [shutDown?] at hclose
    split at hclose
    · split at hclose <;> cases hclose
      exact h
    · cases hclose
      exact h

/-- A client that was closed stays closed. -/
theorem closed_of_step (h : s.client.closed = true) {move : Move} (hstep : s.step? move = some s') :
    s'.client.closed = true := by
  cases move with
  | call i request =>
    simp only [step?, call?, h, if_true] at hstep
    split at hstep <;> cases hstep
    exact h
  | proceed i =>
    simp only [step?, proceed?] at hstep
    split at hstep
    · cases hstep
    · cases hstep
    next sample _ =>
      split at hstep
      · cases hstep
        exact h
      · obtain ⟨-, hpass⟩ | ⟨m, a, -, -, -, hmerge⟩ :=
          Client.merge_cases { s.client with accepted := s.client.accepted.count sample } sample
        · rw [hpass] at hstep
          cases hstep
          exact h
        · rw [hmerge] at hstep
          cases hstep
          exact h
    · cases hstep
      exact h
    next w _ =>
      split at hstep
      · obtain ⟨next, hnext, rfl⟩ := Option.map_eq_some_iff.mp hstep
        obtain ⟨drainer, rfl⟩ := eq_of_advance? hnext
        exact (closed_advance s.client w).trans h
      · split at hstep
        · cases hstep
          exact h
        · split at hstep <;> cases hstep
          exact h
    · split at hstep <;> cases hstep
      exact h
    · split at hstep <;> cases hstep <;> exact h
    · split at hstep
      · exact closed_shutDown h hstep
      · cases hstep
      · cases hstep
  | take i | process i =>
    simp only [step?, serve?] at hstep
    split at hstep <;> cases hstep
    exact h
  | clear i =>
    simp only [step?, turn?] at hstep
    split at hstep
    · split at hstep <;> cases hstep
      exact h
    · cases hstep
  | leave i | retire i =>
    simp only [step?, turn?] at hstep
    split at hstep <;> cases hstep
    exact h
  | tick i | quit i | fetch | carry | exit =>
    simp only [step?] at hstep
    split at hstep <;> cases hstep
    exact h
  | work i =>
    simp only [step?] at hstep
    split at hstep
    next w _ =>
      split at hstep
      · cases hstep
        exact h
      · obtain ⟨next, hnext, rfl⟩ := Option.map_eq_some_iff.mp hstep
        obtain ⟨drainer, rfl⟩ := eq_of_advance? hnext
        exact (closed_advance s.client w).trans h
    · cases hstep

/-- Nobody has closed a client before it is open. -/
theorem open_of_run {moves : List Move} (hrun : s.run? moves = some s')
    (hopen : s'.client.closed = false) : s.client.closed = false := by
  induction moves generalizing s with
  | nil =>
    cases hrun
    exact hopen
  | cons move rest ih =>
    obtain ⟨next, hnext, hrest⟩ := Option.bind_eq_some_iff.mp hrun
    refine Bool.eq_false_iff.mpr fun hclosed => ?_
    have hlater := ih hrest
    rw [closed_of_step hclosed hnext] at hlater
    cases hlater

/-! ## Keeping record -/

/-- Let parties take steps, and keep a record of them beside. -/
def watch? {γ : Type} (follow : System τ → γ → Move → γ) (state : System τ × γ)
    (moves : List Move) : Option (System τ × γ) :=
  moves.foldlM (fun (s, g) move => (s.step? move).map fun later => (later, follow s g move)) state

section

variable {γ : Type} {follow : System τ → γ → Move → γ} {g g' : γ}

/-- A record is kept by following the first step, then the others. -/
theorem watch?_cons (move : Move) (rest : List Move) :
    watch? follow (s, g) (move :: rest) =
      (s.step? move).bind fun later => watch? follow (later, follow s g move) rest := by
  simp only [watch?, List.foldlM_cons]
  cases s.step? move <;> simp

/-- A record changes nothing about the steps. -/
theorem run?_of_watch? {moves : List Move} (h : watch? follow (s, g) moves = some (s', g')) :
    s.run? moves = some s' := by
  induction moves generalizing s g with
  | nil =>
    cases h
    rfl
  | cons move rest ih =>
    rw [watch?_cons] at h
    obtain ⟨next, hnext, hrest⟩ := Option.bind_eq_some_iff.mp h
    exact Option.bind_eq_some_iff.mpr ⟨next, hnext, ih hrest⟩

/-- A record can be kept of any steps. -/
theorem exists_watch? (g : γ) {moves : List Move} (hrun : s.run? moves = some s') :
    ∃ g', watch? follow (s, g) moves = some (s', g') := by
  induction moves generalizing s g with
  | nil =>
    cases hrun
    exact ⟨g, rfl⟩
  | cons move rest ih =>
    obtain ⟨next, hnext, hrest⟩ := Option.bind_eq_some_iff.mp hrun
    obtain ⟨g', hg'⟩ := ih (follow s g move) hrest
    exact ⟨g', by rw [watch?_cons, hnext]; exact hg'⟩

/-- A second record can be kept beside the first. -/
theorem exists_watch?_both {δ : Type} (other : System τ → δ → Move → δ) (d : δ)
    {moves : List Move} (hwatch : watch? follow (s, g) moves = some (s', g')) :
    ∃ d', watch? other (s, d) moves = some (s', d') ∧
      watch? (fun s (g, d) move => (follow s g move, other s d move)) (s, (g, d)) moves =
        some (s', (g', d')) := by
  induction moves generalizing s g d with
  | nil =>
    cases hwatch
    exact ⟨d, rfl, rfl⟩
  | cons move rest ih =>
    rw [watch?_cons] at hwatch
    obtain ⟨next, hnext, hrest⟩ := Option.bind_eq_some_iff.mp hwatch
    obtain ⟨d', hother, hboth⟩ := ih (other s d move) hrest
    exact ⟨d', by rw [watch?_cons, hnext]; exact hother, by rw [watch?_cons, hnext]; exact hboth⟩

/-- What every step of a client in use keeps of it and a record is so after all steps. -/
theorem Direct.watch {I : System τ → γ → Prop}
    (hkeeps : ∀ {s s' : System τ} {g : γ} {move : Move},
      s.Direct → I s g → s.step? move = some s' → s.Next move s' → I s' (follow s g move))
    (h : s.Direct) (hs : I s g) {moves : List Move}
    (hwatch : watch? follow (s, g) moves = some (s', g')) (hopen : s'.client.closed = false) :
    s'.Direct ∧ I s' g' := by
  induction moves generalizing s g with
  | nil =>
    cases hwatch
    exact ⟨h, hs⟩
  | cons move rest ih =>
    rw [watch?_cons] at hwatch
    obtain ⟨next, hnext, hrest⟩ := Option.bind_eq_some_iff.mp hwatch
    have hmove := h.next hnext (open_of_run (run?_of_watch? hrest) hopen)
    exact ih (hmove.direct h) (hkeeps h hs hnext hmove) hrest

end

end System

end DogStatsD
