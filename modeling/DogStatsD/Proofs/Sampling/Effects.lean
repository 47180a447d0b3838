import DogStatsD.Proofs.Plant.Order
import DogStatsD.Proofs.System.Direct

/-!
# What Steps Do to Samples and Entries

Parties take many kinds of steps, but only a few of them do anything to the samples that were
accepted or to the entries that flushes have taken out.

* `System.accepts?`, `System.decides?`, `System.writes?`: the sample that a step accepts, the one
  that it decides about, and the entry that it writes;
* `System.pending`: the samples accepted that nothing was decided about yet;
* `System.sweeps`: the flushes in progress;
* `System.Effect`, `System.effect_of_step`: what a step can do to all these.
-/

namespace DogStatsD

variable {τ : Type}

/-- Whether the aggregator of a client takes a sample. -/
def Client.takes (c : Client τ) : Sample → Bool
  | .metric m => c.aggregator.any fun a => a.takes m
  | .event _ | .serviceCheck _ => false

/-- A client takes no sample that its aggregator does not take. -/
theorem Client.takes_eq_false {c : Client τ} {sample : Sample}
    (h : ∀ m a, sample = .metric m → c.aggregator = some a → a.takes m = false) :
    c.takes sample = false := by
  cases sample with
  | metric m =>
    cases ha : c.aggregator with
    | none => simp [takes, ha]
    | some a => simpa [takes, ha] using h m a rfl ha
  | event event | serviceCheck check => rfl

/-- The sample that is processed when a caller takes it to its shard, unless it waits in a
channel. -/
def Pipeline.processes? (p : Pipeline τ) (sample : Sample) : Option Sample :=
  match p.intake with
  | .direct => some sample
  | .channels _ | .stopped => none

namespace System

/-! ## Samples -/

/-- The sample that a caller is busy with. -/
def Caller.sample? : Caller → Option Sample
  | .sending sample | .dispatching sample => some sample
  | .idle | .flushing _ | .awaiting | .draining | .closing => none

/-- The sample that a caller has yet to take to its shard. -/
def Caller.inHand : Caller → List Sample
  | .dispatching sample => [sample]
  | .idle | .sending _ | .flushing _ | .awaiting | .draining | .closing => []

/-- The samples accepted that were not merged, and that no shard has processed yet. -/
def pending (s : System τ) : List Sample :=
  s.callers.flatMap Caller.inHand ++ s.client.pipeline.shards.flatMap Shard.inbox

/-- The sample that the client accepts in a step. -/
def accepts? (s : System τ) : Move → Option Sample
  | .proceed i =>
    match s.callers[i]? with
    | some (.sending sample) =>
      match sample.validate with
      | .ok () => some sample
      | .error _ => none
    | _ => none
  | _ => none

/-- The sample that is merged or processed in a step, so that it is decided whether it is kept. -/
def decides? (s : System τ) : Move → Option Sample
  | .proceed i =>
    match s.callers[i]? with
    | some (.sending sample) =>
      match sample.validate with
      | .ok () => if s.client.takes sample then some sample else none
      | .error _ => none
    | some (.dispatching sample) => s.client.pipeline.processes? sample
    | _ => none
  | .process i => s.client.pipeline.shards[i]?.bind Shard.held
  | _ => none

/-! ## Entries -/

/-- The entry that is to be written next in a flush. -/
def Sweep.next? : Sweep → Option Entry
  | { kinds := [], entries := e :: _, .. } => some e
  | _ => none

/-- The entry that the caller that closes the client is to write next. -/
def Stage.next? : Stage → Option Entry
  | .sweeping w => w.next?
  | _ => none

def Caller.sweeps : Caller → List Sweep
  | .flushing w => [w]
  | .idle | .sending _ | .dispatching _ | .awaiting | .draining | .closing => []

def Ticker.sweeps (t : Ticker) : List Sweep :=
  t.plan ::
    match t.state with
    | .working w => [w]
    | .waiting | .gone => []

def Phase.sweeps : Phase → List Sweep
  | .closing _ (.sweeping w) => [w]
  | _ => []

/-- The flushes in progress, and those that tickers plan. -/
def sweeps (s : System τ) : List Sweep :=
  s.callers.flatMap Caller.sweeps ++ s.tickers.flatMap Ticker.sweeps ++ s.phase.sweeps

/-- The entry that a party writes in a step. -/
def writes? (s : System τ) : Move → Option Entry
  | .proceed i =>
    match s.callers[i]? with
    | some (.flushing w) => w.next?
    | some .closing =>
      match s.phase with
      | .closing _ stage => stage.next?
      | .opened | .closed => none
    | _ => none
  | .work i =>
    match s.tickers[i]? with
    | some { state := .working w, .. } => w.next?
    | _ => none
  | _ => none

variable {s s' : System τ}

/-- The sweeps of a system are those of its callers, of its tickers, and of the call that closes it.
-/
theorem mem_sweeps {w : Sweep} :
    w ∈ s.sweeps ↔
      w ∈ s.callers.flatMap Caller.sweeps ∨ w ∈ s.tickers.flatMap Ticker.sweeps ∨
        w ∈ s.phase.sweeps := by
  rw [sweeps, List.mem_append, List.mem_append, or_assoc]

/-- The flushes in progress after a caller has taken a step. -/
theorem mem_sweeps_of_caller {i : Nat} {caller : Caller} {w : Sweep} (h : w ∈ s'.sweeps)
    (hcallers : s'.callers = s.callers.set i caller) (htickers : s'.tickers = s.tickers) :
    w ∈ s.sweeps ∨ w ∈ caller.sweeps ∨ w ∈ s'.phase.sweeps := by
  rw [mem_sweeps, hcallers, htickers] at h
  rw [mem_sweeps]
  rcases h with h | h | h
  · rcases mem_flatMap_set h with h | h
    · exact .inl (.inl h)
    · exact .inr (.inl h)
  · exact .inl (.inr (.inl h))
  · exact .inr (.inr h)

theorem plan_mem_sweeps {i : Nat} {t : Ticker} (h : s.tickers[i]? = some t) :
    t.plan ∈ s.sweeps :=
  mem_sweeps.mpr (.inr (.inl (List.mem_flatMap.mpr
    ⟨t, List.mem_of_getElem? h, List.mem_cons_self⟩)))

/-- The flushes in progress after a ticker has taken a step. -/
theorem mem_sweeps_of_ticker {i : Nat} {t : Ticker} {w : Sweep}
    (h : w ∈ (s.setTicker i t).sweeps) : w ∈ s.sweeps ∨ w ∈ t.sweeps := by
  rw [mem_sweeps] at h
  rw [mem_sweeps]
  rcases h with h | h | h
  · exact .inl (.inl h)
  · rcases mem_flatMap_set h with h | h
    · exact .inl (.inr (.inl h))
    · exact .inr h
  · exact .inl (.inr (.inr h))

/-- The flushes in progress after the client has come closer to being closed. -/
theorem mem_sweeps_of_phase {w : Sweep} (h : w ∈ s'.sweeps) (hcallers : s'.callers = s.callers)
    (htickers : s'.tickers = s.tickers) : w ∈ s.sweeps ∨ w ∈ s'.phase.sweeps := by
  rw [mem_sweeps, hcallers, htickers] at h
  rw [mem_sweeps]
  tauto

/-! ## Steps -/

/-- A caller that is busy with no sample accepts none, and decides about none. -/
theorem concerns_none {i : Nat} {c : Caller} (h : s.callers[i]? = some c)
    (hnone : c.sample? = none) :
    s.accepts? (.proceed i) = none ∧ s.decides? (.proceed i) = none := by
  cases c with
  | sending | dispatching => cases hnone
  | idle | flushing | awaiting | draining | closing => simp [accepts?, decides?, h]

/-- A step that accepts no sample and decides about none, and after which callers have the same
samples in hand. -/
structure Spares (s : System τ) (move : Move) (s' : System τ) : Prop where
  accepts_eq : s.accepts? move = none
  decides_eq : s.decides? move = none
  inHand_eq : s'.callers.flatMap Caller.inHand = s.callers.flatMap Caller.inHand

/-- What a step does to the samples accepted and to the entries taken out. -/
inductive Effect (s : System τ) : Move → System τ → Prop
  /-- A sample is accepted and merged. -/
  | merge {i : Nat} {m : Metric} {a : Aggregator} (h : s.callers[i]? = some (.sending (.metric m)))
    (hvalid : (Sample.metric m).validate = .ok ()) (ha : s.client.aggregator = some a)
    (htakes : a.takes m = true) :
    Effect s (.proceed i)
      ({ s with
        client :=
          { s.client with
            accepted := s.client.accepted.count (.metric m)
            aggregator := some (a.aggregate s.client.pipeline.draws m).2.1
            pipeline :=
              { s.client.pipeline with
                draws := (a.aggregate s.client.pipeline.draws m).2.2 } } }.answer
        i (.send (.metric m)) (.ok ()))
  /-- A sample is accepted, and not merged. -/
  | pass {i : Nat} {sample : Sample} (h : s.callers[i]? = some (.sending sample))
    (hvalid : sample.validate = .ok ()) (hback : s.client.takes sample = false) :
    Effect s (.proceed i)
      ({ s with
        client := { s.client with accepted := s.client.accepted.count sample } }.setCaller
        i (.dispatching sample))
  /-- A sample is taken to its shard. -/
  | dispatch {i : Nat} {sample : Sample} (h : s.callers[i]? = some (.dispatching sample)) :
    Effect s (.proceed i)
      ((s.setPipeline (s.dispatch sample).2).answer i (.send sample) (s.dispatch sample).1)
  | take {i : Nat} :
    Effect s (.take i)
      (s.setPipeline (s.client.pipeline.atShard i fun shard o d => (shard.take, o, d)))
  | process {i : Nat} :
    Effect s (.process i) (s.setPipeline (s.client.pipeline.atShard i Shard.release))
  /-- A party does what comes next in its flush. -/
  | advance {move : Move} {w : Sweep} {s' : System τ} (hspares : s.Spares move s')
    (hw : w ∈ s.sweeps) (hwrites : s.writes? move = w.next?)
    (hclient : s'.client = (w.advance s.client).2)
    (hsweeps : ∀ later ∈ s'.sweeps, later ∈ s.sweeps ∨ later = (w.advance s.client).1) :
    Effect s move s'
  /-- No sample is concerned, and no entry. -/
  | rest {move : Move} {s' : System τ} (hspares : s.Spares move s')
    (hwrites : s.writes? move = none)
    (haggregator : s'.client.aggregator = s.client.aggregator)
    (hpipeline : ∃ intake outbox,
      s'.client.pipeline = { s.client.pipeline with intake, outbox })
    (hsweeps : ∀ later ∈ s'.sweeps, later ∈ s.sweeps ∨ later.entries = []) :
    Effect s move s'

/-- A caller that neither has a sample in hand nor gets one in hand, and begins no flush but one
with everything left to do. -/
theorem effect_of_caller {i : Nat} {before after : Caller} {move : Move}
    (hbefore : s.callers[i]? = some before) (hin : before.inHand = []) (hout : after.inHand = [])
    (hcallers : s'.callers = s.callers.set i after) (htickers : s'.tickers = s.tickers)
    (haccepts : s.accepts? move = none) (hdecides : s.decides? move = none)
    (hwrites : s.writes? move = none) (haggregator : s'.client.aggregator = s.client.aggregator)
    (hpipeline : ∃ intake outbox, s'.client.pipeline = { s.client.pipeline with intake, outbox })
    (hafter : ∀ w ∈ after.sweeps, w.entries = [])
    (hphase : ∀ w ∈ s'.phase.sweeps, w ∈ s.phase.sweeps ∨ w.entries = []) : Effect s move s' := by
  refine .rest ⟨haccepts, hdecides, ?_⟩ hwrites haggregator hpipeline fun w hw => ?_
  · rw [hcallers]
    exact flatMap_set_eq hbefore (hout.trans hin.symm)
  · rcases mem_sweeps_of_caller hw hcallers htickers with hold | hnew | hnew
    · exact .inl hold
    · exact .inr (hafter w hnew)
    · exact (hphase w hnew).imp_left fun hold => mem_sweeps.mpr (.inr (.inr hold))

variable [Transport τ]

/-- Whatever the caller that closes a client does, it leaves samples alone. -/
theorem effect_shutDown {i j : Nat} {stage : Stage} (hphase : s.phase = .closing j stage)
    (hclosing : s.callers[i]? = some .closing) (hclose : s.shutDown? i stage = some s') :
    Effect s (.proceed i) s' := by
  obtain ⟨haccepts, hdecides⟩ := concerns_none hclosing rfl
  have hwrites : s.writes? (.proceed i) = stage.next? := by simp [writes?, hclosing, hphase]
  have hsame : s.callers = s.callers.set i .closing := by
    obtain ⟨hlt, heq⟩ := List.getElem?_eq_some_iff.mp hclosing
    rw [← heq, List.set_getElem_self]
  -- Everything but the flush in the middle is a step of the caller by itself.
  have hrest {after : Caller} (hafter : after = .closing ∨ after = .idle)
      (hcallers : s'.callers = s.callers.set i after) (htickers : s'.tickers = s.tickers)
      (hnone : s.writes? (.proceed i) = none)
      (haggregator : s'.client.aggregator = s.client.aggregator)
      (hpipeline : ∃ intake outbox,
        s'.client.pipeline = { s.client.pipeline with intake, outbox })
      (hlater : ∀ w ∈ s'.phase.sweeps, w.entries = []) : Effect s (.proceed i) s' := by
    refine effect_of_caller hclosing rfl ?_ hcallers htickers haccepts hdecides hnone haggregator
      hpipeline ?_ fun w hw => .inr (hlater w hw)
    all_goals rcases hafter with rfl | rfl <;> first | rfl | exact List.forall_mem_nil _
  cases stage with
  | signalling =>
    cases hclose
    exact hrest (.inl rfl) hsame rfl hwrites rfl ⟨_, _, rfl⟩ (List.forall_mem_nil _)
  | joining =>
    simp only [shutDown?] at hclose
    split at hclose <;> cases hclose
    refine hrest (.inl rfl) hsame rfl hwrites rfl ⟨_, _, rfl⟩ ?_
    exact List.forall_mem_singleton.mpr rfl
  | sweeping w =>
    have hw : w ∈ s.sweeps := by
      rw [mem_sweeps, hphase]
      exact .inr (.inr (List.mem_singleton_self w))
    simp only [shutDown?] at hclose
    split at hclose
    next hdone =>
      cases hclose
      obtain rfl := Sweep.eq_nil_of_isDone hdone
      exact hrest (.inl rfl) hsame rfl hwrites rfl ⟨_, _, rfl⟩ (List.forall_mem_nil _)
    · obtain ⟨next, hnext, rfl⟩ := Option.map_eq_some_iff.mp hclose
      obtain ⟨drainer, rfl⟩ := eq_of_advance? hnext
      refine .advance ⟨haccepts, hdecides, rfl⟩ hw hwrites rfl fun later hlater => ?_
      refine (mem_sweeps_of_phase (s := s) hlater rfl rfl).imp_right fun hnew => ?_
      exact List.mem_singleton.mp hnew
  | raising =>
    simp only [shutDown?] at hclose
    split at hclose
    · split at hclose <;> cases hclose
      exact hrest (.inl rfl) hsame rfl hwrites rfl ⟨_, _, rfl⟩ (List.forall_mem_nil _)
    · cases hclose
      exact hrest (.inl rfl) hsame rfl hwrites rfl ⟨_, _, rfl⟩ (List.forall_mem_nil _)
  | awaiting | joiningCourier =>
    simp only [shutDown?] at hclose
    split at hclose <;> cases hclose
    exact hrest (.inl rfl) hsame rfl hwrites rfl ⟨_, _, rfl⟩ (List.forall_mem_nil _)
  | halting =>
    cases hclose
    exact hrest (.inl rfl) hsame rfl hwrites rfl ⟨_, _, rfl⟩ (List.forall_mem_nil _)
  | draining =>
    simp only [shutDown?] at hclose
    split at hclose
    · cases hclose
      exact hrest (.inl rfl) hsame rfl hwrites rfl ⟨_, _, rfl⟩ (List.forall_mem_nil _)
    · cases hclose
      refine hrest (.inl rfl) hsame rfl hwrites rfl ⟨_, _, rfl⟩ ?_
      show ∀ w ∈ s.phase.sweeps, w.entries = []
      rw [hphase]
      exact List.forall_mem_nil _
  | closingTransport =>
    cases hclose
    exact hrest (.inr rfl) rfl rfl hwrites rfl ⟨_, _, rfl⟩ (List.forall_mem_nil _)

/-- What comes of going on with a call. -/
theorem effect_proceed {i : Nat} (hproceed : s.proceed? i = some s') :
    Effect s (.proceed i) s' := by
  unfold proceed? at hproceed
  split at hproceed
  · cases hproceed
  · cases hproceed
  next sample hsending =>
    split at hproceed
    next reason hreason =>
      cases hproceed
      exact effect_of_caller hsending rfl rfl rfl rfl (by simp [accepts?, hsending, hreason])
        (by simp [decides?, hsending, hreason]) (by simp [writes?, hsending]) rfl ⟨_, _, rfl⟩
        (List.forall_mem_nil _) fun w hw => .inl hw
    next hvalid =>
      obtain ⟨hback, hpass⟩ | ⟨m, a, rfl, ha, htakes, hmerge⟩ :=
        Client.merge_cases { s.client with accepted := s.client.accepted.count sample } sample
      -- The aggregator either leaves the sample to the shards or merges it at once.
      · rw [hpass] at hproceed
        cases hproceed
        exact .pass hsending hvalid (Client.takes_eq_false hback)
      · rw [hmerge] at hproceed
        cases hproceed
        exact .merge hsending hvalid ha htakes
  next sample hdispatching =>
    cases hproceed
    exact .dispatch hdispatching
  next w hflushing =>
    -- A flush decides about no sample; it writes entries that were taken out of the tables.
    obtain ⟨haccepts, hdecides⟩ := concerns_none hflushing rfl
    have hwrites : s.writes? (.proceed i) = w.next? := by simp [writes?, hflushing]
    dsimp only at hproceed
    split at hproceed
    · obtain ⟨next, hnext, rfl⟩ := Option.map_eq_some_iff.mp hproceed
      obtain ⟨drainer, rfl⟩ := eq_of_advance? hnext
      have hw : w ∈ s.sweeps := mem_sweeps.mpr (.inl (List.mem_flatMap.mpr
        ⟨.flushing w, List.mem_of_getElem? hflushing, List.mem_singleton_self w⟩))
      refine .advance ⟨haccepts, hdecides, flatMap_set_eq hflushing rfl⟩ hw hwrites rfl
        fun later hlater => ?_
      rcases mem_sweeps_of_caller (s := s) hlater rfl rfl with hold | hnew | hold
      · exact .inl hold
      · exact .inr (List.mem_singleton.mp hnew)
      · exact .inl (mem_sweeps.mpr (.inr (.inr hold)))
    next hdone =>
      obtain rfl := Sweep.eq_nil_of_isDone (by simpa using hdone)
      -- Without anything left to do, the caller waits for its barrier, or drains the queue itself.
      have hrest {c : Caller} (hout : c.inHand = []) (hafter : c.sweeps = [])
          (hcallers : s'.callers = s.callers.set i c) (htickers : s'.tickers = s.tickers)
          (hphase : s'.phase = s.phase) (haggregator : s'.client.aggregator = s.client.aggregator)
          (hpipeline : ∃ intake outbox,
            s'.client.pipeline = { s.client.pipeline with intake, outbox }) :
          Effect s (.proceed i) s' := by
        refine effect_of_caller hflushing rfl hout hcallers htickers haccepts hdecides hwrites
          haggregator hpipeline ?_ fun w hw => .inl (hphase ▸ hw)
        rw [hafter]
        exact List.forall_mem_nil _
      split at hproceed
      · cases hproceed
        exact hrest (c := .draining) rfl rfl rfl rfl rfl rfl ⟨_, _, rfl⟩
      · split at hproceed <;> cases hproceed
        exact hrest (c := .awaiting) rfl rfl rfl rfl rfl rfl ⟨_, _, rfl⟩
  next hawaiting =>
    split at hproceed <;> cases hproceed
    obtain ⟨haccepts, hdecides⟩ := concerns_none hawaiting rfl
    exact effect_of_caller hawaiting rfl rfl rfl rfl haccepts hdecides
      (by simp [writes?, hawaiting]) rfl ⟨_, _, rfl⟩ (List.forall_mem_nil _) fun w hw => .inl hw
  next hdraining =>
    obtain ⟨haccepts, hdecides⟩ := concerns_none hdraining rfl
    have hwrites : s.writes? (.proceed i) = none := by simp [writes?, hdraining]
    split at hproceed <;> cases hproceed
    · exact effect_of_caller hdraining rfl rfl rfl rfl haccepts hdecides hwrites rfl ⟨_, _, rfl⟩
        (List.forall_mem_nil _) fun w hw => .inl hw
    · exact .rest ⟨haccepts, hdecides, rfl⟩ hwrites rfl ⟨_, _, rfl⟩ fun w hw => .inl hw
  next hclosing =>
    split at hproceed
    next hphase => exact effect_shutDown hphase hclosing hproceed
    · cases hproceed
    · cases hproceed

/-- Every step comes to one of these. -/
theorem effect_of_step {move : Move} (hstep : s.step? move = some s') : Effect s move s' := by
  cases move with
  | call i request =>
    simp only [step?, call?] at hstep
    split at hstep
    next hidle =>
      -- A call that begins changes the caller, and nothing else that matters here.
      have hquiet {c : Caller} (hin : c.inHand = [])
          (hcallers : s'.callers = s.callers.set i c) (htickers : s'.tickers = s.tickers)
          (haggregator : s'.client.aggregator = s.client.aggregator)
          (hpipeline : s'.client.pipeline = s.client.pipeline)
          (hafter : ∀ w ∈ c.sweeps, w.entries = [])
          (hphase : ∀ w ∈ s'.phase.sweeps, w ∈ s.phase.sweeps ∨ w.entries = []) :
          Effect s (.call i request) s' :=
        effect_of_caller hidle rfl hin hcallers htickers rfl rfl rfl haggregator
          ⟨_, _, hpipeline⟩ hafter hphase
      split at hstep
      · cases hstep
        exact hquiet (c := .idle) rfl rfl rfl rfl rfl (List.forall_mem_nil _) fun w hw => .inl hw
      · cases request with
        | send sample =>
          cases hstep
          exact hquiet (c := .sending sample) rfl rfl rfl rfl rfl (List.forall_mem_nil _)
            fun w hw => .inl hw
        | flush =>
          cases hstep
          exact hquiet (c := .flushing (.whole s.client)) rfl rfl rfl rfl rfl
            (List.forall_mem_singleton.mpr rfl) fun w hw => .inl hw
        | close =>
          dsimp only at hstep
          split at hstep <;> cases hstep
          exact hquiet (c := .closing) rfl rfl rfl rfl rfl (List.forall_mem_nil _)
            (List.forall_mem_nil _)
    · cases hstep
  | proceed i => exact effect_proceed hstep
  | take i =>
    simp only [step?, serve?] at hstep
    split at hstep <;> cases hstep
    exact .take
  | process i =>
    simp only [step?, serve?] at hstep
    split at hstep <;> cases hstep
    exact .process
  | clear i =>
    simp only [step?, turn?] at hstep
    split at hstep
    · split at hstep <;> cases hstep
      exact .rest ⟨rfl, rfl, rfl⟩ rfl rfl ⟨_, _, rfl⟩ fun w hw => .inl hw
    · cases hstep
  | leave i | retire i =>
    simp only [step?, turn?] at hstep
    split at hstep <;> cases hstep
    exact .rest ⟨rfl, rfl, rfl⟩ rfl rfl ⟨_, _, rfl⟩ fun w hw => .inl hw
  | tick i =>
    simp only [step?] at hstep
    split at hstep <;> cases hstep
    next plan hticker =>
      -- A ticker starts from its plan, which was among the sweeps all along.
      refine .rest ⟨rfl, rfl, rfl⟩ rfl rfl ⟨_, _, rfl⟩ fun w hw => .inl ?_
      rcases mem_sweeps_of_ticker hw with hold | hnew
      · exact hold
      · obtain rfl : w = plan := by simpa [Ticker.sweeps] using hnew
        exact plan_mem_sweeps hticker
  | work i =>
    simp only [step?] at hstep
    split at hstep
    next plan w hticker =>
      have hwrites : s.writes? (.work i) = w.next? := by simp [writes?, hticker]
      split at hstep
      next hdone =>
        cases hstep
        obtain rfl := Sweep.eq_nil_of_isDone hdone
        refine .rest ⟨rfl, rfl, rfl⟩ hwrites rfl ⟨_, _, rfl⟩ fun w hw => .inl ?_
        rcases mem_sweeps_of_ticker hw with hold | hnew
        · exact hold
        · obtain rfl : w = plan := List.mem_singleton.mp hnew
          exact plan_mem_sweeps hticker
      next =>
        obtain ⟨next, hnext, rfl⟩ := Option.map_eq_some_iff.mp hstep
        obtain ⟨drainer, rfl⟩ := eq_of_advance? hnext
        have hw : w ∈ s.sweeps := mem_sweeps.mpr (.inr (.inl (List.mem_flatMap.mpr
          ⟨_, List.mem_of_getElem? hticker, List.mem_cons_of_mem _ (List.mem_singleton_self w)⟩)))
        refine .advance ⟨rfl, rfl, rfl⟩ hw hwrites rfl fun later hlater => ?_
        rcases mem_sweeps_of_ticker hlater with hold | hnew
        · exact .inl hold
        · rcases List.mem_cons.mp hnew with rfl | hnew
          · exact .inl (plan_mem_sweeps hticker)
          · exact .inr (List.mem_singleton.mp hnew)
    · cases hstep
  | quit i =>
    simp only [step?] at hstep
    split at hstep <;> cases hstep
    next plan hticker _ =>
      refine .rest ⟨rfl, rfl, rfl⟩ rfl rfl ⟨_, _, rfl⟩ fun w hw => .inl ?_
      rcases mem_sweeps_of_ticker hw with hold | hnew
      · exact hold
      · obtain rfl : w = plan := List.mem_singleton.mp hnew
        exact plan_mem_sweeps hticker
  | fetch | carry | exit =>
    simp only [step?] at hstep
    split at hstep <;> cases hstep
    exact .rest ⟨rfl, rfl, rfl⟩ rfl rfl ⟨_, _, rfl⟩ fun w hw => .inl hw

end System

end DogStatsD
