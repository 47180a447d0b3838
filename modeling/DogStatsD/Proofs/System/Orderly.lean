import DogStatsD.Proofs.Outbox.Drain
import DogStatsD.Proofs.System.Rest

/-!
# Orderly Shutdown

The caller that closes a client passes from one stage to the next only when a part of the client is
at rest, and nobody disturbs that part later on.

* `System.Orderly`: what is at rest at each stage;
* `System.Orderly.early`, `System.Orderly.thread`, `System.Orderly.caller`: what parties may do
  before the threads are gone;
* `System.Orderly.shutDown`: what the caller that closes the client puts at rest;
* `System.Orderly.step`, `System.Orderly.run`: steps keep order;
* `System.orderly_start`: at first all is in order.
-/

namespace DogStatsD

namespace System

variable {τ : Type} {limits : Limits}

/-! ## Stages -/

/-- Whether receivers and tickers are gone. -/
def Phase.isJoined : Phase → Bool
  | .opened | .closing _ .signalling | .closing _ .joining => false
  | .closing _ _ | .closed => true

/-- What is left of the last flush. -/
def Phase.sweep : Phase → Sweep
  | .closing _ (.sweeping w) => w
  | _ => {}

/-- Whether the courier is gone. -/
def Phase.isAlone : Phase → Bool
  | .closing _ .draining | .closing _ .closingTransport | .closed => true
  | _ => false

/-- Whether the queue is worked off. -/
def Phase.isDrained : Phase → Bool
  | .closing _ .closingTransport | .closed => true
  | _ => false

/-- What is at rest at each stage. -/
structure Orderly (s : System τ) : Prop where
  closed_iff : s.client.closed = true ↔ s.phase ≠ .opened
  closing_iff : ∀ i : Nat, s.callers[i]? = some .closing ↔ ∃ stage, s.phase = .closing i stage
  /-- Nobody keeps a client open that is closed. -/
  released : s.client.closed = true → ∀ caller ∈ s.callers, caller.holdsOpen = false
  /-- As long as receivers are not told to stop, they listen to their channels. -/
  listening : s.phase.isSignalled = false → Listening s.client.pipeline s.receivers
  served : Served s.client.pipeline s.receivers
  joined : s.phase.isJoined = true →
    (∀ r ∈ s.receivers, r = .gone) ∧ ∀ t ∈ s.tickers, t.state = .gone
  covers : s.phase.isJoined = true → s.phase.sweep.Covers s.client
  courier_eq : s.phase.isAlone = true → s.courier = .gone
  queue_eq : s.phase.isDrained = true → s.client.pipeline.outbox.queue = []

variable {s s' : System τ}

/-- What is said of a later stage. -/
theorem not_yet {p : Prop} (h : false = true) : p :=
  absurd h Bool.false_ne_true

theorem Courier.eq_gone {courier : Courier} (h : courier.isGone = true) : courier = .gone :=
  match courier, h with
  | .gone, _ => rfl

theorem Ticking.eq_gone {state : Ticking} (h : state.isGone = true) : state = .gone :=
  match state, h with
  | .gone, _ => rfl

theorem Phase.isJoined_of_isAlone {p : Phase} (h : p.isAlone = true) : p.isJoined = true :=
  match p, h with
  | .closing _ .draining, _ | .closing _ .closingTransport, _ | .closed, _ => rfl

theorem Phase.isAlone_of_isDrained {p : Phase} (h : p.isDrained = true) : p.isAlone = true :=
  match p, h with
  | .closing _ .closingTransport, _ | .closed, _ => rfl

theorem Phase.eq_signalling {i : Nat} {stage : Stage}
    (h : (Phase.closing i stage).isSignalled = false) : stage = .signalling :=
  match stage, h with
  | .signalling, _ => rfl

/-- A caller that keeps the client open does so. -/
theorem Orderly.opened_of_mem (h : s.Orderly) {caller : Caller} (hmem : caller ∈ s.callers)
    (hholds : caller.holdsOpen = true) : s.phase = .opened := by
  by_contra hphase
  have hreleased := h.released (h.closed_iff.mpr hphase) caller hmem
  rw [hholds] at hreleased
  cases hreleased

/-! ## Before the threads are gone -/

/-- While receivers and tickers may be about, only they and the channels matter. -/
theorem Orderly.early (h : s.Orderly) (hearly : s.phase.isJoined = false)
    (hphase : s'.phase = s.phase) (hclosed : s'.client.closed = s.client.closed)
    (hclosing : ∀ j : Nat, s'.callers[j]? = some .closing ↔ s.callers[j]? = some .closing)
    (hreleased : s'.client.closed = true → ∀ caller ∈ s'.callers, caller.holdsOpen = false)
    (hlistening : s'.phase.isSignalled = false → Listening s'.client.pipeline s'.receivers)
    (hserved : Served s'.client.pipeline s'.receivers) : s'.Orderly := by
  rw [← hphase] at hearly
  have hnot {p : Prop} (hjoined : s'.phase.isJoined = true) : p := by
    rw [hearly] at hjoined
    cases hjoined
  refine ⟨?_, ?_, hreleased, hlistening, hserved, hnot, hnot, ?_, ?_⟩
  · rw [hclosed, hphase]
    exact h.closed_iff
  · intro j
    rw [hclosing, hphase]
    exact h.closing_iff j
  · exact fun halone => hnot (Phase.isJoined_of_isAlone halone)
  · exact fun hdrained =>
      hnot (Phase.isJoined_of_isAlone (Phase.isAlone_of_isDrained hdrained))

/-- Threads that put nothing into channels disturb nobody. -/
theorem Orderly.thread (h : s.Orderly) (hearly : s.phase.isJoined = false)
    (hphase : s'.phase = s.phase) (hclosed : s'.client.closed = s.client.closed)
    (hcallers : s'.callers = s.callers) (hreceivers : s'.receivers = s.receivers)
    (hkeeps : s.client.pipeline.Keeps s'.client.pipeline) : s'.Orderly := by
  refine h.early hearly hphase hclosed (fun j => by rw [hcallers]) ?_ ?_ ?_
  · rw [hclosed, hcallers]
    exact h.released
  · rw [hphase, hreceivers]
    exact fun hsignalled => (h.listening hsignalled).keeps hkeeps
  · rw [hreceivers]
    exact h.served.keeps hkeeps

/-- Callers of an open client may put samples into channels. -/
theorem Orderly.caller (h : s.Orderly) (hopen : s.phase = .opened) {i : Nat}
    {before after : Caller} (hbefore : s.callers[i]? = some before) (hb : before ≠ .closing)
    (ha : after ≠ .closing) (hphase : s'.phase = s.phase)
    (hclosed : s'.client.closed = s.client.closed) (hcallers : s'.callers = s.callers.set i after)
    (hlistening : Listening s'.client.pipeline s'.receivers)
    (hserved : Served s'.client.pipeline s'.receivers) : s'.Orderly := by
  refine h.early (by rw [hopen]; rfl) hphase hclosed ?_ ?_ (fun _ => hlistening) hserved
  · intro j
    rw [hcallers, List.getElem?_set]
    split_ifs with hij hlt
    · subst hij
      simp [hbefore, hb, ha]
    · subst hij
      simp [List.getElem?_eq_none (not_lt.mp hlt)]
    · exact Iff.rfl
  · intro hclose
    rw [hclosed, h.closed_iff] at hclose
    exact absurd hopen hclose

/-- A caller that keeps the client open may do anything that puts nothing into channels. -/
theorem Orderly.holder (h : s.Orderly) {i : Nat} {before after : Caller}
    (hbefore : s.callers[i]? = some before) (hholds : before.holdsOpen = true)
    (hafter : after ≠ .closing) (hphase : s'.phase = s.phase)
    (hclosed : s'.client.closed = s.client.closed) (hcallers : s'.callers = s.callers.set i after)
    (hreceivers : s'.receivers = s.receivers)
    (hkeeps : s.client.pipeline.Keeps s'.client.pipeline) : s'.Orderly := by
  have hopen := h.opened_of_mem (List.mem_of_getElem? hbefore) hholds
  have hlistening := h.listening (by rw [hopen]; rfl)
  refine h.caller hopen hbefore ?_ hafter hphase hclosed hcallers ?_ ?_
  · rintro rfl
    cases hholds
  · rw [hreceivers]
    exact hlistening.keeps hkeeps
  · rw [hreceivers]
    exact h.served.keeps hkeeps

/-- A sample that is dispatched while the client is open goes to a receiver that listens. -/
theorem Orderly.dispatch (h : s.Orderly) (hopen : s.phase = .opened) (sample : Sample) :
    Listening (s.dispatch sample).2 s.receivers ∧ Served (s.dispatch sample).2 s.receivers := by
  have hlistening := h.listening (by rw [hopen]; rfl)
  have hkept {p : Pipeline τ} (hkeeps : s.client.pipeline.Keeps p) :
      Listening p s.receivers ∧ Served p s.receivers :=
    ⟨hlistening.keeps hkeeps, h.served.keeps hkeeps⟩
  have hsame := hkept (Pipeline.keeps_of_shards_eq rfl rfl)
  simp only [System.dispatch]
  split
  · exact hsame
  · cases hintake : s.client.pipeline.intake with
    | direct =>
      rw [Pipeline.dispatch_of_direct hintake]
      exact hkept (Pipeline.keeps_atShard _ _ fun shard o d hquiet => hquiet.process o d sample)
    | stopped =>
      rw [Pipeline.dispatch_of_stopped hintake]
      exact hsame
    | channels settings =>
      rw [Pipeline.dispatch_of_channels hintake, Pipeline.enqueue]
      split
      · exact hsame
      next shard hshard =>
        have hlistens := hlistening settings hintake _ (List.getElem?_eq_some_iff.mp hshard).1
        split
        · refine ⟨?_, h.served.enqueue hlistens⟩
          intro later hlater j hj
          exact hlistening later hlater j (by simpa using hj)
        · exact hkept (Pipeline.keeps_of_shards_eq rfl rfl)

/-! ## Threads -/

/-- A receiver that is not gone is still waited for. -/
theorem Orderly.not_isJoined_of_receiver (h : s.Orderly) {i : Nat} {r : Receiver}
    (hr : s.receivers[i]? = some r) (hne : r ≠ .gone) : s.phase.isJoined = false :=
  Bool.eq_false_iff.mpr fun hjoined => hne ((h.joined hjoined).1 r (List.mem_of_getElem? hr))

/-- A ticker that is not gone is still waited for. -/
theorem Orderly.not_isJoined_of_ticker (h : s.Orderly) {i : Nat} {t : Ticker}
    (ht : s.tickers[i]? = some t) (hne : t.state ≠ .gone) : s.phase.isJoined = false :=
  Bool.eq_false_iff.mpr fun hjoined => hne ((h.joined hjoined).2 t (List.mem_of_getElem? ht))

/-- A receiver works on its shard. -/
theorem Orderly.serve (h : s.Orderly) {i : Nat}
    {f : Shard → Outbox τ → Draws → Shard × Outbox τ × Draws}
    (hf : ∀ shard o d, shard.Quiet → (f shard o d).1.Quiet) (hserve : s.serve? i f = some s') :
    s'.Orderly := by
  unfold serve? at hserve
  split at hserve <;> cases hserve
  next hserving =>
    obtain ⟨r, hr, hserves⟩ := (Option.any_eq_true _ _).mp hserving
    have hne : r ≠ .gone := by
      rintro rfl
      cases hserves
    exact h.thread (h.not_isJoined_of_receiver hr hne) rfl rfl rfl rfl
      (Pipeline.keeps_atShard _ i hf)

/-- A receiver goes on from one state to another. It stops serving only when nothing waits. -/
theorem Orderly.turn (h : s.Orderly) {i : Nat} {before after : Receiver} {may : Shard → Bool}
    (hne : before ≠ .gone) (htold : before = .listening → s.phase.isSignalled = true)
    (hserving : after.isServing = true ∨ before.isServing = false ∨
      ∀ shard, may shard = true → shard.Quiet)
    (hturn : s.turn? i before after may = some s') : s'.Orderly := by
  unfold turn? at hturn
  split at hturn <;> cases hturn
  next hguard =>
    obtain ⟨hbefore, hmay⟩ := hguard
    refine h.early (h.not_isJoined_of_receiver hbefore hne) rfl rfl (fun _ => Iff.rfl) h.released ?_
      (h.served.turn ?_)
    · -- A receiver that leaves its channel was told to, and then nothing is said of listening.
      intro hsignalled settings hintake j hj
      have hlistens := h.listening hsignalled settings hintake j hj
      by_cases hij : i = j
      · subst hij
        obtain rfl : before = .listening := by
          rw [hbefore] at hlistens
          exact Option.some.inj hlistens
        have htold := htold rfl
        change s.phase.isSignalled = false at hsignalled
        rw [htold] at hsignalled
        cases hsignalled
      · exact (List.getElem?_set_ne hij).trans hlistens
    · obtain hserves | hidle | hquiet := hserving
      · exact .inl hserves
      · -- A receiver that serves no more has left a quiet channel behind.
        refine .inr fun shard hshard => ?_
        obtain hquiet | ⟨r, hr, hserves⟩ := h.served i shard hshard
        · exact hquiet
        · obtain rfl : before = r := Option.some.inj (hbefore.symm.trans hr)
          rw [hidle] at hserves
          cases hserves
      · refine .inr fun shard hshard => hquiet shard ?_
        rw [hshard] at hmay
        exact hmay

/-- A ticker goes on. -/
theorem Orderly.ticker (h : s.Orderly) {i : Nat} {t : Ticker} (ht : s.tickers[i]? = some t)
    (hne : t.state ≠ .gone) (later : Ticker) : (s.setTicker i later).Orderly :=
  h.thread (h.not_isJoined_of_ticker ht hne) rfl rfl rfl rfl (Pipeline.keeps_of_shards_eq rfl rfl)

/-- The courier, as long as it is there, works on the outbox. -/
theorem Orderly.courier (h : s.Orderly) (hne : s.courier ≠ .gone) (o : Outbox τ)
    (courier : Courier) : Orderly { s.setOutbox o with courier } := by
  have hnot {p : Prop} (halone : s.phase.isAlone = true) : p :=
    absurd (h.courier_eq halone) hne
  exact ⟨h.closed_iff, h.closing_iff, h.released,
    fun hsignalled => (h.listening hsignalled).keeps (Pipeline.keeps_of_shards_eq rfl rfl),
    fun i shard hshard => h.served i shard hshard, h.joined,
    fun hjoined => (h.covers hjoined).of_eq rfl rfl, hnot,
    fun hdrained => hnot (Phase.isAlone_of_isDrained hdrained)⟩

/-! ## Steps -/

/-- A call that begins keeps to the order of closing. -/
theorem Orderly.call (h : s.Orderly) {i : Nat} {request : Request}
    (hcall : s.call? i request = some s') : s'.Orderly := by
  unfold call? at hcall
  split at hcall
  next hidle =>
    split at hcall
    · cases hcall
      rw [answer_of_idle hidle]
      exact ⟨h.closed_iff, h.closing_iff, h.released, h.listening, h.served, h.joined, h.covers,
        h.courier_eq, h.queue_eq⟩
    next hnot =>
      have hopen : s.phase = .opened := by
        by_contra hphase
        exact hnot (h.closed_iff.mpr hphase)
      have hlistening := h.listening (by rw [hopen]; rfl)
      split at hcall
      · cases hcall
        exact h.caller hopen hidle (by simp) (by simp) rfl rfl rfl hlistening h.served
      · cases hcall
        exact h.caller hopen hidle (by simp) (by simp) rfl rfl rfl hlistening h.served
      · split at hcall <;> cases hcall
        next hnobody =>
          -- From now on, no caller but this one is in the middle of a call.
          refine ⟨by simp, ?_, ?_, fun _ => hlistening, h.served, not_yet, not_yet, not_yet,
            not_yet⟩
          · intro j
            have hlt := (List.getElem?_eq_some_iff.mp hidle).1
            have hclosing := h.closing_iff j
            rw [hopen] at hclosing
            by_cases hij : i = j
            · subst hij
              simp [setCaller, hlt]
            · simpa [setCaller, List.getElem?_set_ne hij, hij] using hclosing
          · intro _ caller hmem
            rcases List.mem_or_eq_of_mem_set hmem with hold | rfl
            · exact Bool.eq_false_iff.mpr fun hholds =>
                hnobody (List.any_eq_true.mpr ⟨caller, hold, hholds⟩)
            · rfl
  · cases hcall

/-- The caller that closes the client goes on, and leaves the callers and the channels alone. -/
theorem Orderly.reach (h : s.Orderly) {i : Nat} {stage later : Stage}
    (hphase : s.phase = .closing i stage) (hlater : s'.phase = .closing i later)
    (hsignalled : later ≠ .signalling) (hclosed : s'.client.closed = s.client.closed)
    (hcallers : s'.callers = s.callers) (hserved : Served s'.client.pipeline s'.receivers)
    (hjoined : s'.phase.isJoined = true →
      (∀ r ∈ s'.receivers, r = .gone) ∧ ∀ t ∈ s'.tickers, t.state = .gone)
    (hcovers : s'.phase.isJoined = true → s'.phase.sweep.Covers s'.client)
    (hcourier : s'.phase.isAlone = true → s'.courier = .gone)
    (hqueue : s'.phase.isDrained = true → s'.client.pipeline.outbox.queue = []) : s'.Orderly := by
  refine ⟨?_, ?_, ?_, ?_, hserved, hjoined, hcovers, hcourier, hqueue⟩
  · rw [hclosed, h.closed_iff, hphase, hlater]
    simp
  · intro j
    rw [hcallers, h.closing_iff, hphase, hlater]
    simp
  · rw [hclosed, hcallers]
    exact h.released
  · rw [hlater]
    exact fun hnot => absurd (Phase.eq_signalling hnot) hsignalled

variable [Transport τ]

/-- Each stage puts a part of the client at rest and leaves alone what is at rest already. -/
theorem Orderly.shutDown (h : s.Orderly) (hneat : s.Neat limits) {i : Nat} {stage : Stage}
    (hphase : s.phase = .closing i stage) (hclose : s.shutDown? i stage = some s') :
    s'.Orderly := by
  have hjoined (hstage : (Phase.closing i stage).isJoined = true) :=
    h.joined (by rwa [hphase])
  have hcovers (hstage : (Phase.closing i stage).isJoined = true) :
      (Phase.closing i stage).sweep.Covers s.client := by
    rw [← hphase] at hstage ⊢
    exact h.covers hstage
  cases stage with
  | signalling =>
    cases hclose
    exact h.reach hphase rfl (by simp) rfl rfl h.served not_yet not_yet not_yet not_yet
  | joining =>
    simp only [shutDown?] at hclose
    split at hclose <;> cases hclose
    next hgone =>
      simp only [Bool.and_eq_true, List.all_eq_true, beq_iff_eq] at hgone
      obtain ⟨hreceivers, htickers⟩ := hgone
      -- A flush that has not begun leaves nothing out.
      exact h.reach hphase rfl (by simp) rfl rfl (fun j shard hshard => h.served j shard hshard)
        (fun _ => ⟨hreceivers, fun t ht => Ticking.eq_gone (htickers t ht)⟩)
        (fun _ => (Sweep.covers_whole s.client).of_eq rfl rfl) not_yet not_yet
  | sweeping w =>
    simp only [shutDown?] at hclose
    split at hclose
    next hdone =>
      cases hclose
      -- What the flush was to do is done, and from here on nothing of it is left.
      obtain rfl := Sweep.eq_nil_of_isDone hdone
      exact h.reach hphase rfl (by simp) rfl rfl h.served (fun _ => hjoined rfl)
        (fun _ => hcovers rfl) not_yet not_yet
    · obtain ⟨next, hnext, rfl⟩ := Option.map_eq_some_iff.mp hclose
      obtain ⟨drainer, rfl⟩ := eq_of_advance? hnext
      exact h.reach hphase rfl (by simp) (closed_advance s.client w) rfl
        (h.served.keeps (keeps_advance s.client w)) (fun _ => hjoined rfl)
        (fun _ => (hcovers rfl).advance hneat.pipeline) not_yet not_yet
  | raising =>
    simp only [shutDown?] at hclose
    split at hclose
    · split at hclose <;> cases hclose
      exact h.reach hphase rfl (by simp) rfl rfl (fun j shard hshard => h.served j shard hshard)
        (fun _ => hjoined rfl) (fun _ => (hcovers rfl).of_eq rfl rfl) not_yet not_yet
    · cases hclose
      exact h.reach hphase rfl (by simp) rfl rfl h.served (fun _ => hjoined rfl)
        (fun _ => hcovers rfl) not_yet not_yet
  | awaiting =>
    simp only [shutDown?] at hclose
    split at hclose <;> cases hclose
    exact h.reach hphase rfl (by simp) rfl rfl h.served (fun _ => hjoined rfl)
      (fun _ => hcovers rfl) not_yet not_yet
  | halting =>
    cases hclose
    exact h.reach hphase rfl (by simp) rfl rfl (fun j shard hshard => h.served j shard hshard)
      (fun _ => hjoined rfl) (fun _ => (hcovers rfl).of_eq rfl rfl) not_yet not_yet
  | joiningCourier =>
    simp only [shutDown?] at hclose
    split at hclose <;> cases hclose
    next hgone =>
      exact h.reach hphase rfl (by simp) rfl rfl h.served (fun _ => hjoined rfl)
        (fun _ => hcovers rfl) (fun _ => Courier.eq_gone hgone) not_yet
  | draining =>
    have hcourier := h.courier_eq (by rw [hphase]; rfl)
    simp only [shutDown?] at hclose
    split at hclose
    next hnone =>
      cases hclose
      exact h.reach hphase rfl (by simp) rfl rfl h.served (fun _ => hjoined rfl)
        (fun _ => hcovers rfl) (fun _ => hcourier) (fun _ => Outbox.queue_eq_nil_of_step? hnone)
    · cases hclose
      -- The caller stays at this stage until it finds the queue empty.
      refine h.reach hphase hphase (by simp) rfl rfl
        (fun j shard hshard => h.served j shard hshard) (fun _ => hjoined rfl)
        (fun hstage => (h.covers hstage).of_eq rfl rfl) (fun _ => hcourier) ?_
      intro hdrained
      change s.phase.isDrained = true at hdrained
      rw [hphase] at hdrained
      cases hdrained
  | closingTransport =>
    cases hclose
    refine ⟨?_, ?_, ?_, fun hnot => not_yet hnot.symm,
      fun j shard hshard => h.served j shard hshard, fun _ => hjoined rfl,
      fun _ => (hcovers rfl).of_eq rfl rfl, fun _ => h.courier_eq (by rw [hphase]; rfl),
      fun _ => h.queue_eq (by rw [hphase]; rfl)⟩
    · have hclosed := h.closed_iff.mpr (by rw [hphase]; simp)
      simpa [answer, setCaller, setOutbox, setPipeline] using hclosed
    · intro j
      refine ⟨fun hclosing => ?_, fun hnot => ?_⟩
      -- No other caller was closing the client.
      · obtain ⟨-, hnot⟩ | ⟨hne, hold⟩ := getElem?_set_cases hclosing
        · cases hnot
        · obtain ⟨_, hsame⟩ := (h.closing_iff j).mp hold
          rw [hphase] at hsame
          injection hsame with hij
          exact absurd hij hne
      · obtain ⟨_, hnot⟩ := hnot
        cases hnot
    · intro hclosed caller hmem
      rcases List.mem_or_eq_of_mem_set hmem with hold | rfl
      · exact h.released hclosed caller hold
      · rfl

/-- Going on with a call. -/
theorem Orderly.proceed (h : s.Orderly) (hneat : s.Neat limits) {i : Nat}
    (hproceed : s.proceed? i = some s') : s'.Orderly := by
  have hsame {p : Pipeline τ} (hintake : p.intake = s.client.pipeline.intake)
      (hshards : p.shards = s.client.pipeline.shards) : s.client.pipeline.Keeps p :=
    Pipeline.keeps_of_shards_eq hintake hshards
  unfold proceed? at hproceed
  split at hproceed
  · cases hproceed
  · cases hproceed
  next sample hsending =>
    obtain ⟨aggregator, draws, hmerge⟩ :=
      Client.merge_snd { s.client with accepted := s.client.accepted.count sample } sample
    split at hproceed
    · cases hproceed
      exact h.holder hsending rfl (by simp) rfl rfl rfl rfl (hsame rfl rfl)
    · split at hproceed
      next hmerged =>
        cases hproceed
        rw [hmerged] at hmerge
        subst hmerge
        exact h.holder hsending rfl (by simp) rfl rfl rfl rfl (hsame rfl rfl)
      next hmerged =>
        cases hproceed
        rw [hmerged] at hmerge
        subst hmerge
        exact h.holder hsending rfl (by simp) rfl rfl rfl rfl (hsame rfl rfl)
  next sample hdispatching =>
    cases hproceed
    -- A caller that is about to dispatch keeps the client open, so that the receivers listen.
    have hopen := h.opened_of_mem (List.mem_of_getElem? hdispatching) rfl
    obtain ⟨hlistening, hserved⟩ := h.dispatch hopen sample
    exact h.caller hopen hdispatching (by simp) (by simp) rfl rfl rfl hlistening hserved
  next w hflushing =>
    dsimp only at hproceed
    split at hproceed
    · obtain ⟨next, hnext, rfl⟩ := Option.map_eq_some_iff.mp hproceed
      obtain ⟨drainer, rfl⟩ := eq_of_advance? hnext
      exact h.holder hflushing rfl (by simp) rfl (closed_advance s.client w) rfl rfl
        (keeps_advance s.client w)
    · split at hproceed
      · cases hproceed
        exact h.holder hflushing rfl (by simp) rfl rfl rfl rfl (hsame rfl rfl)
      · split at hproceed <;> cases hproceed
        exact h.holder hflushing rfl (by simp) rfl rfl rfl rfl (hsame rfl rfl)
  next hawaiting =>
    split at hproceed <;> cases hproceed
    exact h.holder hawaiting rfl (by simp) rfl rfl rfl rfl (hsame rfl rfl)
  next hdraining =>
    split at hproceed <;> cases hproceed
    · exact h.holder hdraining rfl (by simp) rfl rfl rfl rfl (hsame rfl rfl)
    · have hopen := h.opened_of_mem (List.mem_of_getElem? hdraining) rfl
      exact h.thread (by rw [hopen]; rfl) rfl rfl rfl rfl (hsame rfl rfl)
  next hclosing =>
    split at hproceed
    next j stage hphase =>
      -- Only one caller closes the client, so that the stage is the stage of this one.
      obtain ⟨_, hcloser⟩ := (h.closing_iff i).mp hclosing
      obtain rfl : j = i := by
        rw [hphase] at hcloser
        injection hcloser
      exact h.shutDown hneat hphase hproceed
    · cases hproceed
    · cases hproceed

/-- A step keeps order. -/
theorem Orderly.step (h : s.Orderly) (hneat : s.Neat limits) {move : Move}
    (hstep : s.step? move = some s') : s'.Orderly := by
  cases move with
  | call i request => exact h.call hstep
  | proceed i => exact h.proceed hneat hstep
  | take i => exact h.serve (fun _ _ _ hquiet => hquiet.take) hstep
  | process i => exact h.serve (fun _ o d hquiet => hquiet.release o d) hstep
  | clear i =>
    simp only [step?] at hstep
    split at hstep
    next hsignalled => exact h.turn (by simp) (fun _ => hsignalled) (.inl rfl) hstep
    · cases hstep
  | leave i =>
    -- A receiver leaves only if nothing waits for it and it holds nothing.
    refine h.turn (by simp) (by simp) (.inr (.inr fun shard hmay => ?_)) hstep
    simp only [Bool.and_eq_true, Option.isNone_iff_eq_none, List.isEmpty_iff] at hmay
    exact ⟨hmay.2, hmay.1⟩
  | retire i => exact h.turn (by simp) (by simp) (.inr (.inl rfl)) hstep
  | tick i =>
    simp only [step?] at hstep
    split at hstep <;> cases hstep
    next hticker => exact h.ticker hticker (by simp) _
  | work i =>
    -- A ticker that is done goes back to waiting; before that, it goes on with its sweep.
    simp only [step?] at hstep
    split at hstep
    next plan w hticker =>
      split at hstep
      · cases hstep
        exact h.ticker hticker (by simp) _
      · obtain ⟨next, hnext, rfl⟩ := Option.map_eq_some_iff.mp hstep
        obtain ⟨drainer, rfl⟩ := eq_of_advance? hnext
        exact h.thread (h.not_isJoined_of_ticker hticker (by simp)) rfl
          (closed_advance s.client w) rfl rfl (keeps_advance s.client w)
    · cases hstep
  | quit i =>
    simp only [step?] at hstep
    split at hstep <;> cases hstep
    next hticker _ => exact h.ticker hticker (by simp) _
  | fetch =>
    simp only [step?] at hstep
    split at hstep <;> cases hstep
    next hcourier _ => exact h.courier (by simp [hcourier]) _ _
  | carry =>
    simp only [step?] at hstep
    split at hstep <;> cases hstep
    next hcourier => exact h.courier (by simp [hcourier]) _ _
  | exit =>
    simp only [step?] at hstep
    split at hstep <;> cases hstep
    next hcourier _ => exact h.courier (by simp [hcourier]) s.client.pipeline.outbox _

/-- Steps keep order. -/
theorem Orderly.run (h : s.Orderly) (hneat : s.Neat limits) {moves : List Move}
    (hrun : s.run? moves = some s') : s'.Orderly := by
  refine (steps_induction (motive := fun _ t => t.Orderly ∧ t.Neat limits) hrun ⟨h, hneat⟩ ?_).1
  intro _ _ t t' ⟨horderly, hneat⟩ hstep
  exact ⟨horderly.step hneat hstep, hneat.step hstep⟩

/-- At first, all is in order. -/
theorem orderly_start {config : Config} {transport : τ} {route : String → Nat} {draws : Draws}
    {client : Client τ} (hbuild : config.buildWith transport route draws = .ok client)
    (callers : Nat) : (start client callers).Orderly := by
  obtain ⟨-, later, -, rfl⟩ := Config.eq_of_buildWith hbuild
  obtain ⟨pool, -, hpipeline⟩ := config.pipeline_eq later route draws
  rw [hpipeline]
  refine ⟨by simp [start], ?_, not_yet, ?_, ?_, not_yet, not_yet, not_yet, not_yet⟩
  · intro i
    simp [start, List.getElem?_replicate]
  · exact fun _ => listening_start _ callers
  · intro i shard hshard
    refine .inl ?_
    rw [List.eq_of_mem_replicate (List.mem_of_getElem? hshard)]
    exact ⟨rfl, rfl⟩

end System

end DogStatsD
