import DogStatsD.Proofs.System.Course
import DogStatsD.Proofs.System.Rest

/-!
# Receivers in One Go

A receiver takes samples out of its channel one by one. If nobody else interferes, and the courier
keeps up with it, its steps come to what a shard does in one go.

* `System.leads_processAll`: a receiver works off its channel;
* `System.leads_catchUp`, `System.leads_release`: all receivers do so, and all of them stop;
* `System.leads_quit`: the tickers stop.
-/

namespace DogStatsD

variable {τ : Type}

/-! ## Shards -/

namespace Shard

/-- Processing a sample neither reads nor changes what waits. -/
theorem process_waiting (s : Shard) (waiting : List Sample) (o : Outbox τ) (d : Draws)
    (sample : Sample) :
    ({ s with waiting } : Shard).process o d sample =
      ({ (s.process o d sample).1 with waiting }, (s.process o d sample).2) := by
  unfold process put
  dsimp only
  split <;> rfl

/-- Processing a sample does not touch the one that the receiver has in hand. -/
theorem held_process (s : Shard) (o : Outbox τ) (d : Draws) (sample : Sample) :
    (s.process o d sample).1.held = s.held := by
  obtain ⟨d', hskip | hadd⟩ := s.process_cases o d sample
  · rw [hskip]
  · rw [hadd]

/-- A receiver that is let go of has nothing in hand any more. -/
theorem held_release (s : Shard) (o : Outbox τ) (d : Draws) : (s.release o d).1.held = none := by
  unfold release
  split
  next sample _ => exact held_process _ o d sample
  next hheld => exact hheld

theorem running_release (s : Shard) (o : Outbox τ) (d : Draws) :
    (s.release o d).2.1.running = o.running := by
  unfold release
  split
  · exact running_process _ o d _
  · rfl

variable [Transport τ]

/-- A shard for which nothing waits stays so when samples are processed. -/
theorem Quiet.processAll {s : Shard} (h : s.Quiet) (o : Outbox τ) (d : Draws)
    (samples : List Sample) : (s.processAll o d samples).1.Quiet := by
  induction samples generalizing s o d with
  | nil => exact h
  | cons sample rest ih => exact ih (h.process o d sample) _ _

theorem running_processAll (s : Shard) (o : Outbox τ) (d : Draws) (samples : List Sample) :
    (s.processAll o d samples).2.1.running = o.running := by
  induction samples generalizing s o d with
  | nil => rfl
  | cons sample rest ih =>
    refine (ih _ _ _).trans ?_
    rw [Outbox.running_catchUp]
    exact s.running_process o d sample

/-- A receiver that is not held up works off its channel. -/
theorem catchUp_of_held_eq_none {s : Shard} (h : s.held = none) (o : Outbox τ) (d : Draws) :
    s.catchUp o d = ({ s with waiting := [] } : Shard).processAll o d s.waiting := by
  rw [catchUp, h]
  rfl

/-- A receiver that nothing waits for has nothing to do. -/
theorem Quiet.catchUp_eq {s : Shard} (h : s.Quiet) (o : Outbox τ) (d : Draws) :
    s.catchUp o d = (s, o, d) := by
  obtain ⟨hwaiting, hheld⟩ := h
  rw [catchUp_of_held_eq_none hheld, hwaiting, Shard.processAll, ← hwaiting]

/-- After its receiver has caught up, nothing waits for a shard. -/
theorem Quiet.catchUp {s : Shard} (h : s.Quiet) (o : Outbox τ) (d : Draws) :
    (s.catchUp o d).1.Quiet := by
  rw [h.catchUp_eq]
  exact h

theorem running_catchUp (s : Shard) (o : Outbox τ) (d : Draws) :
    (s.catchUp o d).2.1.running = o.running := by
  unfold catchUp
  split
  · rfl
  · exact running_processAll _ o d _

/-- To finish is to let go of the sample in hand, to process what waits, and to hand over. -/
theorem finish_eq (s : Shard) (o : Outbox τ) (d : Draws) :
    s.finish o d =
      ({ (s.release o d).1 with waiting := [] } : Shard).processAll
        (s.release o d).2.1.catchUp (s.release o d).2.2 (s.release o d).1.waiting :=
  catchUp_of_held_eq_none (s.held_release o d) _ _

theorem running_finish (s : Shard) (o : Outbox τ) (d : Draws) :
    (s.finish o d).2.1.running = o.running :=
  (running_catchUp _ _ _).trans ((Outbox.running_catchUp _).trans (s.running_release o d))

end Shard

/-- When the receivers catch up, a pipeline is alike. -/
theorem Pipeline.alike_catchUp [Transport τ] (p : Pipeline τ) : p.Alike p.catchUp :=
  (p.alike_atShards Shard.running_catchUp).trans (p.atShards Shard.catchUp).alike_catchUpOutbox

/-- When receivers are let go of, a pipeline is alike. -/
theorem Pipeline.alike_release [Transport τ] (p : Pipeline τ) : p.Alike p.release :=
  (p.alike_atShards Shard.running_finish).trans (p.atShards Shard.finish).alike_catchUpOutbox

namespace System

variable {s : System τ} {j : Nat}

/-- A shard, and what it shares with the others, after an operation. -/
def setShard (s : System τ) (j : Nat) (x : Shard × Outbox τ × Draws) : System τ :=
  s.setPipeline
    { s.client.pipeline with
      shards := s.client.pipeline.shards.set j x.1, outbox := x.2.1, draws := x.2.2 }

/-- Of two things put in the place of a shard, the last one stands. -/
@[simp]
theorem setShard_setShard (s : System τ) (j : Nat) (x y : Shard × Outbox τ × Draws) :
    (s.setShard j x).setShard j y = s.setShard j y := by
  simp [setShard, setPipeline]

theorem setShard_setOutbox (s : System τ) (j : Nat) (x : Shard × Outbox τ × Draws)
    (o : Outbox τ) : (s.setShard j x).setOutbox o = s.setShard j (x.1, o, x.2.2) :=
  rfl

def setReceiver (s : System τ) (j : Nat) (r : Receiver) : System τ :=
  { s with receivers := s.receivers.set j r }

/-- Of two receivers put in one place, the last one stands. -/
@[simp]
theorem setReceiver_setReceiver (s : System τ) (j : Nat) (before after : Receiver) :
    (s.setReceiver j before).setReceiver j after = s.setReceiver j after := by
  simp [setReceiver]

/-- Receivers and shards are put in their places independently of each other. -/
theorem setReceiver_setShard (s : System τ) (j : Nat) (r : Receiver)
    (x : Shard × Outbox τ × Draws) :
    (s.setReceiver j r).setShard j x = (s.setShard j x).setReceiver j r :=
  rfl

theorem getElem?_setReceiver {before : Receiver} (h : s.receivers[j]? = some before)
    (after : Receiver) : (s.setReceiver j after).receivers[j]? = some after :=
  List.getElem?_set_self (List.getElem?_eq_some_iff.mp h).1

/-- To put a shard back where it was, with the outbox and the draws there were, changes nothing. -/
theorem setShard_self {shard : Shard} (h : s.client.pipeline.shards[j]? = some shard) :
    s.setShard j (shard, s.client.pipeline.outbox, s.client.pipeline.draws) = s := by
  obtain ⟨hlt, rfl⟩ := List.getElem?_eq_some_iff.mp h
  simp [setShard, setPipeline]

theorem getElem?_setShard {shard : Shard} (h : s.client.pipeline.shards[j]? = some shard)
    (x : Shard × Outbox τ × Draws) :
    (s.setShard j x).client.pipeline.shards[j]? = some x.1 :=
  List.getElem?_set_self (List.getElem?_eq_some_iff.mp h).1

variable [Transport τ]

/-! ## Receivers -/

/-- A receiver works on its shard. -/
theorem leads_serve {r : Receiver} (hr : s.receivers[j]? = some r) (hserving : r.isServing = true)
    {shard : Shard} (hshard : s.client.pipeline.shards[j]? = some shard)
    {f : Shard → Outbox τ → Draws → Shard × Outbox τ × Draws} {m : Move}
    (hmove : s.step? m = s.serve? j f) :
    s.Leads (s.setShard j (f shard s.client.pipeline.outbox s.client.pipeline.draws)) := by
  refine leads_step (hmove.trans ?_)
  have hserves : s.receivers[j]?.any Receiver.isServing = true := by simp [hr, hserving]
  rw [serve?, if_pos hserves, Pipeline.atShard_of_getElem? hshard]
  rfl

/-- A receiver goes on from one state to another. -/
theorem leads_turn {before : Receiver} (after : Receiver) {f : Shard → Bool} {m : Move}
    (hr : s.receivers[j]? = some before) {shard : Shard}
    (hshard : s.client.pipeline.shards[j]? = some shard) (hmay : f shard = true)
    (hmove : s.step? m = s.turn? j before after f) :
    s.Leads (s.setReceiver j after) := by
  refine leads_step (hmove.trans (if_pos ⟨hr, ?_⟩))
  rw [hshard]
  exact hmay

/-- A receiver takes the next sample out of its channel and processes it. -/
theorem leads_receive {r : Receiver} (hr : s.receivers[j]? = some r) (hserving : r.isServing = true)
    {shard : Shard} (hshard : s.client.pipeline.shards[j]? = some shard)
    (hheld : shard.held = none) {sample : Sample} {rest : List Sample}
    (hwaiting : shard.waiting = sample :: rest) :
    s.Leads (s.setShard j (({ shard with waiting := rest } : Shard).process
      s.client.pipeline.outbox s.client.pipeline.draws sample)) := by
  let taken : Shard := { shard with waiting := rest, held := some sample }
  have htake : shard.take = taken := by rw [Shard.take, hheld, hwaiting]
  have hrelease (o : Outbox τ) (d : Draws) :
      taken.release o d = ({ shard with waiting := rest } : Shard).process o d sample := by
    simp only [Shard.release, taken, hheld]
  have htaken := leads_serve hr hserving hshard (f := fun shard o d => (shard.take, o, d))
    (m := .take j) rfl
  let x := (taken, s.client.pipeline.outbox, s.client.pipeline.draws)
  have hprocessed := leads_serve (s := s.setShard j x) hr hserving (getElem?_setShard hshard x)
    (f := Shard.release) (m := .process j) rfl
  rw [setShard_setShard, hrelease] at hprocessed
  rw [htake] at htaken
  exact htaken.trans hprocessed

/-- A receiver works off its channel, and the courier keeps up with it. -/
theorem leads_processAll {r : Receiver} (hr : s.receivers[j]? = some r)
    (hserving : r.isServing = true)
    (hcourier : s.client.pipeline.outbox.running = true → s.courier = .idle) {shard : Shard}
    (hshard : s.client.pipeline.shards[j]? = some shard) (hheld : shard.held = none) :
    s.Leads (s.setShard j (({ shard with waiting := [] } : Shard).processAll
      s.client.pipeline.outbox s.client.pipeline.draws shard.waiting)) := by
  generalize hwaiting : shard.waiting = samples
  induction samples generalizing s shard with
  | nil =>
    rw [Shard.processAll, ← hwaiting, setShard_self hshard]
    exact leads_refl s
  | cons sample rest ih =>
    have hreceived := leads_receive hr hserving hshard hheld hwaiting
    -- The receiver still has the rest before it, of which processing takes no notice.
    rw [Shard.process_waiting] at hreceived
    rw [Shard.processAll, Shard.process_waiting]
    rcases hx : shard.process s.client.pipeline.outbox s.client.pipeline.draws sample with
      ⟨later, o, d⟩
    rw [hx] at hreceived
    have hrunning : o.running = s.client.pipeline.outbox.running := by
      have := shard.running_process s.client.pipeline.outbox s.client.pipeline.draws sample
      rwa [hx] at this
    have hlater : later.held = none := by
      have := shard.held_process s.client.pipeline.outbox s.client.pipeline.draws sample
      rwa [hx, hheld] at this
    have hcaught := leads_settle (s := s.setShard j ({ later with waiting := rest }, o, d))
      (fun h => hcourier (hrunning.symm.trans h))
    rw [setShard_setOutbox] at hcaught
    have hrest := ih (s := s.setShard j ({ later with waiting := rest }, o.catchUp, d)) hr
      (fun h => hcourier (hrunning.symm.trans ((Outbox.running_catchUp o).symm.trans h)))
      (getElem?_setShard hshard _) hlater rfl
    rw [setShard_setShard] at hrest
    exact hreceived.trans (hcaught.trans hrest)

/-- A receiver that is told to stop works off its channel first. -/
theorem leads_finish (hr : s.receivers[j]? = some .listening)
    (hsignalled : s.phase.isSignalled = true)
    (hcourier : s.client.pipeline.outbox.running = true → s.courier = .idle) {shard : Shard}
    (hshard : s.client.pipeline.shards[j]? = some shard) :
    let x := shard.finish s.client.pipeline.outbox s.client.pipeline.draws
    s.Leads ((s.setShard j x).setReceiver j .gone) := by
  dsimp only
  -- The receiver finishes the sample in hand before it hears that it is to stop.
  have hreleased := leads_serve hr rfl hshard (f := Shard.release) (m := .process j) rfl
  have hheld := shard.held_release s.client.pipeline.outbox s.client.pipeline.draws
  have hrunning := shard.running_release s.client.pipeline.outbox s.client.pipeline.draws
  rw [Shard.finish_eq]
  generalize shard.release s.client.pipeline.outbox s.client.pipeline.draws = x at *
  obtain ⟨later, o, d⟩ := x
  have hcaught := leads_settle (s := s.setShard j (later, o, d))
    (fun h => hcourier (hrunning.symm.trans h))
  rw [setShard_setOutbox] at hcaught
  let x := (later, o.catchUp, d)
  have hclear := leads_turn (s := s.setShard j x) (m := .clear j) .clearing hr
    (getElem?_setShard hshard x) (f := fun shard => shard.held.isNone)
    (Option.isNone_iff_eq_none.mpr hheld) (if_pos hsignalled)
  have hworked := leads_processAll (s := (s.setShard j x).setReceiver j .clearing)
    (getElem?_setReceiver (s := s.setShard j x) hr .clearing) rfl
    (fun h => hcourier (hrunning.symm.trans ((Outbox.running_catchUp o).symm.trans h)))
    (getElem?_setShard hshard x) hheld
  rw [setReceiver_setShard, setShard_setShard] at hworked
  have hquiet := Shard.Quiet.processAll (s := { later with waiting := [] }) ⟨rfl, hheld⟩ o.catchUp
    d later.waiting
  let y := ({ later with waiting := [] } : Shard).processAll o.catchUp d later.waiting
  have hcleared := getElem?_setReceiver (s := s.setShard j y) hr .clearing
  have hleave := leads_turn (m := .leave j) .leaving hcleared
    (getElem?_setShard hshard y)
    (f := fun shard => shard.held.isNone && shard.waiting.isEmpty)
    (by simp [y, hquiet.1, hquiet.2]) rfl
  have hretire := leads_turn (m := .retire j) .gone (getElem?_setReceiver hcleared .leaving)
    (getElem?_setShard hshard y) (f := fun _ => true) rfl rfl
  simp only [setReceiver_setReceiver] at hleave hretire
  exact hreleased.trans (hcaught.trans (hclear.trans (hworked.trans (hleave.trans hretire))))

/-- Receivers work off their channels one after the other. -/
theorem leads_catchUpAll (hserved : Served s.client.pipeline s.receivers)
    (hcourier : s.client.pipeline.outbox.running = true → s.courier = .idle)
    (shards : List Nat) :
    s.Leads (s.setPipeline
      (shards.foldl (fun p j => p.atShard j Shard.catchUp) s.client.pipeline)) := by
  induction shards generalizing s with
  | nil => exact leads_refl s
  | cons j shards ih =>
    have hfirst : s.Leads (s.setPipeline (s.client.pipeline.atShard j Shard.catchUp)) := by
      cases hshard : s.client.pipeline.shards[j]? with
      | none =>
        rw [Pipeline.atShard_of_none hshard]
        exact leads_refl s
      | some shard =>
        rw [Pipeline.atShard_of_getElem? hshard]
        change s.Leads (s.setShard j
          (shard.catchUp s.client.pipeline.outbox s.client.pipeline.draws))
        -- A channel that nobody serves is empty.
        obtain hquiet | ⟨r, hr, hserving⟩ := hserved j shard hshard
        · rw [hquiet.catchUp_eq, setShard_self hshard]
          exact leads_refl s
        · cases hheld : shard.held with
          | none =>
            rw [Shard.catchUp_of_held_eq_none hheld]
            exact leads_processAll hr hserving hcourier hshard hheld
          | some sample =>
            rw [Shard.catchUp, hheld, Option.isSome_some, if_pos rfl, setShard_self hshard]
            exact leads_refl s
    have hkeeps := s.client.pipeline.keeps_atShard j (f := Shard.catchUp)
      fun _ o d h => h.catchUp o d
    have halike := s.client.pipeline.alike_atShard j Shard.running_catchUp
    exact hfirst.trans (ih (s := s.setPipeline _) (hserved.keeps hkeeps)
      (halike.of_running hcourier))

/-- The receivers and the courier catch up. -/
theorem leads_catchUp (hserved : Served s.client.pipeline s.receivers)
    (hcourier : s.client.pipeline.outbox.running = true → s.courier = .idle) :
    s.Leads (s.setPipeline s.client.pipeline.catchUp) := by
  have hcaught := leads_catchUpAll hserved hcourier (List.range s.client.pipeline.shards.length)
  rw [← Pipeline.atShards_eq_foldl] at hcaught
  refine hcaught.trans (leads_settle ?_)
  exact (s.client.pipeline.alike_atShards Shard.running_catchUp).of_running hcourier

/-- Receivers that are told to stop do so one after the other. -/
theorem leads_finishAll (first : List Receiver) {count : Nat}
    (hreceivers : s.receivers = first ++ List.replicate count .listening)
    (hlength : s.client.pipeline.shards.length = first.length + count)
    (hsignalled : s.phase.isSignalled = true)
    (hcourier : s.client.pipeline.outbox.running = true → s.courier = .idle) :
    s.Leads
      { s.setPipeline ((List.range' first.length count).foldl
          (fun p j => p.atShard j Shard.finish) s.client.pipeline) with
        receivers := first ++ List.replicate count .gone } := by
  induction count generalizing s first with
  | zero =>
    have hsame : first ++ List.replicate 0 .gone = s.receivers := by
      rw [hreceivers, List.replicate_zero, List.replicate_zero]
    rw [List.range'_zero, List.foldl_nil, hsame]
    exact leads_refl s
  | succ count ih =>
    have hr : s.receivers[first.length]? = some .listening := by
      simp [hreceivers, List.replicate_succ]
    have hshard := List.getElem?_eq_getElem
      (show first.length < s.client.pipeline.shards.length by omega)
    generalize s.client.pipeline.shards[first.length] = shard at hshard
    -- The first receiver that still listens finishes its shard; the rest follows by induction.
    let x := shard.finish s.client.pipeline.outbox s.client.pipeline.draws
    have hrunning : x.2.1.running = s.client.pipeline.outbox.running := shard.running_finish _ _
    have hrest := ih (s := (s.setShard first.length x).setReceiver first.length .gone)
      (first ++ [.gone])
      (by simp [setReceiver, setShard, setPipeline, hreceivers, List.replicate_succ])
      (by simp [setReceiver, setShard, setPipeline, hlength]; omega)
      hsignalled (fun h => hcourier (hrunning.symm.trans h))
    rw [List.length_append, List.length_singleton, List.append_assoc, List.singleton_append,
      ← List.replicate_succ] at hrest
    rw [List.range'_succ, List.foldl_cons, Pipeline.atShard_of_getElem? hshard]
    exact (leads_finish hr hsignalled hcourier hshard).trans hrest

/-- The receivers of a client that is being closed stop. -/
theorem leads_release
    (hreceivers : s.receivers = List.replicate s.client.pipeline.shards.length .listening)
    (hsignalled : s.phase.isSignalled = true)
    (hcourier : s.client.pipeline.outbox.running = true → s.courier = .idle) :
    s.Leads
      { s.setPipeline s.client.pipeline.release with
        receivers := List.replicate s.client.pipeline.shards.length .gone } := by
  have hfinished := leads_finishAll [] hreceivers (Nat.zero_add _).symm hsignalled
    hcourier
  rw [List.length_nil, ← List.range_eq_range', ← Pipeline.atShards_eq_foldl] at hfinished
  refine hfinished.trans (leads_settle ?_)
  exact (s.client.pipeline.alike_atShards Shard.running_finish).of_running hcourier

/-! ## Tickers -/

/-- Tickers that wait and are told to stop do so. -/
theorem leads_quit (first : List Ticker) {rest : List Ticker} (htickers : s.tickers = first ++ rest)
    (hfirst : ∀ t ∈ first, t.state = .gone) (hrest : ∀ t ∈ rest, t.state = .waiting)
    (hsignalled : s.phase.isSignalled = true) :
    ∃ tickers, s.Leads { s with tickers } ∧ ∀ t ∈ tickers, t.state = .gone := by
  induction rest generalizing s first with
  | nil =>
    rw [List.append_nil] at htickers
    exact ⟨s.tickers, leads_refl s, htickers ▸ hfirst⟩
  | cons t rest ih =>
    obtain ⟨plan, state⟩ := t
    obtain ⟨hwaiting, hlater⟩ := List.forall_mem_cons.mp hrest
    obtain rfl : state = .waiting := hwaiting
    have ht : s.tickers[first.length]? = some { plan, state := .waiting } := by simp [htickers]
    have hquit : s.step? (.quit first.length) =
        some (s.setTicker first.length { plan, state := .gone }) := by
      simp only [step?, ht, hsignalled]
    obtain ⟨tickers, hleads, hgone⟩ := ih
      (s := s.setTicker first.length { plan, state := .gone })
      (first ++ [{ plan, state := .gone }]) (by simp [setTicker, htickers])
      (by
        intro t ht
        obtain hmem | hmem := List.mem_append.mp ht
        · exact hfirst t hmem
        · rw [List.mem_singleton.mp hmem])
      hlater hsignalled
    exact ⟨tickers, (leads_step hquit).trans hleads, hgone⟩

end System

end DogStatsD
