import DogStatsD.Proofs.Outbox.Drain
import DogStatsD.Proofs.System.Neat

/-!
# Flushes in One Go

Working off a queue and flushing take a party many steps. If nobody else interferes, and the courier
keeps up with the party, the steps come to what an outbox and a client do in one go.

* `Pipeline.Alike`: what flushes and samples never change about a pipeline;
* `System.Leads`: some steps lead from one state to another;
* `System.leads_settle`, `System.leads_workOff`: the courier or a caller works off the queue;
* `System.Course.Goes.whole`: a caller flushes the aggregator and hands over all shards.
-/

namespace DogStatsD

variable {τ : Type}

/-! ## The shape of a pipeline -/

/-- Processing a sample does not stop the thread of the outbox. -/
theorem Shard.running_process (s : Shard) (o : Outbox τ) (d : Draws) (sample : Sample) :
    (s.process o d sample).2.1.running = o.running := by
  obtain ⟨d', hskip | hadd⟩ := s.process_cases o d sample
  · rw [hskip]
  · rw [hadd]
    exact s.packer.running_add o _

namespace Pipeline

/-- Samples come in the same way to as many shards, and the thread of the outbox runs or not as it
did. -/
structure Alike (p later : Pipeline τ) : Prop where
  intake_eq : later.intake = p.intake
  length_eq : later.shards.length = p.shards.length
  running_eq : later.outbox.running = p.outbox.running

variable {p later last : Pipeline τ}

theorem Alike.refl (p : Pipeline τ) : p.Alike p :=
  ⟨rfl, rfl, rfl⟩

theorem Alike.trans (h : p.Alike later) (hlast : later.Alike last) : p.Alike last :=
  ⟨hlast.intake_eq.trans h.intake_eq, hlast.length_eq.trans h.length_eq,
    hlast.running_eq.trans h.running_eq⟩

/-- What is so while the thread of the outbox runs is so later as well. -/
theorem Alike.of_running (h : p.Alike later) {q : Prop} (hq : p.outbox.running = true → q) :
    later.outbox.running = true → q :=
  fun hrunning => hq (h.running_eq.symm.trans hrunning)

/-- If each of some operations leaves a pipeline alike, so do all of them together. -/
theorem alike_foldl {α : Type} {f : Pipeline τ → α → Pipeline τ}
    (hf : ∀ (p : Pipeline τ) (a : α), p.Alike (f p a)) (l : List α) (p : Pipeline τ) :
    p.Alike (l.foldl f p) := by
  induction l generalizing p with
  | nil => exact .refl p
  | cons a l ih => exact (hf p a).trans (ih (f p a))

/-- An operation on one shard that does not stop the thread leaves a pipeline alike. -/
theorem alike_atShard (p : Pipeline τ) (i : Nat)
    {f : Shard → Outbox τ → Draws → Shard × Outbox τ × Draws}
    (hf : ∀ s o d, (f s o d).2.1.running = o.running) : p.Alike (p.atShard i f) := by
  refine ⟨intake_atShard, length_atShard, ?_⟩
  cases hs : p.shards[i]? with
  | none => rw [atShard_of_none hs]
  | some s =>
    rw [atShard_of_getElem? hs]
    exact hf s p.outbox p.draws

/-- An operation on all shards that does not stop the thread leaves a pipeline alike. -/
theorem alike_atShards (p : Pipeline τ)
    {f : Shard → Outbox τ → Draws → Shard × Outbox τ × Draws}
    (hf : ∀ s o d, (f s o d).2.1.running = o.running) : p.Alike (p.atShards f) := by
  rw [atShards_eq_foldl]
  exact alike_foldl (fun p i => p.alike_atShard i hf) _ p

theorem alike_put (p : Pipeline τ) (e : Entry) : p.Alike (p.put e) :=
  p.alike_atShard _ fun s o _ => s.packer.running_add o e

theorem alike_handOverAt (p : Pipeline τ) (i : Nat) : p.Alike (p.handOverAt i) :=
  p.alike_atShard i fun s o _ => s.packer.running_handOver o

/-- To dispatch a sample leaves intake, number of shards and thread as they are. -/
theorem alike_dispatch (p : Pipeline τ) (sample : Sample) : p.Alike (p.dispatch sample).2 := by
  cases hintake : p.intake with
  | direct =>
    rw [dispatch_of_direct hintake]
    exact p.alike_atShard _ fun s o d => s.running_process o d sample
  | stopped =>
    rw [dispatch_of_stopped hintake]
    exact .refl p
  | channels settings =>
    rw [dispatch_of_channels hintake, enqueue]
    split
    · exact .refl p
    · split
      · exact ⟨rfl, List.length_set, rfl⟩
      · exact ⟨rfl, rfl, rfl⟩

variable [Transport τ]

theorem alike_catchUpOutbox (p : Pipeline τ) : p.Alike { p with outbox := p.outbox.catchUp } :=
  ⟨rfl, rfl, Outbox.running_catchUp p.outbox⟩

theorem alike_putAll (p : Pipeline τ) (entries : List Entry) : p.Alike (p.putAll entries) :=
  alike_foldl (fun p e => (p.alike_put e).trans (p.put e).alike_catchUpOutbox) entries p

/-- Handing over all shards is handing over one after the other, while the thread of the outbox
keeps up. -/
theorem handOver_eq_foldl (p : Pipeline τ) :
    p.handOver = (List.range p.shards.length).foldl
      (fun p i => { p.handOverAt i with outbox := (p.handOverAt i).outbox.catchUp }) p := by
  refine (p.atShards_eq_foldl _).trans ?_
  have hrange : ∀ i ∈ List.range p.shards.length, i < p.shards.length :=
    fun i hi => List.mem_range.mp hi
  generalize List.range p.shards.length = shards at hrange
  induction shards generalizing p with
  | nil => rfl
  | cons i shards ih =>
    obtain ⟨hi, hshards⟩ := List.forall_mem_cons.mp hrange
    have hs := List.getElem?_eq_getElem hi
    rw [List.foldl_cons, List.foldl_cons, handOverAt, atShard_of_getElem? hs,
      atShard_of_getElem? hs]
    exact ih _ (by simpa using hshards)

/-- So does handing over the payloads of all shards. -/
theorem alike_handOver (p : Pipeline τ) : p.Alike p.handOver :=
  p.alike_atShards fun s o _ => (Outbox.running_catchUp _).trans (s.packer.running_handOver o)

end Pipeline

/-- Writing what comes out of the aggregator leaves a pipeline alike. -/
theorem Client.alike_flushAggregator [Transport τ] (c : Client τ) :
    c.pipeline.Alike c.flushAggregator.pipeline := by
  unfold flushAggregator
  split
  · exact .refl _
  · exact c.pipeline.alike_putAll _

/-- A flush leaves a pipeline alike: nothing is closed by it. -/
theorem Client.alike_flush [Transport τ] (c : Client τ) : c.pipeline.Alike c.flush.2.pipeline := by
  unfold flush
  split
  · exact .refl _
  · have hover := c.alike_flushAggregator.trans c.flushAggregator.pipeline.alike_handOver
    refine hover.trans ⟨rfl, rfl, ?_⟩
    simp only [Pipeline.flush, Outbox.flush_eq_drain, Outbox.running_drain]

namespace System

variable {s s' last : System τ} {i : Nat}

/-- There is no barrier if nothing is in the queue and the courier has nothing in hand. -/
theorem hasBarrier_eq_false (hcourier : s.courier = .idle)
    (hqueue : s.client.pipeline.outbox.queue = []) : s.hasBarrier i = false := by
  simp [hasBarrier, hcourier, hqueue]

variable [Transport τ]

/-- Some steps lead from one state to another. -/
def Leads (s s' : System τ) : Prop :=
  ∃ moves, s.run? moves = some s'

theorem leads_refl (s : System τ) : s.Leads s :=
  ⟨[], rfl⟩

/-- What one state leads to, and what that leads to, the first one leads to. -/
theorem Leads.trans (h : s.Leads s') (hlast : s'.Leads last) : s.Leads last := by
  obtain ⟨moves, hmoves⟩ := h
  obtain ⟨more, hmore⟩ := hlast
  refine ⟨moves ++ more, ?_⟩
  rw [run?, List.foldlM_append]
  exact Option.bind_eq_some_iff.mpr ⟨s', hmoves, hmore⟩

/-- A step leads to the state after it. -/
theorem leads_step {m : Move} (h : s.step? m = some s') : s.Leads s' :=
  ⟨[m], by simp [run?, h]⟩

/-! ## The queue -/

/-- Whoever carries out one command after the other works off the queue. -/
theorem leads_drain
    (hstep : ∀ (o : Outbox τ) (command : Command) (rest : List Command),
      o.queue = command :: rest →
        (s.setOutbox o).Leads (s.setOutbox (({ o with queue := rest } : Outbox τ).perform command)))
    (o : Outbox τ) : (s.setOutbox o).Leads (s.setOutbox o.drain) := by
  generalize hqueue : o.queue = commands
  induction commands generalizing o with
  | nil =>
    rw [Outbox.drain_of_queue_eq_nil hqueue]
    exact leads_refl _
  | cons command rest ih =>
    rw [Outbox.drain_of_queue_eq_cons hqueue]
    exact (hstep o command rest hqueue).trans (ih _ (Outbox.queue_perform _ command))

/-- The courier works off the queue. -/
theorem leads_drain_of_courier (hcourier : s.courier = .idle) (o : Outbox τ) :
    (s.setOutbox o).Leads (s.setOutbox o.drain) := by
  refine leads_drain (fun o command rest hqueue => ?_) o
  have hfetch : (s.setOutbox o).step? .fetch = some
      { s.setOutbox { o with queue := rest } with courier := .holding command } := by
    have hidle : (s.setOutbox o).courier = .idle := hcourier
    have hnext : (s.setOutbox o).client.pipeline.outbox.queue = command :: rest := hqueue
    simp only [step?, hidle, hnext]
    rfl
  have hcarry : step? { s.setOutbox { o with queue := rest } with courier := .holding command }
      .carry = some (s.setOutbox (({ o with queue := rest } : Outbox τ).perform command)) := by
    simp [step?, setOutbox, setPipeline, hcourier]
  exact (leads_step hfetch).trans (leads_step hcarry)

/-- The courier, if there is one, keeps up with what is put into the queue. -/
theorem leads_settle (hcourier : s.client.pipeline.outbox.running = true → s.courier = .idle) :
    s.Leads (s.setOutbox s.client.pipeline.outbox.catchUp) := by
  cases hrunning : s.client.pipeline.outbox.running with
  | true =>
    rw [Outbox.catchUp_of_running hrunning]
    exact leads_drain_of_courier (hcourier hrunning) _
  | false =>
    rw [Outbox.catchUp, hrunning]
    exact leads_refl s

/-- A caller works off the queue itself. -/
theorem leads_workOff {m : Move}
    (hmove : ∀ (o : Outbox τ) (command : Command) (later : Outbox τ),
      o.step? = some (command, later) → (s.setOutbox o).step? m = some (s.setOutbox later))
    (o : Outbox τ) : (s.setOutbox o).Leads (s.setOutbox o.drain) :=
  leads_drain
    (fun o command _ hqueue =>
      leads_step (hmove o command _ (Outbox.step?_of_queue_eq_cons hqueue))) o

/-- A barrier in an empty queue changes nothing once the courier has taken it out. -/
theorem leads_raise (hcourier : s.courier = .idle) {o : Outbox τ} (hqueue : o.queue = [])
    (caller : Nat) : (s.setOutbox (o.raise caller)).Leads (s.setOutbox o) := by
  have hdrain := leads_drain_of_courier hcourier (o.raise caller)
  rw [Outbox.drain_raise hqueue] at hdrain
  exact hdrain

/-- The courier works off the queue, then a caller raises its barrier there, and the courier takes
it out. -/
theorem leads_barrier {t : System τ} (hs : s.courier = .idle) (ht : t.courier = .idle)
    {o : Outbox τ} {m : Move}
    (hraise : (s.setOutbox o.drain).step? m = some (t.setOutbox (o.drain.raise i))) :
    (s.setOutbox o).Leads (t.setOutbox o.drain) :=
  (leads_drain_of_courier hs o).trans
    ((leads_step hraise).trans (leads_raise ht (Outbox.queue_drain o) i))

/-! ## Flushes -/

/-- Where callers and phase stand in the course of a flush that a caller makes. -/
structure Course where
  caller : Nat
  callers : Sweep → List Caller
  phase : Sweep → Phase

/-- The state at some point of a flush. -/
def Course.state (k : Course) (s : System τ) (c : Client τ) (drainer : Option Party) (w : Sweep) :
    System τ :=
  { s with client := c, callers := k.callers w, phase := k.phase w, drainer }

/-- As long as something is left to do, the caller goes on with it. -/
def Course.Goes (k : Course) (s : System τ) : Prop :=
  ∀ c drainer w, w.isDone = false → (k.state s c drainer w).step? (.proceed k.caller) =
    ((k.state s c drainer w).advance? (.caller k.caller) w).map fun (later, t) =>
      { t with callers := k.callers later, phase := k.phase later }

namespace Course

variable {k : Course} {c : Client τ}

/-- A call that flushes leads to the state after the next part of its flush, if nobody else drains.
-/
theorem Goes.advance (h : k.Goes s) {d : Option Party} {w : Sweep} (hdone : w.isDone = false)
    (hd : w.kinds = [] ∨ d = none ∨ d = some (.caller k.caller)) :
    (k.state s c d w).Leads
      (k.state s (w.advance c).2 (drainerAfter (.caller k.caller) w (w.advance c).1 d)
        (w.advance c).1) := by
  refine leads_step (m := .proceed k.caller) ?_
  have hmay : (w.kinds.isEmpty || d.all (· == .caller k.caller)) = true := by
    obtain hkinds | rfl | rfl := hd
    · simp [hkinds]
    · simp
    · simp
  rw [h c d w hdone, advance?]
  simp only [state, hmay, if_true]
  rfl

/-- The caller takes the entries out of the aggregator. -/
theorem Goes.drainAll (h : k.Goes s) {a : Aggregator} (ha : c.aggregator = some a)
    (kinds : List Kind) (entries : List Entry) (shards : List Nat) {d : Option Party}
    (hd : d = none ∨ d = some (.caller k.caller) ∧ kinds ≠ []) :
    (k.state s c d { kinds, entries, shards }).Leads
      (k.state s { c with aggregator := some (a.drainAll kinds).2 } none
        { entries := entries ++ (a.drainAll kinds).1, shards }) := by
  induction kinds generalizing c a entries d with
  | nil =>
    obtain rfl | ⟨-, hnot⟩ := hd
    · have hsame : { c with aggregator := some a } = c := by rw [← ha]
      rw [Aggregator.drainAll, List.append_nil, hsame]
      exact leads_refl _
    · exact absurd rfl hnot
  | cons kind kinds ih =>
    have hfirst := h.advance (c := c) (d := d)
      (w := { kinds := kind :: kinds, entries, shards }) rfl (.inr (hd.imp_right And.left))
    simp only [Sweep.advance, ha] at hfirst
    refine hfirst.trans ?_
    have hrest := ih (c := { c with aggregator := some (a.drain kind).2 }) rfl
      (entries ++ (a.drain kind).1)
      (d := drainerAfter (.caller k.caller) { kinds := kind :: kinds, entries, shards }
        { kinds, entries := entries ++ (a.drain kind).1, shards } d) (by
          cases kinds <;> simp [drainerAfter])
    rw [List.append_assoc] at hrest
    exact hrest

/-- The courier keeps up with the caller. -/
theorem leads_catchUp (hcourier : c.pipeline.outbox.running = true → s.courier = .idle)
    (drainer : Option Party) (w : Sweep) :
    (k.state s c drainer w).Leads
      (k.state s
        { c with pipeline := { c.pipeline with outbox := c.pipeline.outbox.catchUp } } drainer
        w) :=
  leads_settle (s := k.state s c drainer w) hcourier

/-- The caller writes the entries that it has taken out. -/
theorem Goes.putAll (h : k.Goes s)
    (hcourier : c.pipeline.outbox.running = true → s.courier = .idle) (entries : List Entry)
    (shards : List Nat) :
    (k.state s c none { entries, shards }).Leads
      (k.state s { c with pipeline := c.pipeline.putAll entries } none { shards }) := by
  induction entries generalizing c with
  | nil => exact leads_refl _
  | cons e entries ih =>
    have hfirst := h.advance (c := c) (d := none) (w := { entries := e :: entries, shards })
      rfl (.inl rfl)
    have hput := (c.pipeline.alike_put e).of_running hcourier
    have hcaught := leads_catchUp (k := k) (c := { c with pipeline := c.pipeline.put e }) hput none
      { entries, shards }
    refine hfirst.trans (hcaught.trans ?_)
    exact ih (c := { c with pipeline :=
        { c.pipeline.put e with outbox := (c.pipeline.put e).outbox.catchUp } })
      ((c.pipeline.put e).alike_catchUpOutbox.of_running hput)

/-- The caller hands over the shards that are left. -/
theorem Goes.handOverAll (h : k.Goes s)
    (hcourier : c.pipeline.outbox.running = true → s.courier = .idle) (shards : List Nat) :
    (k.state s c none { shards }).Leads
      (k.state s
        { c with
          pipeline := shards.foldl
            (fun p i => { p.handOverAt i with outbox := (p.handOverAt i).outbox.catchUp })
            c.pipeline }
        none {}) := by
  induction shards generalizing c with
  | nil => exact leads_refl _
  | cons i shards ih =>
    have hfirst := h.advance (c := c) (d := none) (w := { shards := i :: shards }) rfl
      (.inl rfl)
    have hover := (c.pipeline.alike_handOverAt i).of_running hcourier
    have hcaught := leads_catchUp (k := k) (c := { c with pipeline := c.pipeline.handOverAt i })
      hover none { shards }
    refine hfirst.trans (hcaught.trans ?_)
    exact ih (c := { c with pipeline :=
        { c.pipeline.handOverAt i with outbox := (c.pipeline.handOverAt i).outbox.catchUp } })
      ((c.pipeline.handOverAt i).alike_catchUpOutbox.of_running hover)

/-- The caller does the whole of a flush. -/
theorem Goes.whole (h : k.Goes s)
    (hcourier : c.pipeline.outbox.running = true → s.courier = .idle) :
    (k.state s c none (.whole c)).Leads
      (k.state s
        { c.flushAggregator with pipeline := c.flushAggregator.pipeline.handOver } none {}) := by
  rw [Pipeline.handOver_eq_foldl]
  -- Without tables, only the shards are left to hand over.
  cases ha : c.aggregator with
  | none =>
    have hsame : c.flushAggregator = c := by
      unfold Client.flushAggregator
      rw [ha]
    have hwhole : Sweep.whole c = { shards := List.range c.pipeline.shards.length } := by
      simp [Sweep.whole, Sweep.ofAggregator, Sweep.ofShards, ha]
    rw [hsame, hwhole]
    exact h.handOverAll hcourier _
  | some a =>
    have hflush : c.flushAggregator =
        { c with
          aggregator := some a.flush.2, pipeline := c.pipeline.putAll a.flush.1 } := by
      unfold Client.flushAggregator
      rw [ha]
    have hwhole : Sweep.whole c =
        { kinds := Aggregator.drainOrder, shards := List.range c.pipeline.shards.length } := by
      simp [Sweep.whole, Sweep.ofAggregator, Sweep.ofShards, ha]
    have halike := c.pipeline.alike_putAll a.flush.1
    rw [hflush, hwhole, halike.length_eq]
    -- The tables are drained kind by kind, their entries put one by one, and the shards handed
    -- over.
    have hdrained := h.drainAll (c := c) ha Aggregator.drainOrder []
      (List.range c.pipeline.shards.length) (.inl rfl)
    have hput := h.putAll (c := { c with aggregator := some a.flush.2 }) hcourier a.flush.1
      (List.range c.pipeline.shards.length)
    have hover := h.handOverAll
      (c := { c with aggregator := some a.flush.2, pipeline := c.pipeline.putAll a.flush.1 })
      (halike.of_running hcourier) (List.range c.pipeline.shards.length)
    exact hdrained.trans (hput.trans hover)

end Course

end System

end DogStatsD
