import DogStatsD.Proofs.System.Neat

/-!
# Channels and Tables at Rest

Only callers put samples into channels and into the tables of the aggregator. A receiver stops
serving a channel when nothing waits there, and a flush in progress leaves empty what it has seen
to, provided that nobody interferes.

* `Pipeline.Keeps`: what a party does to a pipeline that puts nothing into channels;
* `System.Listening`, `System.Served`: receivers serve the channels in which samples may wait;
* `System.Sweep.Covers`: what a flush in progress has done so far;
* `System.Sweep.Covers.advance`: it goes on with what is left.
-/

namespace DogStatsD

variable {τ : Type} {limits : Limits}

/-! ## Channels -/

/-- Nothing waits for the receiver of a shard, and it has nothing in hand. -/
def Shard.Quiet (s : Shard) : Prop :=
  s.waiting = [] ∧ s.held = none

theorem Shard.Quiet.take {s : Shard} (h : s.Quiet) : s.take.Quiet := by
  obtain ⟨hwaiting, hheld⟩ := h
  unfold Shard.take
  rw [hwaiting, hheld]
  exact ⟨hwaiting, hheld⟩

/-- A sample that is processed at once does not wait. -/
theorem Shard.Quiet.process {s : Shard} (h : s.Quiet) (o : Outbox τ) (d : Draws)
    (sample : Sample) : (s.process o d sample).1.Quiet := by
  obtain ⟨d', hskip | hadd⟩ := s.process_cases o d sample
  · rw [hskip]
    exact h
  · rw [hadd]
    exact h

theorem Shard.Quiet.release {s : Shard} (h : s.Quiet) (o : Outbox τ) (d : Draws) :
    (s.release o d).1.Quiet := by
  unfold Shard.release
  rw [h.2]
  exact h

namespace Pipeline

/-- The way into the shards is the same, and where nothing waited nothing waits. -/
structure Keeps (p later : Pipeline τ) : Prop where
  intake_eq : later.intake = p.intake
  length_eq : later.shards.length = p.shards.length
  quiet : ∀ (i : Nat) (t : Shard), later.shards[i]? = some t →
    ∃ s : Shard, p.shards[i]? = some s ∧ (s.Quiet → t.Quiet)

variable {p later : Pipeline τ}

/-- What does not concern the shards keeps their channels. -/
theorem keeps_of_shards_eq (hintake : later.intake = p.intake) (hshards : later.shards = p.shards) :
    p.Keeps later :=
  ⟨hintake, congrArg List.length hshards, fun _ t ht => ⟨t, hshards ▸ ht, id⟩⟩

/-- An operation that lets nothing wait at a shard keeps channels and receivers. -/
theorem keeps_atShard (p : Pipeline τ) (i : Nat)
    {f : Shard → Outbox τ → Draws → Shard × Outbox τ × Draws}
    (hf : ∀ s o d, s.Quiet → (f s o d).1.Quiet) : p.Keeps (p.atShard i f) := by
  refine ⟨intake_atShard, length_atShard, ?_⟩
  intro j t ht
  obtain ⟨-, s, hs, rfl⟩ | ⟨-, hs⟩ := getElem?_atShard ht
  · exact ⟨s, hs, hf s p.outbox p.draws⟩
  · exact ⟨t, hs, id⟩

theorem keeps_put (p : Pipeline τ) (e : Entry) : p.Keeps (p.put e) :=
  p.keeps_atShard _ fun _ _ _ h => h

theorem keeps_handOverAt (p : Pipeline τ) (i : Nat) : p.Keeps (p.handOverAt i) :=
  p.keeps_atShard i fun _ _ _ h => h

end Pipeline

namespace System

/-- Shards in whose channels something waits have receivers. -/
def Served (p : Pipeline τ) (receivers : List Receiver) : Prop :=
  ∀ (i : Nat) (s : Shard), p.shards[i]? = some s →
    s.Quiet ∨ ∃ r : Receiver, receivers[i]? = some r ∧ r.isServing = true

/-- Receivers listen to their channels. -/
def Listening (p : Pipeline τ) (receivers : List Receiver) : Prop :=
  ∀ settings, p.intake = .channels settings →
    ∀ i < p.shards.length, receivers[i]? = some .listening

section Receivers

variable {p later : Pipeline τ} {receivers : List Receiver}

/-- Receivers go on listening if the pipeline keeps its channels. -/
theorem Listening.keeps (h : Listening p receivers) (hkeeps : p.Keeps later) :
    Listening later receivers :=
  fun settings hintake i hi =>
    h settings (hkeeps.intake_eq.symm.trans hintake) i (hkeeps.length_eq ▸ hi)

/-- Shards in which something waits go on having receivers if the pipeline keeps its channels. -/
theorem Served.keeps (h : Served p receivers) (hkeeps : p.Keeps later) :
    Served later receivers := by
  intro i t ht
  obtain ⟨s, hs, hquiet⟩ := hkeeps.quiet i t ht
  exact (h i s hs).imp_left hquiet

/-- A receiver stops serving only a shard in whose channel nothing waits. -/
theorem Served.turn (h : Served p receivers) {i : Nat} {after : Receiver}
    (hafter : after.isServing = true ∨ ∀ s, p.shards[i]? = some s → s.Quiet) :
    Served p (receivers.set i after) := by
  intro j s hs
  obtain hquiet | ⟨r, hr, hserving⟩ := h j s hs
  · exact .inl hquiet
  by_cases hij : i = j
  · subst hij
    obtain hserves | hquiet := hafter
    · have hlt := (List.getElem?_eq_some_iff.mp hr).1
      exact .inr ⟨after, List.getElem?_set_self hlt, hserves⟩
    · exact .inl (hquiet s hs)
  · exact .inr ⟨r, by rwa [List.getElem?_set_ne hij], hserving⟩

/-- A sample may be put into a channel whose receiver listens. -/
theorem Served.enqueue (h : Served p receivers) {i : Nat} {s : Shard} {sample : Sample}
    (hlistens : receivers[i]? = some .listening) :
    Served { p with shards := p.shards.set i (s.enqueue sample) } receivers := by
  intro j t ht
  obtain ⟨rfl, -⟩ | ⟨-, hold⟩ := getElem?_set_cases ht
  · exact .inr ⟨.listening, hlistens, rfl⟩
  · exact h j t hold

end Receivers

/-- At first, every shard has a receiver. -/
theorem listening_start (c : Client τ) (callers : Nat) :
    Listening (start c callers).client.pipeline (start c callers).receivers := by
  intro settings hintake i hi
  have hreceivers : (start c callers).receivers =
      List.replicate c.pipeline.shards.length .listening := by
    simp only [start, show c.pipeline.intake = .channels settings from hintake]
  rw [hreceivers, List.getElem?_replicate]
  exact if_pos hi

end System

/-! ## Flushes in progress -/

/-- The table of a kind holds nothing. -/
def Aggregator.EmptyAt (a : Aggregator) : Kind → Prop
  | .count => a.counts = {}
  | .gauge => a.gauges = {}
  | .set => a.sets = {}
  | .histogram => a.histograms = {}
  | .distribution => a.distributions = {}
  | .timing => a.timings = {}

/-- Draining a kind empties its table and leaves the others alone. -/
theorem Aggregator.emptyAt_drain (a : Aggregator) (kind other : Kind) :
    (a.drain kind).2.EmptyAt other ↔ other = kind ∨ a.EmptyAt other := by
  cases kind <;> cases other <;>
    simp [drain, drainCounts, drainGauges, drainSets, drainHistograms, drainDistributions,
      drainTimings, EmptyAt]

/-- A flush drains every kind. -/
theorem Aggregator.mem_drainOrder (kind : Kind) : kind ∈ drainOrder := by
  cases kind <;> simp [drainOrder]

namespace System

/-- What a flush in progress has done: the kinds that it is done with are empty, and so are the
payloads of the shards that it is done with, which it begins with last. -/
structure Sweep.Covers (w : Sweep) (c : Client τ) : Prop where
  tables : ∀ a, c.aggregator = some a → ∀ kind, kind ∉ w.kinds → a.EmptyAt kind
  payloads : ∀ (i : Nat) (s : Shard), c.pipeline.shards[i]? = some s → i ∉ w.shards →
    s.packer.current.lines = 0
  shards_last : (w.kinds = [] ∧ w.entries = []) ∨ ∀ i < c.pipeline.shards.length, i ∈ w.shards

/-- A flush that has just begun has everything before it. -/
theorem Sweep.covers_whole (c : Client τ) : (Sweep.whole c).Covers c where
  tables a ha kind hkind := by
    refine absurd ?_ hkind
    simp [whole, ofAggregator, ha, Aggregator.mem_drainOrder]
  payloads i s hs hi := by
    refine absurd ?_ hi
    simp [whole, ofShards, (List.getElem?_eq_some_iff.mp hs).1]
  shards_last := .inr fun i hi => by simp [whole, ofShards, hi]

/-- Only tables and payloads matter. -/
theorem Sweep.Covers.of_eq {w : Sweep} {c later : Client τ} (h : w.Covers c)
    (haggregator : later.aggregator = c.aggregator)
    (hshards : later.pipeline.shards = c.pipeline.shards) : w.Covers later where
  tables a ha := h.tables a (haggregator ▸ ha)
  payloads i s hs := h.payloads i s (hshards ▸ hs)
  shards_last := hshards ▸ h.shards_last

/-- A flush that is done has nothing left. -/
theorem Sweep.eq_nil_of_isDone {w : Sweep} (h : w.isDone = true) : w = {} := by
  obtain ⟨kinds, entries, shards⟩ := w
  simpa [isDone, and_assoc] using h

/-- No part of a flush closes a client. -/
theorem closed_advance (c : Client τ) (w : Sweep) : (w.advance c).2.closed = c.closed := by
  unfold Sweep.advance
  split
  · split <;> rfl
  · rfl
  · rfl
  · rfl

/-- No part of a flush lets anything wait that did not wait before. -/
theorem keeps_advance (c : Client τ) (w : Sweep) :
    c.pipeline.Keeps (w.advance c).2.pipeline := by
  unfold Sweep.advance
  split
  · split <;> exact Pipeline.keeps_of_shards_eq rfl rfl
  · exact c.pipeline.keeps_put _
  · exact c.pipeline.keeps_handOverAt _
  · exact Pipeline.keeps_of_shards_eq rfl rfl

/-- A flush in progress goes on: what it is done with stays empty. -/
theorem Sweep.Covers.advance {c : Client τ} {w : Sweep} (h : w.Covers c)
    (hneat : c.pipeline.Neat limits) : (w.advance c).1.Covers (w.advance c).2 := by
  unfold Sweep.advance
  split
  next kind kinds entries shards =>
    have hlast : ∀ i < c.pipeline.shards.length, i ∈ shards := by
      simpa using h.shards_last
    cases haggregator : c.aggregator with
    | none =>
      refine ⟨fun a ha => ?_, h.payloads, .inr hlast⟩
      rw [haggregator] at ha
      cases ha
    | some a =>
      refine ⟨?_, h.payloads, .inr hlast⟩
      rintro _ ⟨⟩ other hother
      refine (a.emptyAt_drain kind other).mpr ?_
      by_cases hkind : other = kind
      · exact .inl hkind
      · exact .inr (h.tables a haggregator other (by simp [hkind, hother]))
  next entry entries shards =>
    -- The entry may go to any shard, but all of them are still to be handed over.
    have hlast : ∀ i < c.pipeline.shards.length, i ∈ shards := by
      simpa using h.shards_last
    have hlength := (c.pipeline.keeps_put entry).length_eq
    refine ⟨h.tables, ?_, .inr fun i hi => hlast i (hlength ▸ hi)⟩
    intro i t ht hi
    exact absurd (hlast i (hlength ▸ (List.getElem?_eq_some_iff.mp ht).1)) hi
  next shard shards =>
    refine ⟨h.tables, ?_, .inl ⟨rfl, rfl⟩⟩
    intro i t ht hi
    obtain ⟨-, s, hs, rfl⟩ | ⟨hne, hs⟩ := Pipeline.getElem?_atShard ht
    · have hpacker := hneat.packers s (List.mem_of_getElem? hs)
      exact (hpacker.handOver hneat.clean).2.1
    · exact h.payloads i t hs (by simp [Ne.symm hne, hi])
  · exact h

end System

end DogStatsD
