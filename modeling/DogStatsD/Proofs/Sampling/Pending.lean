import DogStatsD.Proofs.Sampling.Effects
import Mathlib.Data.List.Perm.Subperm

/-!
# Samples That Nothing Was Decided About Yet

A sample that was accepted is merged at once, or it is in the hands of a caller and then perhaps in
a channel, until a shard processes it or it is turned away. Nothing is decided about it on the way,
and it is gone from there when something is.

* `System.Effect.pending`: what a step decides about was pending, or is accepted in the same step;
* `System.Effect.draws_eq`: nothing is drawn in a step that decides about nothing;
* `System.trace`: the steps of a run;
* `System.pending_trace`: each sample that was accepted is decided about once at most.
-/

namespace DogStatsD

variable {τ : Type}

/-! ## Channels -/

namespace Pipeline

variable {p : Pipeline τ} {f : Shard → Outbox τ → Draws → Shard × Outbox τ × Draws}

/-- What leaves the channel of a shard alone leaves all channels alone. -/
theorem inboxes_atShard (hf : ∀ s o d, (f s o d).1.inbox = s.inbox) (i : Nat) :
    (p.atShard i f).shards.flatMap Shard.inbox = p.shards.flatMap Shard.inbox := by
  cases hs : p.shards[i]? with
  | none => rw [atShard_of_none hs]
  | some s =>
    rw [atShard_of_getElem? hs]
    exact flatMap_set_eq hs (hf _ _ _)

theorem draws_atShard (hf : ∀ s o d, (f s o d).2.2 = d) (i : Nat) :
    (p.atShard i f).draws = p.draws := by
  unfold atShard
  split
  · rfl
  · exact hf _ _ _

theorem processes?_of_direct (h : p.intake = .direct) (sample : Sample) :
    p.processes? sample = some sample := by
  rw [processes?, h]

theorem processes?_of_ne_direct (h : p.intake ≠ .direct) (sample : Sample) :
    p.processes? sample = none := by
  unfold processes?
  split
  · contradiction
  · rfl
  · rfl

/-- What a shard releases, it held. -/
theorem inboxes_release (p : Pipeline τ) (i : Nat) :
    List.Perm ((p.shards[i]?.bind Shard.held).toList ++
        (p.atShard i Shard.release).shards.flatMap Shard.inbox)
      (p.shards.flatMap Shard.inbox) := by
  cases hs : p.shards[i]? with
  | none =>
    rw [atShard_of_none hs]
    exact .refl _
  | some s =>
    rw [atShard_of_getElem? hs, Option.bind_some]
    cases hheld : s.held with
    | none =>
      have hsame : (s.release p.outbox p.draws).1 = s := by rw [Shard.release, hheld]
      rw [hsame, flatMap_set_eq hs rfl]
      exact .refl _
    | some sample =>
      have hgone : [sample] ++ (s.release p.outbox p.draws).1.inbox = s.inbox ++ [] := by
        rw [Shard.inbox_release hheld, Shard.inbox, hheld]
        simp
      have hchannels := flatMap_set_perm hs hgone
      rw [List.append_nil] at hchannels
      exact hchannels

end Pipeline

namespace System

variable {s s' : System τ} {move : Move}

/-- A channel whose receiver is gone turns samples away. -/
theorem dispatch_eq_or (s : System τ) (sample : Sample) :
    s.dispatch sample = s.client.pipeline.dispatch sample ∨
      s.client.pipeline.intake ≠ .direct ∧
        s.dispatch sample = (.error .closed, s.client.pipeline) := by
  unfold dispatch
  dsimp only
  split
  next hintake _ => exact .inr ⟨by rw [hintake]; nofun, rfl⟩
  next => exact .inl rfl

/-- A sample that is taken to its shard is processed there, or waits in its channel, or is turned
away. -/
theorem dispatch_cases (s : System τ) (sample : Sample) :
    (s.client.pipeline.intake = .direct ∧ (s.dispatch sample).2 =
      s.client.pipeline.atShard (s.client.pipeline.shardOf sample.routingName)
        fun shard o d => shard.process o d sample) ∨
    s.client.pipeline.intake ≠ .direct ∧
      ((∃ (i : Nat) (shard : Shard), s.client.pipeline.shards[i]? = some shard ∧
        (s.dispatch sample).2 =
          { s.client.pipeline with
            shards := s.client.pipeline.shards.set i (shard.enqueue sample) }) ∨
      ∃ overflowed, (s.dispatch sample).2 = { s.client.pipeline with overflowed }) := by
  obtain heq | ⟨hintake, hgone⟩ := s.dispatch_eq_or sample
  case inr => exact .inr ⟨hintake, .inr ⟨_, congrArg Prod.snd hgone⟩⟩
  rw [heq]
  cases hintake : s.client.pipeline.intake with
  | direct => exact .inl ⟨rfl, by rw [Pipeline.dispatch_of_direct hintake]⟩
  | stopped =>
    refine .inr ⟨nofun, .inr ⟨s.client.pipeline.overflowed, ?_⟩⟩
    rw [Pipeline.dispatch_of_stopped hintake]
  | channels settings =>
    refine .inr ⟨nofun, ?_⟩
    rw [Pipeline.dispatch_of_channels hintake, Pipeline.enqueue]
    split
    · exact .inr ⟨s.client.pipeline.overflowed, rfl⟩
    next shard hshard =>
      split
      · exact .inl ⟨_, shard, hshard, rfl⟩
      · exact .inr ⟨_, rfl⟩

/-- A sample that is taken to its shard is processed or waits there, unless it is turned away. -/
theorem inboxes_dispatch (s : System τ) (sample : Sample) :
    ((s.client.pipeline.processes? sample).toList ++
        (s.dispatch sample).2.shards.flatMap Shard.inbox).Subperm
      ([sample] ++ s.client.pipeline.shards.flatMap Shard.inbox) := by
  obtain ⟨hintake, hdispatch⟩ | ⟨hintake, hwaits⟩ := s.dispatch_cases sample
  · rw [Pipeline.processes?_of_direct hintake, hdispatch,
      Pipeline.inboxes_atShard fun shard o d => Shard.inbox_process shard o d sample]
    exact .refl _
  · rw [Pipeline.processes?_of_ne_direct hintake]
    obtain ⟨i, shard, hshard, hdispatch⟩ | ⟨_, hdispatch⟩ := hwaits
    · have hcame : [] ++ (shard.enqueue sample).inbox = shard.inbox ++ [sample] :=
        shard.inbox_enqueue sample
      rw [hdispatch]
      exact ((flatMap_set_perm hshard hcame).trans List.perm_append_comm).subperm
    · rw [hdispatch]
      exact (List.sublist_append_right _ _).subperm

/-- What comes next in a flush leaves channels and draws alone. -/
theorem inboxes_advance (c : Client τ) (w : Sweep) :
    (w.advance c).2.pipeline.shards.flatMap Shard.inbox = c.pipeline.shards.flatMap Shard.inbox ∧
      (w.advance c).2.pipeline.draws = c.pipeline.draws := by
  unfold Sweep.advance
  split
  · split <;> exact ⟨rfl, rfl⟩
  iterate 2
    exact ⟨Pipeline.inboxes_atShard (fun _ _ _ => rfl) _,
      Pipeline.draws_atShard (fun _ _ _ => rfl) _⟩
  · exact ⟨rfl, rfl⟩

/-! ## Steps -/

/-- What a step decides about was pending before, or is accepted in the step, and it is not pending
any more. -/
theorem Effect.pending (h : Effect s move s') :
    ((s.decides? move).toList ++ s'.pending).Subperm ((s.accepts? move).toList ++ s.pending) := by
  cases h with
  | @merge i m a hsending hvalid ha htakes =>
    have haccepts : s.accepts? (.proceed i) = some (.metric m) := by
      simp only [accepts?, hsending, hvalid]
    have hdecides : s.decides? (.proceed i) = some (.metric m) := by
      simp [decides?, hsending, hvalid, Client.takes, ha, htakes]
    have hcallers : (s.callers.set i .idle).flatMap Caller.inHand =
        s.callers.flatMap Caller.inHand := flatMap_set_eq hsending rfl
    rw [haccepts, hdecides, System.pending, System.pending, answer, setCaller]
    dsimp only
    rw [hcallers]
  | @pass i sample hsending hvalid hback =>
    have haccepts : s.accepts? (.proceed i) = some sample := by
      simp only [accepts?, hsending, hvalid]
    have hdecides : s.decides? (.proceed i) = none := by
      simp [decides?, hsending, hvalid, hback]
    have hcame : [] ++ Caller.inHand (.dispatching sample) =
        Caller.inHand (.sending sample) ++ [sample] := rfl
    have hcallers := flatMap_set_perm hsending hcame
    rw [haccepts, hdecides, System.pending, System.pending, setCaller, ← List.append_assoc]
    dsimp only
    exact ((hcallers.trans List.perm_append_comm).append_right _).subperm
  | @dispatch i sample hdispatching =>
    have haccepts : s.accepts? (.proceed i) = none := by simp [accepts?, hdispatching]
    have hdecides : s.decides? (.proceed i) = s.client.pipeline.processes? sample := by
      simp [decides?, hdispatching]
    have hgone : [sample] ++ Caller.inHand .idle = Caller.inHand (.dispatching sample) ++ [] := rfl
    have hcallers := (flatMap_set_perm hdispatching hgone).append_right
      (s.client.pipeline.shards.flatMap Shard.inbox)
    rw [List.append_nil, List.append_assoc] at hcallers
    rw [haccepts, hdecides, System.pending, System.pending, answer, setCaller, setPipeline]
    dsimp only
    -- The sample leaves the hands of the caller, and the shard gets it or nobody does.
    refine (List.perm_append_comm_assoc _ _ _).subperm.trans ?_
    refine ((List.subperm_append_left _).mpr (s.inboxes_dispatch sample)).trans ?_
    exact ((List.perm_append_comm_assoc _ _ _).trans hcallers).subperm
  | take =>
    rw [System.pending, System.pending, setPipeline]
    dsimp only
    rw [Pipeline.inboxes_atShard fun shard _ _ => shard.inbox_take]
    exact .refl _
  | @process i =>
    rw [System.pending, System.pending, setPipeline]
    dsimp only
    exact ((List.perm_append_comm_assoc _ _ _).trans
      ((s.client.pipeline.inboxes_release i).append_left _)).subperm
  | advance hspares hw hwrites hclient =>
    rw [hspares.accepts_eq, hspares.decides_eq, System.pending, System.pending, hclient,
      hspares.inHand_eq, (inboxes_advance _ _).1]
  | rest hspares hwrites haggregator hpipeline =>
    obtain ⟨intake, outbox, hpipeline⟩ := hpipeline
    rw [hspares.accepts_eq, hspares.decides_eq, System.pending, System.pending, hpipeline,
      hspares.inHand_eq]

/-- A sample that is pending was so before, or the aggregator does not take it. -/
theorem Effect.of_mem_pending (h : Effect s move s') {sample : Sample}
    (hmem : sample ∈ s'.pending) : sample ∈ s.pending ∨ s.client.takes sample = false := by
  have hold (haccepts : s.accepts? move = none) : sample ∈ s.pending := by
    have hsub := h.pending.subset (List.mem_append_right _ hmem)
    rw [haccepts] at hsub
    exact hsub
  cases h with
  | merge hsending =>
    refine .inl ((List.mem_append.mp hmem).elim (fun hcaller => ?_) (List.mem_append_right _))
    rcases mem_flatMap_set hcaller with hold | hnew
    · exact List.mem_append_left _ hold
    · cases hnew
  | @pass i own hsending hvalid hback =>
    rcases List.mem_append.mp hmem with hcaller | hchannel
    · rcases mem_flatMap_set hcaller with hold | hnew
      · exact .inl (List.mem_append_left _ hold)
      · obtain rfl := List.mem_singleton.mp hnew
        exact .inr hback
    · exact .inl (List.mem_append_right _ hchannel)
  | dispatch hdispatching => exact .inl (hold (by simp [accepts?, hdispatching]))
  | take | process => exact .inl (hold rfl)
  | advance hspares | rest hspares => exact .inl (hold hspares.accepts_eq)

/-- Nothing is drawn in a step that decides about nothing. -/
theorem Effect.draws_eq (h : Effect s move s') (hnone : s.decides? move = none) :
    s'.client.pipeline.draws = s.client.pipeline.draws := by
  cases h with
  | merge hsending hvalid ha htakes =>
    simp [decides?, hsending, hvalid, Client.takes, ha, htakes] at hnone
  | pass => rfl
  | @dispatch i sample hdispatching =>
    simp only [decides?, hdispatching] at hnone
    obtain ⟨hintake, -⟩ | ⟨-, ⟨_, _, -, hdispatch⟩ | ⟨_, hdispatch⟩⟩ := s.dispatch_cases sample
    · rw [Pipeline.processes?_of_direct hintake] at hnone
      cases hnone
    all_goals
      show (s.dispatch sample).2.draws = _
      rw [hdispatch]
  | take => exact Pipeline.draws_atShard (fun _ _ _ => rfl) _
  | @process i =>
    show (s.client.pipeline.atShard i Shard.release).draws = _
    cases hshard : s.client.pipeline.shards[i]? with
    | none => rw [Pipeline.atShard_of_none hshard]
    | some shard =>
      have hheld : shard.held = none := by simpa [decides?, hshard] using hnone
      rw [Pipeline.atShard_of_getElem? hshard, Shard.release, hheld]
  | advance _ _ _ hclient =>
    rw [hclient]
    exact (inboxes_advance _ _).2
  | rest _ _ _ hpipeline =>
    obtain ⟨intake, outbox, hpipeline⟩ := hpipeline
    rw [hpipeline]

/-! ## Runs -/

/-- A step, from one state to the next. -/
structure Step (τ : Type) where
  before : System τ
  move : Move
  after : System τ

namespace Step

def accepts? (step : Step τ) : Option Sample :=
  step.before.accepts? step.move

def decides? (step : Step τ) : Option Sample :=
  step.before.decides? step.move

def writes? (step : Step τ) : Option Entry :=
  step.before.writes? step.move

/-- The position of the word drawn in a step, if one is drawn. -/
def draws? (step : Step τ) : Option Nat :=
  if step.after.client.pipeline.draws.used = step.before.client.pipeline.draws.used then none
  else some step.before.client.pipeline.draws.used

end Step

variable [Transport τ]

/-- The steps of a run. -/
def trace (s : System τ) : List Move → List (Step τ)
  | [] => []
  | move :: rest =>
    match s.step? move with
    | none => []
    | some next => ⟨s, move, next⟩ :: next.trace rest

/-- What every step does that is taken while something is so, and that each step keeps so, is done
by all steps of a run. -/
theorem trace_induction {I : System τ → Prop} {P : Step τ → Prop}
    (hstep : ∀ {s s' : System τ} {move : Move}, I s → s.step? move = some s' →
      I s' ∧ P ⟨s, move, s'⟩) (hs : I s) (moves : List Move) : ∀ step ∈ s.trace moves, P step := by
  induction moves generalizing s with
  | nil => exact List.forall_mem_nil _
  | cons move rest ih =>
    rw [trace]
    split
    · exact List.forall_mem_nil _
    next next hnext =>
      obtain ⟨hlater, hdone⟩ := hstep hs hnext
      exact List.forall_mem_cons.mpr ⟨hdone, ih hlater⟩

/-- The steps of a run that goes on after its first move. -/
theorem trace_cons {move : Move} {next : System τ} (h : s.step? move = some next)
    (rest : List Move) : s.trace (move :: rest) = ⟨s, move, next⟩ :: next.trace rest := by
  rw [trace, h]

/-- Each sample that was accepted is decided about once at most, and not at all as long as it is
pending. -/
theorem pending_trace {moves : List Move} (hrun : s.run? moves = some s') :
    ((s.trace moves).filterMap Step.decides? ++ s'.pending).Subperm
      ((s.trace moves).filterMap Step.accepts? ++ s.pending) := by
  induction moves generalizing s with
  | nil =>
    cases hrun
    exact .refl _
  | cons move rest ih =>
    obtain ⟨next, hnext, hrest⟩ := Option.bind_eq_some_iff.mp hrun
    have hstep := (effect_of_step hnext).pending
    have hlater := ih hrest
    have hcons {β : Type} (f : Step τ → Option β) (step : Step τ) (steps : List (Step τ)) :
        (step :: steps).filterMap f = (f step).toList ++ steps.filterMap f := by
      cases hf : f step <;> simp [hf]
    rw [trace_cons hnext, hcons, hcons, List.append_assoc, List.append_assoc]
    -- What is pending in between is taken out and put back.
    refine ((List.subperm_append_left _).mpr hlater).trans ?_
    refine (List.perm_append_comm_assoc _ _ _).subperm.trans ?_
    refine ((List.subperm_append_left _).mpr hstep).trans ?_
    exact (List.perm_append_comm_assoc _ _ _).subperm

/-- In a run words are drawn one after the other, each of them once. -/
theorem draws_trace {moves : List Move} (hrun : s.run? moves = some s')
    (honce : ∀ step ∈ s.trace moves,
      step.after.client.pipeline.draws = step.before.client.pipeline.draws ∨
        step.after.client.pipeline.draws =
          { step.before.client.pipeline.draws with
            used := step.before.client.pipeline.draws.used + 1 }) :
    ∃ count, s'.client.pipeline.draws =
        { s.client.pipeline.draws with used := s.client.pipeline.draws.used + count } ∧
      (s.trace moves).filterMap Step.draws? =
        List.range' s.client.pipeline.draws.used count := by
  induction moves generalizing s with
  | nil =>
    cases hrun
    exact ⟨0, rfl, rfl⟩
  | cons move rest ih =>
    obtain ⟨next, hnext, hrest⟩ := Option.bind_eq_some_iff.mp hrun
    rw [trace_cons hnext] at honce ⊢
    obtain ⟨hfirst, honce⟩ := List.forall_mem_cons.mp honce
    obtain ⟨count, hdraws, hrange⟩ := ih hrest honce
    dsimp only at hfirst
    -- The first step draws nothing, or the word at the position reached before.
    rcases hfirst with hsame | hdrawn
    · refine ⟨count, by rw [hdraws, hsame], ?_⟩
      rw [List.filterMap_cons_none (by simp [Step.draws?, hsame]), hrange, hsame]
    · refine ⟨count + 1, ?_, ?_⟩
      · rw [hdraws, hdrawn]
        simp only [Draws.mk.injEq, true_and]
        omega
      · have hposition : Step.draws? ⟨s, move, next⟩ = some s.client.pipeline.draws.used := by
          simp [Step.draws?, hdrawn]
        rw [List.filterMap_cons_some hposition, hrange, hdrawn, List.range'_succ]

end System

end DogStatsD
