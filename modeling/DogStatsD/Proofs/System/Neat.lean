import DogStatsD.Proofs.Client.Start
import DogStatsD.Proofs.Packer.Acts
import DogStatsD.Proofs.System.Basic

/-!
# Neat Payloads

Whatever parties do, a payload being filled holds no text unless it holds a line, since all payloads
that shards get from the pool are empty.

* `Pipeline.Neat`, `System.Neat`: the payloads of all shards are neat, and the pool is clean;
* `System.Neat.step`, `System.Neat.run`: steps keep them so;
* `System.neat_start`: at first they are.
-/

namespace DogStatsD

variable {τ : Type} {limits : Limits}

@[simp]
theorem Shard.packer_take (s : Shard) : s.take.packer = s.packer := by
  unfold take
  split <;> rfl

/-- Processing a sample is adding it to the packer, unless sampling leaves it out. -/
theorem Shard.process_cases (s : Shard) (o : Outbox τ) (d : Draws) (sample : Sample) :
    ∃ d', s.process o d sample = (s, o, d') ∨
      s.process o d sample =
        ({ s with packer := (s.packer.add o (.sample sample)).1 },
          (s.packer.add o (.sample sample)).2, d') := by
  rcases hkeeps : keeps d sample with ⟨kept, d'⟩
  refine ⟨d', ?_⟩
  simp only [process, hkeeps]
  cases kept with
  | true => exact .inr rfl
  | false => exact .inl rfl

namespace Pipeline

/-- The payloads being filled are neat, and the outbox is clean. -/
structure Neat (limits : Limits) (p : Pipeline τ) : Prop where
  packers : ∀ s ∈ p.shards, s.packer.Neat limits
  clean : p.outbox.Clean limits

variable {p : Pipeline τ}

/-- What keeps the payload of a shard and the pool neat keeps the pipeline neat. -/
theorem Neat.atShard (h : p.Neat limits) (i : Nat)
    {f : Shard → Outbox τ → Draws → Shard × Outbox τ × Draws}
    (hf : ∀ s o d, s.packer.Neat limits → o.Clean limits →
      (f s o d).1.packer.Neat limits ∧ (f s o d).2.1.Clean limits) :
    (p.atShard i f).Neat limits := by
  cases hs : p.shards[i]? with
  | none =>
    rw [atShard_of_none hs]
    exact h
  | some s =>
    have hlater := hf s p.outbox p.draws (h.packers s (List.mem_of_getElem? hs)) h.clean
    rw [atShard_of_getElem? hs]
    refine ⟨?_, hlater.2⟩
    intro t ht
    rcases List.mem_or_eq_of_mem_set ht with hold | rfl
    · exact h.packers t hold
    · exact hlater.1

/-- Writing an entry leaves payloads neat. -/
theorem Neat.put (h : p.Neat limits) (e : Entry) : (p.put e).Neat limits :=
  h.atShard _ fun _ _ _ hs ho => hs.add ho e

/-- Handing a payload over leaves payloads neat. -/
theorem Neat.handOverAt (h : p.Neat limits) (i : Nat) : (p.handOverAt i).Neat limits :=
  h.atShard i fun _ _ _ hs ho => ⟨(hs.handOver ho).1, (hs.handOver ho).2.2⟩

end Pipeline

/-- A sample that is processed leaves the payload of its shard neat, and the pool clean. -/
theorem Packer.Neat.process {s : Shard} {o : Outbox τ} (hs : s.packer.Neat limits)
    (ho : o.Clean limits) (d : Draws) (sample : Sample) :
    (s.process o d sample).1.packer.Neat limits ∧ (s.process o d sample).2.1.Clean limits := by
  obtain ⟨d', hskip | hadd⟩ := s.process_cases o d sample
  · rw [hskip]
    exact ⟨hs, ho⟩
  · rw [hadd]
    exact hs.add ho (.sample sample)

/-- So does the sample in hand when its receiver is let go of. -/
theorem Packer.Neat.release {s : Shard} {o : Outbox τ} (hs : s.packer.Neat limits)
    (ho : o.Clean limits) (d : Draws) :
    (s.release o d).1.packer.Neat limits ∧ (s.release o d).2.1.Clean limits := by
  unfold Shard.release
  split
  · exact Neat.process (s := { s with held := none }) hs ho d _
  · exact ⟨hs, ho⟩

/-- Dispatching a sample leaves payloads neat. -/
theorem Pipeline.Neat.dispatch {p : Pipeline τ} (h : p.Neat limits) (sample : Sample) :
    (p.dispatch sample).2.Neat limits := by
  cases hintake : p.intake with
  | direct =>
    rw [dispatch_of_direct hintake]
    exact h.atShard _ fun _ _ d hs ho => hs.process ho d sample
  | stopped =>
    rw [dispatch_of_stopped hintake]
    exact h
  | channels settings =>
    rw [dispatch_of_channels hintake, enqueue]
    split
    · exact h
    next s hs =>
      split
      · refine ⟨?_, h.clean⟩
        intro t ht
        rcases List.mem_or_eq_of_mem_set ht with hold | rfl
        · exact h.packers t hold
        · exact h.packers s (List.mem_of_getElem? hs)
      · exact ⟨h.packers, h.clean⟩

/-- A sample that is merged or not leaves the pipeline alone, draws apart. -/
theorem Client.merge_snd (c : Client τ) (sample : Sample) :
    ∃ aggregator draws, (c.merge sample).2 =
      { c with aggregator, pipeline := { c.pipeline with draws } } := by
  unfold merge
  split
  · exact ⟨_, _, rfl⟩
  · exact ⟨c.aggregator, c.pipeline.draws, rfl⟩

namespace System

/-- The payloads of the shards are neat, and the outbox is clean together with what the courier has
taken out. -/
structure Neat (limits : Limits) (s : System τ) : Prop where
  pipeline : s.client.pipeline.Neat limits
  held : ∀ payload, s.courier = .holding (.payload payload) → payload.limits = limits

variable {s s' : System τ}

/-- A step that does not concern the courier is a matter of the pipeline. -/
theorem Neat.of_pipeline (h : s.Neat limits) (hpipeline : s'.client.pipeline.Neat limits)
    (hcourier : s'.courier = s.courier) : s'.Neat limits :=
  ⟨hpipeline, fun payload hheld => h.held payload (hcourier ▸ hheld)⟩

/-- An outbox may change, as long as its payloads are clean. -/
theorem Neat.setOutbox (h : s.Neat limits) {o : Outbox τ} (ho : o.Clean limits) :
    (s.setOutbox o).Neat limits :=
  h.of_pipeline ⟨h.pipeline.packers, ho⟩ rfl

/-- What comes next in a flush leaves payloads neat. -/
theorem neat_advance {c : Client τ} (h : c.pipeline.Neat limits) (w : Sweep) :
    (w.advance c).2.pipeline.Neat limits := by
  unfold Sweep.advance
  split
  · split <;> exact h
  · exact h.put _
  · exact h.handOverAt _
  · exact h

/-- No part of a flush leaves a payload of other limits behind. -/
theorem Neat.advance (h : s.Neat limits) {party : Party} {w : Sweep} {next : Sweep × System τ}
    (hnext : s.advance? party w = some next) : next.2.Neat limits := by
  obtain ⟨drainer, rfl⟩ := eq_of_advance? hnext
  exact h.of_pipeline (neat_advance h.pipeline w) rfl

/-- A call that begins does nothing to payloads. -/
theorem Neat.call (h : s.Neat limits) {i : Nat} {request : Request}
    (hcall : s.call? i request = some s') : s'.Neat limits := by
  unfold call? at hcall
  split at hcall
  · split at hcall
    · cases hcall
      exact h.of_pipeline h.pipeline rfl
    · split at hcall
      · cases hcall
        exact h.of_pipeline h.pipeline rfl
      · cases hcall
        exact h.of_pipeline h.pipeline rfl
      · split at hcall <;> cases hcall
        exact h.of_pipeline h.pipeline rfl
  · cases hcall

variable [Transport τ]

/-- A command that is taken out of the queue and carried out leaves the outbox clean. -/
theorem clean_of_step? {o later : Outbox τ} (h : o.Clean limits) {command : Command}
    (hstep : o.step? = some (command, later)) : later.Clean limits := by
  have hnext := h.deliverNext
  rwa [Outbox.deliverNext, hstep] at hnext

/-- No stage of closing leaves a payload of other limits behind. -/
theorem Neat.shutDown (h : s.Neat limits) {i : Nat} {stage : Stage}
    (hclose : s.shutDown? i stage = some s') : s'.Neat limits := by
  -- Each stage either leaves the pipeline alone or does to it what has a lemma of its own.
  have hclean := h.pipeline.clean
  cases stage with
  | signalling =>
    cases hclose
    exact h.of_pipeline h.pipeline rfl
  | joining =>
    simp only [shutDown?] at hclose
    split at hclose <;> cases hclose
    exact h.of_pipeline ⟨h.pipeline.packers, hclean⟩ rfl
  | sweeping w =>
    simp only [shutDown?] at hclose
    split at hclose
    · cases hclose
      exact h.of_pipeline h.pipeline rfl
    · obtain ⟨next, hnext, rfl⟩ := Option.map_eq_some_iff.mp hclose
      exact (h.advance hnext).of_pipeline (h.advance hnext).pipeline rfl
  | raising =>
    simp only [shutDown?] at hclose
    split at hclose
    · split at hclose <;> cases hclose
      exact (h.setOutbox (hclean.raise i)).of_pipeline ⟨h.pipeline.packers, hclean.raise i⟩ rfl
    · cases hclose
      exact h.of_pipeline h.pipeline rfl
  | awaiting =>
    simp only [shutDown?] at hclose
    split at hclose <;> cases hclose
    exact h.of_pipeline h.pipeline rfl
  | halting =>
    cases hclose
    exact h.of_pipeline ⟨h.pipeline.packers, ⟨hclean.pool, hclean.limits_eq⟩⟩ rfl
  | joiningCourier =>
    simp only [shutDown?] at hclose
    split at hclose <;> cases hclose
    exact h.of_pipeline h.pipeline rfl
  | draining =>
    simp only [shutDown?] at hclose
    split at hclose
    · cases hclose
      exact h.of_pipeline h.pipeline rfl
    next hstep =>
      cases hclose
      exact h.setOutbox (clean_of_step? hclean hstep)
  | closingTransport =>
    cases hclose
    exact h.of_pipeline ⟨h.pipeline.packers, ⟨hclean.pool, hclean.limits_eq⟩⟩ rfl

/-- Going on with any call keeps all payloads neat. -/
theorem Neat.proceed (h : s.Neat limits) {i : Nat} (hproceed : s.proceed? i = some s') :
    s'.Neat limits := by
  have hclean := h.pipeline.clean
  unfold proceed? at hproceed
  split at hproceed
  · cases hproceed
  · cases hproceed
  next sample _ =>
    -- Merging a sample concerns the aggregator only.
    obtain ⟨aggregator, draws, hmerge⟩ :=
      Client.merge_snd { s.client with accepted := s.client.accepted.count sample } sample
    split at hproceed
    · cases hproceed
      exact h.of_pipeline h.pipeline rfl
    · split at hproceed
      next hmerged =>
        cases hproceed
        rw [hmerged] at hmerge
        subst hmerge
        exact h.of_pipeline ⟨h.pipeline.packers, hclean⟩ rfl
      next hmerged =>
        cases hproceed
        rw [hmerged] at hmerge
        subst hmerge
        exact h.of_pipeline ⟨h.pipeline.packers, hclean⟩ rfl
  next sample _ =>
    cases hproceed
    refine h.of_pipeline ?_ rfl
    show (s.dispatch sample).2.Neat limits
    simp only [System.dispatch]
    split
    · exact h.pipeline
    · exact h.pipeline.dispatch sample
  next w _ =>
    dsimp only at hproceed
    split at hproceed
    · obtain ⟨next, hnext, rfl⟩ := Option.map_eq_some_iff.mp hproceed
      exact (h.advance hnext).of_pipeline (h.advance hnext).pipeline rfl
    · split at hproceed
      · cases hproceed
        exact h.of_pipeline h.pipeline rfl
      · split at hproceed <;> cases hproceed
        exact h.of_pipeline ⟨h.pipeline.packers, hclean.raise i⟩ rfl
  · split at hproceed <;> cases hproceed
    exact h.of_pipeline h.pipeline rfl
  · split at hproceed
    · cases hproceed
      exact h.of_pipeline h.pipeline rfl
    next hstep =>
      cases hproceed
      exact h.setOutbox (clean_of_step? hclean hstep)
  · split at hproceed
    · exact h.shutDown hproceed
    · cases hproceed
    · cases hproceed

/-- A step leaves payloads neat. -/
theorem Neat.step (h : s.Neat limits) {move : Move} (hstep : s.step? move = some s') :
    s'.Neat limits := by
  have hclean := h.pipeline.clean
  cases move with
  | call i request => exact h.call hstep
  | proceed i => exact h.proceed hstep
  | take i =>
    simp only [step?, serve?] at hstep
    split at hstep <;> cases hstep
    refine h.of_pipeline ?_ rfl
    refine h.pipeline.atShard (f := fun shard o d => (shard.take, o, d)) i ?_
    intro shard o d hs ho
    exact ⟨by rwa [Shard.packer_take], ho⟩
  | process i =>
    simp only [step?, serve?] at hstep
    split at hstep <;> cases hstep
    exact h.of_pipeline (h.pipeline.atShard i fun s o d hs ho => hs.release ho d) rfl
  | clear i =>
    simp only [step?, turn?] at hstep
    split at hstep
    · split at hstep <;> cases hstep
      exact h.of_pipeline h.pipeline rfl
    · cases hstep
  | leave i | retire i =>
    simp only [step?, turn?] at hstep
    split at hstep <;> cases hstep
    exact h.of_pipeline h.pipeline rfl
  | tick i | quit i =>
    simp only [step?] at hstep
    split at hstep <;> cases hstep
    exact h.of_pipeline h.pipeline rfl
  | work i =>
    simp only [step?] at hstep
    split at hstep
    · split at hstep
      · cases hstep
        exact h.of_pipeline h.pipeline rfl
      · obtain ⟨next, hnext, rfl⟩ := Option.map_eq_some_iff.mp hstep
        exact (h.advance hnext).of_pipeline (h.advance hnext).pipeline rfl
    · cases hstep
  | fetch =>
    simp only [step?] at hstep
    split at hstep <;> cases hstep
    next command queue _ hqueue =>
      -- What is taken out waited in the queue before.
      refine ⟨⟨h.pipeline.packers, hclean.tail hqueue⟩, fun payload hheld => ?_⟩
      cases hheld
      exact hclean.limits_eq payload (by simp [hqueue])
  | carry =>
    simp only [step?] at hstep
    split at hstep <;> cases hstep
    next command hcourier =>
      refine ⟨⟨h.pipeline.packers, ?_⟩, fun payload hheld => by cases hheld⟩
      cases command with
      | barrier caller => exact hclean
      | payload payload => exact hclean.deliver (h.held payload hcourier)
  | exit =>
    simp only [step?] at hstep
    split at hstep <;> cases hstep
    exact ⟨h.pipeline, fun payload hheld => by cases hheld⟩

/-- Steps leave payloads neat. -/
theorem Neat.run (h : s.Neat limits) {moves : List Move} (hrun : s.run? moves = some s') :
    s'.Neat limits :=
  steps_induction (motive := fun _ t => t.Neat limits) hrun h
    fun _ _ _ _ hneat hstep => hneat.step hstep

/-- At first, all payloads are empty. -/
theorem neat_start {config : Config} {transport : τ} {route : String → Nat} {draws : Draws}
    {client : Client τ} (hbuild : config.buildWith transport route draws = .ok client)
    (callers : Nat) : (start client callers).Neat config.limits := by
  obtain ⟨-, later, -, rfl⟩ := Config.eq_of_buildWith hbuild
  obtain ⟨pool, hpool, hpipeline⟩ := config.pipeline_eq later route draws
  have hneat : (config.pipeline later route draws).Neat config.limits := by
    rw [hpipeline]
    refine ⟨fun s hs => ?_, hpool, List.forall_mem_nil _⟩
    rw [List.eq_of_mem_replicate hs]
    exact ⟨rfl, fun _ => rfl⟩
  refine ⟨hneat, fun payload hheld => ?_⟩
  dsimp only [start] at hheld
  split at hheld <;> cases hheld

end System

end DogStatsD
