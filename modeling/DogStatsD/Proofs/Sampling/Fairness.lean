import DogStatsD.Proofs.Sampling.Draws
import DogStatsD.Proofs.Sampling.Pending
import DogStatsD.Proofs.System.Gauges

/-!
# Sampled Once

Whether a sample is kept is decided in one of two places: by the aggregator if it takes the sample,
and by a shard if not. What the aggregator gives back is not decided about again, although a batch
may carry a rate below one. So no sample is sampled twice, and the line of a sample that was drawn
for tells the rate of the draw.

* `Config.merges`: which samples the aggregator takes;
* `Treats`: what becomes of a sample when it is decided about;
* `System.Configured`: what holds of a client with a configuration while it is in use;
* `System.Configured.treats`, `System.Configured.put_of_writes`: what each step does with a sample
  or an entry;
* `System.sampled_at_most_once`: what this comes to in a run.
-/

namespace DogStatsD

/-! ## Lines and rates -/

namespace Line

/-- What stands on a metric line before the field of the rate. -/
def beforeRate (o : Options) (m : Metric) : String :=
  header o m.name ++ valueText m.value ++ "|" ++ m.kind.mark

/-- What stands on a metric line behind the field of the rate. -/
def afterRate (o : Options) (m : Metric) : String :=
  o.tagField m.tags ++ o.containerField ++ field "|T" (m.timestamp.map Decimal.ofNat) ++
    o.cardinalityField m.cardinality ++ "\n"

theorem ofMetric_eq (o : Options) (m : Metric) :
    ofMetric o m = beforeRate o m ++ rateField m.rate ++ afterRate o m := by
  simp only [ofMetric, trailer, beforeRate, afterRate, String.append_assoc]

/-- The line of a sample with a rate below one tells the rate. -/
theorem ofMetric_of_rate_lt (o : Options) {m : Metric} (h : m.rate < 1.0) :
    ofMetric o m = beforeRate o m ++ ("|@" ++ Decimal.ofFloat m.rate) ++ afterRate o m := by
  rw [ofMetric_eq, rateField, if_pos h]

/-- The line of a sample with a rate of one tells no rate. -/
theorem ofMetric_of_rate_eq (o : Options) {m : Metric} (h : m.rate = 1.0) :
    ofMetric o m = beforeRate o m ++ afterRate o m := by
  have hnone : rateField m.rate = "" := by
    rw [h]
    exact if_neg (by decide)
  rw [ofMetric_eq, hnone, String.append_empty]

end Line

/-! ## Entries out of an aggregator -/

/-- An entry is a metric that was merged, which is not sampled, or a batch. -/
def Entry.IsFlushed : Entry → Prop
  | .sample (.metric m) => m.rate = 1.0 ∧ m.kind.isReservoir = false
  | .sample (.event _) | .sample (.serviceCheck _) => False
  | .batch _ => True

namespace Aggregator

/-- Draining gives back nothing else. -/
theorem isFlushed_drain (a : Aggregator) (kind : Kind) :
    ∀ e ∈ (a.drain kind).1, e.IsFlushed := by
  have hbatches (kind : Kind) (t : Table Reservoir) : ∀ e ∈ batches kind t, e.IsFlushed := by
    intro e he
    obtain ⟨⟨context, reservoir⟩, -, hbatch⟩ := List.mem_filterMap.mp he
    dsimp only at hbatch
    split at hbatch <;> cases hbatch
    trivial
  cases kind with
  | count | gauge =>
    intro e he
    obtain ⟨⟨context, value⟩, -, rfl⟩ := List.mem_map.mp he
    exact ⟨rfl, rfl⟩
  | set =>
    intro e he
    obtain ⟨⟨context, members⟩, -, hmember⟩ := List.mem_flatMap.mp he
    obtain ⟨member, -, rfl⟩ := List.mem_map.mp hmember
    exact ⟨rfl, rfl⟩
  | histogram => exact hbatches .histogram a.histograms
  | distribution => exact hbatches .distribution a.distributions
  | timing => exact hbatches .timing a.timings

theorem settings_drain (a : Aggregator) (kind : Kind) : (a.drain kind).2.settings = a.settings := by
  cases kind <;> rfl

theorem settings_apply (a : Aggregator) (m : Merge) : (m.apply a).settings = a.settings := by
  cases m with
  | observation kind => cases kind <;> rfl
  | count | gauge | set => rfl

end Aggregator

/-! ## What becomes of a sample -/

/-- Whether a sample is merged by the aggregator of a client with this configuration. -/
def Config.merges (c : Config) : Sample → Bool
  | .metric m =>
    c.aggregation && (m.timestamp.isNone && (!m.kind.isReservoir || c.extendedAggregation))
  | .event _ | .serviceCheck _ => false

variable {τ : Type}

/-- What becomes of a sample when it is decided about, from a client to what the client is then. -/
inductive Treats (config : Config) (c later : Client τ) : Sample → Prop
  /-- It is merged. Observations are left to sampling, and nothing else is. -/
  | merged {m : Metric} {a : Aggregator} {kept : Bool} (hmerges : config.merges (.metric m) = true)
    (ha : c.aggregator = some a)
    (haggregator : later.aggregator = some
      (if kept then (Merge.ofMetric (Context.ofMetric a.settings.cardinality m) m).apply a else a))
    (hpipeline : later.pipeline = { c.pipeline with draws := later.pipeline.draws })
    (hobservation : m.kind.isReservoir = true →
      c.pipeline.draws.Decides m.rate kept later.pipeline.draws)
    (hothers : m.kind.isReservoir = false → later.pipeline.draws = c.pipeline.draws ∧ kept = true) :
    Treats config c later (.metric m)
  /-- A shard processes it. What is kept is added to the packer, which writes its line unless that
  fits into no payload. -/
  | processed {sample : Sample} {j : Nat} {shard after : Shard} {kept : Bool}
    (hpassed : config.merges sample = false) (haggregator : later.aggregator = c.aggregator)
    (hshard : c.pipeline.shards[j]? = some shard)
    (hlater : later.pipeline.shards = c.pipeline.shards.set j after)
    (hdecides : c.pipeline.draws.DecidesOn sample kept later.pipeline.draws)
    (hadd : (after.packer, later.pipeline.outbox) =
      if kept then shard.packer.add c.pipeline.outbox (.sample sample)
      else (shard.packer, c.pipeline.outbox))
    (hlines : shard.packer.encoded c.pipeline.outbox (.sample sample) =
      [Line.ofSample config.options sample].filter config.limits.fits) :
    Treats config c later sample

/-- One draw at most is made. -/
theorem Treats.once {config : Config} {c later : Client τ} {sample : Sample}
    (h : Treats config c later sample) :
    later.pipeline.draws = c.pipeline.draws ∨
      later.pipeline.draws = { c.pipeline.draws with used := c.pipeline.draws.used + 1 } := by
  cases h with
  | @merged m _ _ _ _ _ _ hobservation hothers =>
    cases hkind : m.kind.isReservoir with
    | true => exact (hobservation hkind).once
    | false => exact .inl (hothers hkind).1
  | processed _ _ _ _ hdecides => exact hdecides.once

namespace System

variable {config : Config} {s s' : System τ} {move : Move}

/-! ## Settings of the lines -/

/-- All shards write lines with these settings. -/
def Writes (s : System τ) (options : Line.Options) : Prop :=
  ∀ shard ∈ s.client.pipeline.shards, shard.packer.options = options

/-- An operation on a shard that leaves the settings alone leaves all of them alone. -/
theorem options_atShard {options : Line.Options} {p : Pipeline τ}
    (h : ∀ shard ∈ p.shards, shard.packer.options = options) (i : Nat)
    {f : Shard → Outbox τ → Draws → Shard × Outbox τ × Draws}
    (hf : ∀ shard o d, (f shard o d).1.packer.options = shard.packer.options) :
    ∀ shard ∈ (p.atShard i f).shards, shard.packer.options = options := by
  intro shard hmem
  obtain ⟨j, hj⟩ := List.mem_iff_getElem?.mp hmem
  obtain ⟨-, old, hold, rfl⟩ | ⟨-, hold⟩ := Pipeline.getElem?_atShard hj
  · exact (hf _ _ _).trans (h old (List.mem_of_getElem? hold))
  · exact h shard (List.mem_of_getElem? hold)

/-- Processing a sample leaves the options of the shard alone. -/
theorem options_process (shard : Shard) (o : Outbox τ) (d : Draws) (sample : Sample) :
    (shard.process o d sample).1.packer.options = shard.packer.options := by
  obtain ⟨d', hskip | hadd⟩ := shard.process_cases o d sample
  · rw [hskip]
  · rw [hadd]
    exact shard.packer.options_add o _

/-- What comes next in a flush leaves the options of all shards alone. -/
theorem options_advance (h : s.Writes options) (w : Sweep) :
    ∀ shard ∈ (w.advance s.client).2.pipeline.shards, shard.packer.options = options := by
  unfold Sweep.advance
  split
  · split <;> exact h
  · exact options_atShard h _ fun shard o _ => shard.packer.options_add o _
  · exact options_atShard h _ fun shard o _ => shard.packer.options_handOver o
  · exact h

/-! ## In use -/

/-- What holds of a client with a configuration while it is in use. -/
structure Configured (config : Config) (s : System τ) : Prop where
  neat : s.Neat config.limits
  writes : s.Writes config.options
  shards_pos : 0 < s.client.pipeline.shards.length
  takes_eq : ∀ sample, s.client.takes sample = config.merges sample
  /-- Whatever is pending is not for the aggregator. -/
  passed : ∀ sample ∈ s.pending, config.merges sample = false
  /-- Flushes write what comes out of the aggregator. -/
  flushed : ∀ w ∈ s.sweeps, ∀ e ∈ w.entries, e.IsFlushed

/-- What a shard writes of a sample is its line, unless that fits into no payload. -/
theorem Configured.encoded_sample (h : s.Configured config) {shard : Shard}
    (hmem : shard ∈ s.client.pipeline.shards) (sample : Sample) :
    shard.packer.encoded s.client.pipeline.outbox (.sample sample) =
      [Line.ofSample config.options sample].filter config.limits.fits := by
  rw [(h.neat.pipeline.packers shard hmem).encoded_sample h.neat.pipeline.clean,
    h.writes shard hmem, List.filter_singleton, Limits.fits, Bool.cond_decide]

/-- A shard that processes a sample makes one decision about it. -/
theorem Configured.treats_process (h : s.Configured config) {j : Nat} {shard : Shard}
    (hshard : s.client.pipeline.shards[j]? = some shard) {own : Shard}
    (hown : own.packer = shard.packer) {sample : Sample} (hpassed : config.merges sample = false)
    {later : Client τ}
    (haggregator : later.aggregator = s.client.aggregator)
    (hpipeline : (later.pipeline.shards, later.pipeline.outbox, later.pipeline.draws) =
      (s.client.pipeline.shards.set j
          (own.process s.client.pipeline.outbox s.client.pipeline.draws sample).1,
        (own.process s.client.pipeline.outbox s.client.pipeline.draws sample).2)) :
    Treats config s.client later sample := by
  obtain ⟨kept, draws, hdecides, hprocess⟩ :=
    own.process_eq s.client.pipeline.outbox s.client.pipeline.draws sample
  rw [hprocess] at hpipeline
  obtain ⟨hshards, hrest⟩ := Prod.mk.inj hpipeline
  obtain ⟨houtbox, hdraws⟩ := Prod.mk.inj hrest
  replace hdraws : later.pipeline.draws = draws := hdraws.trans (by cases kept <;> rfl)
  refine .processed hpassed haggregator hshard hshards (hdraws ▸ hdecides) ?_
    (h.encoded_sample (List.mem_of_getElem? hshard) sample)
  rw [houtbox]
  cases kept with
  | true => rw [if_pos rfl, if_pos rfl, ← hown]
  | false => exact congrArg (·, s.client.pipeline.outbox) hown

/-- Whenever something is decided about a sample, it is merged or processed. -/
theorem Configured.treats (h : s.Configured config) (heffect : Effect s move s') {sample : Sample}
    (hdecides : s.decides? move = some sample) : Treats config s.client s'.client sample := by
  cases heffect with
  | @merge i m a hsending hvalid ha htakes =>
    have htaken : s.client.takes (.metric m) = true := by simp [Client.takes, ha, htakes]
    obtain rfl : .metric m = sample := by
      simpa [System.decides?, hsending, hvalid, htaken] using hdecides
    obtain ⟨kept, later, haggregate, hobservation, hothers⟩ :=
      Aggregator.aggregate_of_takes htakes s.client.pipeline.draws
    rw [answer, setCaller, haggregate]
    exact .merged ((h.takes_eq _).symm.trans htaken) ha rfl rfl hobservation hothers
  | @pass i own hsending hvalid hback =>
    simp [System.decides?, hsending, hvalid, hback] at hdecides
  | @dispatch i own hdispatching =>
    simp only [System.decides?, hdispatching] at hdecides
    have hpending : own ∈ s.pending := List.mem_append_left _ (List.mem_flatMap.mpr
      ⟨.dispatching own, List.mem_of_getElem? hdispatching, List.mem_singleton_self own⟩)
    obtain ⟨hintake, hdispatch⟩ | ⟨hintake, -⟩ := s.dispatch_cases own
    · rw [Pipeline.processes?_of_direct hintake] at hdecides
      obtain rfl := Option.some.inj hdecides
      -- There is a shard for every name.
      have hlt : s.client.pipeline.shardOf own.routingName < s.client.pipeline.shards.length :=
        Nat.mod_lt _ h.shards_pos
      have hshard := List.getElem?_eq_getElem hlt
      refine h.treats_process hshard rfl (h.passed own hpending) rfl ?_
      rw [answer, setCaller, setPipeline, hdispatch, Pipeline.atShard_of_getElem? hshard]
    · rw [Pipeline.processes?_of_ne_direct hintake] at hdecides
      cases hdecides
  | take => cases hdecides
  | @process i =>
    obtain ⟨shard, hshard, hheld⟩ := Option.bind_eq_some_iff.mp hdecides
    have hpending : sample ∈ s.pending := List.mem_append_right _ (List.mem_flatMap.mpr
      ⟨shard, List.mem_of_getElem? hshard, by simp [Shard.inbox, hheld]⟩)
    have hown : { shard with held := none }.packer = shard.packer := rfl
    refine h.treats_process hshard hown (h.passed sample hpending) rfl ?_
    rw [setPipeline, Pipeline.atShard_of_getElem? hshard, Shard.release, hheld]
  | advance hspares | rest hspares =>
    rw [hspares.decides_eq] at hdecides
    cases hdecides

/-- An entry that is written came out of the aggregator, and nothing is decided about it. -/
theorem Configured.put_of_writes (h : s.Configured config) (heffect : Effect s move s') {e : Entry}
    (hwrites : s.writes? move = some e) :
    e.IsFlushed ∧ s'.client.pipeline = s.client.pipeline.put e ∧ s.decides? move = none := by
  cases heffect with
  | merge hsending => simp [writes?, hsending] at hwrites
  | pass hsending => simp [writes?, hsending] at hwrites
  | dispatch hdispatching => simp [writes?, hdispatching] at hwrites
  | take | process => cases hwrites
  | @advance _ w s' hspares hw hnext hclient =>
    rw [hnext] at hwrites
    have hw : ∃ rest shards, w = { entries := e :: rest, shards } := by
      unfold Sweep.next? at hwrites
      split at hwrites <;> cases hwrites
      exact ⟨_, _, rfl⟩
    obtain ⟨rest, shards, rfl⟩ := hw
    refine ⟨h.flushed _ ‹_› e List.mem_cons_self, ?_, hspares.decides_eq⟩
    rw [hclient]
    rfl
  | rest _ hnone =>
    rw [hnone] at hwrites
    cases hwrites

/-- No step changes the settings of the aggregator. -/
theorem Effect.takes_eq (h : Effect s move s') (sample : Sample) :
    s'.client.takes sample = s.client.takes sample := by
  -- Whether a sample is merged depends on the settings alone.
  have hsettings {a b : Aggregator} (hab : b.settings = a.settings)
      (ha : s.client.aggregator = some a) (hb : s'.client.aggregator = some b) :
      s'.client.takes sample = s.client.takes sample := by
    cases sample with
    | metric m => simp [Client.takes, ha, hb, Aggregator.takes, hab]
    | event event | serviceCheck check => rfl
  have hsame (haggregator : s'.client.aggregator = s.client.aggregator) :
      s'.client.takes sample = s.client.takes sample := by
    cases sample with
    | metric m => rw [Client.takes, haggregator, Client.takes]
    | event event | serviceCheck check => rfl
  cases h with
  | @merge i m a hsending hvalid ha htakes =>
    obtain ⟨kept, later, haggregate, -, -⟩ :=
      Aggregator.aggregate_of_takes htakes s.client.pipeline.draws
    refine hsettings (b := (a.aggregate s.client.pipeline.draws m).2.1) ?_ ha rfl
    rw [haggregate]
    cases kept with
    | true => exact a.settings_apply _
    | false => rfl
  | pass | dispatch | take | process => exact hsame rfl
  | @advance _ w s' hspares hw hwrites hclient =>
    -- A flush drains the tables, and leaves the settings to what comes after.
    have hadvance : (w.advance s.client).2.aggregator = s.client.aggregator ∨
        ∃ a kind, s.client.aggregator = some a ∧
          (w.advance s.client).2.aggregator = some (a.drain kind).2 := by
      unfold Sweep.advance
      split
      · split
        · exact .inl rfl
        next a ha => exact .inr ⟨a, _, ha, rfl⟩
      · exact .inl rfl
      · exact .inl rfl
      · exact .inl rfl
    rw [← hclient] at hadvance
    obtain hadvance | ⟨a, kind, ha, hadvance⟩ := hadvance
    · exact hsame hadvance
    · exact hsettings (a.settings_drain kind) ha hadvance
  | rest _ _ haggregator => exact hsame haggregator

/-- No step changes the settings of the lines, nor the number of shards. -/
theorem Effect.writes (h : Effect s move s') {options : Line.Options} (hs : s.Writes options) :
    s'.Writes options ∧
      s'.client.pipeline.shards.length = s.client.pipeline.shards.length := by
  cases h with
  | merge | pass => exact ⟨hs, rfl⟩
  | @dispatch i sample =>
    show (∀ shard ∈ (s.dispatch sample).2.shards, shard.packer.options = options) ∧
      (s.dispatch sample).2.shards.length = _
    obtain ⟨-, hdispatch⟩ | ⟨-, ⟨j, shard, hshard, hdispatch⟩ | ⟨_, hdispatch⟩⟩ :=
      s.dispatch_cases sample
    · rw [hdispatch]
      exact ⟨options_atShard hs _ fun shard o d => options_process shard o d sample,
        Pipeline.length_atShard⟩
    · rw [hdispatch]
      refine ⟨fun other hother => ?_, List.length_set⟩
      rcases List.mem_or_eq_of_mem_set hother with hold | rfl
      · exact hs other hold
      · exact hs shard (List.mem_of_getElem? hshard)
    · rw [hdispatch]
      exact ⟨hs, rfl⟩
  | take =>
    refine ⟨options_atShard hs _ fun shard _ _ => ?_, Pipeline.length_atShard⟩
    rw [Shard.packer_take]
  | process =>
    refine ⟨options_atShard hs _ fun shard o d => ?_, Pipeline.length_atShard⟩
    unfold Shard.release
    split
    · exact options_process { shard with held := none } o d _
    · rfl
  | @advance _ w _ _ _ _ hclient =>
    refine ⟨?_, ?_⟩
    · unfold Writes
      rw [hclient]
      exact options_advance hs w
    · rw [hclient]
      exact (alike_advance s.client w).length_eq
  | rest _ _ _ hpipeline =>
    obtain ⟨intake, outbox, hpipeline⟩ := hpipeline
    unfold Writes
    rw [hpipeline]
    exact ⟨hs, rfl⟩

/-- Flushes still write only what comes out of the aggregator. -/
theorem Effect.flushed (h : Effect s move s') (hs : ∀ w ∈ s.sweeps, ∀ e ∈ w.entries, e.IsFlushed) :
    ∀ w ∈ s'.sweeps, ∀ e ∈ w.entries, e.IsFlushed := by
  -- A caller that is in no flush afterwards adds nothing to be written.
  have hcaller (caller : Caller) {i : Nat} (hcallers : s'.callers = s.callers.set i caller)
      (htickers : s'.tickers = s.tickers) (hphase : s'.phase = s.phase)
      (hnone : caller.sweeps = []) :
      ∀ w ∈ s'.sweeps, ∀ e ∈ w.entries, e.IsFlushed := by
    intro w hw
    rcases mem_sweeps_of_caller hw hcallers htickers with hold | hnew | hold
    · exact hs w hold
    · rw [hnone] at hnew
      cases hnew
    · exact hs w (mem_sweeps.mpr (.inr (.inr (hphase ▸ hold))))
  cases h with
  | merge | dispatch => exact hcaller .idle rfl rfl rfl rfl
  | @pass i sample => exact hcaller (.dispatching sample) rfl rfl rfl rfl
  | take | process => exact hs
  | @advance _ w _ _ hw _ _ hsweeps =>
    intro later hlater e he
    rcases hsweeps later hlater with hold | rfl
    · exact hs later hold e he
    · -- What is left to write was so before, or is taken out now.
      unfold Sweep.advance at he
      split at he
      · split at he
        · exact hs _ hw e he
        · rcases List.mem_append.mp he with hold | hdrained
          · exact hs _ hw e hold
          · exact Aggregator.isFlushed_drain _ _ e hdrained
      · exact hs _ hw e (List.mem_cons_of_mem _ he)
      · cases he
      · cases he
  | rest _ _ _ _ hsweeps =>
    intro later hlater e he
    rcases hsweeps later hlater with hold | hnone
    · exact hs later hold e he
    · rw [hnone] at he
      cases he

variable [Transport τ]

/-- It holds after every step. -/
theorem Configured.step (h : s.Configured config) (hstep : s.step? move = some s') :
    s'.Configured config := by
  have heffect := effect_of_step hstep
  obtain ⟨hwrites, hlength⟩ := heffect.writes h.writes
  have htakes (sample : Sample) : s'.client.takes sample = config.merges sample :=
    (heffect.takes_eq sample).trans (h.takes_eq sample)
  refine ⟨h.neat.step hstep, hwrites, hlength ▸ h.shards_pos, htakes, fun sample hmem => ?_,
    heffect.flushed h.flushed⟩
  rcases heffect.of_mem_pending hmem with hold | hback
  · exact h.passed sample hold
  · exact (h.takes_eq sample).symm.trans hback

/-- At first nothing is pending. -/
theorem pending_start {transport : τ} {route : String → Nat} {draws : Draws} {client : Client τ}
    (hbuild : config.buildWith transport route draws = .ok client) (callers : Nat) :
    (start client callers).pending = [] := by
  obtain ⟨-, later, -, rfl⟩ := Config.eq_of_buildWith hbuild
  obtain ⟨pool, -, hpipeline⟩ := config.pipeline_eq later route draws
  simp [System.pending, start, hpipeline, Caller.inHand, Shard.inbox]

/-- It holds at first. -/
theorem configured_start {transport : τ} {route : String → Nat} {draws : Draws} {client : Client τ}
    (hbuild : config.buildWith transport route draws = .ok client) (callers : Nat) :
    (start client callers).Configured config := by
  have hwrites := (matches_start hbuild callers).fits.options_eq
  have hneat := neat_start hbuild callers
  have hnone := pending_start hbuild callers
  obtain ⟨hvalid, later, -, rfl⟩ := Config.eq_of_buildWith hbuild
  obtain ⟨pool, -, hpipeline⟩ := config.pipeline_eq later route draws
  refine ⟨hneat, hwrites, ?_, fun sample => ?_, fun sample hmem => ?_, fun w hw e he => ?_⟩
  · simpa [start, hpipeline] using workers_pos hvalid
  · cases sample with
    | metric m =>
      simp only [start, Client.takes, Config.merges, Config.aggregator]
      cases config.aggregation <;> simp [Aggregator.takes]
    | event event | serviceCheck check => rfl
  · rw [hnone] at hmem
    cases hmem
  · -- Tickers plan to begin with nothing taken out.
    have hnone : w.entries = [] := by
      rcases mem_sweeps.mp hw with hcaller | hticker | hphase
      · simp [start, Caller.sweeps] at hcaller
      · obtain ⟨t, ht, hplan⟩ := List.mem_flatMap.mp hticker
        rcases List.mem_append.mp ht with hfirst | hsecond
        -- The first ticker is there only if there are tables.
        · split at hfirst
          · rw [List.mem_singleton.mp hfirst] at hplan
            rw [List.mem_singleton.mp hplan]
            rfl
          · cases hfirst
        · rw [List.mem_singleton.mp hsecond] at hplan
          rw [List.mem_singleton.mp hplan]
          rfl
      · cases hphase
    rw [hnone] at he
    cases he

/-! ## Runs -/

/-- What a step does with a sample or an entry, in a client with a configuration. -/
structure Step.IsFair (config : Config) (step : Step τ) : Prop where
  /-- Nothing is drawn unless something is decided about a sample. -/
  idle : step.decides? = none →
    step.after.client.pipeline.draws = step.before.client.pipeline.draws
  treats : ∀ sample, step.decides? = some sample →
    Treats config step.before.client step.after.client sample
  /-- What a shard processes with a rate below one has its rate on its line. -/
  rate : ∀ m : Metric, step.decides? = some (.metric m) → m.rate < 1.0 →
    Line.ofSample config.options (.metric m) =
      Line.beforeRate config.options m ++ ("|@" ++ Decimal.ofFloat m.rate) ++
        Line.afterRate config.options m
  /-- What a flush writes is put into its shard without a draw, whatever its rate. -/
  flushed : ∀ e, step.writes? = some e →
    step.after.client.pipeline = step.before.client.pipeline.put e ∧
    step.after.client.pipeline.draws = step.before.client.pipeline.draws
  /-- A merged metric that is no batch has a line without a rate, whichever shard writes it. -/
  merged : ∀ m : Metric, step.writes? = some (.metric m) → m.kind.isReservoir = false ∧
    ∀ shard ∈ step.before.client.pipeline.shards,
      shard.packer.encoded step.before.client.pipeline.outbox (.metric m) =
        [Line.beforeRate config.options m ++ Line.afterRate config.options m].filter
          config.limits.fits

/-- Every step of a client with a configuration is fair. -/
theorem Configured.isFair (h : s.Configured config) (hstep : s.step? move = some s') :
    Step.IsFair config ⟨s, move, s'⟩ := by
  have heffect := effect_of_step hstep
  refine ⟨heffect.draws_eq, fun sample => h.treats heffect, fun m _ hrate => ?_,
    fun e hwrites => ?_, fun m hwrites => ?_⟩
  · exact Line.ofMetric_of_rate_lt _ hrate
  · obtain ⟨-, hput, hnone⟩ := h.put_of_writes heffect hwrites
    exact ⟨hput, heffect.draws_eq hnone⟩
  · obtain ⟨⟨hrate, hkind⟩, -⟩ := h.put_of_writes heffect hwrites
    refine ⟨hkind, fun shard hmem => ?_⟩
    rw [← Line.ofMetric_of_rate_eq _ hrate]
    exact h.encoded_sample hmem (.metric m)

omit [Transport τ] in
/-- In a fair step, one word at most is drawn. -/
theorem Step.IsFair.once {step : Step τ} (h : step.IsFair config) :
    step.after.client.pipeline.draws = step.before.client.pipeline.draws ∨
      step.after.client.pipeline.draws =
        { step.before.client.pipeline.draws with
          used := step.before.client.pipeline.draws.used + 1 } := by
  cases hdecides : step.decides? with
  | none => exact .inl (h.idle hdecides)
  | some sample => exact (h.treats sample hdecides).once

/-- **Sampled once.** In a run of a client with any configuration, whatever its parties do and
whatever words are drawn,

* each sample that is accepted is decided about once at most, and not at all while it is pending;
* the words drawn are those of the stream, one after the other, each of them for one decision;
* each step is fair: it draws nothing unless it decides about a sample, it merges or processes the
  sample as its rate and the draw say, and what a flush writes is not sampled again. -/
theorem sampled_at_most_once {transport : τ} {route : String → Nat} {draws : Draws}
    {client : Client τ} (hbuild : config.buildWith transport route draws = .ok client)
    (callers : Nat) {moves : List Move} (hrun : (start client callers).run? moves = some s) :
    let steps := (start client callers).trace moves
    (steps.filterMap Step.decides? ++ s.pending).Subperm (steps.filterMap Step.accepts?) ∧
    (∃ count, s.client.pipeline.draws = { draws with used := draws.used + count } ∧
      steps.filterMap Step.draws? = List.range' draws.used count) ∧
    ∀ step ∈ steps, step.IsFair config := by
  intro steps
  have hstart := configured_start hbuild callers
  have hfair : ∀ step ∈ steps, step.IsFair config :=
    trace_induction (I := Configured config) (fun h hstep => ⟨h.step hstep, h.isFair hstep⟩) hstart
      moves
  refine ⟨?_, ?_, hfair⟩
  · have hpending := pending_trace hrun
    rwa [pending_start hbuild, List.append_nil] at hpending
  · have hdraws : (start client callers).client.pipeline.draws = draws := by
      obtain ⟨-, later, -, rfl⟩ := Config.eq_of_buildWith hbuild
      obtain ⟨pool, -, hpipeline⟩ := config.pipeline_eq later route draws
      simp [start, hpipeline]
    obtain ⟨count, hlater, hrange⟩ := draws_trace hrun fun step hmem => (hfair step hmem).once
    rw [hdraws] at hlater hrange
    exact ⟨count, hlater, hrange⟩

/-- A histogram is merged, a count is sent twice with a timestamp, and a gauge is merged, all of
them at a rate of one half; then everything is flushed. The first of the counts is not kept. -/
theorem sampled_at_most_once_half_rates :
    let config : Config := { workers := 1, extendedAggregation := true }
    let draws : Draws := { word := fun n => if n = 1 then 0xFFFFFFFFFFFFFFFF else 0 }
    let client : Client Scripted :=
      { aggregator := config.aggregator
        pipeline := config.pipeline { timeout := some config.writeTimeout } (fun _ => 0) draws }
    let send (name : String) (value : Value) (timestamp : Option Nat) : Move :=
      .call 0 (.send (.metric { name, value, rate := 0.5, timestamp }))
    let moves : List Move :=
      [send "h" (.histogram 1) none, .proceed 0,
        send "c" (.count 2) (some 5), .proceed 0, .proceed 0,
        send "c" (.count 3) (some 5), .proceed 0, .proceed 0,
        send "g" (.gauge 4) none, .proceed 0, .call 0 .flush] ++
        List.replicate 9 (.proceed 0) ++ [.fetch, .carry, .proceed 0]
    let steps := (start client 1).trace moves
    config.buildWith {} (fun _ => 0) draws = .ok client ∧
    ∃ s, (start client 1).run? moves = some s ∧
      (steps.filterMap Step.decides?).map (Line.ofSample config.options) =
        ["h:1|h|@0.5\n", "c:2|c|@0.5|T5\n", "c:3|c|@0.5|T5\n", "g:4|g|@0.5\n"] ∧
      steps.filterMap Step.draws? = [0, 1, 2] ∧ s.client.pipeline.draws.used = 3 ∧
      s.client.pipeline.outbox.transport.writes =
        #[("c:3|c|@0.5|T5\ng:4|g\nh:1|h|@0.5\n", true)] ∧
      ∀ step ∈ steps, step.IsFair config := by
  intro config draws client send moves steps
  have hbuild : config.buildWith {} (fun _ => 0) draws = .ok client := rfl
  have hdecided : (steps.filterMap Step.decides?).map (Line.ofSample config.options) =
      ["h:1|h|@0.5\n", "c:2|c|@0.5|T5\n", "c:3|c|@0.5|T5\n", "g:4|g|@0.5\n"] := by
    decide +kernel
  -- The second word of the stream is the largest of all, and leaves its sample out.
  have hseen : ((start client 1).run? moves).map (fun s =>
      decide (s.client.pipeline.draws.used = 3) &&
        decide (s.client.pipeline.outbox.transport.writes =
          #[("c:3|c|@0.5|T5\ng:4|g\nh:1|h|@0.5\n", true)])) = some true := by
    decide +kernel
  obtain ⟨s, hrun, hs⟩ := Option.map_eq_some_iff.mp hseen
  simp only [Bool.and_eq_true, decide_eq_true_eq] at hs
  obtain ⟨-, ⟨count, hdraws, hrange⟩, hfair⟩ := sampled_at_most_once hbuild 1 hrun
  obtain rfl : count = 3 := by
    have hused := congrArg Draws.used hdraws
    rw [hs.1] at hused
    simpa [draws] using hused.symm
  exact ⟨hbuild, s, hrun, hdecided, hrange, hs.1, hs.2, hfair⟩

end System

end DogStatsD
