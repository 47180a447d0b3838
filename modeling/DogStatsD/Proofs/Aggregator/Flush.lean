import DogStatsD.Proofs.Aggregator.Merges

/-!
# Flushing What Was Merged

The tables of an aggregator hold its merges, each table those of its kind, and a flush gives back
what the merges amount to.

* `Aggregator.Holds`: the tables hold some merges;
* `Aggregator.Holds.apply`: a merge is put behind those held, whatever its kind;
* `Aggregator.Holds.flush_perm`: what a flush gives back;
* `Aggregator.flush_snd`, `Aggregator.contexts_flush`: what it leaves behind, and what it counts.
-/

namespace DogStatsD

/-! ## Aggregators and merges -/

def Merge.apply (a : Aggregator) : Merge → Aggregator
  | .count context value => a.count context value
  | .gauge context value => a.gauge context value
  | .set context value => a.set context value
  | .observation kind context value rate => a.record kind context value rate

namespace Aggregator

/-- The tables of an aggregator hold some merges. -/
structure Holds (a : Aggregator) (settings : AggregatorSettings) (merges : List Merge) : Prop where
  settings_eq : a.settings = settings
  counts : a.counts.Holds (merges.filterMap Merge.count?) sumOf
  gauges : a.gauges.Holds (merges.filterMap Merge.gauge?) lastOf
  sets : a.sets.Holds (merges.filterMap Merge.member?) distinct
  histograms : a.histograms.Holds (merges.filterMap (Merge.observation? .histogram))
    (recorded settings.maxSamples)
  distributions : a.distributions.Holds (merges.filterMap (Merge.observation? .distribution))
    (recorded settings.maxSamples)
  timings : a.timings.Holds (merges.filterMap (Merge.observation? .timing))
    (recorded settings.maxSamples)

/-- Empty tables hold nothing. -/
theorem holds_nil (settings : AggregatorSettings) (contexts : KindCounts) :
    Holds { settings, contexts } settings [] :=
  ⟨rfl, Table.holds_nil _, Table.holds_nil _, Table.holds_nil _, Table.holds_nil _,
    Table.holds_nil _, Table.holds_nil _⟩

variable {a : Aggregator} {settings : AggregatorSettings} {merges : List Merge}

/-- A merge of which a table keeps nothing leaves what the table holds alone. -/
theorem holds_of_none {α β : Type} {t : Table α} {value : List β → α}
    {keep : Merge → Option (Context × β)} (h : t.Holds (merges.filterMap keep) value) {m : Merge}
    (hnone : keep m = none) : t.Holds ((merges ++ [m]).filterMap keep) value := by
  simpa [hnone] using h

/-- An item that a table keeps of a merge is put behind what the table holds. -/
theorem holds_of_some {α β : Type} {t : Table α} {value : List β → α}
    {keep : Merge → Option (Context × β)} {m : Merge} {item : Context × β}
    (hsome : keep m = some item) (h : t.Holds (merges.filterMap keep ++ [item]) value) :
    t.Holds ((merges ++ [m]).filterMap keep) value := by
  simpa [hsome] using h

/-- A table of reservoirs holds one more observation. -/
theorem holds_merge_record {t : Table Reservoir} {log : List (Context × Float × Float)}
    {bound : Option Nat} (h : t.Holds log (recorded bound)) (context : Context)
    (value rate : Float) :
    (t.merge context { bound, firstRate := rate } (·.record value)).Holds
      (log ++ [(context, value, rate)]) (recorded bound) :=
  h.merge context (value, rate) _ _ rfl fun _ hne => (recorded_append bound hne (value, rate)).symm

/-- The tables hold one more merge. -/
theorem Holds.apply (h : a.Holds settings merges) (m : Merge) :
    (m.apply a).Holds settings (merges ++ [m]) := by
  obtain ⟨rfl, hcounts, hgauges, hsets, hhistograms, hdistributions, htimings⟩ := h
  -- A merge touches the table of its kind, and no other table keeps anything of it.
  cases m with
  | count context value =>
    have hadd := hcounts.merge context value 0 (· + value)
      (by simp [sumOf]) fun items _ => (sumOf_append items value).symm
    exact ⟨rfl, holds_of_some rfl hadd, holds_of_none hgauges rfl, holds_of_none hsets rfl,
      holds_of_none hhistograms rfl, holds_of_none hdistributions rfl, holds_of_none htimings rfl⟩
  | gauge context value =>
    have hlast := hgauges.merge context value 0.0 (fun _ => value) rfl
      fun items _ => by simp [lastOf]
    exact ⟨rfl, holds_of_none hcounts rfl, holds_of_some rfl hlast, holds_of_none hsets rfl,
      holds_of_none hhistograms rfl, holds_of_none hdistributions rfl, holds_of_none htimings rfl⟩
  | set context value =>
    have hinsert := hsets.merge context value [] (insertMember value) rfl
      fun items _ => (distinct_append items value).symm
    exact ⟨rfl, holds_of_none hcounts rfl, holds_of_none hgauges rfl, holds_of_some rfl hinsert,
      holds_of_none hhistograms rfl, holds_of_none hdistributions rfl, holds_of_none htimings rfl⟩
  | observation kind context value rate =>
    cases kind with
    | histogram =>
      have hrecord := holds_merge_record hhistograms context value rate
      exact ⟨rfl, holds_of_none hcounts rfl, holds_of_none hgauges rfl, holds_of_none hsets rfl,
        holds_of_some rfl hrecord, holds_of_none hdistributions rfl, holds_of_none htimings rfl⟩
    | distribution =>
      have hrecord := holds_merge_record hdistributions context value rate
      exact ⟨rfl, holds_of_none hcounts rfl, holds_of_none hgauges rfl, holds_of_none hsets rfl,
        holds_of_none hhistograms rfl, holds_of_some rfl hrecord, holds_of_none htimings rfl⟩
    | timing =>
      have hrecord := holds_merge_record htimings context value rate
      exact ⟨rfl, holds_of_none hcounts rfl, holds_of_none hgauges rfl, holds_of_none hsets rfl,
        holds_of_none hhistograms rfl, holds_of_none hdistributions rfl, holds_of_some rfl hrecord⟩
    | gauge | count | set =>
      exact ⟨rfl, holds_of_none hcounts rfl, holds_of_none hgauges rfl, holds_of_none hsets rfl,
        holds_of_none hhistograms rfl, holds_of_none hdistributions rfl,
        holds_of_none htimings rfl⟩

/-! ## Flushes -/

/-- The totals are taken out. -/
theorem Holds.drainCounts_perm (h : a.Holds settings merges) :
    a.drainCounts.1.Perm (totalsOf merges) := by
  refine (h.counts.entries_perm.map _).trans (.of_eq ?_)
  rw [List.map_map]
  rfl

/-- The last values are taken out. -/
theorem Holds.drainGauges_perm (h : a.Holds settings merges) :
    a.drainGauges.1.Perm (lastsOf merges) := by
  refine (h.gauges.entries_perm.map _).trans (.of_eq ?_)
  rw [List.map_map]
  rfl

/-- The members of each context one after the other are the distinct items of the log. -/
theorem members_perm (log : List (Context × String)) :
    ((contextsOf log).flatMap fun context =>
      (distinct (itemsOf log context)).map (context, ·)).Perm log.dedup := by
  have hnodup : ((contextsOf log).flatMap fun context =>
      (distinct (itemsOf log context)).map (context, ·)).Nodup := by
    rw [List.nodup_flatMap]
    refine ⟨?_, (nodup_contextsOf log).imp fun {c d} hne => ?_⟩
    · intro context _
      exact (distinct_spec _).1.map fun a b hab => congrArg Prod.snd hab
    · -- Members of two contexts differ in their contexts.
      intro pair hc hd
      obtain ⟨_, -, rfl⟩ := List.mem_map.mp hc
      obtain ⟨_, -, heq⟩ := List.mem_map.mp hd
      exact hne (congrArg Prod.fst heq).symm
  refine (List.perm_ext_iff_of_nodup hnodup (List.nodup_dedup log)).mpr ?_
  rintro ⟨context, member⟩
  simp only [List.mem_flatMap, List.mem_map, (distinct_spec _).2, mem_itemsOf, List.mem_dedup]
  constructor
  · rintro ⟨_, -, _, hmem, heq⟩
    exact heq ▸ hmem
  · intro hmem
    have hcontext : context ∈ contextsOf log :=
      (mem_contextsOf log context).mpr (List.mem_map_of_mem (f := Prod.fst) hmem)
    exact ⟨context, hcontext, member, hmem, rfl⟩

/-- Each member is taken out once. -/
theorem Holds.drainSets_perm (h : a.Holds settings merges) :
    a.drainSets.1.Perm (membersOf merges) := by
  have hmembers := (members_perm (merges.filterMap Merge.member?)).map fun pair =>
    Entry.metric (pair.1.metric (.set pair.2))
  rw [List.map_flatMap] at hmembers
  refine (h.sets.entries_perm.flatMap_right _).trans ?_
  rw [List.flatMap_map]
  simp only [List.map_map] at hmembers
  exact hmembers

/-- A table of reservoirs gives one batch back for each context. -/
theorem batches_perm {t : Table Reservoir} {bound : Option Nat} {kind : Kind}
    (h : t.Holds (merges.filterMap (Merge.observation? kind)) (recorded bound)) :
    (batches kind t).Perm (batchesOf bound kind merges) := by
  refine (h.entries_perm.filterMap _).trans (.of_eq ?_)
  rw [List.filterMap_map, batchesOf, ← List.filterMap_eq_map]
  refine List.filterMap_congr ?_
  intro context hmem
  -- A context of the log has an item, so that its batch is not left out.
  have hitems := itemsOf_ne_nil _ context ((mem_contextsOf _ context).mp hmem)
  have hvalues := keptOf_ne_nil bound (mt (List.map_eq_nil_iff (f := Prod.fst)).mp hitems)
  simp only [Function.comp_apply, values_recorded, rate_recorded bound kind context hitems,
    List.isEmpty_iff, hvalues, if_false]
  rfl

/-- The number of contexts that a flush takes out of the tables of a kind. -/
def sizeOf (a : Aggregator) : Kind → Nat
  | .count => a.counts.size
  | .gauge => a.gauges.size
  | .set => a.sets.size
  | .histogram => a.histograms.size
  | .distribution => a.distributions.size
  | .timing => a.timings.size

/-- A flush gives back what was merged. -/
theorem Holds.flush_perm (h : a.Holds settings merges) :
    a.flush.1.Perm (entriesOf settings.maxSamples merges) := by
  have hflush : a.flush.1 = a.drainCounts.1 ++ a.drainGauges.1 ++ a.drainSets.1 ++
      a.drainHistograms.1 ++ a.drainDistributions.1 ++ a.drainTimings.1 := by
    simp [flush, drainOrder, drainAll, drain, drainCounts, drainGauges, drainSets, drainHistograms,
      drainDistributions, drainTimings]
  rw [hflush]
  -- Kind by kind, in the order in which they are drained.
  exact ((((h.drainCounts_perm.append h.drainGauges_perm).append h.drainSets_perm).append
    (batches_perm h.histograms)).append (batches_perm h.distributions)).append
      (batches_perm h.timings)

/-- A flush leaves empty tables behind. -/
theorem flush_snd (a : Aggregator) :
    a.flush.2 = { settings := a.settings, contexts := a.flush.2.contexts } :=
  rfl

/-- A flush counts the contexts that it takes out. -/
theorem contexts_flush (a : Aggregator) (kind : Kind) :
    a.flush.2.contexts.of kind = a.contexts.of kind + a.sizeOf kind := by
  cases kind <;> rfl

/-- The contexts taken out are those of the merges. -/
theorem Holds.sizeOf_eq (h : a.Holds settings merges) (kind : Kind) :
    a.sizeOf kind = (flushedContexts merges kind).length := by
  cases kind with
  | count => exact h.counts.size_eq
  | gauge => exact h.gauges.size_eq
  | set => exact h.sets.size_eq
  | histogram => exact h.histograms.size_eq
  | distribution => exact h.distributions.size_eq
  | timing => exact h.timings.size_eq

end Aggregator

end DogStatsD
