import DogStatsD.Proofs.Aggregator.Flush

/-!
# What Is Flushed of One Context

Of a count and of a gauge, a flush gives back one metric for each context, made of what was merged
into that context, and none for a context that nothing was merged into.

* `metricsFor`: the metrics of one kind and context;
* `Aggregator.Holds.counts_flush`, `Aggregator.Holds.gauges_flush`: what a flush has of them;
* `Aggregator.Holds.mem_flush`: there is nothing else if nothing else was merged.
-/

namespace DogStatsD

/-- The metrics of one kind and context among some entries. -/
def metricsFor (kind : Kind) (context : Context) (entries : List Entry) : List Metric :=
  entries.filterMap fun
    | .sample (.metric m) =>
      if m.kind = kind ∧ Context.ofMetric none m = context then some m else none
    | .sample (.event _) | .sample (.serviceCheck _) | .batch _ => none

section

variable {kind : Kind} {context : Context}

theorem metricsFor_append (entries others : List Entry) :
    metricsFor kind context (entries ++ others) =
      metricsFor kind context entries ++ metricsFor kind context others :=
  List.filterMap_append

/-- A metric made of a context is found under it. -/
theorem ofMetric_metric (c : Context) (value : Value) :
    Context.ofMetric none (c.metric value) = c := by
  simp [Context.ofMetric, Context.metric]

/-- Of the metrics of one kind made of the contexts of a log, one is that of a given context, if
the context has items. -/
theorem metricsFor_map_contextsOf {β : Type} (log : List (Context × β)) (value : Context → Value)
    (hkind : ∀ c, (value c).kind = kind) :
    metricsFor kind context ((contextsOf log).map fun c => .metric (c.metric (value c))) =
      if itemsOf log context = [] then [] else [context.metric (value context)] := by
  have hselect := filterMap_contextsOf log context fun c => c.metric (value c)
  rw [metricsFor, List.filterMap_map, ← hselect]
  refine List.filterMap_congr ?_
  intro c _
  have hc : (c.metric (value c)).kind = kind := hkind c
  simp [Entry.metric, hc, ofMetric_metric]

/-- Metrics of another kind are none of this one. -/
theorem metricsFor_map_of_ne {α : Type} (items : List α) (metric : α → Metric)
    (hkind : ∀ item, (metric item).kind ≠ kind) :
    metricsFor kind context (items.map fun item => .metric (metric item)) = [] := by
  simp [metricsFor, Entry.metric, List.filterMap_map, hkind]

/-- Members of sets are no metrics of any other kind. -/
theorem metricsFor_membersOf (context : Context) (hkind : Kind.set ≠ kind) (merges : List Merge) :
    metricsFor kind context (membersOf merges) = [] := by
  simp only [metricsFor, membersOf, List.filterMap_map, List.filterMap_eq_nil_iff]
  intro pair _
  exact if_neg fun h => hkind h.1

/-- Batches are no metrics. -/
theorem metricsFor_batchesOf (bound : Option Nat) (other : Kind) (merges : List Merge) :
    metricsFor kind context (batchesOf bound other merges) = [] := by
  simp [metricsFor, batchesOf, List.filterMap_map]

end

namespace Aggregator

variable {a : Aggregator} {settings : AggregatorSettings} {merges : List Merge}

/-- Metrics that are no members come from totals and last values. -/
theorem Holds.metricsFor_flush_perm (h : a.Holds settings merges) {kind : Kind} (context : Context)
    (hkind : .set ≠ kind) :
    (metricsFor kind context a.flush.1).Perm
      (metricsFor kind context (totalsOf merges) ++ metricsFor kind context (lastsOf merges)) := by
  have hperm : (metricsFor kind context a.flush.1).Perm
      (metricsFor kind context (entriesOf settings.maxSamples merges)) := h.flush_perm.filterMap _
  simpa only [entriesOf, metricsFor_append, metricsFor_membersOf context hkind,
    metricsFor_batchesOf, List.append_nil] using hperm

/-- A flush gives back one count for a context that was counted, which is the sum. -/
theorem Holds.counts_flush (h : a.Holds settings merges) (context : Context) :
    let items := itemsOf (merges.filterMap Merge.count?) context
    metricsFor .count context a.flush.1 =
      if items = [] then [] else [context.metric (.count (sumOf items))] := by
  intro items
  have htotals : metricsFor .count context (totalsOf merges) =
      if items = [] then [] else [context.metric (.count (sumOf items))] :=
    metricsFor_map_contextsOf _ (fun c => .count (sumOf (itemsOf _ c))) fun _ => rfl
  have hlasts : metricsFor .count context (lastsOf merges) = [] :=
    metricsFor_map_of_ne _ _ fun _ => nofun
  have hperm := h.metricsFor_flush_perm context (by decide : Kind.set ≠ .count)
  rw [htotals, hlasts, List.append_nil] at hperm
  exact eq_of_perm_ite hperm

/-- A flush gives back one gauge for a context that was set, which is the last value. -/
theorem Holds.gauges_flush (h : a.Holds settings merges) (context : Context) :
    let items := itemsOf (merges.filterMap Merge.gauge?) context
    metricsFor .gauge context a.flush.1 =
      if items = [] then [] else [context.metric (.gauge (lastOf items))] := by
  intro items
  have htotals : metricsFor .gauge context (totalsOf merges) = [] :=
    metricsFor_map_of_ne _ _ fun _ => nofun
  have hlasts : metricsFor .gauge context (lastsOf merges) =
      if items = [] then [] else [context.metric (.gauge (lastOf items))] :=
    metricsFor_map_contextsOf _ (fun c => .gauge (lastOf (itemsOf _ c))) fun _ => rfl
  have hperm := h.metricsFor_flush_perm context (by decide : Kind.set ≠ .gauge)
  rw [htotals, hlasts, List.nil_append] at hperm
  exact eq_of_perm_ite hperm

/-- If only counts and gauges were merged, a flush gives back only their totals and last values. -/
theorem Holds.mem_flush (h : a.Holds settings merges)
    (hmerges : ∀ m ∈ merges, m.count?.isSome = true ∨ m.gauge?.isSome = true) {e : Entry}
    (he : e ∈ a.flush.1) :
    (∃ context ∈ (merges.filterMap Merge.count?).map Prod.fst, ∃ total,
      e = .metric (context.metric (.count total))) ∨
    ∃ context ∈ (merges.filterMap Merge.gauge?).map Prod.fst, ∃ value,
      e = .metric (context.metric (.gauge value)) := by
  -- Nothing is kept of the merges by what keeps neither counts nor gauges.
  have hnone {β : Type} {keep : Merge → Option β} (hcount : ∀ c n, keep (.count c n) = none)
      (hgauge : ∀ c x, keep (.gauge c x) = none) : merges.filterMap keep = [] := by
    rw [List.filterMap_eq_nil_iff]
    intro m hm
    cases m with
    | count context value => exact hcount context value
    | gauge context value => exact hgauge context value
    | set | observation => simpa [Merge.count?, Merge.gauge?] using hmerges _ hm
  have hmembers : membersOf merges = [] := by
    rw [membersOf, hnone (fun _ _ => rfl) fun _ _ => rfl]
    rfl
  have hbatches (kind : Kind) : batchesOf settings.maxSamples kind merges = [] := by
    rw [batchesOf, hnone (fun _ _ => rfl) fun _ _ => rfl]
    rfl
  have hmem := h.flush_perm.mem_iff.mp he
  rw [entriesOf, hmembers, hbatches, hbatches, hbatches] at hmem
  simp only [List.append_nil, List.mem_append] at hmem
  rcases hmem with htotal | hlast
  · obtain ⟨context, hcontext, heq⟩ := List.mem_map.mp htotal
    exact .inl ⟨context, (mem_contextsOf _ _).mp hcontext, _, heq.symm⟩
  · obtain ⟨context, hcontext, heq⟩ := List.mem_map.mp hlast
    exact .inr ⟨context, (mem_contextsOf _ _).mp hcontext, _, heq.symm⟩

end Aggregator

end DogStatsD
