import DogStatsD.Proofs.Aggregator.Flush

/-!
# Draining One Kind

A flush drains one kind after the other, and samples may be merged in between. What one drain takes
out is what the merges of its kind amount to; the merges of the other kinds stay.

* `drainedOf`: what is taken out of a kind after some merges;
* `Aggregator.Holds.drain_perm`, `Aggregator.Holds.drain`: what a drain gives back and leaves;
* `Table.Holds.get?_eq`: the entry of a context in a table;
* `counts_drainedOf`, `gauges_drainedOf`, `members_drainedOf`, `values_drainedOf`: what the entries
  drained say of each context;
* `slots_drainedOf`: no two of them are of one kind and one context, members of sets apart;
* `exists_label?_drainedOf`: every merge of the kind is represented by an entry.
-/

namespace DogStatsD

/-- What is taken out of a kind after some merges. -/
def drainedOf (bound : Option Nat) (kind : Kind) (merges : List Merge) : List Entry :=
  match kind with
  | .count => totalsOf merges
  | .gauge => lastsOf merges
  | .set => membersOf merges
  | .histogram | .distribution | .timing => batchesOf bound kind merges

/-! ## Merges of one kind -/

namespace Merge

theorem kind_of_count? {m : Merge} {item : Context × Int64} (h : m.count? = some item) :
    m.kind = .count := by
  cases m with
  | count => rfl
  | gauge | set | observation => cases h

theorem kind_of_gauge? {m : Merge} {item : Context × Float} (h : m.gauge? = some item) :
    m.kind = .gauge := by
  cases m with
  | gauge => rfl
  | count | set | observation => cases h

theorem kind_of_member? {m : Merge} {item : Context × String} (h : m.member? = some item) :
    m.kind = .set := by
  cases m with
  | set => rfl
  | count | gauge | observation => cases h

theorem kind_of_observation? {kind : Kind} {m : Merge} {item : Context × Float × Float}
    (h : m.observation? kind = some item) : m.kind = kind := by
  cases m with
  | observation k context value rate =>
    rw [observation?] at h
    split at h
    next hk => exact hk
    · cases h
  | count | gauge | set => cases h

end Merge

section

variable {β : Type} {keep : Merge → Option β} {kind : Kind} {merges : List Merge}

/-- What is kept of the merges of a kind is kept of those among any others. -/
theorem filterMap_ofKind (hkeep : ∀ m item, keep m = some item → m.kind = kind) :
    (merges.filter (·.kind = kind)).filterMap keep = merges.filterMap keep := by
  rw [List.filterMap_filter]
  refine List.filterMap_congr fun m _ => ?_
  cases hitem : keep m with
  | none => simp
  | some item => simp [hkeep m item hitem]

/-- Nothing is kept for a kind whose merges are gone. -/
theorem filterMap_gone (hkeep : ∀ m item, keep m = some item → m.kind = kind) :
    (merges.filter (·.kind ≠ kind)).filterMap keep = [] := by
  rw [List.filterMap_eq_nil_iff]
  intro m hm
  cases hitem : keep m with
  | none => rfl
  | some item =>
    rw [List.mem_filter, decide_eq_true_eq] at hm
    exact absurd (hkeep m item hitem) hm.2

/-- What is kept for a kind does not change when the merges of another one are gone. -/
theorem filterMap_others {other : Kind} (hkeep : ∀ m item, keep m = some item → m.kind = other)
    (hne : other ≠ kind) :
    (merges.filter (·.kind ≠ kind)).filterMap keep = merges.filterMap keep := by
  rw [List.filterMap_filter]
  refine List.filterMap_congr fun m _ => ?_
  cases hitem : keep m with
  | none => simp
  | some item => simp [hkeep m item hitem, hne]

end

/-- What is taken out of a kind depends on the merges of that kind only. -/
theorem drainedOf_congr {bound : Option Nat} {kind : Kind} {merges others : List Merge}
    (h : merges.filter (·.kind = kind) = others.filter (·.kind = kind)) :
    drainedOf bound kind merges = drainedOf bound kind others := by
  have hlog {β : Type} {keep : Merge → Option β}
      (hkeep : ∀ m item, keep m = some item → m.kind = kind) :
      merges.filterMap keep = others.filterMap keep := by
    rw [← filterMap_ofKind hkeep, h, filterMap_ofKind hkeep]
  cases kind with
  | count => simp only [drainedOf, totalsOf, hlog fun _ _ => Merge.kind_of_count?]
  | gauge => simp only [drainedOf, lastsOf, hlog fun _ _ => Merge.kind_of_gauge?]
  | set => simp only [drainedOf, membersOf, hlog fun _ _ => Merge.kind_of_member?]
  | histogram | distribution | timing =>
    simp only [drainedOf, batchesOf, hlog fun _ _ => Merge.kind_of_observation?]

namespace Aggregator

variable {a : Aggregator} {settings : AggregatorSettings} {merges : List Merge}

/-- A drain gives back what the merges of its kind amount to. -/
theorem Holds.drain_perm (h : a.Holds settings merges) (kind : Kind) :
    (a.drain kind).1.Perm (drainedOf settings.maxSamples kind merges) := by
  cases kind with
  | count => exact h.drainCounts_perm
  | gauge => exact h.drainGauges_perm
  | set => exact h.drainSets_perm
  | histogram => exact batches_perm h.histograms
  | distribution => exact batches_perm h.distributions
  | timing => exact batches_perm h.timings

/-- An emptied table holds the merges among which there are none of its kind. -/
theorem holds_drained {α β : Type} {value : List β → α} {keep : Merge → Option (Context × β)}
    {kind : Kind} (hkeep : ∀ m item, keep m = some item → m.kind = kind) :
    Table.Holds {} ((merges.filter (·.kind ≠ kind)).filterMap keep) value := by
  rw [filterMap_gone hkeep]
  exact Table.holds_nil value

/-- A table of another kind goes on holding what it held. -/
theorem holds_others {α β : Type} {t : Table α} {value : List β → α}
    {keep : Merge → Option (Context × β)} {kind other : Kind}
    (h : t.Holds (merges.filterMap keep) value)
    (hkeep : ∀ m item, keep m = some item → m.kind = other) (hne : other ≠ kind) :
    t.Holds ((merges.filter (·.kind ≠ kind)).filterMap keep) value := by
  rw [filterMap_others hkeep hne]
  exact h

/-- A drain leaves the merges of the other kinds. -/
theorem Holds.drain (h : a.Holds settings merges) (kind : Kind) :
    (a.drain kind).2.Holds settings (merges.filter (·.kind ≠ kind)) := by
  obtain ⟨rfl, hcounts, hgauges, hsets, hhistograms, hdistributions, htimings⟩ := h
  -- A table of another kind has the same merges as before.
  have hcount (hne : Kind.count ≠ kind) :=
    holds_others hcounts (fun _ _ => Merge.kind_of_count?) hne
  have hgauge (hne : Kind.gauge ≠ kind) :=
    holds_others hgauges (fun _ _ => Merge.kind_of_gauge?) hne
  have hset (hne : Kind.set ≠ kind) := holds_others hsets (fun _ _ => Merge.kind_of_member?) hne
  have hhistogram (hne : Kind.histogram ≠ kind) :=
    holds_others hhistograms (fun _ _ => Merge.kind_of_observation?) hne
  have hdistribution (hne : Kind.distribution ≠ kind) :=
    holds_others hdistributions (fun _ _ => Merge.kind_of_observation?) hne
  have htiming (hne : Kind.timing ≠ kind) :=
    holds_others htimings (fun _ _ => Merge.kind_of_observation?) hne
  cases kind with
  | count =>
    exact ⟨rfl, holds_drained fun _ _ => Merge.kind_of_count?, hgauge nofun, hset nofun,
      hhistogram nofun, hdistribution nofun, htiming nofun⟩
  | gauge =>
    exact ⟨rfl, hcount nofun, holds_drained fun _ _ => Merge.kind_of_gauge?, hset nofun,
      hhistogram nofun, hdistribution nofun, htiming nofun⟩
  | set =>
    exact ⟨rfl, hcount nofun, hgauge nofun, holds_drained fun _ _ => Merge.kind_of_member?,
      hhistogram nofun, hdistribution nofun, htiming nofun⟩
  | histogram =>
    exact ⟨rfl, hcount nofun, hgauge nofun, hset nofun,
      holds_drained fun _ _ => Merge.kind_of_observation?, hdistribution nofun, htiming nofun⟩
  | distribution =>
    exact ⟨rfl, hcount nofun, hgauge nofun, hset nofun, hhistogram nofun,
      holds_drained fun _ _ => Merge.kind_of_observation?, htiming nofun⟩
  | timing =>
    exact ⟨rfl, hcount nofun, hgauge nofun, hset nofun, hhistogram nofun, hdistribution nofun,
      holds_drained fun _ _ => Merge.kind_of_observation?⟩

end Aggregator

/-! ## Reading entries -/

/-- The context that a metric shows. -/
def Metric.context (m : Metric) : Context where
  name := m.name
  cardinality := m.cardinality
  tags := m.tags

namespace Entry

/-- The difference of an entry that is a count, with its context. -/
def count? : Entry → Option (Context × Int64)
  | .sample (.metric m) =>
    match m.value with
    | .count value => some (m.context, value)
    | .gauge _ | .set _ | .histogram _ | .distribution _ | .timing _ => none
  | .sample (.event _) | .sample (.serviceCheck _) | .batch _ => none

/-- The value of an entry that is a gauge, with its context. -/
def gauge? : Entry → Option (Context × Float)
  | .sample (.metric m) =>
    match m.value with
    | .gauge value => some (m.context, value)
    | .count _ | .set _ | .histogram _ | .distribution _ | .timing _ => none
  | .sample (.event _) | .sample (.serviceCheck _) | .batch _ => none

/-- The member of an entry that is one of a set, with its context. -/
def member? : Entry → Option (Context × String)
  | .sample (.metric m) =>
    match m.value with
    | .set member => some (m.context, member)
    | .gauge _ | .count _ | .histogram _ | .distribution _ | .timing _ => none
  | .sample (.event _) | .sample (.serviceCheck _) | .batch _ => none

/-- The values of an entry that is a batch of a kind, with their context. -/
def values? (kind : Kind) : Entry → Option (Context × List Float)
  | .batch b => if b.kind = kind then some (b.context, b.values) else none
  | .sample _ => none

/-- The kind and the context of an entry that is the only one of its kind and its context in a
flush: any but a member of a set. -/
def slot? : Entry → Option (Kind × Context)
  | .batch b => some (b.kind, b.context)
  | .sample (.metric m) => if m.kind = .set then none else some (m.kind, m.context)
  | .sample (.event _) | .sample (.serviceCheck _) => none

end Entry

/-- Of items made one for each context of a log, a context has the one made for it. -/
theorem itemsOf_map_contextsOf {β γ : Type} (log : List (Context × β)) (made : Context → γ)
    (c : Context) : itemsOf ((contextsOf log).map fun d => (d, made d)) c =
      if c ∈ log.map Prod.fst then [made c] else [] := by
  have hfilter : ((contextsOf log).map fun d => (d, made d)).filter (·.1 = c) =
      ((contextsOf log).filter (· = c)).map fun d => (d, made d) := by
    rw [List.filter_map]
    rfl
  rw [itemsOf, hfilter, List.filter_eq, List.map_replicate, List.map_replicate]
  simp only [← mem_contextsOf]
  -- A context of the log is there once.
  split
  next hmem => rw [List.count_eq_one_of_mem (nodup_contextsOf log) hmem, List.replicate_one]
  next hmem => rw [List.count_eq_zero_of_not_mem hmem, List.replicate_zero]

section

variable (bound : Option Nat) (kind : Kind) (merges : List Merge) (c : Context)

/-- What is read of entries none of which can be read so is nothing. -/
theorem filterMap_map_none {α β γ : Type} {l : List α} {made : α → β} {read : β → Option γ}
    (h : ∀ a, read (made a) = none) : (l.map made).filterMap read = [] := by
  rw [List.filterMap_map, List.filterMap_eq_nil_iff]
  exact fun a _ => h a

/-- What is read of entries made one for each context is one item for each context. -/
theorem filterMap_map_some {α β γ : Type} {l : List α} {made : α → β} {read : β → Option γ}
    {item : α → γ} (h : ∀ a, read (made a) = some (item a)) :
    (l.map made).filterMap read = l.map item := by
  rw [List.filterMap_map, ← List.filterMap_eq_map]
  exact List.filterMap_congr fun a _ => h a

/-- The counts drained have one total for each context with differences. -/
theorem counts_drainedOf :
    (drainedOf bound kind merges).filterMap Entry.count? =
      if kind = .count then
        (contextsOf (merges.filterMap Merge.count?)).map fun context =>
          (context, sumOf (itemsOf (merges.filterMap Merge.count?) context))
      else [] := by
  cases kind with
  | count => exact filterMap_map_some fun _ => rfl
  | gauge | set | histogram | distribution | timing => exact filterMap_map_none fun _ => rfl

theorem gauges_drainedOf :
    (drainedOf bound kind merges).filterMap Entry.gauge? =
      if kind = .gauge then
        (contextsOf (merges.filterMap Merge.gauge?)).map fun context =>
          (context, lastOf (itemsOf (merges.filterMap Merge.gauge?) context))
      else [] := by
  cases kind with
  | gauge => exact filterMap_map_some fun _ => rfl
  | count | set | histogram | distribution | timing => exact filterMap_map_none fun _ => rfl

/-- The members drained are the distinct ones merged. -/
theorem members_drainedOf :
    (drainedOf bound .set merges).filterMap Entry.member? =
      (merges.filterMap Merge.member?).dedup := by
  have hread : (drainedOf bound .set merges).filterMap Entry.member? =
      ((merges.filterMap Merge.member?).dedup).map id := filterMap_map_some fun _ => rfl
  rw [hread, List.map_id]

/-- The batches drained have the values kept of each context with observations. -/
theorem values_drainedOf {wanted : Kind} (hwanted : wanted.isReservoir = true) :
    (drainedOf bound kind merges).filterMap (Entry.values? wanted) =
      if kind = wanted then
        (contextsOf (merges.filterMap (Merge.observation? kind))).map fun context =>
          (context, keptOf bound
            ((itemsOf (merges.filterMap (Merge.observation? kind)) context).map Prod.fst))
      else [] := by
  cases kind with
  | count | gauge | set =>
    rw [if_neg (by rintro rfl; cases hwanted)]
    exact filterMap_map_none fun _ => rfl
  | histogram | distribution | timing =>
    split
    next hkind => exact filterMap_map_some fun _ => if_pos hkind
    next hkind => exact filterMap_map_none fun _ => if_neg hkind

/-- The slots of what is drained are of the kind drained, and no two are of one context. -/
theorem slots_drainedOf :
    ((drainedOf bound kind merges).filterMap Entry.slot?).Nodup ∧
      ∀ slot ∈ (drainedOf bound kind merges).filterMap Entry.slot?, slot.1 = kind := by
  have hone {β : Type} (log : List (Context × β)) {made : Context → Entry}
      (hmade : ∀ context, (made context).slot? = some (kind, context)) :
      (((contextsOf log).map made).filterMap Entry.slot?).Nodup ∧
        ∀ slot ∈ ((contextsOf log).map made).filterMap Entry.slot?, slot.1 = kind := by
    rw [filterMap_map_some hmade]
    refine ⟨(nodup_contextsOf log).map fun a b hab => congrArg Prod.snd hab, ?_⟩
    intro slot hslot
    obtain ⟨context, -, rfl⟩ := List.mem_map.mp hslot
    rfl
  cases kind with
  | set =>
    have hnone : (drainedOf bound .set merges).filterMap Entry.slot? = [] :=
      filterMap_map_none fun _ => rfl
    rw [hnone]
    exact ⟨List.nodup_nil, fun _ h => absurd h List.not_mem_nil⟩
  | count | gauge | histogram | distribution | timing => exact hone _ fun _ => rfl

end

/-- The last value of some gauges is the one drained, if there is one. -/
theorem getLast?_toList_eq (values : List Float) :
    values.getLast?.toList = if values = [] then [] else [lastOf values] := by
  cases values with
  | nil => rfl
  | cons value rest => simp [lastOf, List.getLast?_cons, List.getLastD_eq_getLast?]

/-- In whatever order entries are drained, a context has its last value among the gauges. -/
theorem gauges_of_perm {bound : Option Nat} {kind : Kind} {merges : List Merge}
    {entries : List Entry} (h : entries.Perm (drainedOf bound kind merges)) (c : Context) :
    itemsOf (entries.filterMap Entry.gauge?) c =
      if kind = .gauge then (itemsOf (merges.filterMap Merge.gauge?) c).getLast?.toList
      else [] := by
  have hperm := ((h.filterMap Entry.gauge?).filter (·.1 = c)).map Prod.snd
  rw [gauges_drainedOf] at hperm
  split
  next hkind =>
    rw [if_pos hkind] at hperm
    have hitems := itemsOf_map_contextsOf (merges.filterMap Merge.gauge?)
      (fun context => lastOf (itemsOf (merges.filterMap Merge.gauge?) context)) c
    rw [itemsOf] at hitems
    rw [hitems] at hperm
    rw [getLast?_toList_eq]
    split at hperm
    next hmem =>
      rw [if_neg (itemsOf_ne_nil _ _ hmem)]
      exact hperm.eq_singleton
    next hmem =>
      rw [if_pos (itemsOf_eq_nil _ _ hmem)]
      exact hperm.eq_nil
  next hkind =>
    rw [if_neg hkind] at hperm
    exact hperm.eq_nil

/-! ## Whom entries represent -/

/-- What entries and merges have in common: the kind, the context and, of a set, the member. -/
structure Label where
  kind : Kind
  context : Context
  member : Option String := none
  deriving DecidableEq

namespace Merge

/-- The label of the entry that represents a merge. -/
def label : Merge → Label
  | .count context _ => { kind := .count, context }
  | .gauge context _ => { kind := .gauge, context }
  | .set context member => { kind := .set, context, member := some member }
  | .observation kind context _ _ => { kind, context }

/-- Only of histograms, distributions and timings there are observations. -/
def IsProper : Merge → Prop
  | .observation kind .. => kind.isReservoir = true
  | .count .. | .gauge .. | .set .. => True

end Merge

/-- The label of an entry, if it has one. -/
def Entry.label? : Entry → Option Label
  | .batch b => some { kind := b.kind, context := b.context }
  | .sample (.metric m) =>
    match m.value with
    | .set member => some { kind := .set, context := m.context, member := some member }
    | .count _ | .gauge _ | .histogram _ | .distribution _ | .timing _ =>
      some { kind := m.kind, context := m.context }
  | .sample (.event _) | .sample (.serviceCheck _) => none

/-- Every merge of the kind drained is represented by an entry. -/
theorem exists_label?_drainedOf (bound : Option Nat) {merges : List Merge} {m : Merge}
    (hm : m ∈ merges) (hproper : m.IsProper) :
    ∃ e ∈ drainedOf bound m.kind merges, e.label? = some m.label := by
  have hcontext {β : Type} (keep : Merge → Option (Context × β)) {c : Context} {item : β}
      (hkeep : keep m = some (c, item)) : c ∈ contextsOf (merges.filterMap keep) := by
    rw [mem_contextsOf, List.mem_map]
    exact ⟨(c, item), List.mem_filterMap.mpr ⟨m, hm, hkeep⟩, rfl⟩
  cases m with
  | count c value => exact ⟨_, List.mem_map_of_mem (hcontext Merge.count? rfl), rfl⟩
  | gauge c value => exact ⟨_, List.mem_map_of_mem (hcontext Merge.gauge? rfl), rfl⟩
  | set c member =>
    have hmember : (c, member) ∈ (merges.filterMap Merge.member?).dedup :=
      List.mem_dedup.mpr (List.mem_filterMap.mpr ⟨_, hm, rfl⟩)
    exact ⟨_, List.mem_map_of_mem hmember, rfl⟩
  | observation kind c value rate =>
    have hmem := hcontext (Merge.observation? kind) (if_pos rfl)
    cases kind with
    | histogram | distribution | timing => exact ⟨_, List.mem_map_of_mem hmem, rfl⟩
    | count | gauge | set => cases hproper

/-- The entry of a context in a table is made of its items. -/
theorem Table.Holds.get?_eq {α β : Type} {t : Table α} {log : List (Context × β)}
    {value : List β → α} (h : t.Holds log value) (c : Context) :
    t.get? c = if c ∈ log.map Prod.fst then some (value (itemsOf log c)) else none := by
  unfold Table.get?
  cases hfind : t.entries.find? _ with
  | none =>
    have hnone : c ∉ log.map Prod.fst := by
      rw [← h.mem_keys_iff]
      intro hmem
      obtain ⟨entry, hentry, rfl⟩ := List.mem_map.mp hmem
      exact List.find?_eq_none.mp hfind entry hentry (decide_eq_true rfl)
    rw [if_neg hnone]
    rfl
  | some entry =>
    obtain ⟨d, x⟩ := entry
    obtain rfl : d = c := by simpa using List.find?_some hfind
    obtain ⟨hmem, rfl⟩ := (h.mem_iff d x).mp (List.mem_of_find?_eq_some hfind)
    rw [if_pos hmem]
    rfl

/-- The table of gauges has the last value of a context. -/
theorem Aggregator.Holds.get?_gauges {a : Aggregator} {settings : AggregatorSettings}
    {merges : List Merge} (h : a.Holds settings merges) (c : Context) :
    a.gauges.get? c = (itemsOf (merges.filterMap Merge.gauge?) c).getLast? := by
  rw [h.gauges.get?_eq]
  split
  next hmem =>
    have hlast := getLast?_toList_eq (itemsOf (merges.filterMap Merge.gauge?) c)
    rw [if_neg (itemsOf_ne_nil _ _ hmem)] at hlast
    exact (Option.toList_eq_singleton_iff.mp hlast).symm
  next hmem =>
    rw [itemsOf_eq_nil _ _ hmem]
    rfl

end DogStatsD
