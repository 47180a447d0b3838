import DogStatsD.Proofs.Aggregator.Flush
import DogStatsD.Proofs.Aggregator.Rate
import DogStatsD.Proofs.Packer.Points
import DogStatsD.Proofs.Server.State

/-!
# Merging Does Not Show

A server cannot tell what an aggregator flushes from what was merged: the entries flushed leave the
same state as the points of the merges one by one.

* `Merge.point`: the point that a merge stands for;
* `Line.Options.keyOf_inj`: contexts with their cardinality resolved, and kinds, do not share keys;
* `ofPoints_grouped`: what is made of the items of each context may stand for these items, if it
  leaves the same cell;
* `ofPoints_flushed`: what is flushed may stand for what was merged.
-/

namespace DogStatsD

open Server

/-! ## Keys -/

/-- Kinds are told apart by their marks on a line. -/
theorem Kind.mark_injective : Function.Injective Kind.mark := by
  intro kind other h
  cases kind <;> cases other <;> first | rfl | exact absurd h (by decide)

/-- Cardinalities are told apart by their names. -/
theorem Cardinality.name_injective : Function.Injective Cardinality.name := by
  intro cardinality other h
  cases cardinality <;> cases other <;> first | rfl | exact absurd h (by decide)

/-- The default cardinality makes no difference to a context. -/
def Context.IsResolved (o : Line.Options) (c : Context) : Prop :=
  c.cardinality.or o.cardinality = c.cardinality

/-- Contexts with their cardinality resolved do not share keys. -/
theorem Line.Options.keyOf_inj {o : Line.Options} {kind : Kind} {c d : Context}
    (hc : c.IsResolved o) (hd : d.IsResolved o) : o.keyOf kind c = o.keyOf kind d ↔ c = d := by
  refine ⟨?_, fun h => h ▸ rfl⟩
  intro h
  -- What all keys of a client begin with cancels out, the namespace and the global tags.
  unfold Context.IsResolved at hc hd
  simp only [keyOf, SeriesKey.mk.injEq, String.append_right_inj, List.append_cancel_left_eq,
    true_and, hc, hd] at h
  obtain ⟨hname, htags, hcardinality⟩ := h
  have hsame := Option.map_injective Cardinality.name_injective hcardinality
  rw [Context.mk.injEq]
  exact ⟨hname, hsame, htags⟩

/-! ## Texts under a key -/

/-- Points with one key have all their texts there. -/
@[simp]
theorem textsAt_map_self (key : SeriesKey) (texts : List String) :
    textsAt key (texts.map (key, ·)) = texts := by
  have hall : (texts.map (key, ·)).filter (·.1 = key) = texts.map (key, ·) :=
    List.filter_eq_self.mpr (by simp)
  rw [textsAt, hall, List.map_map]
  exact List.map_id texts

/-- Where no point has a key, there are no texts. -/
theorem textsAt_eq_nil {key : SeriesKey} {points : List Point}
    (h : ∀ point ∈ points, point.1 ≠ key) : textsAt key points = [] := by
  simpa [textsAt] using h

/-- Points of a kind do not arrive under the keys of another. -/
theorem textsAt_of_mark_ne {key : SeriesKey} {kind : Kind} {points : List Point}
    (hpoints : ∀ point ∈ points, point.1.mark = kind.mark) (hkey : key.mark ≠ kind.mark) :
    textsAt key points = [] :=
  textsAt_eq_nil fun point hpoint heq => hkey (heq ▸ hpoints point hpoint)

/-- Of points gathered by context, those of a context are under its key. -/
theorem textsAt_flatMap {o : Line.Options} {kind : Kind} {contexts : List Context}
    (hnodup : contexts.Nodup) (hresolved : ∀ c ∈ contexts, c.IsResolved o)
    (made : Context → List String) {c : Context} (hc : c ∈ contexts) :
    textsAt (o.keyOf kind c) (contexts.flatMap fun d => (made d).map (o.keyOf kind d, ·)) =
      made c := by
  induction contexts with
  | nil => cases hc
  | cons d rest ih =>
    obtain ⟨hnew, hrest⟩ := List.nodup_cons.mp hnodup
    have hcresolved := hresolved c hc
    obtain ⟨hd, hothers⟩ := List.forall_mem_cons.mp hresolved
    rw [List.flatMap_cons, textsAt_append]
    rcases List.mem_cons.mp hc with rfl | hmem
    · -- The other contexts have other keys.
      rw [textsAt_map_self, textsAt_eq_nil, List.append_nil]
      intro point hpoint
      obtain ⟨other, hother, hin⟩ := List.mem_flatMap.mp hpoint
      obtain ⟨text, -, rfl⟩ := List.mem_map.mp hin
      exact mt (o.keyOf_inj (hothers other hother) hd).mp fun h => hnew (h ▸ hother)
    · -- What was made for the first context has another key.
      have hne : d ≠ c := fun h => hnew (h ▸ hmem)
      rw [ih hrest hothers hmem, textsAt_eq_nil, List.nil_append]
      intro point hpoint
      obtain ⟨text, -, rfl⟩ := List.mem_map.mp hpoint
      exact mt (o.keyOf_inj hd hcresolved).mp hne

/-- Of the points of a log, those of a context are under its key, in order. -/
theorem textsAt_log {β : Type} {o : Line.Options} {kind : Kind} {log : List (Context × β)}
    (hresolved : ∀ item ∈ log, item.1.IsResolved o) (text : β → String) {c : Context}
    (hc : c.IsResolved o) :
    textsAt (o.keyOf kind c) (log.map fun item => (o.keyOf kind item.1, text item.2)) =
      (itemsOf log c).map text := by
  induction log with
  | nil => rfl
  | cons item rest ih =>
    obtain ⟨hitem, hrest⟩ := List.forall_mem_cons.mp hresolved
    have hkey : o.keyOf kind item.1 = o.keyOf kind c ↔ item.1 = c := o.keyOf_inj hitem hc
    have hrestEq := ih hrest
    unfold textsAt itemsOf at hrestEq ⊢
    by_cases hsame : item.1 = c
    · rw [List.map_cons, List.filter_cons_of_pos (by simpa using hkey.mpr hsame),
        List.filter_cons_of_pos (by simpa using hsame), List.map_cons, List.map_cons, List.map_cons,
        hrestEq]
    · rw [List.map_cons, List.filter_cons_of_neg (by simpa using mt hkey.mp hsame),
        List.filter_cons_of_neg (by simpa using hsame), hrestEq]

/-- If the contexts of a log are resolved, so are those collected from it. -/
theorem resolved_contextsOf {β : Type} {o : Line.Options} {log : List (Context × β)}
    (h : ∀ item ∈ log, item.1.IsResolved o) : ∀ c ∈ contextsOf log, c.IsResolved o := by
  intro c hc
  obtain ⟨item, hitem, rfl⟩ := List.mem_map.mp ((mem_contextsOf log c).mp hc)
  exact h item hitem

/-- What is made of the items of each context may stand for these items, if it leaves the same
cell. -/
theorem ofPoints_grouped {β : Type} {o : Line.Options} {kind : Kind} {log : List (Context × β)}
    (hresolved : ∀ item ∈ log, item.1.IsResolved o) (text : β → String)
    (made : List β → List String)
    (hmade : ∀ c ∈ contextsOf log, (made (itemsOf log c)).foldl (Cell.absorb kind.mark) none =
      ((itemsOf log c).map text).foldl (Cell.absorb kind.mark) none) :
    State.ofPoints ((contextsOf log).flatMap fun c =>
        (made (itemsOf log c)).map (o.keyOf kind c, ·)) =
      State.ofPoints (log.map fun item => (o.keyOf kind item.1, text item.2)) := by
  have hcontexts := resolved_contextsOf hresolved
  -- States are compared key by key, and a key belongs to one context of the log at most.
  funext key
  rw [ofPoints_apply, ofPoints_apply]
  by_cases hkey : ∃ c ∈ contextsOf log, o.keyOf kind c = key
  · obtain ⟨c, hc, rfl⟩ := hkey
    rw [textsAt_flatMap (nodup_contextsOf log) hcontexts _ hc,
      textsAt_log hresolved text (hcontexts c hc)]
    exact hmade c hc
  · -- Nothing arrives under any other key.
    rw [textsAt_eq_nil, textsAt_eq_nil]
    · intro point hpoint heq
      obtain ⟨item, hitem, rfl⟩ := List.mem_map.mp hpoint
      exact hkey ⟨item.1, (mem_contextsOf log item.1).mpr (List.mem_map_of_mem hitem), heq⟩
    · intro point hpoint heq
      obtain ⟨c, hc, hin⟩ := List.mem_flatMap.mp hpoint
      obtain ⟨value, -, rfl⟩ := List.mem_map.mp hin
      exact hkey ⟨c, hc, heq⟩

/-! ## Points of one kind -/

def ofKind (kind : Kind) (points : List Point) : List Point :=
  points.filter (·.1.mark = kind.mark)

/-- Points of one kind have texts under the keys of that kind only. -/
theorem textsAt_ofKind (key : SeriesKey) (kind : Kind) (points : List Point) :
    textsAt key (ofKind kind points) = if key.mark = kind.mark then textsAt key points else [] := by
  unfold textsAt ofKind
  rw [List.filter_filter]
  split
  next hmark =>
    congr 1
    refine List.filter_congr ?_
    intro point _
    by_cases hkey : point.1 = key <;> simp [hkey, hmark]
  next hmark =>
    rw [List.map_eq_nil_iff, List.filter_eq_nil_iff]
    intro point _ hboth
    simp only [Bool.and_eq_true, decide_eq_true_eq] at hboth
    exact hmark (hboth.1 ▸ hboth.2)

/-- Points may be sorted by their kinds. -/
theorem ofPoints_byKind {points : List Point} (h : ∀ point ∈ points, ∃ kind : Kind,
    point.1.mark = kind.mark) :
    State.ofPoints (Aggregator.drainOrder.flatMap fun kind => ofKind kind points) =
      State.ofPoints points := by
  refine ofPoints_congr ?_
  intro key
  by_cases hkind : ∃ kind : Kind, key.mark = kind.mark
  · obtain ⟨kind, hmark⟩ := hkind
    cases kind <;> simp [Aggregator.drainOrder, textsAt_ofKind, hmark, Kind.mark]
  · -- No point has such a key.
    rw [textsAt_eq_nil, textsAt_eq_nil]
    · exact fun point hpoint heq => hkind (heq ▸ h point hpoint)
    · intro point hpoint heq
      obtain ⟨kind, -, hin⟩ := List.mem_flatMap.mp hpoint
      exact hkind (heq ▸ h point (List.mem_of_mem_filter hin))

/-! ## Merges -/

namespace Merge

/-- The point that a merge stands for. -/
def point (o : Line.Options) : Merge → Point
  | .count context value => (o.keyOf .count context, Decimal.ofInt value.toInt)
  | .gauge context value => (o.keyOf .gauge context, Decimal.ofFloat value)
  | .set context member => (o.keyOf .set context, Line.dropNewlines member)
  | .observation kind context value _ => (o.keyOf kind context, Decimal.ofFloat value)

/-- A merge is one of an unsampled metric, and puts nothing on a line that divides it. -/
structure IsPlain (o : Line.Options) (m : Merge) : Prop where
  context : m.context.IsPlain o
  resolved : m.context.IsResolved o
  member : ∀ context member, m = .set context member → Avoids valueMarks member
  /-- An observation is one of a reservoir, and has a rate of one. -/
  observed : ∀ kind context value rate, m = .observation kind context value rate →
    kind.isReservoir = true ∧ rate = 1.0

/-- The point of a merge has the mark of its kind. -/
theorem mark_point (o : Line.Options) (m : Merge) : (m.point o).1.mark = m.kind.mark := by
  cases m <;> rfl

/-- A plain observation is merged for no kind but those with reservoirs. -/
theorem IsPlain.kind_ne {o : Line.Options} {kind : Kind} {c : Context} {value rate : Float}
    (h : (Merge.observation kind c value rate).IsPlain o) {other : Kind}
    (hother : other.isReservoir = false) : kind ≠ other := by
  rintro rfl
  have hreservoir := (h.observed kind c value rate rfl).1
  rw [hother] at hreservoir
  cases hreservoir

end Merge

/-- What is kept of a merge for a kind is the item that its point shows, if it has this kind. -/
structure Keeps {β : Type} (o : Line.Options) (kind : Kind) (keep : Merge → Option (Context × β))
    (text : β → String) : Prop where
  /-- An item that is kept shows in the point. -/
  shows : ∀ m item, keep m = some item →
    m.context = item.1 ∧ m.point o = (o.keyOf kind item.1, text item.2)
  /-- Items are kept of all merges of the kind. -/
  all : ∀ m : Merge, m.IsPlain o → keep m = none → m.kind ≠ kind

/-- Differences are kept for counts. -/
theorem keeps_count (o : Line.Options) :
    Keeps o .count Merge.count? fun value => Decimal.ofInt value.toInt := by
  constructor
  · intro m item h
    cases m <;> cases h
    exact ⟨rfl, rfl⟩
  · intro m hm hnone hkind
    cases m with
    | count => cases hnone
    | gauge | set => cases hkind
    | observation => exact hm.kind_ne rfl hkind

/-- Values are kept for gauges. -/
theorem keeps_gauge (o : Line.Options) : Keeps o .gauge Merge.gauge? Decimal.ofFloat := by
  constructor
  · intro m item h
    cases m <;> cases h
    exact ⟨rfl, rfl⟩
  · intro m hm hnone hkind
    cases m with
    | gauge => cases hnone
    | count | set => cases hkind
    | observation => exact hm.kind_ne rfl hkind

/-- Members are kept for sets. -/
theorem keeps_set (o : Line.Options) : Keeps o .set Merge.member? Line.dropNewlines := by
  constructor
  · intro m item h
    cases m <;> cases h
    exact ⟨rfl, rfl⟩
  · intro m hm hnone hkind
    cases m with
    | set => cases hnone
    | count | gauge => cases hkind
    | observation => exact hm.kind_ne rfl hkind

/-- Observations are kept for their kind. -/
theorem keeps_observation (o : Line.Options) {kind : Kind} (hkind : kind.isReservoir = true) :
    Keeps o kind (Merge.observation? kind) fun observation => Decimal.ofFloat observation.1 := by
  constructor
  · intro m item h
    cases m with
    | count | gauge | set => cases h
    | observation k context value rate =>
      rw [Merge.observation?] at h
      split at h
      next hk =>
        subst hk
        cases h
        exact ⟨rfl, rfl⟩
      · cases h
  · intro m _ hnone hsame
    cases m with
    | count | gauge | set => rw [← hsame] at hkind; cases hkind
    | observation k context value rate =>
      rw [Merge.observation?, if_pos (show k = kind from hsame)] at hnone
      cases hnone

section

variable {β : Type} {o : Line.Options} {kind : Kind} {keep : Merge → Option (Context × β)}
  {text : β → String} {merges : List Merge}

/-- The points of a kind are those of the items kept for it. -/
theorem Keeps.ofKind_points (h : Keeps o kind keep text) (hplain : ∀ m ∈ merges, m.IsPlain o) :
    ofKind kind (merges.map (Merge.point o)) =
      (merges.filterMap keep).map fun item => (o.keyOf kind item.1, text item.2) := by
  induction merges with
  | nil => rfl
  | cons m rest ih =>
    obtain ⟨hm, hothers⟩ := List.forall_mem_cons.mp hplain
    have hrest := ih hothers
    unfold ofKind at hrest ⊢
    cases hkeep : keep m with
    | none =>
      have hmark : (m.point o).1.mark ≠ kind.mark := by
        rw [m.mark_point]
        intro heq
        exact h.all m hm hkeep (Kind.mark_injective heq)
      rw [List.map_cons, List.filter_cons_of_neg (by simpa using hmark),
        List.filterMap_cons_none hkeep, hrest]
    | some item =>
      have hpoint := (h.shows m item hkeep).2
      have hmark : (m.point o).1.mark = kind.mark := by
        rw [hpoint]
        rfl
      rw [List.map_cons, List.filter_cons_of_pos (by simpa using hmark),
        List.filterMap_cons_some hkeep, List.map_cons, hrest, hpoint]

/-- The contexts of the items kept are resolved. -/
theorem Keeps.resolved (h : Keeps o kind keep text) (hplain : ∀ m ∈ merges, m.IsPlain o) :
    ∀ item ∈ merges.filterMap keep, item.1.IsResolved o := by
  intro item hitem
  obtain ⟨m, hm, hsome⟩ := List.mem_filterMap.mp hitem
  rw [← (h.shows m item hsome).1]
  exact (hplain m hm).resolved

/-- The contexts of the items kept are plain. -/
theorem Keeps.plain (h : Keeps o kind keep text) (hplain : ∀ m ∈ merges, m.IsPlain o) :
    ∀ c ∈ contextsOf (merges.filterMap keep), c.IsPlain o := by
  intro c hc
  obtain ⟨item, hitem, rfl⟩ := List.mem_map.mp ((mem_contextsOf _ c).mp hc)
  obtain ⟨m, hm, hsome⟩ := List.mem_filterMap.mp hitem
  rw [← (h.shows m item hsome).1]
  exact (hplain m hm).context

/-- What is made of the items of each context may stand for the merges of the kind. -/
theorem Keeps.ofPoints_made (h : Keeps o kind keep text) (hplain : ∀ m ∈ merges, m.IsPlain o)
    (made : List β → List String)
    (hmade : ∀ c ∈ contextsOf (merges.filterMap keep),
      (made (itemsOf (merges.filterMap keep) c)).foldl (Cell.absorb kind.mark) none =
        ((itemsOf (merges.filterMap keep) c).map text).foldl (Cell.absorb kind.mark) none) :
    State.ofPoints ((contextsOf (merges.filterMap keep)).flatMap fun c =>
        (made (itemsOf (merges.filterMap keep) c)).map (o.keyOf kind c, ·)) =
      State.ofPoints (ofKind kind (merges.map (Merge.point o))) := by
  rw [h.ofKind_points hplain]
  exact ofPoints_grouped (h.resolved hplain) text made hmade

end

/-! ## Totals, last values, members and batches -/

variable {o : Line.Options} {merges : List Merge}

/-- A merged metric stands for the point of its context and value. -/
theorem point_metric (o : Line.Options) (c : Context) (value : Value) :
    (c.metric value).point o = (o.keyOf value.kind c, Line.valueText value) := by
  simp [Metric.point, Context.ofMetric, Context.metric, Metric.kind]

/-- Points that are gathered for one kind have its mark. -/
theorem mark_of_mem_gathered {kind : Kind} {contexts : List Context} {made : Context → List String}
    {point : Point} (h : point ∈ contexts.flatMap fun c => (made c).map (o.keyOf kind c, ·)) :
    point.1.mark = kind.mark := by
  obtain ⟨c, -, hin⟩ := List.mem_flatMap.mp h
  obtain ⟨text, -, rfl⟩ := List.mem_map.mp hin
  rfl

/-- What is flushed of the counts has one point for each context, its total. -/
theorem points_totalsOf (o : Line.Options) (merges : List Merge) :
    (totalsOf merges).flatMap (Entry.points o) =
      (contextsOf (merges.filterMap Merge.count?)).flatMap fun c =>
        [Decimal.ofInt (sumOf (itemsOf (merges.filterMap Merge.count?) c)).toInt].map
          (o.keyOf .count c, ·) := by
  rw [totalsOf, List.flatMap_map]
  exact List.flatMap_congr fun c _ => congrArg (fun point => [point]) (point_metric o c _)

/-- What is flushed of the gauges has one point for each context, its last value. -/
theorem points_lastsOf (o : Line.Options) (merges : List Merge) :
    (lastsOf merges).flatMap (Entry.points o) =
      (contextsOf (merges.filterMap Merge.gauge?)).flatMap fun c =>
        [Decimal.ofFloat (lastOf (itemsOf (merges.filterMap Merge.gauge?) c))].map
          (o.keyOf .gauge c, ·) := by
  rw [lastsOf, List.flatMap_map]
  exact List.flatMap_congr fun c _ => congrArg (fun point => [point]) (point_metric o c _)

/-- The members of one context after the other are the members flushed, in another order. -/
theorem points_membersOf (o : Line.Options) (merges : List Merge) :
    ((membersOf merges).flatMap (Entry.points o)).Perm
      ((contextsOf (merges.filterMap Merge.member?)).flatMap fun c =>
        ((distinct (itemsOf (merges.filterMap Merge.member?) c)).map Line.dropNewlines).map
          (o.keyOf .set c, ·)) := by
  have hpoints : (membersOf merges).flatMap (Entry.points o) =
      (merges.filterMap Merge.member?).dedup.map fun item =>
        (o.keyOf .set item.1, Line.dropNewlines item.2) := by
    rw [membersOf, List.flatMap_map, List.map_eq_flatMap]
    exact List.flatMap_congr fun item _ =>
      congrArg (fun point => [point]) (point_metric o item.1 (.set item.2))
  have hmembers := (Aggregator.members_perm (merges.filterMap Merge.member?)).map fun item =>
    (o.keyOf .set item.1, Line.dropNewlines item.2)
  rw [List.map_flatMap] at hmembers
  rw [hpoints]
  simpa only [List.map_map, Function.comp_def] using hmembers.symm

/-- What is flushed of a reservoir kind has the values that are kept of each context. -/
theorem points_batchesOf (o : Line.Options) (bound : Option Nat) (kind : Kind)
    (merges : List Merge) :
    (batchesOf bound kind merges).flatMap (Entry.points o) =
      (contextsOf (merges.filterMap (Merge.observation? kind))).flatMap fun c =>
        ((keptOf bound ((itemsOf (merges.filterMap (Merge.observation? kind)) c).map
          Prod.fst)).map Decimal.ofFloat).map (o.keyOf kind c, ·) := by
  rw [batchesOf, List.flatMap_map]
  refine List.flatMap_congr ?_
  intro c _
  rw [List.map_map]
  rfl

/-- The totals of counts may stand for the differences. -/
theorem ofPoints_totals (hplain : ∀ m ∈ merges, m.IsPlain o) :
    State.ofPoints ((totalsOf merges).flatMap (Entry.points o)) =
      State.ofPoints (ofKind .count (merges.map (Merge.point o))) := by
  rw [points_totalsOf]
  refine (keeps_count o).ofPoints_made hplain
    (fun items => [Decimal.ofInt (sumOf items).toInt]) fun c hc => ?_
  have hne := itemsOf_ne_nil _ c ((mem_contextsOf _ c).mp hc)
  refine foldl_cell_congr (List.cons_ne_nil _ _) (by simpa using hne) ?_
  -- The total wraps around as the server's does.
  have htotal (values : List Int64) : BitVec.ofInt 64 (sumOf values).toInt =
      BitVec.ofInt 64 (values.map Int64.toInt).sum := by
    rw [sumOf, ← Int64.toBitVec_ofInt]
    exact BitVec.ofInt_toInt
  simp [Cell.ofTexts, Kind.mark, readInt_ofInt, htotal, Function.comp_def]

/-- The last values of gauges may stand for all their values. -/
theorem ofPoints_lasts (hplain : ∀ m ∈ merges, m.IsPlain o) :
    State.ofPoints ((lastsOf merges).flatMap (Entry.points o)) =
      State.ofPoints (ofKind .gauge (merges.map (Merge.point o))) := by
  rw [points_lastsOf]
  refine (keeps_gauge o).ofPoints_made hplain
    (fun items => [Decimal.ofFloat (lastOf items)]) fun c hc => ?_
  have hne := itemsOf_ne_nil _ c ((mem_contextsOf _ c).mp hc)
  -- The server keeps the value that came last, and so does the aggregator.
  obtain ⟨front, last, heq⟩ := (List.eq_nil_or_concat' _).resolve_left hne
  rw [heq]
  refine foldl_cell_congr (List.cons_ne_nil _ _) (by simp) ?_
  simp [Cell.ofTexts, Kind.mark, lastOf]

/-- The distinct members of sets may stand for all members. -/
theorem ofPoints_members (hplain : ∀ m ∈ merges, m.IsPlain o) :
    State.ofPoints ((membersOf merges).flatMap (Entry.points o)) =
      State.ofPoints (ofKind .set (merges.map (Merge.point o))) := by
  -- Members are flushed in another order than context by context. That may differ for all kinds but
  -- gauges.
  have hperm := points_membersOf o merges
  have hnone {points : List Point} (hpoints : ∀ point ∈ points, point.1.mark = Kind.set.mark)
      (key : SeriesKey) (hkey : key.mark = "g") : textsAt key points = [] :=
    textsAt_of_mark_ne hpoints (by rw [hkey]; decide)
  rw [ofPoints_perm hperm fun key hkey => by
    rw [hnone (fun point hpoint => mark_of_mem_gathered (hperm.mem_iff.mp hpoint)) key hkey,
      hnone (fun point hpoint => mark_of_mem_gathered hpoint) key hkey]]
  refine (keeps_set o).ofPoints_made hplain
    (fun items => (distinct items).map Line.dropNewlines) fun c hc => ?_
  have hne := itemsOf_ne_nil _ c ((mem_contextsOf _ c).mp hc)
  generalize itemsOf (merges.filterMap Merge.member?) c = items at hne ⊢
  obtain ⟨-, hmem⟩ := distinct_spec items
  have hsome : distinct items ≠ [] := by
    obtain ⟨first, rest, rfl⟩ := List.exists_cons_of_ne_nil hne
    exact List.ne_nil_of_mem ((hmem first).mpr List.mem_cons_self)
  refine foldl_cell_congr (by simpa using hsome) (by simpa using hne) ?_
  -- The same members are in the list and among the distinct ones.
  have hset : ((distinct items).map Line.dropNewlines).toFinset =
      (items.map Line.dropNewlines).toFinset := by
    ext text
    simp [hmem]
  simp [Cell.ofTexts, Kind.mark, hset]

/-- The batches of observations may stand for these one by one. -/
theorem ofPoints_batches (hplain : ∀ m ∈ merges, m.IsPlain o) {kind : Kind}
    (hkind : kind.isReservoir = true) :
    State.ofPoints ((batchesOf none kind merges).flatMap (Entry.points o)) =
      State.ofPoints (ofKind kind (merges.map (Merge.point o))) := by
  have hmark : kind.mark ≠ "g" := by
    cases kind <;> first | decide | cases hkind
  rw [points_batchesOf]
  refine (keeps_observation o hkind).ofPoints_made hplain
    (fun items => (keptOf none (items.map Prod.fst)).map Decimal.ofFloat) fun c _ => ?_
  -- Without a bound all values are kept, in an order of blocks that a multiset does not see.
  have hperm := (reverse_blocks_perm
    ((itemsOf (merges.filterMap (Merge.observation? kind)) c).map Prod.fst)).map Decimal.ofFloat
  rw [List.map_map] at hperm
  exact foldl_cell_perm hmark hperm

/-! ## Flushes -/

/-- Everything flushed, kind by kind, may stand for everything merged. -/
theorem ofPoints_entriesOf (hplain : ∀ m ∈ merges, m.IsPlain o) :
    State.ofPoints ((entriesOf none merges).flatMap (Entry.points o)) =
      State.ofPoints (merges.map (Merge.point o)) := by
  have hkinds : ∀ point ∈ merges.map (Merge.point o), ∃ kind : Kind, point.1.mark = kind.mark := by
    intro point hpoint
    obtain ⟨m, -, rfl⟩ := List.mem_map.mp hpoint
    exact ⟨m.kind, m.mark_point o⟩
  -- The merges are sorted by kind in the order of the flush, and then each part stands for its own.
  rw [← ofPoints_byKind hkinds]
  simp only [entriesOf, Aggregator.drainOrder, List.flatMap_append, List.flatMap_cons,
    List.flatMap_nil, List.append_nil, List.append_assoc]
  exact ofPoints_append_congr (ofPoints_totals hplain) <|
    ofPoints_append_congr (ofPoints_lasts hplain) <|
    ofPoints_append_congr (ofPoints_members hplain) <|
    ofPoints_append_congr (ofPoints_batches hplain rfl) <|
    ofPoints_append_congr (ofPoints_batches hplain rfl) (ofPoints_batches hplain rfl)

/-- Of a gauge, at most one value is flushed. -/
theorem length_textsAt_le {key : SeriesKey} (hplain : ∀ m ∈ merges, m.IsPlain o)
    (hkey : key.mark = "g") :
    (textsAt key ((entriesOf none merges).flatMap (Entry.points o))).length ≤ 1 := by
  have hnone {kind : Kind} (hkind : kind.mark ≠ "g") {points : List Point}
      (hpoints : ∀ point ∈ points, point.1.mark = kind.mark) : textsAt key points = [] :=
    textsAt_of_mark_ne hpoints (hkey.trans_ne hkind.symm)
  -- Only gauges have keys with the mark of gauges.
  have hbatches (kind : Kind) (hkind : kind.mark ≠ "g") :
      textsAt key ((batchesOf none kind merges).flatMap (Entry.points o)) = [] := by
    rw [points_batchesOf]
    exact hnone hkind fun point hpoint => mark_of_mem_gathered hpoint
  have htotals : textsAt key ((totalsOf merges).flatMap (Entry.points o)) = [] := by
    rw [points_totalsOf]
    exact hnone (by decide) fun point hpoint => mark_of_mem_gathered hpoint
  have hmembers : textsAt key ((membersOf merges).flatMap (Entry.points o)) = [] :=
    hnone (by decide) fun point hpoint =>
      mark_of_mem_gathered ((points_membersOf o merges).mem_iff.mp hpoint)
  simp only [entriesOf, List.flatMap_append, textsAt_append, htotals, hmembers,
    hbatches .histogram (by decide), hbatches .distribution (by decide),
    hbatches .timing (by decide), List.nil_append, List.append_nil]
  rw [points_lastsOf]
  -- A key belongs to one context at most, and this one has one last value.
  by_cases hcontext : ∃ c ∈ contextsOf (merges.filterMap Merge.gauge?), o.keyOf .gauge c = key
  · obtain ⟨c, hc, rfl⟩ := hcontext
    rw [textsAt_flatMap (nodup_contextsOf _) ?_ _ hc]
    · exact Nat.le_refl 1
    · exact resolved_contextsOf ((keeps_gauge o).resolved hplain)
  · rw [textsAt_eq_nil]
    · exact Nat.zero_le 1
    · intro point hpoint heq
      obtain ⟨c, hc, hin⟩ := List.mem_flatMap.mp hpoint
      obtain ⟨text, -, rfl⟩ := List.mem_map.mp hin
      exact hcontext ⟨c, hc, heq⟩

/-- What is flushed may stand for what was merged, in whatever order it is flushed. -/
theorem ofPoints_flushed (hplain : ∀ m ∈ merges, m.IsPlain o) {entries : List Entry}
    (hperm : entries.Perm (entriesOf none merges)) :
    State.ofPoints (entries.flatMap (Entry.points o)) =
      State.ofPoints (merges.map (Merge.point o)) := by
  rw [← ofPoints_entriesOf hplain]
  refine ofPoints_perm (hperm.flatMap_right _) ?_
  intro key hkey
  have htexts : (textsAt key (entries.flatMap (Entry.points o))).Perm
      (textsAt key ((entriesOf none merges).flatMap (Entry.points o))) :=
    ((hperm.flatMap_right _).filter _).map _
  have hle := length_textsAt_le hplain hkey
  -- There is only one order of at most one value.
  generalize textsAt key ((entriesOf none merges).flatMap (Entry.points o)) = texts at htexts hle
  match texts, hle with
  | [], _ => exact htexts.eq_nil
  | [text], _ => exact htexts.eq_singleton

/-! ## Plain entries -/

/-- A metric that stands for a plain context is plain, if its value is. -/
theorem isPlain_metric {c : Context} (hc : c.IsPlain o) {value : Value}
    (hvalue : ∀ member, value = .set member → Avoids valueMarks member) :
    (c.metric value).IsPlain o :=
  ⟨show ¬(1.0 : Float) < 1.0 by decide, rfl, ⟨hc.name, hc.tags⟩, hvalue⟩

/-- A batch of observations at a rate of one shows no rate: all of them are kept. -/
theorem isPlain_batchOf {c : Context} (hc : c.IsPlain o) (kind : Kind)
    {observations : List (Float × Float)} (hrate : ∀ observation ∈ observations,
      observation.2 = 1.0) : (batchOf none kind c observations).IsPlain o := by
  refine ⟨?_, hc⟩
  have hlength : (keptOf none (observations.map Prod.fst)).length = observations.length :=
    (reverse_blocks_perm _).length_eq.trans (List.length_map _)
  have hfirst : (observations.head?.map Prod.snd).getD 1.0 = 1.0 := by
    cases observations with
    | nil => rfl
    | cons observation rest => exact hrate observation List.mem_cons_self
  have hone : ¬(1.0 : Float) < 1.0 := by decide
  -- What is left of the rate is the quotient of a number with itself.
  unfold batchOf
  dsimp only
  rw [hfirst, if_neg hone, hlength]
  exact not_div_self_lt _

/-- Everything flushed after plain merges is plain. -/
theorem isPlain_entriesOf (hplain : ∀ m ∈ merges, m.IsPlain o) :
    ∀ e ∈ entriesOf none merges, e.IsPlain o := by
  -- The three kinds of reservoirs are alike.
  have hbatches (kind : Kind) (hkind : kind.isReservoir = true) :
      ∀ e ∈ batchesOf none kind merges, e.IsPlain o := by
    intro e he
    obtain ⟨c, hc, rfl⟩ := List.mem_map.mp he
    refine isPlain_batchOf ((keeps_observation o hkind).plain hplain c hc) kind ?_
    rintro ⟨value, rate⟩ hitem
    obtain ⟨m, hm, hsome⟩ := List.mem_filterMap.mp ((mem_itemsOf _ c _).mp hitem)
    cases m with
    | count | gauge | set => cases hsome
    | observation k context v r =>
      rw [Merge.observation?] at hsome
      split at hsome <;> cases hsome
      exact ((hplain _ hm).observed k c value rate rfl).2
  intro e he
  simp only [entriesOf, List.mem_append] at he
  rcases he with ((((hcount | hgauge) | hset) | hhistogram) | hdistribution) | htiming
  · obtain ⟨c, hc, rfl⟩ := List.mem_map.mp hcount
    exact isPlain_metric ((keeps_count o).plain hplain c hc) (by simp)
  · obtain ⟨c, hc, rfl⟩ := List.mem_map.mp hgauge
    exact isPlain_metric ((keeps_gauge o).plain hplain c hc) (by simp)
  -- A member of a set was merged as it is, and shows what its merge shows.
  · obtain ⟨⟨c, member⟩, hmem, rfl⟩ := List.mem_map.mp hset
    obtain ⟨m, hm, hsome⟩ := List.mem_filterMap.mp (List.mem_dedup.mp hmem)
    cases m <;> cases hsome
    refine isPlain_metric (hplain _ hm).context ?_
    intro other heq
    cases heq
    exact (hplain _ hm).member c member rfl
  · exact hbatches .histogram rfl e hhistogram
  · exact hbatches .distribution rfl e hdistribution
  · exact hbatches .timing rfl e htiming

/-- A bound makes no difference where no observation was merged. -/
theorem entriesOf_bound (bound : Option Nat) (h : ∀ m ∈ merges, m.kind.isReservoir = false) :
    entriesOf bound merges = entriesOf none merges := by
  have hbatches (bound : Option Nat) {kind : Kind} (hkind : kind.isReservoir = true) :
      batchesOf bound kind merges = [] := by
    have hnone : merges.filterMap (Merge.observation? kind) = [] := by
      rw [List.filterMap_eq_nil_iff]
      intro m hm
      cases m with
      | count | gauge | set => rfl
      | observation k c v r =>
        refine if_neg ?_
        rintro rfl
        have hother : k.isReservoir = false := h _ hm
        rw [hkind] at hother
        cases hother
    rw [batchesOf, hnone]
    rfl
  have hhistograms (bound : Option Nat) : batchesOf bound .histogram merges = [] :=
    hbatches bound rfl
  have hdistributions (bound : Option Nat) : batchesOf bound .distribution merges = [] :=
    hbatches bound rfl
  have htimings (bound : Option Nat) : batchesOf bound .timing merges = [] := hbatches bound rfl
  simp only [entriesOf, hhistograms, hdistributions, htimings]

end DogStatsD
