import DogStatsD.Proofs.System.Tracking
import DogStatsD.Transport.Scripted

/-!
# Gauges When Flushes Overlap

Of a gauge, the last value set stands. A flush takes the value out, and writes it later; in between,
the gauge may be set again, and another party may take that value out. As long as no party takes out
a value of a gauge before those taken out earlier are written, the lines of the gauge are encoded in
order, and the last one has the value set last. When parties overlap, they may be out of order.

* `System.Note`, `System.newNotes`: what happens to a gauge;
* `System.Apart`: no value is taken out before those taken out earlier are written;
* `System.Noted.next`: every step keeps the gauge and the notes together;
* `System.inOrder_next`: every step keeps the lines of the gauge in order on their way;
* `System.gauge_lines_in_order`: which lines of a gauge are encoded, and in which order.
-/

namespace DogStatsD

/-- The values of a gauge among entries. -/
def gaugesOf (c : Context) (entries : List Entry) : List Float :=
  itemsOf (entries.filterMap Entry.gauge?) c

/-- The values of a gauge among two lists of entries are those in the one, then those in the other.
-/
@[simp]
theorem gaugesOf_append (c : Context) (front back : List Entry) :
    gaugesOf c (front ++ back) = gaugesOf c front ++ gaugesOf c back := by
  simp [gaugesOf, itemsOf]

/-- An entry is no gauge of a context, or the gauge with a value. -/
theorem gaugesOf_singleton_cases (c : Context) (e : Entry) :
    gaugesOf c [e] = [] ∨ ∃ value, e.gauge? = some (c, value) ∧ gaugesOf c [e] = [value] := by
  unfold gaugesOf
  rcases hgauge : e.gauge? with - | ⟨context, value⟩
  · exact .inl (by simp [hgauge, itemsOf])
  · by_cases hcontext : context = c
    · subst hcontext
      exact .inr ⟨value, rfl, by simp [hgauge, itemsOf]⟩
    · exact .inl (by simp [hgauge, itemsOf, hcontext])

/-- The line of a gauge with a value. -/
def gaugeLine (options : Line.Options) (c : Context) (value : Float) : String :=
  Line.ofSample options (.metric (c.metric (.gauge value)))

/-- Whether an empty payload has room for a line. -/
def Limits.fits (limits : Limits) (line : String) : Bool :=
  decide (({ limits } : Payload).HasRoom line)

/-- The lines that are written for an entry. -/
def Pipeline.encoded {τ : Type} (p : Pipeline τ) (e : Entry) : List String :=
  p.encodedAt (p.shardOf e.routingName) e

/-- The value that a gauge is set to when a sample is submitted: that of the sample, if it is valid,
a gauge of this context, and merged. -/
def Client.set? {τ : Type} (client : Client τ) (c : Context) (sample : Sample) : Option Float :=
  match sample.validate, sample, client.aggregator with
  | .ok (), .metric m, some a =>
    match m.value with
    | .gauge value =>
      if a.takes m = true ∧ Context.ofMetric a.settings.cardinality m = c then some value else none
    | .count _ | .set _ | .histogram _ | .distribution _ | .timing _ => none
  | _, _, _ => none

namespace System

variable {τ : Type}

/-! ## Notes -/

/-- What happens to a gauge. -/
inductive Note where
  /-- A caller has set it. -/
  | set (value : Float)
  /-- A party has taken its entry out. -/
  | taken (value : Float)
  /-- A party has given an entry of it to its shard, which has encoded these lines. -/
  | written (value : Float) (lines : List String)

namespace Note

@[simp]
def set? : Note → Option Float
  | .set value => some value
  | .taken _ | .written .. => none

@[simp]
def taken? : Note → Option Float
  | .taken value => some value
  | .set _ | .written .. => none

@[simp]
def written? : Note → Option Float
  | .written value _ => some value
  | .set _ | .taken _ => none

@[simp]
def lines : Note → List String
  | .written _ lines => lines
  | .set _ | .taken _ => []

end Note

/-- The values that were set, the first one first. -/
def valuesSet (notes : List Note) : List Float :=
  notes.filterMap Note.set?

/-- The values that were taken out, window by window. -/
def valuesTaken (notes : List Note) : List Float :=
  notes.filterMap Note.taken?

/-- The values that were given to the shard. -/
def valuesWritten (notes : List Note) : List Float :=
  notes.filterMap Note.written?

/-- The lines that were encoded. -/
def linesEncoded (notes : List Note) : List String :=
  notes.flatMap Note.lines

/-- Every time a value is taken out, those taken out before are written. -/
def Apart (notes : List Note) : Prop :=
  ∀ k < notes.length, (notes[k]?.bind Note.taken?).isSome →
    (valuesWritten (notes.take k)).length = (valuesTaken (notes.take k)).length

instance (notes : List Note) : Decidable (Apart notes) := by
  unfold Apart
  infer_instance

/-- What comes next in a flush, as far as a gauge is concerned. -/
def Sweep.notes (w : Sweep) (client : Client τ) (c : Context) : List Note :=
  match w with
  | { kinds := kind :: _, .. } =>
    match client.aggregator with
    | none => []
    | some a => (gaugesOf c (a.drain kind).1).map .taken
  | { kinds := [], entries := e :: _, .. } =>
    (gaugesOf c [e]).map fun value => .written value (client.pipeline.encoded e)
  | { kinds := [], entries := [], .. } => []

/-- What a step does as far as a gauge is concerned. -/
def newNotes (c : Context) (s : System τ) : Move → List Note
  | .proceed i =>
    match s.callers[i]? with
    | some (.sending sample) => (s.client.set? c sample).toList.map .set
    | some (.flushing w) => w.notes s.client c
    | _ => []
  | .work i =>
    match s.tickers[i]? with
    | some { state := .working w, .. } => w.notes s.client c
    | _ => []
  | _ => []

/-- Take notes of a gauge. -/
def takeNotes (c : Context) (s : System τ) (notes : List Note) (move : Move) : List Note :=
  notes ++ s.newNotes c move

section

variable {notes more : List Note} {value : Float}

/-- The values set in earlier notes come first. -/
@[simp]
theorem valuesSet_append : valuesSet (notes ++ more) = valuesSet notes ++ valuesSet more :=
  List.filterMap_append

@[simp]
theorem valuesTaken_append :
    valuesTaken (notes ++ more) = valuesTaken notes ++ valuesTaken more :=
  List.filterMap_append

@[simp]
theorem valuesWritten_append :
    valuesWritten (notes ++ more) = valuesWritten notes ++ valuesWritten more :=
  List.filterMap_append

@[simp]
theorem linesEncoded_append :
    linesEncoded (notes ++ more) = linesEncoded notes ++ linesEncoded more :=
  List.flatMap_append

@[simp]
theorem valuesSet_singleton (note : Note) : valuesSet [note] = note.set?.toList := by
  cases note <;> rfl

@[simp]
theorem valuesTaken_singleton (note : Note) : valuesTaken [note] = note.taken?.toList := by
  cases note <;> rfl

@[simp]
theorem valuesWritten_singleton (note : Note) : valuesWritten [note] = note.written?.toList := by
  cases note <;> rfl

@[simp]
theorem linesEncoded_singleton (note : Note) : linesEncoded [note] = note.lines :=
  List.append_nil _

/-- What was taken out apart so far was so before. -/
theorem Apart.of_append (h : Apart (notes ++ more)) : Apart notes := by
  intro k hk htaken
  have hlater := h k (by simp; omega)
  rw [List.getElem?_append_left hk, List.take_append_of_le_length hk.le] at hlater
  exact hlater htaken

/-- When a value is taken out apart, those taken out before are written. -/
theorem Apart.length_eq (h : Apart (notes ++ .taken value :: more)) :
    (valuesWritten notes).length = (valuesTaken notes).length := by
  have hnow := h notes.length (by simp)
  simp only [List.getElem?_append_right le_rfl, Nat.sub_self, List.take_left] at hnow
  exact hnow rfl

end

/-! ## Turns -/

/-- The notes of a gauge tell which value stands in the tables and which ones parties have in hand.

The value set last stands in the tables, or was taken out last. If values are taken out apart, at
most one party has some in hand, and those are the ones taken out last. -/
structure Tells (live : Option Float) (hand : Party → List Float) (notes : List Note) : Prop where
  last_eq : live.or (valuesTaken notes).getLast? = (valuesSet notes).getLast?
  turns : Apart notes → ∃ party, valuesTaken notes = valuesWritten notes ++ hand party ∧
    ∀ other ≠ party, hand other = []

section

variable {live : Option Float} {hand : Party → List Float} {notes : List Note} {value : Float}

/-- When the gauge is set, its new value stands in the tables, and nobody's hand changes. -/
theorem Tells.set (h : Tells live hand notes) (value : Float) :
    Tells (some value) hand (notes ++ [.set value]) := by
  refine ⟨by simp, fun hapart => ?_⟩
  obtain ⟨party, hturn, hothers⟩ := h.turns hapart.of_append
  exact ⟨party, by simpa using hturn, hothers⟩

/-- The party that takes a value out apart is the only one with values in hand. -/
theorem Tells.take (h : Tells (some value) hand notes) (party : Party) :
    Tells none (Function.update hand party (hand party ++ [value])) (notes ++ [.taken value]) := by
  refine ⟨by simpa using h.last_eq, fun hapart => ?_⟩
  obtain ⟨last, hturn, hothers⟩ := h.turns hapart.of_append
  -- Everything that was taken out before is written, and nobody has anything in hand.
  have hlength := hapart.length_eq
  rw [hturn, List.length_append] at hlength
  have hlast : hand last = [] := List.eq_nil_of_length_eq_zero (by omega)
  have hnone (other : Party) : hand other = [] := by
    by_cases hother : other = last
    · rwa [hother]
    · exact hothers other hother
  refine ⟨party, by simp [hturn, hnone], fun other hother => ?_⟩
  rw [Function.update_of_ne hother]
  exact hnone other

/-- What a party writes was taken out first of what is not written yet. -/
theorem Tells.write (h : Tells live hand notes) {party : Party} {rest : List Float}
    (hhand : hand party = value :: rest) (lines : List String) :
    Tells live (Function.update hand party rest) (notes ++ [.written value lines]) := by
  refine ⟨by simpa using h.last_eq, fun hapart => ?_⟩
  obtain ⟨last, hturn, hothers⟩ := h.turns hapart.of_append
  obtain rfl : party = last := by
    by_contra hne
    rw [hothers party hne] at hhand
    cases hhand
  refine ⟨party, ?_, fun other hother => ?_⟩
  · rw [Function.update_self]
    simpa [hhand] using hturn
  · rw [Function.update_of_ne hother]
    exact hothers other hother

end

/-! ## Tables and entries -/

/-- The value that stands in the tables, if there is one. -/
def liveGauge (s : System τ) (c : Context) : Option Float :=
  s.client.aggregator.bind fun a => a.gauges.get? c

/-- What is merged of a sample sets a gauge as the sample does. -/
theorem gauges_merges (settings : AggregatorSettings) (d : Draws) (m : Metric) (c : Context) :
    itemsOf (((DogStatsD.Request.aggregate m).merges settings d).filterMap Merge.gauge?) c =
      match m.value with
      | .gauge value =>
        if ¬IsHandedBack settings m ∧ Context.ofMetric settings.cardinality m = c then [value]
        else []
      | .count _ | .set _ | .histogram _ | .distribution _ | .timing _ => [] := by
  have hobserve (kind : Kind) (context : Context) (value rate : Float) :
      itemsOf ((({ draws := d } : Window).observe kind context value rate).merges.filterMap
        Merge.gauge?) c = [] := by
    unfold Window.observe
    dsimp only
    split <;> rfl
  simp only [DogStatsD.Request.merges, Window.step, Window.aggregate]
  by_cases hback : IsHandedBack settings m
  · rw [if_pos hback]
    cases m.value <;> simp [hback, itemsOf]
  · rw [if_neg hback]
    cases m.value with
    | gauge value =>
      by_cases hcontext : Context.ofMetric settings.cardinality m = c
      · subst hcontext
        simp [hback, itemsOf, Window.add, Merge.gauge?, Context.ofMetric]
      · have hother : ¬(⟨m.name, m.cardinality.or settings.cardinality, m.tags⟩ : Context) = c :=
          hcontext
        simp [hcontext, hother, itemsOf, Window.add, Merge.gauge?]
    | count value | set value => rfl
    | histogram value | distribution value | timing value => exact hobserve _ _ value m.rate

/-- A sample that is merged sets the gauge that stands in the tables. -/
theorem gauge_aggregate {a : Aggregator} {merges : List Merge} (h : a.Holds a.settings merges)
    {client : Client τ} (ha : client.aggregator = some a) {m : Metric}
    (hvalid : (Sample.metric m).validate = .ok ()) (htakes : a.takes m = true) (d : Draws)
    (c : Context) : (a.aggregate d m).2.1.gauges.get? c =
      (client.set? c (.metric m)).or (a.gauges.get? c) := by
  have hback := (a.takes_iff m).mp htakes
  have hlater := h.request d (.aggregate m) nofun
  have hnew := gauges_merges a.settings d m c
  have hset : (itemsOf (((DogStatsD.Request.aggregate m).merges a.settings d).filterMap
      Merge.gauge?) c).getLast? = client.set? c (.metric m) := by
    simp only [hnew, Client.set?, hvalid, ha, hback, htakes, not_false_eq_true]
    cases m.value with
    | gauge value =>
      dsimp only
      split <;> rfl
    | count | set | histogram | distribution | timing => rfl
  -- The value of the sample, if it has one for this gauge, comes last.
  rw [← hset, h.get?_gauges, ← List.getLast?_append]
  refine (hlater.get?_gauges c).trans ?_
  rw [List.filterMap_append, itemsOf, List.filter_append, List.map_append]
  rfl

/-- A drain takes out the value that stands in the tables, if it drains the gauges. -/
theorem gaugesOf_drain {a : Aggregator} {merges : List Merge} (h : a.Holds a.settings merges)
    (kind : Kind) (c : Context) : gaugesOf c (a.drain kind).1 =
      if kind = .gauge then (a.gauges.get? c).toList else [] := by
  rw [gaugesOf, gauges_of_perm (h.drain_perm kind), h.get?_gauges]

/-- After a drain of the gauges, no value stands. -/
theorem get?_gauges_drain (a : Aggregator) (kind : Kind) (c : Context) :
    (a.drain kind).2.gauges.get? c = if kind = .gauge then none else a.gauges.get? c := by
  cases kind <;> rfl

/-- An entry that is drained as a gauge is made of its value. -/
theorem eq_of_mem_drain {a : Aggregator} {merges : List Merge} (h : a.Holds a.settings merges)
    {kind : Kind} {e : Entry} (he : e ∈ (a.drain kind).1) {c : Context} {value : Float}
    (hgauge : e.gauge? = some (c, value)) : e = .metric (c.metric (.gauge value)) := by
  have hmem := (h.drain_perm kind).mem_iff.mp he
  cases kind with
  | gauge =>
    obtain ⟨context, -, rfl⟩ := List.mem_map.mp hmem
    obtain ⟨rfl, rfl⟩ := Prod.mk.inj (Option.some.inj hgauge)
    rfl
  | count | set | histogram | distribution | timing =>
    obtain ⟨_, -, rfl⟩ := List.mem_map.mp hmem
    cases hgauge

variable {s s' : System τ} {options : Line.Options}

/-! ## Gauge and notes -/

/-- The values of a gauge that a party has in hand. -/
def inHand (s : System τ) (c : Context) (party : Party) : List Float :=
  gaugesOf c (s.sweep party).entries

/-- Tables, hands and lines of a gauge are as its notes tell. -/
structure Noted (limits : Limits) (options : Line.Options) (c : Context) (s : System τ)
    (notes : List Note) : Prop where
  tables : ∀ a, s.client.aggregator = some a → ∃ merges, a.Holds a.settings merges
  tells : Tells (s.liveGauge c) (s.inHand c) notes
  made : ∀ party, ∀ e ∈ (s.sweep party).entries, ∀ value, e.gauge? = some (c, value) →
    e = .metric (c.metric (.gauge value))
  lines : linesEncoded notes =
    ((valuesWritten notes).map (gaugeLine options c)).filter limits.fits

variable {limits : Limits} {c : Context} {notes : List Note}

/-- What leaves tables and hands alone is no matter of the gauge. -/
theorem Noted.of_same (h : s.Noted limits options c notes)
    (haggregator : s'.client.aggregator = s.client.aggregator)
    (hentries : ∀ party, (s'.sweep party).entries = (s.sweep party).entries) :
    s'.Noted limits options c notes := by
  have hlive : s'.liveGauge c = s.liveGauge c := by rw [liveGauge, haggregator, liveGauge]
  have hhand : s'.inHand c = s.inHand c := by
    funext party
    rw [inHand, hentries, inHand]
  exact ⟨haggregator ▸ h.tables, by rw [hlive, hhand]; exact h.tells,
    by simpa only [hentries] using h.made, h.lines⟩

/-- A sample that is merged may set the gauge. -/
theorem Noted.merge (h : s.Noted limits options c notes) {a : Aggregator}
    (ha : s.client.aggregator = some a) {m : Metric} (hvalid : (Sample.metric m).validate = .ok ())
    (htakes : a.takes m = true) (d : Draws)
    (haggregator : s'.client.aggregator = some (a.aggregate d m).2.1)
    (hentries : ∀ party, (s'.sweep party).entries = (s.sweep party).entries) :
    s'.Noted limits options c (notes ++ (s.client.set? c (.metric m)).toList.map .set) := by
  obtain ⟨merges, hmerges⟩ := h.tables a ha
  have hlive : s'.liveGauge c = (s.client.set? c (.metric m)).or (s.liveGauge c) := by
    simp only [liveGauge, haggregator, ha, Option.bind_some]
    exact gauge_aggregate hmerges ha hvalid htakes d c
  have hhand : s'.inHand c = s.inHand c := by
    funext party
    rw [inHand, hentries, inHand]
  refine ⟨fun later hlater => ?_, ?_, by simpa only [hentries] using h.made, ?_⟩
  · obtain rfl := Option.some.inj (haggregator.symm.trans hlater)
    have hholds : (a.aggregate d m).2.1.Holds a.settings _ :=
      hmerges.request d (.aggregate m) nofun
    exact ⟨_, by rw [hholds.settings_eq]; exact hholds⟩
  · rw [hlive, hhand]
    cases s.client.set? c (.metric m) with
    | none => simpa using h.tells
    | some value => exact h.tells.set value
  · cases s.client.set? c (.metric m) with
    | none => simpa using h.lines
    | some value => simpa using h.lines

variable {party : Party} {w : Sweep}

/-- What a party has in hand when it gets on with its flush. -/
theorem inHand_setSweep (hflushes : s.Flushes w party) (c : Context) (client : Client τ)
    (drainer : Option Party) (later : Sweep) :
    ({ s with client, drainer }.setSweep later party).inHand c =
      Function.update (s.inHand c) party (gaugesOf c later.entries) := by
  funext other
  rw [inHand, sweep_setSweep hflushes]
  by_cases hother : other = party
  · subst hother
    rw [Function.update_self, Function.update_self]
  · rw [Function.update_of_ne hother, Function.update_of_ne hother, inHand]

/-- The entries that a party has in hand were in its hand before, or are new. -/
theorem mem_entries_setSweep (hflushes : s.Flushes w party) {client : Client τ}
    {drainer : Option Party} {later : Sweep} {other : Party} {e : Entry}
    (he : e ∈ (({ s with client, drainer }.setSweep later party).sweep other).entries) :
    e ∈ (s.sweep other).entries ∨ (other = party ∧ e ∈ later.entries) := by
  rw [sweep_setSweep hflushes] at he
  by_cases hother : other = party
  · subst hother
    rw [Function.update_self] at he
    exact .inr ⟨rfl, he⟩
  · rw [Function.update_of_ne hother] at he
    exact .inl he

/-- The value that stands in the tables is taken out when the gauges are drained. -/
theorem Noted.drain (h : s.Noted limits options c notes) {a : Aggregator}
    (ha : s.client.aggregator = some a) (kind : Kind) (hflushes : s.Flushes w party)
    {client : Client τ} (haggregator : client.aggregator = some (a.drain kind).2)
    (drainer : Option Party) {later : Sweep}
    (hentries : later.entries = w.entries ++ (a.drain kind).1) :
    Noted limits options c ({ s with client, drainer }.setSweep later party)
      (notes ++ (gaugesOf c (a.drain kind).1).map .taken) := by
  obtain ⟨merges, hmerges⟩ := h.tables a ha
  have hold := sweep_of_flushes hflushes
  have hstands : a.gauges.get? c = s.liveGauge c := by simp [liveGauge, ha]
  have hgauges := gaugesOf_drain hmerges kind c
  have hlive : ({ s with client, drainer }.setSweep later party).liveGauge c =
      if kind = .gauge then none else s.liveGauge c := by
    simp only [liveGauge, client_setSweep, haggregator, ha, Option.bind_some]
    exact get?_gauges_drain a kind c
  have hhand : gaugesOf c later.entries =
      s.inHand c party ++ gaugesOf c (a.drain kind).1 := by
    rw [hentries, gaugesOf_append, inHand, hold]
  refine ⟨fun later' hlater => ?_, ?_, fun other e he value hvalue => ?_, ?_⟩
  · rw [client_setSweep] at hlater
    obtain rfl := Option.some.inj (haggregator.symm.trans hlater)
    have hholds := hmerges.drain kind
    exact ⟨_, by rw [hholds.settings_eq]; exact hholds⟩
  · rw [inHand_setSweep hflushes, hlive, hhand, hgauges, hstands]
    have htells := h.tells
    -- A value is taken out if the gauges are drained and there is one.
    by_cases hkind : kind = .gauge
    · rw [if_pos hkind, if_pos hkind]
      cases hvalue : s.liveGauge c with
      | none =>
        rw [hvalue] at htells
        simpa using htells
      | some value =>
        rw [hvalue] at htells
        exact htells.take party
    · rw [if_neg hkind, if_neg hkind]
      simpa using htells
  · obtain hmem | ⟨rfl, hmem⟩ := mem_entries_setSweep hflushes he
    · exact h.made other e hmem value hvalue
    · rw [hentries, List.mem_append] at hmem
      obtain hmem | hmem := hmem
      · exact h.made other e (by rwa [hold]) value hvalue
      · exact eq_of_mem_drain hmerges hmem hvalue
  · -- Nothing is written by a drain.
    have hwritten (values : List Float) : valuesWritten (values.map .taken) = [] :=
      List.filterMap_eq_nil_iff.mpr (by simp)
    have hlines (values : List Float) : linesEncoded (values.map .taken) = [] :=
      List.flatMap_eq_nil_iff.mpr (by simp)
    simpa [hwritten, hlines] using h.lines

section

variable [Transport τ] {t : Trail} {config : Config} {client : Client τ}

/-- Of a sample, its line is written, if an empty payload has room for it. -/
theorem Matches.encoded_sample (h : s.Matches config client t) (hs : s.Direct) (sample : Sample) :
    s.client.pipeline.encoded (.sample sample) =
      [Line.ofSample config.options sample].filter config.limits.fits := by
  rw [Pipeline.encoded, h.fits.encodedAt_sample (hs.shardOf_lt _), List.filter_singleton,
    Limits.fits, Bool.cond_decide]

/-- A party writes the entry that it has taken out first. -/
theorem Noted.write (h : s.Noted config.limits config.options c notes) (hs : s.Direct)
    (hm : s.Matches config client t) {e : Entry} {entries : List Entry} {shards : List Nat}
    (hflushes : s.Flushes { entries := e :: entries, shards } party) (later : Client τ)
    (haggregator : later.aggregator = s.client.aggregator) (drainer : Option Party) :
    Noted config.limits config.options c
      ({ s with client := later, drainer }.setSweep { entries, shards } party)
      (notes ++ (gaugesOf c [e]).map fun value =>
        .written value (s.client.pipeline.encoded e)) := by
  have hold := sweep_of_flushes hflushes
  have hlive : ({ s with client := later, drainer }.setSweep { entries, shards }
      party).liveGauge c = s.liveGauge c := by
    rw [liveGauge, client_setSweep, haggregator, liveGauge]
  have hhand : s.inHand c party = gaugesOf c [e] ++ gaugesOf c entries := by
    rw [inHand, hold, ← gaugesOf_append]
    rfl
  have htables : ∀ a, ({ s with client := later, drainer }.setSweep { entries, shards }
      party).client.aggregator = some a → ∃ merges, a.Holds a.settings merges := by
    rw [client_setSweep, haggregator]
    exact h.tables
  have hmade : ∀ other, ∀ entry ∈ (({ s with client := later, drainer }.setSweep
      { entries, shards } party).sweep other).entries, ∀ value, entry.gauge? = some (c, value) →
      entry = .metric (c.metric (.gauge value)) := by
    intro other entry hentry value hvalue
    obtain hmem | ⟨rfl, hmem⟩ := mem_entries_setSweep hflushes hentry
    · exact h.made other entry hmem value hvalue
    · exact h.made other entry (by rw [hold]; exact List.mem_cons_of_mem e hmem) value hvalue
  -- The entry is no matter of this gauge, or it is made of a value of it.
  obtain hnone | ⟨value, hvalue, hone⟩ := gaugesOf_singleton_cases c e
  · rw [hnone, List.nil_append] at hhand
    rw [hnone, List.map_nil, List.append_nil]
    refine ⟨htables, ?_, hmade, h.lines⟩
    rw [hlive, inHand_setSweep hflushes, ← hhand, Function.update_eq_self]
    exact h.tells
  · have he := h.made party e (by rw [hold]; exact List.mem_cons_self) value hvalue
    have hencoded : s.client.pipeline.encoded e =
        [gaugeLine config.options c value].filter config.limits.fits := by
      rw [he]
      exact hm.encoded_sample hs _
    rw [hone, List.singleton_append] at hhand
    rw [hone, List.map_singleton]
    refine ⟨htables, ?_, hmade, ?_⟩
    · rw [hlive, inHand_setSweep hflushes]
      exact h.tells.write hhand _
    · rw [linesEncoded_append, valuesWritten_append, linesEncoded_singleton,
        valuesWritten_singleton, h.lines, Note.lines, hencoded, List.map_append,
        List.filter_append]
      rfl

/-- Whatever comes next in the flush of a party, the gauge goes along with its notes. -/
theorem Noted.advance (h : s.Noted config.limits config.options c notes) (hs : s.Direct)
    (hm : s.Matches config client t) (hflushes : s.Flushes w party) (hleft : w.isDone = false)
    (drainer : Option Party) :
    Noted config.limits config.options c
      ({ s with client := (w.advance s.client).2, drainer }.setSweep (w.advance s.client).1 party)
      (notes ++ w.notes s.client c) := by
  match w with
  | { kinds := kind :: kinds, entries, shards } =>
    cases ha : s.client.aggregator with
    | none =>
      simp only [Sweep.advance, Sweep.notes, ha, List.append_nil]
      exact h.of_same (by rw [client_setSweep])
        (entries_setSweep hflushes { kinds, entries, shards } rfl _ drainer)
    | some a =>
      simp only [Sweep.advance, Sweep.notes, ha]
      exact h.drain ha kind hflushes rfl drainer rfl
  | { kinds := [], entries := e :: entries, shards } =>
    exact h.write hs hm hflushes
      { s.client with pipeline := s.client.pipeline.put e } rfl drainer
  | { kinds := [], entries := [], shards := j :: shards } =>
    simp only [Sweep.notes, List.append_nil]
    exact h.of_same (by rw [client_setSweep]; rfl)
      (entries_setSweep hflushes { shards } rfl _ drainer)
  | { kinds := [], entries := [], shards := [] } => cases hleft

/-! ## Steps -/

omit [Transport τ] in
/-- The move of a party that flushes is noted by what comes next in its flush. -/
theorem newNotes_advance (hflushes : s.Flushes w party) (c : Context) :
    s.newNotes c party.move = w.notes s.client c := by
  cases party with
  | caller i =>
    have hcaller : s.callers[i]? = some (.flushing w) := hflushes
    simp [newNotes, Party.move, hcaller]
  | ticker i =>
    obtain ⟨plan, hplan⟩ := hflushes
    simp [newNotes, Party.move, hplan]

omit [Transport τ] in
/-- A sample that is not merged sets nothing. -/
theorem set?_of_not_takes {client : Client τ} {sample : Sample}
    (h : ∀ m a, sample = .metric m → client.aggregator = some a → a.takes m = false)
    (c : Context) : client.set? c sample = none := by
  unfold Client.set?
  split
  next m a ha _ =>
    have hback := h m a rfl ha
    split <;> simp [hback]
  next => rfl

/-- Every step keeps the gauge and its notes together. -/
theorem Noted.next (h : s.Noted config.limits config.options c notes) (hs : s.Direct)
    (hm : s.Matches config client t) {move : Move} (hnext : s.Next move s') :
    s'.Noted config.limits config.options c (takeNotes c s notes move) := by
  unfold takeNotes
  cases hnext with
  | send hidle | flush hidle =>
    simp only [newNotes, List.append_nil]
    exact h.of_same rfl (entries_setCaller hidle rfl)
  | reject hsending hreason =>
    simp only [newNotes, hsending, Client.set?, hreason]
    rw [Option.toList_none, List.map_nil, List.append_nil]
    exact h.of_same rfl (entries_setCaller hsending rfl)
  | merge hsending hvalid ha htakes =>
    simp only [newNotes, hsending]
    exact h.merge ha hvalid htakes s.client.pipeline.draws rfl (entries_setCaller hsending rfl)
  | pass hsending hback =>
    simp only [newNotes, hsending, set?_of_not_takes hback]
    rw [Option.toList_none, List.map_nil, List.append_nil]
    exact h.of_same rfl (entries_setCaller hsending rfl)
  | dispatch hdispatching =>
    simp only [newNotes, hdispatching, List.append_nil]
    exact h.of_same rfl (entries_setCaller hdispatching rfl)
  | advance party drainer hflushes hleft =>
    rw [newNotes_advance hflushes]
    exact h.advance hs hm hflushes hleft drainer
  | raise hflushing =>
    simp only [newNotes, hflushing, Sweep.notes, List.append_nil]
    exact h.of_same rfl (entries_setCaller hflushing rfl)
  | finish hawaiting =>
    simp only [newNotes, hawaiting, List.append_nil]
    exact h.of_same rfl (entries_setCaller hawaiting rfl)
  | tick hticker =>
    simp only [newNotes, List.append_nil]
    exact h.of_same rfl (entries_setTicker hticker (hs.plans _ (List.mem_of_getElem? hticker)))
  | rest hticker =>
    simp only [newNotes, hticker, Sweep.notes, List.append_nil]
    exact h.of_same rfl (entries_setTicker hticker rfl)
  | fetch | carry =>
    simp only [newNotes, List.append_nil]
    exact h.of_same rfl fun _ => rfl

/-! ## Lines on their way -/

/-- Whether what is written is an entry of a gauge that was taken out. -/
def Origin.isGauge (c : Context) : Origin → Bool
  | .sent .. => false
  | .drained e _ => !(gaugesOf c [e]).isEmpty

/-- The line of a row, if it was written for an entry of a gauge that was taken out. -/
def gaugeLine? (c : Context) (row : Row Origin) : Option String :=
  if row.origin.isGauge c then some row.line else none

omit [Transport τ] in
/-- An entry of a gauge goes by the name of the gauge. -/
theorem routingName_of_isGauge {e : Entry} {numbers : List Nat}
    (h : (Origin.drained e numbers).isGauge c = true) : e.routingName = c.name := by
  obtain hnone | ⟨value, hvalue, -⟩ := gaugesOf_singleton_cases c e
  · simp [Origin.isGauge, hnone] at h
  · unfold Entry.gauge? at hvalue
    split at hvalue
    next m =>
      split at hvalue
      · obtain ⟨rfl, -⟩ := Prod.mk.inj (Option.some.inj hvalue)
        rfl
      all_goals cases hvalue
    all_goals cases hvalue

omit [Transport τ] in
/-- Of lines written for one thing, all are lines of a gauge or none is. -/
theorem filterMap_gaugeLine? (c : Context) (origin : Origin) (lines : List String) :
    (Row.ofLines origin lines).filterMap (gaugeLine? c) =
      if origin.isGauge c then lines else [] := by
  unfold Row.ofLines
  rw [List.filterMap_map]
  cases hgauge : origin.isGauge c <;> simp [Function.comp_def, gaugeLine?, hgauge]

/-- Whatever comes next in the flush of a party, the lines encoded for a gauge are on their way in
order. -/
theorem inOrder_advance
    (h : t.InOrder (gaugeLine? c) (s.client.pipeline.shardOf c.name) (linesEncoded notes))
    (hm : s.Matches config client t) (hflushes : s.Flushes w party) :
    (t.advance s.client party w).InOrder (gaugeLine? c) (s.client.pipeline.shardOf c.name)
      (linesEncoded (notes ++ w.notes s.client c)) := by
  match w with
  | { kinds := kind :: kinds, entries, shards } =>
    cases ha : s.client.aggregator with
    | none => simpa [Trail.advance, Sweep.notes, ha] using h
    | some a =>
      -- Nothing is written by a drain.
      have hlines (values : List Float) : linesEncoded (values.map .taken) = [] :=
        List.flatMap_eq_nil_iff.mpr (by simp)
      simp only [Trail.advance, Sweep.notes, ha, linesEncoded_append, hlines, List.append_nil]
      exact h
  | { kinds := [], entries := e :: entries, shards } =>
    obtain ⟨group, rest, hgroups, -, -⟩ := hm.exists_hand hflushes
    obtain ⟨c', hmoves, hnext⟩ := Trail.exists_putNext hgroups s.client.pipeline e
    have hnew : linesEncoded (Sweep.notes { entries := e :: entries, shards } s.client c) =
        (Row.ofLines (.drained e group) (s.client.pipeline.encoded e)).filterMap
          (gaugeLine? c) := by
      rw [filterMap_gaugeLine?]
      obtain hnone | ⟨value, -, hone⟩ := gaugesOf_singleton_cases c e
      · simp [Sweep.notes, Origin.isGauge, hnone, linesEncoded]
      · simp [Sweep.notes, Origin.isGauge, hone]
    rw [linesEncoded_append, hnew]
    simp only [Trail.advance, hnext]
    refine h.setCart hmoves fun hshard => ?_
    -- What goes to another shard is no entry of this gauge.
    have hother : (Origin.drained e group).isGauge c = false := by
      refine Bool.eq_false_iff.mpr fun hgauge => hshard ?_
      rw [routingName_of_isGauge hgauge]
    rw [filterMap_gaugeLine?, hother]
    rfl
  | { kinds := [], entries := [], shards := j :: shards } =>
    obtain ⟨c', hmoves, -, hover⟩ := t.exists_handOver s.client.pipeline j
    simp only [Trail.advance, hover, Sweep.notes, linesEncoded_append]
    exact h.setCart hmoves fun _ => rfl
  | { kinds := [], entries := [], shards := [] } => simpa [Trail.advance, Sweep.notes] using h

/-- Every step keeps the lines encoded for a gauge in order on their way. -/
theorem inOrder_next
    (h : t.InOrder (gaugeLine? c) (s.client.pipeline.shardOf c.name) (linesEncoded notes))
    (hs : s.Direct) (hm : s.Matches config client t) {move : Move} (hnext : s.Next move s') :
    (t.follow s move).InOrder (gaugeLine? c) (s'.client.pipeline.shardOf c.name)
      (linesEncoded (takeNotes c s notes move)) := by
  rw [hnext.shardOf_eq hs, takeNotes]
  -- That a gauge is set is no line.
  have hset (value? : Option Float) :
      linesEncoded (notes ++ value?.toList.map .set) = linesEncoded notes := by
    cases value? <;> simp [linesEncoded]
  cases hnext with
  | send | flush | tick =>
    simp only [newNotes, List.append_nil]
    exact h
  | reject hsending hreason =>
    simp only [newNotes, hsending, hset, Trail.follow, Trail.submit, hreason]
    exact h
  | merge hsending hvalid ha htakes =>
    simp only [newNotes, hsending, hset, Trail.follow, Trail.submit, hvalid, ha, htakes, if_true,
      Trail.toFreight_merge]
    exact h
  | pass hsending hback =>
    simp only [newNotes, hsending, hset, Trail.follow, Trail.submit_of_not_takes hback]
    exact h
  | @dispatch k sample hdispatching =>
    obtain ⟨c', count, hmoves, -, hprocess⟩ := t.exists_process s.client.pipeline
      (s.client.pipeline.shardOf sample.routingName) sample (.sent s.log.length sample)
    -- A sample is no entry of a gauge that was taken out.
    have hnone : (Freight.linesFor s.client.pipeline
        (s.client.pipeline.shardOf sample.routingName) sample
        (.sent s.log.length sample)).filterMap (gaugeLine? c) = [] := by
      unfold Freight.linesFor
      split
      · rw [filterMap_gaugeLine?]
        rfl
      · rfl
    have hlater := h.setCart hmoves fun _ => hnone
    rw [hnone, List.append_nil] at hlater
    simp only [newNotes, hdispatching, List.append_nil, Trail.follow, Trail.call, hprocess]
    exact hlater
  | advance party drainer hflushes hleft =>
    rw [newNotes_advance hflushes, Trail.follow_advance t hflushes hleft]
    exact inOrder_advance h hm hflushes
  | raise hflushing =>
    simp only [newNotes, hflushing, Sweep.notes, List.append_nil, Trail.follow]
    exact h.of_wire t.wire_raise rfl rfl
  | finish hawaiting =>
    simp only [newNotes, hawaiting, List.append_nil, Trail.follow]
    exact h
  | rest hticker =>
    simp only [newNotes, hticker, Sweep.notes, List.append_nil, Trail.follow]
    exact h
  | fetch hcourier hqueue =>
    have hfits := hm.fits
    rw [hcourier] at hfits
    simp only [newNotes, List.append_nil]
    exact h.of_wire (hfits.fetch hqueue).2 rfl rfl
  | carry hcourier =>
    have hfits := hm.fits
    rw [hcourier] at hfits
    simp only [newNotes, List.append_nil]
    exact h.of_wire hfits.carry.2 rfl rfl

/-- At first, nothing has happened to any gauge. -/
theorem noted_start {config : Config} {transport : τ} {route : String → Nat} {draws : Draws}
    {client : Client τ} (hbuild : config.buildWith transport route draws = .ok client)
    (callers : Nat) (c : Context) :
    (start client callers).Noted config.limits config.options c [] := by
  obtain ⟨-, later, -, hclient⟩ := Config.eq_of_buildWith hbuild
  have htables : ∀ a, client.aggregator = some a → a.Holds a.settings [] := by
    intro a ha
    rw [hclient] at ha
    simp only [Config.aggregator] at ha
    split at ha <;> cases ha
    exact Aggregator.holds_nil _ _
  have hhand (party : Party) : (start client callers).inHand c party = [] := by
    rw [inHand, entries_start]
    rfl
  have hlive : (start client callers).liveGauge c = none := by
    rw [liveGauge, start]
    cases ha : client.aggregator with
    | none => rfl
    | some a => exact (htables a ha).get?_gauges c
  refine ⟨fun a ha => ⟨[], htables a ha⟩, ⟨by rw [hlive]; rfl, fun _ => ?_⟩, ?_, rfl⟩
  · exact ⟨.caller 0, by rw [hhand]; rfl, fun other _ => hhand other⟩
  · intro party e he
    rw [entries_start] at he
    cases he

/-- In a client whose callers process their samples themselves, whatever callers, tickers and the
courier do in whatever order, the lines encoded for a gauge when its values are taken out are on
their way to the transport in order, and all of them are accounted for: in the payloads that the
transport was given, in the queue, in the payload of the shard of the gauge, or refused.

A gauge whose values are taken out apart has its lines in order:

* the values given to its shard are the first ones of those taken out, window by window;
* the lines encoded are the lines of those values that fit into an empty payload;
* once no party has a value of the gauge in hand and none stands in the tables, the value given to
  the shard last is the one that was set last, and if its line fits into an empty payload, that is
  the line encoded last. -/
theorem gauge_lines_in_order {config : Config} {transport : τ} {route : String → Nat}
    {draws : Draws} {client : Client τ}
    (hbuild : config.buildWith transport route draws = .ok client)
    (hmode : config.channelMode = false) {callers : Nat} {moves : List Move} {c : Context}
    (hwatch : watch? (takeNotes c) (start client callers, []) moves = some (s, notes))
    (hopen : s.client.closed = false) (hapart : Apart notes) :
    (∃ t, watch? Trail.follow (start client callers, {}) moves = some (s, t) ∧
      s.Matches config client t ∧
      s.client.pipeline.outbox.transport =
        Transport.afterWrites client.pipeline.outbox.transport (t.written.map Row.textOf) ∧
      t.InOrder (gaugeLine? c) (s.client.pipeline.shardOf c.name) (linesEncoded notes)) ∧
    valuesWritten notes <+: valuesTaken notes ∧
    linesEncoded notes =
      ((valuesWritten notes).map (gaugeLine config.options c)).filter config.limits.fits ∧
    ((∀ party, s.inHand c party = []) → s.liveGauge c = none →
      (valuesWritten notes).getLast? = (valuesSet notes).getLast? ∧
      ∀ value, (valuesSet notes).getLast? = some value →
        config.limits.fits (gaugeLine config.options c value) = true →
        (linesEncoded notes).getLast? = some (gaugeLine config.options c value)) := by
  -- Notes and trail are kept side by side along one run.
  obtain ⟨t, hfollow, hboth⟩ := exists_watch?_both Trail.follow {} hwatch
  obtain ⟨-, hnoted, hmatches, horder⟩ := (direct_start hbuild hmode callers).watch
    (I := fun s (notes, t) => s.Noted config.limits config.options c notes ∧
      s.Matches config client t ∧
      t.InOrder (gaugeLine? c) (s.client.pipeline.shardOf c.name) (linesEncoded notes))
    (fun hs ⟨hnoted, hmatches, horder⟩ _ hnext => ⟨hnoted.next hs hmatches hnext,
      hmatches.next hs hnext, inOrder_next horder hs hmatches hnext⟩)
    ⟨noted_start hbuild callers c, matches_start hbuild callers, .refl _, .refl _, fun _ _ => rfl⟩
    hboth hopen
  -- Apart, at most one party has values in hand, and they come after all values written.
  obtain ⟨party, hturn, -⟩ := hnoted.tells.turns hapart
  refine ⟨⟨t, hfollow, hmatches, hmatches.fits.transport_eq, horder⟩, ⟨_, hturn.symm⟩,
    hnoted.lines, fun hhand hlive => ?_⟩
  -- Everything that was set is taken out, and everything taken out is written.
  have hlast : (valuesWritten notes).getLast? = (valuesSet notes).getLast? := by
    rw [← hnoted.tells.last_eq, hlive, Option.none_or, hturn, hhand, List.append_nil]
  refine ⟨hlast, fun value hvalue hfits => ?_⟩
  obtain ⟨front, hfront⟩ := List.getLast?_eq_some_iff.mp (hlast.trans hvalue)
  rw [hnoted.lines, hfront, List.map_append, List.filter_append, List.map_singleton,
    List.filter_singleton, hfits]
  exact List.getLast?_concat

end

/-- Nobody has an entry to write. -/
def isWritten (s : System τ) : Bool :=
  s.tickers.all (fun ticker => ticker.state.sweep.entries.isEmpty) &&
    s.callers.all fun caller => caller.sweep.entries.isEmpty

/-- If nobody has an entry to write, nobody has a value of a gauge in hand. -/
theorem inHand_of_isWritten (h : s.isWritten = true) (c : Context) (party : Party) :
    s.inHand c party = [] := by
  simp only [isWritten, Bool.and_eq_true, List.all_eq_true, List.isEmpty_iff] at h
  rw [inHand, entries_eq_nil (fun i ticker _ hi => h.1 ticker (List.mem_of_getElem? hi))
    fun i caller _ hi => h.2 caller (List.mem_of_getElem? hi)]
  rfl

/-- Parties may write the values of a gauge in another order than they have taken them out. First, a
ticker takes a value out; then the gauge is set again, and a flush takes the new value out and
writes it before the ticker writes the old one. Then a gauge is set twice, the second time with a
timestamp: the second sample is not merged, and is written before the flush writes the first. Last,
a gauge is set to a value whose line is too long for a payload, so that its line before stands. -/
theorem gauge_lines_out_of_order :
    let config : Config := { workers := 1 }
    let narrow : Config := { workers := 1, limits := ⟨6, Limits.unlimitedLines⟩ }
    let client (config : Config) : Client Scripted :=
      { aggregator := config.aggregator
        pipeline := config.pipeline { timeout := some config.writeTimeout }
          (fun _ => 0) { word := fun _ => 0 } }
    let c : Context := { name := "g" }
    let gauge (value : Float) (timestamp : Option Nat) : Move :=
      .call 0 (.send (.metric { name := "g", value := .gauge value, timestamp }))
    let overlapping : List Move :=
      [gauge 1 none, .proceed 0, .tick 0] ++ List.replicate 6 (.work 0) ++
        [gauge 2 none, .proceed 0, .call 0 .flush] ++ List.replicate 7 (.proceed 0) ++ [.work 0]
    let flush : List Move :=
      .call 0 .flush :: List.replicate 9 (.proceed 0) ++
        [.fetch, .carry, .fetch, .carry, .proceed 0]
    let timed : List Move :=
      [gauge 1 none, .proceed 0, gauge 2 (some 5), .proceed 0, .proceed 0] ++ flush
    let long : List Move :=
      [gauge 1 none, .proceed 0] ++ flush ++ [gauge 10 none, .proceed 0, .call 0 .flush] ++
        List.replicate 9 (.proceed 0) ++ [.fetch, .carry, .proceed 0]
    config.buildWith {} (fun _ => 0) { word := fun _ => 0 } = .ok (client config) ∧
    narrow.buildWith {} (fun _ => 0) { word := fun _ => 0 } = .ok (client narrow) ∧
    (∃ s notes, watch? (takeNotes c) (start (client config) 1, []) overlapping = some (s, notes) ∧
      s.log.map Answer.outcome = [.ok (), .ok ()] ∧ (∀ party, s.inHand c party = []) ∧
      s.liveGauge c = none ∧
      (valuesSet notes).map (gaugeLine config.options c) = ["g:1|g\n", "g:2|g\n"] ∧
      linesEncoded notes = ["g:2|g\n", "g:1|g\n"]) ∧
    (∃ s, (start (client config) 1).run? timed = some s ∧
      s.log.map Answer.outcome = [.ok (), .ok (), .ok ()] ∧
      s.client.pipeline.outbox.transport.writes = #[("g:2|g|T5\ng:1|g\n", true)]) ∧
    ∃ s, (start (client narrow) 1).run? long = some s ∧
      s.log.map Answer.outcome = [.ok (), .ok (), .ok (), .ok ()] ∧
      s.client.pipeline.outbox.transport.writes = #[("g:1|g\n", true)] := by
  intro config narrow client c gauge overlapping flush timed long
  refine ⟨rfl, rfl, ?_, ?_, ?_⟩
  -- The ticker has the first value in hand while the flush takes out and writes the second.
  · have hseen : (watch? (takeNotes c) (start (client config) 1, []) overlapping).map
        (fun (s, notes) =>
        (decide (s.log.map Answer.outcome = [.ok (), .ok ()]) && s.isWritten) &&
          ((s.liveGauge c).isNone &&
            (decide ((valuesSet notes).map (gaugeLine config.options c) =
              ["g:1|g\n", "g:2|g\n"]) &&
            decide (linesEncoded notes = ["g:2|g\n", "g:1|g\n"])))) = some true := by
      decide +kernel
    obtain ⟨⟨s, notes⟩, hwatch, hs⟩ := Option.map_eq_some_iff.mp hseen
    simp only [Bool.and_eq_true, decide_eq_true_eq, Option.isNone_iff_eq_none] at hs
    obtain ⟨⟨hlog, hwritten⟩, hlive, hset, hlines⟩ := hs
    exact ⟨s, notes, hwatch, hlog, inHand_of_isWritten hwritten c, hlive, hset, hlines⟩
  -- The sample with a timestamp goes past the tables.
  · have hseen : ((start (client config) 1).run? timed).map (fun s =>
        decide (s.log.map Answer.outcome = [.ok (), .ok (), .ok ()]) &&
          decide (s.client.pipeline.outbox.transport.writes =
            #[("g:2|g|T5\ng:1|g\n", true)])) = some true := by
      decide +kernel
    obtain ⟨s, hrun, hs⟩ := Option.map_eq_some_iff.mp hseen
    simp only [Bool.and_eq_true, decide_eq_true_eq] at hs
    exact ⟨s, hrun, hs⟩
  -- The second line finds no room in any payload.
  · have hseen : ((start (client narrow) 1).run? long).map (fun s =>
        decide (s.log.map Answer.outcome = [.ok (), .ok (), .ok (), .ok ()]) &&
          decide (s.client.pipeline.outbox.transport.writes = #[("g:1|g\n", true)])) =
        some true := by
      decide +kernel
    obtain ⟨s, hrun, hs⟩ := Option.map_eq_some_iff.mp hseen
    simp only [Bool.and_eq_true, decide_eq_true_eq] at hs
    exact ⟨s, hrun, hs⟩

/-- A ticker takes the last of two values of a gauge out and writes it, and then a flush does the
same with a third one. -/
theorem gauge_lines_in_order_two_windows :
    let config : Config := { workers := 1 }
    let client : Client Scripted :=
      { aggregator := config.aggregator
        pipeline := config.pipeline { timeout := some config.writeTimeout }
          (fun _ => 0) { word := fun _ => 0 } }
    let c : Context := { name := "g" }
    let gauge (value : Float) : Move :=
      .call 0 (.send (.metric { name := "g", value := .gauge value }))
    let moves : List Move :=
      [gauge 1, .proceed 0, gauge 2, .proceed 0, .tick 0] ++ List.replicate 6 (.work 0) ++
        [gauge 3, .proceed 0, .work 0, .call 0 .flush] ++ List.replicate 7 (.proceed 0)
    config.buildWith {} (fun _ => 0) { word := fun _ => 0 } = .ok client ∧
    config.channelMode = false ∧
    ∃ s notes value, watch? (takeNotes c) (start client 1, []) moves = some (s, notes) ∧
      s.client.closed = false ∧ Apart notes ∧ (∀ party, s.inHand c party = []) ∧
      s.liveGauge c = none ∧ (valuesSet notes).getLast? = some value ∧
      gaugeLine config.options c value = "g:3|g\n" ∧
      linesEncoded notes = ["g:2|g\n", "g:3|g\n"] ∧
      (linesEncoded notes).getLast? = some (gaugeLine config.options c value) := by
  intro config client c gauge moves
  have hbuild : config.buildWith {} (fun _ => 0) { word := fun _ => 0 } = .ok client := rfl
  have hseen : (watch? (takeNotes c) (start client 1, []) moves).map (fun (s, notes) =>
      (!s.client.closed && (decide (Apart notes) && s.isWritten)) &&
        ((s.liveGauge c).isNone &&
          ((valuesSet notes).getLast?.any (fun value =>
            decide (gaugeLine config.options c value = "g:3|g\n")) &&
          decide (linesEncoded notes = ["g:2|g\n", "g:3|g\n"])))) = some true := by
    decide +kernel
  obtain ⟨⟨s, notes⟩, hwatch, hs⟩ := Option.map_eq_some_iff.mp hseen
  simp only [Bool.and_eq_true, Bool.not_eq_true', decide_eq_true_eq,
    Option.isNone_iff_eq_none] at hs
  obtain ⟨⟨hopen, hapart, hwritten⟩, hlive, hlast, hlines⟩ := hs
  obtain ⟨value, hvalue, hline⟩ := (Option.any_eq_true _ _).mp hlast
  rw [decide_eq_true_eq] at hline
  have hhand := inHand_of_isWritten hwritten c
  obtain ⟨-, -, -, hquiet⟩ := gauge_lines_in_order hbuild rfl hwatch hopen hapart
  have hfits : config.limits.fits (gaugeLine config.options c value) = true := by
    rw [hline]
    decide
  exact ⟨hbuild, rfl, s, notes, value, hwatch, hopen, hapart, hhand, hlive, hvalue, hline, hlines,
    (hquiet hhand hlive).2 value hvalue hfits⟩

end System

end DogStatsD
