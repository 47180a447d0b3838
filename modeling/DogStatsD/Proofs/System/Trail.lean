import DogStatsD.Proofs.Aggregator.Interleaving
import DogStatsD.Proofs.Pipeline.Freight
import DogStatsD.Proofs.System.Direct

/-!
# Where Samples Are

A sample that a caller has sent is merged in the aggregator, or its line goes into the payload of
its shard. What was merged is taken out by a flush, which holds the entries until it writes them.
Payloads go into the queue, and the courier takes them out. A sample that was merged is represented
by the entry of its context from the time it is taken out, and then by the lines of that entry.

Here every sample is followed on its way. Its number is the place of the answer to its caller among
all answers, since it is with that answer that the client takes the sample over.

* `System.Origin`: what a line comes from, and the samples behind it;
* `System.Trail`: where the samples are, and the lines that come from them;
* `System.Trail.follow`: what a step does to that;
* `System.Trail.Holds`, `System.Trail.IsSettled`: samples that are still about, and the others;
* `System.Trail.Has`: no step loses a sample.
-/

namespace DogStatsD

/-- The label of the entry that a metric sample is merged into, by the cardinality that stands in
for its own. -/
def Metric.label (cardinality : Option Cardinality) (m : Metric) : Label where
  kind := m.kind
  context := Context.ofMetric cardinality m
  member :=
    match m.value with
    | .set member => some member
    | .count _ | .gauge _ | .histogram _ | .distribution _ | .timing _ => none

/-- An entry out of an aggregator stands for a sample: it is of the same kind and context, and of
the same member if it is of a set. -/
def Entry.StandsFor (cardinality : Option Cardinality) (e : Entry) (sample : Sample) : Prop :=
  ∃ m, sample = .metric m ∧ e.label? = some (m.label cardinality)

namespace System

variable {τ : Type}

/-- What a line comes from: a sample that was not merged, or an entry that was taken out of the
aggregator. Samples go by their numbers. -/
inductive Origin where
  | sent (number : Nat) (sample : Sample)
  | drained (entry : Entry) (numbers : List Nat)

namespace Origin

/-- The entry that is written. -/
def entry : Origin → Entry
  | .sent _ sample => .sample sample
  | .drained entry _ => entry

/-- The samples that it is written for. -/
def numbers : Origin → List Nat
  | .sent n _ => [n]
  | .drained _ numbers => numbers

/-- What is written is a sample, or stands for it. -/
def IsOf (cardinality : Option Cardinality) (n : Nat) (sample : Sample) : Origin → Prop
  | .sent m other => m = n ∧ other = sample
  | .drained e numbers => n ∈ numbers ∧ e.StandsFor cardinality sample

end Origin

/-- The samples that lines were written for. -/
def numbersOf (rows : List (Row Origin)) : List Nat :=
  rows.flatMap (·.origin.numbers)

/-- Where the samples are that callers have sent. -/
structure Trail extends Freight Origin where
  /-- What was merged and not taken out yet. -/
  live : List (Nat × Merge) := []
  /-- Those of each entry that a party has taken out and not written yet. -/
  hands : Party → List (List Nat) := fun _ => []
  /-- Those that sampling has left out, and the draws as they were then. -/
  leftOut : List (Nat × Draws) := []

namespace Trail

/-! ## Following -/

/-- Let lines be elsewhere. -/
def setFreight (t : Trail) (freight : Freight Origin) : Trail :=
  { t with toFreight := freight }

/-- Follow a sample that is merged, unless sampling leaves it out. -/
def merge (t : Trail) (n : Nat) (d : Draws) : List Merge → Trail
  | [] => { t with leftOut := t.leftOut ++ [(n, d)] }
  | m :: rest => { t with live := t.live ++ (m :: rest).map fun m => (n, m) }

/-- Follow a sample that a caller submits. One that is not merged stays with the caller. -/
def submit (t : Trail) (c : Client τ) (n : Nat) (sample : Sample) : Trail :=
  match sample.validate, sample, c.aggregator with
  | .ok (), .metric m, some a =>
    if a.takes m then
      t.merge n c.pipeline.draws
        ((DogStatsD.Request.aggregate m).merges a.settings c.pipeline.draws)
    else t
  | _, _, _ => t

/-- Those merged that an entry represents. -/
def represented (t : Trail) (e : Entry) : List Nat :=
  (t.live.filter fun item => e.label? = some item.2.label).map Prod.fst

/-- Follow the merges of a kind that a party takes out. -/
def drain (t : Trail) (party : Party) (kind : Kind) (entries : List Entry) : Trail :=
  { t with
    live := t.live.filter fun item => item.2.kind ≠ kind
    hands := Function.update t.hands party (t.hands party ++ entries.map t.represented) }

/-- Follow the next entry that a party writes. -/
def putNext (t : Trail) (p : Pipeline τ) (party : Party) (e : Entry) : Trail :=
  { t with
    toFreight := t.put p (p.shardOf e.routingName) e (.drained e ((t.hands party).headD []))
    hands := Function.update t.hands party (t.hands party).tail }

/-- Follow a sample into its shard, unless sampling leaves it out. -/
def call (t : Trail) (p : Pipeline τ) (n : Nat) (sample : Sample) : Trail :=
  { t with
    toFreight := t.process p (p.shardOf sample.routingName) sample (.sent n sample)
    leftOut := if (Shard.keeps p.draws sample).1 then t.leftOut else t.leftOut ++ [(n, p.draws)] }

/-- Follow what comes next in a flush. -/
def advance (t : Trail) (c : Client τ) (party : Party) : Sweep → Trail
  | { kinds := kind :: _, .. } =>
    match c.aggregator with
    | none => t
    | some a => t.drain party kind (a.drain kind).1
  | { kinds := [], entries := e :: _, .. } => t.putNext c.pipeline party e
  | { kinds := [], entries := [], shards := j :: _ } => t.setFreight (t.handOver c.pipeline j)
  | { kinds := [], entries := [], shards := [] } => t

/-- Follow a step. -/
def follow (s : System τ) (t : Trail) : Move → Trail
  | .proceed i =>
    match s.callers[i]? with
    | some (.sending sample) => t.submit s.client s.log.length sample
    | some (.dispatching sample) => t.call s.client.pipeline s.log.length sample
    | some (.flushing w) =>
      if w.isDone then t.setFreight t.raise else t.advance s.client (.caller i) w
    | _ => t
  | .work i =>
    match s.tickers[i]? with
    | some { state := .working w, .. } => t.advance s.client (.ticker i) w
    | _ => t
  | .fetch => t.setFreight t.fetch
  | .carry => t.setFreight t.carry
  | _ => t

/-! ## Being somewhere -/

/-- A sample is still held somewhere: in the tables, by a party that has taken its entry out, in the
payload of a shard, in the queue or by the courier. -/
inductive Holds (t : Trail) (n : Nat) : Prop
  | live {m : Merge} (h : (n, m) ∈ t.live)
  | hand (party : Party) (h : n ∈ (t.hands party).flatten)
  | packed (j : Nat) (h : n ∈ numbersOf (t.packed j))
  | queued (h : n ∈ numbersOf t.queued.flatten)
  | carried (h : n ∈ numbersOf t.carried.flatten)

/-- A line for the sample was in a payload given to the transport or in one that found the queue
full, or what was to be written for it was dropped for its size, or sampling has left it out. -/
inductive IsSettled (t : Trail) (n : Nat) : Prop
  | written (h : n ∈ numbersOf t.written.flatten)
  | refused (h : n ∈ numbersOf t.refused.flatten)
  | dropped {origin : Origin} (h : origin ∈ t.dropped) (hn : n ∈ origin.numbers)
  | leftOut {d : Draws} (h : (n, d) ∈ t.leftOut)

/-- A sample is held or settled. -/
inductive Has (t : Trail) (n : Nat) : Prop
  | live {m : Merge} (h : (n, m) ∈ t.live)
  | hand (party : Party) (h : n ∈ (t.hands party).flatten)
  | row {row : Row Origin} (h : t.toFreight.Has row) (hn : n ∈ row.origin.numbers)
  | dropped {origin : Origin} (h : origin ∈ t.dropped) (hn : n ∈ origin.numbers)
  | leftOut {d : Draws} (h : (n, d) ∈ t.leftOut)

variable {t later : Trail} {n m j : Nat} {added : List (Row Origin)} {c : Cart Origin}

/-- The samples of rows are those that some origin of them stands for. -/
theorem mem_numbersOf {rows : List (Row Origin)} :
    n ∈ numbersOf rows ↔ ∃ row ∈ rows, n ∈ row.origin.numbers :=
  List.mem_flatMap

/-- The samples behind the lines of one payload are behind the lines of all. -/
theorem mem_numbersOf_flatten {rows : List (Row Origin)} {payloads : List (List (Row Origin))}
    (hrows : rows ∈ payloads) (h : n ∈ numbersOf rows) : n ∈ numbersOf payloads.flatten := by
  obtain ⟨row, hrow, hn⟩ := mem_numbersOf.mp h
  exact mem_numbersOf.mpr ⟨row, List.mem_flatten_of_mem hrows hrow, hn⟩

/-- A sample that is somewhere is still about or settled. -/
theorem Has.holds_or_isSettled (h : t.Has n) : t.Holds n ∨ t.IsSettled n := by
  cases h with
  | live h => exact .inl (.live h)
  | hand party h => exact .inl (.hand party h)
  | dropped h hn => exact .inr (.dropped h hn)
  | leftOut h => exact .inr (.leftOut h)
  | row h hn =>
    have hmem {rows : List (Row Origin)} (hrow : _ ∈ rows) : n ∈ numbersOf rows :=
      mem_numbersOf.mpr ⟨_, hrow, hn⟩
    cases h with
    | packed j h => exact .inl (.packed j (hmem h))
    | refused h => exact .inr (.refused (hmem h))
    | wire h =>
      simp only [Freight.wire, List.flatten_append, List.mem_append] at h
      obtain (hdone | hcarried) | hqueued := h
      · exact .inr (.written (hmem (t.flatten_written ▸ hdone)))
      · exact .inl (.carried (hmem hcarried))
      · exact .inl (.queued (hmem hqueued))

/-! ## Moving on -/

/-- What comes into the queue, and what is in the payload of the shard then, was there or is new. -/
theorem numbersOf_moves {before after : Cart Origin} (h : Cart.Moves added before after) :
    ∃ more, after.queued = before.queued ++ more ∧
      ∀ n, n ∈ numbersOf more.flatten ∨ n ∈ numbersOf after.packed →
        n ∈ numbersOf before.packed ∨ n ∈ numbersOf added := by
  obtain ⟨more, lost, hmore, -, -, hall⟩ := h
  refine ⟨more, hmore, fun n hn => ?_⟩
  have hin : n ∈ numbersOf (more.flatten ++ lost.flatten ++ after.packed) := by
    simp only [mem_numbersOf, List.mem_append] at hn ⊢
    rcases hn with ⟨row, hrow, hn⟩ | ⟨row, hrow, hn⟩
    · exact ⟨row, .inl (.inl hrow), hn⟩
    · exact ⟨row, .inr hrow, hn⟩
  obtain ⟨row, hrow, hn⟩ := mem_numbersOf.mp hin
  obtain hold | hnew := List.mem_append.mp (hall.mem_iff.mp hrow)
  · exact .inl (mem_numbersOf.mpr ⟨row, hold, hn⟩)
  · exact .inr (mem_numbersOf.mpr ⟨row, hnew, hn⟩)

/-- The samples behind lines of one origin are those of the origin. -/
theorem mem_numbers_of_mem_ofLines {origin : Origin} {lines : List String}
    (h : n ∈ numbersOf (Row.ofLines origin lines)) : n ∈ origin.numbers := by
  obtain ⟨row, hrow, hn⟩ := mem_numbersOf.mp h
  obtain ⟨line, -, rfl⟩ := List.mem_map.mp hrow
  exact hn

/-- The lines of a sample are for that sample only. -/
theorem eq_of_mem_linesFor {p : Pipeline τ} {sample other : Sample}
    (h : n ∈ numbersOf (Freight.linesFor p j sample (.sent m other))) : n = m := by
  unfold Freight.linesFor at h
  split at h
  · exact List.mem_singleton.mp (mem_numbers_of_mem_ofLines h)
  · cases h

/-- When lines of a shard move on, no sample is lost. -/
theorem Has.setCart (h : t.Has n) (hmoves : Cart.Moves added (t.cart j) c)
    (hdropped : t.dropped <+: c.dropped) : (t.setFreight (t.setCart j c)).Has n := by
  cases h with
  | live h => exact .live h
  | hand party h => exact .hand party h
  | row h hn => exact .row ((Freight.has_setCart hmoves).mpr (.inl h)) hn
  | dropped h hn => exact .dropped (hdropped.subset h) hn
  | leftOut h => exact .leftOut h

/-- When lines go on from the queue, no sample is lost. -/
theorem Has.of_wire (h : t.Has n) {freight : Freight Origin} (hwire : freight.wire = t.wire)
    (hpacked : freight.packed = t.packed) (hrefused : freight.refused = t.refused)
    (hdropped : freight.dropped = t.dropped) : (t.setFreight freight).Has n := by
  cases h with
  | live h => exact .live h
  | hand party h => exact .hand party h
  | row h hn => exact .row (h.of_wire hwire.symm hpacked.symm hrefused.symm) hn
  | dropped h hn => exact .dropped (hdropped ▸ h) hn
  | leftOut h => exact .leftOut h

/-- Merging loses no sample. -/
theorem Has.merge (h : t.Has n) (m : Nat) (d : Draws) (merges : List Merge) :
    (t.merge m d merges).Has n := by
  cases merges with
  | nil =>
    cases h with
    | live h => exact .live h
    | hand party h => exact .hand party h
    | row h hn => exact .row h hn
    | dropped h hn => exact .dropped h hn
    | leftOut h => exact .leftOut (List.mem_append_left _ h)
  | cons first rest =>
    cases h with
    | live h => exact .live (List.mem_append_left _ h)
    | hand party h => exact .hand party h
    | row h hn => exact .row h hn
    | dropped h hn => exact .dropped h hn
    | leftOut h => exact .leftOut h

/-- An entry that a party writes moves the lines of one shard, and the samples in the first hand go
along. -/
theorem exists_putNext {party : Party} {group : List Nat} {rest : List (List Nat)}
    (hhands : t.hands party = group :: rest) (p : Pipeline τ) (e : Entry) :
    ∃ c, Cart.Moves (Row.ofLines (.drained e group) (p.encodedAt (p.shardOf e.routingName) e))
        (t.cart (p.shardOf e.routingName)) c ∧
      t.putNext p party e =
        { t with
          toFreight := t.setCart (p.shardOf e.routingName) c
          hands := Function.update t.hands party rest } := by
  obtain ⟨c, count, hmoves, -, hput⟩ :=
    t.exists_put p (p.shardOf e.routingName) e (.drained e group)
  exact ⟨c, hmoves, by simp [putNext, hhands, hput]⟩

/-- A sample that is merged is held, or left out. -/
theorem has_merge (t : Trail) (n : Nat) (d : Draws) (merges : List Merge) :
    (t.merge n d merges).Has n := by
  cases merges with
  | nil => exact .leftOut (List.mem_append_right _ List.mem_cons_self)
  | cons first rest => exact .live (List.mem_append_right _ List.mem_cons_self)

/-- A sample that is not merged stays with its caller. -/
theorem submit_of_not_takes {c : Client τ} {sample : Sample}
    (h : ∀ m a, sample = .metric m → c.aggregator = some a → a.takes m = false) (t : Trail)
    (n : Nat) : t.submit c n sample = t := by
  unfold submit
  split
  next metric a ha _ => simp [h metric a rfl ha]
  next => rfl

/-- If every merge of a kind is represented, no sample is lost when the kind is taken out. -/
theorem Has.drain (h : t.Has n) (party : Party) {kind : Kind} {entries : List Entry}
    (hlabels : ∀ item ∈ t.live, item.2.kind = kind →
      ∃ e ∈ entries, e.label? = some item.2.label) : (t.drain party kind entries).Has n := by
  cases h with
  | @live m h =>
    by_cases hkind : m.kind = kind
    · obtain ⟨e, he, hlabel⟩ := hlabels _ h hkind
      refine .hand party ?_
      have hrepresented : n ∈ t.represented e :=
        List.mem_map.mpr ⟨(n, m), List.mem_filter.mpr ⟨h, by simpa using hlabel⟩, rfl⟩
      simp only [Trail.drain, Function.update_self, List.flatten_append, List.mem_append]
      exact .inr (List.mem_flatten_of_mem (List.mem_map_of_mem he) hrepresented)
    · exact .live (List.mem_filter.mpr ⟨h, by simpa using hkind⟩)
  | hand other h =>
    refine .hand other ?_
    by_cases hother : other = party
    · subst hother
      simp [Trail.drain, h]
    · simpa [Trail.drain, hother] using h
  | row h hn => exact .row h hn
  | dropped h hn => exact .dropped h hn
  | leftOut h => exact .leftOut h

/-- Writing an entry loses no sample. -/
theorem Has.put (h : t.Has n) (p : Pipeline τ) (j : Nat) (e : Entry) (origin : Origin) :
    (t.setFreight (t.put p j e origin)).Has n := by
  obtain ⟨c, count, hmoves, hdropped, hput⟩ := t.exists_put p j e origin
  rw [hput]
  exact h.setCart hmoves ⟨_, hdropped.symm⟩

/-- What comes into a shard is somewhere: in a line, or among what is dropped. -/
theorem has_put {p : Pipeline τ} {e : Entry} (hshard : j < p.shards.length) (he : e.IsFull)
    {origin : Origin} (hn : n ∈ origin.numbers) (t : Trail) :
    (t.setFreight (t.put p j e origin)).Has n := by
  obtain hdropped | hlines := Freight.mem_dropped_or_encodedAt_ne_nil he hshard t.toFreight origin
  · exact .dropped hdropped hn
  · obtain ⟨line, hline⟩ := List.exists_mem_of_ne_nil _ hlines
    obtain ⟨c, count, hmoves, -, hput⟩ := t.exists_put p j e origin
    rw [hput]
    have hrow : (t.setCart j c).Has ⟨origin, line⟩ :=
      (Freight.has_setCart hmoves).mpr (.inr (List.mem_map_of_mem hline))
    exact .row hrow hn

/-- A party that writes its next entry loses no sample. -/
theorem Has.putNext (h : t.Has n) {p : Pipeline τ} {party : Party} {e : Entry}
    (hshard : p.shardOf e.routingName < p.shards.length) (he : e.IsFull)
    (hhands : t.hands party ≠ []) : (t.putNext p party e).Has n := by
  obtain ⟨group, rest, hgroup⟩ := List.exists_cons_of_ne_nil hhands
  let held : Trail := { t with hands := Function.update t.hands party (t.hands party).tail }
  have hput : t.putNext p party e =
      held.setFreight (held.put p (p.shardOf e.routingName) e (.drained e group)) := by
    simp [Trail.putNext, held, setFreight, hgroup]
  rw [hput]
  by_cases hn : n ∈ group
  · exact has_put hshard he hn _
  · refine Has.put ?_ p _ e _
    cases h with
    | live h => exact .live h
    | hand other h =>
      refine .hand other ?_
      by_cases hother : other = party
      · subst hother
        simpa [held, hgroup, hn] using h
      · simpa [held, hother] using h
    | row h hn => exact .row h hn
    | dropped h hn => exact .dropped h hn
    | leftOut h => exact .leftOut h

/-- A payload that is handed over loses no sample. -/
theorem Has.handOver (h : t.Has n) (p : Pipeline τ) (j : Nat) :
    (t.setFreight (t.handOver p j)).Has n := by
  obtain ⟨c, hmoves, hdropped, hover⟩ := t.exists_handOver p j
  rw [hover]
  exact h.setCart hmoves (hdropped ▸ List.prefix_rfl)

/-- A sample that is processed is written or left out. -/
theorem call_cases (t : Trail) (p : Pipeline τ) (n : Nat) (sample : Sample) :
    ((Shard.keeps p.draws sample).1 = true ∧ t.call p n sample =
      t.setFreight (t.put p (p.shardOf sample.routingName) (.sample sample) (.sent n sample))) ∨
    ((Shard.keeps p.draws sample).1 = false ∧
      t.call p n sample = { t with leftOut := t.leftOut ++ [(n, p.draws)] }) := by
  cases hkeeps : (Shard.keeps p.draws sample).1 with
  | true => exact .inl ⟨rfl, by simp [call, Freight.process, setFreight, hkeeps]⟩
  | false => exact .inr ⟨rfl, by simp [call, Freight.process, hkeeps]⟩

/-- Processing a sample loses no other one. -/
theorem Has.call (h : t.Has n) (p : Pipeline τ) (m : Nat) (sample : Sample) :
    (t.call p m sample).Has n := by
  obtain ⟨-, hcall⟩ | ⟨-, hcall⟩ := t.call_cases p m sample
  · rw [hcall]
    exact h.put p _ _ _
  · rw [hcall]
    cases h with
    | live h => exact .live h
    | hand party h => exact .hand party h
    | row h hn => exact .row h hn
    | dropped h hn => exact .dropped h hn
    | leftOut h => exact .leftOut (List.mem_append_left _ h)

/-- A sample that is processed is somewhere, or left out. -/
theorem has_call {p : Pipeline τ} {sample : Sample}
    (hshard : p.shardOf sample.routingName < p.shards.length) (t : Trail) (n : Nat) :
    (t.call p n sample).Has n := by
  obtain ⟨-, hcall⟩ | ⟨-, hcall⟩ := t.call_cases p n sample
  · rw [hcall]
    exact has_put (e := .sample sample) hshard trivial (List.mem_singleton_self n) t
  · rw [hcall]
    exact .leftOut (List.mem_append_right _ List.mem_cons_self)

end Trail

end System

end DogStatsD
