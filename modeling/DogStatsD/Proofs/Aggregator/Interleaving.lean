import DogStatsD.Proofs.Aggregator.Drains
import DogStatsD.Proofs.Aggregator.Window
import Mathlib.Algebra.BigOperators.Group.List.Basic
import Mathlib.Algebra.Order.Group.Multiset
import Mathlib.Data.List.DropRight

/-!
# Merging While a Flush Goes On

A flush drains the kinds one by one, and any caller may merge between two drains: what is merged
while a flush goes on is taken out by this flush or by the next one, depending on the kind. However
merges and drains are interleaved, nothing is lost and nothing is taken out twice.

* `InUse.step?`: an aggregator in use, with the flush in progress and a log of what happened;
* `since`: what was merged since a kind was last drained;
* `Sound`: every drain of a log has taken out what its kind amounted to since the drain before;
* `Sound.conserved`: what drains took out and what is still there add up to what was merged;
* `InUse.Faithful.step?`, `InUse.Faithful.run?`: every step keeps the tables and the log together,
  hence every run does;
* `interleaved_flushes`: what holds of every run.
-/

namespace DogStatsD

/-! ## What happens -/

/-- What a log tells of an aggregator in use. -/
inductive Incident where
  | merged (m : Merge)
  | drained (kind : Kind) (entries : List Entry)

namespace Incident

def merge? : Incident → Option Merge
  | .merged m => some m
  | .drained .. => none

/-- What was taken out. -/
def entries : Incident → List Entry
  | .merged _ => []
  | .drained _ entries => entries

/-- Whether a kind was drained. -/
def drains (kind : Kind) : Incident → Bool
  | .merged _ => false
  | .drained k _ => k = kind

end Incident

/-- What was merged since a kind was last drained. -/
def since (kind : Kind) (log : List Incident) : List Merge :=
  (log.rtakeWhile fun incident => !incident.drains kind).filterMap Incident.merge?

section

variable {kind : Kind} {log : List Incident}

/-- A merge is behind the last drain. -/
@[simp]
theorem since_merged (m : Merge) : since kind (log ++ [.merged m]) = since kind log ++ [m] := by
  rw [since, List.rtakeWhile_concat_pos _ _ _ rfl, List.filterMap_append]
  rfl

/-- Nothing has been merged since a drain that has just been. -/
@[simp]
theorem since_drained_self (entries : List Entry) :
    since kind (log ++ [.drained kind entries]) = [] := by
  rw [since, List.rtakeWhile_concat_neg _ _ _ (by simp [Incident.drains])]
  rfl

/-- A drain of another kind is no end of what was merged since the last one of this kind. -/
theorem since_drained_of_ne {other : Kind} (h : other ≠ kind) (entries : List Entry) :
    since kind (log ++ [.drained other entries]) = since kind log := by
  rw [since, List.rtakeWhile_concat_pos _ _ _ (by simp [Incident.drains, h]),
    List.filterMap_append]
  exact List.append_nil _

end

/-- The merges that a request comes to, depending on the settings and the draws. -/
def Request.merges (settings : AggregatorSettings) (d : Draws) (request : Request) : List Merge :=
  (Window.step settings { draws := d } request).merges

/-- An aggregator that any number of callers use. -/
structure InUse where
  aggregator : Aggregator
  draws : Draws
  /-- The kinds that the flush in progress has still to drain, and what it has taken out. -/
  flushing : Option (List Kind × List Entry) := none
  /-- What flushes gave back, the first one first. -/
  returned : List (List Entry) := []
  log : List Incident := []

/-- Who does something next: a caller with a request, or the flush. -/
inductive Act where
  | call (request : Request)
  /-- A flush begins, of which there is one at a time. -/
  | begin
  /-- The flush drains the next kind. -/
  | drain
  /-- The flush gives back what it has taken out. -/
  | finish

namespace InUse

/-- An aggregator that nobody has used yet. -/
def start (settings : AggregatorSettings) (d : Draws) : InUse where
  aggregator := { settings }
  draws := d

/-- What the flush in progress has taken out. -/
def taken (s : InUse) : List Entry :=
  (s.flushing.map Prod.snd).getD []

/-- Carry out what is done next, if it can be done. -/
def step? (s : InUse) : Act → Option InUse
  | .call .flush => none
  | .call request =>
    let (aggregator, draws) := request.run (s.aggregator, s.draws)
    let merges := request.merges s.aggregator.settings s.draws
    some { s with aggregator, draws, log := s.log ++ merges.map .merged }
  | .begin =>
    match s.flushing with
    | none => some { s with flushing := some (Aggregator.drainOrder, []) }
    | some _ => none
  | .drain =>
    match s.flushing with
    | some (kind :: rest, taken) =>
      let (entries, aggregator) := s.aggregator.drain kind
      some { s with
        aggregator
        flushing := some (rest, taken ++ entries)
        log := s.log ++ [.drained kind entries] }
    | some ([], _) | none => none
  | .finish =>
    match s.flushing with
    | some ([], taken) => some { s with flushing := none, returned := s.returned ++ [taken] }
    | some (_ :: _, _) | none => none

/-- Carry out what is done one after the other, if all of it can be done. -/
def run? (s : InUse) (acts : List Act) : Option InUse :=
  acts.foldlM step? s

/-- Without merges in between, what is done step by step is a flush. -/
theorem run?_flush (s : InUse) (h : s.flushing = none) :
    ∃ log, s.run? (.begin :: List.replicate 6 .drain ++ [.finish]) =
      some { s with
        aggregator := s.aggregator.flush.2
        returned := s.returned ++ [s.aggregator.flush.1]
        log := s.log ++ log } := by
  obtain ⟨a, d, _, returned, log⟩ := s
  subst h
  refine ⟨Aggregator.drainOrder.map fun kind => .drained kind (a.drain kind).1, ?_⟩
  simp [run?, step?, List.replicate, Aggregator.drainOrder, Aggregator.flush, Aggregator.drainAll,
    Aggregator.drain, Aggregator.drainCounts, Aggregator.drainGauges, Aggregator.drainSets,
    Aggregator.drainHistograms, Aggregator.drainDistributions, Aggregator.drainTimings]

end InUse

/-! ## Sound logs -/

/-- Every drain of a log has taken out what its kind amounted to since the drain before. -/
inductive Sound (bound : Option Nat) : List Incident → Prop where
  | nil : Sound bound []
  | merged {log : List Incident} (h : Sound bound log) (m : Merge) :
    Sound bound (log ++ [.merged m])
  | drained {log : List Incident} (h : Sound bound log) {kind : Kind} {entries : List Entry}
    (hentries : entries.Perm (drainedOf bound kind (since kind log))) :
    Sound bound (log ++ [.drained kind entries])

variable {bound : Option Nat}

/-- Any merges may come behind a sound log. -/
theorem Sound.merges {log : List Incident} (h : Sound bound log) (merges : List Merge) :
    Sound bound (log ++ merges.map .merged) := by
  induction merges generalizing log with
  | nil => rwa [List.map_nil, List.append_nil]
  | cons m rest ih =>
    rw [List.map_cons, List.append_cons]
    exact ih (h.merged m)

/-- Of a list with one more element, every element is that one or was there before. -/
theorem append_singleton_eq_append_cons {α : Type} {front before after : List α} {last x : α}
    (h : front ++ [last] = before ++ x :: after) :
    (front = before ∧ last = x) ∨ ∃ rest, front = before ++ x :: rest := by
  obtain rfl | ⟨rest, other, rfl⟩ := after.eq_nil_or_concat
  · obtain ⟨hfront, hlast⟩ := List.append_inj' h rfl
    exact .inl ⟨hfront, List.singleton_inj.mp hlast⟩
  · rw [List.concat_eq_append, ← List.cons_append, ← List.append_assoc] at h
    exact .inr ⟨rest, (List.append_inj' h rfl).1⟩

/-- Each drain has taken out what was merged before it and since the last one of its kind. -/
theorem Sound.entries_perm {log before after : List Incident} {kind : Kind} {entries : List Entry}
    (h : Sound bound log) (hlog : log = before ++ .drained kind entries :: after) :
    entries.Perm (drainedOf bound kind (since kind before)) := by
  induction h generalizing after with
  | nil => simp at hlog
  | merged h m ih =>
    obtain ⟨-, hlast⟩ | ⟨rest, hrest⟩ := append_singleton_eq_append_cons hlog
    · cases hlast
    · exact ih hrest
  | drained h hentries ih =>
    obtain ⟨rfl, hlast⟩ | ⟨rest, hrest⟩ := append_singleton_eq_append_cons hlog
    · cases hlast
      exact hentries
    · exact ih hrest

/-! ## Conservation -/

/-- What some things add up to for a context. -/
def amount {α M : Type} [AddCommMonoid M] (read : α → Option (Context × M)) (c : Context)
    (things : List α) : M :=
  (itemsOf (things.filterMap read) c).sum

section

variable {α M : Type} [AddCommMonoid M] {read : α → Option (Context × M)} {c : Context}

/-- What is read off two lists together is what is read off each, added up. -/
theorem amount_append (front back : List α) :
    amount read c (front ++ back) = amount read c front + amount read c back := by
  simp only [amount, itemsOf, List.filterMap_append, List.filter_append, List.map_append,
    List.sum_append]

/-- The order does not matter for an amount. -/
theorem amount_perm {front back : List α} (h : front.Perm back) :
    amount read c front = amount read c back :=
  (((h.filterMap read).filter _).map _).sum_eq

end

/-- What drains took out and what was merged since add up to all that was merged, if a drain of
the kind takes out what the merges add up to, and a drain of another kind nothing. -/
theorem Sound.conserved {M : Type} [AddCommMonoid M] {kind : Kind}
    {keep : Merge → Option (Context × M)} {read : Entry → Option (Context × M)} {c : Context}
    (hread : ∀ other merges, amount read c (drainedOf bound other merges) =
      if other = kind then amount keep c merges else 0)
    {log : List Incident} (h : Sound bound log) :
    amount read c (log.flatMap Incident.entries) + amount keep c (since kind log) =
      amount keep c (log.filterMap Incident.merge?) := by
  induction h with
  | nil => exact add_zero _
  | @merged log h m ih =>
    have hentries : (log ++ [Incident.merged m]).flatMap Incident.entries =
        log.flatMap Incident.entries := by simp [Incident.entries]
    have hmerges : (log ++ [Incident.merged m]).filterMap Incident.merge? =
        log.filterMap Incident.merge? ++ [m] := by simp [Incident.merge?]
    rw [hentries, hmerges, since_merged, amount_append, amount_append, ← add_assoc, ih]
  | @drained log h other entries hperm ih =>
    have hentries : (log ++ [Incident.drained other entries]).flatMap Incident.entries =
        log.flatMap Incident.entries ++ entries := by simp [Incident.entries]
    have hmerges : (log ++ [Incident.drained other entries]).filterMap Incident.merge? =
        log.filterMap Incident.merge? := by simp [Incident.merge?]
    rw [hentries, hmerges, amount_append, amount_perm hperm, hread, ← ih]
    -- What was there of the kind has become what was taken out.
    by_cases hkind : other = kind
    · subst hkind
      rw [if_pos rfl, since_drained_self, add_assoc]
      congr 1
      exact add_zero _
    · rw [if_neg hkind, since_drained_of_ne hkind, add_zero]

/-! ## What one flush gives back -/

/-- Entries that are put together from one drain of each of some kinds. -/
inductive Gathered (bound : Option Nat) : List Kind → List Entry → Prop where
  | nil : Gathered bound [] []
  | drain {kinds : List Kind} {taken entries : List Entry} (h : Gathered bound kinds taken)
    (kind : Kind) (merges : List Merge) (hentries : entries.Perm (drainedOf bound kind merges)) :
    Gathered bound (kinds ++ [kind]) (taken ++ entries)

/-- If no kind is drained twice, no two entries are of one kind and one context, members of sets
apart. -/
theorem Gathered.slots {kinds : List Kind} {taken : List Entry} (h : Gathered bound kinds taken)
    (hkinds : kinds.Nodup) : (taken.filterMap Entry.slot?).Nodup ∧
      ∀ slot ∈ taken.filterMap Entry.slot?, slot.1 ∈ kinds := by
  induction h with
  | nil => exact ⟨List.nodup_nil, fun _ hslot => absurd hslot List.not_mem_nil⟩
  | @drain kinds taken entries h kind merges hentries ih =>
    obtain ⟨hold, -, hnew⟩ := List.nodup_append.mp hkinds
    obtain ⟨hnodup, hmem⟩ := ih hold
    have hslots := hentries.filterMap Entry.slot?
    obtain ⟨hdrained, hkind⟩ := slots_drainedOf bound kind merges
    have hother : ∀ slot ∈ entries.filterMap Entry.slot?, slot.1 = kind :=
      fun slot hslot => hkind slot (hslots.mem_iff.mp hslot)
    rw [List.filterMap_append]
    refine ⟨List.nodup_append.mpr ⟨hnodup, hslots.nodup_iff.mpr hdrained, ?_⟩, ?_⟩
    · -- The kind was not drained before.
      rintro slot hslot _ hagain rfl
      exact hnew slot.1 (hmem slot hslot) kind (List.mem_singleton_self kind) (hother slot hagain)
    · intro slot hslot
      rcases List.mem_append.mp hslot with hin | hin
      · exact List.mem_append_left _ (hmem slot hin)
      · exact List.mem_append_right _ (List.mem_singleton.mpr (hother slot hin))

/-! ## Tables and logs -/

/-- What a request comes to is put behind what was merged. -/
theorem Window.merges_step (settings : AggregatorSettings) (w : Window) {request : Request}
    (h : request ≠ .flush) :
    (w.step settings request).merges = w.merges ++ request.merges settings w.draws := by
  have hadd (d : Draws) (m : Merge) :
      (w.add m).merges = w.merges ++ (({ draws := d } : Window).add m).merges := rfl
  have hobserve (kind : Kind) (context : Context) (value rate : Float) :
      (w.observe kind context value rate).merges = w.merges ++
        (({ draws := w.draws } : Window).observe kind context value rate).merges := by
    unfold Window.observe
    by_cases hkept : (w.draws.keeps rate).1 = true
    · simp [hkept, Window.add]
    · simp [hkept]
  cases request with
  | flush => exact absurd rfl h
  | count context value | gauge context value | set context value => exact hadd _ _
  | observe kind context value rate => exact hobserve kind context value rate
  | aggregate m =>
    simp only [Request.merges, Window.step, Window.aggregate]
    by_cases hback : IsHandedBack settings m
    · simp [hback]
    · rw [if_neg hback, if_neg hback]
      cases m.value with
      | count value | gauge value | set value => exact hadd _ _
      | histogram value | distribution value | timing value => exact hobserve _ _ value m.rate

/-- After a request, the tables hold what it comes to, too. -/
theorem Aggregator.Holds.request {a : Aggregator} {settings : AggregatorSettings}
    {merges : List Merge} (h : a.Holds settings merges) (d : Draws) (request : Request)
    (hne : request ≠ .flush) :
    (request.run (a, d)).1.Holds settings (merges ++ request.merges settings d) := by
  have hwindow :
      Window.Describes settings { merges, flushed := a.contexts.of, draws := d } (a, d) :=
    ⟨h, fun _ => rfl, rfl⟩
  have hstep := (hwindow.step request).holds
  rwa [Window.merges_step settings _ hne] at hstep

namespace InUse

/-- The tables, the log and the flush in progress tell the same. -/
structure Faithful (settings : AggregatorSettings) (s : InUse) : Prop where
  /-- For each kind, the tables hold what was merged since it was last drained. -/
  holds : ∃ live, s.aggregator.Holds settings live ∧
    ∀ kind, live.filter (·.kind = kind) = (since kind s.log).filter (·.kind = kind)
  sound : Sound settings.maxSamples s.log
  /-- What was taken out was given back, or will be at the end of the flush. -/
  entries_eq : s.returned.flatten ++ s.taken = s.log.flatMap Incident.entries
  returned : ∀ entries ∈ s.returned, Gathered settings.maxSamples Aggregator.drainOrder entries
  flushing : ∀ left taken, s.flushing = some (left, taken) →
    ∃ kinds, kinds ++ left = Aggregator.drainOrder ∧ Gathered settings.maxSamples kinds taken

variable {settings : AggregatorSettings} {s next : InUse}

/-- A fresh aggregator has nothing to tell. -/
theorem faithful_start (settings : AggregatorSettings) (d : Draws) :
    (start settings d).Faithful settings :=
  ⟨⟨[], Aggregator.holds_nil settings {}, fun _ => rfl⟩, .nil, rfl,
    fun _ h => absurd h List.not_mem_nil, nofun⟩

/-- Merges come in behind the last drain, however many there are. -/
theorem since_merges (kind : Kind) (log : List Incident) (merges : List Merge) :
    since kind (log ++ merges.map .merged) = since kind log ++ merges := by
  induction merges generalizing log with
  | nil => simp
  | cons m rest ih => rw [List.map_cons, List.append_cons, ih, since_merged, ← List.append_cons]

/-- What a caller merges between the drains of a flush is noted, and stands in the tables. -/
theorem Faithful.call (h : s.Faithful settings) {request : Request} (hne : request ≠ .flush) :
    Faithful settings
      { s with
        aggregator := (request.run (s.aggregator, s.draws)).1
        draws := (request.run (s.aggregator, s.draws)).2
        log := s.log ++ (request.merges s.aggregator.settings s.draws).map .merged } := by
  obtain ⟨live, hlive, hsince⟩ := h.holds
  rw [hlive.settings_eq]
  refine ⟨⟨_, hlive.request s.draws _ hne, fun kind => ?_⟩, h.sound.merges _, ?_, h.returned,
    h.flushing⟩
  · rw [since_merges, List.filter_append, List.filter_append, hsince]
  · rw [List.flatMap_append, ← h.entries_eq, List.flatMap_map]
    simp [taken, Incident.entries]

/-- A flush begins with nothing taken out. -/
theorem Faithful.begin (h : s.Faithful settings) (hnone : s.flushing = none) :
    Faithful settings { s with flushing := some (Aggregator.drainOrder, []) } := by
  refine ⟨h.holds, h.sound, ?_, h.returned, ?_⟩
  · rw [← h.entries_eq, taken, taken, hnone]
    rfl
  · intro left taken heq
    obtain ⟨rfl, rfl⟩ := Prod.mk.inj (Option.some.inj heq)
    exact ⟨[], rfl, .nil⟩

/-- A drain takes out what was merged since the last drain of its kind, and notes it. -/
theorem Faithful.drain (h : s.Faithful settings) {kind : Kind} {rest : List Kind}
    {taken : List Entry} (hflushing : s.flushing = some (kind :: rest, taken)) :
    Faithful settings
      { s with
        aggregator := (s.aggregator.drain kind).2
        flushing := some (rest, taken ++ (s.aggregator.drain kind).1)
        log := s.log ++ [.drained kind (s.aggregator.drain kind).1] } := by
  obtain ⟨live, hlive, hsince⟩ := h.holds
  have hperm : (s.aggregator.drain kind).1.Perm
      (drainedOf settings.maxSamples kind (since kind s.log)) :=
    drainedOf_congr (hsince kind) ▸ hlive.drain_perm kind
  refine ⟨⟨_, hlive.drain kind, fun other => ?_⟩, h.sound.drained hperm, ?_, h.returned, ?_⟩
  · -- The merges of the kind drained are gone from both, those of the others are as they were.
    by_cases hkind : kind = other
    · subst hkind
      simp [since_drained_self, List.filter_filter]
    · rw [since_drained_of_ne hkind, ← hsince, List.filter_filter]
      refine List.filter_congr fun m _ => ?_
      by_cases hm : m.kind = other
      · simp [hm, Ne.symm hkind]
      · simp [hm]
  · rw [List.flatMap_append, ← h.entries_eq]
    simp [InUse.taken, hflushing, Incident.entries]
  · intro left taken heq
    obtain ⟨rfl, rfl⟩ := Prod.mk.inj (Option.some.inj heq)
    obtain ⟨kinds, hkinds, hgathered⟩ := h.flushing _ _ hflushing
    exact ⟨kinds ++ [kind], by rw [List.append_assoc]; exact hkinds,
      hgathered.drain kind _ hperm⟩

/-- A flush that has drained all kinds returns what it has taken out. -/
theorem Faithful.finish (h : s.Faithful settings) {taken : List Entry}
    (hflushing : s.flushing = some ([], taken)) :
    Faithful settings { s with flushing := none, returned := s.returned ++ [taken] } := by
  refine ⟨h.holds, h.sound, ?_, ?_, nofun⟩
  · rw [← h.entries_eq]
    simp [InUse.taken, hflushing]
  · intro entries hentries
    obtain ⟨kinds, hkinds, hgathered⟩ := h.flushing _ _ hflushing
    rw [List.append_nil] at hkinds
    rcases List.mem_append.mp hentries with hold | hnew
    · exact h.returned entries hold
    · rw [List.mem_singleton.mp hnew, ← hkinds]
      exact hgathered

/-- Whatever is done next keeps tables and log together. -/
theorem Faithful.step? (h : s.Faithful settings) {act : Act} (hstep : s.step? act = some next) :
    next.Faithful settings := by
  unfold InUse.step? at hstep
  split at hstep
  · cases hstep
  · next request hne =>
    obtain rfl := Option.some.inj hstep
    exact h.call hne
  · split at hstep
    · next hnone =>
      obtain rfl := Option.some.inj hstep
      exact h.begin hnone
    · cases hstep
  · split at hstep
    · next hflushing =>
      obtain rfl := Option.some.inj hstep
      exact h.drain hflushing
    · cases hstep
    · cases hstep
  · split at hstep
    · next hflushing =>
      obtain rfl := Option.some.inj hstep
      exact h.finish hflushing
    · cases hstep
    · cases hstep

/-- So does every run. -/
theorem Faithful.run? (h : s.Faithful settings) {acts : List Act} (hrun : s.run? acts = some next) :
    next.Faithful settings := by
  induction acts generalizing s with
  | nil =>
    obtain rfl := Option.some.inj hrun
    exact h
  | cons act rest ih =>
    rw [InUse.run?, List.foldlM_cons, Option.bind_eq_bind, Option.bind_eq_some_iff] at hrun
    obtain ⟨mid, hstep, hrest⟩ := hrun
    exact ih (h.step? hstep) hrest

end InUse

/-! ## Sums and observations -/

instance instAddCommMonoidInt64 : AddCommMonoid Int64 where
  add_assoc := Int64.add_assoc
  zero_add := Int64.zero_add
  add_zero := Int64.add_zero
  add_comm := Int64.add_comm
  nsmul := nsmulRec

/-- The sum of a counter is the sum of its increments. -/
theorem sumOf_eq_sum (values : List Int64) : sumOf values = values.sum := by
  induction values with
  | nil => rfl
  | cons value rest ih =>
    rw [List.sum_cons, ← ih, sumOf, List.map_cons, List.sum_cons, Int64.ofInt_add,
      Int64.ofInt_toInt]
    rfl

/-- An observation of a kind as a collection of one. -/
def observed? (kind : Kind) (m : Merge) : Option (Context × Multiset Float) :=
  (m.observation? kind).map fun item => (item.1, {item.2.1})

/-- The values of a batch of a kind, in whatever order. -/
def flushed? (kind : Kind) (e : Entry) : Option (Context × Multiset Float) :=
  (e.values? kind).map fun item => (item.1, (item.2 : Multiset Float))

section

variable {kind : Kind} {c : Context}

theorem itemsOf_map {β γ : Type} (log : List (Context × β)) (f : β → γ) (c : Context) :
    itemsOf (log.map fun item => (item.1, f item.2)) c = (itemsOf log c).map f := by
  simp [itemsOf, List.filter_map, Function.comp_def]

/-- The values observed for a context are those of its observations. -/
theorem amount_observed (merges : List Merge) :
    amount (observed? kind) c merges =
      ↑((itemsOf (merges.filterMap (Merge.observation? kind)) c).map Prod.fst) := by
  have hmap : merges.filterMap (observed? kind) =
      (merges.filterMap (Merge.observation? kind)).map fun item =>
        (item.1, ({item.2.1} : Multiset Float)) := List.map_filterMap.symm
  rw [amount, hmap, itemsOf_map _ fun observation : Float × Float =>
    ({observation.1} : Multiset Float)]
  induction itemsOf (merges.filterMap (Merge.observation? kind)) c with
  | nil => rfl
  | cons observation rest ih => rw [List.map_cons, List.sum_cons, ih]; rfl

/-- The values flushed for a context are those of its batches. -/
theorem amount_flushed (entries : List Entry) :
    amount (flushed? kind) c entries =
      ↑(itemsOf (entries.filterMap (Entry.values? kind)) c).flatten := by
  have hmap : entries.filterMap (flushed? kind) =
      (entries.filterMap (Entry.values? kind)).map fun item =>
        (item.1, (item.2 : Multiset Float)) := List.map_filterMap.symm
  rw [amount, hmap, itemsOf_map _ fun values : List Float => (values : Multiset Float)]
  induction itemsOf (entries.filterMap (Entry.values? kind)) c with
  | nil => rfl
  | cons values rest ih => rw [List.map_cons, List.sum_cons, ih, List.flatten_cons]; rfl

/-- A drain takes out what the differences of its window add up to. -/
theorem amount_count_drainedOf (other : Kind) (merges : List Merge) :
    amount Entry.count? c (drainedOf bound other merges) =
      if other = .count then amount Merge.count? c merges else 0 := by
  rw [amount, counts_drainedOf]
  split
  · rw [itemsOf_map_contextsOf]
    split
    next hmem => rw [List.sum_singleton, sumOf_eq_sum, amount]
    next hmem => rw [amount, itemsOf_eq_nil _ _ hmem]
  · rfl

/-- Without a bound, a drain takes out the observations of its window. -/
theorem amount_flushed_drainedOf (hkind : kind.isReservoir = true) (other : Kind)
    (merges : List Merge) : amount (flushed? kind) c (drainedOf none other merges) =
      if other = kind then amount (observed? kind) c merges else 0 := by
  rw [amount_flushed, values_drainedOf _ _ _ hkind]
  split
  next heq =>
    subst heq
    rw [itemsOf_map_contextsOf, amount_observed, Multiset.coe_eq_coe]
    split
    next hmem =>
      rw [List.flatten_singleton]
      exact reverse_blocks_perm _
    next hmem => rw [itemsOf_eq_nil _ _ hmem, List.map_nil, List.flatten_nil]
  next => rfl

end

namespace InUse

/-- The difference of a context that is not flushed yet, which is zero if there is none. -/
def liveCount (s : InUse) (c : Context) : Int64 :=
  (s.aggregator.counts.get? c).getD 0

/-- The observations of a context that are not flushed yet. -/
def liveValues (s : InUse) (kind : Kind) (c : Context) : List Float :=
  let table : Table Reservoir :=
    match kind with
    | .histogram => s.aggregator.histograms
    | .distribution => s.aggregator.distributions
    | .timing => s.aggregator.timings
    | .count | .gauge | .set => {}
  ((table.get? c).map Reservoir.values).getD []

variable {settings : AggregatorSettings} {s : InUse}

/-- What is kept of what the tables hold is kept of what was merged since the last drain. -/
theorem filterMap_since {β : Type} {keep : Merge → Option β} {kind : Kind} {live : List Merge}
    (hkeep : ∀ m item, keep m = some item → m.kind = kind)
    (h : live.filter (·.kind = kind) = (since kind s.log).filter (·.kind = kind)) :
    live.filterMap keep = (since kind s.log).filterMap keep := by
  rw [← filterMap_ofKind hkeep, h, filterMap_ofKind hkeep]

/-- What a counter has in the tables was merged since the counts were drained last. -/
theorem Faithful.liveCount_eq (h : s.Faithful settings) (c : Context) :
    s.liveCount c = amount Merge.count? c (since .count s.log) := by
  obtain ⟨live, hlive, hsince⟩ := h.holds
  have hlog := filterMap_since (fun _ _ => Merge.kind_of_count?) (hsince .count)
  rw [liveCount, hlive.counts.get?_eq, hlog, amount]
  split
  next hmem => rw [Option.getD_some, sumOf_eq_sum]
  next hmem =>
    rw [itemsOf_eq_nil _ _ hmem]
    rfl

/-- The values in a reservoir were observed since its kind was drained last, if none are replaced.
-/
theorem Faithful.liveValues_perm (h : s.Faithful settings) (hbound : settings.maxSamples = none)
    {kind : Kind} (hkind : kind.isReservoir = true) (c : Context) :
    (s.liveValues kind c : Multiset Float) = amount (observed? kind) c (since kind s.log) := by
  obtain ⟨live, hlive, hsince⟩ := h.holds
  have hlog := filterMap_since (fun _ _ => Merge.kind_of_observation?) (hsince kind)
  have htable {t : Table Reservoir}
      (ht : t.Holds (live.filterMap (Merge.observation? kind)) (recorded settings.maxSamples)) :
      (((t.get? c).map Reservoir.values).getD [] : Multiset Float) =
        amount (observed? kind) c (since kind s.log) := by
    rw [ht.get?_eq, hlog, amount_observed, Multiset.coe_eq_coe]
    split
    next hmem =>
      rw [Option.map_some, Option.getD_some, values_recorded, hbound]
      exact reverse_blocks_perm _
    next hmem =>
      rw [itemsOf_eq_nil _ _ hmem]
      rfl
  cases kind with
  | histogram => exact htable hlive.histograms
  | distribution => exact htable hlive.distributions
  | timing => exact htable hlive.timings
  | count | gauge | set => cases hkind

end InUse

/-- Whatever callers merge, and whenever they do while flushes go on one after the other:

* the differences of a count that were flushed, and the one that is not flushed yet, add up to those
  merged, as numbers of sixty-four bits;
* without a bound, the observations of a context that were flushed and those that are not flushed
  yet are the ones that sampling kept;
* a drain of the sets takes out exactly the members merged since the one before it, each once;
* a drain of the gauges takes out, for exactly the contexts set since the one before it, the last
  value set;
* what drains took out is what the flushes gave back, and what the one in progress will;
* no flush gives back two entries of one kind and one context, members of sets apart. -/
theorem interleaved_flushes (settings : AggregatorSettings) (d : Draws) {acts : List Act}
    {s : InUse} (h : (InUse.start settings d).run? acts = some s) :
    let merges := s.log.filterMap Incident.merge?
    let flushed := s.log.flatMap Incident.entries
    (∀ c, sumOf (itemsOf (flushed.filterMap Entry.count?) c) + s.liveCount c =
      sumOf (itemsOf (merges.filterMap Merge.count?) c)) ∧
    (settings.maxSamples = none → ∀ kind : Kind, kind.isReservoir = true → ∀ c,
      ((itemsOf (flushed.filterMap (Entry.values? kind)) c).flatten ++ s.liveValues kind c).Perm
        ((itemsOf (merges.filterMap (Merge.observation? kind)) c).map Prod.fst)) ∧
    (∀ before entries after, s.log = before ++ .drained .set entries :: after →
      (entries.filterMap Entry.member?).Nodup ∧
      ∀ item, item ∈ entries.filterMap Entry.member? ↔
        item ∈ (since .set before).filterMap Merge.member?) ∧
    (∀ before entries after, s.log = before ++ .drained .gauge entries :: after →
      ∀ c, itemsOf (entries.filterMap Entry.gauge?) c =
        (itemsOf ((since .gauge before).filterMap Merge.gauge?) c).getLast?.toList) ∧
    s.returned.flatten ++ s.taken = flushed ∧
    ∀ entries ∈ s.returned, (entries.filterMap Entry.slot?).Nodup := by
  intro merges flushed
  have hs : s.Faithful settings := (InUse.faithful_start settings d).run? h
  refine ⟨fun c => ?_, fun hbound kind hkind c => ?_, fun before entries after hlog => ?_,
    fun before entries after hlog c => ?_, hs.entries_eq, fun entries hmem => ?_⟩
  · rw [sumOf_eq_sum, sumOf_eq_sum, hs.liveCount_eq]
    exact hs.sound.conserved amount_count_drainedOf
  · rw [← Multiset.coe_eq_coe, ← Multiset.coe_add, hs.liveValues_perm hbound hkind,
      ← amount_flushed, ← amount_observed]
    exact (hbound ▸ hs.sound).conserved (amount_flushed_drainedOf hkind)
  -- What a drain of the sets takes out is what the merges since the last one amount to.
  · have hperm := (hs.sound.entries_perm hlog).filterMap Entry.member?
    rw [members_drainedOf] at hperm
    exact ⟨hperm.nodup_iff.mpr (List.nodup_dedup _), fun item => hperm.mem_iff.trans List.mem_dedup⟩
  · rw [gauges_of_perm (hs.sound.entries_perm hlog), if_pos rfl]
  · exact ((hs.returned entries hmem).slots (by decide)).1

/-- Of two differences the first is flushed, and the second is merged when the counts were
drained. -/
theorem interleaved_flushes_with_merges_between :
    let c : Context := { name := "c" }
    let acts : List Act :=
      [.call (.count c 5), .call (.gauge c 1.0), .begin, .drain, .call (.count c 7),
       .call (.gauge c 2.0), .drain, .call (.set c "m"), .call (.set c "m"), .drain, .drain, .drain,
       .drain, .finish]
    ∃ s, (InUse.start {} (.seeded 0)).run? acts = some s ∧
      itemsOf ((s.log.flatMap Incident.entries).filterMap Entry.count?) c = [5] ∧
      s.liveCount c = 7 ∧
      sumOf (itemsOf ((s.log.filterMap Incident.merge?).filterMap Merge.count?) c) = 12 := by
  intro c acts
  obtain ⟨s, hrun, hflushed, hlive⟩ : ∃ s, (InUse.start {} (.seeded 0)).run? acts = some s ∧
      itemsOf ((s.log.flatMap Incident.entries).filterMap Entry.count?) c = [5] ∧
      s.liveCount c = 7 := ⟨_, rfl, by decide +kernel, by decide +kernel⟩
  have hsum := (interleaved_flushes {} (.seeded 0) hrun).1 c
  rw [hflushed, hlive] at hsum
  exact ⟨s, hrun, hflushed, hlive, hsum.symm⟩

end DogStatsD
