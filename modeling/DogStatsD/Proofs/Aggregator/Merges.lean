import DogStatsD.Aggregator.Basic
import DogStatsD.Proofs.Aggregator.Table
import Mathlib.Algebra.Ring.Int.Defs
import Mathlib.Data.List.Induction

/-!
# What Merging Amounts To

What an aggregator flushes is fixed by what was merged since the flush before, and here is how,
without tables: each kind of metric looks at the merges of its own kind only, takes them apart by
context, and makes one entry of the items of each context.

* `sumOf`, `lastOf`, `keptOf`: what is made of the items of a context;
* `entriesOf`: everything flushed after some merges, and `flushedContexts` the contexts counted;
* `recorded`: the reservoir that has recorded the observations of a context;
* `values_recorded`, `rate_recorded`: what that reservoir gives back.
-/

namespace DogStatsD

/-- Something merged into an aggregator. -/
inductive Merge where
  | count (context : Context) (value : Int64)
  | gauge (context : Context) (value : Float)
  | set (context : Context) (value : String)
  /-- An observation that sampling has kept. -/
  | observation (kind : Kind) (context : Context) (value rate : Float)

namespace Merge

/-- The context merged into. -/
def context : Merge → Context
  | .count context _ | .gauge context _ | .set context _ | .observation _ context .. => context

/-- The kind of the metric merged. -/
def kind : Merge → Kind
  | .count .. => .count
  | .gauge .. => .gauge
  | .set .. => .set
  | .observation kind .. => kind

def count? : Merge → Option (Context × Int64)
  | .count context value => some (context, value)
  | .gauge .. | .set .. | .observation .. => none

def gauge? : Merge → Option (Context × Float)
  | .gauge context value => some (context, value)
  | .count .. | .set .. | .observation .. => none

def member? : Merge → Option (Context × String)
  | .set context value => some (context, value)
  | .count .. | .gauge .. | .observation .. => none

/-- The observations of one kind, each with its rate. -/
def observation? (kind : Kind) : Merge → Option (Context × Float × Float)
  | .observation k context value rate => if k = kind then some (context, value, rate) else none
  | .count .. | .gauge .. | .set .. => none

end Merge

/-! ## The items of a context -/

/-- The sum of differences, as a signed number of sixty-four bits that wraps around. -/
def sumOf (values : List Int64) : Int64 :=
  Int64.ofInt (values.map Int64.toInt).sum

def lastOf (values : List Float) : Float :=
  values.getLastD 0.0

/-- The values kept of those observed, in the order they are flushed in: all of them block by block,
the newest block first, or the last few within the bound. -/
def keptOf (bound : Option Nat) (values : List Float) : List Float :=
  match bound with
  | none => (Reservoir.blocks values).reverse.flatten
  | some bound => values.drop (values.length - max bound 1)

/-- The batch of some observations, each with its rate. The rate of the first is reported if it is
below one, and else the share of the observations that was kept. -/
def batchOf (bound : Option Nat) (kind : Kind) (context : Context)
    (observations : List (Float × Float)) : Batch :=
  let values := keptOf bound (observations.map Prod.fst)
  let first := (observations.head?.map Prod.snd).getD 1.0
  { kind, context, values
    rate := if first < 1.0 then first
      else values.length.toUInt64.toFloat / observations.length.toUInt64.toFloat }

/-! ## Everything flushed -/

/-- The total of each count. -/
def totalsOf (merges : List Merge) : List Entry :=
  let log := merges.filterMap Merge.count?
  (contextsOf log).map fun context =>
    .metric (context.metric (.count (sumOf (itemsOf log context))))

/-- The last value of each gauge. -/
def lastsOf (merges : List Merge) : List Entry :=
  let log := merges.filterMap Merge.gauge?
  (contextsOf log).map fun context =>
    .metric (context.metric (.gauge (lastOf (itemsOf log context))))

/-- Each member of each set once. -/
def membersOf (merges : List Merge) : List Entry :=
  (merges.filterMap Merge.member?).dedup.map fun (context, member) =>
    .metric (context.metric (.set member))

/-- The batch of each context with observations of one kind. -/
def batchesOf (bound : Option Nat) (kind : Kind) (merges : List Merge) : List Entry :=
  let log := merges.filterMap (Merge.observation? kind)
  (contextsOf log).map fun context => .batch (batchOf bound kind context (itemsOf log context))

/-- Everything that is flushed after some merges. -/
def entriesOf (bound : Option Nat) (merges : List Merge) : List Entry :=
  totalsOf merges ++ lastsOf merges ++ membersOf merges ++ batchesOf bound .histogram merges ++
    batchesOf bound .distribution merges ++ batchesOf bound .timing merges

/-- The distinct contexts of one kind that are flushed after some merges. -/
def flushedContexts (merges : List Merge) : Kind → List Context
  | .count => contextsOf (merges.filterMap Merge.count?)
  | .gauge => contextsOf (merges.filterMap Merge.gauge?)
  | .set => contextsOf (merges.filterMap Merge.member?)
  | .histogram => contextsOf (merges.filterMap (Merge.observation? .histogram))
  | .distribution => contextsOf (merges.filterMap (Merge.observation? .distribution))
  | .timing => contextsOf (merges.filterMap (Merge.observation? .timing))

/-! ## Sums, last values and members -/

/-- Adding a difference to a sum gives the sum with the difference among its items. -/
theorem sumOf_append (values : List Int64) (value : Int64) :
    sumOf (values ++ [value]) = sumOf values + value := by
  rw [sumOf, List.map_append, List.sum_append, List.map_singleton, List.sum_singleton,
    Int64.ofInt_add, Int64.ofInt_toInt]
  rfl

/-- The distinct members of a list, in the order in which an aggregator keeps them. -/
def distinct (values : List String) : List String :=
  values.foldl (fun members value => Aggregator.insertMember value members) []

/-- A member put behind a list is inserted last. -/
theorem distinct_append (values : List String) (value : String) :
    distinct (values ++ [value]) = Aggregator.insertMember value (distinct values) := by
  simp [distinct]

/-- The distinct members are the members, and they are distinct. -/
theorem distinct_spec (values : List String) :
    (distinct values).Nodup ∧ ∀ value, value ∈ distinct values ↔ value ∈ values := by
  -- Members come in at the end, so the induction takes them off there.
  induction values using List.reverseRecOn with
  | nil => simp [distinct]
  | append_singleton values value ih =>
    obtain ⟨hnodup, hmem⟩ := ih
    rw [distinct_append, Aggregator.insertMember]
    split
    next hold =>
      refine ⟨hnodup, ?_⟩
      intro other
      rw [hmem, List.mem_append, List.mem_singleton]
      constructor
      · exact .inl
      · rintro (h | rfl)
        · exact h
        · exact (hmem other).mp hold
    next hnew =>
      refine ⟨List.nodup_append.mpr ⟨hnodup, List.nodup_singleton value, ?_⟩,
        fun other => by simp [hmem]⟩
      rintro a ha b hb rfl
      exact hnew (List.mem_singleton.mp hb ▸ ha)

/-! ## Reservoirs -/

/-- The reservoir that has recorded some observations, the first of which fixed its rate. -/
def recorded (bound : Option Nat) (observations : List (Float × Float)) : Reservoir :=
  observations.foldl (fun r observation => r.record observation.1)
    { bound, firstRate := (observations.head?.map Prod.snd).getD 1.0 }

/-- One more observation is recorded last. -/
theorem recorded_append (bound : Option Nat) {observations : List (Float × Float)}
    (h : observations ≠ []) (observation : Float × Float) :
    recorded bound (observations ++ [observation]) =
      (recorded bound observations).record observation.1 := by
  obtain ⟨first, rest, rfl⟩ := List.exists_cons_of_ne_nil h
  simp [recorded]

/-- Recording leaves the bound alone. -/
@[simp]
theorem bound_record (r : Reservoir) (value : Float) : (r.record value).bound = r.bound := by
  unfold Reservoir.record
  dsimp only
  split <;> rfl

/-- Recording leaves the first rate alone. -/
@[simp]
theorem firstRate_record (r : Reservoir) (value : Float) :
    (r.record value).firstRate = r.firstRate := by
  unfold Reservoir.record
  dsimp only
  split <;> rfl

/-- What a reservoir holds after recording observations, on top of what it held. -/
theorem holds_foldl_record {r : Reservoir} {history : List Float} (h : r.Holds history)
    (observations : List (Float × Float)) :
    let after := observations.foldl (fun r observation => r.record observation.1) r
    after.Holds ((observations.map Prod.fst).reverse ++ history) ∧ after.bound = r.bound ∧
      after.firstRate = r.firstRate := by
  induction observations generalizing r history with
  | nil => exact ⟨h, rfl, rfl⟩
  | cons observation rest ih =>
    obtain ⟨hholds, hbound, hrate⟩ := ih (h.record observation.1)
    refine ⟨?_, hbound.trans (bound_record ..), hrate.trans (firstRate_record ..)⟩
    simpa using hholds

/-- A reservoir holds what it has recorded. -/
theorem holds_recorded (bound : Option Nat) (observations : List (Float × Float)) :
    (recorded bound observations).Holds (observations.map Prod.fst).reverse ∧
      (recorded bound observations).bound = bound ∧
      (recorded bound observations).firstRate = (observations.head?.map Prod.snd).getD 1.0 := by
  have hstart := Reservoir.holds_nil bound ((observations.head?.map Prod.snd).getD 1.0)
  simpa [recorded] using holds_foldl_record hstart observations

/-- Blocks one after the other are the list that was cut. -/
theorem flatten_blocks (values : List Float) : (Reservoir.blocks values).flatten = values := by
  fun_induction Reservoir.blocks values with
  | case1 => rfl
  | case2 values hne ih => rw [List.flatten_cons, ih, List.take_append_drop]

/-- Blocks in any other order hold the same values. -/
theorem reverse_blocks_perm (values : List Float) :
    (Reservoir.blocks values).reverse.flatten.Perm values := by
  have hreverse := (List.reverse_perm (Reservoir.blocks values)).flatten
  rwa [flatten_blocks] at hreverse

/-- The order in which observations are flushed is one of those kept. -/
theorem values_perm (r : Reservoir) : r.values.Perm r.kept := by
  unfold Reservoir.values
  cases r.bound with
  | some bound => exact r.kept.reverse_perm
  | none => exact (reverse_blocks_perm r.kept.reverse).trans r.kept.reverse_perm

/-- What a reservoir gives back of the observations recorded. -/
theorem values_recorded (bound : Option Nat) (observations : List (Float × Float)) :
    (recorded bound observations).values = keptOf bound (observations.map Prod.fst) := by
  obtain ⟨hholds, hbound, -⟩ := holds_recorded bound observations
  unfold Reservoir.values keptOf
  -- The reservoir keeps the newest first, which is why the last ones observed are taken.
  rw [hholds.kept_eq, Reservoir.run?, hbound]
  cases bound with
  | none => simp
  | some bound => simp [List.take_reverse]

/-- Of some observations, some are kept. -/
theorem keptOf_ne_nil (bound : Option Nat) {values : List Float} (h : values ≠ []) :
    keptOf bound values ≠ [] := by
  have hpos := List.length_pos_iff.mpr h
  cases bound with
  | none =>
    -- Cutting into blocks loses no value.
    intro hnil
    have hperm := reverse_blocks_perm values
    rw [show (Reservoir.blocks values).reverse.flatten = [] from hnil] at hperm
    exact h hperm.nil_eq.symm
  | some bound =>
    rw [keptOf, ← List.length_pos_iff, List.length_drop]
    omega

/-- The rate that a reservoir reports for the observations recorded. -/
theorem rate_recorded (bound : Option Nat) (kind : Kind) (context : Context)
    {observations : List (Float × Float)} (h : observations ≠ []) :
    (recorded bound observations).rate = (batchOf bound kind context observations).rate := by
  obtain ⟨hholds, hbound, hrate⟩ := holds_recorded bound observations
  -- The share is computed from the number kept, in whatever order they are.
  have hkept : (recorded bound observations).kept.length =
      (keptOf bound (observations.map Prod.fst)).length := by
    rw [← values_recorded, (values_perm _).length_eq]
  unfold Reservoir.rate batchOf
  rw [hrate, hkept, hholds.observed_eq]
  simp [h]

end DogStatsD
