import DogStatsD.Recorder.Basic
import DogStatsD.Proofs.Aggregator.Merges
import DogStatsD.Proofs.Recorder.Uses
import Mathlib.Algebra.BigOperators.Ring.Finset

/-!
# Updates of Counters and Gauges

What counters and gauges report of their updates, put without their states: a counter reports what
it has grown by since the update before, and a gauge what all updates together have made of it.

* `growth`, `growths`: what a counter grows by;
* `Counter.report_eq`, `sumOf_capped`: what a counter reports, and what its reports add up to;
* `sum_map_capped`: where capping each growth caps their sum;
* `gaugeAfter`, `lastOf_gaugeReports`: the last report of a gauge.
-/

namespace DogStatsD

/-! ## Counters -/

inductive CounterUpdate where
  | increment (n : UInt64)
  | setTotal (total : UInt64)

/-- What a counter grows by with an update, given the update before it. Of a total, this is what is
above the total before, if there was one and it was smaller; if the counter was not at a total,
nothing is known to have grown. -/
def growth (last? : Option CounterUpdate) : CounterUpdate → Option ℕ
  | .increment n => some n.toNat
  | .setTotal total =>
    match last? with
    | some (.setTotal base) => if base < total then some (total.toNat - base.toNat) else none
    | some (.increment _) | none => none

/-- What a counter grows by with each of its updates that make it grow, given the update before
them. -/
def growths (last? : Option CounterUpdate) : List CounterUpdate → List ℕ
  | [] => []
  | update :: rest => (growth last? update).toList ++ growths (some update) rest

/-- The largest count that stands for a growth. -/
def capped (n : ℕ) : ℕ :=
  min n (2 ^ 63 - 1)

namespace Counter

/-- Update a counter. -/
def apply (c : Counter) : CounterUpdate → Option Int64 × Counter
  | .increment n => (some (c.increment n).1, (c.increment n).2)
  | .setTotal total => c.setTotal total

/-- The state of a counter after its updates. -/
def after (updates : List CounterUpdate) : Counter :=
  updates.foldl (fun c update => (c.apply update).2) {}

/-- What a counter reports of an update after others. -/
def report (before : List CounterUpdate) (update : CounterUpdate) : Option Int64 :=
  ((after before).apply update).1

theorem after_concat (before : List CounterUpdate) (update : CounterUpdate) :
    after (before ++ [update]) = ((after before).apply update).2 := by
  simp [after]

/-- A counter is at a total if this was its last update. -/
theorem after_absolute (updates : List CounterUpdate) :
    match updates.getLast? with
    | some (.setTotal total) => (after updates).absolute = true ∧ (after updates).last = total
    | some (.increment _) | none => (after updates).absolute = false := by
  rcases updates.eq_nil_or_concat with rfl | ⟨before, update, rfl⟩
  · rfl
  · rw [List.concat_eq_append, List.getLast?_append, after_concat]
    cases update with
    | increment n => rfl
    | setTotal total => exact ⟨rfl, rfl⟩

theorem saturate_eq (n : UInt64) : saturate n = Int64.ofNat (capped n.toNat) :=
  rfl

/-- A counter reports its growth. -/
theorem report_eq (before : List CounterUpdate) (update : CounterUpdate) :
    report before update =
      (growth before.getLast? update).map fun n => Int64.ofNat (capped n) := by
  -- The state of a counter says no more than its last update does.
  have hlast := after_absolute before
  cases update with
  | increment n => rfl
  | setTotal total =>
    unfold report apply setTotal growth
    split at hlast
    next base hbase =>
      obtain ⟨habsolute, hlast⟩ := hlast
      rw [habsolute, hlast]
      by_cases hless : base < total
      · simp [hless, saturate_eq, UInt64.toNat_sub_of_le _ _ (UInt64.le_of_lt hless)]
      · simp [hless]
    · simp [hlast]
    · simp [hlast]

theorem reportsAfter_report (before updates : List CounterUpdate) :
    reportsAfter report before updates =
      (growths before.getLast? updates).map fun n => Int64.ofNat (capped n) := by
  induction updates generalizing before with
  | nil => rfl
  | cons update rest ih =>
    rw [reportsAfter, ih, report_eq, growths, List.map_append, List.getLast?_concat,
      Option.toList_map]

end Counter

/-- Reports of a counter add up to the sum of its growths, each of which is capped, as a signed
number of sixty-four bits that wraps around. -/
theorem sumOf_capped (growths : List ℕ) :
    sumOf (growths.map fun n => Int64.ofNat (capped n)) =
      Int64.ofNat (growths.map capped).sum := by
  have hfits (n : ℕ) : (Int64.ofNat (capped n)).toInt = capped n :=
    Int64.toInt_ofNat_of_lt ((Nat.min_le_right n _).trans_lt (by decide))
  have hvalues : (growths.map fun n => Int64.ofNat (capped n)).map Int64.toInt =
      (growths.map capped).map Nat.cast := by
    simp [Function.comp_def, hfits]
  rw [sumOf, hvalues, ← Nat.cast_list_sum, Int64.ofInt_eq_ofNat]

/-- As long as capped growths add up to a count, the sum is capped as each of them is. -/
theorem sum_map_capped {grown : List ℕ} (h : (grown.map capped).sum ≤ 2 ^ 63 - 1) :
    (grown.map capped).sum = capped grown.sum := by
  induction grown with
  | nil => rfl
  | cons n rest ih =>
    rw [List.map_cons, List.sum_cons] at h ⊢
    have hrest := ih ((Nat.le_add_left _ _).trans h)
    rw [hrest] at h ⊢
    rw [List.sum_cons]
    -- If one of the two is cut off, it leaves no room for the other.
    unfold capped at h ⊢
    omega

/-! ## Gauges -/

inductive GaugeUpdate where
  | set (value : Float)
  | increment (value : Float)
  | decrement (value : Float)

/-- What an update makes of the value of a gauge. -/
def GaugeUpdate.apply (value : Float) : GaugeUpdate → Float
  | .set new => new
  | .increment step => value + step
  | .decrement step => value - step

/-- The value of a gauge after its updates, with which it starts at zero. -/
def gaugeAfter (updates : List GaugeUpdate) : Float :=
  updates.foldl GaugeUpdate.apply 0.0

/-- What a gauge reports of an update after others. -/
def gaugeReport (before : List GaugeUpdate) (update : GaugeUpdate) : Option Float :=
  some (gaugeAfter (before ++ [update]))

/-- A gauge reports each update. -/
theorem gaugeReports_eq_nil {before updates : List GaugeUpdate} :
    reportsAfter gaugeReport before updates = [] ↔ updates = [] := by
  cases updates <;> simp [reportsAfter, gaugeReport]

/-- The last report is that of all updates. -/
theorem lastOf_gaugeReports (before : List GaugeUpdate) {updates : List GaugeUpdate}
    (h : updates ≠ []) :
    lastOf (reportsAfter gaugeReport before updates) = gaugeAfter (before ++ updates) := by
  obtain ⟨earlier, last, rfl⟩ := updates.eq_nil_or_concat.resolve_left h
  rw [List.concat_eq_append, reportsAfter_concat, ← List.append_assoc]
  simp [lastOf, gaugeReport]

end DogStatsD
