/-!
# Reservoirs

A reservoir keeps the observations of one context until they are flushed. A bounded one keeps the
last few only: the oldest makes room for the newest. An unbounded one keeps all, and gives them back
in blocks, the newest block first and each block in order of arrival.

A bounded reservoir gathers observations in runs as long as its bound and lets go of whole runs: the
run being gathered and the one before it always cover the observations to be kept.

* `Reservoir.Holds.record`: recording an observation puts it in front of the history held.
* `Reservoir.Holds.kept_eq`: of the history held, the newest observations within the bound are kept.
-/

namespace DogStatsD

/-- The observations of a context. -/
structure Reservoir where
  /-- The most observations kept, if bounded; at least one is always kept. -/
  bound : Option Nat
  firstRate : Float
  observed : Nat := 0
  /-- The run being gathered, the newest observation first. -/
  recent : List Float := []
  /-- The run before it, the newest observation first. -/
  older : List Float := []

namespace Reservoir

/-- The length of a run, if the reservoir is bounded. -/
def run? (r : Reservoir) : Option Nat :=
  r.bound.map fun bound => max bound 1

/-- Keep an observation, and begin a new run if it completes one. -/
def record (r : Reservoir) (value : Float) : Reservoir :=
  let observed := r.observed + 1
  let recent := value :: r.recent
  if r.run?.any (observed % · = 0) then { r with observed, recent := [], older := recent }
  else { r with observed, recent }

/-- The observations kept, the newest first. -/
def kept (r : Reservoir) : List Float :=
  match r.run? with
  | none => r.recent
  | some run => (r.recent ++ r.older).take run

/-- The number of observations in a full block. -/
def blockSize : Nat := 64

/-- Cut a list into blocks; only the last one may be shorter than the others. -/
def blocks {α : Type} (values : List α) : List (List α) :=
  if values = [] then []
  else values.take blockSize :: blocks (values.drop blockSize)
termination_by values.length
decreasing_by
  have := List.length_pos_iff.mpr ‹values ≠ []›
  simp only [List.length_drop, blockSize]
  omega

/-- The observations kept, in the order they are flushed in. -/
def values (r : Reservoir) : List Float :=
  match r.bound with
  | none => (blocks r.kept.reverse).reverse.flatten
  | some _ => r.kept.reverse

/-- The rate to report: that of the first observation if it was sampled, and else the share of the
observations that was kept. -/
def rate (r : Reservoir) : Float :=
  if r.firstRate < 1.0 then r.firstRate
  else if r.observed = 0 then 1.0
  else r.kept.length.toUInt64.toFloat / r.observed.toUInt64.toFloat

/-- What a reservoir holds of a history of observations, the newest first. -/
structure Holds (r : Reservoir) (history : List Float) : Prop where
  /-- Every observation of the history was counted. -/
  observed_eq : r.observed = history.length
  /-- Without a bound, the run being gathered is the whole history. -/
  recent_eq_of_none : r.run? = none → r.recent = history
  /-- With a bound, it is what came after the last run completed. -/
  recent_eq_of_some {run : Nat} : r.run? = some run → r.recent = history.take (history.length % run)
  /-- The run before it is the last one completed. -/
  older_eq_of_some {run : Nat} :
    r.run? = some run → r.older = (history.drop (history.length % run)).take run

/-- Runs are not empty. -/
theorem run_pos {r : Reservoir} {run : Nat} (h : r.run? = some run) : 0 < run := by
  simp only [run?, Option.map_eq_some_iff] at h
  obtain ⟨bound, -, rfl⟩ := h
  omega

/-- A fresh reservoir holds nothing. -/
theorem holds_nil (bound : Option Nat) (firstRate : Float) :
    ({ bound, firstRate } : Reservoir).Holds [] := by
  constructor <;> simp

@[simp]
theorem run?_record (r : Reservoir) (value : Float) : (r.record value).run? = r.run? := by
  unfold record
  dsimp only
  split <;> rfl

@[simp]
theorem observed_record (r : Reservoir) (value : Float) :
    (r.record value).observed = r.observed + 1 := by
  unfold record
  dsimp only
  split <;> rfl

/-- Recording an observation puts it in front of the history held. -/
theorem Holds.record {r : Reservoir} {history : List Float} (h : r.Holds history) (value : Float) :
    (r.record value).Holds (value :: history) := by
  refine ⟨by simp [h.observed_eq], fun hrun => ?_, fun {run} hrun => ?_, fun {run} hrun => ?_⟩
  · -- Without a bound, no run is ever completed.
    rw [run?_record] at hrun
    simp [Reservoir.record, hrun, h.recent_eq_of_none hrun]
  all_goals
    rw [run?_record] at hrun
    have hpos := run_pos hrun
    have hrecent := h.recent_eq_of_some hrun
    have holder := h.older_eq_of_some hrun
    have hlt := Nat.mod_lt history.length hpos
    have hmod : (history.length + 1) % run = (history.length % run + 1) % run :=
      (Nat.mod_add_mod history.length run 1).symm
    obtain hfull | hpartial : history.length % run + 1 = run ∨ history.length % run + 1 < run := by
      omega
    · -- The observation completes a run, which becomes the older one.
      rw [hfull, Nat.mod_self] at hmod
      obtain ⟨rest, rfl⟩ : ∃ rest, run = rest + 1 := ⟨_, hfull.symm⟩
      have hrest : history.length % (rest + 1) = rest := by omega
      simp [Reservoir.record, hrun, h.observed_eq, hmod, hrecent, hrest]
    · -- The run goes on.
      rw [Nat.mod_eq_of_lt hpartial] at hmod
      simp [Reservoir.record, hrun, h.observed_eq, hmod, hrecent, holder]

/-- Of the history held, the newest observations within the bound are kept. -/
theorem Holds.kept_eq {r : Reservoir} {history : List Float} (h : r.Holds history) :
    r.kept = match r.run? with
      | none => history
      | some run => history.take run := by
  unfold kept
  cases hrun : r.run? with
  | none => exact h.recent_eq_of_none hrun
  | some run =>
    -- Both runs together are a piece of the history, and no shorter than one run.
    have hlt := Nat.mod_lt history.length (run_pos hrun)
    simp only
    rw [h.recent_eq_of_some hrun, h.older_eq_of_some hrun, ← List.take_add, List.take_take]
    congr 1
    omega

end Reservoir

end DogStatsD
