import DogStatsD.Proofs.Client.Turns

/-!
# Sampling Decisions

Below a rate of one, a draw decides whether a sample is kept; at a rate of one nothing is drawn. An
aggregator decides when it merges an observation, and a shard when it processes a sample.

* `Draws.Decides`: one decision, from the draws before it to those after it;
* `Draws.decides_keeps`: the decisions that are made are of this kind;
* `Aggregator.aggregate_of_takes`: what merging comes to;
* `Shard.process_eq`: what processing comes to.
-/

namespace DogStatsD

/-! ## Comparing rates -/

section

open Float.Model UnpackedFloat

/-- Numbers compare the other way round when they change places. -/
theorem Rate.compare_comm (a b : UnpackedFloat) :
    b.compare a = (a.compare b).map Ordering.swap := by
  -- Of the same sign, exponents come first and significands second.
  have hparts (e f : Int) (m n : Nat) :
      (compare f e).then (compare n m) = ((compare e f).then (compare m n)).swap := by
    have hexponents : compare f e = (compare e f).swap := Std.OrientedCmp.eq_swap
    have hsignificands : compare n m = (compare m n).swap := Std.OrientedCmp.eq_swap
    rw [Ordering.swap_then, hexponents, hsignificands]
  rcases a with (_ | _) | _ | _ | ⟨_ | _, m, e, _⟩ <;>
    rcases b with (_ | _) | _ | _ | ⟨_ | _, n, f, _⟩ <;>
      first
        | rfl
        | exact congrArg (some ·.swap) (hparts e f m n)
        | exact congrArg some (hparts e f m n)

theorem Rate.compare_of_lt {a b : Float} (h : a < b) :
    a.toModel.unpack.compare b.toModel.unpack = some .lt :=
  beq_iff_eq.mp (of_decide_eq_true h)

/-- What is less than a number is not greater than it, nor the same. -/
theorem Rate.not_le_of_lt {a b : Float} (h : a < b) : ¬b ≤ a := by
  intro hle
  have hgreater : (b.toModel.unpack.compare a.toModel.unpack).any (·.isLE) = true :=
    of_decide_eq_true hle
  rw [Rate.compare_comm, Rate.compare_of_lt h] at hgreater
  cases hgreater

end

/-! ## Decisions -/

namespace Draws

variable {d later : Draws} {rate : Float} {kept : Bool}

/-- A decision at a rate, from the draws before it to those after it. Below one, exactly one draw is
made, and the sample is kept if and only if the number drawn is below the rate. At one, the sample
is kept without a draw. -/
structure Decides (d : Draws) (rate : Float) (kept : Bool) (later : Draws) : Prop where
  part : rate < 1.0 →
    later = { d with used := d.used + 1 } ∧ (kept = true ↔ unit (d.word d.used) < rate)
  whole : 1.0 ≤ rate → later = d ∧ kept = true
  /-- Whatever the rate, one draw at most is made. -/
  once : later = d ∨ later = { d with used := d.used + 1 }

theorem decides_keeps (d : Draws) (rate : Float) :
    d.Decides rate (d.keeps rate).1 (d.keeps rate).2 := by
  by_cases hwhole : 1.0 ≤ rate
  · have hkeeps : d.keeps rate = (true, d) := if_pos hwhole
    rw [hkeeps]
    exact ⟨fun hpart => absurd hwhole (Rate.not_le_of_lt hpart), fun _ => ⟨rfl, rfl⟩, .inl rfl⟩
  · have hkeeps : d.keeps rate =
        (decide (unit (d.word d.used) < rate), { d with used := d.used + 1 }) := if_neg hwhole
    rw [hkeeps]
    exact ⟨fun _ => ⟨rfl, decide_eq_true_iff⟩, fun h => absurd h hwhole, .inr rfl⟩

/-- A decision about a sample. Only metrics have a rate. -/
def DecidesOn (d : Draws) (sample : Sample) (kept : Bool) (later : Draws) : Prop :=
  match sample with
  | .metric m => d.Decides m.rate kept later
  | .event _ | .serviceCheck _ => later = d ∧ kept = true

theorem DecidesOn.once {sample : Sample} (h : d.DecidesOn sample kept later) :
    later = d ∨ later = { d with used := d.used + 1 } := by
  cases sample with
  | metric m => exact Decides.once h
  | event event | serviceCheck check => exact .inl h.1

theorem decidesOn_keeps (d : Draws) (sample : Sample) :
    d.DecidesOn sample (Shard.keeps d sample).1 (Shard.keeps d sample).2 := by
  cases sample with
  | metric m => exact d.decides_keeps m.rate
  | event event | serviceCheck check => exact ⟨rfl, rfl⟩

end Draws

/-- A sample that an aggregator takes is merged if sampling keeps it, and only observations are left
to sampling. -/
theorem Aggregator.aggregate_of_takes {a : Aggregator} {m : Metric} (h : a.takes m = true)
    (d : Draws) :
    ∃ kept later,
      a.aggregate d m =
        (none,
          if kept then (Merge.ofMetric (Context.ofMetric a.settings.cardinality m) m).apply a
          else a,
          later) ∧
      (m.kind.isReservoir = true → d.Decides m.rate kept later) ∧
      (m.kind.isReservoir = false → later = d ∧ kept = true) := by
  unfold aggregate Metric.kind Merge.ofMetric
  rw [if_pos h]
  cases m.value with
  | gauge value | count value | set value => exact ⟨true, d, rfl, nofun, fun _ => ⟨rfl, rfl⟩⟩
  | histogram value | distribution value | timing value =>
    exact ⟨(d.keeps m.rate).1, (d.keeps m.rate).2, rfl, fun _ => d.decides_keeps m.rate, nofun⟩

/-- A sample that a shard processes is added to its packer if sampling keeps it. -/
theorem Shard.process_eq {τ : Type} (s : Shard) (o : Outbox τ) (d : Draws) (sample : Sample) :
    ∃ kept later, d.DecidesOn sample kept later ∧
      s.process o d sample =
        if kept then
          ({ s with packer := (s.packer.add o (.sample sample)).1 },
            (s.packer.add o (.sample sample)).2, later)
        else (s, o, later) :=
  ⟨(keeps d sample).1, (keeps d sample).2, d.decidesOn_keeps sample, rfl⟩

end DogStatsD
