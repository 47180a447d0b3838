import DogStatsD.Decimal.Shortest
import Mathlib

/-!
# Numbers That Round to a Double

The numbers that round to a positive double `m * 2 ^ e` form an interval around it, which reaches
half way to the next double on either side and holds its ends exactly when `m` is even.

* `IsDouble`: mantissas and exponents of doubles;
* `RoundsTo`: the numbers that round to a double;
* `RoundsTo.convex`, `roundsTo_self`: they form an interval around it;
* `RoundsTo.unique`: no number rounds to two doubles.
-/

namespace DogStatsD.Decimal

/-- Mantissa and exponent of a double. Only the numbers of the least exponent, zero among them, have
no leading bit. -/
structure IsDouble (m : ℕ) (e : ℤ) : Prop where
  lt : m < 2 ^ 53
  least : minExponent ≤ e
  most : e ≤ 971
  leading : leadingBit ≤ m ∨ e = minExponent

/-- A quarter of the unit `2 ^ e`. -/
def quarter (e : ℤ) : ℚ :=
  2 ^ (e - 2)

theorem quarter_pos (e : ℤ) : 0 < quarter e := by
  unfold quarter
  positivity

/-- Four quarters make up the last place of a mantissa. -/
theorem four_mul_quarter (e : ℤ) : 4 * quarter e = 2 ^ e := by
  rw [quarter, zpow_sub₀ (by norm_num)]
  norm_num
  ring

/-- The middle between a double and the one below it. -/
def lowerEnd (m : ℕ) (e : ℤ) : ℚ :=
  (4 * m - lowerGap m e) * quarter e

/-- The middle between a double and the one above it. -/
def upperEnd (m : ℕ) (e : ℤ) : ℚ :=
  (4 * m + 2) * quarter e

/-- The number `q` rounds to the positive double `m * 2 ^ e`: a middle goes to the even mantissa. -/
structure RoundsTo (m : ℕ) (e : ℤ) (q : ℚ) : Prop where
  lower : lowerEnd m e ≤ q
  upper : q ≤ upperEnd m e
  even : q = lowerEnd m e ∨ q = upperEnd m e → m % 2 = 0

variable {m m' : ℕ} {e e' : ℤ} {p q r : ℚ}

/-! ## An interval around the double -/

theorem one_le_lowerGap (m : ℕ) (e : ℤ) : 1 ≤ lowerGap m e := by
  unfold lowerGap
  split <;> decide

/-- The gap below is one or two quarters wide. -/
theorem lowerGap_le_two (m : ℕ) (e : ℤ) : lowerGap m e ≤ 2 := by
  unfold lowerGap
  split <;> decide

/-- The interval of a double begins below its value. -/
theorem lowerEnd_lt (m : ℕ) (e : ℤ) : lowerEnd m e < m * 2 ^ e := by
  have hgap : (1 : ℚ) ≤ lowerGap m e := by exact_mod_cast one_le_lowerGap m e
  have hquarter := quarter_pos e
  rw [← four_mul_quarter, lowerEnd]
  nlinarith

/-- The interval of a double ends above its value. -/
theorem lt_upperEnd (m : ℕ) (e : ℤ) : m * 2 ^ e < upperEnd m e := by
  have hquarter := quarter_pos e
  rw [← four_mul_quarter, upperEnd]
  linarith

/-- The interval of a positive double holds positive numbers only. -/
theorem lowerEnd_pos (hm : 0 < m) (e : ℤ) : 0 < lowerEnd m e := by
  have hgap : (lowerGap m e : ℚ) ≤ 2 := by exact_mod_cast lowerGap_le_two m e
  have hm : (1 : ℚ) ≤ m := by exact_mod_cast hm
  exact mul_pos (by linarith) (quarter_pos e)

/-- Between the ends, every number rounds to the double. -/
theorem roundsTo_of_lt (hlower : lowerEnd m e < q) (hupper : q < upperEnd m e) :
    RoundsTo m e q where
  lower := hlower.le
  upper := hupper.le
  even := by
    rintro (hend | hend)
    · exact absurd hend hlower.ne'
    · exact absurd hend hupper.ne

/-- A double is read back from its own value. -/
theorem roundsTo_self (m : ℕ) (e : ℤ) : RoundsTo m e (m * 2 ^ e) :=
  roundsTo_of_lt (lowerEnd_lt m e) (lt_upperEnd m e)

/-- What rounds to a positive double is positive. -/
theorem RoundsTo.pos (h : RoundsTo m e q) (hm : 0 < m) : 0 < q :=
  (lowerEnd_pos hm e).trans_le h.lower

/-- What lies between two numbers that round to a double does so as well. -/
theorem RoundsTo.convex (hp : RoundsTo m e p) (hr : RoundsTo m e r) (hpq : p ≤ q) (hqr : q ≤ r) :
    RoundsTo m e q where
  lower := hp.lower.trans hpq
  upper := hqr.trans hr.upper
  even := by
    rintro (hend | hend)
    · exact hp.even (.inl (le_antisymm (hend ▸ hpq) hp.lower))
    · exact hr.even (.inr (le_antisymm hr.upper (hend ▸ hqr)))

/-! ## Intervals of different doubles -/

/-- The interval of one double ends before that of another begins, or they touch and one of the two
mantissas is odd. -/
def Before (m : ℕ) (e : ℤ) (m' : ℕ) (e' : ℤ) : Prop :=
  upperEnd m e < lowerEnd m' e' ∨
    upperEnd m e = lowerEnd m' e' ∧ (m % 2 = 1 ∨ m' % 2 = 1)

/-- Of two doubles with one exponent, the interval of the smaller mantissa comes first. -/
theorem before_of_mantissa (h : IsDouble m e) (hless : m < m') : Before m e m' e := by
  have hquarter := quarter_pos e
  -- With the same exponent, the larger double is not the first one with a leading bit.
  have hgap : lowerGap m' e = 2 := by
    have hleading := h.leading
    unfold lowerGap
    rw [if_neg (by omega)]
  unfold Before upperEnd lowerEnd
  rw [hgap]
  rcases Nat.lt_or_ge (m + 1) m' with hapart | hnext
  · left
    have hapart : (m : ℚ) + 1 < m' := by exact_mod_cast hapart
    push_cast
    gcongr
    linarith
  · right
    obtain rfl : m' = m + 1 := by omega
    refine ⟨?_, by omega⟩
    push_cast
    ring

/-- Of two doubles, the interval of the smaller exponent comes first. -/
theorem before_of_exponent (h : IsDouble m e) (h' : IsDouble m' e') (hless : e < e') :
    Before m e m' e' := by
  have hbits : leadingBit = 2 ^ 52 := rfl
  have hlt := h.lt
  have hquarter := quarter_pos e
  -- The larger double is normal, and its quarters are at least twice as long.
  have hleast := h.least
  have hnormal : leadingBit ≤ m' := h'.leading.resolve_right (by omega)
  have hgap : (2 ^ 54 - 1 : ℚ) ≤ 4 * m' - lowerGap m' e' := by
    have hgap : (2 ^ 54 - 1 : ℤ) ≤ 4 * m' - lowerGap m' e' := by
      unfold lowerGap
      split <;> push_cast <;> omega
    exact_mod_cast hgap
  have hlong : 2 * quarter e ≤ quarter e' := by
    calc 2 * quarter e = 2 ^ (e - 2 + 1) := by
          rw [quarter, zpow_add_one₀ (by norm_num), mul_comm]
      _ ≤ quarter e' := zpow_le_zpow_right₀ (by norm_num) (by omega)
  have hlower : (2 ^ 54 - 1) * (2 * quarter e) ≤ lowerEnd m' e' := by
    unfold lowerEnd
    gcongr
  have hupper : upperEnd m e = (2 * m + 1) * (2 * quarter e) := by
    unfold upperEnd
    ring
  rw [Before, hupper]
  -- Only the last mantissa before a power of two gets as far as the lower end.
  rcases Nat.lt_or_ge (m + 1) (2 ^ 53) with hshort | hlast
  · left
    refine lt_of_lt_of_le ?_ hlower
    have hshort : (m : ℚ) + 1 < 2 ^ 53 := by exact_mod_cast hshort
    gcongr
    linarith
  · obtain rfl : m = 2 ^ 53 - 1 := by omega
    have hodd : (2 ^ 53 - 1) % 2 = 1 := by norm_num
    have hends : (2 * ((2 ^ 53 - 1 : ℕ) : ℚ) + 1) * (2 * quarter e) =
        (2 ^ 54 - 1) * (2 * quarter e) := by
      norm_num
    rw [hends]
    rcases hlower.lt_or_eq with hapart | htouch
    · exact .inl hapart
    · exact .inr ⟨htouch, .inl hodd⟩

/-- A number rounds to one double only: intervals that follow each other share no number. -/
theorem not_roundsTo_of_before (h : Before m e m' e') (hq : RoundsTo m e q) :
    ¬RoundsTo m' e' q := by
  intro hq'
  rcases h with hapart | ⟨htouch, hodd⟩
  · exact absurd (hq'.lower.trans hq.upper) hapart.not_ge
  · -- The common end would have to belong to both.
    have hend : q = upperEnd m e := le_antisymm hq.upper (htouch ▸ hq'.lower)
    have heven := hq.even (.inr hend)
    have heven' := hq'.even (.inl (hend.trans htouch))
    omega

/-- No number rounds to two doubles. -/
theorem RoundsTo.unique (hq : RoundsTo m e q) (hq' : RoundsTo m' e' q) (h : IsDouble m e)
    (h' : IsDouble m' e') : m = m' ∧ e = e' := by
  rcases lt_trichotomy e e' with hless | rfl | hmore
  · exact absurd hq' (not_roundsTo_of_before (before_of_exponent h h' hless) hq)
  · rcases lt_trichotomy m m' with hless | heq | hmore
    · exact absurd hq' (not_roundsTo_of_before (before_of_mantissa h hless) hq)
    · exact ⟨heq, rfl⟩
    · exact absurd hq (not_roundsTo_of_before (before_of_mantissa h' hmore) hq')
  · exact absurd hq (not_roundsTo_of_before (before_of_exponent h' h hmore) hq')

end DogStatsD.Decimal
