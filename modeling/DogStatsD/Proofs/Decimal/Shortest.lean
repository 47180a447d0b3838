import DogStatsD.Proofs.Decimal.Interval

/-!
# Shortest Decimals

Of the decimals that round to a double, the search finds one on the coarsest grid. It looks at two
points of each grid only, which is enough: they are the neighbours of the double, so that no other
point of the grid rounds to it unless one of them does.

* `Ruler.rounds_iff`: the comparison of whole numbers is that of the numbers they stand for;
* `roundsTo_of_onGrid?`, `not_roundsTo_of_onGrid?`: what is found on one grid;
* `searchGrids_spec`: what is found by the search;
* `shortest_roundsTo`, `shortest_coarsest`: the decimal rounds to the double, and none on a coarser
  grid does;
* `shortest_mod_ten`: its last digit is not zero.
-/

namespace DogStatsD.Decimal

variable {m n : ℕ} {e k : ℤ}

/-- The number that is written by some digits and an exponent. -/
def Scaled.value (s : Scaled) : ℚ :=
  s.digits * 10 ^ s.exponent

/-! ## Rulers -/

/-- A power is a quotient of powers with natural exponents. -/
theorem zpow_mul_pow_toNat {b : ℚ} (hb : b ≠ 0) (z : ℤ) : b ^ z * b ^ (-z).toNat = b ^ z.toNat := by
  rw [← zpow_natCast, ← zpow_natCast, ← zpow_add₀ hb]
  congr 1
  omega

theorem Ruler.den_pos (e k : ℤ) : 0 < (Ruler.ofGrid e k).den :=
  Nat.mul_pos (Nat.pow_pos (by decide)) (Nat.pow_pos (by decide))

/-- Numerator and denominator are the two units on a common scale. -/
theorem Ruler.num_mul_pow (e k : ℤ) :
    ((Ruler.ofGrid e k).num : ℚ) * 10 ^ k = quarter e * (Ruler.ofGrid e k).den := by
  have htwo := zpow_mul_pow_toNat (b := 2) (by norm_num) (e - 2)
  have hten := zpow_mul_pow_toNat (b := 10) (by norm_num) k
  rw [show -(e - 2) = 2 - e by ring] at htwo
  have hnum : ((Ruler.ofGrid e k).num : ℚ) = 2 ^ (e - 2).toNat * 10 ^ (-k).toNat := by
    exact_mod_cast rfl
  have hden : ((Ruler.ofGrid e k).den : ℚ) = 2 ^ (2 - e).toNat * 10 ^ k.toNat := by
    exact_mod_cast rfl
  rw [hnum, hden, quarter, ← htwo, ← hten]
  ring

/-- Quarters of the double's unit and steps of the grid are compared on that scale. -/
theorem Ruler.exists_scale (e k : ℤ) :
    ∃ scale : ℚ, 0 < scale ∧
      (∀ a : ℕ, ((a * (Ruler.ofGrid e k).num : ℕ) : ℚ) = a * quarter e * scale) ∧
      ∀ n : ℕ, ((n * (Ruler.ofGrid e k).den : ℕ) : ℚ) = n * 10 ^ k * scale := by
  have hden : (0 : ℚ) < (Ruler.ofGrid e k).den := by exact_mod_cast Ruler.den_pos e k
  have hten : (0 : ℚ) < 10 ^ k := by positivity
  refine ⟨(Ruler.ofGrid e k).den / 10 ^ k, by positivity, fun a => ?_, fun n => ?_⟩
  · rw [Nat.cast_mul, mul_assoc, ← mul_div_assoc, ← Ruler.num_mul_pow,
      mul_div_cancel_right₀ _ hten.ne']
  · rw [Nat.cast_mul]
    field_simp

/-- A ruler compares products of naturals just as the fractions that they stand for. -/
theorem Ruler.le_iff (e k : ℤ) (a n : ℕ) :
    a * (Ruler.ofGrid e k).num ≤ n * (Ruler.ofGrid e k).den ↔ a * quarter e ≤ n * 10 ^ k := by
  obtain ⟨scale, hscale, hnum, hden⟩ := Ruler.exists_scale e k
  rw [← Nat.cast_le (α := ℚ), hnum, hden, mul_le_mul_iff_of_pos_right hscale]

theorem Ruler.ge_iff (e k : ℤ) (a n : ℕ) :
    n * (Ruler.ofGrid e k).den ≤ a * (Ruler.ofGrid e k).num ↔ n * 10 ^ k ≤ a * quarter e := by
  obtain ⟨scale, hscale, hnum, hden⟩ := Ruler.exists_scale e k
  rw [← Nat.cast_le (α := ℚ), hnum, hden, mul_le_mul_iff_of_pos_right hscale]

/-- The test of a point of the grid is whether it rounds to the double. -/
theorem Ruler.rounds_iff (hm : 0 < m) :
    (Ruler.ofGrid e k).rounds m e n = true ↔ RoundsTo m e (n * 10 ^ k) := by
  have hgap := lowerGap_le_two m e
  have hlower : ((4 * m - lowerGap m e : ℕ) : ℚ) * quarter e = lowerEnd m e := by
    rw [lowerEnd, Nat.cast_sub (by omega)]
    push_cast
    rfl
  have hupper : ((4 * m + 2 : ℕ) : ℚ) * quarter e = upperEnd m e := by
    rw [upperEnd]
    push_cast
    rfl
  unfold Ruler.rounds
  dsimp only
  split
  next heven =>
    rw [decide_eq_true_iff, Ruler.le_iff, Ruler.ge_iff, hlower, hupper]
    exact ⟨fun h => ⟨h.1, h.2, fun _ => heven⟩, fun h => ⟨h.lower, h.upper⟩⟩
  next hodd =>
    rw [decide_eq_true_iff, ← not_le, ← not_le, Ruler.le_iff, Ruler.ge_iff, hlower, hupper, not_le,
      not_le]
    refine ⟨fun h => roundsTo_of_lt h.1 h.2, fun h => ⟨?_, ?_⟩⟩
    · exact lt_of_le_of_ne h.lower fun hend => hodd (h.even (.inl hend.symm))
    · exact lt_of_le_of_ne h.upper fun hend => hodd (h.even (.inr hend))

/-! ## One grid -/

/-- The last point of the grid `10 ^ k` that does not lie above the double. -/
def pointBelow (m : ℕ) (e k : ℤ) : ℕ :=
  4 * m * (Ruler.ofGrid e k).num / (Ruler.ofGrid e k).den

/-- In quarters of its last place, a number has four times its mantissa. -/
theorem four_mul_mul_quarter (m : ℕ) (e : ℤ) : ((4 * m : ℕ) : ℚ) * quarter e = m * 2 ^ e := by
  rw [← four_mul_quarter]
  push_cast
  ring

/-- The point of a grid below a number is not above it. -/
theorem pointBelow_le (m : ℕ) (e k : ℤ) : pointBelow m e k * 10 ^ k ≤ (m * 2 ^ e : ℚ) := by
  rw [← four_mul_mul_quarter, ← Ruler.ge_iff]
  exact Nat.div_mul_le_self _ _

/-- The next point of the grid is above the number. -/
theorem lt_pointBelow_succ (m : ℕ) (e k : ℤ) :
    (m * 2 ^ e : ℚ) < (pointBelow m e k + 1 : ℕ) * 10 ^ k := by
  rw [← four_mul_mul_quarter, ← not_le, ← Ruler.ge_iff, not_le]
  exact Nat.lt_mul_of_div_lt (Nat.lt_succ_self _) (Ruler.den_pos e k)

/-- If some point of a grid rounds to a double, then so does a neighbour of the double. -/
theorem roundsTo_neighbour (h : RoundsTo m e (n * 10 ^ k)) :
    RoundsTo m e (pointBelow m e k * 10 ^ k) ∨
      RoundsTo m e ((pointBelow m e k + 1 : ℕ) * 10 ^ k) := by
  rcases Nat.lt_or_ge (pointBelow m e k) n with habove | hbelow
  · have hle : ((pointBelow m e k + 1 : ℕ) : ℚ) ≤ n := by exact_mod_cast habove
    exact .inr ((roundsTo_self m e).convex h (lt_pointBelow_succ m e k).le (by gcongr))
  · have hle : (n : ℚ) ≤ pointBelow m e k := by exact_mod_cast hbelow
    exact .inl (h.convex (roundsTo_self m e) (by gcongr) (pointBelow_le m e k))

/-- Only the two points of a grid around a number may stand for it; if both do, the nearer one is
taken. -/
theorem onGrid?_eq (m : ℕ) (e k : ℤ) :
    onGrid? m e k =
      match (Ruler.ofGrid e k).rounds m e (pointBelow m e k),
        (Ruler.ofGrid e k).rounds m e (pointBelow m e k + 1) with
      | true, true => some ((Ruler.ofGrid e k).nearest m)
      | true, false => some (pointBelow m e k)
      | false, true => some (pointBelow m e k + 1)
      | false, false => none :=
  rfl

/-- The nearest point of a grid is one of the two around a number. -/
theorem nearest_eq (m : ℕ) (e k : ℤ) :
    (Ruler.ofGrid e k).nearest m = pointBelow m e k ∨
      (Ruler.ofGrid e k).nearest m = pointBelow m e k + 1 := by
  unfold Ruler.nearest pointBelow
  dsimp only
  split_ifs <;> simp

/-- What is found on a grid rounds to the double. -/
theorem roundsTo_of_onGrid? (hm : 0 < m) (h : onGrid? m e k = some n) :
    RoundsTo m e (n * 10 ^ k) := by
  rw [onGrid?_eq] at h
  rw [← Ruler.rounds_iff hm]
  split at h
  next hbelow habove =>
    obtain rfl := Option.some.inj h
    rcases nearest_eq m e k with heq | heq
    · exact heq ▸ hbelow
    · exact heq ▸ habove
  next hbelow _ => exact Option.some.inj h ▸ hbelow
  next _ habove => exact Option.some.inj h ▸ habove
  next => cases h

/-- If nothing is found on a grid, then none of its points rounds to the double. -/
theorem not_roundsTo_of_onGrid? (hm : 0 < m) (h : onGrid? m e k = none) (n : ℕ) :
    ¬RoundsTo m e (n * 10 ^ k) := by
  intro hn
  rw [onGrid?_eq] at h
  -- All cases but one find a point.
  split at h <;> try cases h
  next hbelow habove =>
    rcases roundsTo_neighbour hn with hround | hround
    · exact absurd ((Ruler.rounds_iff hm).mpr hround) (Bool.not_eq_true _ ▸ hbelow)
    · exact absurd ((Ruler.rounds_iff hm).mpr hround) (Bool.not_eq_true _ ▸ habove)

/-- A grid whose steps are not longer than half the double's unit has a point that rounds to it. -/
theorem exists_roundsTo_of_fine (h : (10 : ℚ) ^ k ≤ 2 ^ (e - 1)) :
    ∃ n : ℕ, RoundsTo m e (n * 10 ^ k) := by
  have hhalf : (2 : ℚ) ^ (e - 1) = 2 * quarter e := by
    rw [quarter, show e - 1 = e - 2 + 1 by ring, zpow_add_one₀ (by norm_num), mul_comm]
  have hupper : upperEnd m e = m * 2 ^ e + 2 ^ (e - 1) := by
    rw [upperEnd, hhalf, ← four_mul_quarter]
    ring
  rcases (pointBelow_le m e k).eq_or_lt with hexact | hbelow
  · exact ⟨_, hexact ▸ roundsTo_self m e⟩
  · have habove := lt_pointBelow_succ m e k
    refine ⟨_, roundsTo_of_lt ((lowerEnd_lt m e).trans habove) ?_⟩
    rw [hupper]
    push_cast
    linarith

/-! ## The search -/

/-- Where some grid in reach has a point that rounds to the double, the search finds one, and no
coarser grid that it has seen has one. -/
theorem searchGrids_spec (hm : 0 < m) {count : ℕ} {j : ℤ} (hlow : k - count < j) (hhigh : j ≤ k)
    (h : RoundsTo m e (n * 10 ^ j)) :
    RoundsTo m e (searchGrids m e count k).value ∧
      ∀ i ≤ k, (searchGrids m e count k).exponent < i → ∀ d : ℕ, ¬RoundsTo m e (d * 10 ^ i) := by
  -- By induction on the number of grids left: those passed over have no point that rounds.
  induction count generalizing k with
  | zero => omega
  | succ count ih =>
    unfold searchGrids
    split
    next digits hfound =>
      refine ⟨roundsTo_of_onGrid? hm hfound, fun i hi hlt => ?_⟩
      simp only at hlt
      omega
    next hnone =>
      have hne : j ≠ k := by
        rintro rfl
        exact not_roundsTo_of_onGrid? hm hnone n h
      obtain ⟨hround, hcoarser⟩ := ih (k := k - 1) (by omega) (by omega)
      refine ⟨hround, fun i hi hlt => ?_⟩
      rcases hi.eq_or_lt with rfl | hi
      · exact not_roundsTo_of_onGrid? hm hnone
      · exact hcoarser i (by omega) hlt

/-! ## Powers of two and of ten -/

/-- Powers of ten and two compare as their exponents do, by a ratio of the exponents. -/
theorem ten_zpow_le_two_zpow_of_pow {a b : ℕ} (hb : b ≠ 0) {i j : ℤ} (h : b * i ≤ a * j)
    (hpow : ((10 : ℚ) ^ a) ^ j ≤ (2 ^ b) ^ j) : (10 : ℚ) ^ i ≤ 2 ^ j := by
  have hten : ((10 : ℚ) ^ i) ^ b ≤ (2 ^ j) ^ b := by
    calc ((10 : ℚ) ^ i) ^ b = 10 ^ (b * i) := by rw [← zpow_natCast, ← zpow_mul, mul_comm]
      _ ≤ 10 ^ (a * j) := zpow_le_zpow_right₀ (by norm_num) h
      _ = ((10 : ℚ) ^ a) ^ j := by rw [zpow_mul, zpow_natCast]
      _ ≤ (2 ^ b) ^ j := hpow
      _ = (2 ^ j) ^ b := by rw [← zpow_natCast, ← zpow_natCast, ← zpow_mul, ← zpow_mul, mul_comm]
  exact (pow_le_pow_iff_left₀ (by positivity) (by positivity) hb).mp hten

/-- The decimal logarithm of two lies between `59 / 196` and `28 / 93`. -/
theorem ten_zpow_le_two_zpow {i j : ℤ} (h : 196 * i ≤ 59 * j) (h' : 93 * i ≤ 28 * j) :
    (10 : ℚ) ^ i ≤ 2 ^ j := by
  rcases le_total 0 j with hj | hj
  · refine ten_zpow_le_two_zpow_of_pow (a := 59) (b := 196) (by decide) h ?_
    exact zpow_le_zpow_left₀ hj (by norm_num) (by norm_num)
  · refine ten_zpow_le_two_zpow_of_pow (a := 28) (b := 93) (by decide) h' ?_
    obtain ⟨t, rfl⟩ : ∃ t : ℕ, j = -t := ⟨(-j).toNat, by omega⟩
    rw [zpow_neg, zpow_neg, zpow_natCast, zpow_natCast]
    gcongr
    norm_num

/-- Powers of two and ten compare as their exponents do, by ratios close to their logarithms. -/
theorem two_zpow_le_ten_zpow {i j : ℤ} (h : 59 * j ≤ 196 * i) (h' : 28 * j ≤ 93 * i) :
    (2 : ℚ) ^ j ≤ 10 ^ i := by
  have hinverse := ten_zpow_le_two_zpow (i := -i) (j := -j) (by omega) (by omega)
  rwa [zpow_neg, zpow_neg, inv_le_inv₀ (by positivity) (by positivity)] at hinverse

/-! ## The shortest decimal -/

/-- The mantissa of a double has at most 53 digits. -/
theorem log2_le (h : IsDouble m e) : m.log2 ≤ 52 := by
  rcases Nat.eq_zero_or_pos m with rfl | hm
  · decide
  · have := (Nat.log2_lt hm.ne').mpr h.lt
    omega

/-- No point of a grid above the coarsest one of the search rounds to the double. -/
theorem not_roundsTo_of_coarse (h : IsDouble m e) (hm : 0 < m) (hk : coarsestGrid m e < k) (n : ℕ) :
    ¬RoundsTo m e (n * 10 ^ k) := by
  intro hn
  have hlog := log2_le h
  have hleast : -1074 ≤ e := h.least
  have hmost := h.most
  have hpos := hn.pos hm
  have hten : (0 : ℚ) < 10 ^ k := by positivity
  have hone : (1 : ℚ) ≤ n := by
    have hn : (0 : ℚ) < n := pos_of_mul_pos_left hpos hten.le
    exact_mod_cast hn
  have hbits : (m : ℚ) < 2 ^ (m.log2 + 1) := by exact_mod_cast Nat.lt_log2_self
  have hone' : (1 : ℚ) ≤ m := by exact_mod_cast hm
  have hquarter := quarter_pos e
  unfold coarsestGrid at hk
  -- The first point of the grid lies above the interval already.
  refine absurd hn.upper (not_le.mpr ?_)
  calc upperEnd m e ≤ 2 * (m * 2 ^ e) := by
        rw [upperEnd, ← four_mul_quarter]
        nlinarith
    _ < 2 * (2 ^ (m.log2 + 1) * 2 ^ e) := by gcongr
    _ = 2 ^ ((m.log2 : ℤ) + e + 2) := by
        rw [zpow_add₀ (by norm_num), zpow_add₀ (by norm_num), zpow_natCast, pow_succ]
        ring
    _ ≤ 10 ^ k := two_zpow_le_ten_zpow (by omega) (by omega)
    _ ≤ n * 10 ^ k := by nlinarith

/-- The number found reads back as the double, and none on a coarser grid does. -/
theorem shortest_spec (h : IsDouble m e) (hm : 0 < m) :
    RoundsTo m e (shortest m e).value ∧
      ∀ i ≤ coarsestGrid m e, (shortest m e).exponent < i →
        ∀ d : ℕ, ¬RoundsTo m e (d * 10 ^ i) := by
  have hlog := log2_le h
  have hleast : -1074 ≤ e := h.least
  have hmost := h.most
  -- The last grid but one of the search is fine enough for all doubles.
  have hfine : (10 : ℚ) ^ (coarsestGrid m e - 18) ≤ 2 ^ (e - 1) := by
    unfold coarsestGrid
    exact ten_zpow_le_two_zpow (by omega) (by omega)
  obtain ⟨n, hn⟩ := exists_roundsTo_of_fine (m := m) hfine
  exact searchGrids_spec hm (by norm_num) (by omega) hn

/-- The shortest decimal of a double rounds to it. -/
theorem shortest_roundsTo (h : IsDouble m e) (hm : 0 < m) : RoundsTo m e (shortest m e).value :=
  (shortest_spec h hm).1

/-- No decimal that ends further left rounds to the double. -/
theorem shortest_coarsest (h : IsDouble m e) (hm : 0 < m) (hk : (shortest m e).exponent < k)
    (n : ℕ) : ¬RoundsTo m e (n * 10 ^ k) := by
  rcases le_or_gt k (coarsestGrid m e) with hseen | habove
  · exact (shortest_spec h hm).2 k hseen hk n
  · exact not_roundsTo_of_coarse h hm habove n

/-- A zero at the end would be left out. -/
theorem shortest_mod_ten (h : IsDouble m e) (hm : 0 < m) : (shortest m e).digits % 10 ≠ 0 := by
  intro hzero
  obtain ⟨d, hd⟩ := Nat.dvd_of_mod_eq_zero hzero
  refine shortest_coarsest h hm (lt_add_one _) d ?_
  have hvalue : (shortest m e).value = d * 10 ^ ((shortest m e).exponent + 1) := by
    rw [Scaled.value, hd, zpow_add_one₀ (by norm_num)]
    push_cast
    ring
  rw [← hvalue]
  exact shortest_roundsTo h hm

end DogStatsD.Decimal
