import DogStatsD.Proofs.Aggregator.Rate
import DogStatsD.Proofs.Binary64.Rounding

/-!
# Shares of Counts

A count becomes a double by rounding, and the share of one count in another is the rounded quotient
of two such doubles. All this rounding keeps the order of numbers, so that a share of a part in a
whole is a positive number and at most one.

* `Below`: the order of normal doubles;
* `ofNat_below`, `div_below`: larger counts become larger doubles, and the quotient of a double by
  one that is not smaller is at most one;
* `share_pos`, `share_le_one`, `share_self`: what follows for shares;
* `exactValue`: the rational number that a double stands for.
-/

namespace DogStatsD.Binary64

open Float.Model UnpackedFloat

/-! ## Order -/

/-- Significand and exponent of a normal double that is at most another. -/
def Below (a b : ℕ × ℤ) : Prop :=
  a.2 < b.2 ∨ a.2 = b.2 ∧ a.1 ≤ b.1

/-- Of two numbers in normal form, the one that is below has no larger exponent. -/
theorem Below.exponent_le {a b : ℕ × ℤ} (h : Below a b) : a.2 ≤ b.2 := by
  rcases h with hless | ⟨heq, -⟩
  · exact hless.le
  · exact heq.le

/-- Carrying into the next exponent keeps the order, even where both mantissas are at their end. -/
theorem carry_below {r t : ℕ} {e f : ℤ} (hr : r ≤ 2 ^ 53) (hlow : 2 ^ 52 ≤ t) (hhigh : t ≤ 2 ^ 53)
    (h : e < f ∨ e = f ∧ r ≤ t) : Below (carry r e) (carry t f) := by
  unfold Below carry
  split <;> split <;> simp only <;> omega

/-! ## Counts -/

/-- The double of a count, of which the leading fifty-three bits are taken. -/
theorem rounds_ofNat {n : ℕ} (hn : 0 < n) :
    Rounds (n / 2 ^ n.log2 * 2 ^ 52) (n.log2 - 52) (UnpackedFloat.ofNat Format.binary64 n) := by
  -- The exponent is chosen so that fifty-three bits are left of the count.
  have htarget : Format.binary64.targetExponent (totalExponent n 0) = n.log2 - 52 := by
    simp only [Format.targetExponent, totalExponent, Format.mantissaBits, Format.minExponent]
    omega
  have hround : UnpackedFloat.ofNat Format.binary64 n =
      UnpackedFloat.round Format.binary64 .positive n 0 := by
    unfold UnpackedFloat.ofNat UnpackedFloat.ofInt UnpackedFloat.normalize
    rw [Int.compare_eq_gt.mpr (by omega), Int.toNat_natCast]
  obtain ⟨hself, hlt⟩ := (Nat.log2_eq_iff hn.ne').mp rfl
  rw [hround, UnpackedFloat.round, htarget, decreaseExponent]
  dsimp only
  rcases Nat.lt_or_ge n.log2 52 with hsmall | hlarge
  · -- A short number is shifted up, and there is nothing to round.
    obtain ⟨places, hplaces⟩ := Nat.exists_eq_add_of_le hsmall.le
    have hshift : ((0 : ℤ) - (n.log2 - 52)).toNat = places := by omega
    have hexponent : (0 : ℤ) - places = n.log2 - 52 := by omega
    have hpow : 2 ^ n.log2 * 2 ^ places = 2 ^ 52 := by rw [← Nat.pow_add, ← hplaces]
    have hlow : 2 ^ 52 ≤ n * 2 ^ places := hpow ▸ Nat.mul_le_mul_right _ hself
    have hhigh : n * 2 ^ places < 2 ^ 53 :=
      calc n * 2 ^ places < 2 ^ (n.log2 + 1) * 2 ^ places :=
            (Nat.mul_lt_mul_right (Nat.two_pow_pos places)).mpr hlt
        _ = 2 * (2 ^ n.log2 * 2 ^ places) := by rw [Nat.pow_succ, Nat.mul_comm _ 2, Nat.mul_assoc]
        _ = 2 ^ 53 := by rw [hpow]; norm_num
    have hlog : (n * 2 ^ places).log2 = 52 := (Nat.log2_eq_iff (by omega)).mpr ⟨hlow, by omega⟩
    have hvalue : ((n * 2 ^ places : ℕ) : ℚ) / 2 ^ (52 - 52) = n / 2 ^ n.log2 * 2 ^ 52 := by
      have hpow : (2 : ℚ) ^ n.log2 * 2 ^ places = 2 ^ 52 := by exact_mod_cast hpow
      rw [← hpow]
      push_cast
      field_simp
    have hrounds := rounds_roundWithAccuracy (locates_exact (n * 2 ^ places)) hlow
      (show -1074 ≤ (n.log2 : ℤ) - 52 by omega)
    rw [hlog, hvalue, Nat.sub_self, Int.natCast_zero, Int.add_zero] at hrounds
    rwa [hshift, hexponent, Nat.shiftLeft_eq]
  · -- A long number is rounded as it is.
    have hshift : ((0 : ℤ) - (n.log2 - 52)).toNat = 0 := by omega
    have hlow : 2 ^ 52 ≤ n := (Nat.pow_le_pow_right (by decide) hlarge).trans hself
    have hexponent : (0 : ℤ) + (n.log2 - 52 : ℕ) = n.log2 - 52 := by omega
    have hvalue : (n : ℚ) / 2 ^ (n.log2 - 52) = n / 2 ^ n.log2 * 2 ^ 52 := by
      obtain ⟨places, hplaces⟩ := Nat.exists_eq_add_of_le hlarge
      rw [hplaces, Nat.add_sub_cancel_left, pow_add]
      field_simp
    have hrounds := rounds_roundWithAccuracy (locates_exact n) hlow
      (show -1074 ≤ (0 : ℤ) by decide)
    rw [hvalue, hexponent] at hrounds
    rwa [hshift, Nat.shiftLeft_zero]

/-- A larger count does not become a smaller double. -/
theorem ofNat_below {a b : ℕ} (ha : 0 < a) (hab : a ≤ b) :
    ∃ p q : ℕ × ℤ, IsNormal (UnpackedFloat.ofNat Format.binary64 a) p.1 p.2 ∧
      IsNormal (UnpackedFloat.ofNat Format.binary64 b) q.1 q.2 ∧ Below p q ∧
      -52 ≤ p.2 ∧ q.2 ≤ b.log2 - 51 := by
  obtain ⟨r, hr, hr', hrnear, hrnormal⟩ := rounds_ofNat ha
  have hrexponent := carry_exponent r (a.log2 - 52)
  obtain rfl | hlt := hab.eq_or_lt
  · exact ⟨_, _, hrnormal, hrnormal, .inr ⟨rfl, le_refl _⟩, by omega, by omega⟩
  obtain ⟨t, ht, ht', htnear, htnormal⟩ := rounds_ofNat (ha.trans hlt)
  have htexponent := carry_exponent t (b.log2 - 52)
  refine ⟨_, _, hrnormal, htnormal, carry_below hr' ht ht' ?_, by omega, by omega⟩
  have hlog : a.log2 ≤ b.log2 :=
    (Nat.le_log2 (by omega)).mpr ((Nat.log2_self_le ha.ne').trans hlt.le)
  obtain hlog | hlog := hlog.lt_or_eq
  · exact .inl (by omega)
  · -- With as many bits, both are rounded at the same place.
    refine .inr ⟨by omega, ?_⟩
    rw [hlog] at hrnear
    rw [abs_le] at hrnear htnear
    have hless : (a : ℚ) / 2 ^ b.log2 * 2 ^ 52 < b / 2 ^ b.log2 * 2 ^ 52 := by
      have hlt : (a : ℚ) < b := by exact_mod_cast hlt
      gcongr
    have hnext : (r : ℚ) < t + 1 := by linarith
    have hnext : r < t + 1 := by exact_mod_cast hnext
    omega

/-! ## Quotients -/

/-- The quotient of a normal double by one that is not smaller is at most one. -/
theorem div_below {u v : UnpackedFloat} {m n : ℕ} {e f : ℤ} (hu : IsNormal u m e)
    (hv : IsNormal v n f) (h : Below (m, e) (n, f)) (hexponents : -1021 ≤ e - f) :
    ∃ s : ℕ × ℤ, IsNormal (UnpackedFloat.div Format.binary64 u v) s.1 s.2 ∧
      Below s (2 ^ 52, -52) ∧ e - f - 53 ≤ s.2 := by
  obtain ⟨hmlow, hmhigh, hmpos, rfl⟩ := hu
  obtain ⟨hnlow, hnhigh, hnpos, rfl⟩ := hv
  have hmlog : m.log2 = 52 := (Nat.log2_eq_iff (by omega)).mpr ⟨hmlow, by omega⟩
  have hnlog : n.log2 = 52 := (Nat.log2_eq_iff (by omega)).mpr ⟨hnlow, by omega⟩
  -- Both have fifty-three bits, so that the quotient is computed to that many bits or one more.
  have htarget : min (e - f)
      (Format.binary64.targetExponent (totalExponent m e - totalExponent n f)) = e - f - 53 := by
    simp only [Format.targetExponent, totalExponent, Format.mantissaBits, Format.minExponent, hmlog,
      hnlog]
    omega
  have hcore : divCore Format.binary64 m e n f =
      (m * 2 ^ 53 / n, e - f - 53, accuracyOfFraction (m * 2 ^ 53 % n) n) := by
    have hshift : (e - f - (e - f - 53)).toNat = 53 := by omega
    unfold divCore
    simp only [htarget, hshift, Nat.shiftLeft_eq]
  have hdiv : UnpackedFloat.div Format.binary64 (.finite .positive m e hmpos)
      (.finite .positive n f hnpos) = roundWithAccuracy Format.binary64 .positive (m * 2 ^ 53 / n)
        (e - f - 53) (accuracyOfFraction (m * 2 ^ 53 % n) n) := by
    simp only [UnpackedFloat.div, hcore]
    rfl
  have hlow : 2 ^ 52 ≤ m * 2 ^ 53 / n := by
    rw [Nat.le_div_iff_mul_le hnpos]
    omega
  obtain ⟨r, hr, hr', hnear, hnormal⟩ :=
    rounds_roundWithAccuracy (locates_quotient (m * 2 ^ 53) hnpos) hlow
      (show -1074 ≤ e - f - 53 by omega)
  have hexponent := carry_exponent r (e - f - 53 + ((m * 2 ^ 53 / n).log2 - 52 : ℕ))
  rw [hdiv]
  refine ⟨_, hnormal, carry_below (t := 2 ^ 52) (f := -52) hr' (le_refl _) (by norm_num) ?_,
    by omega⟩
  rcases h with hless | ⟨rfl, hle⟩
  · -- The quotient has at most fifty-four bits, and the exponents differ.
    have hquotient : m * 2 ^ 53 / n < 2 ^ 54 := by
      rw [Nat.div_lt_iff_lt_mul hnpos]
      omega
    have hlog := (Nat.log2_lt (by omega)).mpr hquotient
    exact .inl (by simp only at hless; omega)
  obtain rfl | hlt := hle.eq_or_lt
  · -- A significand goes into itself once.
    rw [Nat.mul_div_cancel_left _ hnpos, Nat.log2_two_pow] at hnear ⊢
    have hone : ((m * 2 ^ 53 : ℕ) : ℚ) / m / 2 ^ (53 - 52) = 2 ^ 52 := by
      have hne : (m : ℚ) ≠ 0 := by positivity
      push_cast
      field_simp
      norm_num
    rw [hone, abs_le] at hnear
    have hnext : (r : ℚ) < 2 ^ 52 + 1 := by linarith
    have hnext : r < 2 ^ 52 + 1 := by exact_mod_cast hnext
    exact .inr ⟨by omega, by omega⟩
  · have hquotient : m * 2 ^ 53 / n < 2 ^ 53 := by
      simp only at hlt
      rw [Nat.div_lt_iff_lt_mul hnpos]
      omega
    have hlog := (Nat.log2_lt (by omega)).mpr hquotient
    exact .inl (by omega)

/-! ## Comparing -/

/-- Zero is the positive zero of the format. -/
theorem unpack_zero : (0.0 : Float).toModel.unpack = .zero .positive :=
  rfl

/-- One has the smallest mantissa of its exponent. -/
theorem unpack_one : (1.0 : Float).toModel.unpack = .finite .positive (2 ^ 52) (-52) (by decide) :=
  rfl

/-- Floats are compared as the numbers that they unpack to. -/
theorem lt_iff_compare {x y : Float} :
    x < y ↔ x.toModel.unpack.compare y.toModel.unpack = some .lt := by
  rw [← beq_iff_eq]
  exact decide_eq_true_iff

theorem le_iff_compare {x y : Float} :
    x ≤ y ↔ (x.toModel.unpack.compare y.toModel.unpack).any (·.isLE) = true :=
  decide_eq_true_iff

/-- A normal double is positive. -/
theorem pos_of_isNormal {x : Float} {m : ℕ} {e : ℤ} (h : IsNormal x.toModel.unpack m e) :
    0.0 < x := by
  obtain ⟨-, -, hpos, hx⟩ := h
  rw [lt_iff_compare, unpack_zero, hx]
  rfl

/-- A number in normal form that is not above one in the order of mantissas is at most one. -/
theorem le_one_of_isNormal {x : Float} {m : ℕ} {e : ℤ} (h : IsNormal x.toModel.unpack m e)
    (hbelow : Below (m, e) (2 ^ 52, -52)) : x ≤ 1.0 := by
  obtain ⟨-, -, hpos, hx⟩ := h
  rw [le_iff_compare, unpack_one, hx]
  simp only [UnpackedFloat.compare, Option.any_some]
  rcases hbelow with hless | ⟨heq, hle⟩
  · rw [Int.compare_eq_lt.mpr hless]
    rfl
  · simp only at heq hle
    rw [heq]
    exact Nat.isLE_compare.mpr hle

/-! ## Shares -/

/-- The share of a part in a whole, both of them counts. -/
def share (part whole : ℕ) : Float :=
  part.toUInt64.toFloat / whole.toUInt64.toFloat

/-- A share is the rounded quotient of two counts that are rounded themselves. -/
theorem unpack_share (part whole : ℕ) :
    (share part whole).toModel = Float.Model.pack (UnpackedFloat.div Format.binary64
      (Float.Model.pack (UnpackedFloat.ofNat Format.binary64 part.toUInt64.toNat)).unpack
      (Float.Model.pack (UnpackedFloat.ofNat Format.binary64 whole.toUInt64.toNat)).unpack) :=
  rfl

/-- The share of a part in a whole is a normal double that is at most one. -/
theorem share_isNormal {part whole : ℕ} (hpart : 0 < part) (hle : part ≤ whole)
    (hwhole : whole < 2 ^ 64) :
    ∃ s : ℕ × ℤ, IsNormal (share part whole).toModel.unpack s.1 s.2 ∧ Below s (2 ^ 52, -52) := by
  have hfits (n : ℕ) (hn : n ≤ whole) : n.toUInt64.toNat = n :=
    UInt64.toNat_ofNat_of_lt' (hn.trans_lt hwhole)
  obtain ⟨⟨m, e⟩, ⟨n, f⟩, hm, hn, hbelow, he, hf⟩ := ofNat_below hpart hle
  have hlog : whole.log2 < 64 := (Nat.log2_lt (by omega)).mpr hwhole
  have hle' : e ≤ f := hbelow.exponent_le
  simp only at hm hn he hf
  obtain ⟨s, hs, hsbelow, hsexponent⟩ := div_below hm hn hbelow (by omega)
  have hsle : s.2 ≤ -52 := hsbelow.exponent_le
  refine ⟨s, ?_, hsbelow⟩
  rw [unpack_share, hfits part hle, hfits whole (le_refl _), hm.unpack_pack (by omega) (by omega),
    hn.unpack_pack (by omega) (by omega), hs.unpack_pack (by omega) (by omega)]
  exact hs

/-- A share of something is positive, however large the whole is. -/
theorem share_pos {part whole : ℕ} (hpart : 0 < part) (hle : part ≤ whole)
    (hwhole : whole < 2 ^ 64) : 0.0 < share part whole := by
  obtain ⟨s, hs, -⟩ := share_isNormal hpart hle hwhole
  exact pos_of_isNormal hs

/-- A part makes up no more than the whole, even after rounding. -/
theorem share_le_one {part whole : ℕ} (hpart : 0 < part) (hle : part ≤ whole)
    (hwhole : whole < 2 ^ 64) : share part whole ≤ 1.0 := by
  obtain ⟨s, hs, hbelow⟩ := share_isNormal hpart hle hwhole
  exact le_one_of_isNormal hs hbelow

/-- The share of the whole is one. -/
theorem share_self {whole : ℕ} (hpos : 0 < whole) (hfits : whole < 2 ^ 64) :
    share whole whole = 1.0 := by
  obtain ⟨s, ⟨-, -, hm, hs⟩, -⟩ := share_isNormal hpos (le_refl _) hfits
  have hshare : share whole whole = .ofModel (Float.Model.pack (UnpackedFloat.div Format.binary64
      whole.toUInt64.toFloat.toModel.unpack whole.toUInt64.toFloat.toModel.unpack)) := rfl
  -- A quotient with itself is one unless it is not a number.
  rcases div_self_cases whole.toUInt64.toFloat.toModel.unpack with hnan | hone
  · rw [hshare, hnan] at hs
    cases hs
  · rw [hshare, hone]
    decide

/-! ## Exact values -/

/-- The rational number that a double stands for. Infinities and what is not a number stand for
none, and get zero. -/
def exactValue (x : Float) : ℚ :=
  match x.toModel.unpack with
  | .finite s m e _ => s.apply m * 2 ^ e
  | .zero _ | .infinity _ | .notANumber => 0

/-- Significands have at most fifty-three bits. -/
theorem lt_of_unpack_eq {x : Float.Model} {s : Sign} {m : ℕ} {e : ℤ} {hm : 0 < m}
    (h : x.unpack = .finite s m e hm) : m < 2 ^ 53 := by
  unfold Float.Model.unpack UnpackedFloat.unpack at h
  dsimp only at h
  split at h
  · split at h <;> cases h
  · split at h
    · split at h <;> cases h
      exact (BitVec.isLt _).trans (by decide)
    · cases h
      exact BitVec.isLt _

/-- A rate is a finite positive number. -/
theorem finite_of_pos {x : Float} (hpos : 0.0 < x) (hle : x ≤ 1.0) :
    ∃ m e hm, x.toModel.unpack = .finite .positive m e hm := by
  rw [lt_iff_compare, unpack_zero] at hpos
  rw [le_iff_compare, unpack_one] at hle
  rcases hx : x.toModel.unpack with sign | _ | sign | ⟨sign, m, e, hm⟩ <;> rw [hx] at hpos hle
  · cases sign
    · cases hpos
    · cases hle
  · cases hpos
  · cases hpos
  · cases sign
    · cases hpos
    · exact ⟨m, e, hm, rfl⟩

/-- A positive double that is at most one stands for its significand times a power of two. -/
theorem exactValue_eq {x : Float} {m : ℕ} {e : ℤ} {hm : 0 < m}
    (hx : x.toModel.unpack = .finite .positive m e hm) : exactValue x = m * 2 ^ e := by
  rw [exactValue, hx]
  rfl

/-- The exact value of a rate is positive. -/
theorem exactValue_pos {x : Float} (hpos : 0.0 < x) (hle : x ≤ 1.0) : 0 < exactValue x := by
  obtain ⟨m, e, hm, hx⟩ := finite_of_pos hpos hle
  have hm : (0 : ℚ) < m := by exact_mod_cast hm
  rw [exactValue_eq hx]
  positivity

/-- A double below one stands for a number below one. -/
theorem exactValue_lt_one {x : Float} (hpos : 0.0 < x) (hle : x ≤ 1.0) (hlt : x < 1.0) :
    exactValue x < 1 := by
  obtain ⟨m, e, hm, hx⟩ := finite_of_pos hpos hle
  rw [lt_iff_compare, unpack_one, hx] at hlt
  have hlt : (compare e (-52)).then (compare m (2 ^ 52)) = .lt := Option.some.inj hlt
  rw [exactValue_eq hx]
  rcases Ordering.then_eq_lt.mp hlt with hexponent | ⟨hexponent, hsignificand⟩
  · have hbits : (m : ℚ) < 2 ^ 53 := by exact_mod_cast lt_of_unpack_eq hx
    have hpower : (2 : ℚ) ^ e ≤ 2 ^ (-53 : ℤ) :=
      zpow_le_zpow_right₀ (by norm_num) (by have := Int.compare_eq_lt.mp hexponent; omega)
    calc (m : ℚ) * 2 ^ e ≤ m * 2 ^ (-53 : ℤ) := by gcongr
      _ < 2 ^ 53 * 2 ^ (-53 : ℤ) := by gcongr
      _ = 1 := by norm_num
  · obtain rfl := Int.compare_eq_eq.mp hexponent
    have hbits : (m : ℚ) < 2 ^ 52 := by exact_mod_cast Nat.compare_eq_lt.mp hsignificand
    calc (m : ℚ) * 2 ^ (-52 : ℤ) < 2 ^ 52 * 2 ^ (-52 : ℤ) := by gcongr
      _ = 1 := by norm_num

/-- A double that is at most one and not below it stands for one. -/
theorem exactValue_eq_one {x : Float} (hpos : 0.0 < x) (hle : x ≤ 1.0) (hlt : ¬x < 1.0) :
    exactValue x = 1 := by
  obtain ⟨m, e, hm, hx⟩ := finite_of_pos hpos hle
  rw [le_iff_compare, unpack_one, hx] at hle
  rw [lt_iff_compare, unpack_one, hx] at hlt
  have hle : ((compare e (-52)).then (compare m (2 ^ 52))).isLE = true := hle
  have hlt : (compare e (-52)).then (compare m (2 ^ 52)) ≠ .lt := fun h => hlt (congrArg some h)
  have heq : (compare e (-52)).then (compare m (2 ^ 52)) = .eq :=
    (Ordering.isLE_iff_eq_lt_or_eq_eq.mp hle).resolve_left hlt
  obtain ⟨hexponent, hsignificand⟩ := Ordering.then_eq_eq.mp heq
  obtain rfl := Int.compare_eq_eq.mp hexponent
  obtain rfl := Nat.compare_eq_eq.mp hsignificand
  rw [exactValue_eq hx]
  norm_num

/-- Comparing a double with one is comparing the numbers. -/
theorem exactValue_lt_one_iff {x : Float} (hpos : 0.0 < x) (hle : x ≤ 1.0) :
    exactValue x < 1 ↔ x < 1.0 := by
  constructor
  · intro hlt
    by_contra hwhole
    exact absurd (exactValue_eq_one hpos hle hwhole) hlt.ne
  · exact exactValue_lt_one hpos hle

/-- The exact value of a rate is at most one. -/
theorem exactValue_le_one {x : Float} (hpos : 0.0 < x) (hle : x ≤ 1.0) : exactValue x ≤ 1 := by
  by_cases hlt : x < 1.0
  · exact (exactValue_lt_one hpos hle hlt).le
  · exact (exactValue_eq_one hpos hle hlt).le

end DogStatsD.Binary64
