import Mathlib

/-!
# Rounding to Doubles

A double has a significand of fifty-three bits. An operation on doubles first cuts its exact result
down to that many bits or more and keeps two bits of what is left over; from these it rounds to the
nearest significand.

* `Locates`: what a significand and its two bits say about the exact result;
* `Locates.shiftRight`, `Locates.near`: shifting keeps what they say, and rounding goes to the
  nearest significand;
* `Rounds`, `rounds_roundWithAccuracy`: what positive results are rounded to;
* `IsNormal.unpack_pack`: packing the double loses nothing.
-/

namespace DogStatsD.Binary64

open Float.Model UnpackedFloat

/-! ## Significands and the bits left over -/

/-- Where a number lies from the significand that it was cut down to: the two bits left over say
whether it is the significand, or on which side of the middle to the next one. -/
def Locates (em : ExtendedMantissa) (x : ℚ) : Prop :=
  match em with
  | ⟨m, false, false⟩ => x = m
  | ⟨m, false, true⟩ => m < x ∧ x < m + 1 / 2
  | ⟨m, true, false⟩ => x = m + 1 / 2
  | ⟨m, true, true⟩ => m + 1 / 2 < x ∧ x < m + 1

/-- A whole number is located by itself. -/
theorem locates_exact (m : ℕ) : Locates (.ofMantissaAndAccuracy m .exact) m :=
  rfl

/-- A quotient is located by the whole quotient and the remainder. -/
theorem locates_quotient (num : ℕ) {den : ℕ} (hden : 0 < den) :
    Locates (.ofMantissaAndAccuracy (num / den) (accuracyOfFraction (num % den) den))
      (num / den) := by
  have hpos : (0 : ℚ) < den := by exact_mod_cast hden
  have hsplit : ((num % den : ℕ) : ℚ) + den * ((num / den : ℕ) : ℚ) = num := by
    exact_mod_cast Nat.mod_add_div num den
  have hquotient : (num / den : ℚ) = (num / den : ℕ) + (num % den : ℕ) / den := by
    field_simp
    linarith
  rw [hquotient]
  unfold accuracyOfFraction
  split
  next hzero => simp [ExtendedMantissa.ofMantissaAndAccuracy, Locates, hzero]
  next hrest =>
    have hrest : (0 : ℚ) < (num % den : ℕ) := by exact_mod_cast Nat.pos_of_ne_zero hrest
    have hlt : ((num % den : ℕ) : ℚ) < den := by exact_mod_cast Nat.mod_lt num hden
    have hfraction : (0 : ℚ) < (num % den : ℕ) / den := div_pos hrest hpos
    have hone : ((num % den : ℕ) : ℚ) / den < 1 := (div_lt_one hpos).mpr hlt
    -- Twice the remainder is compared with the divisor, which is the fraction with one half.
    rcases hcompare : compare (2 * (num % den)) den with _ | _ | _
    · have hlow : 2 * ((num % den : ℕ) : ℚ) < den := by
        exact_mod_cast Nat.compare_eq_lt.mp hcompare
      have hhalf : ((num % den : ℕ) : ℚ) / den < 1 / 2 := by
        rw [div_lt_iff₀ hpos]
        linarith
      exact ⟨by linarith, by linarith⟩
    · have hmiddle : 2 * ((num % den : ℕ) : ℚ) = den := by
        exact_mod_cast Nat.compare_eq_eq.mp hcompare
      have hhalf : ((num % den : ℕ) : ℚ) / den = 1 / 2 := by
        rw [div_eq_iff hpos.ne']
        linarith
      simp [ExtendedMantissa.ofMantissaAndAccuracy, Locates, hhalf]
    · have hhigh : (den : ℚ) < 2 * ((num % den : ℕ) : ℚ) := by
        exact_mod_cast Nat.compare_eq_gt.mp hcompare
      have hhalf : 1 / 2 < ((num % den : ℕ) : ℚ) / den := by
        rw [lt_div_iff₀ hpos]
        linarith
      exact ⟨by linarith, by linarith⟩

/-- A number lies between the significand that locates it and the next one. -/
theorem Locates.bounds {m : ℕ} {acc : Accuracy} {x : ℚ}
    (h : Locates (.ofMantissaAndAccuracy m acc) x) : m ≤ x ∧ x < m + 1 := by
  rcases acc with _ | (_ | _ | _) <;>
    simp only [ExtendedMantissa.ofMantissaAndAccuracy, Locates] at h <;>
      constructor <;> linarith

variable {em : ExtendedMantissa} {x : ℚ}

/-- Shifting a significand halves the number that it locates. -/
theorem Locates.shiftRightOne (h : Locates em x) : Locates em.shiftRightOne (x / 2) := by
  obtain ⟨m, r, s⟩ := em
  have hhalves : ((m % 2 : ℕ) : ℚ) + 2 * ((m / 2 : ℕ) : ℚ) = m := by
    exact_mod_cast Nat.mod_add_div m 2
  -- The last bit joins the bits left over, of which the other two become one.
  rcases Nat.mod_two_eq_zero_or_one m with hm | hm
  · have hbit : (m % 2 != 0) = false := by simp [hm]
    rw [hm, Nat.cast_zero] at hhalves
    cases r <;> cases s <;>
      simp only [Locates, ExtendedMantissa.shiftRightOne, hbit, Bool.or_true, Bool.or_false] at h ⊢
    · linarith
    all_goals constructor <;> linarith
  · have hbit : (m % 2 != 0) = true := by simp [hm]
    rw [hm, Nat.cast_one] at hhalves
    cases r <;> cases s <;>
      simp only [Locates, ExtendedMantissa.shiftRightOne, hbit, Bool.or_true, Bool.or_false] at h ⊢
    · linarith
    all_goals constructor <;> linarith

/-- Shifting a significand by some places divides by that power of two. -/
theorem Locates.shiftRight (h : Locates em x) (places : ℕ) :
    Locates (em >>> places) (x / 2 ^ places) := by
  induction places with
  | zero => simpa [HShiftRight.hShiftRight, Nat.repeat] using h
  | succ places ih =>
    rw [pow_succ, ← div_div]
    exact ih.shiftRightOne

/-- Rounding goes to a nearest significand. -/
theorem Locates.near (h : Locates em x) : |(em.roundedMantissa : ℚ) - x| ≤ 1 / 2 := by
  obtain ⟨m, r, s⟩ := em
  rw [abs_le]
  cases r <;> cases s <;> simp only [Locates] at h <;>
    simp only [ExtendedMantissa.roundedMantissa, ExtendedMantissa.accuracy,
      Accuracy.roundToNearestEven]
  · constructor <;> linarith
  · constructor <;> linarith
  · -- In the middle it goes to the even one.
    rcases Nat.mod_two_eq_zero_or_one m with hm | hm <;> rw [hm] <;> push_cast <;>
      constructor <;> linarith
  · push_cast
    constructor <;> linarith

/-! ## Normal doubles -/

/-- A positive double with a significand of fifty-three bits. -/
structure IsNormal (u : UnpackedFloat) (m : ℕ) (e : ℤ) : Prop where
  le : 2 ^ 52 ≤ m
  lt : m < 2 ^ 53
  eq : ∃ hm, u = .finite .positive m e hm

/-- Significand and exponent after rounding. A significand that has grown to fifty-four bits is a
power of two, and is halved. -/
def carry (r : ℕ) (e : ℤ) : ℕ × ℤ :=
  if r = 2 ^ 53 then (2 ^ 52, e + 1) else (r, e)

theorem carry_bounds {r : ℕ} (hlow : 2 ^ 52 ≤ r) (hhigh : r ≤ 2 ^ 53) (e : ℤ) :
    2 ^ 52 ≤ (carry r e).1 ∧ (carry r e).1 < 2 ^ 53 := by
  unfold carry
  split
  · exact ⟨le_refl _, by norm_num⟩
  next hne => exact ⟨hlow, lt_of_le_of_ne hhigh hne⟩

theorem carry_exponent (r : ℕ) (e : ℤ) : e ≤ (carry r e).2 ∧ (carry r e).2 ≤ e + 1 := by
  unfold carry
  split <;> simp

/-- A double is what `x * 2 ^ e` is rounded to, where `x` has fifty-three bits before the point. -/
def Rounds (x : ℚ) (e : ℤ) (u : UnpackedFloat) : Prop :=
  ∃ r : ℕ, 2 ^ 52 ≤ r ∧ r ≤ 2 ^ 53 ∧ |(r : ℚ) - x| ≤ 1 / 2 ∧
    IsNormal u (carry r e).1 (carry r e).2

/-- A significand that is long enough is shifted down to fifty-three bits. -/
theorem shiftToTarget {m : ℕ} {e : ℤ} (hm : 2 ^ 52 ≤ m) (he : -1074 ≤ e) (acc : Accuracy) :
    shiftToTargetExponent Format.binary64 m e acc =
      (ExtendedMantissa.ofMantissaAndAccuracy m acc >>> (m.log2 - 52), e + (m.log2 - 52 : ℕ)) := by
  have hlog : 52 ≤ m.log2 := (Nat.le_log2 (by omega)).mpr hm
  have htarget : Format.binary64.targetExponent (totalExponent m e) = e + (m.log2 - 52 : ℕ) := by
    simp only [Format.targetExponent, totalExponent, Format.mantissaBits, Format.minExponent]
    omega
  have hshift : (e + (m.log2 - 52 : ℕ) - e).toNat = m.log2 - 52 := by omega
  unfold shiftToTargetExponent shiftToExponent
  simp only [htarget, hshift]

/-- After rounding there is a shift only if the significand has grown. -/
theorem shiftToTarget_rounded {r : ℕ} {e : ℤ} (hlow : 2 ^ 52 ≤ r) (hhigh : r ≤ 2 ^ 53)
    (he : -1074 ≤ e) :
    shiftToTargetExponent Format.binary64 r e .exact =
      (⟨(carry r e).1, false, false⟩, (carry r e).2) := by
  rw [shiftToTarget hlow he]
  unfold carry
  split
  next hgrown =>
    subst hgrown
    rw [Nat.log2_two_pow]
    rfl
  next hne =>
    have hlog : r.log2 = 52 := (Nat.log2_eq_iff (by omega)).mpr ⟨hlow, by omega⟩
    rw [hlog, Nat.sub_self, Int.natCast_zero, Int.add_zero]
    rfl

/-- A number that a long significand locates has fifty-three bits before the point once the
significand is shifted down. -/
theorem Locates.scaled {m : ℕ} {acc : Accuracy} (h : Locates (.ofMantissaAndAccuracy m acc) x)
    (hm : 2 ^ 52 ≤ m) :
    2 ^ 52 ≤ x / 2 ^ (m.log2 - 52) ∧ x / 2 ^ (m.log2 - 52) < 2 ^ 53 := by
  obtain ⟨hlow, hhigh⟩ := h.bounds
  have hlog : 52 ≤ m.log2 := (Nat.le_log2 (by omega)).mpr hm
  have hpow : (0 : ℚ) < 2 ^ (m.log2 - 52) := by positivity
  rw [le_div_iff₀ hpow, div_lt_iff₀ hpow, ← pow_add, ← pow_add]
  constructor
  · have hself : 2 ^ (52 + (m.log2 - 52)) ≤ m := by
      rw [Nat.add_sub_cancel' hlog]
      exact Nat.log2_self_le (by omega)
    have hself : (2 : ℚ) ^ (52 + (m.log2 - 52)) ≤ m := by exact_mod_cast hself
    linarith
  · have hself : m + 1 ≤ 2 ^ (53 + (m.log2 - 52)) := by
      rw [show 53 + (m.log2 - 52) = m.log2 + 1 by omega]
      exact Nat.lt_log2_self
    have hself : (m : ℚ) + 1 ≤ 2 ^ (53 + (m.log2 - 52)) := by exact_mod_cast hself
    linarith

/-- What a positive number is rounded to that a long significand locates. -/
theorem rounds_roundWithAccuracy {m : ℕ} {e : ℤ} {acc : Accuracy}
    (hx : Locates (.ofMantissaAndAccuracy m acc) x) (hm : 2 ^ 52 ≤ m) (he : -1074 ≤ e) :
    Rounds (x / 2 ^ (m.log2 - 52)) (e + (m.log2 - 52 : ℕ))
      (roundWithAccuracy Format.binary64 .positive m e acc) := by
  obtain ⟨hleast, hmost⟩ := hx.scaled hm
  have hnear := (hx.shiftRight (m.log2 - 52)).near
  have hshift := shiftToTarget hm he acc
  generalize ExtendedMantissa.ofMantissaAndAccuracy m acc >>> (m.log2 - 52) = shifted
    at hnear hshift
  generalize m.log2 - 52 = places at *
  obtain ⟨hbelow, habove⟩ := abs_le.mp hnear
  -- Rounding stays within fifty-three bits, or comes to the power of two above them.
  have hlow : 2 ^ 52 ≤ shifted.roundedMantissa := by
    have : (2 ^ 52 : ℚ) < shifted.roundedMantissa + 1 := by linarith
    have : 2 ^ 52 < shifted.roundedMantissa + 1 := by exact_mod_cast this
    omega
  have hhigh : shifted.roundedMantissa ≤ 2 ^ 53 := by
    have : (shifted.roundedMantissa : ℚ) < 2 ^ 53 + 1 := by linarith
    have : shifted.roundedMantissa < 2 ^ 53 + 1 := by exact_mod_cast this
    omega
  obtain ⟨hcarry, hcarry'⟩ := carry_bounds hlow hhigh (e + places)
  refine ⟨_, hlow, hhigh, hnear, hcarry, hcarry', by omega, ?_⟩
  unfold roundWithAccuracy
  rw [hshift]
  dsimp only
  rw [shiftToTarget_rounded hlow hhigh (by omega)]
  have hne : (carry shifted.roundedMantissa (e + places)).1 ≠ 0 := by omega
  exact dif_neg hne

/-! ## Packing -/

/-- The leading bit of a significand is not packed, and comes back when it is unpacked. -/
theorem toNat_leading_append (v : BitVec 52) : (1#1 ++ v).toNat = 2 ^ 52 + v.toNat := by
  rw [BitVec.toNat_append, ← Nat.shiftLeft_add_eq_or_of_lt v.isLt, Nat.shiftLeft_eq]
  rfl

/-- Packing a normal double whose exponent fits loses nothing. -/
theorem IsNormal.unpack_pack {u : UnpackedFloat} {m : ℕ} {e : ℤ} (h : IsNormal u m e)
    (hlow : -1074 ≤ e) (hhigh : e ≤ 971) : (Float.Model.pack u).unpack = u := by
  obtain ⟨hle, hlt, hpos, rfl⟩ := h
  have hlog : m.log2 = 52 := (Nat.log2_eq_iff (by omega)).mpr ⟨hle, by omega⟩
  obtain ⟨biased, hbiased⟩ := Int.eq_ofNat_of_zero_le (a := e + 1075) (by omega)
  have hexponent : (e + 1023 + 52).toNat = biased := by omega
  have hbits : (BitVec.ofNat 11 biased).toNat = biased := by
    rw [BitVec.toNat_ofNat, Nat.mod_eq_of_lt (by omega)]
  -- The biased exponent is neither that of infinities nor that of small numbers.
  have hones : BitVec.ofNat 11 biased ≠ -1#11 := by
    intro heq
    have htop : biased = 2047 := hbits.symm.trans (congrArg BitVec.toNat heq)
    omega
  have hzeros : BitVec.ofNat 11 biased ≠ 0#11 := by
    intro heq
    have hbottom : biased = 0 := hbits.symm.trans (congrArg BitVec.toNat heq)
    omega
  have hsignificand : (1#1 ++ BitVec.ofNat 52 m).toNat = m := by
    rw [toNat_leading_append, BitVec.toNat_ofNat]
    omega
  have hpack : UnpackedFloat.pack Format.binary64 (.finite .positive m e hpos) =
      packComponents Format.binary64 .positive (BitVec.ofNat 11 biased) (BitVec.ofNat 52 m) := by
    simp only [UnpackedFloat.pack, Format.exponentBias, Format.mantissaBits, hlog]
    norm_num [hexponent]
    omega
  unfold Float.Model.unpack Float.Model.pack
  simp only [hpack]
  unfold UnpackedFloat.unpack
  simp only [unpackMantissa_packComponents, unpackExponent_packComponents,
    unpackSign_packComponents, hones, hzeros, if_false, hbits, hsignificand]
  have hback : (biased : ℤ) - (1023 + 52) = e := by omega
  congr 1

end DogStatsD.Binary64
