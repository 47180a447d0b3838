import DogStatsD.Proofs.Binary64.Rounding
import DogStatsD.Proofs.Decimal.Interval

/-!
# Doubles and Their Bits

The bits of a double are read as the same number that arithmetic on doubles unpacks from them, and
no two doubles are read alike, unless they are not numbers.

* `Reading.ofUnpacked`, `Reading.ofFloat_eq`: reading bits and unpacking them;
* `Reading.isDouble_of_ofBits`: mantissas and exponents that are read;
* `Reading.ofBits_injective`: bits are told apart by what is read.
-/

namespace DogStatsD.Decimal

open Float.Model UnpackedFloat

/-! ## Unpacking -/

def isNegative : Sign → Bool
  | .negative => true
  | .positive => false

/-- What an unpacked double stands for. -/
def Reading.ofUnpacked : UnpackedFloat → Reading
  | .notANumber => .nan
  | .infinity sign => .infinity (isNegative sign)
  | .zero sign => .finite (isNegative sign) 0 minExponent
  | .finite sign mantissa exponent _ => .finite (isNegative sign) mantissa exponent

section Components

variable (b : BitVec Format.binary64.numBits)

/-- The mantissa of a double is in its lowest 52 bits. -/
theorem toNat_unpackMantissa : (unpackMantissa b).toNat = b.toNat % 2 ^ 52 := by
  simp [unpackMantissa]

/-- The exponent of a double is in the eleven bits above. -/
theorem toNat_unpackExponent : (unpackExponent b).toNat = b.toNat / 2 ^ 52 % 2 ^ 11 := by
  simp [unpackExponent, Nat.shiftRight_eq_div_pow]

theorem toNat_unpackSign : (unpackSign b).toNat = b.toNat / 2 ^ 63 := by
  have hlt : b.toNat < 2 ^ 64 := b.isLt
  simp [unpackSign, Nat.shiftRight_eq_div_pow]
  omega

/-- A double is negative if its highest bit is set. -/
theorem isNegative_unpackSign :
    isNegative (Sign.ofBitVec (unpackSign b)) = decide (2 ^ 63 ≤ b.toNat) := by
  have hsign := toNat_unpackSign b
  unfold Sign.ofBitVec
  split
  next hzero =>
    rw [hzero] at hsign
    have hzero : b.toNat / 2 ^ 63 = 0 := hsign.symm
    exact (decide_eq_false (by omega)).symm
  next hone =>
    have hone : b.toNat / 2 ^ 63 ≠ 0 := by
      rw [← hsign]
      exact fun hzero => hone (BitVec.eq_of_toNat_eq hzero)
    exact (decide_eq_true (by omega)).symm

end Components

/-- Reading the bits of a double is unpacking them. -/
theorem Reading.ofFloat_eq (x : Float) : ofFloat x = ofUnpacked x.toModel.unpack := by
  have hmantissa := toNat_unpackMantissa x.toBits.toBitVec
  have hexponent := toNat_unpackExponent x.toBits.toBitVec
  have hsign := isNegative_unpackSign x.toBits.toBitVec
  have hbits : x.toBits.toBitVec.toNat = x.toBits.toNat := rfl
  have hunpack : x.toModel.unpack = UnpackedFloat.unpack Format.binary64 x.toBits.toBitVec := rfl
  rw [hbits] at hmantissa hexponent hsign
  have htop : @unpackExponent Format.binary64 x.toBits.toBitVec = -1#11 ↔
      x.toBits.toNat / 2 ^ 52 % 2 ^ 11 = 2 ^ 11 - 1 := by
    rw [← BitVec.toNat_inj, hexponent]
    rfl
  have hbottom : @unpackExponent Format.binary64 x.toBits.toBitVec = 0#11 ↔
      x.toBits.toNat / 2 ^ 52 % 2 ^ 11 = 0 := by
    rw [← BitVec.toNat_inj, hexponent]
    rfl
  have hzero : @unpackMantissa Format.binary64 x.toBits.toBitVec = 0#52 ↔
      x.toBits.toNat % 2 ^ 52 = 0 := by
    rw [← BitVec.toNat_inj, hmantissa]
    rfl
  rw [hunpack]
  unfold ofFloat ofBits UnpackedFloat.unpack
  -- The tests of the two sides agree, and leave no mixed cases.
  simp only [Nat.pow_eq, htop, hbottom, hzero, Format.exponentBias]
  split_ifs with hlast hfraction hfirst hfraction <;>
    simp only [ofUnpacked, hsign, hmantissa, hexponent, Binary64.toNat_leading_append]
  · rw [hfraction]
  · rw [hfirst]
    rfl
  · congr 1
    have hleast : minExponent = -1074 := rfl
    omega

/-! ## Reading bits -/

/-- What bits are read as has a mantissa and an exponent that a double can have. -/
theorem Reading.isDouble_of_ofBits {bits : UInt64} {negative : Bool} {m : ℕ} {e : ℤ}
    (h : ofBits bits = .finite negative m e) : IsDouble m e := by
  have hleast : minExponent = -1074 := rfl
  have hbits : leadingBit = 2 ^ 52 := rfl
  unfold ofBits at h
  simp only [Nat.pow_eq] at h
  split_ifs at h with hlast hfraction hfirst <;> cases h
  · exact ⟨by omega, le_refl _, by omega, .inr rfl⟩
  · exact ⟨by omega, by omega, by omega, .inl (by omega)⟩

/-- Bits that are read alike are the same, unless they stand for no number. -/
theorem Reading.ofBits_injective {b c : UInt64} (h : ofBits b = ofBits c) (hnan : ofBits b ≠ .nan) :
    b = c := by
  have hb := b.toNat_lt
  have hc := c.toNat_lt
  have hbits : leadingBit = 2 ^ 52 := rfl
  rw [← UInt64.toNat_inj]
  unfold ofBits at h hnan
  simp only [Nat.pow_eq] at h hnan
  -- Sign, exponent and fraction are read off on both sides, and make up all bits.
  split_ifs at h hnan <;> simp only [finite.injEq, infinity.injEq, decide_eq_decide] at h <;>
    first | contradiction | omega

theorem Reading.ofFloat_ne_nan {x : Float} (h : x.isNaN = false) : ofFloat x ≠ .nan := by
  have hunpack : x.toModel.unpack.isNaN = false := h
  rw [ofFloat_eq]
  cases hx : x.toModel.unpack with
  | notANumber =>
    rw [hx] at hunpack
    cases hunpack
  | infinity | zero | finite => simp [ofUnpacked]

/-- A finite double is read as a mantissa and an exponent. -/
theorem Reading.exists_finite {x : Float} (h : x.isFinite = true) :
    ∃ negative m e, ofFloat x = .finite negative m e := by
  have hunpack : x.toModel.unpack.isFinite = true := h
  rw [ofFloat_eq]
  cases hx : x.toModel.unpack with
  | notANumber | infinity =>
    rw [hx] at hunpack
    cases hunpack
  | zero | finite => exact ⟨_, _, _, rfl⟩

end DogStatsD.Decimal
