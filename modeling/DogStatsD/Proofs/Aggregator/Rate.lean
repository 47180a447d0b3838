import Mathlib

/-!
# Rates of Whole Numbers of Observations

A reservoir that has kept everything reports the quotient of a number with itself. In floating point
that is one, unless the number is zero or overflows, and then it is not a number: it is below one in
no case.
-/

namespace DogStatsD

open Float.Model UnpackedFloat

/-- The significands cancel out exactly. -/
theorem divCore_self (m : Nat) (e : Int) (hm : 0 < m) :
    divCore Format.binary64 m e m e = (2 ^ 53, -53, .exact) := by
  have htarget : min (e - e)
      (Format.binary64.targetExponent (totalExponent m e - totalExponent m e)) = -53 := by
    rw [Int.sub_self, Int.sub_self]
    decide
  -- The dividend is shifted far enough for a quotient of fifty-three bits.
  have hshift : (e - e - -53).toNat = 53 := by omega
  unfold divCore
  simp only [htarget]
  rw [hshift, Nat.shiftLeft_eq, Nat.mul_mod_right, Nat.mul_div_cancel_left _ hm]
  rfl

/-- The quotient of a number with itself is not a number, or one. -/
theorem div_self_cases (u : UnpackedFloat) :
    UnpackedFloat.div Format.binary64 u u = .notANumber ∨
      UnpackedFloat.div Format.binary64 u u =
        roundWithAccuracy Format.binary64 .positive (2 ^ 53) (-53) .exact := by
  -- Neither infinity by infinity nor zero by zero is a number.
  cases u with
  | infinity s => exact .inl rfl
  | notANumber => exact .inl rfl
  | zero s => exact .inl rfl
  | finite s m e hm =>
    refine .inr ?_
    have hsign : s / s = Sign.positive := by cases s <;> rfl
    simp only [UnpackedFloat.div, divCore_self m e hm, hsign]

/-- The quotient of a number with itself is not below one. -/
theorem not_div_self_lt (x : Float) : ¬x / x < 1.0 := by
  have hdiv : x / x = .ofModel (Float.Model.pack
      (UnpackedFloat.div Format.binary64 x.toModel.unpack x.toModel.unpack)) := rfl
  rw [hdiv]
  -- In both cases there is nothing left but a comparison of two known values.
  rcases div_self_cases x.toModel.unpack with h | h
  · rw [h]
    decide
  · rw [h]
    decide

end DogStatsD
