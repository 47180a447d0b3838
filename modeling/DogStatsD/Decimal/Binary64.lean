/-!
# Reading Doubles

A double is sixty-four bits: a sign, eleven bits of exponent and fifty-two bits of fraction.
`Reading.ofBits` takes them apart into an exact number `mantissa · 2 ^ exponent`, which is what
the decimal text of a double is computed from.
-/

namespace DogStatsD.Decimal

/-- What the bits of a double stand for. -/
inductive Reading where
  | nan
  | infinity (negative : Bool)
  /-- The number `mantissa · 2 ^ exponent` with the given sign; zero has mantissa `0`. -/
  | finite (negative : Bool) (mantissa : Nat) (exponent : Int)
  deriving DecidableEq

/-- The least exponent of a double, which subnormal numbers and zero have. -/
def minExponent : Int := -1074

/-- The mantissa of a power of two: the least one of a normal number. -/
def leadingBit : Nat := Nat.pow 2 52

/-- Take the bits of a double apart. -/
def Reading.ofBits (bits : UInt64) : Reading :=
  let n := bits.toNat
  let negative := decide (Nat.pow 2 63 ≤ n)
  let biased := n / Nat.pow 2 52 % Nat.pow 2 11
  let fraction := n % Nat.pow 2 52
  -- The greatest exponent is that of no number, the least that of numbers without a leading bit.
  if biased = Nat.pow 2 11 - 1 then
    if fraction = 0 then .infinity negative else .nan
  else if biased = 0 then
    .finite negative fraction minExponent
  else
    .finite negative (leadingBit + fraction) (minExponent + (biased - 1 : Nat))

/-- Read a floating-point value. -/
def Reading.ofFloat (x : Float) : Reading :=
  ofBits x.toBits

end DogStatsD.Decimal
