import DogStatsD.Decimal.Binary64

/-!
# Shortest Decimals

The decimal of a positive double is the one on the coarsest grid `10 ^ k` that some point of lies
in the interval of reals rounding to the double; of two such neighbours the nearer one, and of two
equally near ones the even one. The interval reaches half way to the next double on either side,
and holds its ends exactly when the mantissa is even.

All arithmetic is exact: everything is counted in quarters of the double's unit `2 ^ exponent`, so
that the ends of the interval are natural numbers, and compared on a common denominator.
-/

namespace DogStatsD.Decimal

/-- The positive number `digits · 10 ^ exponent`. -/
structure Scaled where
  /-- The significant digits, read as one number. -/
  digits : Nat
  /-- The power of ten that the last digit counts. -/
  exponent : Int
  deriving DecidableEq

/-- A positive double `mantissa · 2 ^ exponent`, seen in units of a decimal grid `10 ^ k`: a number
of quarters `x` of the double's unit is `x · num / den` steps of the grid. -/
structure Ruler where
  /-- Steps of the grid per quarter unit, numerator. -/
  num : Nat
  /-- Steps of the grid per quarter unit, denominator. -/
  den : Nat

/-- The ruler of the grid `10 ^ k` for quarters of `2 ^ exponent`. -/
def Ruler.ofGrid (exponent k : Int) : Ruler where
  num := Nat.pow 2 (exponent - 2).toNat * Nat.pow 10 (-k).toNat
  den := Nat.pow 2 (2 - exponent).toNat * Nat.pow 10 k.toNat

/-- Quarters of a unit from a double down to the lower end of its interval: two, except that the
doubles below a power of two are twice as dense. -/
def lowerGap (mantissa : Nat) (exponent : Int) : Nat :=
  if mantissa = leadingBit ∧ minExponent < exponent then 1 else 2

/-- Whether the point `n` of the grid lies in the interval that rounds to the double. -/
def Ruler.rounds (r : Ruler) (mantissa : Nat) (exponent : Int) (n : Nat) : Bool :=
  let low := (4 * mantissa - lowerGap mantissa exponent) * r.num
  let high := (4 * mantissa + 2) * r.num
  -- A tie goes to the even mantissa, so that the ends belong to its interval.
  if mantissa % 2 = 0 then
    decide (low ≤ n * r.den ∧ n * r.den ≤ high)
  else
    decide (low < n * r.den ∧ n * r.den < high)

/-- The neighbour of the double on the grid that is nearest to it, a tie going to the even one. -/
def Ruler.nearest (r : Ruler) (mantissa : Nat) : Nat :=
  let below := 4 * mantissa * r.num / r.den
  let rest := 4 * mantissa * r.num % r.den
  if 2 * rest < r.den then below
  else if r.den < 2 * rest then below + 1
  else if below % 2 = 0 then below
  else below + 1

/-- The best point of the grid `10 ^ k` for a double, if one of its two neighbours there rounds to
the double. -/
def onGrid? (mantissa : Nat) (exponent k : Int) : Option Nat :=
  let r := Ruler.ofGrid exponent k
  let below := 4 * mantissa * r.num / r.den
  match r.rounds mantissa exponent below, r.rounds mantissa exponent (below + 1) with
  | true, true => some (r.nearest mantissa)
  | true, false => some below
  | false, true => some (below + 1)
  | false, false => none

/-- Look for a point on the grid `10 ^ k` and then on `count` finer ones. On the last grid the
nearest point is taken. -/
def searchGrids (mantissa : Nat) (exponent : Int) : Nat → Int → Scaled
  | 0, k => ⟨(Ruler.ofGrid exponent k).nearest mantissa, k⟩
  | count + 1, k =>
    match onGrid? mantissa exponent k with
    | some digits => ⟨digits, k⟩
    | none => searchGrids mantissa exponent count (k - 1)

/-- A power of ten not below the leading one of `mantissa · 2 ^ exponent`, and at most two above
it: `1233 / 4096` is just under the decimal logarithm of two. -/
def coarsestGrid (mantissa : Nat) (exponent : Int) : Int :=
  ((mantissa.log2 : Int) + exponent) * 1233 / 4096 + 1

/-- The shortest decimal that rounds to the positive double `mantissa · 2 ^ exponent`. Seventeen
significant digits are always enough, so nineteen grids are. -/
def shortest (mantissa : Nat) (exponent : Int) : Scaled :=
  searchGrids mantissa exponent 19 (coarsestGrid mantissa exponent)

end DogStatsD.Decimal
