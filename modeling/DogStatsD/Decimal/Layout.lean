import DogStatsD.Decimal.Shortest

/-!
# Writing Numbers

How the shortest digits of a double are laid out on the wire. With the decimal point standing
after `point` digits, a number is written in plain positions while `-5 < point ≤ 16` and with one
digit before the point and an exponent otherwise. Integral values have no fractional part: `1`, not
`1.0`.
-/

namespace DogStatsD.Decimal

/-- The choices that a number format makes once the digits of a number are known. -/
structure Layout where
  /-- The point stands further right than this in plain notation. -/
  plainAbove : Int
  /-- The point stands no further right than this in plain notation. -/
  plainUpTo : Int
  /-- Whether an integer in plain notation ends in `.0`. -/
  pointZero : Bool
  deriving DecidableEq

/-- Values on the wire: plain notation from `0.00001` up to sixteen places before the point, and
integers without a point. -/
def Layout.wire : Layout where
  plainAbove := -5
  plainUpTo := 16
  pointZero := false

/-- The decimal digits of a natural number. -/
def digitChars (n : Nat) : List Char :=
  Nat.toDigits 10 n

/-- The decimal text of an integer: a minus sign before the digits of a negative one. -/
def intChars : Int → List Char
  | .ofNat n => digitChars n
  | .negSucc n => '-' :: digitChars (n + 1)

def zeroChars (count : Nat) : List Char :=
  List.replicate count '0'

/-- Lay out the positive number `s`. -/
def Layout.scaled (l : Layout) (s : Scaled) : List Char :=
  let digits := digitChars s.digits
  let point := (digits.length : Int) + s.exponent
  -- An integer, a point among the digits, zeros before all digits, and else an exponent.
  if 0 ≤ s.exponent ∧ point ≤ l.plainUpTo then
    digits ++ zeroChars s.exponent.toNat ++ (if l.pointZero then ['.', '0'] else [])
  else if 0 < point ∧ point ≤ l.plainUpTo then
    digits.take point.toNat ++ '.' :: digits.drop point.toNat
  else if l.plainAbove < point ∧ point ≤ 0 then
    '0' :: '.' :: zeroChars (-point).toNat ++ digits
  else
    digits.take 1 ++ (if digits.length = 1 then [] else '.' :: digits.drop 1)
      ++ 'e' :: intChars (point - 1)

/-- Lay out zero. -/
def Layout.zero (l : Layout) : List Char :=
  '0' :: (if l.pointZero then ['.', '0'] else [])

/-- Put a minus sign before the text of a negative number; zero keeps its sign. -/
def signed (negative : Bool) (text : List Char) : List Char :=
  if negative then '-' :: text else text

/-- Lay out the number that the bits of a double stand for. -/
def Layout.reading (l : Layout) : Reading → List Char
  | .nan => ['N', 'a', 'N']
  | .infinity negative => signed negative ['i', 'n', 'f']
  | .finite negative 0 _ => signed negative l.zero
  | .finite negative mantissa exponent => signed negative (l.scaled (shortest mantissa exponent))

/-- The text of a natural number. -/
def ofNat (n : Nat) : String :=
  String.ofList (digitChars n)

/-- The text of an integer. -/
def ofInt (n : Int) : String :=
  String.ofList (intChars n)

/-- The text of a floating-point value. -/
def ofFloat (x : Float) : String :=
  String.ofList (Layout.wire.reading (Reading.ofFloat x))

end DogStatsD.Decimal
