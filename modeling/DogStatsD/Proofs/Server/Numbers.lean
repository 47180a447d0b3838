import DogStatsD.Decimal.Layout
import DogStatsD.Proofs.Server.Grammar
import Mathlib

/-!
# Numbers on the Wire

What a server makes of the text of a number: digits with an optional point among them, an optional
power of ten behind them and an optional sign in front.

* `readNumber?`: the number that a text denotes;
* `readNat?_digitChars`, `readFixed?_point`, `readMagnitude?_power`: how its parts are read.
-/

namespace DogStatsD

namespace Decimal

/-! ## Digits -/

/-- Texts made of digits. -/
def AllDigits (text : List Char) : Prop :=
  ∀ c ∈ text, c.isDigit = true

variable {front back text : List Char}

theorem AllDigits.append (hfront : AllDigits front) (hback : AllDigits back) :
    AllDigits (front ++ back) := by
  intro c hc
  rcases List.mem_append.mp hc with h | h
  · exact hfront c h
  · exact hback c h

/-- A text of digits holds no other character. -/
theorem AllDigits.not_mem (h : AllDigits text) {c : Char} (hc : c.isDigit = false) : c ∉ text := by
  intro hmem
  rw [h c hmem] at hc
  cases hc

/-- A number is written with digits only. -/
theorem allDigits_digitChars (n : ℕ) : AllDigits (digitChars n) :=
  fun _ hc => Nat.isDigit_of_mem_toDigits (by decide) (by decide) hc

theorem allDigits_zeroChars (count : ℕ) : AllDigits (zeroChars count) := by
  intro c hc
  rw [List.eq_of_mem_replicate hc]
  decide

theorem allDigits_zero : AllDigits ['0'] :=
  allDigits_zeroChars 1

/-- A number with its sign holds digits and perhaps a minus, and nothing else. -/
theorem not_mem_intChars {z : ℤ} {c : Char} (hdigit : c.isDigit = false) (hminus : c ≠ '-') :
    c ∉ intChars z := by
  cases z with
  | ofNat n => exact (allDigits_digitChars n).not_mem hdigit
  | negSucc n =>
    rw [intChars, List.mem_cons, not_or]
    exact ⟨hminus, (allDigits_digitChars (n + 1)).not_mem hdigit⟩

theorem digitChars_ne_nil (n : ℕ) : digitChars n ≠ [] :=
  Nat.toDigits_ne_nil

/-- A number has at least one digit, whatever its sign. -/
theorem intChars_ne_nil (z : ℤ) : intChars z ≠ [] := by
  cases z with
  | ofNat n => exact digitChars_ne_nil n
  | negSucc n => exact List.cons_ne_nil _ _

/-- The number that a run of digits stands for. -/
abbrev digitsValue (text : List Char) : ℕ :=
  Nat.ofDigitChars 10 text 0

/-- Reading the digits of a number gives the number. -/
theorem digitsValue_digitChars (n : ℕ) : digitsValue (digitChars n) = n :=
  Nat.ofDigitChars_ten_toDigits

/-- Digits in front count for as many powers of ten as there are digits behind. -/
theorem digitsValue_append (front back : List Char) :
    digitsValue (front ++ back) = digitsValue front * 10 ^ back.length + digitsValue back := by
  rw [digitsValue, Nat.ofDigitChars_append, Nat.ofDigitChars_eq_ofDigitChars_zero, mul_comm]

/-- Zeros are worth nothing. -/
theorem digitsValue_zeroChars (count : ℕ) : digitsValue (zeroChars count) = 0 := by
  induction count with
  | zero => rfl
  | succ count ih =>
    rw [zeroChars, List.replicate_succ, digitsValue, Nat.ofDigitChars_cons]
    exact ih

theorem digitsValue_zero : digitsValue ['0'] = 0 :=
  rfl

end Decimal

namespace Server

open Decimal

/-! ## The reader -/

/-- Read digits with an optional point, which has digits on both sides. -/
def readFixed? (text : List Char) : Option ℚ :=
  match text.splitOn '.' with
  | [digits] => (readNat? digits).map (↑)
  | [whole, fraction] => do
    let units ← readNat? whole
    let parts ← readNat? fraction
    some (units + parts / 10 ^ fraction.length)
  | _ => none

/-- Read the power of ten behind a number. -/
def readPower? : List Char → Option ℤ
  | '-' :: digits => (readNat? digits).map (-↑·)
  | digits => (readNat? digits).map (↑)

/-- Read a number without a sign, with an optional power of ten. -/
def readMagnitude? (text : List Char) : Option ℚ :=
  match text.splitOn 'e' with
  | [fixed] => readFixed? fixed
  | [fixed, power] => do
    let number ← readFixed? fixed
    let exponent ← readPower? power
    some (number * 10 ^ exponent)
  | _ => none

/-- Read a number with an optional sign. -/
def readNumber? : List Char → Option ℚ
  | '-' :: text => (readMagnitude? text).map (-·)
  | text => readMagnitude? text

example : readNumber? ['-', '1', '.', '5', 'e', '-', '3'] = some (-3 / 2000) := by
  decide +kernel

/-! ## The parts of a number -/

variable {text fixed power whole fraction : List Char} {q : ℚ}

/-- Digits are read as a natural number if there is at least one. -/
theorem readNat?_of_allDigits (hne : text ≠ []) (h : AllDigits text) :
    readNat? text = some (digitsValue text) :=
  if_pos ⟨hne, List.all_eq_true.mpr h⟩

/-- A natural number is read back from its digits. -/
theorem readNat?_digitChars (n : ℕ) : readNat? (digitChars n) = some n := by
  rw [readNat?_of_allDigits (digitChars_ne_nil n) (allDigits_digitChars n), digitsValue_digitChars]

/-- Digits without a point are read as the whole number that they spell. -/
theorem readFixed?_of_allDigits (hne : text ≠ []) (h : AllDigits text) :
    readFixed? text = some (digitsValue text : ℚ) := by
  rw [readFixed?, List.splitOn_eq_singleton (h.not_mem (by decide))]
  simp only [readNat?_of_allDigits hne h, Option.map_some]

/-- With a point among the digits, those behind it are counted. -/
theorem readFixed?_point (hwhole : whole ≠ []) (hfraction : fraction ≠ []) (h : AllDigits whole)
    (h' : AllDigits fraction) :
    readFixed? (whole ++ '.' :: fraction) =
      some (digitsValue (whole ++ fraction) / 10 ^ fraction.length : ℚ) := by
  rw [readFixed?, List.splitOn_append_cons_self_of_not_mem (h.not_mem (by decide)),
    List.splitOn_eq_singleton (h'.not_mem (by decide)), digitsValue_append]
  simp only [readNat?_of_allDigits hwhole h, readNat?_of_allDigits hfraction h',
    Option.bind_eq_bind, Option.bind_some, Option.some.injEq]
  push_cast
  field_simp

/-- The exponent of a number is read back, with its sign. -/
theorem readPower?_intChars (z : ℤ) : readPower? (intChars z) = some z := by
  cases z with
  | negSucc n =>
    show (readNat? (digitChars (n + 1))).map _ = _
    rw [readNat?_digitChars]
    rfl
  | ofNat n =>
    unfold intChars readPower?
    split
    next digits hminus =>
      -- A minus sign is no digit.
      exact absurd (hminus ▸ List.mem_cons_self) ((allDigits_digitChars n).not_mem (by decide))
    next =>
      rw [readNat?_digitChars]
      rfl

/-- Without an exponent, a number is read as digits around a point. -/
theorem readMagnitude?_fixed (h : 'e' ∉ text) : readMagnitude? text = readFixed? text := by
  rw [readMagnitude?, List.splitOn_eq_singleton h]

/-- With an exponent, what stands before it is scaled by that power of ten. -/
theorem readMagnitude?_power (hfixed : 'e' ∉ fixed) (hread : readFixed? fixed = some q) (z : ℤ) :
    readMagnitude? (fixed ++ 'e' :: intChars z) = some (q * 10 ^ z) := by
  rw [readMagnitude?, List.splitOn_append_cons_self_of_not_mem hfixed,
    List.splitOn_eq_singleton (not_mem_intChars (by decide) (by decide))]
  simp only [hread, readPower?_intChars, Option.bind_eq_bind, Option.bind_some]

end Server

end DogStatsD
