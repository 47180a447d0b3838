import DogStatsD.Proofs.Decimal.Shortest
import DogStatsD.Proofs.Server.Numbers

/-!
# Notations of a Decimal

A decimal is laid out as an integer, with a point among its digits, or with a power of ten behind
them. A server reads the same number whichever notation a layout has chosen.

* `Notation`, `Layout.notation_scaled`: the notations of a decimal;
* `Notation.readMagnitude?_eq`: all of them denote it;
* `Layout.readingWith`, `Layout.reading_eq_readingWith`: the text of a double, for any choice of its
  decimal;
* `Layout.readNumber?_readingWith`: the number that it denotes is the same for all layouts.
-/

namespace DogStatsD.Decimal

open Server

/-! ## The notations of a decimal -/

/-- How the positive number `s` may be written; `pointZero` says whether an integer in plain
notation ends in `.0`. -/
inductive Notation (s : Scaled) (pointZero : Bool) : List Char → Prop
  /-- An integer in plain notation. -/
  | integer (text : List Char) (hne : text ≠ []) (hdigits : AllDigits text)
      (hvalue : (digitsValue text : ℚ) = s.value) :
      Notation s pointZero (text ++ if pointZero then ['.', '0'] else [])
  /-- Digits on both sides of a point; the last one is that of the decimal. -/
  | point (whole fraction : List Char) (hwhole : whole ≠ []) (hfraction : fraction ≠ [])
      (hdigits : AllDigits whole) (hdigits' : AllDigits fraction)
      (hvalue : (digitsValue (whole ++ fraction) : ℚ) / 10 ^ fraction.length = s.value)
      (hlast : fraction.getLast? = (digitChars s.digits).getLast?) :
      Notation s pointZero (whole ++ '.' :: fraction)
  /-- One digit before the point, and a power of ten. -/
  | power (first : Char) (rest : List Char) (hdigits : digitChars s.digits = first :: rest) :
      Notation s pointZero
        (first :: (if rest = [] then [] else '.' :: rest) ++
          'e' :: intChars (s.exponent + rest.length))

/-- Digits with a point among them have the value of the digits, scaled. -/
theorem Scaled.div_pow_eq_value {s : Scaled} {count : ℕ} (h : (count : ℤ) = -s.exponent) :
    (s.digits : ℚ) / 10 ^ count = s.value := by
  rw [Scaled.value, show s.exponent = -(count : ℤ) by omega, zpow_neg, zpow_natCast, div_eq_mul_inv]

/-- However a layout writes scaled digits, it is a notation of them. -/
theorem Layout.notation_scaled (l : Layout) (s : Scaled) :
    Notation s l.pointZero (l.scaled s) := by
  have hne := digitChars_ne_nil s.digits
  have hall := allDigits_digitChars s.digits
  have hvalue := digitsValue_digitChars s.digits
  unfold Layout.scaled
  dsimp only
  split
  next hinteger =>
    refine .integer _ (by simp [hne]) (hall.append (allDigits_zeroChars _)) ?_
    obtain ⟨places, hplaces⟩ := Int.eq_ofNat_of_zero_le hinteger.1
    rw [digitsValue_append, hvalue, digitsValue_zeroChars, Scaled.value, hplaces]
    simp [zeroChars]
  split
  next hinteger hpoint =>
    -- The point stands behind some of the digits, and not behind all of them.
    obtain ⟨places, hplaces⟩ := Int.eq_ofNat_of_zero_le hpoint.1.le
    rw [hplaces, Int.toNat_natCast]
    have hbehind : places < (digitChars s.digits).length := by omega
    refine .point _ _ ?_ ?_ (fun c hc => hall c (List.mem_of_mem_take hc))
      (fun c hc => hall c (List.mem_of_mem_drop hc)) ?_ ?_
    · simp only [ne_eq, List.take_eq_nil_iff, not_or]
      exact ⟨by omega, hne⟩
    · simpa using hbehind
    · rw [List.take_append_drop, hvalue]
      refine Scaled.div_pow_eq_value ?_
      rw [List.length_drop]
      omega
    · rw [List.getLast?_drop, if_neg (by omega)]
  split
  next hbefore =>
    obtain ⟨places, hplaces⟩ := Int.eq_ofNat_of_zero_le (neg_nonneg.mpr hbefore.2)
    rw [hplaces, Int.toNat_natCast]
    -- The zeros that are put before the digits do not count.
    refine .point ['0'] (zeroChars places ++ digitChars s.digits) (by simp) (by simp [hne])
      allDigits_zero ((allDigits_zeroChars places).append hall) ?_ ?_
    · rw [digitsValue_append, digitsValue_append, digitsValue_zeroChars, hvalue, digitsValue_zero,
        zero_mul, zero_mul, zero_add, zero_add]
      refine Scaled.div_pow_eq_value ?_
      simp only [List.length_append, zeroChars, List.length_replicate]
      omega
    · rw [List.getLast?_append_of_ne_nil _ hne]
  · obtain ⟨first, rest, hdigits⟩ := List.exists_cons_of_ne_nil hne
    have hpower : ((first :: rest).length : ℤ) + s.exponent - 1 = s.exponent + rest.length := by
      simp only [List.length_cons]
      push_cast
      ring
    have hnotation : Notation s l.pointZero _ := .power first rest hdigits
    rw [hdigits, hpower]
    simpa using hnotation

variable {text : List Char} {s : Scaled} {pointZero : Bool}

/-- Whatever notation a decimal is written in, it is what the server reads. -/
theorem Notation.readMagnitude?_eq (h : Notation s pointZero text) :
    readMagnitude? text = some s.value := by
  cases h with
  | integer text hne hdigits hvalue =>
    cases pointZero with
    | false =>
      rw [if_neg (by decide), List.append_nil,
        readMagnitude?_fixed (hdigits.not_mem (by decide)), readFixed?_of_allDigits hne hdigits,
        hvalue]
    | true =>
      have hnone : 'e' ∉ text ++ ['.', '0'] := by
        simp [hdigits.not_mem (show 'e'.isDigit = false by decide)]
      rw [if_pos rfl, readMagnitude?_fixed hnone,
        readFixed?_point hne (by simp) hdigits allDigits_zero, digitsValue_append, digitsValue_zero,
        ← hvalue]
      simp
  | point whole fraction hwhole hfraction hdigits hdigits' hvalue hlast =>
    have hnone : 'e' ∉ whole ++ '.' :: fraction := by
      simp [hdigits.not_mem (show 'e'.isDigit = false by decide),
        hdigits'.not_mem (show 'e'.isDigit = false by decide)]
    rw [readMagnitude?_fixed hnone, readFixed?_point hwhole hfraction hdigits hdigits', hvalue]
  | power first rest hdigits =>
    have hall : AllDigits (first :: rest) := hdigits ▸ allDigits_digitChars s.digits
    have hvalue : digitsValue (first :: rest) = s.digits :=
      hdigits ▸ digitsValue_digitChars s.digits
    -- The digits behind the point and the exponent that is written cancel.
    obtain ⟨hfirst, hrest⟩ := List.forall_mem_cons.mp hall
    have hone : AllDigits [first] := List.forall_mem_singleton.mpr hfirst
    have hfixed : readFixed? (first :: if rest = [] then [] else '.' :: rest) =
        some (s.digits / 10 ^ rest.length : ℚ) := by
      rw [← hvalue]
      split
      next hnil =>
        subst hnil
        rw [readFixed?_of_allDigits (by simp) hone]
        simp
      next hne => exact readFixed?_point (by simp) hne hone hrest
    have hnone : 'e' ∉ first :: if rest = [] then [] else '.' :: rest := by
      have hall' := hall.not_mem (show 'e'.isDigit = false by decide)
      split <;> simp_all
    rw [readMagnitude?_power hnone hfixed, Scaled.value, zpow_add₀ (by norm_num), zpow_natCast]
    congr 1
    field_simp

/-- A decimal begins with a digit. -/
theorem Notation.exists_digit (h : Notation s pointZero text) :
    ∃ first rest, text = first :: rest ∧ first.isDigit = true := by
  cases h with
  | integer text hne hdigits hvalue =>
    obtain ⟨first, rest, rfl⟩ := List.exists_cons_of_ne_nil hne
    exact ⟨first, _, rfl, hdigits first List.mem_cons_self⟩
  | point whole fraction hwhole hfraction hdigits hdigits' hvalue hlast =>
    obtain ⟨first, rest, rfl⟩ := List.exists_cons_of_ne_nil hwhole
    exact ⟨first, _, rfl, hdigits first List.mem_cons_self⟩
  | power first rest hdigits =>
    exact ⟨first, _, rfl, allDigits_digitChars s.digits first (hdigits ▸ List.mem_cons_self)⟩

theorem Notation.head?_ne_minus (h : Notation s pointZero text) : text.head? ≠ some '-' := by
  obtain ⟨first, rest, rfl, hdigit⟩ := h.exists_digit
  intro hminus
  rw [Option.some.inj hminus] at hdigit
  cases hdigit

/-- The number with the given sign. -/
def withSign (negative : Bool) (q : ℚ) : ℚ :=
  if negative then -q else q

/-- A number is read back with its sign from any notation of it. -/
theorem Notation.readNumber?_signed (h : Notation s pointZero text) (negative : Bool) :
    readNumber? (signed negative text) = some (withSign negative s.value) := by
  have hread := h.readMagnitude?_eq
  cases negative with
  | true =>
    show (readMagnitude? text).map _ = _
    rw [hread]
    rfl
  | false =>
    unfold readNumber? signed
    rw [if_neg (by decide)]
    split
    next hminus => exact absurd rfl h.head?_ne_minus
    next => exact hread

/-! ## The texts of doubles -/

/-- The decimal of a double that is not negative: zero has no significant digits to choose. -/
def decimalOf (decimal : ℕ → ℤ → Scaled) (mantissa : ℕ) (exponent : ℤ) : Scaled :=
  if mantissa = 0 then ⟨0, 0⟩ else decimal mantissa exponent

/-- Lay out a double that is not negative. -/
def Layout.magnitude (l : Layout) (decimal : ℕ → ℤ → Scaled) (mantissa : ℕ) (exponent : ℤ) :
    List Char :=
  if mantissa = 0 then l.zero else l.scaled (decimal mantissa exponent)

/-- Lay out the number that the bits of a double stand for, whatever decimal is chosen for it. -/
def Layout.readingWith (l : Layout) (decimal : ℕ → ℤ → Scaled) : Reading → List Char
  | .finite negative mantissa exponent =>
    signed negative (l.magnitude decimal mantissa exponent)
  | r => l.reading r

@[simp]
theorem Layout.readingWith_finite (l : Layout) (decimal : ℕ → ℤ → Scaled) (negative : Bool)
    (mantissa : ℕ) (exponent : ℤ) :
    l.readingWith decimal (.finite negative mantissa exponent) =
      signed negative (l.magnitude decimal mantissa exponent) :=
  rfl

/-- A reading is laid out with the shortest digits. -/
theorem Layout.reading_eq_readingWith (l : Layout) (r : Reading) :
    l.reading r = l.readingWith shortest r := by
  match r with
  | .nan | .infinity _ | .finite _ 0 _ | .finite _ (_ + 1) _ => rfl

variable (l : Layout) (decimal : ℕ → ℤ → Scaled)

/-- Zero has a notation of its own. -/
theorem Layout.notation_zero : Notation ⟨0, 0⟩ l.pointZero l.zero := by
  refine .integer ['0'] (by simp) allDigits_zero ?_
  rw [digitsValue_zero, Scaled.value, Nat.cast_zero, zero_mul]

/-- The magnitude of a number is written in a notation of its digits. -/
theorem Layout.notation_magnitude (mantissa : ℕ) (exponent : ℤ) :
    Notation (decimalOf decimal mantissa exponent) l.pointZero
      (l.magnitude decimal mantissa exponent) := by
  unfold decimalOf Layout.magnitude
  split
  · exact l.notation_zero
  · exact l.notation_scaled _

/-- The number that the text of a double denotes; infinities and what is not a number denote
none. -/
def Reading.denoted? (decimal : ℕ → ℤ → Scaled) : Reading → Option ℚ
  | .nan | .infinity _ => none
  | .finite negative mantissa exponent =>
    some (withSign negative (decimalOf decimal mantissa exponent).value)

/-- The text of a double is read as the number it denotes, whatever its layout. -/
theorem Layout.readNumber?_readingWith (r : Reading) :
    readNumber? (l.readingWith decimal r) = r.denoted? decimal := by
  cases r with
  | nan => rfl
  | infinity negative => cases negative <;> rfl
  | finite negative mantissa exponent =>
    exact (l.notation_magnitude decimal mantissa exponent).readNumber?_signed negative

end DogStatsD.Decimal
