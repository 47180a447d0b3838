import DogStatsD.Proofs.Decimal.Notation

/-!
# Integers Without a Point

Integral values are written as `1` and not as `1.0`. Leaving out a `.0` at the end of a text changes
integers in plain notation only, since nothing else ends so: the last digit behind a point is not
zero, and behind a power of ten there is no point.

* `Layout.pointed`, `withoutPointZero`: texts with the `.0` and what is left of them without it;
* `Notation.not_pointZero`: notations that do not end in `.0`;
* `Layout.pointed_readingWith`: the texts of a double in the two layouts.
-/

namespace DogStatsD.Decimal

/-- The same layout, but integers in plain notation end in `.0`. -/
def Layout.pointed (l : Layout) : Layout :=
  { l with pointZero := true }

/-- Leave out a `.0` at the end of a text. -/
def withoutPointZero (text : List Char) : List Char :=
  (List.isSuffixOf? ['.', '0'] text).getD text

/-- A point and a zero at the end are left out. -/
theorem withoutPointZero_append (text : List Char) :
    withoutPointZero (text ++ ['.', '0']) = text := by
  rw [withoutPointZero, List.isSuffixOf?_eq_some_iff_append_eq.mpr rfl, Option.getD_some]

/-- A text that does not end in a point and a zero is left as it is. -/
theorem withoutPointZero_eq_self {text : List Char} (h : ¬['.', '0'] <:+ text) :
    withoutPointZero text = text := by
  unfold withoutPointZero
  cases hrest : List.isSuffixOf? ['.', '0'] text with
  | none => rfl
  | some rest => exact absurd ⟨rest, List.isSuffixOf?_eq_some_iff_append_eq.mp hrest⟩ h

/-! ## Texts that do not end in a point and a zero -/

theorem getLast?_digitChars (n : ℕ) : (digitChars n).getLast? = some (Nat.digitChar (n % 10)) := by
  rw [digitChars, Nat.toDigits_eq_if (by decide)]
  split
  next hlt => rw [Nat.mod_eq_of_lt hlt, List.getLast?_singleton]
  next => rw [List.getLast?_concat]

theorem digitChar_mod_ten_ne {n : ℕ} (h : n % 10 ≠ 0) : Nat.digitChar (n % 10) ≠ '0' := by
  have hdigit : ∀ d < 10, d ≠ 0 → Nat.digitChar d ≠ '0' := by decide
  exact hdigit _ (Nat.mod_lt n (by decide)) h

variable {s : Scaled} {text : List Char}

/-- A decimal without a zero at the end is not written with one behind a point. -/
theorem Notation.not_pointZero (h : Notation s false text) (hten : s.digits % 10 ≠ 0) :
    ¬['.', '0'] <:+ text := by
  intro hsuffix
  cases h with
  | integer text hne hdigits hvalue =>
    rw [if_neg (by decide), List.append_nil] at hsuffix
    exact hdigits.not_mem (by decide) (hsuffix.subset List.mem_cons_self)
  | point whole fraction hwhole hfraction hdigits hdigits' hvalue hlast =>
    -- The text ends in the last digit of the decimal.
    have hdigit := hlast.trans (getLast?_digitChars s.digits)
    obtain ⟨front, hfront⟩ := hsuffix
    have hend := congrArg List.getLast? hfront
    rw [List.getLast?_append_of_ne_nil _ (by simp), List.getLast?_append_of_ne_nil _ (by simp),
      List.getLast?_cons (l := fraction), hdigit] at hend
    exact digitChar_mod_ten_ne hten (Option.some.inj hend).symm
  | power first rest hdigits =>
    -- There are at least two characters from the `e` on, and no point is among them.
    have hmany : 1 ≤ (intChars (s.exponent + rest.length)).length :=
      List.length_pos_iff.mpr (intChars_ne_nil _)
    have htail : ['.', '0'] <:+ 'e' :: intChars (s.exponent + rest.length) :=
      List.suffix_of_suffix_length_le hsuffix (List.suffix_append _ _) (Nat.succ_le_succ hmany)
    have hpoint : '.' ∈ 'e' :: intChars (s.exponent + rest.length) :=
      htail.subset List.mem_cons_self
    rcases List.mem_cons.mp hpoint with hletter | hpower
    · cases hletter
    · exact not_mem_intChars (by decide) (by decide) hpower

/-- A sign does not change how a text ends. -/
theorem not_pointZero_signed (h : ¬['.', '0'] <:+ text) (negative : Bool) :
    ¬['.', '0'] <:+ signed negative text := by
  cases negative with
  | false => exact h
  | true =>
    intro hsuffix
    rcases List.suffix_cons_iff.mp hsuffix with hwhole | hrest
    · cases hwhole
    · exact h hrest

/-! ## The two layouts -/

variable {l : Layout} {decimal : ℕ → ℤ → Scaled}

/-- A layout that ends whole numbers in a point and a zero differs in these only. -/
theorem Layout.pointed_scaled (hl : l.pointZero = false) (s : Scaled) :
    l.pointed.scaled s = l.scaled s ∨ l.pointed.scaled s = l.scaled s ++ ['.', '0'] := by
  unfold Layout.scaled Layout.pointed
  simp only [hl, Bool.false_eq_true, if_false, if_true, List.append_nil]
  -- Only an integer in plain notation has the point and the zero.
  split_ifs
  · exact .inr rfl
  all_goals exact .inl rfl

/-- So it does for the magnitudes of all numbers. -/
theorem Layout.pointed_magnitude (hl : l.pointZero = false) (decimal : ℕ → ℤ → Scaled) (m : ℕ)
    (e : ℤ) :
    l.pointed.magnitude decimal m e = l.magnitude decimal m e ∨
      l.pointed.magnitude decimal m e = l.magnitude decimal m e ++ ['.', '0'] := by
  unfold Layout.magnitude
  split
  · simp [Layout.zero, Layout.pointed, hl]
  · exact Layout.pointed_scaled hl _

/-- The text of a double with the `.0` is the same as without it, or longer by just this. -/
theorem Layout.pointed_readingWith (hl : l.pointZero = false) (decimal : ℕ → ℤ → Scaled)
    (r : Reading) :
    l.pointed.readingWith decimal r = l.readingWith decimal r ∨
      l.pointed.readingWith decimal r = l.readingWith decimal r ++ ['.', '0'] := by
  cases r with
  | nan | infinity => exact .inl rfl
  | finite negative m e =>
    rw [Layout.readingWith_finite, Layout.readingWith_finite]
    rcases Layout.pointed_magnitude hl decimal m e with hsame | hlonger
    · exact .inl (by rw [hsame])
    · rw [hlonger]
      cases negative <;> exact .inr rfl

/-- If the digits do not end in a zero, the text does not end in a point and a zero. -/
theorem Layout.not_pointZero_magnitude (hl : l.pointZero = false) {m : ℕ} {e : ℤ}
    (hten : m ≠ 0 → (decimal m e).digits % 10 ≠ 0) : ¬['.', '0'] <:+ l.magnitude decimal m e := by
  unfold Layout.magnitude
  split
  next =>
    rw [Layout.zero, hl]
    decide
  next hm => exact (hl ▸ l.notation_scaled _).not_pointZero (hten hm)

end DogStatsD.Decimal
