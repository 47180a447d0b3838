import DogStatsD.Proofs.Decimal.PointZero
import DogStatsD.Proofs.Decimal.Reading
import DogStatsD.Proofs.Line.Plain

/-!
# Texts of Values

A value is printed from its sign and a decimal, and a `.0` at the end is then left out. Of the
decimals it matters only that none ends in a zero and that different doubles have different ones,
which holds of the shortest ones. The text of a value is then told apart from what stands around it
and from the texts of other values, and denotes the number that was printed.

* `Printer`: a choice of decimals;
* `Printer.text`, `Printer.text_eq`: the texts that it leads to;
* `Scaled.eq_of_value_eq`, `Printer.text_injective`: they tell doubles apart;
* `Printer.shortest`, `toList_ofFloat`: the texts on the wire are among them;
* `text_keeps_numbers`: all of this together.
-/

namespace DogStatsD.Decimal

open Server

/-- What is relied on of a printer of doubles. -/
structure Printer where
  /-- The decimal that a positive double is printed as. -/
  decimal : ℕ → ℤ → Scaled
  /-- No zero stands at its end. -/
  mod_ten {m : ℕ} {e : ℤ} (h : IsDouble m e) (hm : 0 < m) : (decimal m e).digits % 10 ≠ 0
  /-- Different doubles have different decimals. -/
  injective {m m' : ℕ} {e e' : ℤ} (h : IsDouble m e) (h' : IsDouble m' e') (hm : 0 < m)
    (hm' : 0 < m') (heq : decimal m e = decimal m' e') : m = m' ∧ e = e'

namespace Printer

/-- The text that is printed. -/
def printed (p : Printer) (x : Float) : List Char :=
  Layout.wire.pointed.readingWith p.decimal (Reading.ofFloat x)

/-- The text that is written. -/
def text (p : Printer) (x : Float) : List Char :=
  withoutPointZero (p.printed x)

end Printer

variable {x y : Float} (p : Printer)

/-! ## What is written -/

theorem Printer.not_pointZero_readingWith (x : Float) :
    ¬['.', '0'] <:+ Layout.wire.readingWith p.decimal (Reading.ofFloat x) := by
  cases hx : Reading.ofFloat x with
  | nan =>
    show ¬['.', '0'] <:+ ['N', 'a', 'N']
    decide
  | infinity negative =>
    have hbare : ¬['.', '0'] <:+ ['i', 'n', 'f'] := by decide
    exact not_pointZero_signed hbare negative
  | finite negative m e =>
    rw [Layout.readingWith_finite]
    refine not_pointZero_signed (Layout.not_pointZero_magnitude rfl fun hm => ?_) negative
    exact p.mod_ten (Reading.isDouble_of_ofBits hx) (Nat.pos_of_ne_zero hm)

/-- Leaving out the `.0` is the same as laying out integers without it. -/
theorem Printer.text_eq (x : Float) :
    p.text x = Layout.wire.readingWith p.decimal (Reading.ofFloat x) := by
  have hbare := p.not_pointZero_readingWith x
  unfold Printer.text Printer.printed
  rcases Layout.pointed_readingWith (l := Layout.wire) rfl p.decimal (Reading.ofFloat x) with
    hsame | hlonger
  · rw [hsame, withoutPointZero_eq_self hbare]
  · rw [hlonger, withoutPointZero_append]

theorem Layout.readingWith_ne_nil (l : Layout) (decimal : ℕ → ℤ → Scaled) (r : Reading) :
    l.readingWith decimal r ≠ [] := by
  cases r with
  | nan => exact List.cons_ne_nil _ _
  | infinity negative => cases negative <;> exact List.cons_ne_nil _ _
  | finite negative m e =>
    obtain ⟨first, rest, hdigit, -⟩ := (l.notation_magnitude decimal m e).exists_digit
    rw [Layout.readingWith_finite, hdigit]
    cases negative <;> exact List.cons_ne_nil _ _

theorem allNumber_readingWith (l : Layout) (decimal : ℕ → ℤ → Scaled) (r : Reading) :
    AllNumber (l.readingWith decimal r) := by
  cases r with
  | nan => exact allNumber_reading l .nan
  | infinity negative => exact allNumber_reading l (.infinity negative)
  | finite negative m e =>
    rw [Layout.readingWith_finite]
    refine allNumber_signed ?_
    unfold Layout.magnitude
    split
    · exact allNumber_reading l (.finite false 0 0)
    · exact allNumber_scaled l _

/-! ## Doubles told apart -/

section Decimals

variable {s s' : Scaled}

theorem Scaled.exponent_le (h : s.digits % 10 ≠ 0) (heq : s.value = s'.value) :
    s'.exponent ≤ s.exponent := by
  -- Otherwise the digits of `s` would be a multiple of ten.
  by_contra hlt
  obtain ⟨places, hplaces⟩ : ∃ places : ℕ, s'.exponent = s.exponent + (places + 1 : ℕ) :=
    ⟨(s'.exponent - s.exponent - 1).toNat, by omega⟩
  have hten : (10 : ℚ) ^ s.exponent ≠ 0 := by positivity
  have hdigits : (s.digits : ℚ) = s'.digits * 10 ^ (places + 1) := by
    rw [Scaled.value, Scaled.value, hplaces, zpow_add₀ (by norm_num), zpow_natCast] at heq
    refine mul_right_cancel₀ hten ?_
    rw [heq]
    ring
  have hdigits : s.digits = s'.digits * 10 ^ places * 10 := by
    rw [mul_assoc, ← pow_succ]
    exact_mod_cast hdigits
  exact h (by rw [hdigits, Nat.mul_mod_left])

/-- Decimals without a zero at the end are the same if they stand for the same number. -/
theorem Scaled.eq_of_value_eq (h : s.digits % 10 ≠ 0) (h' : s'.digits % 10 ≠ 0)
    (heq : s.value = s'.value) : s = s' := by
  have hexponent : s.exponent = s'.exponent :=
    le_antisymm (Scaled.exponent_le h' heq.symm) (Scaled.exponent_le h heq)
  have hten : (10 : ℚ) ^ s'.exponent ≠ 0 := by positivity
  rw [Scaled.value, Scaled.value, hexponent] at heq
  have hdigits : (s.digits : ℚ) = s'.digits := mul_right_cancel₀ hten heq
  obtain ⟨digits, exponent⟩ := s
  obtain ⟨digits', exponent'⟩ := s'
  simp only at hexponent hdigits
  rw [hexponent, Nat.cast_injective hdigits]

theorem Printer.value_pos {m : ℕ} {e : ℤ} (h : IsDouble m e) (hm : 0 < m) :
    0 < (p.decimal m e).value := by
  have hten := p.mod_ten h hm
  have hdigits : 0 < (p.decimal m e).digits := Nat.pos_of_ne_zero fun hzero => hten (by rw [hzero])
  have hdigits : (0 : ℚ) < (p.decimal m e).digits := by exact_mod_cast hdigits
  unfold Scaled.value
  positivity

/-- Different doubles are written as different numbers. -/
theorem Printer.value_injective {m m' : ℕ} {e e' : ℤ} (h : IsDouble m e) (h' : IsDouble m' e')
    (heq : (decimalOf p.decimal m e).value = (decimalOf p.decimal m' e').value) :
    m = m' ∧ e = e' := by
  have hzero : (⟨0, 0⟩ : Scaled).value = 0 := by rw [Scaled.value, Nat.cast_zero, zero_mul]
  unfold decimalOf at heq
  split_ifs at heq with hm hm' hm'
  · -- Zero has no leading bit, and the least exponent.
    have hleading : ¬leadingBit ≤ 0 := by decide
    have he := h.leading.resolve_left (hm ▸ hleading)
    have he' := h'.leading.resolve_left (hm' ▸ hleading)
    exact ⟨hm.trans hm'.symm, he.trans he'.symm⟩
  · exact absurd (hzero ▸ heq) (p.value_pos h' (Nat.pos_of_ne_zero hm')).ne
  · exact absurd (hzero ▸ heq) (p.value_pos h (Nat.pos_of_ne_zero hm)).ne'
  · have hm := Nat.pos_of_ne_zero hm
    have hm' := Nat.pos_of_ne_zero hm'
    exact p.injective h h' hm hm' (Scaled.eq_of_value_eq (p.mod_ten h hm) (p.mod_ten h' hm') heq)

end Decimals

theorem signed_injective {text text' : List Char} {negative negative' : Bool}
    (h : text.head? ≠ some '-') (h' : text'.head? ≠ some '-')
    (heq : signed negative text = signed negative' text') :
    negative = negative' ∧ text = text' := by
  cases negative <;> cases negative'
  · exact ⟨rfl, heq⟩
  · exact absurd (congrArg List.head? heq) h
  · exact absurd (congrArg List.head? heq).symm h'
  · exact ⟨rfl, (List.cons.inj heq).2⟩

/-- Finite doubles with the same text are the same. -/
theorem Printer.finite_injective (l : Layout) {negative negative' : Bool} {m m' : ℕ} {e e' : ℤ}
    (h : IsDouble m e) (h' : IsDouble m' e')
    (heq : l.readingWith p.decimal (.finite negative m e) =
      l.readingWith p.decimal (.finite negative' m' e')) :
    Reading.finite negative m e = .finite negative' m' e' := by
  have hnotation := l.notation_magnitude p.decimal m e
  have hnotation' := l.notation_magnitude p.decimal m' e'
  obtain ⟨rfl, htext⟩ := signed_injective hnotation.head?_ne_minus hnotation'.head?_ne_minus heq
  have hvalue := hnotation.readMagnitude?_eq
  rw [htext, hnotation'.readMagnitude?_eq] at hvalue
  obtain ⟨rfl, rfl⟩ := p.value_injective h h' (Option.some.inj hvalue).symm
  rfl

/-- Doubles with the same text have the same bits, unless they are not numbers. -/
theorem Printer.text_injective (hx : x.isNaN = false) (hy : y.isNaN = false)
    (heq : p.text x = p.text y) : x.toBits = y.toBits := by
  have hx := Reading.ofFloat_ne_nan hx
  have hy := Reading.ofFloat_ne_nan hy
  refine Reading.ofBits_injective ?_ hx
  show Reading.ofFloat x = Reading.ofFloat y
  rw [p.text_eq, p.text_eq] at heq
  -- A finite number has a text that denotes one, and an infinity does not.
  have hdenoted := congrArg readNumber? heq
  rw [Layout.readNumber?_readingWith, Layout.readNumber?_readingWith] at hdenoted
  cases hrx : Reading.ofFloat x with
  | nan => exact absurd hrx hx
  | infinity negative =>
    cases hry : Reading.ofFloat y with
    | nan => exact absurd hry hy
    | infinity negative' =>
      rw [hrx, hry] at heq
      have hletter : ['i', 'n', 'f'].head? ≠ some '-' := by decide
      rw [(signed_injective hletter hletter heq).1]
    | finite negative' m' e' =>
      rw [hrx, hry] at hdenoted
      cases hdenoted
  | finite negative m e =>
    cases hry : Reading.ofFloat y with
    | nan => exact absurd hry hy
    | infinity negative' =>
      rw [hrx, hry] at hdenoted
      cases hdenoted
    | finite negative' m' e' =>
      rw [hrx, hry] at heq
      exact p.finite_injective Layout.wire (Reading.isDouble_of_ofBits hrx)
        (Reading.isDouble_of_ofBits hry) heq

/-! ## The shortest decimals -/

/-- The shortest decimals round to their doubles, and no number rounds to two of these. -/
def Printer.shortest : Printer where
  decimal := Decimal.shortest
  mod_ten := shortest_mod_ten
  injective h h' hm hm' heq := (shortest_roundsTo h hm).unique (heq ▸ shortest_roundsTo h' hm') h h'

/-- A value on the wire is printed as its shortest decimal. -/
theorem toList_ofFloat (x : Float) : (ofFloat x).toList = Printer.shortest.text x := by
  rw [Printer.text_eq]
  exact String.toList_ofList.trans (Layout.wire.reading_eq_readingWith _)

/-- Leaving out the `.0` keeps the texts of values apart from what stands around them and from each
other, and keeps the numbers that they denote. -/
theorem text_keeps_numbers :
    (∀ x, (ofFloat x).toList = Printer.shortest.text x) ∧
      ∀ p : Printer,
        (∀ x, p.text x ≠ [] ∧ ∀ c ∈ [':', '|', ',', '#', '\n'], c ∉ p.text x) ∧
        (∀ x, x.isFinite = true →
          (∃ q, readNumber? (p.printed x) = some q ∧ readNumber? (p.text x) = some q) ∧
            ¬['.', '0'] <:+ p.text x) ∧
        ∀ x y, x.isNaN = false → y.isNaN = false → x.toBits ≠ y.toBits → p.text x ≠ p.text y := by
  refine ⟨toList_ofFloat, fun p => ⟨fun x => ⟨?_, fun c hc => ?_⟩, fun x hfinite => ⟨?_, ?_⟩,
    fun x y hx hy hne heq => hne (p.text_injective hx hy heq)⟩⟩
  · rw [p.text_eq]
    exact Layout.readingWith_ne_nil _ _ _
  · have hnone : [':', '|', ',', '#', '\n'].all (fun c => !isNumberChar c) = true := by decide
    rw [p.text_eq]
    exact (allNumber_readingWith _ _ _).not_mem (by simpa using List.all_eq_true.mp hnone c hc)
  · obtain ⟨negative, m, e, hx⟩ := Reading.exists_finite hfinite
    rw [p.text_eq, Printer.printed, hx, Layout.readNumber?_readingWith,
      Layout.readNumber?_readingWith]
    exact ⟨_, rfl, rfl⟩
  · rw [p.text_eq]
    exact p.not_pointZero_readingWith x

/-- From sixteen places before the point to an exponent. -/
theorem text_keeps_numbers_around_switch :
    (9999999999999998 : Float).isFinite = true ∧ (9999999999999998 : Float).isNaN = false ∧
      (1e16 : Float).isNaN = false ∧
      (9999999999999998 : Float).toBits ≠ (1e16 : Float).toBits ∧
      ((∃ q, readNumber? (Printer.shortest.printed 9999999999999998) = some q ∧
          readNumber? (Printer.shortest.text 9999999999999998) = some q) ∧
        ¬['.', '0'] <:+ Printer.shortest.text 9999999999999998) ∧
      Printer.shortest.text 9999999999999998 ≠ Printer.shortest.text 1e16 := by
  obtain ⟨-, hfinite, happart⟩ := text_keeps_numbers.2 Printer.shortest
  exact ⟨by decide, by decide, by decide, by decide, hfinite _ (by decide),
    happart _ _ (by decide) (by decide) (by decide)⟩

example : Printer.shortest.printed 9999999999999998 = "9999999999999998.0".toList := by
  decide +kernel

example : ofFloat 9999999999999998 = "9999999999999998" ∧ ofFloat 1e16 = "1e16" := by
  decide +kernel

end DogStatsD.Decimal
