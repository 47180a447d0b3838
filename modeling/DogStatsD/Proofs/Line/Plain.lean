import DogStatsD.Line

/-!
# Plain Text

A text can be told apart from what stands around it on a line if the characters that divide the
line do not occur in it. Numbers never hold such a character; names, tags and the like need not be
so, and have to be asked for it.

* `Avoids`: some characters do not occur in a text;
* `avoids_ofFloat`, `avoids_ofInt`: numbers avoid everything that divides a line;
* `dropNewlines_eq_self`: a text without newlines is written as it is.
-/

namespace DogStatsD

/-- None of the given characters occurs in a text. -/
def Avoids (marks : List Char) (text : String) : Prop :=
  ∀ c ∈ marks, c ∉ text.toList

instance (marks : List Char) (text : String) : Decidable (Avoids marks text) :=
  List.decidableBAll (· ∉ text.toList) marks

/-- What avoids some characters avoids any of them. -/
theorem Avoids.mono {marks more : List Char} {text : String} (h : Avoids more text)
    (hsub : marks ⊆ more) : Avoids marks text :=
  fun c hc => h c (hsub hc)

namespace Decimal

/-- Whether a character may occur in the text of a number. -/
def isNumberChar (c : Char) : Bool :=
  c.isDigit || c ∈ ['-', '.', 'e', 'N', 'a', 'i', 'n', 'f']

/-- Texts made of the characters of numbers. -/
def AllNumber (text : List Char) : Prop :=
  ∀ c ∈ text, isNumberChar c = true

instance (text : List Char) : Decidable (AllNumber text) :=
  List.decidableBAll (isNumberChar · = true) text

/-- The text of a number holds no character that numbers do not have. -/
theorem AllNumber.not_mem {text : List Char} (h : AllNumber text) {c : Char}
    (hc : isNumberChar c = false) : c ∉ text := by
  intro hmem
  rw [h c hmem] at hc
  cases hc

theorem allNumber_append {front back : List Char} (hfront : AllNumber front)
    (hback : AllNumber back) : AllNumber (front ++ back) := by
  intro c hc
  rcases List.mem_append.mp hc with h | h
  · exact hfront c h
  · exact hback c h

theorem allNumber_cons {c : Char} {rest : List Char} (hc : isNumberChar c = true)
    (hrest : AllNumber rest) : AllNumber (c :: rest) :=
  List.forall_mem_cons.mpr ⟨hc, hrest⟩

/-- Digits are characters of numbers. -/
theorem allNumber_digitChars (n : Nat) : AllNumber (digitChars n) := by
  intro c hc
  rw [isNumberChar, Nat.isDigit_of_mem_toDigits (by decide) (by decide) hc, Bool.true_or]

/-- A number with a sign is written with characters of numbers. -/
theorem allNumber_intChars (n : Int) : AllNumber (intChars n) := by
  cases n with
  | ofNat n => exact allNumber_digitChars n
  | negSucc n => exact allNumber_cons (by decide) (allNumber_digitChars (n + 1))

theorem allNumber_zeroChars (count : Nat) : AllNumber (zeroChars count) := by
  intro c hc
  rw [List.eq_of_mem_replicate hc]
  decide

theorem allNumber_signed {negative : Bool} {text : List Char} (h : AllNumber text) :
    AllNumber (signed negative text) := by
  unfold signed
  split
  · exact allNumber_cons (by decide) h
  · exact h

/-- However a number is laid out, it is written with characters of numbers. -/
theorem allNumber_scaled (l : Layout) (s : Scaled) : AllNumber (l.scaled s) := by
  have hdigits := allNumber_digitChars s.digits
  have hpoint : AllNumber (if l.pointZero then ['.', '0'] else []) := by
    split <;> decide
  -- The layouts in turn: an integer, a point among the digits, zeros before them, an exponent.
  unfold Layout.scaled
  dsimp only
  split
  · exact allNumber_append (allNumber_append hdigits (allNumber_zeroChars _)) hpoint
  split
  · refine allNumber_append (fun c hc => hdigits c (List.mem_of_mem_take hc)) ?_
    exact allNumber_cons (by decide) fun c hc => hdigits c (List.mem_of_mem_drop hc)
  split
  · refine allNumber_cons (by decide) (allNumber_cons (by decide) ?_)
    exact allNumber_append (allNumber_zeroChars _) hdigits
  · refine allNumber_append (allNumber_append (fun c hc => hdigits c (List.mem_of_mem_take hc)) ?_)
      (allNumber_cons (by decide) (allNumber_intChars _))
    split
    · exact List.forall_mem_nil _
    · exact allNumber_cons (by decide) fun c hc => hdigits c (List.mem_of_mem_drop hc)

/-- So is every reading, infinities and what is no number included. -/
theorem allNumber_reading (l : Layout) (r : Reading) : AllNumber (l.reading r) := by
  unfold Layout.reading
  split
  · decide
  · exact allNumber_signed (by decide)
  · refine allNumber_signed (allNumber_cons (by decide) ?_)
    split <;> decide
  · exact allNumber_signed (allNumber_scaled l _)

end Decimal

/-- The characters that divide a line. -/
def dividers : List Char :=
  [':', '|', ',', '\n']

/-- The text of a number holds nothing that divides a line. -/
theorem avoids_of_allNumber {text : List Char} (h : Decimal.AllNumber text) :
    Avoids dividers (String.ofList text) := by
  intro c hc
  rw [String.toList_ofList]
  -- None of the dividers is a character of numbers.
  have hnone : dividers.all (fun c => !Decimal.isNumberChar c) = true := by decide
  exact h.not_mem (by simpa using List.all_eq_true.mp hnone c hc)

/-- The text of a floating-point value avoids the dividers. -/
theorem avoids_ofFloat (x : Float) : Avoids dividers (Decimal.ofFloat x) :=
  avoids_of_allNumber (Decimal.allNumber_reading _ _)

/-- The text of an integer avoids the dividers. -/
theorem avoids_ofInt (n : Int) : Avoids dividers (Decimal.ofInt n) :=
  avoids_of_allNumber (Decimal.allNumber_intChars n)

/-- A text without newlines is written as it is. -/
theorem dropNewlines_eq_self {text : String} (h : Avoids ['\n'] text) :
    Line.dropNewlines text = text := by
  have hfilter : text.toList.filter (· != '\n') = text.toList := by
    rw [List.filter_eq_self]
    intro c hc
    have hne : c ≠ '\n' := fun heq => h '\n' List.mem_cons_self (heq ▸ hc)
    simpa using hne
  rw [Line.dropNewlines, hfilter, String.ofList_toList]

end DogStatsD
