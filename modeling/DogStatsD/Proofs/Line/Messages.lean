import DogStatsD.Proofs.Line.Newlines
import Mathlib.Data.List.Chain

/-!
# Messages

Two things are done to the message of a service check: its field marks are broken up, and then its
newlines are escaped. Together they come to one pass over the message, in which a character is
written as itself unless it is a newline, or a colon behind an `m`. What is between two characters
after that was between them before, so no field mark comes about where none was broken up.

* `shownBehind`, `shownFrom`: how a character is written, and how a text is;
* `toList_messageText`: a message is written so;
* `unmarked_messageText`: in what is written, no colon stands behind an `m`;
* `escapeChars_eq_flatMap`: titles and texts have their newlines escaped and nothing else.
-/

namespace DogStatsD.Line

/-- How a character of a message is written, depending on the one before it. -/
def shownBehind (before : Option Char) (c : Char) : List Char :=
  if c = '\n' then ['\\', 'n'] else if c = ':' ∧ before = some 'm' then ['\\', ':'] else [c]

/-- How a text is written behind a character: each character depends on the one before it. -/
def shownFrom (before : Option Char) (text : List Char) : List Char :=
  (List.zipWith shownBehind (before :: text.map some) text).flatten

theorem shownFrom_cons (before : Option Char) (c : Char) (rest : List Char) :
    shownFrom before (c :: rest) = shownBehind before c ++ shownFrom (some c) rest := rfl

/-- Escaping replaces each newline and leaves every other character. -/
theorem escapeChars_eq_flatMap (text : List Char) :
    escapeChars text = text.flatMap fun c => if c = '\n' then ['\\', 'n'] else [c] := by
  induction text with
  | nil => rfl
  | cons c rest ih =>
    rw [escapeChars, List.flatMap_cons, ih]
    split <;> rfl

/-- A character other than a colon is written without regard to what is before it. -/
theorem escapeChars_cons (before : Option Char) {c : Char} (rest : List Char)
    (h : c = ':' → before ≠ some 'm') :
    escapeChars (c :: rest) = shownBehind before c ++ escapeChars rest := by
  have hcolon : ¬(c = ':' ∧ before = some 'm') := fun ⟨hc, hm⟩ => h hc hm
  rw [escapeChars, shownBehind, if_neg hcolon]
  split <;> rfl

/-- Breaking up the marks and escaping the newlines is one pass, unless the text begins in the
middle of a mark. -/
theorem escapeChars_breakMarkChars {before : Option Char} {text : List Char}
    (h : text.head? = some ':' → before ≠ some 'm') :
    escapeChars (breakMarkChars text) = shownFrom before text := by
  induction text using breakMarkChars.induct generalizing before with
  | case1 rest ih =>
    -- A mark. What follows it begins behind a colon.
    have hrest := @ih (some ':') fun _ => by decide
    have hm : shownBehind before 'm' = ['m'] ∧ shownBehind (some 'm') ':' = ['\\', ':'] := by
      constructor <;> simp [shownBehind]
    rw [breakMarkChars, shownFrom_cons, shownFrom_cons, hm.1, hm.2, ← hrest]
    simp [escapeChars]
  | case2 c rest hnone ih =>
    have hrest := @ih (some c) fun hhead hc => by
      obtain ⟨more, rfl⟩ := List.head?_eq_some_iff.mp hhead
      exact hnone more (Option.some.inj hc) rfl
    rw [breakMarkChars, shownFrom_cons, ← hrest]
    · exact escapeChars_cons before _ fun hc => h (congrArg some hc)
    · exact hnone
  | case3 => rfl

/-- A message is written character by character. -/
theorem toList_messageText (text : String) :
    (messageText text).toList = shownFrom none text.toList := by
  rw [messageText, escapeNewlines, String.toList_ofList, String.toList_ofList]
  exact escapeChars_breakMarkChars fun _ => by simp

/-! ## What is written -/

/-- Characters are written as themselves, but for a backslash and an `n`. -/
theorem mem_shownFrom {before : Option Char} {text : List Char} {c : Char}
    (h : c ∈ shownFrom before text) : c ∈ text ∨ c = '\\' ∨ c = 'n' := by
  induction text generalizing before with
  | nil => exact absurd h List.not_mem_nil
  | cons first rest ih =>
    rw [shownFrom_cons, List.mem_append] at h
    rcases h with hfirst | hrest
    · unfold shownBehind at hfirst
      split_ifs at hfirst with hnewline hcolon
      · right
        simpa using hfirst
      · rw [hcolon.1]
        simp only [List.mem_cons, List.not_mem_nil, or_false] at hfirst ⊢
        tauto
      · exact .inl (List.mem_cons.mpr (.inl (List.mem_singleton.mp hfirst)))
    · exact (ih hrest).imp_left (List.mem_cons_of_mem first)

/-- Between two characters that stand next to each other there is no mark. -/
def Apart (a b : Char) : Prop :=
  ¬(a = 'm' ∧ b = ':')

/-- Behind a character, no text begins in such a way that a mark comes about. -/
theorem apart_head_shownFrom {before c : Char} {text : List Char}
    (h : (shownFrom (some before) text).head? = some c) : Apart before c := by
  rintro ⟨rfl, rfl⟩
  cases text with
  | nil => cases h
  | cons first rest =>
    rw [shownFrom_cons, shownBehind] at h
    split_ifs at h with hnewline hcolon
    · exact absurd h (by simp)
    · exact absurd h (by simp)
    · exact hcolon ⟨by simpa using h, rfl⟩

/-- In what is written, no colon stands behind an `m`. -/
theorem isChain_shownFrom (before : Option Char) (text : List Char) :
    (shownFrom before text).IsChain Apart := by
  induction text generalizing before with
  | nil => exact List.IsChain.nil
  | cons c rest ih =>
    have hrest := ih (some c)
    rw [shownFrom_cons, List.isChain_append]
    refine ⟨?_, hrest, ?_⟩
    · unfold shownBehind
      split_ifs <;> simp [Apart]
    · -- Only a character that is written as itself can end in an `m`.
      intro last hlast head hhead
      unfold shownBehind at hlast
      split_ifs at hlast with hnewline hcolon
      · obtain rfl : 'n' = last := by simpa using hlast
        simp [Apart]
      · obtain rfl : ':' = last := by simpa using hlast
        simp [Apart]
      · obtain rfl : c = last := by simpa using hlast
        exact apart_head_shownFrom hhead

/-- No mark of a message comes through. -/
theorem unmarked_messageText (text : String) : ¬['m', ':'] <:+: (messageText text).toList := by
  rintro ⟨front, back, hmark⟩
  have hchain := isChain_shownFrom none text.toList
  rw [← toList_messageText, ← hmark] at hchain
  have hpair := hchain.left_of_append.right_of_append
  rw [List.isChain_cons_cons] at hpair
  exact hpair.1 ⟨rfl, rfl⟩

/-- A message without bars is written without bars and newlines. -/
theorem not_mem_messageText {c : Char} (hc : c ∈ ['|', '\n']) {text : String}
    (h : Avoids ['|'] text) : c ∉ (messageText text).toList := by
  intro hmem
  simp only [List.mem_cons, List.not_mem_nil, or_false] at hc
  rcases hc with rfl | rfl
  · rw [toList_messageText] at hmem
    rcases mem_shownFrom hmem with hgiven | hbackslash | hletter
    · exact h '|' (by decide) hgiven
    · cases hbackslash
    · cases hletter
  · exact avoids_messageText text '\n' (by decide) hmem

end DogStatsD.Line
