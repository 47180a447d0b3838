import DogStatsD.Decimal.Layout
import DogStatsD.Proofs.Server.Reader
import Mathlib.Algebra.BigOperators.Group.List.Basic
import Mathlib.Data.BitVec
import Mathlib.Data.Finset.Insert
import Mathlib.Data.List.Induction
import Mathlib.Data.Multiset.AddSub

/-!
# What a Server Keeps

A server folds the points that arrive, in the order of their arrival, into a cell for each key:
counts add up modulo `2 ^ 64`, of a gauge the last value stands, sets keep their members, and all
other observations are kept as often as they arrive.

* `Server.State.ofPoints`, `Server.State.ofPayloads`: the state after some points, and after some
  payloads;
* `Server.ofPoints_apply`: a cell depends only on the texts that arrive under its key;
* `Server.ofPoints_append_congr`: points that leave the same state are interchangeable;
* `Server.ofPoints_perm`: the order matters to gauges only.
-/

namespace DogStatsD.Server

/-- What a server keeps of the values under one key. -/
inductive Cell where
  | count (total : BitVec 64)
  | gauge (last : String)
  | set (members : Finset String)
  /-- The texts of all values observed. -/
  | observations (values : Multiset String)

def readInt (text : String) : Int :=
  match text.toList with
  | '-' :: digits => -(Nat.ofDigitChars 10 digits 0)
  | digits => Nat.ofDigitChars 10 digits 0

namespace Cell

/-- The total so far; none before the first value. -/
def total : Option Cell → BitVec 64
  | some (.count total) => total
  | _ => 0

/-- The members so far. -/
def members : Option Cell → Finset String
  | some (.set members) => members
  | _ => ∅

/-- The values observed so far. -/
def values : Option Cell → Multiset String
  | some (.observations values) => values
  | _ => 0

/-- Take a value in. What is done with it depends on the type mark. -/
def absorb (mark : String) (cell : Option Cell) (text : String) : Option Cell :=
  if mark = "c" then some (.count (total cell + BitVec.ofInt 64 (readInt text)))
  else if mark = "g" then some (.gauge text)
  else if mark = "s" then some (.set (insert text (members cell)))
  else some (.observations (text ::ₘ values cell))

end Cell

/-- What a server keeps of each key. -/
abbrev State := SeriesKey → Option Cell

namespace State

/-- Take a point in. -/
def absorb (s : State) (point : Point) : State :=
  Function.update s point.1 (Cell.absorb point.1.mark (s point.1) point.2)

/-- The state after some points. -/
def ofPoints (points : List Point) : State :=
  points.foldl absorb fun _ => none

/-- The state after some payloads, in the order in which they were delivered. -/
def ofPayloads (payloads : List String) : State :=
  ofPoints (payloads.flatMap pointsIn)

end State

/-! ## Cells -/

/-- The texts that arrive under a key. -/
def textsAt (key : SeriesKey) (points : List Point) : List String :=
  (points.filter (·.1 = key)).map Prod.snd

@[simp]
theorem textsAt_append (key : SeriesKey) (front back : List Point) :
    textsAt key (front ++ back) = textsAt key front ++ textsAt key back := by
  simp [textsAt]

/-- A cell takes in the texts under its key, and those under other keys leave it alone. -/
theorem foldl_absorb (key : SeriesKey) (points : List Point) (s : State) :
    points.foldl State.absorb s key =
      (textsAt key points).foldl (Cell.absorb key.mark) (s key) := by
  induction points generalizing s with
  | nil => rfl
  | cons point rest ih =>
    rw [List.foldl_cons, ih]
    by_cases hkey : point.1 = key
    · subst hkey
      simp [textsAt, State.absorb]
    · simp [textsAt, State.absorb, hkey, Ne.symm hkey]

/-- A cell depends only on the texts that arrive under its key. -/
theorem ofPoints_apply (key : SeriesKey) (points : List Point) :
    State.ofPoints points key = (textsAt key points).foldl (Cell.absorb key.mark) none :=
  foldl_absorb key points _

/-- What is kept of some texts. -/
def Cell.ofTexts (mark : String) (texts : List String) : Cell :=
  if mark = "c" then .count (BitVec.ofInt 64 (texts.map readInt).sum)
  else if mark = "g" then .gauge (texts.getLastD "")
  else if mark = "s" then .set texts.toFinset
  else .observations texts

/-- One text after the other amounts to all of them at once. -/
theorem foldl_cell (mark : String) (texts : List String) :
    texts.foldl (Cell.absorb mark) none =
      if texts = [] then none else some (Cell.ofTexts mark texts) := by
  induction texts using List.reverseRecOn with
  | nil => rfl
  | append_singleton texts text ih =>
    -- Texts are taken in at the end, which is why they are taken off there.
    have hne : texts ++ [text] ≠ [] := by simp
    rw [List.foldl_append, ih, if_neg hne, List.foldl_cons, List.foldl_nil]
    unfold Cell.absorb Cell.ofTexts
    -- The first text is taken in by an empty cell, each other one by the cell of those before it.
    by_cases hcount : mark = "c"
    · by_cases hnil : texts = [] <;> simp [hcount, hnil, Cell.total, BitVec.ofInt_add]
    by_cases hgauge : mark = "g"
    · simp [hgauge]
    by_cases hset : mark = "s"
    · by_cases hnil : texts = [] <;> simp [hset, hnil, Cell.members]
    · have hperm := (List.perm_append_singleton text texts).symm
      by_cases hnil : texts = [] <;> simp [hcount, hgauge, hset, hnil, Cell.values, hperm]

/-- The same is kept of texts that amount to the same. -/
theorem foldl_cell_congr {mark : String} {texts others : List String} (htexts : texts ≠ [])
    (hothers : others ≠ []) (h : Cell.ofTexts mark texts = Cell.ofTexts mark others) :
    texts.foldl (Cell.absorb mark) none = others.foldl (Cell.absorb mark) none := by
  rw [foldl_cell, foldl_cell, if_neg htexts, if_neg hothers, h]

/-- The order of the texts matters to gauges only. -/
theorem foldl_cell_perm {mark : String} (hmark : mark ≠ "g") {texts others : List String}
    (h : texts.Perm others) :
    texts.foldl (Cell.absorb mark) none = others.foldl (Cell.absorb mark) none := by
  by_cases hnil : texts = []
  · subst hnil
    rw [h.nil_eq]
  · refine foldl_cell_congr hnil (fun hothers => hnil (hothers ▸ h).eq_nil) ?_
    unfold Cell.ofTexts
    rw [if_neg hmark, if_neg hmark, (h.map readInt).sum_eq, List.toFinset_eq_of_perm _ _ h,
      Multiset.coe_eq_coe.mpr h]

/-- What is kept of two sequences of values, the second one behind the first. -/
def Cell.join (mark : String) (front : Option Cell) : Option Cell → Option Cell
  | none => front
  | some back =>
    if mark = "c" then some (.count (total front + total (some back)))
    else if mark = "g" then some back
    else if mark = "s" then some (.set (members front ∪ members (some back)))
    else some (.observations (values front + values (some back)))

/-- One more value comes behind both. -/
theorem absorb_join (mark : String) (front back : Option Cell) (text : String) :
    Cell.absorb mark (Cell.join mark front back) text =
      Cell.join mark front (Cell.absorb mark back text) := by
  unfold Cell.absorb
  by_cases hcount : mark = "c"
  · cases back <;> simp [hcount, Cell.join, Cell.total, BitVec.add_assoc]
  by_cases hgauge : mark = "g"
  · simp [hgauge, Cell.join]
  by_cases hset : mark = "s"
  · cases back <;> simp [hset, Cell.join, Cell.members]
  · simp only [hcount, hgauge, hset, if_false]
    -- Multisets are added to at the front, and joined by sums.
    have hcons (values : Multiset String) : text ::ₘ values = values + text ::ₘ 0 := by
      rw [Multiset.add_cons, Multiset.add_zero]
    cases back with
    | none =>
      simp only [Cell.join, hcount, hgauge, hset, if_false]
      exact congrArg (some ∘ Cell.observations) (hcons _)
    | some back => simp [Cell.join, hcount, hgauge, hset, Cell.values]

/-- What a cell has taken in is joined from what it held and what came then. -/
theorem foldl_cell_join (mark : String) (cell : Option Cell) (texts : List String) :
    texts.foldl (Cell.absorb mark) cell =
      Cell.join mark cell (texts.foldl (Cell.absorb mark) none) := by
  induction texts using List.reverseRecOn with
  | nil => rfl
  | append_singleton texts text ih =>
    rw [List.foldl_append, List.foldl_append, ih]
    exact absorb_join mark cell _ text

/-! ## States -/

variable {front front' back back' : List Point}

/-- Each cell of the state after some points is joined from what came first and what came then. -/
theorem ofPoints_append (front back : List Point) (key : SeriesKey) :
    State.ofPoints (front ++ back) key =
      Cell.join key.mark (State.ofPoints front key) (State.ofPoints back key) := by
  rw [ofPoints_apply, textsAt_append, List.foldl_append, foldl_cell_join, ← ofPoints_apply,
    ← ofPoints_apply]

/-- Points that leave the same state are interchangeable. -/
theorem ofPoints_append_congr (hfront : State.ofPoints front = State.ofPoints front')
    (hback : State.ofPoints back = State.ofPoints back') :
    State.ofPoints (front ++ back) = State.ofPoints (front' ++ back') := by
  funext key
  rw [ofPoints_append, ofPoints_append, hfront, hback]

/-- Points leave the same state if the same texts arrive under each key. -/
theorem ofPoints_congr (h : ∀ key, textsAt key front = textsAt key back) :
    State.ofPoints front = State.ofPoints back := by
  funext key
  rw [ofPoints_apply, ofPoints_apply, h]

/-- In another order, points leave the same state unless gauges change. -/
theorem ofPoints_perm (hperm : front.Perm back)
    (hgauges : ∀ key, key.mark = "g" → textsAt key front = textsAt key back) :
    State.ofPoints front = State.ofPoints back := by
  funext key
  rw [ofPoints_apply, ofPoints_apply]
  by_cases hgauge : key.mark = "g"
  · rw [hgauges key hgauge]
  · exact foldl_cell_perm hgauge ((hperm.filter _).map _)

/-! ## Reading integers -/

/-- The text of an integer is read back. -/
theorem readInt_ofInt (n : Int) : readInt (Decimal.ofInt n) = n := by
  have htext : (Decimal.ofInt n).toList = Decimal.intChars n := String.toList_ofList
  have hdigits (n : Nat) : Nat.ofDigitChars 10 (Decimal.digitChars n) 0 = n :=
    Nat.ofDigitChars_ten_toDigits
  unfold readInt
  rw [htext]
  cases n with
  | negSucc n =>
    show -((Nat.ofDigitChars 10 (Decimal.digitChars (n + 1)) 0 : Nat) : Int) = _
    rw [hdigits]
    rfl
  | ofNat n =>
    show (match Decimal.digitChars n with
      | '-' :: digits => -((Nat.ofDigitChars 10 digits 0 : Nat) : Int)
      | digits => Nat.ofDigitChars 10 digits 0) = _
    split
    next digits hminus =>
      -- A minus sign is no digit.
      have hdigit : '-'.isDigit = true :=
        Nat.isDigit_of_mem_toDigits (by decide) (by decide) (hminus ▸ List.mem_cons_self)
      cases hdigit
    next => exact congrArg Int.ofNat (hdigits n)

end DogStatsD.Server
