import DogStatsD.Proofs.Payload.Write
import Mathlib.Data.Nat.Find

/-!
# Longest Prefixes

A batch is written value by value, with the trailer made up beside the payload, until a value leaves
no room for the trailer. What is found that way is the longest prefix of the values whose line fits,
taken over all prefixes at once.

* `PrefixFits`: whether the line of a prefix fits behind what a payload holds;
* `le_fitCount_iff`: counting the texts that fit one after the other is looking at the size of a
  whole prefix;
* `findGreatest_prefixFits`: the number of values written is that of the longest prefix that fits;
* `writeBatch_takes_longest_prefix`: the outcome and the bytes of writing a batch, and that a batch
  of one value is written as a metric is.
-/

namespace DogStatsD

/-- The value of a single observation, of a kind whose values are floating-point numbers. -/
def Value.ofFloat? (x : Float) : Kind → Option Value
  | .gauge => some (.gauge x)
  | .histogram => some (.histogram x)
  | .distribution => some (.distribution x)
  | .timing => some (.timing x)
  | .count | .set => none

/-- A metric that has everything in common with a batch but the values. -/
def Batch.metric (b : Batch) (value : Value) : Metric :=
  { b.context.metric value with rate := b.rate }

/-- The line of a single observation is the line of the batch that holds nothing else. -/
theorem Line.ofMetric_metric (o : Line.Options) {b : Batch} {x : Float} {value : Value}
    (hvalues : b.values = [x]) (hvalue : Value.ofFloat? x b.kind = some value) :
    Line.ofMetric o (b.metric value) = Line.ofBatch o b := by
  have hkind : value.kind = b.kind ∧ Line.valueText value = Decimal.ofFloat x := by
    cases hb : b.kind <;> rw [hb] at hvalue <;> cases hvalue <;> exact ⟨rfl, rfl⟩
  obtain ⟨hkind, htext⟩ := hkind
  have htrailer : Line.trailer o (b.metric value).kind (b.metric value).tags (b.metric value).rate
      (b.metric value).cardinality (b.metric value).timestamp = Line.batchTrailer o b := by
    rw [Line.batchTrailer, ← hkind]
    rfl
  have hone : ":".intercalate (b.values.map Decimal.ofFloat) =
      Line.valueText (b.metric value).value := by
    rw [hvalues, List.map_singleton, String.intercalate_singleton]
    exact htext.symm
  rw [Line.ofMetric, htrailer, Line.ofBatch, hone]
  rfl

namespace Payload

/-! ## Prefixes that fit -/

/-- Whether a payload has room for the line of the first `count` values of a batch, which are one at
least. -/
def PrefixFits (o : Line.Options) (p : Payload) (b : Batch) (count : Nat) : Prop :=
  p.lines < p.limits.maxLines ∧ 1 ≤ count ∧
    p.size + (Line.header o b.context.name).utf8ByteSize +
      (":".intercalate ((b.values.take count).map Decimal.ofFloat)).utf8ByteSize +
      (Line.batchTrailer o b).utf8ByteSize ≤ p.limits.maxBytes

instance (o : Line.Options) (p : Payload) (b : Batch) : DecidablePred (p.PrefixFits o b) :=
  fun _ => inferInstanceAs (Decidable (_ ∧ _ ∧ _))

/-- Before texts with colons between them, one more text comes with a colon. -/
theorem utf8ByteSize_intercalate_cons (text : String) {rest : List String} (hne : rest ≠ []) :
    (":".intercalate (text :: rest)).utf8ByteSize =
      text.utf8ByteSize + 1 + (":".intercalate rest).utf8ByteSize := by
  obtain ⟨next, more, rfl⟩ := List.exists_cons_of_ne_nil hne
  rw [String.intercalate_cons_cons, String.utf8ByteSize_append, String.utf8ByteSize_append]
  rfl

/-- The texts that fit one after the other are at least so many exactly if so many fit together. -/
theorem le_fitCount_iff {limit used count : Nat} {texts : List String} (hpos : 0 < count)
    (hle : count ≤ texts.length) :
    count ≤ fitCount limit used texts ↔
      used + (":".intercalate (texts.take count)).utf8ByteSize ≤ limit := by
  induction texts generalizing used count with
  | nil => exact absurd hle (Nat.not_le.mpr hpos)
  | cons text rest ih =>
    obtain ⟨more, rfl⟩ := Nat.exists_eq_add_of_lt hpos
    rw [Nat.zero_add, List.take_succ_cons, fitCount]
    have hrest : more ≤ rest.length := by simpa using hle
    rcases Nat.eq_zero_or_pos more with rfl | hmore
    · -- The first text alone.
      rw [List.take_zero, String.intercalate_singleton]
      split <;> omega
    · -- The first text and a colon are behind what was there, before the others.
      have hne : rest.take more ≠ [] := by
        rw [← List.length_pos_iff, List.length_take]
        omega
      rw [utf8ByteSize_intercalate_cons text hne]
      split
      · rw [Nat.add_le_add_iff_right, ih hmore hrest]
        omega
      · omega

/-- There is room for a prefix exactly if it has no more values than are written. -/
theorem prefixFits_iff {o : Line.Options} {p : Payload} {b : Batch} {count : Nat}
    (hpos : 0 < count) (hle : count ≤ b.values.length) :
    p.PrefixFits o b count ↔ count ≤ p.batchRoom o b := by
  unfold PrefixFits batchRoom
  split
  next hlines =>
    rw [le_fitCount_iff hpos (by simpa using hle), ← List.map_take]
    constructor
    · rintro ⟨-, -, hsize⟩
      omega
    · intro hsize
      exact ⟨hlines, hpos, by omega⟩
  next hfull =>
    constructor
    · rintro ⟨hlines, -⟩
      exact absurd hlines hfull
    · intro hzero
      omega

/-- As many values are written as the longest prefix has for which there is room. -/
theorem findGreatest_prefixFits (o : Line.Options) (p : Payload) (b : Batch) :
    Nat.findGreatest (p.PrefixFits o b) b.values.length = p.batchRoom o b := by
  have hle := batchRoom_le_length o p b
  rw [Nat.findGreatest_eq_iff]
  -- What is written fits, and nothing longer does.
  refine ⟨hle, fun hne => ?_, fun count hlt hcount hfits => ?_⟩
  · exact (prefixFits_iff (Nat.pos_of_ne_zero hne) hle).mpr (Nat.le_refl _)
  · have := (prefixFits_iff (by omega) hcount).mp hfits
    omega

/-! ## Batches of one value -/

/-- There is room for the only value of a batch exactly if there is for its line. -/
theorem batchRoom_singleton {o : Line.Options} {p : Payload} {b : Batch} {x : Float}
    (hvalues : b.values = [x]) :
    p.batchRoom o b = if p.HasRoom (Line.ofBatch o b) then 1 else 0 := by
  have hone : p.PrefixFits o b 1 ↔ p.HasRoom (Line.ofBatch o b) := by
    simp only [PrefixFits, HasRoom, Line.ofBatch, hvalues, String.utf8ByteSize_append,
      List.take_succ_cons, List.take_zero, Nat.le_refl, true_and, Nat.add_assoc]
  have hle := batchRoom_le_length o p b
  rw [prefixFits_iff Nat.one_pos (by simp [hvalues])] at hone
  rw [hvalues, List.length_singleton] at hle
  split
  next hroom => exact Nat.le_antisymm hle (hone.mpr hroom)
  next hnone =>
    have := mt hone.mp hnone
    omega

/-- Writing a single observation as a metric and writing it as a batch come to the same. -/
theorem writeSample_metric {o : Line.Options} {p : Payload} {b : Batch} {x : Float} {value : Value}
    (hvalues : b.values = [x]) (hvalue : Value.ofFloat? x b.kind = some value) :
    (p.writeSample o (.metric (b.metric value))).1 = (p.writeBatch o b).1 ∧
      (p.writeSample o (.metric (b.metric value))).2.text = (p.writeBatch o b).2.text ∧
      (p.writeSample o (.metric (b.metric value))).2.lines = (p.writeBatch o b).2.lines := by
  obtain ⟨scratch, hwrite⟩ := writeBatch_eq o p b
  have hline : Line.ofSample o (.metric (b.metric value)) = Line.ofBatch o b :=
    Line.ofMetric_metric o hvalues hvalue
  have hwhole : b.take 1 = b := by
    rw [Batch.take, List.take_of_length_le (by simp [hvalues])]
  rw [hwrite, writeSample_eq, hline, batchRoom_singleton hvalues, hvalues]
  by_cases hroom : p.HasRoom (Line.ofBatch o b)
  · simp [hroom, hwhole, outcome, append]
  · simp [hroom, outcome]

/-- Of a batch of `n` values, a payload takes the longest prefix for whose line both limits leave
room. Where this is all of them, the write goes well; where it is none, as it is of no values, the
payload is full and keeps its bytes and lines; otherwise the outcome tells how many there are. What
is appended is one line, of the header, the values with colons between them, and the trailer. A
batch of one value is written with the same outcome and the same bytes as a metric with that value
and the same name, tags, rate and cardinality, and without a timestamp. -/
theorem writeBatch_takes_longest_prefix (o : Line.Options) (p : Payload) (b : Batch) :
    let n := b.values.length
    let k := Nat.findGreatest (p.PrefixFits o b) n
    let q := (p.writeBatch o b).2
    (p.writeBatch o b).1 =
      (if k = 0 then .error .full else if k < n then .error (.partly k) else .ok n) ∧
    (n = 0 → k = 0) ∧
    (k = 0 → q.text = p.text ∧ q.lines = p.lines) ∧
    (0 < k →
      q.text = p.text ++ (Line.header o b.context.name ++
        ":".intercalate ((b.values.take k).map Decimal.ofFloat) ++ Line.batchTrailer o b) ∧
      q.lines = p.lines + 1) ∧
    q.limits = p.limits ∧
    ∀ x value, b.values = [x] → Value.ofFloat? x b.kind = some value →
      let m := b.metric value
      (m.name = b.context.name ∧ m.value = value ∧ m.tags = b.context.tags ∧ m.rate = b.rate ∧
        m.cardinality = b.context.cardinality ∧ m.timestamp = none) ∧
      (p.writeSample o (.metric m)).1 = (p.writeBatch o b).1 ∧
      (p.writeSample o (.metric m)).2.text = q.text ∧
      (p.writeSample o (.metric m)).2.lines = q.lines := by
  intro n k q
  have hk : k = p.batchRoom o b := findGreatest_prefixFits o p b
  have hle : k ≤ n := hk ▸ batchRoom_le_length o p b
  obtain ⟨scratch, hwrite⟩ := writeBatch_eq o p b
  have hq : q = if k = 0 then { p with scratch }
      else { p.append (Line.ofBatch o (b.take k)) with scratch } := by
    rw [hk]
    exact congrArg Prod.snd hwrite
  refine ⟨?_, fun hn => by omega, fun hnone => ?_, fun hsome => ?_, ?_,
    fun x value hvalues hvalue =>
      ⟨⟨rfl, rfl, rfl, rfl, rfl, rfl⟩, writeSample_metric hvalues hvalue⟩⟩
  · rw [hwrite, ← hk, outcome]
    -- A prefix that is not shorter than the whole is the whole.
    split_ifs with hnone hpart
    · rfl
    · rfl
    · exact congrArg Except.ok (Nat.le_antisymm hle (Nat.not_lt.mp hpart))
  · rw [hq, if_pos hnone]
    exact ⟨rfl, rfl⟩
  · rw [hq, if_neg (Nat.ne_of_gt hsome)]
    exact ⟨rfl, rfl⟩
  · rw [hq]
    split <;> rfl

/-- Both values take 12 bytes: where one byte less is left, only the first is written. -/
example :
    let b : Batch := ⟨.histogram, { name := "ab" }, [1.5, 25], 1.0⟩
    (({ limits := ⟨12, 1⟩ } : Payload).writeBatch {} b).1 = .ok 2 ∧
      (({ limits := ⟨11, 1⟩ } : Payload).writeBatch {} b).1 = .error (.partly 1) := by
  decide +kernel

end Payload

end DogStatsD
