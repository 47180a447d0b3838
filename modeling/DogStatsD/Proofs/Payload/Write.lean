import Mathlib.Data.String.Basic
import DogStatsD.Payload
import DogStatsD.Proofs.Line.Writer

/-!
# What a Write Does

A write goes through a payload in place, and cuts off what turns out too long. Seen from outside it
either appends a whole line or leaves the text and the number of lines alone.

* `writeSample_eq`: the line of a sample is appended exactly if both limits allow;
* `writeBatch_eq`: of a batch, the line of the first `batchRoom` values is appended;
* `write_cases`: a write of any entry appends the one line that its outcome tells, for which both
  limits leave room, or nothing.
-/

namespace DogStatsD.Payload

/-- Add a piece to the text without ending a line. -/
def extend (p : Payload) (piece : String) : Payload :=
  { p with text := p.text ++ piece }

/-- Append a line, whatever its size. -/
def append (p : Payload) (line : String) : Payload :=
  { p with text := p.text ++ line, lines := p.lines + 1 }

/-- Whether both limits leave room for a line. -/
def HasRoom (p : Payload) (line : String) : Prop :=
  p.lines < p.limits.maxLines ∧ p.size + line.utf8ByteSize ≤ p.limits.maxBytes

instance (p : Payload) (line : String) : Decidable (p.HasRoom line) :=
  inferInstanceAs (Decidable (_ ∧ _))

@[simp]
theorem hasLineRoom_iff (p : Payload) : p.hasLineRoom = true ↔ p.lines < p.limits.maxLines := by
  simp [hasLineRoom]

@[simp]
theorem limits_extend (p : Payload) (piece : String) : (p.extend piece).limits = p.limits := rfl

@[simp]
theorem size_extend (p : Payload) (piece : String) :
    (p.extend piece).size = p.size + piece.utf8ByteSize := by
  simp [extend, size]

@[simp]
theorem extend_extend (p : Payload) (first second : String) :
    (p.extend first).extend second = p.extend (first ++ second) := by
  simp [extend, String.append_assoc]

/-- Cutting back to the size of a text removes what was appended to it. -/
theorem extract_append (text line : String) :
    String.Pos.Raw.extract (text ++ line) 0 ⟨text.utf8ByteSize⟩ = text := by
  have h := String.extract_of_valid [] text.toList line.toList
  simpa [String.utf8Len_toList] using h

/-- Cutting a payload back removes what was added to its text. -/
@[simp]
theorem truncate_extend (p : Payload) (piece : String) :
    (p.extend piece).truncate p.size = p := by
  simp only [truncate, extend, size, extract_append]

/-- What was added to a text is kept as a line if it is within the limit. -/
theorem commit_extend (p : Payload) (line : String) :
    (p.extend line).commit p.size =
      if p.size + line.utf8ByteSize ≤ p.limits.maxBytes then (.ok 1, p.append line)
      else (.error .full, p) := by
  unfold commit
  -- What is too long was written already, and is cut off again.
  rw [limits_extend, size_extend, truncate_extend]
  by_cases hfit : p.size + line.utf8ByteSize ≤ p.limits.maxBytes
  · rw [if_neg (Nat.not_lt.mpr hfit), if_pos hfit]
    rfl
  · rw [if_pos (Nat.lt_of_not_le hfit), if_neg hfit]

/-! ## Samples -/

/-- The line of a sample is appended if both limits allow; otherwise nothing changes. -/
theorem writeSample_eq (o : Line.Options) (p : Payload) (s : Sample) :
    p.writeSample o s =
      if p.HasRoom (Line.ofSample o s) then (.ok 1, p.append (Line.ofSample o s))
      else (.error .full, p) := by
  have hput : { p with text := Line.putSample o s p.text } = p.extend (Line.ofSample o s) := by
    rw [Line.putSample_eq, extend]
  unfold writeSample HasRoom
  rw [hput, commit_extend]
  by_cases hlines : p.lines < p.limits.maxLines
  · simp only [hasLineRoom_iff, hlines, if_true, true_and]
  · simp only [hasLineRoom_iff, hlines, if_false, false_and]

/-- The line of a sample is written if and only if both limits allow. -/
theorem writeSample_ok_iff (o : Line.Options) (p : Payload) (s : Sample) :
    (p.writeSample o s).1 = .ok 1 ↔ p.HasRoom (Line.ofSample o s) := by
  rw [writeSample_eq]
  split <;> simp_all

/-- Where both limits allow, the line of a sample is appended. -/
theorem writeSample_of_hasRoom {o : Line.Options} {p : Payload} {s : Sample}
    (h : p.HasRoom (Line.ofSample o s)) :
    p.writeSample o s = (.ok 1, p.append (Line.ofSample o s)) := by
  rw [writeSample_eq, if_pos h]

/-- Where a limit forbids, nothing changes. -/
theorem writeSample_of_not_hasRoom {o : Line.Options} {p : Payload} {s : Sample}
    (h : ¬p.HasRoom (Line.ofSample o s)) : p.writeSample o s = (.error .full, p) := by
  rw [writeSample_eq, if_neg h]

/-! ## Batches -/

/-- How many of the texts can be written one after the other, each but the last followed by a
separator of one byte, when `used` bytes of `limit` are taken already. -/
def fitCount (limit used : Nat) : List String → Nat
  | [] => 0
  | text :: rest =>
    if used + text.utf8ByteSize ≤ limit then
      fitCount limit (used + text.utf8ByteSize + 1) rest + 1
    else 0

/-- No more fit than there are. -/
theorem fitCount_le_length (limit used : Nat) (texts : List String) :
    fitCount limit used texts ≤ texts.length := by
  induction texts generalizing used with
  | nil => simp [fitCount]
  | cons text rest ih =>
    unfold fitCount
    split
    · simpa using ih _
    · simp

/-- Nothing fits where the limit is passed already. -/
theorem fitCount_eq_zero {limit used : Nat} (h : limit < used) (texts : List String) :
    fitCount limit used texts = 0 := by
  cases texts with
  | nil => rfl
  | cons text rest => exact if_neg (by omega)

/-- What stands between a value and the `written` ones before it. -/
def separator (written : Nat) : String :=
  if written = 0 then "" else ":"

/-- What values add to a line that holds `written` values already. -/
def valuesText (written : Nat) : List Float → String
  | [] => ""
  | value :: rest =>
    separator written ++ Decimal.ofFloat value ++ valuesText (written + 1) rest

/-- Behind a value, every other one comes with a colon. -/
theorem valuesText_succ (written : Nat) (values : List Float) :
    valuesText (written + 1) values =
      String.join ((values.map Decimal.ofFloat).map (":" ++ ·)) := by
  induction values generalizing written with
  | nil => simp [valuesText]
  | cons value rest ih => simp [valuesText, separator, ih]

/-- From the start of a line, values are written with colons between them. -/
theorem valuesText_zero (values : List Float) :
    valuesText 0 values = ":".intercalate (values.map Decimal.ofFloat) := by
  cases values with
  | nil => simp [valuesText]
  | cons value rest =>
    rw [List.map_cons, Line.intercalate_cons, valuesText, valuesText_succ]
    simp [separator]

/-- Values are written as long as they leave room for the trailer. -/
theorem putValues_eq (p : Payload) (trailerSize written : Nat) (values : List Float) :
    p.putValues trailerSize written values =
      let count := fitCount p.limits.maxBytes
        (p.size + (separator written).utf8ByteSize + trailerSize) (values.map Decimal.ofFloat)
      (written + count, p.extend (valuesText written (values.take count))) := by
  induction values generalizing p written with
  | nil => simp [putValues, fitCount, valuesText, extend]
  | cons value rest ih =>
    -- One value is written with what separates it from those before it.
    have hput : { p with
          text := (if written = 0 then p.text else p.text ++ ":") ++ Decimal.ofFloat value } =
        p.extend (separator written ++ Decimal.ofFloat value) := by
      unfold separator extend
      split <;> simp [String.append_assoc]
    have hcolon : (separator (written + 1)).utf8ByteSize = 1 := rfl
    simp only [putValues, hput, size_extend, String.utf8ByteSize_append, truncate_extend,
      List.map_cons, fitCount]
    -- The write looks at the size after the value, the count at the room before it.
    by_cases hfit : p.size + (separator written).utf8ByteSize + trailerSize +
        (Decimal.ofFloat value).utf8ByteSize ≤ p.limits.maxBytes
    · have hused : p.size + ((separator written).utf8ByteSize +
            (Decimal.ofFloat value).utf8ByteSize) + 1 + trailerSize =
          p.size + (separator written).utf8ByteSize + trailerSize +
            (Decimal.ofFloat value).utf8ByteSize + 1 := by omega
      rw [if_neg (by omega), if_pos hfit, ih, limits_extend, size_extend, hcolon,
        String.utf8ByteSize_append, hused]
      simp only [extend_extend, List.take_succ_cons, valuesText, Nat.add_right_comm written 1,
        Nat.add_assoc]
    · rw [if_pos (by omega), if_neg hfit]
      simp [valuesText, extend]

/-- How many leading values of a batch fit together on one line. -/
def batchRoom (o : Line.Options) (p : Payload) (b : Batch) : Nat :=
  if p.lines < p.limits.maxLines then
    fitCount p.limits.maxBytes
      (p.size + (Line.header o b.context.name).utf8ByteSize + (Line.batchTrailer o b).utf8ByteSize)
      (b.values.map Decimal.ofFloat)
  else 0

/-- The outcome of writing `written` of `total` values. -/
def outcome (total written : Nat) : Except WriteError Nat :=
  if written = 0 then .error .full
  else if written < total then .error (.partly written)
  else .ok written

/-- A payload is full exactly if no value was written. -/
theorem outcome_eq_full_iff {total written : Nat} :
    outcome total written = .error .full ↔ written = 0 := by
  unfold outcome
  split_ifs with hnone <;> simp [hnone]

/-- A write in part tells how many values were written. -/
theorem eq_of_outcome_eq_partly {total written count : Nat}
    (h : outcome total written = .error (.partly count)) : written = count := by
  unfold outcome at h
  split_ifs at h with hnone hpart
  · cases h
  · cases h
    rfl

/-- A write in part has not written all values. -/
theorem lt_of_outcome_eq_partly {total written count : Nat}
    (h : outcome total written = .error (.partly count)) : count < total := by
  unfold outcome at h
  split_ifs at h with hnone hpart
  · cases h
  · cases h
    exact hpart

/-- A write that goes well has written all values. -/
theorem le_of_outcome_eq_ok {total written count : Nat} (h : outcome total written = .ok count) :
    total ≤ written := by
  unfold outcome at h
  split_ifs at h with hnone hpart
  · exact Nat.not_lt.mp hpart

/-- No more values fit than the batch has. -/
theorem batchRoom_le_length (o : Line.Options) (p : Payload) (b : Batch) :
    p.batchRoom o b ≤ b.values.length := by
  unfold batchRoom
  split
  · simpa using fitCount_le_length _ _ (b.values.map Decimal.ofFloat)
  · simp

/-- Of a batch, a line of as many leading values as fit is appended; nothing if not even one does.
Only the place where trailers are made up shows that the write was tried. -/
theorem writeBatch_eq (o : Line.Options) (p : Payload) (b : Batch) :
    ∃ scratch, p.writeBatch o b =
      (outcome b.values.length (p.batchRoom o b),
        if p.batchRoom o b = 0 then { p with scratch }
        else { p.append (Line.ofBatch o (b.take (p.batchRoom o b))) with scratch }) := by
  -- Without a line or a value the write does not even begin.
  by_cases hlines : p.lines < p.limits.maxLines
  case neg =>
    have hroom : p.batchRoom o b = 0 := if_neg hlines
    exact ⟨p.scratch, by simp [writeBatch, hlines, hroom, outcome]⟩
  by_cases hvalues : b.values = []
  · have hroom : p.batchRoom o b = 0 := by simp [batchRoom, hvalues, fitCount]
    exact ⟨p.scratch, by simp [writeBatch, hvalues, hroom, outcome]⟩
  refine ⟨Line.batchTrailer o b, ?_⟩
  -- From here on the payload written to differs from `p` in the trailer made up beside it.
  let q : Payload := { p with scratch := Line.batchTrailer o b }
  have htrailer : Line.putTrailer o b.kind b.context.tags b.rate b.context.cardinality none "" =
      Line.batchTrailer o b := by
    rw [Line.putTrailer_eq, Line.batchTrailer, String.empty_append]
  have hheader : { p with
        text := Line.putHeader o b.context.name p.text, scratch := Line.batchTrailer o b } =
      q.extend (Line.header o b.context.name) := by
    rw [Line.putHeader_eq, extend]
  have hsize : q.size = p.size := rfl
  have hlimits : q.limits = p.limits := rfl
  have hroom : p.batchRoom o b = fitCount p.limits.maxBytes
      (p.size + (Line.header o b.context.name).utf8ByteSize + (Line.batchTrailer o b).utf8ByteSize)
      (b.values.map Decimal.ofFloat) := if_pos hlines
  have hstart : (!p.hasLineRoom || b.values.isEmpty) = false := by simp [hlines, hvalues]
  simp only [writeBatch, hstart, htrailer, hheader, size_extend, hsize, Bool.false_eq_true,
    if_false]
  by_cases hlong : p.limits.maxBytes < p.size + (Line.header o b.context.name).utf8ByteSize +
      (Line.batchTrailer o b).utf8ByteSize
  · -- Header and trailer alone are too long: no value is tried.
    have hnone : p.batchRoom o b = 0 := hroom.trans (fitCount_eq_zero hlong _)
    rw [if_pos hlong, hnone, ← hsize, truncate_extend]
    rfl
  · have hput := putValues_eq (q.extend (Line.header o b.context.name))
      (Line.batchTrailer o b).utf8ByteSize 0 b.values
    have hsep : (separator 0).utf8ByteSize = 0 := rfl
    simp only [limits_extend, size_extend, hsize, hlimits, hsep, Nat.add_zero, ← hroom,
      extend_extend, Nat.zero_add, valuesText_zero] at hput
    rw [if_neg hlong, hput]
    by_cases hnone : p.batchRoom o b = 0
    · -- The header is cut off again.
      simp only [hnone, if_true]
      rw [← hsize, truncate_extend]
      rfl
    · simp only [hnone, if_false, outcome]
      congr 1
      simp [extend, append, Line.ofBatch, Batch.take, Line.batchTrailer, q, String.append_assoc]

/-- Values that fit are within the limit, together with what is taken already. -/
theorem size_valuesText_le {limit used written : Nat} (values : List Float)
    (hpos : fitCount limit (used + (separator written).utf8ByteSize)
      (values.map Decimal.ofFloat) ≠ 0) :
    used + (valuesText written (values.take (fitCount limit
      (used + (separator written).utf8ByteSize) (values.map Decimal.ofFloat)))).utf8ByteSize ≤
        limit := by
  induction values generalizing used written with
  | nil => simp [fitCount] at hpos
  | cons value rest ih =>
    rw [List.map_cons, fitCount] at hpos ⊢
    split at hpos
    case isFalse => simp at hpos
    next hfit =>
      rw [if_pos hfit, List.take_succ_cons, valuesText]
      have hcolon : (separator (written + 1)).utf8ByteSize = 1 := rfl
      have hrest := @ih (used + (separator written).utf8ByteSize +
        (Decimal.ofFloat value).utf8ByteSize) (written + 1)
      rw [hcolon] at hrest
      -- The bound on the rest counts a colon, which is there only if there is a rest.
      by_cases hlast : fitCount limit (used + (separator written).utf8ByteSize +
          (Decimal.ofFloat value).utf8ByteSize + 1) (rest.map Decimal.ofFloat) = 0
      · rw [hlast]
        simp only [List.take_zero, valuesText, String.utf8ByteSize_append,
          String.utf8ByteSize_empty]
        omega
      · have hle := hrest hlast
        simp only [String.utf8ByteSize_append]
        omega

/-- The line of the values of a batch that fit is within the limit. -/
theorem size_ofBatch_le {o : Line.Options} {p : Payload} {b : Batch}
    (hpos : p.batchRoom o b ≠ 0) :
    p.size + (Line.ofBatch o (b.take (p.batchRoom o b))).utf8ByteSize ≤ p.limits.maxBytes := by
  have hlines : p.lines < p.limits.maxLines := by
    by_contra hfull
    exact hpos (if_neg hfull)
  have hsep : (separator 0).utf8ByteSize = 0 := rfl
  have hroom : p.batchRoom o b = fitCount p.limits.maxBytes
      (p.size + (Line.header o b.context.name).utf8ByteSize + (Line.batchTrailer o b).utf8ByteSize +
        (separator 0).utf8ByteSize)
      (b.values.map Decimal.ofFloat) := if_pos hlines
  -- Header and trailer are what is taken already.
  have hle := size_valuesText_le b.values (hroom ▸ hpos)
  rw [← hroom, valuesText_zero] at hle
  simp only [Line.ofBatch, Batch.take, Line.batchTrailer, String.utf8ByteSize_append] at hle ⊢
  omega

/-! ## Entries -/

/-- The lines that a write with the given outcome has appended. -/
def written (o : Line.Options) : Entry → Except WriteError Nat → List String
  | .sample s, .ok _ => [Line.ofSample o s]
  | .batch b, .ok count | .batch b, .error (.partly count) => [Line.ofBatch o (b.take count)]
  | .sample _, .error _ | .batch _, .error .full => []

/-- A write appends nothing, or the one line that its outcome tells if both limits allow. -/
theorem write_cases (o : Line.Options) (p : Payload) (e : Entry) :
    (written o e (p.write o e).1 = [] ∧ (p.write o e).2.text = p.text ∧
      (p.write o e).2.lines = p.lines) ∨
    (∃ line, written o e (p.write o e).1 = [line] ∧ p.HasRoom line ∧
      (p.write o e).2.text = p.text ++ line ∧ (p.write o e).2.lines = p.lines + 1) := by
  cases e with
  | sample s =>
    by_cases hroom : p.HasRoom (Line.ofSample o s)
    · refine .inr ⟨Line.ofSample o s, ?_, hroom, ?_, ?_⟩ <;>
        simp [write, writeSample_eq, hroom, written, append]
    · exact .inl (by simp [write, writeSample_eq, hroom, written])
  | batch b =>
    obtain ⟨scratch, hwrite⟩ := writeBatch_eq o p b
    simp only [write, hwrite]
    by_cases hnone : p.batchRoom o b = 0
    · exact .inl (by simp [hnone, outcome, written])
    · have hlines : p.lines < p.limits.maxLines := by
        by_contra hfull
        exact hnone (if_neg hfull)
      refine .inr ⟨Line.ofBatch o (b.take (p.batchRoom o b)), ?_,
        ⟨hlines, size_ofBatch_le hnone⟩, ?_, ?_⟩
      · unfold outcome
        rw [if_neg hnone]
        split <;> rfl
      · simp [hnone, append]
      · simp [hnone, append]

/-- A write appends the lines that its outcome tells of. -/
theorem text_write (o : Line.Options) (p : Payload) (e : Entry) :
    (p.write o e).2.text = p.text ++ String.join (written o e (p.write o e).1) := by
  obtain ⟨hwritten, htext, -⟩ | ⟨line, hwritten, -, htext, -⟩ := write_cases o p e
  · rw [hwritten, htext, String.join_nil, String.append_empty]
  · rw [hwritten, htext, String.join_cons, String.join_nil, String.append_empty]

/-- A write leaves the limits alone. -/
@[simp]
theorem limits_write (o : Line.Options) (p : Payload) (e : Entry) :
    (p.write o e).2.limits = p.limits := by
  cases e with
  | sample s =>
    simp only [write, writeSample_eq]
    split <;> rfl
  | batch b =>
    obtain ⟨scratch, hwrite⟩ := writeBatch_eq o p b
    simp only [write, hwrite]
    split <;> rfl

end DogStatsD.Payload
