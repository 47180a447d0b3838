import DogStatsD.Proofs.Packer.Acts

/-!
# What Is Written for an Entry

To add an entry, a packer writes lines of that entry and of no other, and unless the entry is an
empty batch, it writes at least one or counts the entry as dropped.

* `Entry.IsLine`: a line of a sample, or of some values of a batch that follow each other;
* `Packer.isLine_of_mem_encoded`: what is written for an entry are lines of it;
* `Packer.Comes`: the last thing done is to drop the entry or to write a line;
* `Packer.drop_mem_acts_or_encoded_ne_nil`: an entry that has something to write is dropped, or some
  of it is written.
-/

namespace DogStatsD

namespace Entry

/-- An entry that has something to write. -/
def IsFull : Entry → Prop
  | .sample _ => True
  | .batch b => b.values ≠ []

/-- A line of an entry: the line of a sample, or a line of some values of a batch that follow each
other there, with the context, the kind and the rate of the batch. -/
def IsLine (options : Line.Options) : Entry → String → Prop
  | .sample s, line => line = Line.ofSample options s
  | .batch b, line =>
    ∃ values, values ≠ [] ∧ values <:+: b.values ∧ line = Line.ofBatch options { b with values }

/-- A line of the rest of a batch is a line of the batch. -/
theorem IsLine.of_drop {options : Line.Options} {b : Batch} {count : Nat} {line : String}
    (h : (Entry.batch (b.drop count)).IsLine options line) :
    (Entry.batch b).IsLine options line := by
  obtain ⟨values, hne, hinfix, rfl⟩ := h
  exact ⟨values, hne, hinfix.trans (List.drop_suffix count b.values).isInfix, rfl⟩

end Entry

/-- What a write appends is a line of the entry. -/
theorem Payload.isLine_of_mem_written {options : Line.Options} {p : Payload} {e : Entry}
    {line : String} (h : line ∈ written options e (p.write options e).1) :
    e.IsLine options line := by
  cases e with
  | sample s =>
    by_cases hroom : p.HasRoom (Line.ofSample options s)
    · simpa [write, writeSample_eq, hroom, written, Entry.IsLine] using h
    · simp [write, writeSample_eq, hroom, written] at h
  | batch b =>
    obtain ⟨scratch, hwrite⟩ := writeBatch_eq options p b
    simp only [write, hwrite] at h
    by_cases hnone : p.batchRoom options b = 0
    · simp [hnone, outcome, written] at h
    · have hwritten : written options (.batch b) (outcome b.values.length (p.batchRoom options b)) =
          [Line.ofBatch options (b.take (p.batchRoom options b))] := by
        unfold outcome
        rw [if_neg hnone]
        split <;> rfl
      rw [hwritten, List.mem_singleton] at h
      refine ⟨b.values.take (p.batchRoom options b), ?_, (List.take_prefix _ _).isInfix, h⟩
      -- There is a value for as much room as there is.
      have hle := p.batchRoom_le_length options b
      rw [← List.length_pos_iff, List.length_take]
      omega

namespace Packer

variable {τ : Type} {p : Packer} {o : Outbox τ} {b : Batch} {e : Entry} {line : String}

/-! ## Lines of an entry -/

/-- To add some values of a batch, a packer writes nothing but that batch. -/
theorem eq_of_write_mem_actsOfSome {part : Entry} (hpart : Act.write part ∈ p.actsOfSome b) :
    part = .batch b := by
  unfold actsOfSome at hpart
  split at hpart <;> simpa using hpart

/-- To add a batch, a packer writes nothing but parts of it. -/
theorem isLine_of_mem_actsOfBatch {options : Line.Options} {part : Entry}
    (hpart : Act.write part ∈ p.actsOfBatch o b) (hline : part.IsLine options line) :
    (Entry.batch b).IsLine options line := by
  fun_induction actsOfBatch p o b with
  | case1 p o b hnone => cases hpart
  | case2 p o b hne written q oq hsome => exact eq_of_write_mem_actsOfSome hpart ▸ hline
  | case3 p o b hne q oq hsome =>
    obtain hsome | hdrop := List.mem_append.mp hpart
    · exact eq_of_write_mem_actsOfSome hsome ▸ hline
    · cases List.mem_singleton.mp hdrop
  | case4 p o b hne written q later hsome ih =>
    obtain hsome | hrest := List.mem_append.mp hpart
    · exact eq_of_write_mem_actsOfSome hsome ▸ hline
    · obtain hover | hrest := List.mem_cons.mp hrest
      · cases hover
      · exact (ih hrest).of_drop

/-- To add an entry, a packer writes nothing but parts of it. -/
theorem isLine_of_mem_acts {options : Line.Options} {part : Entry}
    (hpart : Act.write part ∈ p.acts o e) (hline : part.IsLine options line) :
    e.IsLine options line := by
  cases e with
  | sample s =>
    obtain rfl : part = .sample s := by
      simp only [acts, actsOfSample] at hpart
      split_ifs at hpart with hroom hfresh
      · simpa using hpart
      · simpa using hpart
      · simp at hpart
    exact hline
  | batch b => exact isLine_of_mem_actsOfBatch hpart hline

/-- Nothing that a packer does changes the settings of its lines. -/
theorem options_run (state : Packer × Outbox τ) (act : Act) :
    (act.run state).1.options = state.1.options := by
  cases act with
  | write e => rfl
  | handOver => exact options_handOver state.1 state.2
  | drop => rfl

/-- The lines that are appended are lines of what is written. -/
theorem exists_of_mem_linesOf {state : Packer × Outbox τ} {acts : List Act}
    (h : line ∈ linesOf state acts) :
    ∃ part, Act.write part ∈ acts ∧ part.IsLine state.1.options line := by
  induction acts generalizing state with
  | nil => cases h
  | cons act rest ih =>
    rw [linesOf, List.mem_append] at h
    obtain hnow | hlater := h
    · cases act with
      | write part => exact ⟨part, List.mem_cons_self, Payload.isLine_of_mem_written hnow⟩
      | handOver | drop => cases hnow
    · obtain ⟨part, hpart, hline⟩ := ih hlater
      exact ⟨part, List.mem_cons_of_mem _ hpart, options_run state act ▸ hline⟩

/-- The lines that are written for an entry are lines of that entry. -/
theorem isLine_of_mem_encoded (h : line ∈ p.encoded o e) : e.IsLine p.options line := by
  obtain ⟨part, hpart, hline⟩ := exists_of_mem_linesOf h
  exact isLine_of_mem_acts hpart hline

/-! ## Coming in -/

/-- The last thing done is to drop an entry or to write a line. -/
def Comes (p : Packer) (o : Outbox τ) (acts : List Act) : Prop :=
  ∃ front last, acts = front ++ [last] ∧ (last = .drop ∨ last.lines (runAll (p, o) front).1 ≠ [])

/-- A write of a sample that fits appends its line. -/
theorem lines_write_sample {s : Sample} (hroom : p.current.HasRoom (Line.ofSample p.options s)) :
    Act.lines p (.write (.sample s)) ≠ [] := by
  simp [Act.lines, Payload.write, Payload.writeSample_of_hasRoom hroom, Payload.written]

/-- To add a sample ends with its line or with a drop. -/
theorem comes_actsOfSample (p : Packer) (o : Outbox τ) (s : Sample) :
    Comes p o (p.actsOfSample o s) := by
  unfold actsOfSample
  split
  next hroom => exact ⟨[], _, rfl, .inr (lines_write_sample hroom)⟩
  next =>
    split
    next hroom =>
      rw [← p.options_handOver o] at hroom
      exact ⟨[.handOver], _, rfl, .inr (lines_write_sample hroom)⟩
    next => exact ⟨[.handOver], _, rfl, .inl rfl⟩

/-- A write of a batch that is not refused as a whole appends a line. -/
theorem lines_write_batch (h : (p.current.writeBatch p.options b).1 ≠ .error .full) :
    Act.lines p (.write (.batch b)) ≠ [] := by
  rw [Act.lines, Payload.write]
  cases houtcome : (p.current.writeBatch p.options b).1 with
  | ok count => exact List.cons_ne_nil _ _
  | error refusal =>
    cases refusal with
    | full => exact absurd houtcome h
    | partly count => exact List.cons_ne_nil _ _

/-- Unless nothing of a batch fits, the last thing done to write some of it writes a line. -/
theorem comes_actsOfSome (h : (p.addSome o b).1 ≠ .error .full) : Comes p o (p.actsOfSome b) := by
  unfold actsOfSome
  unfold addSome at h
  rcases hwrite : p.current.writeBatch p.options b with ⟨outcome, current⟩
  rw [hwrite] at h
  match outcome with
  | .ok written | .error (.partly written) =>
    exact ⟨[], _, rfl, .inr (lines_write_batch (by rw [runAll_nil, hwrite]; simp))⟩
  | .error .full =>
    refine ⟨[.write (.batch b), .handOver], _, rfl, .inr (lines_write_batch ?_)⟩
    simpa [Act.run, Payload.write, hwrite] using h

/-- What comes last in the end is last of all that is done. -/
theorem Comes.append_left {front acts : List Act}
    (h : let q := runAll (p, o) front; Comes q.1 q.2 acts) : Comes p o (front ++ acts) := by
  obtain ⟨first, last, rfl, hlast⟩ := h
  exact ⟨front ++ first, last, by rw [List.append_assoc], by rwa [runAll_append]⟩

/-- A batch of which some values were written in part has more. -/
theorem lt_of_addSome_partly {count : Nat} (h : (p.addSome o b).1 = .error (.partly count)) :
    count < b.values.length := by
  have hwrite {options : Line.Options} {q : Payload}
      (hpartly : (q.writeBatch options b).1 = .error (.partly count)) :
      count < b.values.length := by
    obtain ⟨scratch, heq⟩ := Payload.writeBatch_eq options q b
    rw [heq] at hpartly
    exact Payload.lt_of_outcome_eq_partly hpartly
  unfold addSome at h
  split at h
  · exact hwrite h
  next hfirst => exact hwrite ((congrArg Prod.fst hfirst).trans h)

/-- The last thing done to add a batch with values is to drop it or to write a line. -/
theorem comes_actsOfBatch (h : b.values ≠ []) : Comes p o (p.actsOfBatch o b) := by
  fun_induction actsOfBatch p o b with
  | case1 p o b hnone => exact absurd hnone h
  | case2 p o b hne written q oq hsome => exact comes_actsOfSome (by simp [hsome])
  | case3 p o b hne q oq hsome => exact ⟨_, _, rfl, .inl rfl⟩
  | case4 p o b hne written q later hsome ih =>
    have hacts := p.addSome_eq o b
    rw [hsome] at hacts
    have hlt := lt_of_addSome_partly (congrArg Prod.fst hsome)
    have hmore : (b.drop written).values ≠ [] := by
      simp only [Batch.drop, ne_eq, List.drop_eq_nil_iff]
      omega
    -- The rest is added to what the packer goes on with.
    rw [List.append_cons]
    refine Comes.append_left ?_
    simpa [runAll_append, ← hacts, Act.run] using ih hmore

/-- The last thing done to add an entry that has something to write is to drop it or to write a line
of it. -/
theorem comes_acts (h : e.IsFull) : Comes p o (p.acts o e) := by
  cases e with
  | sample s => exact comes_actsOfSample p o s
  | batch b => exact comes_actsOfBatch h

/-- The lines of acts are those of the first ones and those of the others, which start where the
first have ended. -/
theorem linesOf_append (state : Packer × Outbox τ) (front back : List Act) :
    linesOf state (front ++ back) = linesOf state front ++ linesOf (runAll state front) back := by
  induction front generalizing state with
  | nil => rfl
  | cons act rest ih => rw [List.cons_append, linesOf, ih, linesOf, List.append_assoc, runAll_cons]

/-- An entry that has something to write is dropped, or some of it is written. -/
theorem drop_mem_acts_or_encoded_ne_nil (h : e.IsFull) :
    Act.drop ∈ p.acts o e ∨ p.encoded o e ≠ [] := by
  obtain ⟨front, last, hacts, hlast⟩ := comes_acts (p := p) (o := o) h
  rw [encoded, hacts]
  obtain rfl | hline := hlast
  · exact .inl (by simp)
  · right
    rw [linesOf_append]
    exact List.append_ne_nil_of_right_ne_nil _ (by simpa [linesOf] using hline)

end Packer

end DogStatsD
