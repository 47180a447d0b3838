import DogStatsD.Proofs.Packer.Exchange

/-!
# Acts of a Packer

Whatever a packer adds, it does so by writing to its payload, handing the payload over and counting
entries as dropped. What these keep, every addition keeps.

* `Packer.Act`, `Packer.Act.run`: what a packer can do;
* `Packer.acts`, `Packer.add_eq`: what it does to add an entry, and that adding is nothing else;
* `Packer.related_add`: what handing over does to the outbox, and nothing else, adding does;
* `Packer.Neat`: a payload that holds no line holds no text, and has its limits;
* `Packer.Neat.handOver`, `Packer.Neat.add`: handing over and adding leave payload and outbox neat;
* `Packer.encoded`: the lines that are written for an entry, which for a sample is its line if that
  fits into an empty payload (`Packer.Neat.encoded_sample`).
-/

namespace DogStatsD

namespace Packer

variable {τ : Type}

/-- What a packer can do. -/
inductive Act where
  | write (entry : Entry)
  | handOver
  | drop

def Act.run : Packer × Outbox τ → Act → Packer × Outbox τ
  | (p, o), .write entry => ({ p with current := (p.current.write p.options entry).2 }, o)
  | (p, o), .handOver => p.handOver o
  | (p, o), .drop => (p.drop, o)

/-- What a packer does to add a sample: write it, after handing over if there is no room. -/
def actsOfSample (p : Packer) (o : Outbox τ) (s : Sample) : List Act :=
  if p.current.HasRoom (Line.ofSample p.options s) then [.write (.sample s)]
  else if (p.handOver o).1.current.HasRoom (Line.ofSample p.options s) then
    [.handOver, .write (.sample s)]
  else [.handOver, .drop]

/-- What a packer does to write some values of a batch. -/
def actsOfSome (p : Packer) (b : Batch) : List Act :=
  match p.current.writeBatch p.options b with
  | (.error .full, _) => [.write (.batch b), .handOver, .write (.batch b)]
  | (.ok _, _) | (.error (.partly _), _) => [.write (.batch b)]

/-- What a packer does to add a batch: the same for one payload after the other. -/
def actsOfBatch (p : Packer) (o : Outbox τ) (b : Batch) : List Act :=
  if b.values = [] then []
  else
    match _hsome : p.addSome o b with
    | (.ok _, _, _) => p.actsOfSome b
    | (.error .full, _, _) => p.actsOfSome b ++ [.drop]
    | (.error (.partly written), q, later) =>
      p.actsOfSome b ++ .handOver :: (q.handOver later).1.actsOfBatch (q.handOver later).2
        (b.drop written)
termination_by b.values.length
decreasing_by
  have hpos := pos_of_addSome_partly (congrArg Prod.fst _hsome)
  have := List.length_pos_iff.mpr ‹¬b.values = []›
  simp only [Batch.drop, List.length_drop]
  omega

/-- What a packer does to add an entry. -/
def acts (p : Packer) (o : Outbox τ) : Entry → List Act
  | .sample s => p.actsOfSample o s
  | .batch b => p.actsOfBatch o b

/-- Do what is to be done one after the other. -/
def runAll (state : Packer × Outbox τ) (acts : List Act) : Packer × Outbox τ :=
  acts.foldl Act.run state

@[simp]
theorem runAll_nil (state : Packer × Outbox τ) : runAll state [] = state := rfl

@[simp]
theorem runAll_cons (state : Packer × Outbox τ) (act : Act) (rest : List Act) :
    runAll state (act :: rest) = runAll (act.run state) rest := rfl

/-- Acts are carried out one after the other. -/
theorem runAll_append (state : Packer × Outbox τ) (first second : List Act) :
    runAll state (first ++ second) = runAll (runAll state first) second :=
  List.foldl_append

/-- To add a sample is to carry out its acts. -/
theorem addSample_eq (p : Packer) (o : Outbox τ) (s : Sample) :
    p.addSample o s = runAll (p, o) (p.actsOfSample o s) := by
  unfold actsOfSample
  split
  next hroom =>
    rw [addSample_of_hasRoom hroom]
    simp [Act.run, Payload.write, Payload.writeSample_of_hasRoom hroom]
  next hfull =>
    rw [addSample_of_not_hasRoom hfull]
    dsimp only
    split
    next hroom =>
      simp [Act.run, Payload.write, Payload.writeSample_of_hasRoom hroom]
    next hroom => rfl

/-- To add some values of a batch is to carry out its acts. -/
theorem addSome_eq (p : Packer) (o : Outbox τ) (b : Batch) :
    (p.addSome o b).2 = runAll (p, o) (p.actsOfSome b) := by
  unfold addSome actsOfSome
  rcases hwrite : p.current.writeBatch p.options b with ⟨outcome, current⟩
  have hfirst : Act.run (p, o) (.write (.batch b)) = ({ p with current }, o) := by
    simp [Act.run, Payload.write, hwrite]
  cases outcome with
  | ok written => simp [hfirst]
  | error reason =>
    cases reason with
    | partly written => simp [hfirst]
    | full =>
      rw [runAll_cons, hfirst]
      simp [Act.run, Payload.write]

/-- To add a batch is to carry out its acts, until no value is left. -/
theorem addBatch_eq (p : Packer) (o : Outbox τ) (b : Batch) :
    p.addBatch o b = runAll (p, o) (p.actsOfBatch o b) := by
  fun_induction addBatch p o b with
  | case1 p o b hnone => rw [actsOfBatch, if_pos hnone, runAll_nil]
  | case2 p o b hne written q oq hsome =>
    have hacts := p.addSome_eq o b
    rw [hsome] at hacts
    rw [actsOfBatch, if_neg hne]
    split
    · next heq =>
      cases hsome.symm.trans heq
      exact hacts
    · next heq => cases hsome.symm.trans heq
    · next heq => cases hsome.symm.trans heq
  | case3 p o b hne q oq hsome =>
    have hacts := p.addSome_eq o b
    rw [hsome] at hacts
    rw [actsOfBatch, if_neg hne]
    split
    · next heq => cases hsome.symm.trans heq
    · next heq =>
      cases hsome.symm.trans heq
      rw [runAll_append, ← hacts]
      rfl
    · next heq => cases hsome.symm.trans heq
  | case4 p o b hne written q oq hsome r _ hhand ih =>
    have hacts := p.addSome_eq o b
    rw [hsome] at hacts
    rw [actsOfBatch, if_neg hne]
    -- Some values were written, and the rest is what the recursion adds.
    split
    · next heq => cases hsome.symm.trans heq
    · next heq => cases hsome.symm.trans heq
    · next heq =>
      cases hsome.symm.trans heq
      rw [runAll_append, ← hacts, runAll_cons, Act.run, hhand]
      exact ih

/-- Adding an entry is writing, handing over and counting what is dropped. -/
theorem add_eq (p : Packer) (o : Outbox τ) (e : Entry) :
    p.add o e = runAll (p, o) (p.acts o e) := by
  cases e with
  | sample s => exact p.addSample_eq o s
  | batch b => exact p.addBatch_eq o b

/-- Handing over does not stop the thread of the outbox. -/
theorem running_handOver (p : Packer) (o : Outbox τ) :
    (p.handOver o).2.running = o.running := by
  unfold handOver
  split
  · rfl
  · show (Outbox.post _ _).running = _
    unfold Outbox.post
    split <;> rfl

/-- Handing over puts nothing before what is queued already. -/
theorem queue_handOver (p : Packer) (o : Outbox τ) : o.queue <+: (p.handOver o).2.queue := by
  unfold handOver
  split
  · exact List.prefix_rfl
  · show o.queue <+: (Outbox.post _ _).queue
    unfold Outbox.post
    split
    · exact List.prefix_append _ _
    · exact List.prefix_rfl

/-- Whatever handing over does to an outbox, adding an entry does any number of times. -/
theorem related_add {R : Outbox τ → Outbox τ → Prop} (hrefl : ∀ o, R o o)
    (htrans : ∀ {o later last}, R o later → R later last → R o last)
    (hover : ∀ (p : Packer) (o : Outbox τ), R o (p.handOver o).2) (p : Packer) (o : Outbox τ)
    (e : Entry) : R o (p.add o e).2 := by
  rw [add_eq]
  generalize p.acts o e = acts
  induction acts generalizing p o with
  | nil => exact hrefl o
  | cons act rest ih =>
    refine htrans ?_ (ih _ _)
    cases act with
    | write e => exact hrefl o
    | handOver => exact hover p o
    | drop => exact hrefl o

/-- Adding an entry neither starts nor stops the thread of the outbox. -/
theorem running_add (p : Packer) (o : Outbox τ) (e : Entry) :
    (p.add o e).2.running = o.running :=
  related_add (R := fun o later => later.running = o.running) (fun _ => rfl)
    (fun h hlast => hlast.trans h) running_handOver p o e

/-- Adding an entry puts nothing before what is queued already. -/
theorem queue_add (p : Packer) (o : Outbox τ) (e : Entry) : o.queue <+: (p.add o e).2.queue :=
  related_add (R := fun o later => o.queue <+: later.queue) (fun _ => List.prefix_rfl)
    List.IsPrefix.trans queue_handOver p o e

/-! ## Neat packers -/

/-- The payload being filled keeps its limits, and has no text unless it has lines. -/
structure Neat (limits : Limits) (p : Packer) : Prop where
  limits_eq : p.current.limits = limits
  text_eq : p.current.lines = 0 → p.current.text = ""

variable {limits : Limits} {p : Packer} {o : Outbox τ}

/-- Handing over leaves an empty payload behind, and the outbox clean. -/
theorem Neat.handOver (hp : p.Neat limits) (ho : o.Clean limits) :
    (p.handOver o).1.Neat limits ∧ (p.handOver o).1.current.lines = 0 ∧
      (p.handOver o).2.Clean limits := by
  rw [handOver_eq ho]
  by_cases hempty : p.current.lines = 0
  · rw [if_pos hempty]
    exact ⟨hp, hempty, ho⟩
  · rw [if_neg hempty]
    exact ⟨⟨rfl, fun _ => rfl⟩, rfl, ho.takeOver hp.limits_eq⟩

/-- Every act keeps the payload and the pool neat. -/
theorem Neat.act (hp : p.Neat limits) (ho : o.Clean limits) (act : Act) :
    (act.run (p, o)).1.Neat limits ∧ (act.run (p, o)).2.Clean limits := by
  cases act with
  | handOver => exact ⟨(hp.handOver ho).1, (hp.handOver ho).2.2⟩
  | drop => exact ⟨⟨hp.limits_eq, hp.text_eq⟩, ho⟩
  | write e =>
    refine ⟨⟨(Payload.limits_write ..).trans hp.limits_eq, ?_⟩, ho⟩
    -- A write that leaves no line has not changed the text.
    intro hnone
    obtain ⟨-, htext, hlines⟩ | ⟨line, -, -, -, hlines⟩ :=
      Payload.write_cases p.options p.current e
    · exact htext.trans (hp.text_eq (hlines.symm.trans hnone))
    · exact absurd (hlines.symm.trans hnone) (Nat.succ_ne_zero _)

/-- So do any acts, one after the other. -/
theorem Neat.acts (hp : p.Neat limits) (ho : o.Clean limits) (acts : List Act) :
    (runAll (p, o) acts).1.Neat limits ∧ (runAll (p, o) acts).2.Clean limits := by
  induction acts generalizing p o with
  | nil => exact ⟨hp, ho⟩
  | cons act rest ih => exact ih (hp.act ho act).1 (hp.act ho act).2

/-- Adding an entry leaves the packer neat and the outbox clean. -/
theorem Neat.add (hp : p.Neat limits) (ho : o.Clean limits) (e : Entry) :
    (p.add o e).1.Neat limits ∧ (p.add o e).2.Clean limits := by
  rw [add_eq]
  exact hp.acts ho _

/-- Adding an entry leaves the settings of the lines alone. -/
theorem options_add (p : Packer) (o : Outbox τ) (e : Entry) :
    (p.add o e).1.options = p.options := by
  rw [add_eq]
  generalize p.acts o e = acts
  induction acts generalizing p o with
  | nil => rfl
  | cons act rest ih =>
    refine (ih _ _).trans ?_
    cases act with
    | write e => rfl
    | handOver => exact options_handOver p o
    | drop => rfl

/-! ## Lines written -/

/-- The lines that a packer appends to its payload. -/
def Act.lines (p : Packer) : Act → List String
  | .write entry => Payload.written p.options entry (p.current.write p.options entry).1
  | .handOver | .drop => []

/-- The lines that are appended when one thing is done after the other. -/
def linesOf (state : Packer × Outbox τ) : List Act → List String
  | [] => []
  | act :: rest => act.lines state.1 ++ linesOf (act.run state) rest

/-- The lines that a packer writes to add an entry. -/
def encoded (p : Packer) (o : Outbox τ) (e : Entry) : List String :=
  linesOf (p, o) (p.acts o e)

/-- A line that a payload has room for has room in an empty one. -/
theorem Neat.hasRoom_empty (hp : p.Neat limits) {line : String} (hroom : p.current.HasRoom line) :
    ({ limits } : Payload).HasRoom line := by
  obtain ⟨rfl, -⟩ := hp
  obtain ⟨hlines, hsize⟩ := hroom
  exact ⟨by simp; omega, by simp [Payload.size]; omega⟩

/-- A payload without lines has room for what an empty one has room for. -/
theorem Neat.hasRoom_iff (hp : p.Neat limits) (hnone : p.current.lines = 0) (line : String) :
    p.current.HasRoom line ↔ ({ limits } : Payload).HasRoom line := by
  simp [Payload.HasRoom, Payload.size, hp.limits_eq, hnone, hp.text_eq hnone]

/-- Of a sample, its line is written, if an empty payload has room for it. -/
theorem Neat.encoded_sample (hp : p.Neat limits) (ho : o.Clean limits) (s : Sample) :
    p.encoded o (.sample s) =
      if ({ limits } : Payload).HasRoom (Line.ofSample p.options s) then
        [Line.ofSample p.options s]
      else [] := by
  have hwritten {q : Packer} (hoptions : q.options = p.options)
      (hroom : q.current.HasRoom (Line.ofSample p.options s)) :
      Act.lines q (.write (.sample s)) = [Line.ofSample p.options s] := by
    rw [← hoptions] at hroom ⊢
    simp [Act.lines, Payload.write, Payload.writeSample_of_hasRoom hroom, Payload.written]
  obtain ⟨hneat, hnone, -⟩ := hp.handOver ho
  rw [encoded, Packer.acts, actsOfSample]
  simp only [hneat.hasRoom_iff hnone]
  by_cases hroom : p.current.HasRoom (Line.ofSample p.options s)
  · rw [if_pos hroom, if_pos (hp.hasRoom_empty hroom), linesOf, hwritten rfl hroom]
    rfl
  · rw [if_neg hroom]
    by_cases hfresh : ({ limits } : Payload).HasRoom (Line.ofSample p.options s)
    · -- The payload that the packer goes on with is empty.
      have hagain := hwritten (options_handOver p o) ((hneat.hasRoom_iff hnone _).mpr hfresh)
      rw [if_pos hfresh, if_pos hfresh]
      show Act.lines (p.handOver o).1 (.write (.sample s)) ++ [] = _
      rw [hagain, List.append_nil]
    · rw [if_neg hfresh, if_neg hfresh]
      rfl

end Packer

end DogStatsD
