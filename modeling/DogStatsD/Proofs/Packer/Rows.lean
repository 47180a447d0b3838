import DogStatsD.Proofs.Outbox.Fates
import DogStatsD.Proofs.Packer.Encoded
import Mathlib.Data.List.Forall2

/-!
# What a Packer Has Written

The lines that a packer writes are followed in their order: into the payload being filled, and with
it into the queue or out of sight because the queue was full. Each line is followed together with
its origin, whatever that is taken to be. Of an entry that is dropped, the origin is noted alone.

* `Row`: a line and its origin;
* `Cart`: the lines in the payload being filled, in the queue, and in payloads that were refused;
* `Cart.add`, `Cart.handOver`: it follows what the packer does;
* `Cart.Moves`: lines only move on, in order, and none is lost or doubled;
* `Cart.moves_add`, `Cart.moves_handOver`: so it is when entries are added and payloads handed over;
* `Cart.exists_dropped_add`, `Cart.mem_dropped_or_encoded_ne_nil`: what is dropped, and that an
  entry is dropped or some of it is written;
* `Cart.Fits.add`, `Cart.Fits.handOver`: the cart goes along with packer, queue and counters.
-/

namespace DogStatsD

/-- A line, and where it comes from. -/
structure Row (α : Type) where
  origin : α
  line : String

namespace Row

variable {α : Type}

/-- The text of lines one after the other. -/
def textOf (rows : List (Row α)) : String :=
  String.join (rows.map line)

/-- Lines of the same origin. -/
def ofLines (origin : α) (lines : List String) : List (Row α) :=
  lines.map fun line => ⟨origin, line⟩

/-- The samples that lines were written for. A line of an entry out of the aggregator was written
for none. -/
def samplesOf (rows : List (Row (Option Sample))) : List Sample :=
  rows.filterMap origin

/-- A line is that of the sample that it was written for. -/
def IsHonest (options : Line.Options) (row : Row (Option Sample)) : Prop :=
  ∀ sample, row.origin = some sample → row.line = Line.ofSample options sample

/-- The text of some rows and others is the text of the ones, then that of the others. -/
theorem textOf_append (front back : List (Row α)) :
    textOf (front ++ back) = textOf front ++ textOf back := by
  simp [textOf]

@[simp]
theorem samplesOf_append (front back : List (Row (Option Sample))) :
    samplesOf (front ++ back) = samplesOf front ++ samplesOf back :=
  List.filterMap_append

/-- The text of lines of one origin is that of the lines. -/
theorem textOf_ofLines (origin : α) (lines : List String) :
    textOf (ofLines origin lines) = String.join lines := by
  rw [textOf, ofLines, List.map_map]
  exact congrArg String.join (List.map_id lines)

theorem ofLines_append (origin : α) (front back : List String) :
    ofLines origin (front ++ back) = ofLines origin front ++ ofLines origin back :=
  List.map_append

end Row

/-- What goes with a command: a payload bears lines, which make up its text, and a barrier none. -/
def Command.Bears {α : Type} : Command → List (Row α) → Prop
  | .payload p, rows => p.isEmpty = false ∧ rows ≠ [] ∧ p.text = Row.textOf rows
  | .barrier _, rows => rows = []

/-- The lines that a packer has written. -/
structure Cart (α : Type) where
  /-- Those in the payload being filled. -/
  packed : List (Row α) := []
  /-- Those in each command of the queue. -/
  queued : List (List (Row α)) := []
  /-- Those in each payload that has found the queue full. -/
  refused : List (List (Row α)) := []
  /-- The origins of entries that were dropped for their size. -/
  dropped : List α := []

/-- Whether an entry is counted as dropped. -/
def Packer.Act.isDrop : Packer.Act → Bool
  | .drop => true
  | .write _ | .handOver => false

namespace Cart

variable {τ α : Type}

/-! ## Following -/

/-- Follow the payload being filled, if it holds a line. -/
def handOver (c : Cart α) (p : Packer) (o : Outbox τ) : Cart α :=
  if p.current.isEmpty then c
  else if o.hasRoom then { c with packed := [], queued := c.queued ++ [c.packed] }
  else { c with packed := [], refused := c.refused ++ [c.packed] }

/-- Follow something that a packer does for an entry with an origin. -/
def after (origin : α) (c : Cart α) (state : Packer × Outbox τ) : Packer.Act → Cart α
  | .write e =>
    { c with packed := c.packed ++ Row.ofLines origin (Packer.Act.lines state.1 (.write e)) }
  | .handOver => c.handOver state.1 state.2
  | .drop => { c with dropped := c.dropped ++ [origin] }

/-- Follow what a packer does one after the other. -/
def afterAll (origin : α) (c : Cart α) (state : Packer × Outbox τ) : List Packer.Act → Cart α
  | [] => c
  | act :: rest => (c.after origin state act).afterAll origin (act.run state) rest

/-- Follow an entry. -/
def add (c : Cart α) (p : Packer) (o : Outbox τ) (e : Entry) (origin : α) : Cart α :=
  c.afterAll origin (p, o) (p.acts o e)

/-! ## Moving on -/

/-- Some lines have come in, and lines have moved on: out of the payload being filled into the queue
or into refused payloads. None is lost or doubled, and those that are not refused stay in order. -/
structure Moves (added : List (Row α)) (c later : Cart α) : Prop where
  exists_more : ∃ more lost : List (List (Row α)),
    later.queued = c.queued ++ more ∧ later.refused = c.refused ++ lost ∧
      (more.flatten ++ later.packed).Sublist (c.packed ++ added) ∧
      (more.flatten ++ lost.flatten ++ later.packed).Perm (c.packed ++ added)

variable {added more : List (Row α)} {c later last : Cart α}

theorem Moves.refl (c : Cart α) : Moves [] c c :=
  ⟨[], [], by simp⟩

/-- What moves on twice moves on. -/
theorem Moves.trans (h : Moves added c later) (hlast : Moves more later last) :
    Moves (added ++ more) c last := by
  obtain ⟨first, lost, hqueued, hrefused, horder, hall⟩ := h
  obtain ⟨second, lost', hqueued', hrefused', horder', hall'⟩ := hlast
  refine ⟨first ++ second, lost ++ lost', ?_, ?_, ?_, ?_⟩
  · rw [hqueued', hqueued, List.append_assoc]
  · rw [hrefused', hrefused, List.append_assoc]
  · -- What came out later is behind what came out first.
    rw [List.flatten_append, List.append_assoc, ← List.append_assoc c.packed]
    refine ((List.Sublist.refl _).append horder').trans ?_
    rw [← List.append_assoc]
    exact horder.append (List.Sublist.refl _)
  · have hswap : (first ++ second).flatten ++ (lost ++ lost').flatten ++ last.packed |>.Perm
        (first.flatten ++ lost.flatten ++ (second.flatten ++ lost'.flatten ++ last.packed)) := by
      simp only [List.flatten_append, List.append_assoc]
      exact (List.perm_append_comm_assoc _ _ _).append_left _
    refine hswap.trans ((hall'.append_left _).trans ?_)
    rw [← List.append_assoc, ← List.append_assoc]
    exact hall.append_right _

/-- Handing over moves all lines of the payload on, and brings none in. -/
theorem moves_handOver (c : Cart α) (p : Packer) (o : Outbox τ) : Moves [] c (c.handOver p o) := by
  unfold handOver
  split
  · exact .refl c
  · split
    · exact ⟨[c.packed], [], by simp⟩
    · exact ⟨[], [c.packed], by simp⟩

/-- An act moves the lines of a packer, and brings in those that it writes. -/
theorem moves_after (origin : α) (c : Cart α) (state : Packer × Outbox τ) (act : Packer.Act) :
    Moves (Row.ofLines origin (act.lines state.1)) c (c.after origin state act) := by
  cases act with
  | write e => exact ⟨[], [], by simp [after]⟩
  | handOver => exact c.moves_handOver state.1 state.2
  | drop => exact ⟨[], [], by simp [after, Packer.Act.lines, Row.ofLines]⟩

/-- Acts move the lines of a packer, and bring in those that they write. -/
theorem moves_afterAll (origin : α) (c : Cart α) (state : Packer × Outbox τ)
    (acts : List Packer.Act) :
    Moves (Row.ofLines origin (Packer.linesOf state acts)) c (c.afterAll origin state acts) := by
  induction acts generalizing c state with
  | nil => exact .refl c
  | cons act rest ih =>
    rw [Packer.linesOf.eq_def, Row.ofLines_append]
    exact (c.moves_after origin state act).trans (ih _ _)

/-- Adding an entry moves lines on, and brings in those that are written for it. -/
theorem moves_add (c : Cart α) (p : Packer) (o : Outbox τ) (e : Entry) (origin : α) :
    Moves (Row.ofLines origin (p.encoded o e)) c (c.add p o e origin) :=
  c.moves_afterAll origin _ _

/-! ## Dropped entries -/

/-- Handing over drops no entry. -/
@[simp]
theorem dropped_handOver (c : Cart α) (p : Packer) (o : Outbox τ) :
    (c.handOver p o).dropped = c.dropped := by
  unfold handOver
  split
  · rfl
  · split <;> rfl

/-- An origin is noted as often as an entry is counted as dropped. -/
theorem dropped_afterAll (origin : α) (c : Cart α) (state : Packer × Outbox τ)
    (acts : List Packer.Act) :
    (c.afterAll origin state acts).dropped =
      c.dropped ++ List.replicate (acts.countP Packer.Act.isDrop) origin := by
  induction acts generalizing c state with
  | nil => exact (List.append_nil _).symm
  | cons act rest ih =>
    rw [afterAll, ih]
    cases act with
    | write e => rfl
    | handOver =>
      rw [after, dropped_handOver]
      rfl
    | drop =>
      rw [after, List.countP_cons_of_pos rfl, List.replicate_succ, List.append_assoc]
      rfl

/-- Adding an entry drops nothing else. -/
theorem exists_dropped_add (c : Cart α) (p : Packer) (o : Outbox τ) (e : Entry) (origin : α) :
    ∃ count, (c.add p o e origin).dropped = c.dropped ++ List.replicate count origin :=
  ⟨_, c.dropped_afterAll origin _ _⟩

/-- An entry that has something to write is noted as dropped, or some of it is written. -/
theorem mem_dropped_or_encoded_ne_nil {e : Entry} (he : e.IsFull) (c : Cart α) (p : Packer)
    (o : Outbox τ) (origin : α) :
    origin ∈ (c.add p o e origin).dropped ∨ p.encoded o e ≠ [] := by
  refine (Packer.drop_mem_acts_or_encoded_ne_nil he).imp_left fun hdrop => ?_
  rw [add, dropped_afterAll]
  have hpos : 0 < (p.acts o e).countP Packer.Act.isDrop :=
    List.countP_pos_iff.mpr ⟨.drop, hdrop, rfl⟩
  exact List.mem_append_right _ (List.mem_replicate.mpr ⟨hpos.ne', rfl⟩)

/-! ## Keeping up -/

/-- The cart goes along with a packer, the queue and the counters of refused payloads and dropped
entries, where `others` counts what other packers have dropped. -/
structure Fits (others : Nat) (c : Cart α) (p : Packer) (o : Outbox τ) : Prop where
  text_eq : p.current.text = Row.textOf c.packed
  lines_eq : p.current.lines = c.packed.length
  queued : List.Forall₂ Command.Bears o.queue c.queued
  overflowed_eq : o.ledger.overflowed = .ofTexts (c.refused.map Row.textOf)
  dropped_eq : c.dropped.length = others + p.oversized

variable {others : Nat} {limits : Limits} {p : Packer} {o : Outbox τ}

/-- The cart keeps up with a payload that is handed over. -/
theorem Fits.handOver (h : c.Fits others p o) (ho : o.Clean limits) :
    (c.handOver p o).Fits others (p.handOver o).1 (p.handOver o).2 := by
  rw [Packer.handOver_eq ho]
  unfold Cart.handOver
  by_cases hempty : p.current.lines = 0
  · rw [if_pos hempty, if_pos (by simpa [Payload.isEmpty] using hempty)]
    exact h
  · have hholds : p.current.isEmpty = false := by simpa [Payload.isEmpty] using hempty
    have hbears : Command.Bears (.payload p.current) c.packed := by
      refine ⟨hholds, ?_, h.text_eq⟩
      rw [← List.length_pos_iff, ← h.lines_eq]
      exact Nat.pos_of_ne_zero hempty
    rw [if_neg hempty, if_neg (by simp [hholds])]
    -- What is borrowed from the pool makes no difference to the room in the queue.
    by_cases hroom : o.hasRoom = true
    · have hpost : o.takeOver p.current =
          { o.borrow.2 with queue := o.queue ++ [.payload p.current] } := if_pos hroom
      rw [if_pos hroom, hpost]
      exact ⟨rfl, rfl, List.rel_append h.queued (.cons hbears .nil), h.overflowed_eq, h.dropped_eq⟩
    · have hpost : o.takeOver p.current =
          { o.borrow.2 with
            pool := o.borrow.2.pool.put p.current
            ledger :=
              { o.ledger with overflowed := o.ledger.overflowed.count p.current.size } } :=
        if_neg hroom
      rw [if_neg hroom, hpost]
      refine ⟨rfl, rfl, h.queued, ?_, h.dropped_eq⟩
      rw [List.map_append, List.map_singleton, ← Tally.count_ofTexts, ← h.overflowed_eq,
        ← h.text_eq]
      rfl

/-- The cart goes along with its packer when an act is carried out. -/
theorem Fits.after (h : c.Fits others p o) (ho : o.Clean limits) (origin : α)
    (act : Packer.Act) :
    (c.after origin (p, o) act).Fits others (act.run (p, o)).1 (act.run (p, o)).2 := by
  cases act with
  | handOver => exact h.handOver ho
  | drop =>
    refine ⟨h.text_eq, h.lines_eq, h.queued, h.overflowed_eq, ?_⟩
    simp [Cart.after, Packer.Act.run, Packer.drop, h.dropped_eq, Nat.add_assoc]
  | write e =>
    refine ⟨?_, ?_, h.queued, h.overflowed_eq, h.dropped_eq⟩
    · show (p.current.write p.options e).2.text = Row.textOf (c.packed ++ Row.ofLines origin _)
      rw [Payload.text_write, h.text_eq, Row.textOf_append, Row.textOf_ofLines]
      rfl
    · show (p.current.write p.options e).2.lines = (c.packed ++ Row.ofLines origin _).length
      rw [List.length_append, ← h.lines_eq, Row.ofLines, List.length_map, Packer.Act.lines]
      -- A write appends one line or none.
      obtain ⟨hnone, -, hlines⟩ | ⟨line, hone, -, -, hlines⟩ :=
        Payload.write_cases p.options p.current e
      · rw [hnone, hlines]
        rfl
      · rw [hone, hlines]
        rfl

/-- So it does when any acts are carried out. -/
theorem Fits.afterAll (h : c.Fits others p o) (hp : p.Neat limits) (ho : o.Clean limits)
    (origin : α) (acts : List Packer.Act) :
    (c.afterAll origin (p, o) acts).Fits others (Packer.runAll (p, o) acts).1
      (Packer.runAll (p, o) acts).2 := by
  induction acts generalizing c p o with
  | nil => exact h
  | cons act rest ih =>
    obtain ⟨hp', ho'⟩ := hp.act ho act
    exact ih (h.after ho origin act) hp' ho'

/-- The cart keeps up with an entry that is added. -/
theorem Fits.add (h : c.Fits others p o) (hp : p.Neat limits) (ho : o.Clean limits) (e : Entry)
    (origin : α) : (c.add p o e origin).Fits others (p.add o e).1 (p.add o e).2 := by
  rw [Packer.add_eq]
  exact h.afterAll hp ho origin _

end Cart

end DogStatsD
