import DogStatsD.Outbox

/-!
# Packers

A packer fills one payload at a time. A line that does not fit makes it hand the payload over to the
outbox and go on with an empty one; a line that does not fit there either is dropped and counted.
-/

namespace DogStatsD

/-- A payload being filled. -/
structure Packer where
  options : Line.Options
  current : Payload
  /-- The number of entries dropped because a line did not fit into an empty payload. -/
  oversized : Nat := 0

namespace Packer

variable {τ : Type}

/-- A packer with an empty payload from the pool. -/
def new (options : Line.Options) (o : Outbox τ) : Packer × Outbox τ :=
  let (current, o) := o.borrow
  ({ options, current }, o)

/-- Hand the payload over, if anything was written to it, and go on with an empty one. -/
def handOver (p : Packer) (o : Outbox τ) : Packer × Outbox τ :=
  if p.current.isEmpty then (p, o)
  else
    let (fresh, o) := o.borrow
    ({ p with current := fresh }, o.post p.current)

/-- Count an entry that does not fit into any payload. -/
def drop (p : Packer) : Packer :=
  { p with oversized := p.oversized + 1 }

/-- Write a sample, handing the payload over first if the sample does not fit. -/
def addSample (p : Packer) (o : Outbox τ) (s : Sample) : Packer × Outbox τ :=
  match p.current.writeSample p.options s with
  | (.ok _, current) => ({ p with current }, o)
  | (.error _, current) =>
    -- Once more, this time with an empty payload.
    let (p, o) := { p with current }.handOver o
    match p.current.writeSample p.options s with
    | (.ok _, current) => ({ p with current }, o)
    | (.error _, current) => ({ p with current }.drop, o)

/-- Write as many leading values of a batch as fit on one line, handing the payload over first if
not even one fits. -/
def addSome (p : Packer) (o : Outbox τ) (b : Batch) : Except WriteError Nat × Packer × Outbox τ :=
  match p.current.writeBatch p.options b with
  | (.error .full, current) =>
    let (p, o) := { p with current }.handOver o
    let (outcome, current) := p.current.writeBatch p.options b
    (outcome, { p with current }, o)
  | (outcome, current) => (outcome, { p with current }, o)

/-- Some values of a batch were written in part only if at least one was. -/
theorem pos_of_addSome_partly {p : Packer} {o : Outbox τ} {b : Batch} {written : Nat}
    (h : (p.addSome o b).1 = .error (.partly written)) : 0 < written := by
  unfold addSome at h
  split at h
  · exact Payload.pos_of_writeBatch_partly h
  next hwrite => exact Payload.pos_of_writeBatch_partly ((congrArg Prod.fst hwrite).trans h)

/-- Write a batch over as many lines and payloads as it takes. A value that does not fit into any
payload ends it, and the batch counts as dropped. -/
def addBatch (p : Packer) (o : Outbox τ) (b : Batch) : Packer × Outbox τ :=
  if b.values = [] then (p, o)
  else
    match _hsome : p.addSome o b with
    | (.ok _, p, o) => (p, o)
    -- Not even an empty payload has room for the next value.
    | (.error .full, p, o) => (p.drop, o)
    | (.error (.partly written), p, o) =>
      let (p, o) := p.handOver o
      p.addBatch o (b.drop written)
termination_by b.values.length
decreasing_by
  have hpos := pos_of_addSome_partly (congrArg Prod.fst _hsome)
  have := List.length_pos_iff.mpr ‹¬b.values = []›
  simp only [Batch.drop, List.length_drop]
  omega

def add (p : Packer) (o : Outbox τ) : Entry → Packer × Outbox τ
  | .sample s => p.addSample o s
  | .batch b => p.addBatch o b

end Packer

end DogStatsD
