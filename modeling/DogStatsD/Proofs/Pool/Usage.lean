import DogStatsD.Proofs.Packer.Exchange
import DogStatsD.Proofs.Payload.History

/-!
# Pools in Use

Payloads are borrowed from a pool, written to and put back, in any order. Some that are borrowed are
new, since the pool had none, and some that are put back are let go, since the pool is full. Still
the pool never lacks a payload that is not out.

* `Payload.observe`: what can be seen of a payload through writes and resets;
* `Pool.Stocked`: the pool keeps no more payloads than it should, and lacks no more than are out;
* `Usage.Sound`: only empty payloads are in the pool, and the pool is stocked;
* `Usage.Sound.step`, `Usage.Sound.run`: whatever is done with the pool keeps it so.
-/

namespace DogStatsD

namespace Payload

/-- Carry out a step. -/
def after (o : Line.Options) (p : Payload) : Step → Payload
  | .write e => (p.write o e).2
  | .reset => p.reset

@[simp]
theorem limits_after (o : Line.Options) (p : Payload) (s : Step) :
    (p.after o s).limits = p.limits := by
  cases s with
  | write e => exact limits_write o p e
  | reset => rfl

/-- What steps one after the other show of a payload: the outcomes of the writes, and in the end the
text and the number of its lines. -/
def observe (o : Line.Options) (p : Payload) :
    List Step → List (Except WriteError Nat) × String × Nat
  | [] => ([], p.text, p.lines)
  | .write e :: rest =>
    let (outcome, p) := p.write o e
    let (outcomes, seen) := p.observe o rest
    (outcome :: outcomes, seen)
  | .reset :: rest => p.reset.observe o rest

end Payload

namespace Pool

/-- The pool keeps at most as many payloads as it has room for, and if it keeps fewer, at least as
many are out as it lacks. -/
structure Stocked (capacity out : Nat) (p : Pool) : Prop where
  capacity_eq : p.capacity = capacity
  available_le : p.available ≤ capacity
  le_available : capacity ≤ p.available + out

variable {capacity out : Nat} {p : Pool}

/-- Of a new pool, nothing is out. -/
theorem stocked_new (capacity : Nat) (limits : Limits) :
    (Pool.new capacity limits).Stocked (max capacity 1) 0 := by
  refine ⟨rfl, ?_, ?_⟩ <;> simp [available, new]

@[simp]
theorem capacity_borrow (p : Pool) : p.borrow.2.capacity = p.capacity := by
  unfold borrow
  split <;> rfl

/-- Borrowing takes a payload off the shelf, unless there is none and a new one is made. -/
@[simp]
theorem available_borrow (p : Pool) : p.borrow.2.available = p.available - 1 := by
  unfold borrow available
  split
  next hfree => rw [hfree, List.length_nil]
  next hfree => rw [hfree, List.length_cons, Nat.add_sub_cancel]

@[simp]
theorem capacity_put (p : Pool) (payload : Payload) : (p.put payload).capacity = p.capacity := by
  unfold put
  split <;> rfl

/-- A payload that is put back is kept only as long as there is room. -/
theorem available_put (p : Pool) (payload : Payload) :
    (p.put payload).available =
      if p.available < p.capacity then p.available + 1 else p.available := by
  unfold put available
  split
  · rw [List.length_append, List.length_singleton]
  · rfl

/-- Borrowing takes one payload out, whether the pool had one or not. -/
theorem Stocked.borrow (h : p.Stocked capacity out) : p.borrow.2.Stocked capacity (out + 1) := by
  obtain ⟨hcapacity, hle, hlacks⟩ := h
  refine ⟨(capacity_borrow p).trans hcapacity, ?_, ?_⟩ <;> rw [available_borrow] <;> omega

/-- Putting a payload back makes up for one that is out: a pool that lets it go lacks none. -/
theorem Stocked.put (h : p.Stocked capacity (out + 1)) (payload : Payload) :
    (p.put payload).Stocked capacity out := by
  obtain ⟨hcapacity, hle, hlacks⟩ := h
  -- Either the pool keeps one more payload, or it is full and lacks none whatever is out.
  refine ⟨(capacity_put p payload).trans hcapacity, ?_, ?_⟩ <;> rw [available_put] <;> split <;>
    omega

/-- Once nothing is out, the pool is full. -/
theorem Stocked.available_eq (h : p.Stocked capacity 0) : p.available = capacity :=
  le_antisymm h.available_le h.le_available

end Pool

/-- A pool, and the payloads that were borrowed and not yet put back. -/
structure Usage where
  pool : Pool
  out : List Payload := []

namespace Usage

/-- What can be done with a pool. -/
inductive Act where
  | borrow
  /-- One of the payloads that are out is put back. -/
  | put (i : Nat)
  /-- One of them is written to, under any settings of the lines, or reset. -/
  | change (i : Nat) (options : Line.Options) (step : Payload.Step)

def step (u : Usage) : Act → Usage
  | .borrow =>
    let (payload, pool) := u.pool.borrow
    { pool, out := u.out ++ [payload] }
  | .put i =>
    match u.out[i]? with
    | none => u
    | some payload => { pool := u.pool.put payload, out := u.out.eraseIdx i }
  | .change i options s => { u with out := u.out.modify i (·.after options s) }

/-- Do one thing after the other. -/
def run (u : Usage) (acts : List Act) : Usage :=
  acts.foldl step u

/-- Only empty payloads are in the pool, those that are out will be welcome there, and the pool
lacks no more than these. -/
structure Sound (capacity : Nat) (limits : Limits) (u : Usage) : Prop where
  clean : u.pool.Clean limits
  limits_eq : ∀ payload ∈ u.out, payload.limits = limits
  stocked : u.pool.Stocked capacity u.out.length

variable {capacity : Nat} {limits : Limits} {u : Usage}

/-- A new pool is sound, whatever room it is asked to have. -/
theorem sound_new (capacity : Nat) (limits : Limits) :
    Sound (max capacity 1) limits { pool := .new capacity limits } :=
  ⟨Pool.clean_new capacity limits, List.forall_mem_nil _, Pool.stocked_new capacity limits⟩

/-- Whatever is done with a pool, it stays sound. -/
theorem Sound.step (h : u.Sound capacity limits) (act : Act) :
    (u.step act).Sound capacity limits := by
  cases act with
  | borrow =>
    show Sound capacity limits { pool := u.pool.borrow.2, out := u.out ++ [u.pool.borrow.1] }
    refine ⟨h.clean.borrow_snd, fun payload hmem => ?_, ?_⟩
    · -- The one that joins those out came from the pool, or was made with its limits.
      rcases List.mem_append.mp hmem with hold | hnew
      · exact h.limits_eq payload hold
      · rw [List.mem_singleton.mp hnew, h.clean.borrow_fst]
    · rw [List.length_append, List.length_singleton]
      exact h.stocked.borrow
  | put i =>
    simp only [Usage.step]
    split
    · exact h
    next payload hout =>
      have hmem := List.mem_of_getElem? hout
      -- One payload fewer is out.
      have hlength : u.out.length = (u.out.eraseIdx i).length + 1 := by
        have hlt := (List.getElem?_eq_some_iff.mp hout).1
        rw [List.length_eraseIdx_of_lt hlt]
        omega
      refine ⟨h.clean.put (h.limits_eq payload hmem), fun q hq => ?_, ?_⟩
      · exact h.limits_eq q (List.mem_of_mem_eraseIdx hq)
      · exact (hlength ▸ h.stocked).put payload
  | change i options s =>
    refine ⟨h.clean, fun q hq => ?_, ?_⟩
    · -- What is done to a payload that is out leaves its limits alone.
      obtain ⟨j, hj⟩ := List.mem_iff_getElem?.mp hq
      simp only [Usage.step, List.getElem?_modify] at hj
      obtain ⟨payload, hout, rfl⟩ := Option.map_eq_some_iff.mp hj
      have hlimits := h.limits_eq payload (List.mem_of_getElem? hout)
      split
      · rw [Payload.limits_after, hlimits]
      · exact hlimits
    · simpa [Usage.step] using h.stocked

/-- So it is after anything done with it. -/
theorem Sound.run (h : u.Sound capacity limits) (acts : List Act) :
    (u.run acts).Sound capacity limits := by
  induction acts generalizing u with
  | nil => exact h
  | cons act rest ih => exact ih (h.step act)

/-- Of two payloads borrowed from a pool that keeps one, the second one put back is let go. -/
example (limits : Limits) :
    (run { pool := .new 0 limits } [.borrow, .borrow, .put 0, .put 0]).pool.available = 1 := rfl

/-- All payloads in the pool are empty. -/
theorem Sound.isEmpty_of_mem_free (h : u.Sound capacity limits) {payload : Payload}
    (hmem : payload ∈ u.pool.free) : payload.isEmpty = true ∧ payload.text = "" := by
  rw [h.clean.free_eq payload hmem]
  exact ⟨rfl, rfl⟩

end Usage

end DogStatsD
