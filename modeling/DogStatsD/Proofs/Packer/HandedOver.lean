import DogStatsD.Proofs.Outbox.Fates

/-!
# Lines on Their Way

A line that a packer has taken stands in its payload until that is handed over, and from then on the
fate of the payload is the fate of the line. A sample that does not fit even then is counted instead
of its line.

* `Packer.finished`, `Packer.displaced`: the payloads that a packer hands over, when asked to and
  when a sample does not fit;
* `Packer.handsOver_handOver`, `Packer.handsOver_addSample`: that those are what the outbox is
  given, and that the lines add up;
* `Fates.Tells.takeOverAll`, `Fates.lines_postAll`: what their fates add to a history.
-/

namespace DogStatsD

/-- The lines of some payloads. -/
def linesIn (payloads : List Payload) : Nat :=
  (payloads.map Payload.lines).sum

@[simp]
theorem linesIn_nil : linesIn [] = 0 := rfl

@[simp]
theorem linesIn_append (front back : List Payload) :
    linesIn (front ++ back) = linesIn front + linesIn back := by
  simp [linesIn]

@[simp]
theorem linesIn_singleton (payload : Payload) : linesIn [payload] = payload.lines := by
  simp [linesIn]

/-- Empty payloads have no lines. -/
theorem linesIn_filter_holdsLine (payloads : List Payload) :
    linesIn (payloads.filter Fates.holdsLine) = linesIn payloads := by
  induction payloads with
  | nil => rfl
  | cons payload rest ih =>
    by_cases hempty : payload.lines = 0
    · rw [List.filter_cons_of_neg (by simp [Fates.holdsLine, Payload.isEmpty, hempty]), ih]
      simp [linesIn, hempty]
    · rw [List.filter_cons_of_pos (by simp [Fates.holdsLine, Payload.isEmpty, hempty])]
      simpa [linesIn] using ih

namespace Outbox

variable {τ : Type}

/-- Take payloads one after the other, each in exchange for an empty one. -/
def takeOverAll (o : Outbox τ) (payloads : List Payload) : Outbox τ :=
  payloads.foldl takeOver o

/-- Exchanging payloads leaves the outbox clean. -/
theorem Clean.takeOverAll {o : Outbox τ} {limits : Limits} (h : o.Clean limits)
    {payloads : List Payload} (hlimits : ∀ payload ∈ payloads, payload.limits = limits) :
    (o.takeOverAll payloads).Clean limits := by
  induction payloads generalizing o with
  | nil => exact h
  | cons payload rest ih =>
    obtain ⟨hfirst, hrest⟩ := List.forall_mem_cons.mp hlimits
    exact ih (h.takeOver hfirst) hrest

end Outbox

namespace Fates

variable {τ : Type}

/-- Post payloads one after the other, each in exchange for an empty one. -/
def postAll (f : Fates) (o : Outbox τ) : List Payload → Fates
  | [] => f
  | payload :: rest => (f.post o payload).postAll (o.takeOver payload) rest

/-- The lines of all payloads posted. -/
def lines (f : Fates) : Nat :=
  linesIn f.admitted + linesIn f.refused

theorem lines_post (f : Fates) (o : Outbox τ) (payload : Payload) :
    (f.post o payload).lines = f.lines + payload.lines := by
  unfold post lines
  split
  · simp only [linesIn_append, linesIn_singleton]
    omega
  · simp only [linesIn_append, linesIn_singleton]
    omega

/-- Posting payloads adds their lines. -/
theorem lines_postAll (f : Fates) (o : Outbox τ) (payloads : List Payload) :
    (f.postAll o payloads).lines = f.lines + linesIn payloads := by
  induction payloads generalizing f o with
  | nil => rfl
  | cons payload rest ih =>
    rw [postAll, ih, lines_post]
    simp [linesIn, Nat.add_assoc]

/-- Borrowing a payload leaves the history as it is. -/
theorem Tells.borrow {f : Fates} {o : Outbox τ} (h : f.Tells o) : f.Tells o.borrow.2 :=
  ⟨h.sent_eq, h.failed_eq, h.overflowed_eq, h.admitted_eq, h.returned_perm⟩

/-- Posting payloads keeps the history. -/
theorem Tells.takeOverAll {f : Fates} {o : Outbox τ} (h : f.Tells o) (payloads : List Payload) :
    (f.postAll o payloads).Tells (o.takeOverAll payloads) := by
  induction payloads generalizing f o with
  | nil => exact h
  | cons payload rest ih => exact ih (h.borrow.post payload)

/-- Every line posted was sent, failed or refused, or is waiting. -/
theorem Tells.lines_eq {f : Fates} {o : Outbox τ} (h : f.Tells o) :
    f.lines = linesIn f.sent + linesIn f.failed + linesIn f.refused +
      linesIn (Outbox.waiting o.queue) := by
  have hwritten : linesIn (f.written.map Prod.fst) = linesIn f.sent + linesIn f.failed := by
    have hperm := ((List.filter_append_perm (·.2) f.written).map
      fun write : Payload × Bool => write.1.lines).sum_eq
    rw [← linesIn_append, sent, failed, ← List.map_append, linesIn, linesIn, List.map_map,
      List.map_map]
    exact hperm.symm
  have hadmitted := congrArg linesIn h.admitted_eq
  rw [linesIn_filter_holdsLine, linesIn_append, linesIn_filter_holdsLine, hwritten] at hadmitted
  rw [lines, hadmitted]
  omega

variable [Transport τ]

/-- Carrying out a command posts nothing. -/
theorem lines_perform (f : Fates) (o : Outbox τ) (command : Command) :
    (f.perform o command).lines = f.lines := by
  obtain ⟨hadmitted, hrefused⟩ := performAll_sorted f o [command]
  rw [performAll, performAll] at hadmitted hrefused
  rw [lines, hadmitted, hrefused, lines]

end Fates

namespace Packer

variable {τ : Type}

/-- The payload being filled, if anything was written to it. -/
def finished (p : Packer) : List Payload :=
  if p.current.isEmpty then [] else [p.current]

/-- What a packer hands over before it writes a sample. -/
def displaced (p : Packer) (s : Sample) : List Payload :=
  if p.current.HasRoom (Line.ofSample p.options s) then [] else p.finished

/-- The lines in the payload being filled and the entries dropped. -/
def load (p : Packer) : Nat :=
  p.current.lines + p.oversized

/-- A packer gives payloads to an outbox, takes some entries, and goes on with a payload within the
same limits. -/
structure HandsOver (limits : Limits) (before : Packer × Outbox τ) (payloads : List Payload)
    (taken : Nat) (after : Packer × Outbox τ) : Prop where
  outbox_eq : after.2 = before.2.takeOverAll payloads
  limits_eq : after.1.current.limits = limits
  payloads_limits_eq : ∀ payload ∈ payloads, payload.limits = limits
  /-- Every line is in its payload or in one handed over, or it is counted. -/
  load_eq : after.1.load + linesIn payloads = before.1.load + taken

variable {limits : Limits} {p : Packer} {o : Outbox τ}

/-- Handing over gives the payload being filled to the outbox, and takes nothing. -/
theorem handsOver_handOver (hp : p.current.limits = limits) (ho : o.Clean limits) :
    HandsOver limits (p, o) p.finished 0 (p.handOver o) := by
  rw [handOver_eq ho, finished, Payload.isEmpty]
  by_cases hempty : p.current.lines = 0
  · simp only [hempty, beq_self_eq_true, if_true]
    exact ⟨rfl, hp, List.forall_mem_nil _, rfl⟩
  · simp only [hempty, beq_iff_eq, if_false]
    refine ⟨rfl, rfl, List.forall_mem_singleton.mpr hp, ?_⟩
    simp only [load, linesIn_singleton]
    omega

/-- Adding a sample gives the payload being filled to the outbox if the sample does not fit, and
takes the sample. -/
theorem handsOver_addSample (hp : p.current.limits = limits) (ho : o.Clean limits) (s : Sample) :
    HandsOver limits (p, o) (p.displaced s) 1 (p.addSample o s) := by
  by_cases hroom : p.current.HasRoom (Line.ofSample p.options s)
  · rw [addSample_of_hasRoom hroom, displaced, if_pos hroom]
    refine ⟨rfl, hp, List.forall_mem_nil _, ?_⟩
    simp only [load, Payload.append, linesIn_nil]
    omega
  · have hover := handsOver_handOver hp ho
    have hload := hover.load_eq
    rw [addSample_of_not_hasRoom hroom, displaced, if_neg hroom]
    dsimp only at hload ⊢
    -- The sample is written to the next payload, or counted.
    split
    · refine ⟨hover.outbox_eq, hover.limits_eq, hover.payloads_limits_eq, ?_⟩
      simp only [load, Payload.append] at hload ⊢
      omega
    · refine ⟨hover.outbox_eq, hover.limits_eq, hover.payloads_limits_eq, ?_⟩
      simp only [load, drop] at hload ⊢
      omega

end Packer

end DogStatsD
