import DogStatsD.Proofs.Line.Framing
import DogStatsD.Proofs.Payload.Write

/-!
# Histories of Payloads

A payload lives through writes of any entries and resets, in any order. Next to it goes the list of
the lines that the outcomes of the writes since the last reset tell of.

* `History.Sound`: the payload holds exactly those lines, within both limits;
* `History.Sound.step`, `History.sound_run`: every step keeps it so, hence every history does;
* `sound_history`: what a payload looks like after any history, and what the write of one more
  sample does to it.
-/

namespace DogStatsD.Payload

/-- What happens to a payload. -/
inductive Step where
  | write (entry : Entry)
  | reset

/-- A payload and the lines written to it since it was last emptied. -/
structure History where
  payload : Payload
  /-- The lines, the oldest first. -/
  lines : List String := []

namespace History

/-- Carry out a step, and note the line that its outcome tells of. -/
def step (o : Line.Options) (h : History) : Step → History
  | .write e =>
    let (outcome, payload) := h.payload.write o e
    { payload, lines := h.lines ++ written o e outcome }
  | .reset => { payload := h.payload.reset }

/-- Carry out steps one after the other. -/
def run (o : Line.Options) (h : History) (steps : List Step) : History :=
  steps.foldl (step o) h

/-- The payload holds the lines noted and nothing else, within its limits. -/
structure Sound (h : History) : Prop where
  /-- The text is the lines one after the other. -/
  text_eq : h.payload.text = String.join h.lines
  lines_eq : h.payload.lines = h.lines.length
  ended : ∀ line ∈ h.lines, Line.Ended line
  size_le : h.payload.size ≤ h.payload.limits.maxBytes
  lines_le : h.payload.lines ≤ h.payload.limits.maxLines

/-- A payload that nothing was written to is sound. -/
theorem sound_empty (limits : Limits) (scratch : String) :
    Sound { payload := { limits, scratch } } := by
  constructor <;> simp [size]

/-- The lines that an outcome tells of end in newlines. -/
theorem ended_of_mem_written {o : Line.Options} {e : Entry} {outcome : Except WriteError Nat}
    {line : String} (h : line ∈ written o e outcome) : Line.Ended line := by
  cases e with
  | sample s =>
    cases outcome with
    | ok count => exact List.mem_singleton.mp h ▸ Line.ended_ofSample o s
    | error e => cases h
  | batch b =>
    match outcome, h with
    | .ok count, h => exact List.mem_singleton.mp h ▸ Line.ended_ofBatch o _
    | .error (.partly count), h => exact List.mem_singleton.mp h ▸ Line.ended_ofBatch o _

/-- A step keeps a payload sound. -/
theorem Sound.step {h : History} (hs : h.Sound) (o : Line.Options) (s : Step) :
    (h.step o s).Sound := by
  cases s with
  | reset => exact sound_empty h.payload.limits ""
  | write e =>
    have hended : ∀ line ∈ h.lines ++ written o e (h.payload.write o e).1, Line.Ended line := by
      intro line hmem
      rcases List.mem_append.mp hmem with hold | hnew
      · exact hs.ended line hold
      · exact ended_of_mem_written hnew
    -- Either the write left the payload alone, or it appended one line for which there was room.
    obtain ⟨hwritten, htext, hlines⟩ | ⟨line, hwritten, hroom, htext, hlines⟩ :=
      write_cases o h.payload e
    · refine ⟨?_, ?_, hended, ?_, ?_⟩ <;>
        simp only [History.step, size, limits_write, htext, hlines]
      · rw [hwritten, List.append_nil, hs.text_eq]
      · rw [hwritten, List.append_nil, hs.lines_eq]
      · exact hs.size_le
      · exact hs.lines_le
    · refine ⟨?_, ?_, hended, ?_, ?_⟩ <;>
        simp only [History.step, size, limits_write, htext, hlines]
      · rw [hwritten, String.join_append, String.join_cons, String.join_nil, String.append_empty,
          hs.text_eq]
      · rw [hwritten, List.length_append, List.length_singleton, hs.lines_eq]
      · rw [String.utf8ByteSize_append]
        exact hroom.2
      · exact hroom.1

/-- Every history keeps a payload sound. -/
theorem Sound.run {h : History} (hs : h.Sound) (o : Line.Options) (steps : List Step) :
    (h.run o steps).Sound := by
  induction steps generalizing h with
  | nil => exact hs
  | cons s rest ih => exact ih (hs.step o s)

/-- A step leaves the limits alone. -/
theorem limits_step (o : Line.Options) (h : History) (s : Step) :
    (h.step o s).payload.limits = h.payload.limits := by
  cases s with
  | reset => rfl
  | write e => exact limits_write o h.payload e

/-- A history leaves the limits alone. -/
theorem limits_run (o : Line.Options) (h : History) (steps : List Step) :
    (h.run o steps).payload.limits = h.payload.limits := by
  induction steps generalizing h with
  | nil => rfl
  | cons s rest ih => exact (ih (h.step o s)).trans (limits_step o h s)

/-- A sound payload has no lines exactly if it holds no bytes. -/
theorem Sound.lines_eq_zero_iff {h : History} (hs : h.Sound) :
    h.payload.lines = 0 ↔ h.payload.text = "" := by
  rw [hs.lines_eq, hs.text_eq, List.length_eq_zero_iff]
  constructor
  · intro hnone
    rw [hnone, String.join_nil]
  · -- Of lines that end in newlines, none is without bytes.
    intro hempty
    cases hlines : h.lines with
    | nil => rfl
    | cons line rest =>
      rw [hlines, String.join_cons, String.append_eq_empty_iff] at hempty
      have hmem : line ∈ h.lines := hlines ▸ List.mem_cons_self
      exact absurd hempty.1 (hs.ended line hmem).ne_empty

end History

/-- After any history from an empty payload, both limits are kept, there are no lines exactly if
there are no bytes, and the bytes are the lines written since the last reset, one after the other
and each ended by a newline. One more sample is then appended as its line `e`, which only the
options and the sample decide, if and only if both limits allow; otherwise the payload is full and
stays as it is. -/
theorem sound_history (o : Line.Options) (limits : Limits) (steps : List Step) :
    let h := History.run o { payload := { limits } } steps
    let p := h.payload
    p.size ≤ limits.maxBytes ∧ p.lines ≤ limits.maxLines ∧
    (p.lines = 0 ↔ p.text = "") ∧
    p.text = String.join h.lines ∧ p.lines = h.lines.length ∧
    (∀ line ∈ h.lines, ∃ body, line = body ++ "\n") ∧
    ∀ s : Sample,
      let e := Line.ofSample o s
      (({ limits := ⟨e.utf8ByteSize, 1⟩ } : Payload).write o (.sample s)).2.text = e ∧
      ((p.write o (.sample s)).1 = .ok 1 ↔
        p.lines < limits.maxLines ∧ p.size + e.utf8ByteSize ≤ limits.maxBytes) ∧
      ((p.write o (.sample s)).1 = .ok 1 →
        (p.write o (.sample s)).2 = { p with text := p.text ++ e, lines := p.lines + 1 }) ∧
      ((p.write o (.sample s)).1 ≠ .ok 1 → p.write o (.sample s) = (.error .full, p)) := by
  intro h p
  have hs : h.Sound := (History.sound_empty limits "").run o steps
  have hlimits : p.limits = limits := History.limits_run o _ steps
  refine ⟨hlimits ▸ hs.size_le, hlimits ▸ hs.lines_le, hs.lines_eq_zero_iff, hs.text_eq,
    hs.lines_eq, hs.ended, fun s => ⟨?_, ?_, ?_, ?_⟩⟩
  · -- Alone, in a payload just large enough, the line is what is written.
    have halone : ({ limits := ⟨(Line.ofSample o s).utf8ByteSize, 1⟩ } : Payload).HasRoom
        (Line.ofSample o s) := by simp [HasRoom, size]
    rw [write, writeSample_eq, if_pos halone]
    exact String.empty_append
  -- The history has not changed the limits.
  · rw [← hlimits]
    exact writeSample_ok_iff o p s
  · intro hok
    rw [write, writeSample_of_hasRoom ((writeSample_ok_iff o p s).mp hok), append]
  · intro hfull
    exact writeSample_of_not_hasRoom fun hroom => hfull ((writeSample_ok_iff o p s).mpr hroom)

end DogStatsD.Payload
