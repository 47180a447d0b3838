import DogStatsD.Proofs.Packer.Exchange

/-!
# Greedy Packing

Which lines go together in a payload follows from the lines alone, by a rule that knows nothing of
buffers, pools or queues: a line joins the current payload while both limits allow, opens the next
one otherwise, and is dropped if it is longer than any payload. `Packing` is that rule, and packers
follow it.

* `Packing.Sound`: the rule loses, doubles, reorders and splits no line, and its payloads are not
  empty and within both limits;
* `Packing.Describes`: a packer fills the payload that the rule fills, and has dropped as much;
* `Packing.Describes.handOver`, `Packing.Describes.addSample`: handing over and writing a sample are
  steps of the rule, and the outbox is given what the rule closes.
-/

namespace DogStatsD

/-- Lines packed into payloads. -/
structure Packing where
  /-- The payloads closed, the oldest first, each as its lines. -/
  closed : List (List String) := []
  /-- The lines of the payload being filled. -/
  current : List String := []
  dropped : Nat := 0

/-- The number of bytes of lines together. -/
def joinedSize (lines : List String) : Nat :=
  (String.join lines).utf8ByteSize

namespace Packing

/-- Close the current payload if it holds a line. -/
def close (g : Packing) : Packing :=
  if g.current = [] then g else { g with closed := g.closed ++ [g.current], current := [] }

/-- Pack a line. One that is longer than any payload is dropped, and closes the current payload. Any
other line joins the current payload if both limits allow, and else opens the next one. -/
def add (limits : Limits) (g : Packing) (line : String) : Packing :=
  if limits.maxBytes < line.utf8ByteSize then { g.close with dropped := g.dropped + 1 }
  else if g.current.length < limits.maxLines ∧
      joinedSize g.current + line.utf8ByteSize ≤ limits.maxBytes then
    { g with current := g.current ++ [line] }
  else { g.close with current := [line] }

end Packing

namespace Payload

/-- The payload that holds the given lines. -/
def ofLines (limits : Limits) (lines : List String) : Payload :=
  { limits, text := String.join lines, lines := lines.length }

/-- A payload has room for a line if both limits allow one more. -/
theorem hasRoom_ofLines {limits : Limits} {lines : List String} {line : String} :
    (ofLines limits lines).HasRoom line ↔ lines.length < limits.maxLines ∧
      joinedSize lines + line.utf8ByteSize ≤ limits.maxBytes :=
  Iff.rfl

/-- Appending a line to a payload adds it to the lines that the payload holds. -/
theorem append_ofLines (limits : Limits) (lines : List String) (line : String) :
    (ofLines limits lines).append line = ofLines limits (lines ++ [line]) := by
  simp [append, ofLines]

end Payload

namespace Packing

variable {τ : Type}

/-- Hand over the payloads that a packing has closed and an earlier one had not. -/
def handOverSince (limits : Limits) (earlier later : Packing) (o : Outbox τ) : Outbox τ :=
  (later.closed.drop earlier.closed.length).foldl
    (fun o lines => o.takeOver (.ofLines limits lines)) o

/-! ## What the rule does with lines -/

/-- The payloads hold the given lines as far as they fit at all, and are within the limits. -/
structure Sound (limits : Limits) (lines : List String) (g : Packing) : Prop where
  /-- No line that fits is lost, doubled, reordered or split. -/
  flatten_eq : g.closed.flatten ++ g.current =
    lines.filter fun line => line.utf8ByteSize ≤ limits.maxBytes
  dropped_eq : g.dropped = lines.countP fun line => limits.maxBytes < line.utf8ByteSize
  closed_ne_nil : ∀ lines ∈ g.closed, lines ≠ []
  /-- Every payload is within both limits. -/
  within : ∀ lines ∈ g.closed ++ [g.current],
    lines.length ≤ limits.maxLines ∧ joinedSize lines ≤ limits.maxBytes

/-- Nothing is in the payloads at first. -/
theorem sound_nil (limits : Limits) : Sound limits [] {} := by
  constructor <;> simp [joinedSize]

/-- Closing the current payload keeps the rule. -/
theorem Sound.close {limits : Limits} {lines : List String} {g : Packing}
    (h : g.Sound limits lines) : g.close.Sound limits lines := by
  unfold Packing.close
  split
  case isTrue => exact h
  next hcurrent =>
    -- The lines stay where they are, but the last payload is a closed one now.
    refine ⟨?_, h.dropped_eq, ?_, ?_⟩
    · rw [List.flatten_append, List.flatten_singleton, List.append_nil]
      exact h.flatten_eq
    · intro packed hmem
      rcases List.mem_append.mp hmem with hold | hnew
      · exact h.closed_ne_nil packed hold
      · exact List.mem_singleton.mp hnew ▸ hcurrent
    · intro packed hmem
      rcases List.mem_append.mp hmem with hold | hnew
      · exact h.within packed hold
      · rw [List.mem_singleton.mp hnew]
        exact ⟨Nat.zero_le _, Nat.zero_le _⟩

/-- A payload that was closed is followed by an empty one. -/
@[simp]
theorem current_close (g : Packing) : g.close.current = [] := by
  unfold close
  split
  · assumption
  · rfl

/-- Closing drops nothing. -/
@[simp]
theorem dropped_close (g : Packing) : g.close.dropped = g.dropped := by
  unfold close
  split <;> rfl

/-- A line that fits can join a current payload which has room for it. -/
theorem Sound.join {limits : Limits} {lines : List String} {g : Packing}
    (h : g.Sound limits lines) (line : String) (hfits : line.utf8ByteSize ≤ limits.maxBytes)
    (hlines : g.current.length < limits.maxLines)
    (hsize : joinedSize g.current + line.utf8ByteSize ≤ limits.maxBytes) :
    Sound limits (lines ++ [line]) { g with current := g.current ++ [line] } := by
  refine ⟨?_, ?_, h.closed_ne_nil, ?_⟩
  · rw [← List.append_assoc, h.flatten_eq]
    simp [hfits]
  · rw [List.countP_append, ← h.dropped_eq]
    simp [hfits]
  · intro packed hmem
    rcases List.mem_append.mp hmem with hold | hnew
    · exact h.within packed (List.mem_append_left _ hold)
    · rw [List.mem_singleton.mp hnew]
      refine ⟨by simpa using Nat.succ_le_of_lt hlines, ?_⟩
      simpa [joinedSize] using hsize

/-- A line that fits nowhere is counted and otherwise left out. -/
theorem Sound.skip {limits : Limits} {lines : List String} {g : Packing}
    (h : g.Sound limits lines) {line : String} (hlong : limits.maxBytes < line.utf8ByteSize) :
    Sound limits (lines ++ [line]) { g with dropped := g.dropped + 1 } := by
  refine ⟨?_, ?_, h.closed_ne_nil, h.within⟩
  · rw [h.flatten_eq]
    simp [hlong]
  · rw [List.countP_append, ← h.dropped_eq]
    simp [hlong]

/-- Packing a line keeps the rule. -/
theorem Sound.add {limits : Limits} (hpos : 1 ≤ limits.maxLines) {lines : List String}
    {g : Packing} (h : g.Sound limits lines) (line : String) :
    (g.add limits line).Sound limits (lines ++ [line]) := by
  unfold Packing.add
  split
  next hlong => simpa using h.close.skip hlong
  next hfits =>
    split
    next hroom => exact h.join line (Nat.not_lt.mp hfits) hroom.1 hroom.2
    next =>
      -- The next payload is empty, so that a line which fits at all fits there.
      have hopen := h.close.join line (Nat.not_lt.mp hfits)
        (by simpa using Nat.lt_of_lt_of_le Nat.zero_lt_one hpos)
        (by simpa [joinedSize] using Nat.not_lt.mp hfits)
      simpa using hopen

/-! ## What the rule does with the outbox -/

variable {τ : Type} {limits : Limits}

/-- Closing hands over the current payload if it holds a line. -/
theorem handOverSince_close (g : Packing) (o : Outbox τ) :
    g.handOverSince limits g.close o =
      if g.current = [] then o else o.takeOver (.ofLines limits g.current) := by
  unfold handOverSince close
  split <;> simp

/-- Nothing is handed over where nothing was closed. -/
theorem handOverSince_self {g later : Packing} (h : later.closed = g.closed) (o : Outbox τ) :
    g.handOverSince limits later o = o := by
  simp [handOverSince, h]

/-- The outbox stays clean when payloads are handed over. -/
theorem clean_handOverSince {o : Outbox τ} (h : o.Clean limits) (earlier later : Packing) :
    (earlier.handOverSince limits later o).Clean limits := by
  unfold handOverSince
  induction later.closed.drop earlier.closed.length generalizing o with
  | nil => exact h
  | cons lines rest ih => exact ih (h.takeOver rfl)

/-! ## Packers and the rule -/

/-- A packer fills the payload that a packing fills, and has dropped as much. -/
structure Describes (g : Packing) (options : Line.Options) (limits : Limits) (p : Packer) :
    Prop where
  options_eq : p.options = options
  /-- The payload being filled holds the lines of the packing. -/
  current_eq : p.current = .ofLines limits g.current
  oversized_eq : p.oversized = g.dropped

variable {g : Packing} {options : Line.Options} {p : Packer}

/-- Handing over closes the current payload, and the outbox is given what was closed. -/
theorem Describes.handOver (h : g.Describes options limits p) {o : Outbox τ}
    (ho : o.Clean limits) :
    g.close.Describes options limits (p.handOver o).1 ∧
      (p.handOver o).2 = g.handOverSince limits g.close o := by
  rw [Packer.handOver_eq ho, h.current_eq, handOverSince_close]
  by_cases hempty : g.current = []
  · -- Neither side does anything.
    have hclose : g.close = g := if_pos hempty
    simp only [hempty, Payload.ofLines, List.length_nil, if_true, hclose, and_true]
    exact h
  · have hlines : (Payload.ofLines limits g.current).lines ≠ 0 := by
      simpa [Payload.ofLines] using hempty
    rw [if_neg hlines, if_neg hempty]
    refine ⟨⟨h.options_eq, ?_, ?_⟩, rfl⟩
    · rw [current_close]
      rfl
    · rw [dropped_close]
      exact h.oversized_eq

/-- Writing a sample packs its line, and the outbox is given what was closed. -/
theorem Describes.addSample (h : g.Describes options limits p) (hpos : 1 ≤ limits.maxLines)
    {o : Outbox τ} (ho : o.Clean limits) (s : Sample) :
    (g.add limits (Line.ofSample options s)).Describes options limits (p.addSample o s).1 ∧
      (p.addSample o s).2 = g.handOverSince limits (g.add limits (Line.ofSample options s)) o := by
  have hline : Line.ofSample p.options s = Line.ofSample options s := by rw [h.options_eq]
  -- Packer and rule look at the same room.
  have hiff : p.current.HasRoom (Line.ofSample p.options s) ↔
      g.current.length < limits.maxLines ∧
        joinedSize g.current + (Line.ofSample options s).utf8ByteSize ≤ limits.maxBytes := by
    rw [hline, h.current_eq, Payload.hasRoom_ofLines]
  unfold Packing.add
  by_cases hroom : p.current.HasRoom (Line.ofSample p.options s)
  · have hfits := hiff.mp hroom
    rw [Packer.addSample_of_hasRoom hroom, if_neg (by omega), if_pos hfits, hline, h.current_eq,
      Payload.append_ofLines]
    exact ⟨⟨h.options_eq, rfl, h.oversized_eq⟩, (handOverSince_self rfl o).symm⟩
  · -- The payload is handed over, and the sample is tried once more with an empty one.
    obtain ⟨hclosed, houtbox⟩ := h.handOver ho
    have hempty := hclosed.current_eq
    rw [current_close] at hempty
    rw [Packer.addSample_of_not_hasRoom hroom, if_neg (mt hiff.mpr hroom), hline]
    by_cases hlong : limits.maxBytes < (Line.ofSample options s).utf8ByteSize
    · have hnone : ¬(Payload.ofLines limits []).HasRoom (Line.ofSample options s) := by
        simp [Payload.hasRoom_ofLines, joinedSize, hlong]
      rw [if_pos hlong]
      simp only [hempty, hnone, if_false]
      refine ⟨⟨hclosed.options_eq, ?_, ?_⟩, houtbox⟩
      · exact hclosed.current_eq
      · exact congrArg (· + 1) (hclosed.oversized_eq.trans g.dropped_close)
    · have halone : (Payload.ofLines limits []).HasRoom (Line.ofSample options s) := by
        rw [Payload.hasRoom_ofLines]
        exact ⟨hpos, by simpa [joinedSize] using Nat.not_lt.mp hlong⟩
      rw [if_neg hlong]
      simp only [hempty, halone, if_true, Payload.append_ofLines]
      exact ⟨⟨hclosed.options_eq, rfl, hclosed.oversized_eq⟩, houtbox⟩

end Packing

end DogStatsD
