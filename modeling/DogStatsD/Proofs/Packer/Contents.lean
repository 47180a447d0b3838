import DogStatsD.Proofs.Packer.Greedy
import DogStatsD.Proofs.Packer.HandedOver
import Mathlib.Data.List.Forall2

/-!
# What a Packer Holds

The payload being filled is made of lines one after the other. Whatever a packer does puts lines
behind them or lets all of them go in one payload, and it counts what it leaves out.

* `Payload.Holds`: the lines that a payload is made of;
* `Packer.Filled`: a packer with the given lines in its payload, before a clean outbox, as a new one
  is (`Packer.filled_new`);
* `Packer.Advances`: a part of a run puts some lines behind those that were there, and drops a
  number of entries;
* `Packer.Filled.handOver`, `Packer.Filled.addSample`: so do handing over and adding a sample.
-/

namespace DogStatsD

namespace Payload

/-- A payload is made of the given lines, and is within both limits. Where it makes up trailers does
not matter. -/
structure Holds (limits : Limits) (lines : List String) (p : Payload) : Prop where
  limits_eq : p.limits = limits
  text_eq : p.text = String.join lines
  lines_eq : p.lines = lines.length
  length_le : lines.length ≤ limits.maxLines
  joinedSize_le : joinedSize lines ≤ limits.maxBytes

variable {limits : Limits} {lines : List String} {p : Payload}

theorem holds_nil (limits : Limits) : Holds limits [] { limits } :=
  ⟨rfl, rfl, rfl, Nat.zero_le _, Nat.zero_le _⟩

theorem Holds.size_eq (h : p.Holds limits lines) : p.size = joinedSize lines :=
  congrArg String.utf8ByteSize h.text_eq

theorem Holds.lines_eq_zero_iff (h : p.Holds limits lines) : p.lines = 0 ↔ lines = [] := by
  rw [h.lines_eq, List.length_eq_zero_iff]

/-- A payload without lines is within every limit, so that it has room for a line if an empty
payload has. -/
theorem holds_nil_hasRoom_iff (h : p.Holds limits []) (hpos : 1 ≤ limits.maxLines) (line : String) :
    p.HasRoom line ↔ line.utf8ByteSize ≤ limits.maxBytes := by
  have hsize : p.size = 0 := h.size_eq
  have hlines : p.lines = 0 := h.lines_eq
  rw [HasRoom, h.limits_eq, hsize, hlines, Nat.zero_add]
  exact and_iff_right hpos

/-- A line for which there is room goes behind the others. -/
theorem Holds.append (h : p.Holds limits lines) {line : String} (hroom : p.HasRoom line) :
    (p.append line).Holds limits (lines ++ [line]) := by
  obtain ⟨hlines, hsize⟩ := hroom
  rw [h.limits_eq, h.lines_eq] at hlines
  rw [h.limits_eq, h.size_eq] at hsize
  refine ⟨h.limits_eq, ?_, ?_, ?_, ?_⟩
  · show p.text ++ line = _
    rw [h.text_eq]
    simp
  · show p.lines + 1 = _
    rw [h.lines_eq]
    simp
  · simpa using Nat.succ_le_of_lt hlines
  · simpa [joinedSize] using hsize

theorem Holds.scratch (h : p.Holds limits lines) (scratch : String) :
    ({ p with scratch } : Payload).Holds limits lines :=
  ⟨h.limits_eq, h.text_eq, h.lines_eq, h.length_le, h.joinedSize_le⟩

/-- Payloads that hold some lines each are not empty, and within both limits. -/
theorem within_of_forall₂_holds {packed : List (List String)} {payloads : List Payload}
    (h : List.Forall₂ (Holds limits) packed payloads) (hne : ∀ lines ∈ packed, lines ≠ []) :
    ∀ payload ∈ payloads, payload.limits = limits ∧ payload.lines ≠ 0 ∧
      payload.lines ≤ limits.maxLines ∧ payload.size ≤ limits.maxBytes := by
  induction h with
  | nil => exact List.forall_mem_nil _
  | cons hfirst _ ih =>
    obtain ⟨hsome, hothers⟩ := List.forall_mem_cons.mp hne
    refine List.forall_mem_cons.mpr ⟨⟨hfirst.limits_eq, ?_, ?_, ?_⟩, ih hothers⟩
    · exact mt hfirst.lines_eq_zero_iff.mp hsome
    · exact hfirst.lines_eq ▸ hfirst.length_le
    · exact hfirst.size_eq ▸ hfirst.joinedSize_le

/-- The texts of payloads are those of their lines. -/
theorem map_text_of_forall₂_holds {packed : List (List String)} {payloads : List Payload}
    (h : List.Forall₂ (Holds limits) packed payloads) :
    payloads.map text = packed.map String.join := by
  induction h with
  | nil => rfl
  | cons hfirst _ ih => rw [List.map_cons, List.map_cons, hfirst.text_eq, ih]

end Payload

namespace Packer

variable {τ : Type}

/-- The payload being filled holds the given lines, and the outbox gives an empty one for it. -/
structure Filled (options : Line.Options) (limits : Limits) (lines : List String)
    (state : Packer × Outbox τ) : Prop where
  options_eq : state.1.options = options
  holds : state.1.current.Holds limits lines
  clean : state.2.Clean limits

/-- A part of a run puts some lines behind those in the payload being filled, and drops a number of
entries. What is not among the last lines was handed over before them. -/
structure Advances (options : Line.Options) (limits : Limits) (before : Packer × Outbox τ)
    (lines added : List String) (dropped : Nat) (after : Packer × Outbox τ)
    (last : List String) : Prop where
  filled : Filled options limits last after
  oversized_eq : after.1.oversized = before.1.oversized + dropped
  exists_handed : ∃ (handed : List Payload) (packed : List (List String)),
    after.2 = before.2.takeOverAll handed ∧ List.Forall₂ (Payload.Holds limits) packed handed ∧
      (∀ lines ∈ packed, lines ≠ []) ∧ packed.flatten ++ last = lines ++ added

variable {options : Line.Options} {limits : Limits} {lines added more last final : List String}
  {dropped further : Nat} {before after later : Packer × Outbox τ} {p : Packer} {o : Outbox τ}

/-- A new packer holds no lines. -/
theorem filled_new (options : Line.Options) (ho : o.Clean limits) :
    Filled options limits [] (Packer.new options o) := by
  refine ⟨rfl, ?_, ho.borrow_snd⟩
  show o.borrow.1.Holds limits []
  rw [ho.borrow_fst]
  exact Payload.holds_nil limits

theorem Advances.trans (h : Advances options limits before lines added dropped after last)
    (hlater : Advances options limits after last more further later final) :
    Advances options limits before lines (added ++ more) (dropped + further) later final := by
  obtain ⟨handed, packed, houtbox, hholds, hne, hlines⟩ := h.exists_handed
  obtain ⟨handed', packed', houtbox', hholds', hne', hlines'⟩ := hlater.exists_handed
  refine ⟨hlater.filled, ?_, handed ++ handed', packed ++ packed', ?_, ?_, ?_, ?_⟩
  · rw [hlater.oversized_eq, h.oversized_eq, Nat.add_assoc]
  · rw [houtbox', houtbox]
    simp [Outbox.takeOverAll]
  · exact List.rel_append hholds hholds'
  · exact List.forall_mem_append.mpr ⟨hne, hne'⟩
  · -- The lines that were last are the first of those handed over next.
    calc (packed ++ packed').flatten ++ final
        = packed.flatten ++ (packed'.flatten ++ final) := by simp
      _ = (packed.flatten ++ last) ++ more := by rw [hlines', List.append_assoc]
      _ = lines ++ (added ++ more) := by rw [hlines, List.append_assoc]

/-- Lines are put into the payload being filled. -/
theorem Filled.put (h : Filled options limits lines (p, o)) {current : Payload}
    (hcurrent : current.Holds limits (lines ++ added)) :
    Advances options limits (p, o) lines added 0 ({ p with current }, o) (lines ++ added) :=
  ⟨⟨h.options_eq, hcurrent, h.clean⟩, rfl, [], [], rfl, .nil, List.forall_mem_nil _, rfl⟩

/-- A payload with the same lines makes no difference. -/
theorem Filled.exchange (h : Filled options limits lines (p, o)) {current : Payload}
    (hcurrent : current.Holds limits lines) :
    Advances options limits (p, o) lines [] 0 ({ p with current }, o) lines :=
  ⟨⟨h.options_eq, hcurrent, h.clean⟩, rfl, [], [], rfl, .nil, List.forall_mem_nil _,
    (List.append_nil _).symm⟩

/-- An entry that is dropped puts no line anywhere. -/
theorem Filled.drop (h : Filled options limits lines (p, o)) :
    Advances options limits (p, o) lines [] 1 (p.drop, o) lines :=
  ⟨⟨h.options_eq, h.holds, h.clean⟩, rfl, [], [], rfl, .nil, List.forall_mem_nil _,
    (List.append_nil _).symm⟩

/-- Handing over lets all lines go, and leaves none behind. -/
theorem Filled.handOver (h : Filled options limits lines (p, o)) :
    Advances options limits (p, o) lines [] 0 (p.handOver o) [] := by
  rw [handOver_eq h.clean]
  by_cases hempty : p.current.lines = 0
  · -- There is no line to let go.
    obtain rfl := h.holds.lines_eq_zero_iff.mp hempty
    rw [if_pos hempty]
    exact ⟨h, rfl, [], [], rfl, .nil, List.forall_mem_nil _, rfl⟩
  · rw [if_neg hempty]
    refine ⟨⟨h.options_eq, Payload.holds_nil limits, h.clean.takeOver h.holds.limits_eq⟩, rfl,
      [p.current], [lines], rfl, .cons h.holds .nil, List.forall_mem_singleton.mpr ?_, by simp⟩
    exact mt h.holds.lines_eq_zero_iff.mpr hempty

/-! ## Samples -/

/-- The lines written for a sample: its line, unless no payload has room for it. -/
def sampleLines (options : Line.Options) (limits : Limits) (s : Sample) : List String :=
  if (Line.ofSample options s).utf8ByteSize ≤ limits.maxBytes then [Line.ofSample options s] else []

/-- The number of samples dropped of one: whether no payload has room for its line. -/
def sampleDrops (options : Line.Options) (limits : Limits) (s : Sample) : Nat :=
  if (Line.ofSample options s).utf8ByteSize ≤ limits.maxBytes then 0 else 1

/-- Adding a sample puts its line behind the others, if any payload has room for it. -/
theorem Filled.addSample (h : Filled options limits lines (p, o)) (hpos : 1 ≤ limits.maxLines)
    (s : Sample) :
    ∃ last, Advances options limits (p, o) lines (sampleLines options limits s)
      (sampleDrops options limits s) (p.addSample o s) last := by
  obtain rfl := h.options_eq
  by_cases hroom : p.current.HasRoom (Line.ofSample p.options s)
  · -- What fits behind other lines fits alone.
    have hfits : (Line.ofSample p.options s).utf8ByteSize ≤ limits.maxBytes := by
      have hsize := hroom.2
      rw [h.holds.limits_eq] at hsize
      omega
    rw [addSample_of_hasRoom hroom, sampleLines, sampleDrops, if_pos hfits, if_pos hfits]
    exact ⟨_, h.put (h.holds.append hroom)⟩
  · rw [addSample_of_not_hasRoom hroom]
    have hover := h.handOver
    have hnext := hover.filled
    have hiff := Payload.holds_nil_hasRoom_iff hnext.holds hpos (Line.ofSample p.options s)
    dsimp only
    by_cases hfits : (Line.ofSample p.options s).utf8ByteSize ≤ limits.maxBytes
    · have hput := hnext.put (hnext.holds.append (hiff.mpr hfits))
      rw [if_pos (hiff.mpr hfits), sampleLines, sampleDrops, if_pos hfits, if_pos hfits]
      exact ⟨_, hover.trans hput⟩
    · rw [if_neg (mt hiff.mp hfits), sampleLines, sampleDrops, if_neg hfits, if_neg hfits]
      exact ⟨_, hover.trans hnext.drop⟩

end Packer

end DogStatsD
