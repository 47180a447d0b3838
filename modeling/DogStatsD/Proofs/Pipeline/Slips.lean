import DogStatsD.Proofs.Outbox.Wire
import DogStatsD.Proofs.Packer.Batches
import DogStatsD.Proofs.Pipeline.Shards

/-!
# Slips

What a pipeline writes is followed on slips, one for each line, which say what entry the line was
written for and, of a batch, which of its values are on it. How a batch is cut into lines depends on
what was in the payload before; what its slips say together does not.

* `Slip`: a line with the number of its entry;
* `Entry.WrittenAs`, `WrittenInTurn`: the slips that an entry, or a sequence of entries, is written
  as;
* `WrittenInTurn.wholeLines_eq`, `WrittenInTurn.triples_eq`: what the slips say together;
* `WrittenInTurn.isOf`: that what each says of its entry is true;
* `Packer.Filled.addEntry`: a packer writes the lines of the slips of an entry.
-/

namespace DogStatsD

/-- A line, and the number of the entry that it was written for. -/
inductive Slip where
  /-- The line of a sample. -/
  | whole (entry : Nat) (line : String)
  /-- A line with some values of a batch. -/
  | part (entry : Nat) (header : String) (values : List String) (trailer : String)

namespace Slip

def line : Slip → String
  | .whole _ line => line
  | .part _ header values trailer => header ++ ":".intercalate values ++ trailer

/-- The text of lines one after the other. -/
def textOf (slips : List Slip) : String :=
  String.join (slips.map line)

/-- The lines of samples. -/
def wholeLines (slips : List Slip) : List String :=
  slips.filterMap fun
    | .whole _ line => some line
    | .part .. => none

/-- The values of a batch that are on some lines, each with the header and the trailer there. -/
def triples (entry : Nat) (slips : List Slip) : List (String × String × String) :=
  slips.flatMap fun
    | .whole .. => []
    | .part own header values trailer =>
      if own = entry then values.map fun value => (header, value, trailer) else []

@[simp]
theorem wholeLines_append (front back : List Slip) :
    wholeLines (front ++ back) = wholeLines front ++ wholeLines back :=
  List.filterMap_append

@[simp]
theorem triples_append (entry : Nat) (front back : List Slip) :
    triples entry (front ++ back) = triples entry front ++ triples entry back :=
  List.flatMap_append

/-- A slip tells the truth about the entry with its number. -/
def IsOf (options : Line.Options) (entries : List Entry) : Slip → Prop
  | .whole entry line =>
    ∃ s, entries[entry]? = some (.sample s) ∧ line = Line.ofSample options s
  | .part entry header values trailer =>
    ∃ b, entries[entry]? = some (.batch b) ∧ header = Line.header options b.context.name ∧
      values ≠ [] ∧ trailer = Line.batchTrailer options b

/-- Entries that come later have other numbers. -/
theorem IsOf.append {options : Line.Options} {entries : List Entry} {slip : Slip}
    (h : slip.IsOf options entries) (more : List Entry) : slip.IsOf options (entries ++ more) := by
  cases slip with
  | whole entry line =>
    obtain ⟨s, hs, hline⟩ := h
    exact ⟨s, List.getElem?_append_left (List.getElem?_eq_some_iff.mp hs).1 ▸ hs, hline⟩
  | part entry header values trailer =>
    obtain ⟨b, hb, hrest⟩ := h
    exact ⟨b, List.getElem?_append_left (List.getElem?_eq_some_iff.mp hb).1 ▸ hb, hrest⟩

/-- Samples are written on whole lines only. -/
theorem triples_map_whole (entry own : Nat) (lines : List String) :
    triples entry (lines.map (whole own)) = [] := by
  simp [triples]

/-- Only samples are written on whole lines. -/
theorem wholeLines_map_part {α : Type} (own : Nat) (header trailer : String)
    (values : α → List String) (chunks : List α) :
    wholeLines (chunks.map fun chunk => part own header (values chunk) trailer) = [] := by
  simp [wholeLines]

end Slip

/-! ## Entries -/

namespace Entry

/-- The number of entries dropped of one: whether it is not written in full. -/
def drops (options : Line.Options) (limits : Limits) : Entry → Nat
  | .sample s => Packer.sampleDrops options limits s
  | .batch b => b.drops options limits

/-- The lines written for a sample. -/
def wholeLines (options : Line.Options) (limits : Limits) : Entry → List String
  | .sample s => Packer.sampleLines options limits s
  | .batch _ => []

/-- The values written of a batch, with its header and trailer. -/
def triples (options : Line.Options) (limits : Limits) : Entry → List (String × String × String)
  | .sample _ => []
  | .batch b => (b.fitting options limits).map fun value =>
      (Line.header options b.context.name, Decimal.ofFloat value, Line.batchTrailer options b)

/-- The slips that an entry with a number is written as. -/
inductive WrittenAs (options : Line.Options) (limits : Limits) (number : Nat) :
    Entry → List Slip → Prop
  | sample (s : Sample) :
    WrittenAs options limits number (.sample s)
      ((Packer.sampleLines options limits s).map (.whole number))
  | batch {b : Batch} {chunks : List (List Float)} : b.Cut options limits chunks →
    WrittenAs options limits number (.batch b) (chunks.map fun chunk =>
      .part number (Line.header options b.context.name) (chunk.map Decimal.ofFloat)
        (Line.batchTrailer options b))

variable {options : Line.Options} {limits : Limits} {number : Nat} {e : Entry} {slips : List Slip}

theorem WrittenAs.wholeLines_eq (h : e.WrittenAs options limits number slips) :
    Slip.wholeLines slips = e.wholeLines options limits := by
  cases h with
  | sample s =>
    rw [Slip.wholeLines, List.filterMap_map, wholeLines]
    exact List.filterMap_some
  | batch hcut => exact Slip.wholeLines_map_part ..

/-- However a batch is cut, its lines together have the values that fit. -/
theorem WrittenAs.triples_eq (h : e.WrittenAs options limits number slips) (entry : Nat) :
    Slip.triples entry slips = if number = entry then e.triples options limits else [] := by
  cases h with
  | sample s =>
    rw [Slip.triples_map_whole]
    split <;> rfl
  | @batch b chunks hcut =>
    by_cases hown : number = entry
    · rw [if_pos hown, triples, ← hcut.flatten_eq, List.map_flatten, Slip.triples,
        List.flatMap_map, List.flatMap_def]
      simp [hown, Function.comp_def]
    · rw [if_neg hown]
      simp [Slip.triples, hown]

/-- The slips of the last of some entries are true. -/
theorem WrittenAs.isOf {entries : List Entry}
    (h : e.WrittenAs options limits entries.length slips) :
    ∀ slip ∈ slips, slip.IsOf options (entries ++ [e]) := by
  have hlast : (entries ++ [e])[entries.length]? = some e := by simp
  cases h with
  | sample s =>
    intro slip hmem
    obtain ⟨line, hline, rfl⟩ := List.mem_map.mp hmem
    rw [Packer.sampleLines] at hline
    split at hline
    · exact ⟨s, hlast, List.mem_singleton.mp hline⟩
    · cases hline
  | @batch b chunks hcut =>
    intro slip hmem
    obtain ⟨chunk, hchunk, rfl⟩ := List.mem_map.mp hmem
    exact ⟨b, hlast, rfl, mt List.map_eq_nil_iff.mp (hcut.ne_nil chunk hchunk), rfl⟩

end Entry

/-- The slips that entries are written as one after the other, numbered from zero. -/
inductive WrittenInTurn (options : Line.Options) (limits : Limits) :
    List Entry → List Slip → Prop
  | nil : WrittenInTurn options limits [] []
  | concat {entries : List Entry} {slips : List Slip} {e : Entry} {more : List Slip} :
    WrittenInTurn options limits entries slips → e.WrittenAs options limits entries.length more →
    WrittenInTurn options limits (entries ++ [e]) (slips ++ more)

namespace WrittenInTurn

variable {options : Line.Options} {limits : Limits} {entries : List Entry} {slips : List Slip}

/-- The whole lines are those of the samples that fit, in order. -/
theorem wholeLines_eq (h : WrittenInTurn options limits entries slips) :
    Slip.wholeLines slips = entries.flatMap (Entry.wholeLines options limits) := by
  induction h with
  | nil => rfl
  | concat _ hlast ih => simp [ih, hlast.wholeLines_eq]

/-- The values of an entry are on the slips with its number, and nowhere else. -/
theorem triples_eq (h : WrittenInTurn options limits entries slips) (entry : Nat) :
    Slip.triples entry slips =
      (entries[entry]?.map (Entry.triples options limits)).getD [] := by
  induction h with
  | nil => rfl
  | @concat entries slips e more _ hlast ih =>
    rw [Slip.triples_append, ih, hlast.triples_eq entry]
    -- The last entry has the number of those before it.
    by_cases hown : entries.length = entry
    · subst hown
      simp
    · rw [if_neg hown, List.append_nil]
      by_cases hlt : entry < entries.length
      · rw [List.getElem?_append_left hlt]
      · rw [List.getElem?_eq_none (by omega), List.getElem?_eq_none (by simp; omega)]

/-- The slips are true. -/
theorem isOf (h : WrittenInTurn options limits entries slips) :
    ∀ slip ∈ slips, slip.IsOf options entries := by
  induction h with
  | nil => exact List.forall_mem_nil _
  | concat _ hlast ih =>
    exact List.forall_mem_append.mpr ⟨fun slip hmem => (ih slip hmem).append _, hlast.isOf⟩

end WrittenInTurn

namespace Packer

variable {τ : Type} {options : Line.Options} {limits : Limits} {lines : List String} {p : Packer}
  {o : Outbox τ}

/-- Adding an entry puts the lines of its slips behind the others. -/
theorem Filled.addEntry (h : Filled options limits lines (p, o)) (hpos : 1 ≤ limits.maxLines)
    (number : Nat) (e : Entry) :
    ∃ last slips, e.WrittenAs options limits number slips ∧
      Advances options limits (p, o) lines (slips.map Slip.line) (e.drops options limits)
        (p.add o e) last := by
  cases e with
  | sample s =>
    obtain ⟨last, hadvance⟩ := h.addSample hpos s
    refine ⟨last, _, .sample s, ?_⟩
    rw [List.map_map, show Slip.line ∘ Slip.whole number = id from rfl, List.map_id]
    exact hadvance
  | batch b =>
    obtain ⟨last, chunks, hcut, hadvance⟩ := h.addBatch hpos b
    refine ⟨last, _, .batch hcut, ?_⟩
    rw [List.map_map]
    exact hadvance

/-- The outbox may go on without the packer. -/
theorem Filled.outbox (h : Filled options limits lines (p, o)) {later : Outbox τ}
    (hclean : later.Clean limits) : Filled options limits lines (p, later) :=
  ⟨h.options_eq, h.holds, hclean⟩

end Packer

end DogStatsD
