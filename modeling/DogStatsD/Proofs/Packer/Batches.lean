import DogStatsD.Proofs.Packer.Contents
import Mathlib.Data.List.TakeWhile
import Mathlib.Logic.Function.Iterate

/-!
# Batches over Many Lines

A batch is written in passes. Each writes as many of the values left as fit on one line, and hands
the payload over before the next; if not one fits behind the lines that are there, the pass only
hands those over. Where the line is cut depends on what was in the payload. Which values are written
does not: it is all of them up to the first that fits on no line.

* `Batch.fits`, `Batch.fitting`: whether a value fits on a line at all, and the values before the
  first that does not;
* `Packer.Progress.pass`, `Packer.Pass`: one pass, and what it can do;
* `Packer.finish_pass`: a pass leaves to be done what `addBatch` does after it;
* `Packer.iterate_pass`: the passes come to an end, and by then have written the values that fit;
* `Packer.Filled.add`: a packer holds whole lines again after any entry;
* `Packer.addBatch_writes_fitting`: what the whole loop does with values, lines and payloads.
-/

namespace DogStatsD

namespace Batch

/-- The batch with other values. -/
def having (b : Batch) (values : List Float) : Batch :=
  { b with values }

/-- Whether a value fits on a line of its own, between the header and the trailer. -/
def fits (o : Line.Options) (limits : Limits) (b : Batch) (value : Float) : Bool :=
  decide ((Line.header o b.context.name).utf8ByteSize + (Decimal.ofFloat value).utf8ByteSize +
    (Line.batchTrailer o b).utf8ByteSize ≤ limits.maxBytes)

/-- The values before the first that does not fit. -/
def fitting (o : Line.Options) (limits : Limits) (b : Batch) : List Float :=
  b.values.takeWhile (b.fits o limits)

/-- The number of entries dropped of a batch: whether there is a value that does not fit. -/
def drops (o : Line.Options) (limits : Limits) (b : Batch) : Nat :=
  if b.values.all (b.fits o limits) then 0 else 1

/-- A batch is cut into lines: every one has a value, and together they have those that fit. -/
structure Cut (o : Line.Options) (limits : Limits) (b : Batch) (chunks : List (List Float)) :
    Prop where
  ne_nil : ∀ chunk ∈ chunks, chunk ≠ []
  flatten_eq : chunks.flatten = b.fitting o limits

variable {o : Line.Options} {limits : Limits} {b : Batch} {chunks : List (List Float)}

/-- If all values fit, they are cut into one line. -/
theorem cut_all (hne : b.values ≠ []) (hfits : ∀ value ∈ b.values, b.fits o limits value = true) :
    b.Cut o limits [b.values] ∧ b.drops o limits = 0 := by
  refine ⟨⟨List.forall_mem_singleton.mpr hne, ?_⟩, if_pos (List.all_eq_true.mpr hfits)⟩
  rw [List.flatten_singleton, fitting, List.takeWhile_eq_self_iff.mpr hfits]

/-- If the first value does not fit, nothing is written. -/
theorem cut_none {value : Float} {rest : List Float} (hvalues : b.values = value :: rest)
    (hfits : b.fits o limits value = false) : b.Cut o limits [] ∧ b.drops o limits = 1 := by
  refine ⟨⟨List.forall_mem_nil _, ?_⟩, ?_⟩
  · rw [fitting, hvalues, List.takeWhile_cons_of_neg (by simp [hfits])]
    rfl
  · rw [drops, hvalues, List.all_cons, hfits]
    rfl

/-- Values that fit go before what is cut of the others. -/
theorem Cut.cons {count : Nat} (hpos : 0 < count) (hcount : count < b.values.length)
    (hfits : ∀ value ∈ b.values.take count, b.fits o limits value = true)
    (h : (b.drop count).Cut o limits chunks) :
    b.Cut o limits (b.values.take count :: chunks) ∧
      b.drops o limits = (b.drop count).drops o limits := by
  have hvalues : b.values = b.values.take count ++ (b.drop count).values :=
    (List.take_append_drop count b.values).symm
  refine ⟨⟨List.forall_mem_cons.mpr ⟨?_, h.ne_nil⟩, ?_⟩, ?_⟩
  · rw [← List.length_pos_iff, List.length_take]
    omega
  · -- Taking values while they fit goes through all of the first.
    have htake : b.fitting o limits = b.values.take count ++ (b.drop count).fitting o limits := by
      conv_lhs => rw [fitting, hvalues, List.takeWhile_append_of_pos hfits]
      rfl
    rw [List.flatten_cons, h.flatten_eq, htake]
  · have hall : b.values.all (b.fits o limits) = (b.drop count).values.all (b.fits o limits) := by
      conv_lhs => rw [hvalues, List.all_append, List.all_eq_true.mpr hfits, Bool.true_and]
    rw [drops, hall]
    rfl

end Batch

namespace Payload

variable {o : Line.Options} {limits : Limits} {lines : List String} {p : Payload} {b : Batch}

/-- Each of the texts that fit one after the other fits there alone. -/
theorem le_of_mem_take_fitCount {limit used : Nat} {texts : List String} {text : String}
    (h : text ∈ texts.take (fitCount limit used texts)) : used + text.utf8ByteSize ≤ limit := by
  induction texts generalizing used with
  | nil => simp at h
  | cons first rest ih =>
    rw [fitCount] at h
    split at h
    case isFalse => simp at h
    next hfirst =>
      rw [List.take_succ_cons, List.mem_cons] at h
      rcases h with rfl | hrest
      · exact hfirst
      · have := ih hrest
        omega

/-- The values written on a line would each fit on a line of its own. -/
theorem Holds.fits_of_mem_take (h : p.Holds limits lines) {value : Float}
    (hmem : value ∈ b.values.take (p.batchRoom o b)) : b.fits o limits value = true := by
  unfold batchRoom at hmem
  split at hmem
  case isFalse => simp at hmem
  next =>
    have hle := le_of_mem_take_fitCount
      (List.map_take ▸ List.mem_map_of_mem (f := Decimal.ofFloat) hmem)
    rw [h.limits_eq] at hle
    exact decide_eq_true (by omega)

/-- A value for which there is no room behind no other line fits nowhere. -/
theorem Holds.not_fits_of_batchRoom_eq_zero (h : p.Holds limits []) (hpos : 1 ≤ limits.maxLines)
    {value : Float} {rest : List Float} (hvalues : b.values = value :: rest)
    (hroom : p.batchRoom o b = 0) : b.fits o limits value = false := by
  have hlines : p.lines < p.limits.maxLines := by
    rw [h.lines_eq, h.limits_eq]
    exact hpos
  have hsize : p.size = 0 := h.size_eq
  rw [batchRoom, if_pos hlines, hvalues, List.map_cons, fitCount, h.limits_eq, hsize] at hroom
  split at hroom
  · cases hroom
  next hlong => exact decide_eq_false (by omega)

/-- Where trailers are made up, there is the trailer of the batch once there was a line to try. -/
theorem scratch_writeBatch (o : Line.Options) (p : Payload) (b : Batch) :
    (p.writeBatch o b).2.scratch =
      if !p.hasLineRoom || b.values.isEmpty then p.scratch else Line.batchTrailer o b := by
  have htrailer : Line.putTrailer o b.kind b.context.tags b.rate b.context.cardinality none "" =
      Line.batchTrailer o b := by
    rw [Line.putTrailer_eq, Line.batchTrailer, String.empty_append]
  unfold writeBatch
  split
  · rfl
  · dsimp only
    split
    · exact htrailer
    · -- Writing values leaves that place alone.
      rw [putValues_eq]
      dsimp only
      split <;> exact htrailer

/-- A write for which there is no room leaves no line behind. -/
theorem lines_of_writeBatch_full {q : Payload} (h : p.writeBatch o b = (.error .full, q)) :
    q.lines = p.lines := by
  obtain ⟨scratch, hwrite⟩ := writeBatch_eq o p b
  rw [hwrite, Prod.mk.injEq, outcome_eq_full_iff] at h
  obtain ⟨hroom, rfl⟩ := h
  rw [if_pos hroom]

/-- A write for which there is no room ends the same way when it is tried again. -/
theorem writeBatch_again {q : Payload} (h : p.writeBatch o b = (.error .full, q)) :
    q.writeBatch o b = (.error .full, q) := by
  obtain ⟨scratch, hwrite⟩ := writeBatch_eq o p b
  rw [hwrite, Prod.mk.injEq, outcome_eq_full_iff] at h
  obtain ⟨hroom, rfl⟩ := h
  rw [if_pos hroom] at hwrite ⊢
  obtain ⟨scratch', hagain⟩ := writeBatch_eq o { p with scratch } b
  rw [show batchRoom o { p with scratch } b = 0 from hroom, if_pos rfl] at hagain
  -- Both times the same trailer is made up, or none.
  have hfirst := scratch_writeBatch o p b
  have hsecond := scratch_writeBatch o { p with scratch } b
  rw [hwrite] at hfirst
  rw [hagain] at hsecond
  have hsame : scratch' = scratch := by
    change scratch = _ at hfirst
    change scratch' = if !p.hasLineRoom || b.values.isEmpty then scratch else _ at hsecond
    rw [hsecond]
    split
    · rfl
    next hnot => rw [hfirst, if_neg hnot]
  rw [hagain, hsame]
  rfl

/-- The line of the values for which there is room goes behind the others. -/
theorem Holds.writeBatch (h : p.Holds limits lines) (hroom : p.batchRoom o b ≠ 0) :
    (p.writeBatch o b).2.Holds limits
      (lines ++ [Line.ofBatch o (b.take (p.batchRoom o b))]) := by
  obtain ⟨scratch, hwrite⟩ := writeBatch_eq o p b
  have hlines : p.lines < p.limits.maxLines := by
    by_contra hfull
    exact hroom (if_neg hfull)
  rw [hwrite, if_neg hroom]
  exact (h.append ⟨hlines, size_ofBatch_le hroom⟩).scratch scratch

end Payload

namespace Packer

variable {τ : Type}

/-! ## Passes -/

/-- How far a packer has come with a batch. -/
inductive Progress (τ : Type) where
  /-- These values are left. -/
  | going (p : Packer) (o : Outbox τ) (rest : Batch)
  | done (p : Packer) (o : Outbox τ)

namespace Progress

/-- Pass once through the loop: write what there is room for, and hand over what is full. -/
def pass : Progress τ → Progress τ
  | .done p o => .done p o
  | .going p o b =>
    if b.values = [] then .done p o
    else
      match p.current.writeBatch p.options b with
      | (.ok _, current) => .done { p with current } o
      | (.error (.partly written), current) =>
        let (p, o) := { p with current }.handOver o
        .going p o (b.drop written)
      | (.error .full, current) =>
        let p := { p with current }
        -- There will never be more room than in an empty payload.
        if p.current.isEmpty then .done p.drop o
        else
          let (p, o) := p.handOver o
          .going p o b

/-- Add all that is left. -/
def finish : Progress τ → Packer × Outbox τ
  | .going p o b => p.addBatch o b
  | .done p o => (p, o)

variable {p : Packer} {o : Outbox τ} {b : Batch} {current : Payload} {count : Nat}

/-- A pass that writes the rest of a batch is the last one. -/
theorem pass_of_ok (hne : b.values ≠ [])
    (hwrite : p.current.writeBatch p.options b = (.ok count, current)) :
    pass (.going p o b) = .done { p with current } o := by
  simp [pass, hne, hwrite]

/-- A pass that writes some values hands over and goes on with the others. -/
theorem pass_of_partly (hne : b.values ≠ [])
    (hwrite : p.current.writeBatch p.options b = (.error (.partly count), current)) :
    pass (.going p o b) =
      .going ({ p with current }.handOver o).1 ({ p with current }.handOver o).2
        (b.drop count) := by
  simp [pass, hne, hwrite]

/-- A pass that writes nothing drops the batch if the payload was empty, and hands over otherwise.
-/
theorem pass_of_full (hne : b.values ≠ [])
    (hwrite : p.current.writeBatch p.options b = (.error .full, current)) :
    pass (.going p o b) =
      if current.lines = 0 then .done ({ p with current } : Packer).drop o
      else .going ({ p with current }.handOver o).1 ({ p with current }.handOver o).2 b := by
  simp [pass, hne, hwrite, Payload.isEmpty]

/-- What is done stays done. -/
theorem iterate_pass_done (n : Nat) (p : Packer) (o : Outbox τ) :
    pass^[n] (.done p o) = .done p o :=
  Function.iterate_fixed rfl n

end Progress

open Progress

variable {options : Line.Options} {limits : Limits} {lines : List String} {p : Packer}
  {o : Outbox τ} {b : Batch}

/-- What a pass can do when there is a value left. -/
inductive Pass (options : Line.Options) (limits : Limits) (p : Packer) (o : Outbox τ)
    (lines : List String) (b : Batch) : Progress τ → Prop
  /-- All values left are written on one line. -/
  | finished {q : Packer} {last : List String} :
    Advances options limits (p, o) lines [Line.ofBatch options b] 0 (q, o) last →
    (∀ value ∈ b.values, b.fits options limits value = true) →
    Pass options limits p o lines b (.done q o)
  /-- The next value does not even fit into an empty payload. -/
  | dropped {q : Packer} {last : List String} {value : Float} {rest : List Float} :
    Advances options limits (p, o) lines [] 1 (q, o) last →
    b.values = value :: rest → b.fits options limits value = false →
    Pass options limits p o lines b (.done q o)
  /-- Lines that leave no room are handed over. -/
  | cleared {q : Packer} {later : Outbox τ} :
    lines ≠ [] → Advances options limits (p, o) lines [] 0 (q, later) [] →
    Pass options limits p o lines b (.going q later b)
  /-- Some values are written on one line, which is handed over. -/
  | partly {q : Packer} {later : Outbox τ} {count : Nat} :
    0 < count → count < b.values.length →
    Advances options limits (p, o) lines [Line.ofBatch options (b.take count)] 0 (q, later) [] →
    (∀ value ∈ b.values.take count, b.fits options limits value = true) →
    Pass options limits p o lines b (.going q later (b.drop count))

/-- A pass does one of these. -/
theorem pass_cases (h : Filled options limits lines (p, o)) (hpos : 1 ≤ limits.maxLines)
    (hne : b.values ≠ []) : Pass options limits p o lines b (Progress.pass (.going p o b)) := by
  obtain rfl := h.options_eq
  obtain ⟨scratch, hwrite⟩ := Payload.writeBatch_eq p.options p.current b
  have hfits : ∀ value ∈ b.values.take (p.current.batchRoom p.options b),
      b.fits p.options limits value = true := fun value => h.holds.fits_of_mem_take
  have hholds : p.current.batchRoom p.options b ≠ 0 → _ := h.holds.writeBatch
  have hempty := h.holds.lines_eq_zero_iff
  by_cases hroom : p.current.batchRoom p.options b = 0
  · -- There is no room, and nothing has changed but the place for trailers.
    have hsame := h.exchange (h.holds.scratch scratch)
    rw [hroom, if_pos rfl] at hwrite
    rw [pass_of_full hne hwrite]
    by_cases hnone : lines = []
    · obtain ⟨value, rest, hvalues⟩ := List.exists_cons_of_ne_nil hne
      subst hnone
      rw [if_pos (hempty.mpr rfl)]
      exact .dropped (hsame.trans hsame.filled.drop) hvalues
        (h.holds.not_fits_of_batchRoom_eq_zero hpos hvalues hroom)
    · rw [if_neg (mt hempty.mp hnone)]
      exact .cleared hnone (hsame.trans hsame.filled.handOver)
  -- Some values fit. Unless they are all, the payload is handed over and the rest goes on.
  · have hput := h.put (hholds hroom)
    rw [hwrite] at hput
    rw [if_neg hroom] at hwrite hput
    generalize p.current.batchRoom p.options b = room at *
    by_cases hpart : room < b.values.length
    · rw [Payload.outcome, if_neg hroom, if_pos hpart] at hwrite
      rw [pass_of_partly hne hwrite]
      exact .partly (Nat.pos_of_ne_zero hroom) hpart (hput.trans hput.filled.handOver) hfits
    · have hall : b.values.take room = b.values := List.take_of_length_le (Nat.not_lt.mp hpart)
      rw [Payload.outcome, if_neg hroom, if_neg hpart] at hwrite
      rw [pass_of_ok hne hwrite]
      rw [hall] at hfits
      rw [Batch.take, hall] at hput ⊢
      exact .finished hput hfits

/-! ## What is left after a pass -/

/-- If all values can be written, a batch is added. -/
theorem addBatch_of_ok {count : Nat} {q : Packer} {later : Outbox τ} (hne : b.values ≠ [])
    (hsome : p.addSome o b = (.ok count, q, later)) : p.addBatch o b = (q, later) := by
  rw [addBatch, if_neg hne]
  split
  · next heq =>
    cases hsome.symm.trans heq
    rfl
  · next heq => cases hsome.symm.trans heq
  · next heq => cases hsome.symm.trans heq

/-- If not one value fits into an empty payload, the rest of a batch is dropped. -/
theorem addBatch_of_full {q : Packer} {later : Outbox τ} (hne : b.values ≠ [])
    (hsome : p.addSome o b = (.error .full, q, later)) : p.addBatch o b = (q.drop, later) := by
  rw [addBatch, if_neg hne]
  split
  · next heq => cases hsome.symm.trans heq
  · next heq =>
    cases hsome.symm.trans heq
    rfl
  · next heq => cases hsome.symm.trans heq

/-- If some values can be written, the payload is handed over and the others are added. -/
theorem addBatch_of_partly {count : Nat} {q : Packer} {later : Outbox τ} (hne : b.values ≠ [])
    (hsome : p.addSome o b = (.error (.partly count), q, later)) :
    p.addBatch o b = (q.handOver later).1.addBatch (q.handOver later).2 (b.drop count) := by
  rw [addBatch, if_neg hne]
  split
  · next heq => cases hsome.symm.trans heq
  · next heq => cases hsome.symm.trans heq
  · next heq =>
    cases hsome.symm.trans heq
    rfl

/-- What is done after the first values depends only on how writing those has ended. -/
theorem addBatch_congr {q : Packer} {later : Outbox τ} (hne : b.values ≠ [])
    (hsome : p.addSome o b = q.addSome later b) : p.addBatch o b = q.addBatch later b := by
  rcases hfirst : q.addSome later b with ⟨outcome, r, last⟩
  cases outcome with
  | ok count => rw [addBatch_of_ok hne hfirst, addBatch_of_ok hne (hsome.trans hfirst)]
  | error reason =>
    cases reason with
    | full => rw [addBatch_of_full hne hfirst, addBatch_of_full hne (hsome.trans hfirst)]
    | partly => rw [addBatch_of_partly hne hfirst, addBatch_of_partly hne (hsome.trans hfirst)]

/-- If there is no room, the payload is handed over, and the values are tried with the next one. -/
theorem addSome_of_full {current : Payload}
    (hwrite : p.current.writeBatch p.options b = (.error .full, current)) :
    p.addSome o b =
      let q := ({ p with current }.handOver o).1
      ((q.current.writeBatch q.options b).1,
        { q with current := (q.current.writeBatch q.options b).2 },
        ({ p with current }.handOver o).2) := by
  rw [addSome, hwrite]

/-- A packer with an empty payload writes to that, and has nothing to hand over. -/
theorem addSome_of_lines_eq_zero (h : p.current.lines = 0) :
    p.addSome o b = ((p.current.writeBatch p.options b).1,
      { p with current := (p.current.writeBatch p.options b).2 }, o) := by
  rcases hwrite : p.current.writeBatch p.options b with ⟨outcome, current⟩
  by_cases hfull : outcome = .error .full
  · subst hfull
    have hlines := Payload.lines_of_writeBatch_full hwrite
    have hover : handOver { p with current } o = ({ p with current }, o) := by
      simp [Packer.handOver, Payload.isEmpty, hlines, h]
    -- The second write changes nothing.
    rw [addSome_of_full hwrite, hover]
    dsimp only
    rw [Payload.writeBatch_again hwrite]
  · rw [addSome, hwrite]
    split
    next heq => exact absurd (congrArg Prod.fst heq) hfull
    next heq =>
      cases heq
      rfl

/-- A pass leaves to be done what adding the batch does after it. -/
theorem finish_pass (h : Filled options limits lines (p, o)) :
    (Progress.pass (.going p o b)).finish = p.addBatch o b := by
  by_cases hne : b.values = []
  · rw [Progress.pass, if_pos hne, addBatch, if_pos hne, finish]
  rcases hwrite : p.current.writeBatch p.options b with ⟨outcome, current⟩
  cases outcome with
  | ok count =>
    rw [pass_of_ok hne hwrite, finish, addBatch_of_ok hne]
    rw [addSome, hwrite]
  | error reason =>
    cases reason with
    | partly count =>
      rw [pass_of_partly hne hwrite, finish, addBatch_of_partly hne]
      rw [addSome, hwrite]
    | full =>
      have hlines := Payload.lines_of_writeBatch_full hwrite
      rw [pass_of_full hne hwrite]
      split
      next hempty =>
        rw [finish, addBatch_of_full hne]
        rw [addSome_of_lines_eq_zero (hlines.symm.trans hempty), hwrite]
      next hfull =>
        -- Adding a batch goes on with the next payload at once, and a pass leaves it for the next.
        have hover := handOver_eq (p := { p with current }) h.clean
        rw [if_neg hfull] at hover
        rw [finish]
        refine addBatch_congr hne ?_
        rw [addSome_of_full hwrite, addSome_of_lines_eq_zero (by rw [hover])]

/-! ## All passes -/

/-- The number of passes for values behind some lines: one for each value at most, and one more if
the lines have to go first. -/
def passes (lines : List String) (b : Batch) : Nat :=
  b.values.length + if lines = [] then 0 else 1

/-- The passes come to an end with what adding the batch gives: it has cut the values that fit into
lines, and dropped the others. -/
theorem iterate_pass (h : Filled options limits lines (p, o)) (hpos : 1 ≤ limits.maxLines)
    (hne : b.values ≠ []) {n : Nat} (hn : passes lines b ≤ n) :
    Progress.pass^[n] (.going p o b) = .done (p.addBatch o b).1 (p.addBatch o b).2 ∧
      ∃ last chunks, b.Cut options limits chunks ∧
        Advances options limits (p, o) lines
          (chunks.map fun chunk => Line.ofBatch options (b.having chunk))
          (b.drops options limits) (p.addBatch o b) last := by
  induction n generalizing p o lines b with
  | zero =>
    have := List.length_pos_iff.mpr hne
    unfold passes at hn
    omega
  | succ n ih =>
    have hfinish := finish_pass (b := b) h
    have hcase := pass_cases h hpos hne
    rw [Function.iterate_succ_apply, ← hfinish]
    generalize Progress.pass (.going p o b) = next at hcase ⊢
    cases hcase with
    | finished hadvance hfits =>
      rename_i q last
      obtain ⟨hcut, hdrops⟩ := Batch.cut_all hne hfits
      refine ⟨iterate_pass_done n q o, last, _, hcut, ?_⟩
      rw [hdrops]
      exact hadvance
    | dropped hadvance hvalues hfits =>
      rename_i q last value rest
      obtain ⟨hcut, hdrops⟩ := Batch.cut_none hvalues hfits
      refine ⟨iterate_pass_done n q o, last, _, hcut, ?_⟩
      rw [hdrops]
      exact hadvance
    | cleared hlines hadvance =>
      -- The lines are gone, and the values are still to be written.
      have hnext : passes [] b ≤ n := by
        rw [passes, if_neg hlines] at hn
        rw [passes, if_pos rfl]
        omega
      obtain ⟨hdone, last, chunks, hcut, hrest⟩ := ih hadvance.filled hne hnext
      have hall := hadvance.trans hrest
      rw [List.nil_append, Nat.zero_add] at hall
      exact ⟨hdone, last, chunks, hcut, hall⟩
    | partly hcount hlt hadvance hfits =>
      rename_i count
      have hleft : (b.drop count).values ≠ [] := by
        rw [← List.length_pos_iff, Batch.drop, List.length_drop]
        omega
      have hnext : passes [] (b.drop count) ≤ n := by
        rw [passes] at hn
        rw [passes, if_pos rfl, Batch.drop, List.length_drop]
        omega
      obtain ⟨hdone, last, chunks, hcut, hrest⟩ := ih hadvance.filled hleft hnext
      obtain ⟨hcut', hdrops⟩ := hcut.cons hcount hlt hfits
      have hall := hadvance.trans hrest
      rw [List.singleton_append, Nat.zero_add, ← hdrops] at hall
      exact ⟨hdone, last, _, hcut', hall⟩

/-- Adding a batch puts lines with the values that fit behind the others, however these lines are
cut. -/
theorem Filled.addBatch (h : Filled options limits lines (p, o)) (hpos : 1 ≤ limits.maxLines)
    (b : Batch) :
    ∃ last chunks, b.Cut options limits chunks ∧
      Advances options limits (p, o) lines
        (chunks.map fun chunk => Line.ofBatch options (b.having chunk)) (b.drops options limits)
        (p.addBatch o b) last := by
  by_cases hne : b.values = []
  · -- There is nothing to do.
    rw [Packer.addBatch, if_pos hne]
    refine ⟨lines, [], ⟨List.forall_mem_nil _, ?_⟩, ?_⟩
    · rw [Batch.fitting, hne]
      rfl
    · have hdrops : b.drops options limits = 0 := by
        rw [Batch.drops, hne]
        rfl
      rw [hdrops]
      exact h.exchange h.holds
  · exact (iterate_pass h hpos hne (Nat.le_refl _)).2

/-- Whatever a packer adds, its payload is made of lines. -/
theorem Filled.add (h : Filled options limits lines (p, o)) (hpos : 1 ≤ limits.maxLines)
    (e : Entry) : ∃ last, Filled options limits last (p.add o e) := by
  cases e with
  | sample s =>
    obtain ⟨last, hadvance⟩ := h.addSample hpos s
    exact ⟨last, hadvance.filled⟩
  | batch b =>
    obtain ⟨last, chunks, -, hadvance⟩ := h.addBatch hpos b
    exact ⟨last, hadvance.filled⟩

/-- The loop that adds a batch comes to an end, whatever lines are in the payload. It writes exactly
the values before the first that fits on no line, on lines that each have a value and all have the
header and trailer of the batch, behind the lines that were there. What is handed over holds whole
lines and is within both limits; if there are values left, the batch counts as dropped once. -/
theorem addBatch_writes_fitting (h : Filled options limits lines (p, o))
    (hpos : 1 ≤ limits.maxLines) (b : Batch) :
    Progress.pass^[b.values.length + 1] (.going p o b) =
        .done (p.addBatch o b).1 (p.addBatch o b).2 ∧
      ∃ (handed : List Payload) (packed : List (List String)) (last : List String)
        (chunks : List (List Float)),
        (p.addBatch o b).2 = o.takeOverAll handed ∧
        List.Forall₂ (Payload.Holds limits) packed handed ∧
        (p.addBatch o b).1.current.Holds limits last ∧
        packed.flatten ++ last = lines ++ chunks.map (fun chunk =>
          Line.header options b.context.name ++ ":".intercalate (chunk.map Decimal.ofFloat) ++
            Line.batchTrailer options b) ∧
        (∀ chunk ∈ chunks, chunk ≠ []) ∧
        chunks.flatten = b.values.takeWhile (b.fits options limits) ∧
        (chunks.flatten = b.values → (p.addBatch o b).1.oversized = p.oversized) ∧
        (chunks.flatten ≠ b.values → (p.addBatch o b).1.oversized = p.oversized + 1) ∧
        ∀ payload ∈ handed, payload.isEmpty = false ∧ payload.lines ≤ limits.maxLines ∧
          payload.size ≤ limits.maxBytes := by
  obtain ⟨last, chunks, hcut, hadvance⟩ := h.addBatch hpos b
  obtain ⟨handed, packed, houtbox, hholds, hne, hlines⟩ := hadvance.exists_handed
  -- All values were written exactly if each of them fits on a line of its own.
  have hall : chunks.flatten = b.values ↔ b.values.all (b.fits options limits) = true := by
    rw [hcut.flatten_eq, Batch.fitting, List.takeWhile_eq_self_iff, List.all_eq_true]
  have hoversized := hadvance.oversized_eq
  rw [Batch.drops] at hoversized
  refine ⟨?_, handed, packed, last, chunks, houtbox, hholds, hadvance.filled.holds, hlines,
    hcut.ne_nil, hcut.flatten_eq, ?_, ?_, ?_⟩
  · by_cases hnone : b.values = []
    · -- Without values, the first pass finds nothing to do.
      rw [hnone, Function.iterate_succ_apply, Progress.pass, if_pos hnone, iterate_pass_done,
        Packer.addBatch, if_pos hnone]
    · refine (iterate_pass h hpos hnone ?_).1
      unfold passes
      split <;> omega
  · intro heq
    rwa [if_pos (hall.mp heq)] at hoversized
  · intro hleft
    rwa [if_neg (mt hall.mpr hleft)] at hoversized
  · intro payload hmem
    obtain ⟨-, hsome, hwithin⟩ := Payload.within_of_forall₂_holds hholds hne payload hmem
    exact ⟨by simpa [Payload.isEmpty] using hsome, hwithin⟩

/-- The second value is too long for any payload, and ends the batch, although the third would fit
again. The line that was there is handed over for the first value. -/
theorem addBatch_writes_fitting_before_long_value :
    let limits : Limits := ⟨12, 2⟩
    let p : Packer := { options := {}, current := .ofLines limits ["events:1|c\n"] }
    let o : Outbox Scripted := { capacity := 1, transport := {}, pool := .new 1 limits }
    let b : Batch :=
      { kind := .histogram, context := { name := "m" }, values := [1.5, 0.123456789012, 2.5],
        rate := 1.0 }
    Filled {} limits ["events:1|c\n"] (p, o) ∧ 1 ≤ limits.maxLines ∧
      Progress.pass^[4] (.going p o b) = .done (p.addBatch o b).1 (p.addBatch o b).2 ∧
      (∃ chunks, chunks ≠ [] ∧ (∀ chunk ∈ chunks, chunk ≠ []) ∧ chunks.flatten = [1.5]) ∧
      (p.addBatch o b).1.oversized = 1 := by
  intro limits p o b
  have hfilled : Filled {} limits ["events:1|c\n"] (p, o) :=
    ⟨rfl, ⟨rfl, rfl, rfl, by decide, by decide⟩, Pool.clean_new 1 limits,
      List.forall_mem_nil _⟩
  have hfits : b.values.map (b.fits {} limits) = [true, false, true] := by decide +kernel
  obtain ⟨hpass, handed, packed, last, chunks, -, -, -, -, hne, hflatten, -, hleft, -⟩ :=
    addBatch_writes_fitting hfilled (by decide) b
  simp only [b, List.map_cons, List.map_nil, List.cons.injEq, and_true] at hfits
  obtain ⟨hfirst, hsecond, -⟩ := hfits
  have htake : b.values.takeWhile (b.fits {} limits) = [1.5] := by
    simp [b, List.takeWhile, hfirst, hsecond]
  rw [htake] at hflatten
  refine ⟨hfilled, by decide, hpass, ⟨chunks, ?_, hne, hflatten⟩, hleft ?_⟩
  · rintro rfl
    simp at hflatten
  · intro heq
    have hlength := congrArg List.length (hflatten.symm.trans heq)
    simp [b] at hlength

end Packer

end DogStatsD
