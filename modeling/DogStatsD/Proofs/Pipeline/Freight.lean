import DogStatsD.Proofs.Outbox.Drain
import DogStatsD.Proofs.Packer.Rows
import DogStatsD.Proofs.System.Neat
import Mathlib.Data.List.Forall2
import Mathlib.Logic.Function.Basic
import Mathlib.Tactic.Tauto

/-!
# Lines on Their Way

The lines that shards write go through payloads and the queue to the transport. Those of one shard
stay in the order in which they were written, whatever other shards do and whichever payloads are
refused, and each line is somewhere once.

* `Freight`: the lines in payloads and commands, each with its origin;
* `Freight.put`, `Freight.handOver`, `Freight.fetch`, `Freight.carry`: it follows what is done to a
  pipeline;
* `Freight.has_setCart`: a line that moves on is still somewhere, and no other line comes in;
* `Freight.InOrder`: what lines of one shard tell is in order, and all of it is accounted for;
* `Freight.Fits`: the freight goes along with packers, queue, transport and counters;
* `Freight.Fits.put`, `Freight.Fits.handOver`, `Freight.Fits.fetch`, `Freight.Fits.carry`: it keeps
  up with what happens to them.
-/

namespace DogStatsD

variable {τ α β : Type}

/-! ## Writes -/

namespace Transport

variable [Transport τ]

/-- A transport after some writes, whatever their outcomes. -/
def afterWrites (t : τ) (texts : List String) : τ :=
  texts.foldl (fun t text => (write t text).2) t

/-- How many of some writes fail. -/
def failures (t : τ) : List String → Nat
  | [] => 0
  | text :: rest => (if (write t text).1.isOk then 0 else 1) + failures (write t text).2 rest

/-- Writes in two runs are writes in one. -/
theorem afterWrites_append (t : τ) (front back : List String) :
    afterWrites t (front ++ back) = afterWrites (afterWrites t front) back :=
  List.foldl_append

/-- Writes fail among the first ones, or among the later ones. -/
theorem failures_append (t : τ) (front back : List String) :
    failures t (front ++ back) = failures t front + failures (afterWrites t front) back := by
  induction front generalizing t with
  | nil => exact (Nat.zero_add _).symm
  | cons text rest ih =>
    rw [List.cons_append, failures, ih, failures, Nat.add_assoc]
    rfl

end Transport

namespace Outbox

/-- Nothing was written between two outboxes. -/
def Unwritten (o later : Outbox τ) : Prop :=
  later.transport = o.transport ∧ later.ledger.failed = o.ledger.failed

/-- Handing over writes nothing. -/
theorem unwritten_handOver (p : Packer) (o : Outbox τ) : o.Unwritten (p.handOver o).2 := by
  unfold Packer.handOver
  split
  · exact ⟨rfl, rfl⟩
  · show o.Unwritten (o.borrow.2.post p.current)
    unfold post
    split <;> exact ⟨rfl, rfl⟩

/-- Adding an entry writes nothing to the transport. -/
theorem unwritten_add (p : Packer) (o : Outbox τ) (e : Entry) : o.Unwritten (p.add o e).2 :=
  Packer.related_add (R := Unwritten) (fun _ => ⟨rfl, rfl⟩)
    (fun h hlast => ⟨hlast.1.trans h.1, hlast.2.trans h.2⟩) unwritten_handOver p o e

end Outbox

/-! ## Freight -/

/-- The lines that shards have written. -/
structure Freight (α : Type) where
  /-- The lines in the payload that a shard is filling. -/
  packed : Nat → List (Row α) := fun _ => []
  /-- Those in each command of the queue. -/
  queued : List (List (Row α)) := []
  /-- Those in the command that was taken out of the queue. -/
  carried : List (List (Row α)) := []
  /-- Those in each command that was carried out. -/
  done : List (List (Row α)) := []
  /-- Those in each payload that has found the queue full. -/
  refused : List (List (Row α)) := []
  /-- The origins of entries that were dropped for their size. -/
  dropped : List α := []

/-- The lines that a shard writes for an entry. -/
def Pipeline.encodedAt (p : Pipeline τ) (j : Nat) (e : Entry) : List String :=
  match p.shards[j]? with
  | none => []
  | some shard => shard.packer.encoded p.outbox e

namespace Freight

/-- The payloads written: a command without lines was a barrier. -/
def written (m : Freight α) : List (List (Row α)) :=
  m.done.filter fun rows => !rows.isEmpty

/-- The lines that the packer of a shard has written. -/
def cart (m : Freight α) (j : Nat) : Cart α where
  packed := m.packed j
  queued := m.queued
  refused := m.refused
  dropped := m.dropped

def setCart (m : Freight α) (j : Nat) (c : Cart α) : Freight α :=
  { m with
    packed := Function.update m.packed j c.packed
    queued := c.queued
    refused := c.refused
    dropped := c.dropped }

/-- Follow an entry into a shard. -/
def put (m : Freight α) (p : Pipeline τ) (j : Nat) (e : Entry) (origin : α) : Freight α :=
  match p.shards[j]? with
  | none => m
  | some shard => m.setCart j ((m.cart j).add shard.packer p.outbox e origin)

/-- Follow the payload of a shard. -/
def handOver (m : Freight α) (p : Pipeline τ) (j : Nat) : Freight α :=
  match p.shards[j]? with
  | none => m
  | some shard => m.setCart j ((m.cart j).handOver shard.packer p.outbox)

/-- The lines that a shard writes for a sample: none if sampling leaves it out. -/
def linesFor (p : Pipeline τ) (j : Nat) (sample : Sample) (origin : α) : List (Row α) :=
  if (Shard.keeps p.draws sample).1 then Row.ofLines origin (p.encodedAt j (.sample sample))
  else []

/-- Follow a sample that a shard processes, unless sampling leaves it out. -/
def process (m : Freight α) (p : Pipeline τ) (j : Nat) (sample : Sample) (origin : α) : Freight α :=
  if (Shard.keeps p.draws sample).1 then m.put p j (.sample sample) origin else m

/-- A barrier bears no lines. -/
def raise (m : Freight α) : Freight α :=
  { m with queued := m.queued ++ [[]] }

/-- Follow a command out of the queue. -/
def fetch (m : Freight α) : Freight α :=
  { m with queued := m.queued.drop 1, carried := m.queued.take 1 }

/-- Follow a command that is carried out. -/
def carry (m : Freight α) : Freight α :=
  { m with carried := [], done := m.done ++ m.carried }

/-! ## Where lines are -/

/-- The lines that have left their packers for the transport, in the order of the queue. -/
def wire (m : Freight α) : List (Row α) :=
  (m.done ++ m.carried ++ m.queued).flatten

/-- A line is somewhere: on the way to the transport or there, in a payload that was refused, or in
the payload of a shard. -/
inductive Has (m : Freight α) (row : Row α) : Prop
  | wire (h : row ∈ m.wire)
  | refused (h : row ∈ m.refused.flatten)
  | packed (j : Nat) (h : row ∈ m.packed j)

variable {m later : Freight α} {i j : Nat} {added : List (Row α)} {c : Cart α} {row : Row α}

/-- Empty payloads, which are not written, bring no lines. -/
theorem flatten_written (m : Freight α) : m.written.flatten = m.done.flatten :=
  List.flatten_filter_not_isEmpty

/-- What was written has left the packers first. -/
theorem sublist_wire (m : Freight α) : m.written.flatten.Sublist m.wire := by
  rw [flatten_written, wire, List.flatten_append, List.flatten_append, List.append_assoc]
  exact List.sublist_append_left _ _

/-- A cart that is put back where it was. -/
theorem setCart_cart (m : Freight α) (j : Nat) : m.setCart j (m.cart j) = m := by
  rw [setCart]
  show { m with packed := Function.update m.packed j (m.packed j) } = m
  rw [Function.update_eq_self]

/-- With a barrier, no line comes into the queue. -/
theorem wire_raise (m : Freight α) : m.raise.wire = m.wire := by
  simp [wire, raise]

/-- When lines of a shard move on, some come to the end of the queue. -/
theorem wire_setCart {more : List (List (Row α))} (hmore : c.queued = m.queued ++ more) :
    (m.setCart j c).wire = m.wire ++ more.flatten := by
  simp [wire, setCart, hmore]

/-- When lines of a shard move on, some may be refused. -/
theorem refused_setCart {lost : List (List (Row α))} (hlost : c.refused = m.refused ++ lost) :
    (m.setCart j c).refused.flatten = m.refused.flatten ++ lost.flatten := by
  simp [setCart, hlost]

/-- An entry moves the lines of one shard, and brings in those written for it. -/
theorem exists_put (m : Freight α) (p : Pipeline τ) (j : Nat) (e : Entry) (origin : α) :
    ∃ c count, Cart.Moves (Row.ofLines origin (p.encodedAt j e)) (m.cart j) c ∧
      c.dropped = m.dropped ++ List.replicate count origin ∧
      m.put p j e origin = m.setCart j c := by
  unfold put Pipeline.encodedAt
  split
  · exact ⟨m.cart j, 0, .refl _, (List.append_nil _).symm, (m.setCart_cart j).symm⟩
  next shard _ =>
    obtain ⟨count, hcount⟩ := (m.cart j).exists_dropped_add shard.packer p.outbox e origin
    exact ⟨_, count, (m.cart j).moves_add shard.packer p.outbox e origin, hcount, rfl⟩

/-- A payload that is handed over moves the lines of one shard, and brings in none. -/
theorem exists_handOver (m : Freight α) (p : Pipeline τ) (j : Nat) :
    ∃ c, Cart.Moves [] (m.cart j) c ∧ c.dropped = m.dropped ∧ m.handOver p j = m.setCart j c := by
  unfold handOver
  split
  · exact ⟨m.cart j, .refl _, rfl, (m.setCart_cart j).symm⟩
  next shard _ =>
    exact ⟨_, (m.cart j).moves_handOver shard.packer p.outbox, Cart.dropped_handOver .., rfl⟩

/-- A sample that is processed moves the lines of one shard, and brings in its own. -/
theorem exists_process (m : Freight α) (p : Pipeline τ) (j : Nat) (sample : Sample) (origin : α) :
    ∃ c count, Cart.Moves (linesFor p j sample origin) (m.cart j) c ∧
      c.dropped = m.dropped ++ List.replicate count origin ∧
      m.process p j sample origin = m.setCart j c := by
  unfold process linesFor
  split
  · exact m.exists_put p j (.sample sample) origin
  · exact ⟨m.cart j, 0, .refl _, (List.append_nil _).symm, (m.setCart_cart j).symm⟩

/-- When lines of a shard move on, every line is still somewhere, and none comes in but those that
are new. -/
theorem has_setCart (hmoves : Cart.Moves added (m.cart j) c) :
    (m.setCart j c).Has row ↔ m.Has row ∨ row ∈ added := by
  obtain ⟨more, lost, hmore, hlost, -, hall⟩ := hmoves
  have hwire := wire_setCart (j := j) (show c.queued = m.queued ++ more from hmore)
  have hgone := refused_setCart (j := j) (show c.refused = m.refused ++ lost from hlost)
  -- What has moved is what the shard had, and what is new.
  have hown : row ∈ more.flatten ∨ row ∈ lost.flatten ∨ row ∈ c.packed ↔
      row ∈ m.packed j ∨ row ∈ added := by
    have hiff := hall.mem_iff (a := row)
    simpa [cart, or_assoc] using hiff
  have hpacked (i : Nat) : row ∈ (m.setCart j c).packed i ↔
      if i = j then row ∈ c.packed else row ∈ m.packed i := by
    by_cases hij : i = j
    · subst hij
      simp [setCart]
    · simp [setCart, hij]
  constructor
  · intro h
    cases h with
    | wire h =>
      rw [hwire, List.mem_append] at h
      obtain hold | hnew := h
      · exact .inl (.wire hold)
      · exact (hown.mp (.inl hnew)).imp_left (.packed j)
    | refused h =>
      rw [hgone, List.mem_append] at h
      obtain hold | hnew := h
      · exact .inl (.refused hold)
      · exact (hown.mp (.inr (.inl hnew))).imp_left (.packed j)
    | packed i h =>
      rw [hpacked] at h
      split at h
      · exact (hown.mp (.inr (.inr h))).imp_left (.packed j)
      · exact .inl (.packed i h)
  · intro h
    have hback (h : row ∈ m.packed j ∨ row ∈ added) : (m.setCart j c).Has row := by
      obtain hnew | hnew | hnew := hown.mpr h
      · exact .wire (hwire ▸ List.mem_append_right _ hnew)
      · exact .refused (hgone ▸ List.mem_append_right _ hnew)
      · exact .packed j ((hpacked j).mpr (by rwa [if_pos rfl]))
    obtain hold | hnew := h
    · cases hold with
      | wire h => exact .wire (hwire ▸ List.mem_append_left _ h)
      | refused h => exact .refused (hgone ▸ List.mem_append_left _ h)
      | packed i h =>
        by_cases hij : i = j
        · subst hij
          exact hback (.inl h)
        · exact .packed i ((hpacked i).mpr (by rwa [if_neg hij]))
    · exact hback (.inr hnew)

/-- When lines go on from the queue, they are where they can be found. -/
theorem Has.of_wire (h : later.Has row) (hwire : later.wire = m.wire)
    (hpacked : later.packed = m.packed) (hrefused : later.refused = m.refused) : m.Has row := by
  cases h with
  | wire h => exact .wire (hwire ▸ h)
  | refused h => exact .refused (hrefused ▸ h)
  | packed j h => exact .packed j (hpacked ▸ h)

/-- At first no line is anywhere. -/
theorem not_has_empty (row : Row α) : ¬({} : Freight α).Has row := by
  rintro (hwire | hrefused | ⟨j, hpacked⟩)
  · cases hwire
  · cases hrefused
  · cases hpacked

/-- Something is so of every line, wherever it is. -/
def Every (P : Row α → Prop) (m : Freight α) : Prop :=
  ∀ row, m.Has row → P row

/-- What is so of all lines that come in stays so of every line. -/
theorem Every.setCart {P : Row α → Prop} (h : m.Every P) (hmoves : Cart.Moves added (m.cart j) c)
    (hadded : ∀ row ∈ added, P row) : (m.setCart j c).Every P := by
  intro row hrow
  obtain hold | hnew := (has_setCart hmoves).mp hrow
  · exact h row hold
  · exact hadded row hnew

/-- When lines go on from the queue, nothing new is so of them. -/
theorem Every.of_wire {P : Row α → Prop} (h : m.Every P) (hwire : later.wire = m.wire)
    (hpacked : later.packed = m.packed) (hrefused : later.refused = m.refused) : later.Every P :=
  fun row hrow => h row (hrow.of_wire hwire hpacked hrefused)

/-! ## Order -/

/-- What lines tell, as far as they tell anything, comes from one shard. On the way to the transport
it is in the order in which it was told to the shard, and all of it is accounted for. -/
structure InOrder (tell : Row α → Option β) (j : Nat) (told : List β) (m : Freight α) : Prop where
  order : ((m.wire ++ m.packed j).filterMap tell).Sublist told
  perm : ((m.wire ++ m.refused.flatten ++ m.packed j).filterMap tell).Perm told
  others : ∀ i ≠ j, (m.packed i).filterMap tell = []

variable {tell : Row α → Option β} {told : List β}

/-- When lines of the shard itself move on, what is new is told behind the rest. -/
theorem InOrder.setCart_self (h : m.InOrder tell j told)
    (hmoves : Cart.Moves added (m.cart j) c) :
    (m.setCart j c).InOrder tell j (told ++ added.filterMap tell) := by
  obtain ⟨more, lost, hmore, hlost, horder, hall⟩ := hmoves
  have hwire := wire_setCart (j := j) (show c.queued = m.queued ++ more from hmore)
  have hgone := refused_setCart (j := j) (show c.refused = m.refused ++ lost from hlost)
  have hpacked : (m.setCart j c).packed j = c.packed := Function.update_self _ _ _
  refine ⟨?_, ?_, fun k hk => ?_⟩
  · rw [hwire, hpacked, List.append_assoc]
    refine ((horder.append_left m.wire).filterMap tell).trans ?_
    rw [← List.append_assoc, List.filterMap_append]
    exact h.order.append_right _
  · have hswap : (m.wire ++ more.flatten ++ (m.refused.flatten ++ lost.flatten) ++ c.packed).Perm
        (m.wire ++ m.refused.flatten ++ (more.flatten ++ lost.flatten ++ c.packed)) := by
      simp only [List.append_assoc]
      exact (List.perm_append_comm_assoc _ _ _).append_left _
    rw [hwire, hgone, hpacked]
    refine ((hswap.trans (hall.append_left _)).filterMap tell).trans ?_
    rw [← List.append_assoc, List.filterMap_append]
    exact h.perm.append_right _
  · rw [show (m.setCart j c).packed k = m.packed k from Function.update_of_ne hk _ _]
    exact h.others k hk

/-- When lines of another shard move on, nothing is told. -/
theorem InOrder.setCart_other (h : m.InOrder tell j told) (hij : i ≠ j)
    (hmoves : Cart.Moves added (m.cart i) c) (hadded : added.filterMap tell = []) :
    (m.setCart i c).InOrder tell j told := by
  obtain ⟨more, lost, hmore, hlost, -, hall⟩ := hmoves
  have hwire := wire_setCart (j := i) (show c.queued = m.queued ++ more from hmore)
  have hgone := refused_setCart (j := i) (show c.refused = m.refused ++ lost from hlost)
  have hmoved : (more.flatten ++ lost.flatten ++ c.packed).filterMap tell = [] := by
    refine List.Perm.eq_nil ((hall.filterMap tell).trans ?_)
    rw [show (m.cart i).packed = m.packed i from rfl, List.filterMap_append, h.others i hij,
      hadded]
    exact .refl _
  simp only [List.filterMap_append, List.append_eq_nil_iff] at hmoved
  obtain ⟨⟨hmore', hlost'⟩, hpacked'⟩ := hmoved
  have hpacked : (m.setCart i c).packed j = m.packed j := Function.update_of_ne hij.symm _ _
  have horder := h.order
  have hperm := h.perm
  simp only [List.filterMap_append] at horder hperm
  refine ⟨?_, ?_, fun k hk => ?_⟩
  · simpa only [hwire, hpacked, List.filterMap_append, hmore', List.append_nil] using horder
  · simpa only [hwire, hgone, hpacked, List.filterMap_append, hmore', hlost', List.append_nil]
      using hperm
  · by_cases hki : k = i
    · subst hki
      rw [show (m.setCart k c).packed k = c.packed from Function.update_self _ _ _]
      exact hpacked'
    · rw [show (m.setCart i c).packed k = m.packed k from Function.update_of_ne hki _ _]
      exact h.others k hk

/-- When lines of a shard move on, what they tell stays in order and accounted for, and what is new
is behind. -/
theorem InOrder.setCart (h : m.InOrder tell j told) (hmoves : Cart.Moves added (m.cart i) c)
    (hadded : i ≠ j → added.filterMap tell = []) :
    (m.setCart i c).InOrder tell j (told ++ added.filterMap tell) := by
  by_cases hij : i = j
  · subst hij
    exact h.setCart_self hmoves
  · rw [hadded hij, List.append_nil]
    exact h.setCart_other hij hmoves (hadded hij)

/-- When lines go on from the queue, what they tell stays in order and accounted for. -/
theorem InOrder.of_wire (h : m.InOrder tell j told) (hwire : later.wire = m.wire)
    (hpacked : later.packed = m.packed) (hrefused : later.refused = m.refused) :
    later.InOrder tell j told := by
  refine ⟨?_, ?_, ?_⟩
  · rw [hwire, hpacked]
    exact h.order
  · rw [hwire, hpacked, hrefused]
    exact h.perm
  · rw [hpacked]
    exact h.others

/-! ## Keeping up -/

/-- The lines go along with packers, the queue, a command taken out of it, the transport and the
counters. -/
structure Fits [Transport τ] (options : Line.Options) (limits : Limits) (transport : τ)
    (m : Freight α) (p : Pipeline τ) (hand : List Command) : Prop where
  neat : p.Neat limits
  options_eq : ∀ shard ∈ p.shards, shard.packer.options = options
  packed : ∀ (j : Nat) (shard : Shard), p.shards[j]? = some shard →
    shard.packer.current.text = Row.textOf (m.packed j) ∧
      shard.packer.current.lines = (m.packed j).length
  /-- There are no lines where there is no shard. -/
  beyond : ∀ j, p.shards[j]? = none → m.packed j = []
  queued : List.Forall₂ Command.Bears p.outbox.queue m.queued
  overflowed_eq : p.outbox.ledger.overflowed = .ofTexts (m.refused.map Row.textOf)
  dropped_eq : m.dropped.length = Shard.oversizedTogether p.shards
  carried : List.Forall₂ Command.Bears hand m.carried
  limits_eq : ∀ payload ∈ Outbox.waiting hand, payload.limits = limits
  /-- The transport was given the payloads carried out, and nothing else. -/
  transport_eq : p.outbox.transport = Transport.afterWrites transport (m.written.map Row.textOf)
  failed_eq : p.outbox.ledger.failed.payloads =
    Transport.failures transport (m.written.map Row.textOf)

/-- Processing a sample is writing it, if sampling keeps it, and it takes a draw. -/
theorem process_eq {p : Pipeline τ} {shard : Shard} (hs : p.shards[j]? = some shard)
    (sample : Sample) :
    p.atShard j (fun s o d => s.process o d sample) =
      { (if (Shard.keeps p.draws sample).1 then
          p.atShard j fun s o d => ((s.put o (.sample sample)).1, (s.put o (.sample sample)).2, d)
        else p) with
        draws := (Shard.keeps p.draws sample).2 } := by
  have hlt := (List.getElem?_eq_some_iff.mp hs).1
  rw [Pipeline.atShard_of_getElem? hs, Pipeline.atShard_of_getElem? hs]
  rcases hkeeps : Shard.keeps p.draws sample with ⟨kept, d⟩
  cases kept with
  | true => simp [Shard.process, hkeeps]
  | false =>
    -- The shard is put back as it was.
    have hsame : p.shards.set j shard = p.shards := by
      rw [← (List.getElem?_eq_some_iff.mp hs).2, List.set_getElem_self]
    simp [Shard.process, hkeeps, hsame]

section

variable [Transport τ] {options : Line.Options} {limits : Limits} {transport : τ}
  {p after : Pipeline τ} {hand : List Command} {shard : Shard}

/-- The cart of a shard goes along with its packer. -/
theorem Fits.exists_cart (h : m.Fits options limits transport p hand)
    (hs : p.shards[j]? = some shard) :
    ∃ others, Shard.oversizedTogether p.shards = others + shard.packer.oversized ∧
      (m.cart j).Fits others shard.packer p.outbox := by
  -- The other shards together have dropped what all have without this one.
  have hothers := Shard.oversizedTogether_set hs
    { shard with packer := { shard.packer with oversized := 0 } }
  exact ⟨_, hothers.symm, (h.packed j shard hs).1, (h.packed j shard hs).2, h.queued,
    h.overflowed_eq, h.dropped_eq.trans hothers.symm⟩

/-- The freight keeps up when the packer of a shard and the outbox change together. -/
theorem Fits.setCart (h : m.Fits options limits transport p hand)
    (hs : p.shards[j]? = some shard) (s : Shard) {o : Outbox τ} {d : Draws}
    (hneat : s.packer.Neat limits) (hclean : o.Clean limits)
    (hoptions : s.packer.options = shard.packer.options)
    (hcart : ∀ others, (m.cart j).Fits others shard.packer p.outbox → c.Fits others s.packer o)
    (hsame : p.outbox.Unwritten o) :
    (m.setCart j c).Fits options limits transport
      { p with shards := p.shards.set j s, outbox := o, draws := d } hand := by
  obtain ⟨others, hothers, hfits⟩ := h.exists_cart hs
  have hlater := hcart others hfits
  have hlt := (List.getElem?_eq_some_iff.mp hs).1
  refine ⟨⟨fun t ht => ?_, hclean⟩, fun t ht => ?_, fun i t ht => ?_, fun i hi => ?_,
    hlater.queued, hlater.overflowed_eq, ?_, h.carried, h.limits_eq,
    hsame.1.trans h.transport_eq, (congrArg _ hsame.2).trans h.failed_eq⟩
  · rcases List.mem_or_eq_of_mem_set ht with hold | rfl
    · exact h.neat.packers t hold
    · exact hneat
  · rcases List.mem_or_eq_of_mem_set ht with hold | rfl
    · exact h.options_eq t hold
    · exact hoptions.trans (h.options_eq shard (List.mem_of_getElem? hs))
  · obtain ⟨rfl, rfl⟩ | ⟨hne, hold⟩ := getElem?_set_cases ht
    · show t.packer.current.text = Row.textOf (Function.update m.packed j c.packed j) ∧
        t.packer.current.lines = (Function.update m.packed j c.packed j).length
      rw [Function.update_self]
      exact ⟨hlater.text_eq, hlater.lines_eq⟩
    · show t.packer.current.text = Row.textOf (Function.update m.packed j c.packed i) ∧
        t.packer.current.lines = (Function.update m.packed j c.packed i).length
      rw [Function.update_of_ne (Ne.symm hne)]
      exact h.packed i t hold
  -- No shard is added.
  · have hij : i ≠ j := by
      rintro rfl
      simp [hlt] at hi
    show Function.update m.packed j c.packed i = []
    rw [Function.update_of_ne hij]
    rw [List.getElem?_set_ne (Ne.symm hij)] at hi
    exact h.beyond i hi
  · show c.dropped.length = Shard.oversizedTogether (p.shards.set j s)
    -- The counters of all shards change by what that of this shard does.
    have htogether := Shard.oversizedTogether_set hs s
    have hdropped := hlater.dropped_eq
    omega

/-- What leaves the packers and the outbox alone leaves the freight right. -/
theorem Fits.of_packers (h : m.Fits options limits transport p hand)
    (houtbox : after.outbox = p.outbox)
    (hpackers : after.shards.map Shard.packer = p.shards.map Shard.packer) :
    m.Fits options limits transport after hand := by
  -- Shard by shard, the packers are the same ones.
  have hback {j : Nat} {t : Shard} (ht : after.shards[j]? = some t) :
      ∃ shard : Shard, p.shards[j]? = some shard ∧ t.packer = shard.packer := by
    have hj := congrArg (·[j]?) hpackers
    simp only [List.getElem?_map, ht, Option.map_some] at hj
    obtain ⟨shard, hs, hsame⟩ := Option.map_eq_some_iff.mp hj.symm
    exact ⟨shard, hs, hsame.symm⟩
  have hmem {t : Shard} (ht : t ∈ after.shards) :
      ∃ shard ∈ p.shards, t.packer = shard.packer := by
    obtain ⟨j, hj⟩ := List.mem_iff_getElem?.mp ht
    obtain ⟨shard, hs, hsame⟩ := hback hj
    exact ⟨shard, List.mem_of_getElem? hs, hsame⟩
  refine ⟨⟨fun t ht => ?_, houtbox ▸ h.neat.clean⟩, fun t ht => ?_, fun j t ht => ?_,
    fun j hj => ?_, houtbox ▸ h.queued, houtbox ▸ h.overflowed_eq, ?_, h.carried, h.limits_eq,
    houtbox ▸ h.transport_eq, houtbox ▸ h.failed_eq⟩
  · obtain ⟨shard, hs, hsame⟩ := hmem ht
    rw [hsame]
    exact h.neat.packers shard hs
  · obtain ⟨shard, hs, hsame⟩ := hmem ht
    rw [hsame]
    exact h.options_eq shard hs
  · obtain ⟨shard, hs, hsame⟩ := hback ht
    rw [hsame]
    exact h.packed j shard hs
  · refine h.beyond j (List.getElem?_eq_none ?_)
    have hlength := congrArg List.length hpackers
    rw [List.length_map, List.length_map] at hlength
    rw [← hlength]
    exact List.getElem?_eq_none_iff.mp hj
  · have hsum : (after.shards.map (·.packer.oversized)).sum =
        (p.shards.map (·.packer.oversized)).sum := by
      simpa [List.map_map, Function.comp_def] using
        congrArg (fun packers : List Packer => (packers.map Packer.oversized).sum) hpackers
    rw [h.dropped_eq, Shard.oversizedTogether_eq_sum, Shard.oversizedTogether_eq_sum, hsum]

/-- The freight keeps up with an entry that is written. -/
theorem Fits.put (h : m.Fits options limits transport p hand) (j : Nat) (e : Entry) (origin : α) :
    (m.put p j e origin).Fits options limits transport
      (p.atShard j fun s o d => ((s.put o e).1, (s.put o e).2, d)) hand := by
  cases hs : p.shards[j]? with
  | none =>
    rw [Pipeline.atShard_of_none hs, Freight.put, hs]
    exact h
  | some shard =>
    have hneat := h.neat.packers shard (List.mem_of_getElem? hs)
    obtain ⟨hneat', hclean'⟩ := hneat.add h.neat.clean e
    rw [Pipeline.atShard_of_getElem? hs, Freight.put, hs]
    exact h.setCart hs { shard with packer := (shard.packer.add p.outbox e).1 } hneat' hclean'
      (Packer.options_add _ _ _) (fun _ hcart => hcart.add hneat h.neat.clean e origin)
      (Outbox.unwritten_add _ _ _)

/-- The freight keeps up with a payload that is handed over. -/
theorem Fits.handOver (h : m.Fits options limits transport p hand) (j : Nat) :
    (m.handOver p j).Fits options limits transport (p.handOverAt j) hand := by
  cases hs : p.shards[j]? with
  | none =>
    rw [Pipeline.handOverAt, Pipeline.atShard_of_none hs, Freight.handOver, hs]
    exact h
  | some shard =>
    have hneat := h.neat.packers shard (List.mem_of_getElem? hs)
    obtain ⟨hneat', -, hclean'⟩ := hneat.handOver h.neat.clean
    rw [Pipeline.handOverAt, Pipeline.atShard_of_getElem? hs, Freight.handOver, hs]
    exact h.setCart hs { shard with packer := (shard.packer.handOver p.outbox).1 } hneat' hclean'
      (Packer.options_handOver _ _) (fun _ hcart => hcart.handOver h.neat.clean)
      (Outbox.unwritten_handOver _ _)

/-- The freight keeps up with a sample that a shard processes. -/
theorem Fits.process (h : m.Fits options limits transport p hand) (j : Nat) (sample : Sample)
    (origin : α) :
    (m.process p j sample origin).Fits options limits transport
      (p.atShard j fun s o d => s.process o d sample) hand := by
  unfold Freight.process
  cases hs : p.shards[j]? with
  | none =>
    rw [Pipeline.atShard_of_none hs, Freight.put, hs, ite_self]
    exact h
  | some shard =>
    -- The draws do not matter here.
    rw [process_eq hs]
    split
    · exact (h.put j (.sample sample) origin).of_packers rfl rfl
    · exact h.of_packers rfl rfl

/-- The lines that a shard writes for an entry are lines of that entry. -/
theorem Fits.isLine_of_mem_encodedAt (h : m.Fits options limits transport p hand) {e : Entry}
    {line : String} (hline : line ∈ p.encodedAt j e) : e.IsLine options line := by
  unfold Pipeline.encodedAt at hline
  split at hline
  · cases hline
  next shard hs =>
    rw [← h.options_eq shard (List.mem_of_getElem? hs)]
    exact Packer.isLine_of_mem_encoded hline

/-- Of a sample, a shard writes its line, if an empty payload has room for it. -/
theorem Fits.encodedAt_sample (h : m.Fits options limits transport p hand)
    (hlt : j < p.shards.length) (sample : Sample) :
    p.encodedAt j (.sample sample) =
      if ({ limits } : Payload).HasRoom (Line.ofSample options sample) then
        [Line.ofSample options sample]
      else [] := by
  have hmem := List.getElem_mem hlt
  rw [Pipeline.encodedAt, List.getElem?_eq_getElem hlt, ← h.options_eq _ hmem]
  exact (h.neat.packers _ hmem).encoded_sample h.neat.clean sample

/-- A shard writes the line of a sample, if sampling keeps it and an empty payload has room. -/
theorem Fits.linesFor_eq (h : m.Fits options limits transport p hand)
    (hlt : j < p.shards.length) (sample : Sample) (origin : α) :
    linesFor p j sample origin =
      if (Shard.keeps p.draws sample).1 ∧
          ({ limits } : Payload).HasRoom (Line.ofSample options sample) then
        [⟨origin, Line.ofSample options sample⟩]
      else [] := by
  rw [linesFor, h.encodedAt_sample hlt]
  by_cases hroom : ({ limits } : Payload).HasRoom (Line.ofSample options sample)
  · simp [hroom, Row.ofLines]
  · simp [hroom, Row.ofLines]

omit [Transport τ] in
/-- An entry that has something to write is noted as dropped, or some of it is written. -/
theorem mem_dropped_or_encodedAt_ne_nil {p : Pipeline τ} {e : Entry} (he : e.IsFull)
    (hlt : j < p.shards.length) (m : Freight α) (origin : α) :
    origin ∈ (m.put p j e origin).dropped ∨ p.encodedAt j e ≠ [] := by
  rw [put, Pipeline.encodedAt, List.getElem?_eq_getElem hlt]
  exact Cart.mem_dropped_or_encoded_ne_nil he (m.cart j) _ _ origin

/-- The freight keeps up with a barrier that is put into the queue. -/
theorem Fits.raise (h : m.Fits options limits transport p hand) (caller : Nat) :
    m.raise.Fits options limits transport { p with outbox := p.outbox.raise caller } hand :=
  ⟨⟨h.neat.packers, h.neat.clean.raise caller⟩, h.options_eq, h.packed, h.beyond,
    List.rel_append h.queued (.cons rfl .nil), h.overflowed_eq, h.dropped_eq, h.carried,
    h.limits_eq, h.transport_eq, h.failed_eq⟩

/-- The freight keeps up with a command that is taken out of the queue. -/
theorem Fits.fetch (h : m.Fits options limits transport p []) {command : Command}
    {queue : List Command} (hqueue : p.outbox.queue = command :: queue) :
    m.fetch.Fits options limits transport { p with outbox := { p.outbox with queue } }
      [command] ∧ m.fetch.wire = m.wire := by
  have hqueued := h.queued
  rw [hqueue] at hqueued
  obtain ⟨rows, rest, hbears, hrest, hm⟩ := List.forall₂_cons_left_iff.mp hqueued
  have hcarried := List.forall₂_nil_left_iff.mp h.carried
  have hfetch : m.fetch = { m with queued := rest, carried := [rows] } := by
    simp [Freight.fetch, hm]
  rw [hfetch]
  refine ⟨⟨⟨h.neat.packers, h.neat.clean.tail hqueue⟩, h.options_eq, h.packed, h.beyond, hrest,
    h.overflowed_eq, h.dropped_eq, .cons hbears .nil, ?_, h.transport_eq, h.failed_eq⟩, ?_⟩
  · intro payload hmem
    refine h.neat.clean.limits_eq payload ?_
    rw [hqueue, ← List.singleton_append, Outbox.waiting_append]
    exact List.mem_append_left _ hmem
  · simp [wire, hm, hcarried]

/-- The freight keeps up with a command that is carried out. -/
theorem Fits.carry {command : Command} (h : m.Fits options limits transport p [command]) :
    m.carry.Fits options limits transport { p with outbox := p.outbox.perform command } [] ∧
      m.carry.wire = m.wire := by
  obtain ⟨rows, rest, hbears, hrest, hm⟩ := List.forall₂_cons_left_iff.mp h.carried
  obtain rfl := List.forall₂_nil_left_iff.mp hrest
  have hwire : m.carry.wire = m.wire := by simp [wire, Freight.carry]
  cases command with
  | barrier caller =>
    -- A barrier bears no lines, and nothing is written.
    obtain rfl : rows = [] := hbears
    have hwritten : m.carry.written = m.written := by
      simp [Freight.written, Freight.carry, hm]
    exact ⟨⟨h.neat, h.options_eq, h.packed, h.beyond, h.queued, h.overflowed_eq, h.dropped_eq, .nil,
      List.forall_mem_nil _, hwritten ▸ h.transport_eq, hwritten ▸ h.failed_eq⟩, hwire⟩
  | payload payload =>
    -- A payload that holds a line is written, whatever the outcome.
    obtain ⟨hholds, hne, htext⟩ := hbears
    have hwritten : m.carry.written = m.written ++ [rows] := by
      simp [Freight.written, Freight.carry, hm, hne]
    have hclean := h.neat.clean.deliver (h.limits_eq payload List.mem_cons_self)
    rw [Outbox.deliver_of_not_isEmpty hholds] at hclean
    refine ⟨?_, hwire⟩
    rw [show p.outbox.perform (.payload payload) = p.outbox.deliver payload from rfl,
      Outbox.deliver_of_not_isEmpty hholds]
    refine ⟨⟨h.neat.packers, hclean⟩, h.options_eq, h.packed, h.beyond, h.queued, ?_,
      h.dropped_eq, .nil, List.forall_mem_nil _, ?_, ?_⟩
    · show (if _ then _ else _ : Ledger).overflowed = .ofTexts (m.refused.map Row.textOf)
      split <;> exact h.overflowed_eq
    · rw [hwritten, List.map_append, Transport.afterWrites_append, ← h.transport_eq, htext]
      rfl
    · rw [hwritten, List.map_append, Transport.failures_append, ← h.failed_eq, ← h.transport_eq]
      show (if _ then _ else _ : Ledger).failed.payloads =
        _ + ((if (Transport.write p.outbox.transport (Row.textOf rows)).1.isOk then 0 else 1) + 0)
      rw [← htext]
      split
      · rfl
      · rfl

/-- At first there are no lines, neither in payloads nor given to the transport. -/
theorem fits_start {pool : Pool} (hpool : pool.Clean limits) (options : Line.Options)
    (workers : Nat) (route : String → Nat) (draws : Draws) (intake : Intake) (capacity : Nat)
    (running : Bool) (transport : τ) :
    ({} : Freight α).Fits options limits transport
      { route := route
        shards := List.replicate workers { packer := { options, current := { limits } } }
        intake := intake
        outbox := { capacity, running, transport, pool }
        draws := draws } [] := by
  have hshard {shard : Shard} (hs : shard ∈ List.replicate workers
      ({ packer := { options, current := { limits } } } : Shard)) :
      shard = { packer := { options, current := { limits } } } :=
    List.eq_of_mem_replicate hs
  refine ⟨⟨fun shard hs => ?_, hpool, List.forall_mem_nil _⟩, fun shard hs => ?_,
    fun j shard hs => ?_, fun _ _ => rfl, .nil, rfl, ?_, .nil, List.forall_mem_nil _, rfl, rfl⟩
  · rw [hshard hs]
    exact ⟨rfl, fun _ => rfl⟩
  · rw [hshard hs]
  · rw [hshard (List.mem_of_getElem? hs)]
    exact ⟨rfl, rfl⟩
  · simp [Shard.oversizedTogether_eq_sum]

/-- After its payload was handed over, no line is in a shard. -/
theorem Fits.packed_handOver (h : m.Fits options limits transport p hand) (j : Nat) :
    (m.handOver p j).packed j = [] := by
  unfold Freight.handOver
  split
  next hnone => exact h.beyond j hnone
  next shard hs =>
    show Function.update m.packed j _ j = []
    rw [Function.update_self, Cart.handOver]
    split
    next hempty =>
      have hlines := (h.packed j shard hs).2
      rw [show shard.packer.current.lines = 0 by simpa [Payload.isEmpty] using hempty] at hlines
      exact List.eq_nil_of_length_eq_zero hlines.symm
    next => split <;> rfl

end

end Freight

end DogStatsD
