import DogStatsD.Pipeline
import DogStatsD.Proofs.Packer.Exchange
import Mathlib.Algebra.BigOperators.Group.List.Basic
import Mathlib.Algebra.GroupWithZero.Nat

/-!
# Shards of a Pipeline

What an operation does to one shard, and what it leaves alone in the others.

* `Pipeline.atShard_of_getElem?`, `Pipeline.getElem?_atShard`: an operation on one shard changes
  that shard and what all shards share;
* `sum_map_set`, `flatMap_set_perm`, `Shard.oversizedTogether_set`: what the shards have together
  changes by what one shard does;
* `Pipeline.dispatch_cases`: a sample is taken, finds its channel full or finds it closed;
* `Pipeline.newShards_eq`: the shards that a pipeline starts with.
-/

namespace DogStatsD

/-- Exchanging one member of a list exchanges its share in a sum. -/
theorem sum_map_set {α : Type} {l : List α} {i : Nat} {a : α} (h : l[i]? = some a) (b : α)
    (f : α → Nat) : ((l.set i b).map f).sum + f a = (l.map f).sum + f b := by
  induction l generalizing i with
  | nil => simp at h
  | cons first rest ih =>
    cases i with
    | zero =>
      obtain rfl : first = a := by simpa using h
      simp only [List.set_cons_zero, List.map_cons, List.sum_cons]
      omega
    | succ i =>
      have hrest := ih (i := i) (by simpa using h)
      simp only [List.set_cons_succ, List.map_cons, List.sum_cons]
      omega

/-- A member of a list in which one member was exchanged. -/
theorem getElem?_set_cases {α : Type} {l : List α} {i j : Nat} {a b : α}
    (h : (l.set i b)[j]? = some a) : (i = j ∧ a = b) ∨ (i ≠ j ∧ l[j]? = some a) := by
  rw [List.getElem?_set] at h
  split_ifs at h with hij hlt
  · exact .inl ⟨hij, (Option.some.inj h).symm⟩
  · exact .inr ⟨hij, h⟩

/-- Exchanging one member of a list exchanges what it holds: if some of that goes out in front and
some comes in behind, this is so of the whole list. -/
theorem flatMap_set_perm {α β : Type} {l : List α} {i : Nat} {a b : α} {f : α → List β}
    {gone more : List β} (h : l[i]? = some a) (hgone : gone ++ f b = f a ++ more) :
    (gone ++ (l.set i b).flatMap f).Perm (l.flatMap f ++ more) := by
  induction l generalizing i with
  | nil => simp at h
  | cons first rest ih =>
    cases i with
    | zero =>
      obtain rfl : first = a := by simpa using h
      rw [List.set_cons_zero, List.flatMap_cons, List.flatMap_cons, ← List.append_assoc, hgone,
        List.append_assoc, List.append_assoc]
      exact List.perm_append_comm.append_left _
    | succ i =>
      have hrest := ih (i := i) (by simpa using h)
      rw [List.set_cons_succ, List.flatMap_cons, List.flatMap_cons, List.append_assoc]
      exact (List.perm_append_comm_assoc _ _ _).trans (hrest.append_left _)

/-- Exchanging one member of a list for another that holds the same changes nothing about what it
holds. -/
theorem flatMap_set_eq {α β : Type} {l : List α} {i : Nat} {a b : α} {f : α → List β}
    (h : l[i]? = some a) (hsame : f b = f a) : (l.set i b).flatMap f = l.flatMap f := by
  have hmap : (l.map f)[i]? = some (f a) := by rw [List.getElem?_map, h]; rfl
  obtain ⟨hlt, heq⟩ := List.getElem?_eq_some_iff.mp hmap
  rw [List.flatMap_def, List.map_set, hsame, ← heq, List.set_getElem_self, ← List.flatMap_def]

/-- What a list holds in which one member was exchanged. -/
theorem mem_flatMap_set {α β : Type} {l : List α} {i : Nat} {b : α} {f : α → List β} {item : β}
    (h : item ∈ (l.set i b).flatMap f) : item ∈ l.flatMap f ∨ item ∈ f b := by
  obtain ⟨a, hmem, hitem⟩ := List.mem_flatMap.mp h
  rcases List.mem_or_eq_of_mem_set hmem with hold | rfl
  · exact .inl (List.mem_flatMap.mpr ⟨a, hold, hitem⟩)
  · exact .inr hitem

namespace Shard

theorem oversizedTogether_eq_sum (shards : List Shard) :
    oversizedTogether shards = (shards.map (·.packer.oversized)).sum := by
  induction shards with
  | nil => rfl
  | cons s rest ih => rw [oversizedTogether, ih, List.map_cons, List.sum_cons]

/-- Exchanging a shard exchanges what it has dropped. -/
theorem oversizedTogether_set {shards : List Shard} {i : Nat} {s : Shard}
    (h : shards[i]? = some s) (later : Shard) :
    oversizedTogether (shards.set i later) + s.packer.oversized =
      oversizedTogether shards + later.packer.oversized := by
  simp only [oversizedTogether_eq_sum]
  exact sum_map_set h later (·.packer.oversized)

end Shard

namespace Pipeline

variable {τ : Type}

/-- Hand over the payload of one shard. -/
def handOverAt (p : Pipeline τ) (i : Nat) : Pipeline τ :=
  p.atShard i fun s o d =>
    let (s, o) := s.handOver o
    (s, o, d)

variable {p : Pipeline τ} {i j : Nat} {s t : Shard}
  {f : Shard → Outbox τ → Draws → Shard × Outbox τ × Draws}

/-- An operation on a shard works on the shard, the outbox and the draws together. -/
theorem atShard_of_getElem? (h : p.shards[i]? = some s)
    (f : Shard → Outbox τ → Draws → Shard × Outbox τ × Draws) :
    p.atShard i f =
      { p with
        shards := p.shards.set i (f s p.outbox p.draws).1
        outbox := (f s p.outbox p.draws).2.1
        draws := (f s p.outbox p.draws).2.2 } := by
  rw [atShard, h]

/-- An operation on a shard that does not exist does nothing. -/
theorem atShard_of_none (h : p.shards[i]? = none) : p.atShard i f = p := by
  rw [atShard, h]

@[simp]
theorem intake_atShard : (p.atShard i f).intake = p.intake := by
  unfold atShard
  split <;> rfl

@[simp]
theorem length_atShard : (p.atShard i f).shards.length = p.shards.length := by
  unfold atShard
  split
  · rfl
  · exact List.length_set

/-- Where names go does not depend on what shards do. -/
@[simp]
theorem shardOf_atShard (name : String) : (p.atShard i f).shardOf name = p.shardOf name := by
  unfold shardOf
  rw [length_atShard]
  unfold atShard
  split <;> rfl

/-- What an operation puts into the queue comes behind what is there already. -/
theorem queue_atShard (hf : ∀ s o d, o.queue <+: (f s o d).2.1.queue) :
    p.outbox.queue <+: (p.atShard i f).outbox.queue := by
  unfold atShard
  split
  · exact List.prefix_rfl
  · exact hf _ _ _

/-- After an operation on one shard, that shard is what the operation made of it, and the others
are what they were. -/
theorem getElem?_atShard (h : (p.atShard i f).shards[j]? = some t) :
    (i = j ∧ ∃ s, p.shards[j]? = some s ∧ t = (f s p.outbox p.draws).1) ∨
      (i ≠ j ∧ p.shards[j]? = some t) := by
  cases hs : p.shards[i]? with
  | none =>
    rw [atShard_of_none hs] at h
    refine .inr ⟨?_, h⟩
    rintro rfl
    rw [hs] at h
    cases h
  | some s =>
    rw [atShard_of_getElem? hs] at h
    obtain ⟨rfl, rfl⟩ | hother := getElem?_set_cases h
    · exact .inl ⟨rfl, s, hs, rfl⟩
    · exact .inr hother

/-- An operation on each shard in turn is an operation on one shard after the other. -/
theorem atShards_eq_foldl (p : Pipeline τ)
    (f : Shard → Outbox τ → Draws → Shard × Outbox τ × Draws) :
    p.atShards f = (List.range p.shards.length).foldl (fun p i => p.atShard i f) p := by
  -- The shards done so far stand first, and the number of the next one is how many these are.
  suffices h : ∀ (rest first : List Shard) (p : Pipeline τ), p.shards = first ++ rest →
      (List.range' first.length rest.length).foldl (fun p i => p.atShard i f) p =
        { p with
          shards := first ++ (overShards f p.outbox p.draws rest).1
          outbox := (overShards f p.outbox p.draws rest).2.1
          draws := (overShards f p.outbox p.draws rest).2.2 } by
    rw [List.range_eq_range']
    exact (h p.shards [] p rfl).symm
  intro rest
  induction rest with
  | nil =>
    intro first p hshards
    rw [List.append_nil] at hshards
    simp [overShards, ← hshards]
  | cons s rest ih =>
    intro first p hshards
    have hs : p.shards[first.length]? = some s := by simp [hshards]
    have hnext := ih (first ++ [(f s p.outbox p.draws).1]) (p.atShard first.length f) (by
      simp [atShard_of_getElem? hs, hshards])
    rw [List.length_append, List.length_singleton] at hnext
    rw [List.length_cons, List.range'_succ, List.foldl_cons, hnext, atShard_of_getElem? hs]
    simp [overShards]

/-- An operation that changes no shard changes nothing. -/
theorem atShards_eq_self (hf : ∀ s ∈ p.shards, ∀ o d, f s o d = (s, o, d)) : p.atShards f = p := by
  have hover : overShards f p.outbox p.draws p.shards = (p.shards, p.outbox, p.draws) := by
    generalize p.shards = shards at hf
    induction shards with
    | nil => rfl
    | cons s rest ih =>
      obtain ⟨hs, hrest⟩ := List.forall_mem_cons.mp hf
      simp only [overShards, hs, ih hrest]
  rw [atShards, hover]

/-! ## Samples -/

/-- Without channels, a sample is processed by its shard at once. -/
theorem dispatch_of_direct (h : p.intake = .direct) (sample : Sample) :
    p.dispatch sample =
      (.ok (), p.atShard (p.shardOf sample.routingName) fun s o d => s.process o d sample) := by
  simp [dispatch, h]

/-- With channels, a sample is put into the channel of its shard, if there is room. -/
theorem dispatch_of_channels {settings : ChannelSettings} (h : p.intake = .channels settings)
    (sample : Sample) :
    p.dispatch sample = p.enqueue settings (p.shardOf sample.routingName) sample := by
  simp [dispatch, h]

/-- When the channels are closed, a sample is refused and nothing changes. -/
theorem dispatch_of_stopped (h : p.intake = .stopped) (sample : Sample) :
    p.dispatch sample = (.error .closed, p) := by
  simp [dispatch, h]

/-- A sample is taken, or its channel is full and that is counted, or the receivers have stopped. -/
theorem dispatch_cases (p : Pipeline τ) (sample : Sample) :
    (p.dispatch sample).1 = .ok () ∨
    p.dispatch sample = (.error .channelFull, { p with overflowed := p.overflowed + 1 }) ∨
    (p.intake = .stopped ∧ p.dispatch sample = (.error .closed, p)) := by
  cases hintake : p.intake with
  | direct => exact .inl (by rw [dispatch_of_direct hintake])
  | stopped => exact .inr (.inr ⟨rfl, dispatch_of_stopped hintake sample⟩)
  | channels settings =>
    rw [dispatch_of_channels hintake, enqueue]
    split
    · exact .inl rfl
    · split
      · exact .inl rfl
      · cases settings.reportFull with
        | true => exact .inr (.inl (by simp [hintake]))
        | false => exact .inl rfl

/-- New shards hold nothing, and take nothing but payloads out of the pool. -/
theorem newShards_eq (options : Line.Options) {limits : Limits} {o : Outbox τ}
    (h : o.Clean limits) (count : Nat) :
    (newShards options o count).1 =
        List.replicate count { packer := { options, current := { limits } } } ∧
      ∃ pool, (newShards options o count).2 = { o with pool } ∧ pool.Clean limits := by
  induction count generalizing o with
  | zero => exact ⟨rfl, o.pool, rfl, h.pool⟩
  | succ count ih =>
    obtain ⟨hshards, pool, houtbox, hpool⟩ := ih h.borrow_snd
    have hnew : newShards options o (count + 1) =
        ({ packer := { options, current := { limits } } } :: (newShards options o.borrow.2 count).1,
          (newShards options o.borrow.2 count).2) := by
      simp only [newShards, Packer.new]
      rw [h.borrow_fst]
    rw [hnew, hshards]
    exact ⟨rfl, pool, houtbox, hpool⟩

end Pipeline

end DogStatsD
