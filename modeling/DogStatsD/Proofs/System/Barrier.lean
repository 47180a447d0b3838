import DogStatsD.Proofs.System.Orderly
import DogStatsD.Proofs.System.Tracking
import DogStatsD.Transport.Scripted

/-!
# A Flush Waits for What Was Sent Before

A flush takes one kind after the other out of the tables, writes the entries, hands over the payload
of one shard after the other, and then waits until the queue is worked off as far as it was filled
by then. Behind a flush, there is nothing left of the samples that were sent before: they can only
be where it will still come by.

There is one way around this. Another party may have taken the entry of a sample out, and write it
only when the flush has handed over the payload of its shard already.

* `System.Ahead`: a sample is only where a flush will still come by;
* `System.Behind`: the samples in the queue are before the barrier of a caller;
* `System.Overtaken`: another party holds the entry of a sample too long;
* `System.Pursued.next`: a flush stays behind the samples that were sent before it, or is overtaken;
* `System.flush_settles`: what is so when the call of a flush returns.
-/

namespace DogStatsD

namespace System

variable {τ : Type} [Transport τ] {config : Config} {client : Client τ} {s s' : System τ}
  {t later : Trail} {i n j : Nat} {w : Sweep} {party : Party}

/-! ## Where a flush will still come by -/

/-- A party holds an entry with a sample for a shard. -/
def HoldsFor (s : System τ) (t : Trail) (n : Nat) (party : Party) (j : Nat) : Prop :=
  ∃ pair ∈ (s.sweep party).entries.zip (t.hands party),
    n ∈ pair.2 ∧ s.client.pipeline.shardOf pair.1.routingName = j

/-- A sample is only where a flush that has this left to do will still come by. -/
structure Ahead (s : System τ) (t : Trail) (n : Nat) (w : Sweep) : Prop where
  live : ∀ m, (n, m) ∈ t.live → m.kind ∈ w.kinds
  hands : ∀ party j, s.HoldsFor t n party j → j ∈ w.shards
  packed : ∀ j, n ∈ numbersOf (t.packed j) → j ∈ w.shards
  /-- As long as there is something to be taken out or written, all shards are left. -/
  shards_eq : w.kinds ≠ [] ∨ w.entries ≠ [] →
    w.shards = List.range s.client.pipeline.shards.length

/-- Nothing is new about the entries that parties hold. -/
structure SameEntries (s s' : System τ) : Prop where
  entries : ∀ party, (s'.sweep party).entries = (s.sweep party).entries
  shardOf : ∀ name, s'.client.pipeline.shardOf name = s.client.pipeline.shardOf name
  length_eq : s'.client.pipeline.shards.length = s.client.pipeline.shards.length

omit [Transport τ] in
/-- A sample about which nothing is new is where it was. -/
theorem Ahead.of_same (h : s.Ahead t n w) (hsame : s.SameEntries s')
    (hhands : later.hands = t.hands) (hlive : ∀ m, (n, m) ∈ later.live → (n, m) ∈ t.live)
    (hpacked : ∀ j, n ∈ numbersOf (later.packed j) → n ∈ numbersOf (t.packed j)) :
    s'.Ahead later n w := by
  refine ⟨fun m hm => h.live m (hlive m hm), ?_, fun j hj => h.packed j (hpacked j hj), ?_⟩
  · rintro party j ⟨pair, hpair, hn, hj⟩
    rw [hsame.entries, hhands] at hpair
    rw [hsame.shardOf] at hj
    exact h.hands party j ⟨pair, hpair, hn, hj⟩
  · rw [hsame.length_eq]
    exact h.shards_eq

/-- The samples of an entry that is taken out were in the tables. -/
theorem exists_live_of_mem_represented {e : Entry} (h : n ∈ t.represented e) :
    ∃ m, (n, m) ∈ t.live := by
  obtain ⟨⟨_, m⟩, hitem, rfl⟩ := List.mem_map.mp h
  exact ⟨m, (List.mem_filter.mp hitem).1⟩

/-- A flush comes by wherever there is a sample. -/
theorem ahead_whole (hs : s.Direct) (hm : s.Matches config client t) (n : Nat) :
    s.Ahead t n (.whole s.client) := by
  refine ⟨fun m hmem => ?_, ?_, fun j hj => ?_, fun _ => rfl⟩
  · cases ha : s.client.aggregator with
    | none =>
      rw [hm.unmerged ha] at hmem
      cases hmem
    | some a => simp [Sweep.whole, Sweep.ofAggregator, ha, Aggregator.mem_drainOrder]
  · rintro party j ⟨pair, -, -, rfl⟩
    exact List.mem_range.mpr (hs.shardOf_lt _)
  · refine List.mem_range.mpr ?_
    -- There are no rows beyond the shards.
    by_contra hge
    rw [hm.fits.beyond j (List.getElem?_eq_none (not_lt.mp hge))] at hj
    cases hj

/-- Wherever the parties take a sample, a flush will come by. -/
theorem Ahead.drain (h : s.Ahead t n w) (hs : s.Direct) (hm : s.Matches config client t)
    {held : Sweep} (hflushes : s.Flushes held party) (after : Client τ) (drainer : Option Party)
    (kind : Kind)
    (kinds : List Kind) (drained : List Entry)
    (hsame : after.pipeline = s.client.pipeline) :
    Ahead
      ({ s with client := after, drainer }.setSweep
        { held with kinds, entries := held.entries ++ drained } party)
      (t.drain party kind drained) n w := by
  refine ⟨fun m hmem => h.live m (List.mem_of_mem_filter hmem), ?_, h.packed, ?_⟩
  · rintro other j ⟨pair, hpair, hn, hj⟩
    rw [client_setSweep, hsame] at hj
    rw [sweep_setSweep hflushes] at hpair
    by_cases hother : other = party
    · subst hother
      have hlength := (hm.hands other).length_eq
      rw [sweep_of_flushes hflushes] at hlength
      simp only [Trail.drain, Function.update_self, List.zip_append hlength] at hpair
      obtain hold | hnew := List.mem_append.mp hpair
      · exact h.hands other j ⟨pair, by rwa [sweep_of_flushes hflushes], hn, hj⟩
      · -- What was in the tables is going to be written by the flush at the earliest.
        rw [← List.map_prod_left_eq_zip] at hnew
        obtain ⟨e, -, rfl⟩ := List.mem_map.mp hnew
        obtain ⟨m, hlive⟩ := exists_live_of_mem_represented hn
        have hkinds := List.ne_nil_of_mem (h.live m hlive)
        rw [h.shards_eq (.inl hkinds), ← hj]
        exact List.mem_range.mpr (hs.shardOf_lt _)
    · refine h.hands other j ⟨pair, ?_, hn, hj⟩
      simpa [Trail.drain, hother] using hpair
  · rw [client_setSweep, hsame]
    exact h.shards_eq

/-- When a party writes an entry, its samples come into a shard that a flush still had to come by
for them. -/
theorem Ahead.putNext (h : s.Ahead t n w) (hm : s.Matches config client t) {e : Entry}
    {entries : List Entry} {shards : List Nat}
    (hflushes : s.Flushes { entries := e :: entries, shards } party)
    (drainer : Option Party) :
    Ahead
      ({ s with
        client := { s.client with pipeline := s.client.pipeline.put e }, drainer }.setSweep
        { entries, shards } party)
      (t.putNext s.client.pipeline party e) n w := by
  obtain ⟨group, rest, hgroups, -, -⟩ := hm.exists_hand hflushes
  have hzip : (s.sweep party).entries.zip (t.hands party) = (e, group) :: entries.zip rest := by
    rw [sweep_of_flushes hflushes, hgroups]
    rfl
  obtain ⟨c, hmoves, hnext⟩ := Trail.exists_putNext hgroups s.client.pipeline e
  obtain ⟨more, -, hfrom⟩ := Trail.numbersOf_moves hmoves
  rw [hnext]
  -- The samples of the first entry in hand go where the flush had to come by for the hand.
  refine ⟨h.live, ?_, fun j hj => ?_, ?_⟩
  · rintro other j ⟨pair, hpair, hn, hj⟩
    rw [sweep_setSweep hflushes] at hpair
    rw [client_setSweep] at hj
    simp only [Pipeline.put, Pipeline.shardOf_atShard] at hj
    refine h.hands other j ⟨pair, ?_, hn, hj⟩
    by_cases hother : other = party
    · subst hother
      rw [hzip]
      exact List.mem_cons_of_mem _ (by simpa using hpair)
    · simpa [hother] using hpair
  · by_cases hshard : j = s.client.pipeline.shardOf e.routingName
    · subst hshard
      simp only [Freight.setCart, Function.update_self] at hj
      -- What is packed now was packed before, or has just left the hand.
      obtain hold | hnew := hfrom n (.inr hj)
      · exact h.packed _ hold
      · have hn := Trail.mem_numbers_of_mem_ofLines hnew
        exact h.hands party _ ⟨(e, group), by simp [hzip], hn, rfl⟩
    · simp only [Freight.setCart, Function.update_of_ne hshard] at hj
      exact h.packed j hj
  · simp only [client_setSweep, Pipeline.put, Pipeline.length_atShard]
    exact h.shards_eq

omit [Transport τ] in
/-- When a party hands over the payload of a shard, its samples leave for the queue. -/
theorem Ahead.handOver (h : s.Ahead t n w) {shards : List Nat}
    (hflushes : s.Flushes { shards := j :: shards } party) (drainer : Option Party) :
    Ahead
      ({ s with
        client := { s.client with pipeline := s.client.pipeline.handOverAt j }, drainer }.setSweep
        { shards } party)
      (t.setFreight (t.handOver s.client.pipeline j)) n w := by
  obtain ⟨c, hmoves, -, hover⟩ := t.exists_handOver s.client.pipeline j
  obtain ⟨more, -, hfrom⟩ := Trail.numbersOf_moves hmoves
  rw [hover]
  refine h.of_same ⟨entries_setSweep hflushes { shards } rfl _ drainer, ?_, ?_⟩ rfl
    (fun _ => id) fun k hk => ?_
  · simp [Pipeline.handOverAt]
  · simp [Pipeline.handOverAt]
  · by_cases hshard : k = j
    · subst hshard
      simp only [Trail.setFreight, Freight.setCart, Function.update_self] at hk
      exact (hfrom n (.inr hk)).resolve_right List.not_mem_nil
    · simpa [Trail.setFreight, Freight.setCart, hshard] using hk

/-- Whatever comes next in the flush of a party, a sample is only where a flush will still come
by. -/
theorem Ahead.advance (h : s.Ahead t n w) (hs : s.Direct) (hm : s.Matches config client t)
    {held : Sweep} (hflushes : s.Flushes held party) (hleft : held.isDone = false)
    (drainer : Option Party) :
    Ahead
      ({ s with client := (held.advance s.client).2, drainer }.setSweep
        (held.advance s.client).1 party)
      (t.advance s.client party held) n w := by
  match held with
  | { kinds := kind :: kinds, entries, shards } =>
    cases ha : s.client.aggregator with
    | none =>
      simp only [Sweep.advance, Trail.advance, ha]
      exact h.of_same
        ⟨entries_setSweep hflushes { kinds, entries, shards } rfl _ drainer,
          fun _ => by rw [client_setSweep], by rw [client_setSweep]⟩
        rfl (fun _ => id) fun _ => id
    | some a =>
      simp only [Sweep.advance, Trail.advance, ha]
      exact h.drain hs hm hflushes _ drainer kind kinds _ rfl
  | { kinds := [], entries := e :: entries, shards } => exact h.putNext hm hflushes drainer
  | { kinds := [], entries := [], shards := j :: shards } => exact h.handOver hflushes drainer
  | { kinds := [], entries := [], shards := [] } => cases hleft

/-- A sample that was sent before stays where a flush will still come by. -/
theorem Ahead.next (h : s.Ahead t n w) (hs : s.Direct) (hm : s.Matches config client t)
    (hn : n < s.log.length) {move : Move} (hnext : s.Next move s') :
    s'.Ahead (t.follow s move) n w := by
  cases hnext with
  | send hidle | flush hidle =>
    exact h.of_same ⟨entries_setCaller hidle rfl, fun _ => rfl, rfl⟩ rfl (fun _ => id) fun _ => id
  | reject hsending hreason =>
    simp only [Trail.follow, hsending, Trail.submit, hreason]
    exact h.of_same ⟨entries_setCaller hsending rfl, fun _ => rfl, rfl⟩ rfl (fun _ => id)
      fun _ => id
  | merge hsending hvalid ha htakes =>
    simp only [Trail.follow, hsending, Trail.submit, hvalid, ha, htakes, if_true]
    refine h.of_same ⟨entries_setCaller hsending rfl, fun _ => rfl, rfl⟩ (Trail.hands_merge ..)
      (fun m hmem => ?_) fun j hj => by simpa using hj
    -- What is merged now was not sent before.
    rw [Trail.live_merge, List.mem_append] at hmem
    obtain hold | hnew := hmem
    · exact hold
    · obtain ⟨_, -, heq⟩ := List.mem_map.mp hnew
      exact absurd (congrArg Prod.fst heq) hn.ne'
  | pass hsending hback =>
    simp only [Trail.follow, hsending, Trail.submit_of_not_takes hback]
    exact h.of_same ⟨entries_setCaller hsending rfl, fun _ => rfl, rfl⟩ rfl (fun _ => id)
      fun _ => id
  | @dispatch k sample hdispatching =>
    obtain ⟨c, count, hmoves, -, hprocess⟩ := t.exists_process s.client.pipeline
      (s.client.pipeline.shardOf sample.routingName) sample (.sent s.log.length sample)
    obtain ⟨more, -, hfrom⟩ := Trail.numbersOf_moves hmoves
    simp only [Trail.follow, hdispatching, Trail.call, hprocess,
      Pipeline.dispatch_of_direct hs.intake_eq]
    refine h.of_same ⟨entries_setCaller hdispatching rfl, fun _ => Pipeline.shardOf_atShard _,
      Pipeline.length_atShard⟩ rfl (fun _ => id) fun j hj => ?_
    -- What is dispatched now was not sent before, either.
    by_cases hshard : j = s.client.pipeline.shardOf sample.routingName
    · subst hshard
      simp only [Freight.setCart, Function.update_self] at hj
      exact (hfrom n (.inr hj)).resolve_right fun hnew => hn.ne (Trail.eq_of_mem_linesFor hnew)
    · simpa [Freight.setCart, hshard] using hj
  | @advance party w drainer hflushes hleft =>
    rw [Trail.follow_advance t hflushes hleft]
    exact h.advance hs hm hflushes hleft drainer
  | raise hflushing =>
    simp only [Trail.follow, hflushing]
    exact h.of_same ⟨entries_setCaller hflushing rfl, fun _ => rfl, rfl⟩ rfl (fun _ => id)
      fun _ => id
  | finish hawaiting hbarrier =>
    simp only [Trail.follow, hawaiting]
    exact h.of_same ⟨entries_setCaller hawaiting rfl, fun _ => rfl, rfl⟩ rfl (fun _ => id)
      fun _ => id
  | tick hticker =>
    have hplan := hs.plans _ (List.mem_of_getElem? hticker)
    exact h.of_same ⟨entries_setTicker hticker hplan, fun _ => rfl, rfl⟩ rfl (fun _ => id)
      fun _ => id
  | rest hticker =>
    simp only [Trail.follow, hticker]
    exact h.of_same ⟨entries_setTicker hticker rfl, fun _ => rfl, rfl⟩ rfl (fun _ => id)
      fun _ => id
  | fetch hcourier hqueue =>
    exact h.of_same ⟨fun _ => rfl, fun _ => rfl, rfl⟩ rfl (fun _ => id) fun _ => id
  | carry hcourier =>
    exact h.of_same ⟨fun _ => rfl, fun _ => rfl, rfl⟩ rfl (fun _ => id) fun _ => id

/-! ## Before the barrier -/

/-- A sample in the queue is before the barrier of a caller, and so is one with the courier. -/
structure Behind (i n : Nat) (queue : List Command) (t : Trail) : Prop where
  queued : ∀ (k : Nat) rows, t.queued[k]? = some rows → n ∈ numbersOf rows →
    ∃ place, k < place ∧ queue[place]? = some (.barrier i)
  carried : n ∈ numbersOf t.carried.flatten → .barrier i ∈ queue

variable {queue : List Command}

/-- What comes into the queue without the sample comes in behind. -/
theorem Behind.append (h : Behind i n queue t) (commands : List Command)
    (more : List (List (Row Origin))) (hmore : n ∉ numbersOf more.flatten)
    (hqueued : later.queued = t.queued ++ more) (hcarried : later.carried = t.carried) :
    Behind i n (queue ++ commands) later := by
  refine ⟨fun k rows hk hn => ?_, fun hn => ?_⟩
  · rw [hqueued] at hk
    rcases lt_or_ge k t.queued.length with hlt | hge
    · rw [List.getElem?_append_left hlt] at hk
      obtain ⟨place, hplace, hbarrier⟩ := h.queued k rows hk hn
      refine ⟨place, hplace, ?_⟩
      rw [List.getElem?_append_left (List.getElem?_eq_some_iff.mp hbarrier).1]
      exact hbarrier
    · rw [List.getElem?_append_right hge] at hk
      exact absurd (Trail.mem_numbersOf_flatten (List.mem_of_getElem? hk) hn) hmore
  · rw [hcarried] at hn
    exact List.mem_append_left _ (h.carried hn)

/-- A barrier that is raised comes behind everything. -/
theorem behind_raise (hlength : queue.length = t.queued.length) (i n : Nat) :
    Behind i n (queue ++ [.barrier i]) (t.setFreight t.raise) := by
  refine ⟨fun k rows hk hn => ⟨queue.length, ?_, List.getElem?_concat_length⟩, fun _ => by simp⟩
  -- Only the barrier itself stands that far back, and it has no rows.
  by_contra hge
  simp only [Trail.setFreight, Freight.raise] at hk
  rw [List.getElem?_append_right (by omega)] at hk
  obtain rfl := List.mem_singleton.mp (List.mem_of_getElem? hk)
  cases hn

/-- What is taken out of the queue was before the barrier, too. -/
theorem Behind.fetch {command : Command} (h : Behind i n (command :: queue) t) :
    Behind i n queue (t.setFreight t.fetch) := by
  refine ⟨fun k rows hk hn => ?_, fun hn => ?_⟩
  · simp only [Trail.setFreight, Freight.fetch, List.getElem?_drop] at hk
    obtain ⟨place, hplace, hbarrier⟩ := h.queued (1 + k) rows hk hn
    obtain ⟨place, rfl⟩ := Nat.exists_eq_add_one_of_ne_zero (Nat.ne_zero_of_lt hplace)
    exact ⟨place, by omega, by simpa using hbarrier⟩
  · cases hqueued : t.queued with
    | nil => simp [Trail.setFreight, Freight.fetch, hqueued, numbersOf] at hn
    | cons rows rest =>
      obtain ⟨place, hplace, hbarrier⟩ := h.queued 0 rows (by simp [hqueued])
        (by simpa [Trail.setFreight, Freight.fetch, hqueued] using hn)
      obtain ⟨place, rfl⟩ := Nat.exists_eq_add_one_of_ne_zero hplace.ne'
      exact List.mem_of_getElem? (by simpa using hbarrier)

/-- When the barrier is gone, so is the sample. -/
theorem Behind.not_mem (h : Behind i n queue t) (hgone : .barrier i ∉ queue) :
    n ∉ numbersOf t.queued.flatten ∧ n ∉ numbersOf t.carried.flatten := by
  refine ⟨fun hn => ?_, fun hn => hgone (h.carried hn)⟩
  obtain ⟨row, hrow, hn⟩ := Trail.mem_numbersOf.mp hn
  obtain ⟨rows, hrows, hrow⟩ := List.mem_flatten.mp hrow
  obtain ⟨k, hk⟩ := List.mem_iff_getElem?.mp hrows
  obtain ⟨place, -, hbarrier⟩ := h.queued k rows hk (Trail.mem_numbersOf.mpr ⟨row, hrow, hn⟩)
  exact hgone (List.mem_of_getElem? hbarrier)

omit [Transport τ] in
/-- A sample that no shard holds is not among what a shard hands over. -/
theorem Behind.setCart (h : Behind i n s.client.pipeline.outbox.queue t)
    (hahead : s.Ahead t n {}) {added : List (Row Origin)} {c : Cart Origin}
    (hmoves : Cart.Moves added (t.cart j) c) (hadded : n ∉ numbersOf added)
    (hbefore : s.client.pipeline.outbox.queue <+: queue) (hqueued : later.queued = c.queued)
    (hcarried : later.carried = t.carried) : Behind i n queue later := by
  obtain ⟨commands, rfl⟩ := hbefore
  obtain ⟨more, hmore, hfrom⟩ := Trail.numbersOf_moves hmoves
  refine h.append commands more (fun hn => ?_) (hqueued.trans hmore) hcarried
  obtain hpacked | hnew := hfrom n (.inl hn)
  · exact absurd (hahead.packed j hpacked) List.not_mem_nil
  · exact hadded hnew

/-- Whatever comes next in the flush of a party, a sample that no shard, hand or table holds stays
before the barrier. -/
theorem Behind.advance (h : Behind i n s.client.pipeline.outbox.queue t)
    (hahead : s.Ahead t n {}) (hm : s.Matches config client t) {held : Sweep}
    (hflushes : s.Flushes held party) :
    Behind i n (held.advance s.client).2.pipeline.outbox.queue
      (t.advance s.client party held) := by
  match held with
  | { kinds := kind :: kinds, entries, shards } =>
    cases ha : s.client.aggregator with
    | none =>
      simp only [Sweep.advance, Trail.advance, ha]
      exact h
    | some a =>
      simp only [Sweep.advance, Trail.advance, ha]
      exact ⟨h.queued, h.carried⟩
  | { kinds := [], entries := e :: entries, shards } =>
    obtain ⟨group, rest, hgroups, -, -⟩ := hm.exists_hand hflushes
    obtain ⟨c, hmoves, hnext⟩ := Trail.exists_putNext hgroups s.client.pipeline e
    -- A flush that has nothing left to do would not come by for a hand that holds the sample.
    have hnot : n ∉ group := by
      intro hn
      have hzip : (e, group) ∈ (s.sweep party).entries.zip (t.hands party) := by
        simp [sweep_of_flushes hflushes, hgroups]
      exact absurd (hahead.hands party _ ⟨_, hzip, hn, rfl⟩) List.not_mem_nil
    simp only [Sweep.advance, Trail.advance, hnext]
    exact h.setCart hahead hmoves (mt Trail.mem_numbers_of_mem_ofLines hnot)
      (Pipeline.queue_atShard fun shard o _ => shard.packer.queue_add o e) rfl rfl
  | { kinds := [], entries := [], shards := j :: shards } =>
    obtain ⟨c, hmoves, -, hover⟩ := t.exists_handOver s.client.pipeline j
    simp only [Sweep.advance, Trail.advance, hover]
    exact h.setCart hahead hmoves List.not_mem_nil (Pipeline.queue_atShard fun shard o _ =>
      shard.packer.queue_handOver o) rfl rfl
  | { kinds := [], entries := [], shards := [] } => exact h

omit [Transport τ] in
/-- What a shard does with a sample comes to the end of the queue, if it comes there at all. -/
theorem queue_process (shard : Shard) (o : Outbox τ) (d : Draws) (sample : Sample) :
    o.queue <+: (shard.process o d sample).2.1.queue := by
  obtain ⟨d', hskip | hadd⟩ := shard.process_cases o d sample
  · exact hskip.symm ▸ List.prefix_rfl
  · exact hadd.symm ▸ shard.packer.queue_add o _

/-- A sample that is nowhere but in the queue and with the courier stays before the barrier. -/
theorem Behind.next (h : Behind i n s.client.pipeline.outbox.queue t) (hahead : s.Ahead t n {})
    (hs : s.Direct) (hm : s.Matches config client t) (hn : n < s.log.length) {move : Move}
    (hnext : s.Next move s') :
    Behind i n s'.client.pipeline.outbox.queue (t.follow s move) := by
  cases hnext with
  | send | flush | tick => exact h
  | reject hsending hreason =>
    simp only [Trail.follow, hsending, Trail.submit, hreason]
    exact h
  | @merge k m a hsending hvalid ha htakes =>
    simp only [Trail.follow, hsending, Trail.submit, hvalid, ha, htakes, if_true]
    generalize (DogStatsD.Request.aggregate m).merges a.settings s.client.pipeline.draws = merges
    cases merges <;> exact ⟨h.queued, h.carried⟩
  | pass hsending hback =>
    simp only [Trail.follow, hsending, Trail.submit_of_not_takes hback]
    exact h
  | @dispatch k sample hdispatching =>
    obtain ⟨c, count, hmoves, -, hprocess⟩ := t.exists_process s.client.pipeline
      (s.client.pipeline.shardOf sample.routingName) sample (.sent s.log.length sample)
    simp only [Trail.follow, hdispatching, Trail.call, hprocess,
      Pipeline.dispatch_of_direct hs.intake_eq]
    exact h.setCart hahead hmoves (fun hnew => hn.ne (Trail.eq_of_mem_linesFor hnew))
      (Pipeline.queue_atShard fun shard o d => queue_process shard o d sample) rfl rfl
  | @advance party w drainer hflushes hleft =>
    rw [Trail.follow_advance t hflushes hleft, client_setSweep]
    exact h.advance hahead hm hflushes
  | @raise k hflushing =>
    simp only [Trail.follow, hflushing]
    exact h.append [.barrier k] [[]] List.not_mem_nil rfl rfl
  | finish hawaiting hbarrier =>
    simp only [Trail.follow, hawaiting]
    exact h
  | rest hticker =>
    simp only [Trail.follow, hticker]
    exact h
  | fetch hcourier hqueue =>
    rw [hqueue] at h
    exact h.fetch
  | @carry command hcourier =>
    -- The courier works on what it has in hand, and leaves the queue alone.
    have hqueue : (s.client.pipeline.outbox.perform command).queue =
        s.client.pipeline.outbox.queue := Outbox.queue_perform _ command
    rw [← hqueue] at h
    exact ⟨h.queued, fun hn => absurd hn List.not_mem_nil⟩

/-! ## A flush on its way -/

/-- The shards that a caller has still to hand over in its flush. -/
def Caller.shardsLeft : Caller → Option (List Nat)
  | .flushing w => some w.shards
  | .awaiting => some []
  | _ => none

/-- Whether a caller waits for its barrier. -/
def Caller.isAwaiting : Caller → Bool
  | .awaiting => true
  | _ => false

/-- Another party holds an entry of the sample, and the caller has handed over its shard already. -/
def Overtaken (s : System τ) (t : Trail) (i n : Nat) : Prop :=
  ∃ shards, s.callers[i]?.bind Caller.shardsLeft = some shards ∧
    ∃ party ≠ .caller i, ∃ j ∉ shards, s.HoldsFor t n party j

/-- The sample is where the flush of a caller will still come by, or before its barrier. -/
def Pursued (s : System τ) (t : Trail) (i n : Nat) : Prop :=
  match s.callers[i]? with
  | some (.flushing w) => s.Ahead t n w
  | some .awaiting => s.Ahead t n {} ∧ Behind i n s.client.pipeline.outbox.queue t
  | _ => True

/-- Nobody but a caller has an entry to write. -/
def writesAlone (s : System τ) (i : Nat) : Bool :=
  s.tickers.all (fun ticker => ticker.state.sweep.entries.isEmpty) &&
    s.callers.zipIdx.all fun (caller, k) => k == i || caller.sweep.entries.isEmpty

omit [Transport τ] in
/-- A flush is overtaken only by another party that has an entry to write. -/
theorem Overtaken.writesAlone_eq_false (h : s.Overtaken t i n) : s.writesAlone i = false := by
  obtain ⟨-, -, party, hparty, -, -, pair, hpair, -⟩ := h
  have hentry := List.of_mem_zip hpair |>.1
  refine Bool.eq_false_iff.mpr fun halone => ?_
  simp only [writesAlone, Bool.and_eq_true, List.all_eq_true, Bool.or_eq_true, beq_iff_eq] at halone
  have hnone : (s.sweep party).entries = [] := by
    refine entries_eq_nil (fun k ticker _ hk => ?_) fun k caller hcaller hk => ?_
    · simpa using halone.1 ticker (List.mem_of_getElem? hk)
    · obtain rfl | hempty := halone.2 (caller, k) (List.mk_mem_zipIdx_iff_getElem?.mpr hk)
      · exact absurd hcaller hparty
      · simpa using hempty
  rw [hnone] at hentry
  cases hentry

/-- What comes next in the flush of a caller leaves the sample ahead of it, unless another party
holds it back. -/
theorem Ahead.own (h : s.Ahead t n w) (hs : s.Direct) (hm : s.Matches config client t)
    (hflushing : s.callers[i]? = some (.flushing w)) (hleft : w.isDone = false)
    (drainer : Option Party)
    (hnext : s' = { s with client := (w.advance s.client).2, drainer }.setSweep
      (w.advance s.client).1 (.caller i)) :
    s'.Ahead (t.advance s.client (.caller i) w) n (w.advance s.client).1 ∨
      s'.Overtaken (t.advance s.client (.caller i) w) i n := by
  have hflushes : s.Flushes w (.caller i) := hflushing
  -- The sample is where it was, and it remains to see that it is not where the flush comes from.
  have hlater := h.advance hs hm hflushes hleft drainer
  have hsweep := sweep_setSweep hflushes (w.advance s.client).2 drainer (w.advance s.client).1
  rw [← hnext] at hlater hsweep
  match w with
  | { kinds := kind :: kinds, entries, shards } =>
    -- The kind that is taken out is empty afterwards, and the flush need not come by again.
    left
    cases ha : s.client.aggregator with
    | none =>
      simp only [Sweep.advance, Trail.advance, ha] at hlater ⊢
      refine ⟨fun m hmem => ?_, hlater.hands, hlater.packed,
        fun _ => hlater.shards_eq (.inl (List.cons_ne_nil _ _))⟩
      rw [hm.unmerged ha] at hmem
      cases hmem
    | some a =>
      simp only [Sweep.advance, Trail.advance, ha] at hlater ⊢
      refine ⟨fun m hmem => ?_, hlater.hands, hlater.packed,
        fun _ => hlater.shards_eq (.inl (List.cons_ne_nil _ _))⟩
      have hkind : m.kind ≠ kind := by simpa using (List.mem_filter.mp hmem).2
      exact (List.mem_cons.mp (hlater.live m hmem)).resolve_left hkind
  | { kinds := [], entries := e :: entries, shards } =>
    exact .inl ⟨hlater.live, hlater.hands, hlater.packed,
      fun _ => hlater.shards_eq (.inr (List.cons_ne_nil _ _))⟩
  | { kinds := [], entries := [], shards := j :: shards } =>
    -- The payload just handed over is empty. Only another party may still bring the sample there.
    by_cases hover : s'.Overtaken (t.advance s.client (.caller i) { shards := j :: shards }) i n
    · exact .inr hover
    · refine .inl ⟨hlater.live, fun party k hholds => ?_, fun k hk => ?_, by simp [Sweep.advance]⟩
      · by_contra hnot
        have hparty : party ≠ .caller i := by
          rintro rfl
          -- The caller itself has written all its entries.
          obtain ⟨pair, hpair, -⟩ := hholds
          simp [hsweep, Sweep.advance] at hpair
        refine hover ⟨shards, ?_, party, hparty, k, hnot, hholds⟩
        have hlt := (List.getElem?_eq_some_iff.mp hflushing).1
        simp [hnext, setSweep, setCaller, hlt, Caller.shardsLeft, Sweep.advance]
      · obtain rfl | hmem := List.mem_cons.mp (hlater.packed k hk)
        · simp only [Trail.advance, Trail.setFreight, hm.fits.packed_handOver] at hk
          cases hk
        · exact hmem
  | { kinds := [], entries := [], shards := [] } => cases hleft

/-- What a caller does not do leaves it where it stands. -/
theorem Next.getElem?_callers {move : Move} (hnext : s.Next move s')
    (hproceed : move ≠ .proceed i) (hcall : ∀ request, move ≠ .call i request) :
    s'.callers[i]? = s.callers[i]? := by
  have hset {k : Nat} (hk : k ≠ i) (later : Caller) : (s.callers.set k later)[i]? = s.callers[i]? :=
    List.getElem?_set_ne hk
  have hne {k : Nat} (hk : (Move.proceed k) ≠ .proceed i) : k ≠ i := fun hki => hk (by rw [hki])
  cases hnext with
  | send | flush => exact hset (fun hk => hcall _ (by rw [hk])) _
  | reject | merge | pass | dispatch | raise | finish => exact hset (hne hproceed) _
  | @advance party w drainer hflushes hleft =>
    cases party with
    | caller k => exact hset (hne hproceed) _
    | ticker k =>
      obtain ⟨plan, hplan⟩ := hflushes
      simp only [setSweep, hplan]
      rfl
  | tick | rest | fetch | carry => rfl

omit [Transport τ] in
/-- Of a caller that is not in a flush, nothing is said. -/
theorem pursued_of_shardsLeft_eq_none {caller : Caller} (h : s.callers[i]? = some caller)
    (hnone : caller.shardsLeft = none) : s.Pursued t i n := by
  unfold Pursued
  rw [h]
  cases caller with
  | flushing w => cases hnone
  | awaiting => cases hnone
  | idle | sending | dispatching | draining | closing => trivial

/-- What a caller does keeps its flush behind the sample, unless the flush is overtaken. -/
theorem Pursued.own (h : s.Pursued t i n) (hs : s.Direct) (hm : s.Matches config client t)
    (hn : n < s.log.length) {move : Move} (hnext : s.Next move s')
    (hown : move = .proceed i ∨ ∃ request, move = .call i request) :
    s'.Pursued (t.follow s move) i n ∨ s'.Overtaken (t.follow s move) i n := by
  -- Of a caller that is not in a flush afterwards, there is nothing to show.
  have hfree {caller later : Caller} (hcaller : s.callers[i]? = some caller)
      (hcallers : s'.callers = s.callers.set i later) (hnone : later.shardsLeft = none) :
      s'.Pursued (t.follow s move) i n := by
    have hlater : s'.callers[i]? = some later := by
      rw [hcallers, List.getElem?_set_self (List.getElem?_eq_some_iff.mp hcaller).1]
    exact pursued_of_shardsLeft_eq_none hlater hnone
  have hnext' := hnext
  cases hnext with
  | @send k sample hcaller =>
    obtain rfl : k = i := by simpa using hown
    exact .inl (hfree hcaller rfl rfl)
  | @flush k hcaller =>
    obtain rfl : k = i := by simpa using hown
    -- When the flush begins, it will come by everywhere.
    have hahead := (ahead_whole hs hm n).next hs hm hn hnext'
    have hlt := (List.getElem?_eq_some_iff.mp hcaller).1
    left
    unfold Pursued
    simp only [setCaller, List.getElem?_set_self hlt]
    exact hahead
  | reject hcaller | merge hcaller | pass hcaller | dispatch hcaller | finish hcaller =>
    obtain rfl := by simpa using hown
    exact .inl (hfree hcaller rfl rfl)
  | @advance party w drainer hflushes hleft =>
    cases party with
    | ticker k => simp [Party.move] at hown
    | caller k =>
      obtain rfl : k = i := by simpa [Party.move] using hown
      have hcaller : s.callers[k]? = some (.flushing w) := hflushes
      have hlt := (List.getElem?_eq_some_iff.mp hcaller).1
      unfold Pursued at h
      rw [hcaller] at h
      rw [Trail.follow_advance t hflushes hleft]
      refine (Ahead.own h hs hm hcaller hleft drainer rfl).imp_left fun hahead => ?_
      unfold Pursued
      simp only [setSweep, setCaller, List.getElem?_set_self hlt]
      exact hahead
  | @raise k hcaller =>
    obtain rfl : k = i := by simpa using hown
    have hlt := (List.getElem?_eq_some_iff.mp hcaller).1
    unfold Pursued at h
    rw [hcaller] at h
    have hahead := Ahead.next h hs hm hn hnext'
    have hlength := hm.fits.queued.length_eq
    simp only [Trail.follow, hcaller] at hahead ⊢
    have hawaiting : ((s.setOutbox (s.client.pipeline.outbox.raise k)).setCaller k
        .awaiting).callers[k]? = some .awaiting := List.getElem?_set_self hlt
    left
    unfold Pursued
    rw [hawaiting]
    exact ⟨hahead, behind_raise hlength k n⟩
  | tick | rest | fetch | carry => simp at hown

/-- A flush stays behind the samples that were sent before it, or is overtaken. -/
theorem Pursued.next (h : s.Pursued t i n) (hs : s.Direct) (hm : s.Matches config client t)
    (hn : n < s.log.length) {move : Move} (hnext : s.Next move s') :
    s'.Pursued (t.follow s move) i n ∨ s'.Overtaken (t.follow s move) i n := by
  -- The caller gets on with its flush, or somebody else does something.
  by_cases hown : move = .proceed i ∨ ∃ request, move = .call i request
  · exact h.own hs hm hn hnext hown
  · rw [not_or, not_exists] at hown
    have hcaller := hnext.getElem?_callers hown.1 hown.2
    left
    unfold Pursued at h ⊢
    rw [hcaller]
    split at h
    · exact h.next hs hm hn hnext
    · exact ⟨h.1.next hs hm hn hnext, h.2.next h.1 hs hm hn hnext⟩
    · trivial

/-- Answers are only added. -/
theorem Next.log_prefix {move : Move} (hnext : s.Next move s') : s.log <+: s'.log := by
  cases hnext with
  | reject | merge | dispatch | finish => exact List.prefix_append _ _
  | advance party drainer hflushes hleft => exact (log_setSweep _ party).symm ▸ List.prefix_rfl
  | send | flush | pass | raise | tick | rest | fetch | carry => exact List.prefix_rfl

/-- So it is after any steps. -/
theorem Pursued.run (h : s.Pursued t i n) (hs : s.Direct) (hm : s.Matches config client t)
    (hn : n < s.log.length) {moves : List Move}
    (hwatch : watch? Trail.follow (s, t) moves = some (s', later))
    (hopen : s'.client.closed = false) :
    (∃ front back u v, moves = front ++ back ∧ watch? Trail.follow (s, t) front = some (u, v) ∧
      u.Overtaken v i n) ∨
    s'.Pursued later i n := by
  induction moves generalizing s t with
  | nil =>
    cases hwatch
    exact .inr h
  | cons move rest ih =>
    rw [watch?_cons] at hwatch
    obtain ⟨next, hstep, hrest⟩ := Option.bind_eq_some_iff.mp hwatch
    have hnext := hs.next hstep (open_of_run (run?_of_watch? hrest) hopen)
    -- The first step that overtakes the flush ends the pursuit.
    obtain hpursued | hover := h.next hs hm hn hnext
    · obtain ⟨front, back, u, v, rfl, hfront, hover⟩ | hlater :=
        ih hpursued (hnext.direct hs) (hm.next hs hnext) (hn.trans_le hnext.log_prefix.length_le)
          hrest
      · exact .inl ⟨move :: front, back, u, v, rfl, by rw [watch?_cons, hstep]; exact hfront, hover⟩
      · exact .inr hlater
    · exact .inl ⟨[move], rest, next, _, rfl, by rw [watch?_cons, hstep]; rfl, hover⟩

/-- When the call of a flush returns, a sample that it was pursuing is held nowhere any more, and it
is known what has become of it. -/
theorem Pursued.settled (h : s.Pursued t i n) (hm : s.Matches config client t)
    (hawaiting : s.callers[i]? = some .awaiting) (hbarrier : s.hasBarrier i = false)
    {sample : Sample} (haccepted : IsAccepted s.log n sample) :
    ¬t.Holds n ∧ t.Settles config.options client.pipeline.draws.word n sample := by
  unfold Pursued at h
  rw [hawaiting] at h
  obtain ⟨hahead, hbehind⟩ := h
  -- What was before the barrier is gone with it.
  have hgone : Command.barrier i ∉ s.client.pipeline.outbox.queue := by
    intro hmem
    simp only [hasBarrier, Bool.or_eq_false_iff, List.any_eq_false] at hbarrier
    simpa using hbarrier.1 _ hmem
  have hholds : ¬t.Holds n := by
    intro hholds
    cases hholds with
    | live hlive => exact absurd (hahead.live _ hlive) List.not_mem_nil
    | hand party hhand =>
      obtain ⟨numbers, hnumbers, hn⟩ := List.mem_flatten.mp hhand
      -- There is an entry for every hand.
      have hlength := (hm.hands party).length_eq
      rw [← List.map_snd_zip hlength.ge] at hnumbers
      obtain ⟨pair, hpair, rfl⟩ := List.mem_map.mp hnumbers
      exact absurd (hahead.hands party _ ⟨pair, hpair, hn, rfl⟩) List.not_mem_nil
    | packed j hpacked => exact absurd (hahead.packed j hpacked) List.not_mem_nil
    | queued hqueued => exact (hbehind.not_mem hgone).1 hqueued
    | carried hcarried => exact (hbehind.not_mem hgone).2 hcarried
  have hhas := hm.accounted n sample haccepted
  exact ⟨hholds, hm.settles haccepted (hhas.holds_or_isSettled.resolve_left hholds)⟩

/-! ## The call returns -/

/-- The answer to a flush of a client in use is given when its barrier is gone. -/
theorem Next.returns {move : Move} (hnext : s.Next move s')
    (hlog : s'.log = s.log ++ [⟨i, .flush, .ok ()⟩]) :
    s.callers[i]? = some .awaiting ∧ s.hasBarrier i = false ∧ s' = s.answer i .flush (.ok ()) := by
  cases hnext with
  | finish hawaiting hbarrier =>
    simp only [answer, List.append_cancel_left_eq, List.cons.injEq, Answer.mk.injEq] at hlog
    obtain ⟨⟨rfl, -⟩, -⟩ := hlog
    exact ⟨hawaiting, hbarrier, rfl⟩
  | reject | merge | dispatch => simp [answer, setPipeline] at hlog
  | advance => simp at hlog
  | send | flush | pass | raise | tick | rest | fetch | carry =>
    simp [setCaller, setOutbox, setPipeline, setTicker] at hlog

/-- A caller that waits for its barrier gets its answer next. -/
theorem log_of_awaiting (h : s.callers[i]? = some .awaiting)
    (hstep : s.step? (.proceed i) = some s') : s'.log = s.log ++ [⟨i, .flush, .ok ()⟩] := by
  simp only [step?, proceed?, h] at hstep
  split at hstep <;> cases hstep
  rfl

/-- No flush is answered well while a client is being closed. -/
theorem not_returns_of_shutDown {stage : Stage} (hclose : s.shutDown? i stage = some s') :
    s'.log ≠ s.log ++ [⟨i, .flush, .ok ()⟩] := by
  intro hlog
  cases stage with
  | signalling | halting =>
    cases hclose
    simp [setOutbox, setPipeline] at hlog
  | joining | awaiting | joiningCourier | draining =>
    simp only [shutDown?] at hclose
    split at hclose <;> cases hclose <;> simp [setOutbox, setPipeline] at hlog
  | sweeping w =>
    simp only [shutDown?] at hclose
    split at hclose
    · cases hclose
      simp at hlog
    · obtain ⟨next, hnext, rfl⟩ := Option.map_eq_some_iff.mp hclose
      obtain ⟨drainer, rfl⟩ := eq_of_advance? hnext
      simp at hlog
  | raising =>
    simp only [shutDown?] at hclose
    split at hclose
    · split at hclose <;> cases hclose
      simp [setOutbox, setPipeline] at hlog
    · cases hclose
      simp at hlog
  | closingTransport =>
    cases hclose
    simp [answer, setOutbox, setPipeline] at hlog

/-- A flush is answered well only by a client that is open. -/
theorem Orderly.open_of_returns (h : s.Orderly) (hstep : s.step? (.proceed i) = some s')
    (hlog : s'.log = s.log ++ [⟨i, .flush, .ok ()⟩]) : s.client.closed = false := by
  refine Bool.eq_false_iff.mpr fun hclosed => ?_
  cases hcaller : s.callers[i]? with
  | none => simp [step?, proceed?, hcaller] at hstep
  | some caller =>
    have hreleased := h.released hclosed caller (List.mem_of_getElem? hcaller)
    cases caller with
    | idle => simp [step?, proceed?, hcaller] at hstep
    | closing =>
      simp only [step?, proceed?, hcaller] at hstep
      split at hstep
      · exact not_returns_of_shutDown hstep hlog
      · cases hstep
      · cases hstep
    | sending | dispatching | flushing | awaiting | draining => cases hreleased

/-- In a client whose callers process their samples themselves, whatever callers, tickers and the
courier do in whatever order: the trail goes along with the client. The transport was given the
texts of the payloads that the trail has as written, one after the other, and the counters tell of
those refused and of what was dropped for its size.

When the call of a flush returns well, a sample that was accepted before that call is held nowhere
any more. A line of it, or of the entry of its context if it was merged, was in a payload given to
the transport, or it was counted as dropped, or sampling has left it out.

The exception is a sample whose entry was in the hands of another party, taken out but not written,
when the flush had handed over the payload of its shard already. -/
theorem flush_settles {config : Config} {transport : τ} {route : String → Nat} {draws : Draws}
    {client : Client τ} (hbuild : config.buildWith transport route draws = .ok client)
    (hmode : config.channelMode = false) {callers : Nat} {before during : List Move}
    {s₀ s₁ : System τ} {t₀ : Trail}
    (hbefore : watch? Trail.follow (start client callers, {}) before = some (s₀, t₀))
    (hcall : s₀.step? (.call i .flush) = some s₁)
    (hduring : watch? Trail.follow (s₁, t₀) during = some (s, t))
    (hreturn : s.step? (.proceed i) = some s')
    (hok : s'.log = s.log ++ [⟨i, .flush, .ok ()⟩]) :
    s'.Matches config client t ∧
    s'.client.pipeline.outbox.transport =
      Transport.afterWrites client.pipeline.outbox.transport (t.written.map Row.textOf) ∧
    s'.client.telemetry.ledger.overflowed = .ofTexts (t.refused.map Row.textOf) ∧
    s'.client.telemetry.oversized = t.dropped.length ∧
    ∀ (n : Nat) sample, IsAccepted s₀.log n sample →
      (¬t.Holds n ∧ t.Settles config.options client.pipeline.draws.word n sample) ∨
      ∃ front back u v, during = front ++ back ∧
        watch? Trail.follow (s₁, t₀) front = some (u, v) ∧ u.Overtaken v i n := by
  -- The flush could not return well if anybody had begun to close the client.
  have hopen : s.client.closed = false := by
    have hneat₀ := (neat_start hbuild callers).run (run?_of_watch? hbefore)
    have horderly₀ := (orderly_start hbuild callers).run (neat_start hbuild callers)
      (run?_of_watch? hbefore)
    have horderly := (horderly₀.step hneat₀ hcall).run (hneat₀.step hcall)
      (run?_of_watch? hduring)
    exact horderly.open_of_returns hreturn hok
  have hopen₀ : s₀.client.closed = false := by
    refine Bool.eq_false_iff.mpr fun hclosed => ?_
    have hopen₁ := open_of_run (run?_of_watch? hduring) hopen
    rw [closed_of_step hclosed hcall] at hopen₁
    cases hopen₁
  obtain ⟨hs₀, hm₀⟩ := (direct_start hbuild hmode callers).watch (I := Matches config client)
    (fun hs hm _ hnext => hm.next hs hnext) (matches_start hbuild callers) hbefore hopen₀
  -- The flush begins, and from then on there are only more answers.
  obtain ⟨hidle, rfl⟩ := hs₀.eq_of_flush hcall
  have hbegin : s₀.Next (.call i .flush) (s₀.setCaller i (.flushing (.whole s₀.client))) :=
    .flush hidle
  have hs₁ := hbegin.direct hs₀
  have hm₁ : (s₀.setCaller i (.flushing (.whole s₀.client))).Matches config client t₀ :=
    hm₀.next hs₀ hbegin
  have hpursued₁ (n : Nat) :
      (s₀.setCaller i (.flushing (.whole s₀.client))).Pursued t₀ i n := by
    unfold Pursued
    simp only [setCaller, List.getElem?_set_self (List.getElem?_eq_some_iff.mp hidle).1]
    exact ahead_whole hs₁ hm₁ n
  obtain ⟨hs, hm, hlog⟩ := hs₁.watch (I := fun s t => s.Matches config client t ∧ s₀.log <+: s.log)
    (fun hs h _ hnext => ⟨h.1.next hs hnext, h.2.trans hnext.log_prefix⟩) ⟨hm₁, List.prefix_rfl⟩
    hduring hopen
  -- The flush ends.
  have hnext := hs.next_proceed hreturn
  obtain ⟨hawaiting, hbarrier, rfl⟩ := hnext.returns hok
  have hm' : (s.answer i .flush (.ok ())).Matches config client t := by
    simpa [Trail.follow, hawaiting] using hm.next hs hnext
  refine ⟨hm', hm'.fits.transport_eq, hm'.fits.overflowed_eq, hm'.fits.dropped_eq.symm,
    fun n sample haccepted => ?_⟩
  obtain hover | hpursued := (hpursued₁ n).run hs₁ hm₁ haccepted.lt_length hduring hopen
  · exact .inr hover
  · exact .inl (hpursued.settled hm hawaiting hbarrier (haccepted.mono hlog))

/-- A flush is no barrier to what others have in hand, and it brings no more of a context to the
transport than its entry. First, a ticker takes a gauge out of the tables before a caller flushes
the client, and writes it only after that flush has returned. Then a gauge is set twice before a
flush, which writes the last value only and drops nothing. -/
theorem flush_is_no_barrier :
    let config : Config := { workers := 1 }
    let client : Client Scripted :=
      { aggregator := config.aggregator
        pipeline := config.pipeline { timeout := some config.writeTimeout }
          (fun _ => 0) { word := fun _ => 0 } }
    let gauge (value : Float) : Move :=
      .call 0 (.send (.metric { name := "g", value := .gauge value }))
    let taken : List Move := [gauge 1, .proceed 0, .tick 0] ++ List.replicate 6 (.work 0)
    let twice : List Move := [gauge 1, .proceed 0, gauge 2, .proceed 0]
    let flush : List Move := .call 0 .flush :: List.replicate 8 (.proceed 0) ++ [.fetch, .carry]
    let another : List Move :=
      .call 0 .flush :: List.replicate 9 (.proceed 0) ++ [.fetch, .carry, .fetch, .carry]
    config.buildWith {} (fun _ => 0) { word := fun _ => 0 } = .ok client ∧
    (∃ s t s', watch? Trail.follow (start client 1, {}) (taken ++ flush) = some (s, t) ∧
      s.step? (.proceed 0) = some s' ∧ s'.log.map Answer.outcome = [.ok (), .ok ()] ∧
      t.hands (.ticker 0) = [[0]] ∧ s'.client.pipeline.outbox.transport.writes = #[]) ∧
    ∃ s s', (start client 1).run? (twice ++ another) = some s ∧
      s.step? (.proceed 0) = some s' ∧ s'.log.map Answer.outcome = [.ok (), .ok (), .ok ()] ∧
      s'.client.pipeline.outbox.transport.writes = #[("g:2|g\n", true)] ∧
      s'.client.telemetry.payloadsDropped = 0 ∧ s'.client.telemetry.oversized = 0 := by
  intro config client gauge taken twice flush another
  refine ⟨rfl, ?_, ?_⟩
  -- Both runs are evaluated once, together with all that is said of them.
  · have hseen : ((watch? Trail.follow (start client 1, {}) (taken ++ flush)).bind fun (s, t) =>
        (s.step? (.proceed 0)).map fun s' =>
          decide (s'.log.map Answer.outcome = [.ok (), .ok ()]) &&
            (decide (t.hands (.ticker 0) = [[0]]) &&
              decide (s'.client.pipeline.outbox.transport.writes = #[]))) = some true := by
      decide +kernel
    obtain ⟨⟨s, t⟩, hwatch, hnext⟩ := Option.bind_eq_some_iff.mp hseen
    obtain ⟨s', hstep, hs'⟩ := Option.map_eq_some_iff.mp hnext
    simp only [Bool.and_eq_true, decide_eq_true_eq] at hs'
    exact ⟨s, t, s', hwatch, hstep, hs'⟩
  · have hseen : (((start client 1).run? (twice ++ another)).bind fun s =>
        (s.step? (.proceed 0)).map fun s' =>
          decide (s'.log.map Answer.outcome = [.ok (), .ok (), .ok ()]) &&
            (decide (s'.client.pipeline.outbox.transport.writes = #[("g:2|g\n", true)]) &&
              (decide (s'.client.telemetry.payloadsDropped = 0) &&
                decide (s'.client.telemetry.oversized = 0)))) = some true := by
      decide +kernel
    obtain ⟨s, hrun, hnext⟩ := Option.bind_eq_some_iff.mp hseen
    obtain ⟨s', hstep, hs'⟩ := Option.map_eq_some_iff.mp hnext
    simp only [Bool.and_eq_true, decide_eq_true_eq] at hs'
    exact ⟨s, s', hrun, hstep, hs'⟩

/-- Of three samples, a ticker writes the first before a flush begins, the second goes into the same
payload, and the third is still in the tables. While the flush is on its way, another sample comes
in, and the payload is handed over by another ticker. -/
theorem flush_settles_three_samples :
    let config : Config := { workers := 1 }
    let client : Client Scripted :=
      { aggregator := config.aggregator
        pipeline := config.pipeline { timeout := some config.writeTimeout }
          (fun _ => 0) { word := fun _ => 0 } }
    let count (value : Int64) : Move :=
      .call 0 (.send (.metric { name := "c", value := .count value }))
    let before : List Move :=
      [count 1, .proceed 0, .tick 0] ++ List.replicate 8 (.work 0) ++
        [.call 1 (.send (.event { title := "a", text := "b" })), .proceed 1, .proceed 1,
          count 2, .proceed 0]
    let during : List Move :=
      [.proceed 1, .tick 1, count 3, .proceed 0, .work 1, .work 1] ++
        List.replicate 8 (.proceed 1) ++ [.fetch, .carry, .fetch, .carry, .fetch, .carry]
    config.buildWith {} (fun _ => 0) { word := fun _ => 0 } = .ok client ∧
    config.channelMode = false ∧
    ∃ s₀ t₀ s₁ s t s', watch? Trail.follow (start client 2, {}) before = some (s₀, t₀) ∧
      (∀ n < 3, ∃ sample, IsAccepted s₀.log n sample) ∧
      s₀.step? (.call 1 .flush) = some s₁ ∧
      watch? Trail.follow (s₁, t₀) during = some (s, t) ∧ s.step? (.proceed 1) = some s' ∧
      s'.log = s.log ++ [⟨1, .flush, .ok ()⟩] ∧
      (∀ n < 3, ¬t.Holds n ∧ ∃ sample, IsAccepted s₀.log n sample ∧
        t.Settles config.options client.pipeline.draws.word n sample) ∧
      t.written.map numbersOf = [[0, 1], [2]] ∧
      s'.client.pipeline.outbox.transport.writes =
        #[("c:1|c\n_e\x7b1,1\x7d:a|b\n", true), ("c:2|c\n", true)] := by
  intro config client count before during
  have hbuild : config.buildWith {} (fun _ => 0) { word := fun _ => 0 } = .ok client := rfl
  -- Nobody else has an entry to write at any moment of the flush, so that nobody overtakes it.
  have hseen : ((watch? Trail.follow (start client 2, {}) before).bind fun (s₀, t₀) =>
      (s₀.step? (.call 1 .flush)).bind fun s₁ =>
        (watch? Trail.follow (s₁, t₀) during).bind fun (s, t) =>
          (s.step? (.proceed 1)).map fun s' =>
            ((List.range 3).all fun n => (s₀.log[n]?.bind Answer.sent?).isSome) &&
              ((List.range (during.length + 1)).all fun k =>
                (s₁.run? (during.take k)).any (writesAlone · 1)) &&
                (s.callers[1]?.any Caller.isAwaiting &&
                  (decide (t.written.map numbersOf = [[0, 1], [2]]) &&
                    decide (s'.client.pipeline.outbox.transport.writes =
                      #[("c:1|c\n_e\x7b1,1\x7d:a|b\n", true), ("c:2|c\n", true)])))) =
        some true := by
    decide +kernel
  obtain ⟨⟨s₀, t₀⟩, hbefore, hseen⟩ := Option.bind_eq_some_iff.mp hseen
  obtain ⟨s₁, hcall, hseen⟩ := Option.bind_eq_some_iff.mp hseen
  obtain ⟨⟨s, t⟩, hduring, hseen⟩ := Option.bind_eq_some_iff.mp hseen
  obtain ⟨s', hstep, hs'⟩ := Option.map_eq_some_iff.mp hseen
  simp only [Bool.and_eq_true, decide_eq_true_eq, List.all_eq_true, List.mem_range] at hs'
  obtain ⟨⟨hsent, halone⟩, hwaits, hwritten⟩ := hs'
  have hawaiting : s.callers[1]? = some .awaiting := by
    obtain ⟨caller, hcaller, hmatch⟩ := (Option.any_eq_true _ _).mp hwaits
    cases caller with
    | awaiting => exact hcaller
    | idle | sending | dispatching | flushing | draining | closing => cases hmatch
  have hlog := log_of_awaiting hawaiting hstep
  obtain ⟨-, -, -, -, hsettled⟩ := flush_settles hbuild rfl hbefore hcall hduring hstep hlog
  have haccepted (n : Nat) (hn : n < 3) : ∃ sample, IsAccepted s₀.log n sample :=
    Option.isSome_iff_exists.mp (hsent n hn)
  refine ⟨hbuild, rfl, s₀, t₀, s₁, s, t, s', hbefore, haccepted, hcall, hduring, hstep, hlog,
    fun n hn => ?_, hwritten⟩
  obtain ⟨sample, hsample⟩ := haccepted n hn
  obtain ⟨hholds, hdone⟩ | ⟨front, back, u, v, hmoves, hfront, hover⟩ := hsettled n sample hsample
  · exact ⟨hholds, sample, hsample, hdone⟩
  · have hk := halone front.length
      (Nat.lt_succ_of_le (List.IsPrefix.length_le ⟨back, hmoves.symm⟩))
    rw [hmoves, List.take_left, run?_of_watch? hfront, Option.any_some,
      hover.writesAlone_eq_false] at hk
    cases hk

end System

end DogStatsD
