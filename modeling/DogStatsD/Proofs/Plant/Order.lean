import DogStatsD.Proofs.Plant.Basic
import DogStatsD.Transport.Scripted

/-!
# Names Stay in Order

A sample waits in the channel of its shard, its line in the payload of the shard, and the payload in
the queue; and at each of these places it may be dropped. But nothing overtakes anything on the way,
so that the lines of one name reach the transport in the order in which their samples were accepted.

* `Plant.Channels`: what was accepted for a shard was processed, or is in hand, or waits;
* `Plant.Channels.next`: steps keep it so;
* `Manifest.Ordered`: the lines of each shard are in order, and all of them are accounted for;
* `Plant.Sound`: lines are in order and their manifest is right;
* `Plant.Sound.next`, `Plant.sound_run`: steps keep it so;
* `Plant.names_stay_in_order`: what the transport is given, name by name.
-/

namespace DogStatsD

variable {τ : Type}

/-! ## Channels -/

/-- The samples that the receiver of a shard has not processed yet, the next one first. -/
def Shard.inbox (s : Shard) : List Sample :=
  s.held.toList ++ s.waiting

namespace Shard

@[simp]
theorem inbox_take (s : Shard) : s.take.inbox = s.inbox := by
  unfold take inbox
  split
  next hheld hwaiting => simp [hheld, hwaiting]
  next => rfl

/-- Processing a sample does not touch what is in the channel or in hand. -/
@[simp]
theorem inbox_process (s : Shard) (o : Outbox τ) (d : Draws) (sample : Sample) :
    (s.process o d sample).1.inbox = s.inbox := by
  obtain ⟨d', hskip | hadd⟩ := s.process_cases o d sample
  · rw [hskip]
  · rw [hadd]
    rfl

/-- When the sample in hand is let go of, what waits is all that is left. -/
theorem inbox_release {s : Shard} {sample : Sample} (h : s.held = some sample) (o : Outbox τ)
    (d : Draws) : (s.release o d).1.inbox = s.waiting := by
  rw [release, h]
  exact inbox_process _ o d sample

/-- What is put into a channel comes last. -/
@[simp]
theorem inbox_enqueue (s : Shard) (sample : Sample) :
    (s.enqueue sample).inbox = s.inbox ++ [sample] := by
  simp [inbox, enqueue]

end Shard

/-- Nothing waits for new shards. -/
theorem Pipeline.quiet_newShards (options : Line.Options) (o : Outbox τ) (count : Nat) :
    (newShards options o count).1.length = count ∧
      ∀ shard ∈ (newShards options o count).1, shard.waiting = [] ∧ shard.held = none := by
  induction count generalizing o with
  | zero => exact ⟨rfl, List.forall_mem_nil _⟩
  | succ count ih =>
    obtain ⟨hlength, hquiet⟩ := ih (Packer.new options o).2
    exact ⟨congrArg (· + 1) hlength, List.forall_mem_cons.mpr ⟨⟨rfl, rfl⟩, hquiet⟩⟩

namespace Plant

/-- What was accepted for a shard is what it has processed, then what its receiver has in hand, then
what waits. -/
structure Channels (s : Plant τ) : Prop where
  pos : 0 < s.pipeline.shards.length
  fifo : ∀ (j : Nat) (shard : Shard), s.pipeline.shards[j]? = some shard →
    s.manifest.accepted.filter (s.home · = j) =
      s.manifest.calls.filter (s.home · = j) ++ shard.inbox
  /-- Samples that are processed at once do not wait. -/
  quiet : s.pipeline.intake = .direct → ∀ shard ∈ s.pipeline.shards, shard.inbox = []

variable {s s' : Plant τ} {j : Nat}

/-- Nothing that happens to a shard changes where samples belong. -/
theorem home_atShard (s : Plant τ) (i : Nat)
    (f : Shard → Outbox τ → Draws → Shard × Outbox τ × Draws) (sample : Sample) :
    (s.pipeline.atShard i f).shardOf sample.routingName = s.home sample :=
  Pipeline.shardOf_atShard _

/-- A call adds its sample to those accepted, if it was. -/
@[simp]
theorem accepted_note (m : Manifest) (d : Dispatch) :
    (m.note d).accepted = m.accepted ++ if d.fate = .accepted then [d.sample] else [] := by
  unfold Manifest.accepted Manifest.note
  rw [List.filter_append, List.map_append]
  congr 1
  by_cases hfate : d.fate = .accepted <;> simp [hfate]

/-- Samples that are accepted come in behind what is in the channels, and those that are processed
go out in front. -/
theorem Channels.of_moved (h : s.Channels) (hhome : s'.home = s.home)
    (hlength : s'.pipeline.shards.length = s.pipeline.shards.length) (came went : List Sample)
    (haccepted : s'.manifest.accepted = s.manifest.accepted ++ came)
    (hcalls : s'.manifest.calls = s.manifest.calls ++ went)
    (hinbox : ∀ (j : Nat) (t : Shard), s'.pipeline.shards[j]? = some t →
      ∃ shard : Shard, s.pipeline.shards[j]? = some shard ∧
        shard.inbox ++ came.filter (s.home · = j) = went.filter (s.home · = j) ++ t.inbox)
    (hquiet : s'.pipeline.intake = .direct → ∀ (j : Nat) (t : Shard),
      s'.pipeline.shards[j]? = some t → t.inbox = []) : s'.Channels := by
  refine ⟨hlength ▸ h.pos, fun j t ht => ?_, fun hdirect t ht => ?_⟩
  · -- Both sides of the balance grow by what has come in.
    obtain ⟨shard, hs, hmoved⟩ := hinbox j t ht
    rw [hhome, haccepted, hcalls, List.filter_append, List.filter_append, h.fifo j shard hs,
      List.append_assoc, hmoved, List.append_assoc]
  · obtain ⟨j, hj⟩ := List.mem_iff_getElem?.mp ht
    exact hquiet hdirect j t hj

/-- What leaves samples and channels alone keeps the channels. -/
theorem Channels.of_same (h : s.Channels) (hhome : s'.home = s.home)
    (hlength : s'.pipeline.shards.length = s.pipeline.shards.length)
    (hintake : s'.pipeline.intake = s.pipeline.intake)
    (haccepted : s'.manifest.accepted = s.manifest.accepted)
    (hcalls : s'.manifest.calls = s.manifest.calls)
    (hinbox : ∀ (j : Nat) (t : Shard), s'.pipeline.shards[j]? = some t →
      ∃ shard : Shard, s.pipeline.shards[j]? = some shard ∧ t.inbox = shard.inbox) :
    s'.Channels := by
  refine h.of_moved hhome hlength [] [] (by simp [haccepted])
    (by simp [hcalls]) (fun j t ht => ?_) fun hdirect j t ht => ?_
  · obtain ⟨shard, hs, hsame⟩ := hinbox j t ht
    exact ⟨shard, hs, by simp [hsame]⟩
  · obtain ⟨shard, hs, hsame⟩ := hinbox j t ht
    rw [hsame]
    exact h.quiet (hintake ▸ hdirect) shard (List.mem_of_getElem? hs)

/-- An operation on a shard that leaves its channel alone. -/
theorem exists_of_atShard {p : Pipeline τ} {i : Nat}
    {f : Shard → Outbox τ → Draws → Shard × Outbox τ × Draws}
    (hf : ∀ s o d, (f s o d).1.inbox = s.inbox) (j : Nat) (t : Shard)
    (ht : (p.atShard i f).shards[j]? = some t) :
    ∃ shard : Shard, p.shards[j]? = some shard ∧ t.inbox = shard.inbox := by
  obtain ⟨-, shard, hs, rfl⟩ | ⟨-, hs⟩ := Pipeline.getElem?_atShard ht
  · exact ⟨shard, hs, hf _ _ _⟩
  · exact ⟨t, hs, rfl⟩

/-- What is in the channel of a shard is its own. -/
theorem Channels.home_eq (h : s.Channels) {shard : Shard} (hs : s.pipeline.shards[j]? = some shard)
    {sample : Sample} (hmem : sample ∈ shard.inbox) : s.home sample = j := by
  have hin : sample ∈ s.manifest.accepted.filter (s.home · = j) := by
    rw [h.fifo j shard hs]
    exact List.mem_append_right _ hmem
  exact of_decide_eq_true (List.mem_filter.mp hin).2

/-- There are no samples of shards that do not exist. -/
theorem filter_home_eq_nil {j : Nat} (hpos : 0 < s.pipeline.shards.length)
    (hle : s.pipeline.shards.length ≤ j) (samples : List Sample) :
    samples.filter (s.home · = j) = [] := by
  refine List.filter_eq_nil_iff.mpr fun sample _ => ?_
  have hlt : s.home sample < s.pipeline.shards.length := Nat.mod_lt _ hpos
  rw [decide_eq_true_eq]
  exact (hlt.trans_le hle).ne

/-- A sample that is processed at once passes by the channels. -/
theorem Channels.direct (h : s.Channels) (hintake : s.pipeline.intake = .direct)
    (sample : Sample) :
    ((s.note ⟨sample, .accepted, .ok ()⟩).processAt (s.home sample) sample).Channels := by
  have hempty : ∀ (j : Nat) (t : Shard),
      (s.pipeline.atShard (s.home sample) fun s o d => s.process o d sample).shards[j]? = some t →
      ∃ shard : Shard, s.pipeline.shards[j]? = some shard ∧ shard.inbox = [] ∧ t.inbox = [] := by
    intro j t ht
    obtain ⟨shard, hs, hsame⟩ :=
      exists_of_atShard (fun s o d => s.inbox_process o d sample) j t ht
    have hnone := h.quiet hintake shard (List.mem_of_getElem? hs)
    exact ⟨shard, hs, hnone, hsame.trans hnone⟩
  refine h.of_moved (funext (home_atShard s _ _)) Pipeline.length_atShard [sample] [sample]
    (accepted_note _ _) rfl
    (fun j t ht => ?_) fun _ j t ht => ?_
  · obtain ⟨shard, hs, hshard, ht⟩ := hempty j t ht
    exact ⟨shard, hs, by simp [hshard, ht]⟩
  · obtain ⟨-, -, -, ht⟩ := hempty j t ht
    exact ht

/-- A sample that is put into a channel waits there behind all others. -/
theorem Channels.enqueue (h : s.Channels) (hintake : s.pipeline.intake ≠ .direct)
    {shard : Shard} {sample : Sample} (hs : s.pipeline.shards[s.home sample]? = some shard) :
    Channels
      { s.note ⟨sample, .accepted, .ok ()⟩ with
        pipeline :=
          { s.pipeline with
            shards := s.pipeline.shards.set (s.home sample) (shard.enqueue sample) } } := by
  have hlength : (s.pipeline.shards.set (s.home sample) (shard.enqueue sample)).length =
      s.pipeline.shards.length := List.length_set
  refine h.of_moved ?_ hlength [sample] [] (accepted_note _ _) (List.append_nil _).symm
    (fun j t ht => ?_) fun hdirect => absurd hdirect hintake
  · funext other
    exact congrArg (s.pipeline.route other.routingName % ·) hlength
  · obtain ⟨rfl, rfl⟩ | ⟨hne, hold⟩ := getElem?_set_cases ht
    · exact ⟨shard, hs, by simp⟩
    · exact ⟨t, hold, by simp [hne]⟩

/-- The sample in hand is the first of its channel to be processed. -/
theorem Channels.process (h : s.Channels) {shard : Shard} {sample : Sample}
    (hs : s.pipeline.shards[j]? = some shard) (hheld : shard.held = some sample) :
    ((s.letGo j).processAt j sample).Channels := by
  have hhome : s.home sample = j := h.home_eq hs (by simp [Shard.inbox, hheld])
  rw [← release_eq hs hheld]
  refine h.of_moved (funext (home_atShard s _ _)) Pipeline.length_atShard [] [sample]
    (List.append_nil _).symm rfl (fun i t ht => ?_)
    fun hdirect => ?_
  · obtain ⟨rfl, other, hother, rfl⟩ | ⟨hne, hold⟩ := Pipeline.getElem?_atShard ht
    · obtain rfl : shard = other := Option.some.inj (hs.symm.trans hother)
      refine ⟨shard, hs, ?_⟩
      rw [Shard.inbox_release hheld, Shard.inbox, hheld]
      simp [hhome]
    · exact ⟨t, hold, by simp [hhome, hne]⟩
  · -- A receiver has nothing in hand where samples are processed at once.
    have hnone := h.quiet (Pipeline.intake_atShard.symm.trans hdirect) shard
      (List.mem_of_getElem? hs)
    simp [Shard.inbox, hheld] at hnone

/-- At first nothing was accepted, and nothing waits. -/
theorem channels_start {p : Pipeline τ} (hpos : 0 < p.shards.length)
    (hquiet : ∀ shard ∈ p.shards, shard.waiting = [] ∧ shard.held = none) :
    (start p).Channels := by
  have hinbox : ∀ shard ∈ p.shards, shard.inbox = [] := by
    intro shard hs
    simp [Shard.inbox, hquiet shard hs]
  refine ⟨hpos, fun j shard hs => ?_, fun _ => hinbox⟩
  rw [hinbox shard (List.mem_of_getElem? hs)]
  rfl

/-- At first nothing waits in a new pipeline. -/
theorem channels_start_new {workers : Nat} (hworkers : 0 < workers) (options : Line.Options)
    (route : String → Nat) (draws : Draws) (intake : Intake) (o : Outbox τ) :
    (start { Pipeline.new options workers route draws o with intake }).Channels := by
  obtain ⟨hlength, hquiet⟩ := Pipeline.quiet_newShards options o workers
  refine channels_start ?_ hquiet
  show 0 < (Pipeline.newShards options o workers).1.length
  rwa [hlength]

variable [Transport τ]

/-- A step keeps the channels. -/
theorem Channels.next (h : s.Channels) {move : Move} (hnext : Next s move s') : s'.Channels := by
  cases hnext with
  | direct sample hintake => exact h.direct hintake sample
  | enqueue sample hintake hreceiver hs hroom => exact h.enqueue (by simp [hintake]) hs
  | process j hserving hs hheld => exact h.process hs hheld
  | overflow sample hintake hs hfull =>
    exact h.of_same rfl rfl rfl (by simp [note]) rfl fun j t ht => ⟨t, ht, rfl⟩
  | refuse sample hintake hclosed =>
    exact h.of_same rfl rfl rfl (by simp [note]) rfl fun j t ht => ⟨t, ht, rfl⟩
  | put e =>
    exact h.of_same (funext (home_atShard s _ _)) Pipeline.length_atShard Pipeline.intake_atShard
      rfl rfl (exists_of_atShard fun _ _ _ => rfl)
  | take j hserving =>
    exact h.of_same (funext (home_atShard s _ _)) Pipeline.length_atShard Pipeline.intake_atShard
      rfl rfl (exists_of_atShard fun _ _ _ => Shard.inbox_take _)
  | handOver j =>
    exact h.of_same (funext (home_atShard s _ _)) Pipeline.length_atShard Pipeline.intake_atShard
      rfl rfl (exists_of_atShard fun _ _ _ => rfl)
  | turn | stop | raise | fetch | carry | halt | exit | drain =>
    exact h.of_same rfl rfl rfl rfl rfl fun j t ht => ⟨t, ht, rfl⟩

/-! ## Lines -/

end Plant

namespace Manifest

/-- The sample that a line was written for, if it is one of a shard. -/
def sampleAt (home : Sample → Nat) (j : Nat) (row : Row (Option Sample)) : Option Sample :=
  row.origin.filter (home · = j)

/-- The samples of one shard are among all that lines were written for. -/
theorem filterMap_sampleAt (home : Sample → Nat) (j : Nat) (rows : List (Row (Option Sample))) :
    rows.filterMap (sampleAt home j) = (Row.samplesOf rows).filter (home · = j) :=
  (List.filter_filterMap ..).symm

/-- The lines of each shard are in the order of their samples, and are all accounted for. -/
def Ordered (home : Sample → Nat) (m : Manifest) : Prop :=
  ∀ j, m.InOrder (sampleAt home j) j (m.kept.filter (home · = j))

variable {home : Sample → Nat} {m later : Manifest}

/-- When lines of a shard move on, and those that come in are for its own samples, all lines stay in
order and accounted for. -/
theorem Ordered.setCart {i : Nat} {added : List (Row (Option Sample))} {c : Cart (Option Sample)}
    (h : m.Ordered home) (hmoves : Cart.Moves added (m.cart i) c)
    (hadded : ∀ row ∈ added, ∀ sample, row.origin = some sample → home sample = i)
    (hlater : later.toFreight = m.setCart i c)
    (hkept : later.kept = m.kept ++ Row.samplesOf added) : later.Ordered home := by
  intro j
  have hnone (hij : i ≠ j) : added.filterMap (sampleAt home j) = [] := by
    refine List.filterMap_eq_nil_iff.mpr fun row hrow => ?_
    rw [sampleAt, Option.filter_eq_none_iff]
    intro sample hsample
    simpa [hadded row hrow sample hsample] using hij
  have hlines := (h j).setCart hmoves hnone
  rwa [filterMap_sampleAt, ← List.filter_append, ← hkept, ← hlater] at hlines

end Manifest

namespace Plant

variable {s s' : Plant τ} {j : Nat}

/-- A sample is not left to sampling, and an empty payload has room for its line. -/
def Writable (options : Line.Options) (limits : Limits) (sample : Sample) : Prop :=
  (∀ d, (Shard.keeps d sample).1 = true) ∧
    ({ limits } : Payload).HasRoom (Line.ofSample options sample)

variable [Transport τ]

/-- The manifest is right, and lines are in the order in which their samples were processed. -/
structure Sound (options : Line.Options) (limits : Limits) (transport : τ) (s : Plant τ) :
    Prop where
  fits : s.manifest.Fits options limits transport s.pipeline s.courier.inHand
  ordered : s.manifest.Ordered s.home
  honest : s.manifest.Every (Row.IsHonest options)
  kept_sublist : s.manifest.kept.Sublist s.manifest.calls
  kept_eq : (∀ sample ∈ s.manifest.calls, Writable options limits sample) →
    s.manifest.kept = s.manifest.calls

variable {options : Line.Options} {limits : Limits} {transport : τ}

/-- Which samples were dispatched does not matter for lines. -/
theorem Sound.note (h : s.Sound options limits transport) (d : Dispatch) :
    (s.note d).Sound options limits transport :=
  ⟨h.fits, h.ordered, h.honest, h.kept_sublist, h.kept_eq⟩

/-- Lines that go on from the queue stay in order. -/
theorem Sound.of_wire (h : s.Sound options limits transport) (hhome : s'.home = s.home)
    (hfits : s'.manifest.Fits options limits transport s'.pipeline s'.courier.inHand)
    (hwire : s'.manifest.wire = s.manifest.wire) (hpacked : s'.manifest.packed = s.manifest.packed)
    (hrefused : s'.manifest.refused = s.manifest.refused)
    (hkept : s'.manifest.kept = s.manifest.kept) (hcalls : s'.manifest.calls = s.manifest.calls) :
    s'.Sound options limits transport := by
  refine ⟨hfits, ?_, h.honest.of_wire hwire hpacked hrefused, ?_, ?_⟩
  · intro j
    rw [hhome, hkept]
    exact (h.ordered j).of_wire hwire hpacked hrefused
  · rw [hkept, hcalls]
    exact h.kept_sublist
  · rw [hkept, hcalls]
    exact h.kept_eq

/-- Where lines are does not change when shards keep their packers. -/
theorem Sound.of_packers (h : s.Sound options limits transport) (hhome : s'.home = s.home)
    (houtbox : s'.pipeline.outbox = s.pipeline.outbox)
    (hpackers : s'.pipeline.shards.map Shard.packer = s.pipeline.shards.map Shard.packer)
    (hmanifest : s'.manifest = s.manifest) (hcourier : s'.courier = s.courier) :
    s'.Sound options limits transport := by
  refine h.of_wire hhome ?_ ?_ ?_ ?_ ?_ ?_
  · rw [hmanifest, hcourier]
    exact h.fits.of_packers houtbox hpackers
  all_goals rw [hmanifest]

omit [Transport τ] in
/-- A shard that is replaced by one with the same packer. -/
theorem map_packer_set {shards : List Shard} {shard later : Shard} (hs : shards[j]? = some shard)
    (hsame : later.packer = shard.packer) :
    (shards.set j later).map Shard.packer = shards.map Shard.packer := by
  obtain ⟨hlt, rfl⟩ := List.getElem?_eq_some_iff.mp hs
  rw [List.map_set, hsame, ← List.getElem_map Shard.packer, List.set_getElem_self]
  simpa using hlt

/-- An operation that concerns only the channel of a shard leaves packers alone. -/
theorem Sound.atShard (h : s.Sound options limits transport) (j : Nat) {f : Shard → Shard}
    (hf : ∀ shard, (f shard).packer = shard.packer) :
    ({ s with pipeline := s.pipeline.atShard j fun shard o d => (f shard, o, d) } :
      Plant τ).Sound options limits transport := by
  cases hs : s.pipeline.shards[j]? with
  | none =>
    rw [Pipeline.atShard_of_none hs]
    exact h
  | some shard =>
    refine h.of_packers (funext (home_atShard s _ _)) ?_ ?_ rfl rfl
    · rw [Pipeline.atShard_of_getElem? hs]
    · rw [Pipeline.atShard_of_getElem? hs]
      exact map_packer_set hs (hf shard)

/-- Lines that come out of a packer are not for any sample that was processed. -/
theorem Sound.setCart (h : s.Sound options limits transport) (hhome : s'.home = s.home)
    (hfits : s'.manifest.Fits options limits transport s'.pipeline s'.courier.inHand)
    {added : List (Row (Option Sample))} (hadded : ∀ row ∈ added, row.origin = none)
    {c : Cart (Option Sample)} (hmoves : Cart.Moves added (s.manifest.cart j) c)
    (hfreight : s'.manifest.toFreight = s.manifest.setCart j c)
    (hkept : s'.manifest.kept = s.manifest.kept) (hcalls : s'.manifest.calls = s.manifest.calls) :
    s'.Sound options limits transport := by
  have hnone : Row.samplesOf added = [] :=
    List.filterMap_eq_nil_iff.mpr hadded
  refine ⟨hfits, ?_, ?_, ?_, ?_⟩
  · rw [hhome]
    refine h.ordered.setCart hmoves ?_ hfreight (by rw [hkept, hnone, List.append_nil])
    intro row hrow sample hsample
    cases (hadded row hrow).symm.trans hsample
  · rw [hfreight]
    refine h.honest.setCart hmoves ?_
    intro row hrow sample hsample
    cases (hadded row hrow).symm.trans hsample
  · rw [hkept, hcalls]
    exact h.kept_sublist
  · rw [hkept, hcalls]
    exact h.kept_eq

/-- A shard that processes a sample of its own writes the line of the sample behind all others. -/
theorem Sound.processAt (h : s.Sound options limits transport) {sample : Sample}
    (hhome : s.home sample = j) (hlt : j < s.pipeline.shards.length) :
    (s.processAt j sample).Sound options limits transport := by
  obtain ⟨c, count, hmoves, -, hfreight⟩ :=
    s.manifest.exists_process s.pipeline j sample (some sample)
  have hlines := h.fits.linesFor_eq hlt sample (some sample)
  -- The line, if there is one, is that of the sample.
  have hrow : ∀ row ∈ Freight.linesFor s.pipeline j sample (some sample),
      row = ⟨some sample, Line.ofSample options sample⟩ := by
    intro row hrow
    rw [hlines] at hrow
    split at hrow
    · exact List.mem_singleton.mp hrow
    · cases hrow
  refine ⟨h.fits.process j sample (some sample), ?_, ?_, ?_, ?_⟩
  · have hsame : (s.processAt j sample).home = s.home := funext (home_atShard s _ _)
    rw [hsame]
    refine h.ordered.setCart hmoves ?_ hfreight rfl
    intro row hmem other horigin
    rw [hrow row hmem] at horigin
    cases horigin
    exact hhome
  · show Freight.Every _ (s.manifest.process s.pipeline j sample (some sample))
    rw [hfreight]
    refine h.honest.setCart hmoves ?_
    intro row hmem other horigin
    rw [hrow row hmem] at horigin ⊢
    cases horigin
    rfl
  · show (s.manifest.kept ++ _).Sublist (s.manifest.calls ++ [sample])
    refine h.kept_sublist.append ?_
    rw [hlines]
    split
    · exact .refl _
    · exact List.nil_sublist _
  · intro hall
    have hmem : ∀ x ∈ s.manifest.calls ++ [sample], Writable options limits x := hall
    obtain ⟨hkeeps, hroom⟩ := hmem sample (List.mem_append_right _ List.mem_cons_self)
    show s.manifest.kept ++ Row.samplesOf _ = s.manifest.calls ++ [sample]
    rw [h.kept_eq fun x hx => hmem x (List.mem_append_left _ hx), hlines,
      if_pos ⟨hkeeps _, hroom⟩]
    rfl

/-- A step keeps the manifest right and lines in order. -/
theorem Sound.next (h : s.Sound options limits transport) (hchannels : s.Channels) {move : Move}
    (hnext : Next s move s') : s'.Sound options limits transport := by
  cases hnext with
  | direct sample hintake =>
    exact (h.note _).processAt rfl (Nat.mod_lt _ hchannels.pos)
  | @enqueue settings shard sample hintake hreceiver hs hroom =>
    have hlength : (s.pipeline.shards.set (s.home sample) (shard.enqueue sample)).length =
        s.pipeline.shards.length := List.length_set
    refine (h.note ⟨sample, .accepted, .ok ()⟩).of_packers ?_ rfl (map_packer_set hs rfl) rfl rfl
    funext other
    exact congrArg (s.pipeline.route other.routingName % ·) hlength
  | overflow => exact (h.note _).of_packers rfl rfl rfl rfl rfl
  | refuse => exact h.note _
  | put e =>
    obtain ⟨c, count, hmoves, -, hfreight⟩ :=
      s.manifest.exists_put s.pipeline (s.pipeline.shardOf e.routingName) e none
    refine h.setCart (funext (home_atShard s _ _)) (h.fits.put _ e none) ?_ hmoves hfreight rfl rfl
    intro row hrow
    obtain ⟨line, -, rfl⟩ := List.mem_map.mp hrow
    rfl
  | take j hserving => exact h.atShard j Shard.packer_take
  | @process j shard sample hserving hs hheld =>
    -- The sample is put down first, which no packer notices.
    have hgo : (s.letGo j).Sound options limits transport := h.atShard j fun _ => rfl
    have hlength : (s.letGo j).pipeline.shards.length = s.pipeline.shards.length :=
      Pipeline.length_atShard
    refine hgo.processAt ?_ (hlength ▸ (List.getElem?_eq_some_iff.mp hs).1)
    exact (home_atShard s _ _ _).trans (hchannels.home_eq hs (by simp [Shard.inbox, hheld]))
  | turn | stop => exact h.of_packers rfl rfl rfl rfl rfl
  | handOver j =>
    obtain ⟨c, hmoves, -, hfreight⟩ := s.manifest.exists_handOver s.pipeline j
    exact h.setCart (funext (home_atShard s _ _)) (h.fits.handOver j) (List.forall_mem_nil _)
      hmoves hfreight rfl rfl
  | raise caller hroom =>
    refine h.of_wire rfl (h.fits.raise caller) ?_ rfl rfl rfl rfl
    simp [Freight.wire, Freight.raise, setFreight]
  | fetch hcourier hqueue =>
    have hfits := h.fits
    rw [hcourier] at hfits
    obtain ⟨hfits, hwire⟩ := hfits.fetch hqueue
    exact h.of_wire rfl hfits hwire rfl rfl rfl rfl
  | carry hcourier =>
    have hfits := h.fits
    rw [hcourier] at hfits
    obtain ⟨hfits, hwire⟩ := hfits.carry
    exact h.of_wire rfl hfits hwire rfl rfl rfl rfl
  | halt =>
    refine h.of_wire rfl ?_ rfl rfl rfl rfl rfl
    have hclean := h.fits.neat.clean
    exact ⟨⟨h.fits.neat.packers, ⟨hclean.pool, hclean.limits_eq⟩⟩, h.fits.options_eq,
      h.fits.packed, h.fits.beyond, h.fits.queued, h.fits.overflowed_eq, h.fits.dropped_eq,
      h.fits.carried, h.fits.limits_eq, h.fits.transport_eq, h.fits.failed_eq⟩
  | exit hcourier hstopped =>
    have hfits := h.fits
    rw [hcourier] at hfits
    exact h.of_wire rfl hfits rfl rfl rfl rfl rfl
  | drain hcourier hqueue =>
    -- The command is taken out of the queue and carried out at once.
    have hnone : s.courier.inHand = [] := by
      rw [hcourier]
      rfl
    have hfits := h.fits
    rw [hnone] at hfits
    obtain ⟨hfetched, hwire⟩ := hfits.fetch hqueue
    obtain ⟨hcarried, hwire'⟩ := hfetched.carry
    refine h.of_wire rfl ?_ (hwire'.trans hwire) rfl rfl rfl rfl
    show Freight.Fits _ _ _ _ _ s.courier.inHand
    rw [hnone]
    exact hcarried

/-- Steps keep channels, manifest and order. -/
theorem sound_run (hchannels : s.Channels) (h : s.Sound options limits transport)
    {moves : List Move} (hrun : s.run? moves = some s') :
    s'.Channels ∧ s'.Sound options limits transport := by
  refine steps_induction (motive := fun _ t => t.Channels ∧ t.Sound options limits transport) hrun
    ⟨hchannels, h⟩ ?_
  intro _ _ t t' ⟨hchannels, h⟩ hstep
  have hnext := next_of_step? hchannels.pos hstep
  exact ⟨hchannels.next hnext, h.next hchannels hnext⟩

/-- At first nothing is written, in payloads and to the transport. -/
theorem sound_start {pool : Pool} (hpool : pool.Clean limits) (options : Line.Options)
    (workers : Nat) (route : String → Nat) (draws : Draws) (intake : Intake) (capacity : Nat)
    (running : Bool) (transport : τ) :
    (start
      { route := route
        shards := List.replicate workers { packer := { options, current := { limits } } }
        intake := intake
        outbox := { capacity, running, transport, pool }
        draws := draws }).Sound options limits transport := by
  have hfits := Freight.fits_start (α := Option Sample) hpool options workers route draws intake
    capacity running transport
  refine ⟨?_, fun j => ⟨.refl _, .refl _, fun _ _ => rfl⟩,
    fun row hrow => absurd hrow (Freight.not_has_empty row), .refl _, fun _ => rfl⟩
  -- The courier has nothing in hand, whether there is one or not.
  cases running <;> exact hfits

/-- At first a new pipeline has written nothing. -/
theorem sound_start_new (workers : Nat) (options : Line.Options) (limits : Limits)
    (route : String → Nat) (draws : Draws) (intake : Intake) (queueCapacity poolCapacity : Nat)
    (running : Bool) (transport : τ) :
    (start
      { Pipeline.new options workers route draws
          { capacity := queueCapacity, running, transport, pool := .new poolCapacity limits } with
        intake }).Sound options limits transport := by
  have hclean :
      ({ capacity := queueCapacity, running, transport, pool := .new poolCapacity limits } :
        Outbox τ).Clean limits :=
    ⟨Pool.clean_new poolCapacity limits, List.forall_mem_nil _⟩
  obtain ⟨hshards, later, houtbox, hlater⟩ := Pipeline.newShards_eq options hclean workers
  simp only [Pipeline.new, hshards, houtbox]
  exact sound_start hlater options workers route draws intake queueCapacity running transport

/-- A step dispatches the sample that its move names. -/
theorem dispatched_next {move : Move} (hnext : Next s move s') :
    s'.manifest.dispatched.map Dispatch.sample =
      s.manifest.dispatched.map Dispatch.sample ++ move.sample?.toList := by
  cases hnext with
  | turn move j hmove =>
    obtain rfl | rfl | rfl := hmove <;> simp [Move.sample?]
  | direct | enqueue | overflow | refuse | put | take | process | stop | handOver | raise | fetch |
    carry | halt | exit | drain =>
    simp [Move.sample?, Manifest.note, Manifest.call, note, processAt, letGo, setOutbox, setFreight]

/-- The samples dispatched are those of the moves. -/
theorem dispatched_run (h : s.Channels) {moves : List Move} (hrun : s.run? moves = some s') :
    s'.manifest.dispatched.map Dispatch.sample =
      s.manifest.dispatched.map Dispatch.sample ++ moves.filterMap Move.sample? := by
  refine (steps_induction (motive := fun front t => t.Channels ∧
    t.manifest.dispatched.map Dispatch.sample =
      s.manifest.dispatched.map Dispatch.sample ++ front.filterMap Move.sample?) hrun
    ⟨h, (List.append_nil _).symm⟩ ?_).2
  intro front move t t' ⟨hchannels, hdispatched⟩ hstep
  have hnext := next_of_step? hchannels.pos hstep
  refine ⟨hchannels.next hnext, ?_⟩
  rw [dispatched_next hnext, hdispatched, List.append_assoc, List.filterMap_append]
  cases hmove : move.sample? <;> simp [hmove]

/-- For any number of shards and any routing, with channels or without, whatever the sizes of
payloads, pool, channels and queue and whichever writes fail, and however the parties take their
steps: the transport is given payloads made up of lines, and each line for a sample is the line of
that sample. Of the samples of one name, those whose lines the transport is given are some of those
accepted, in the order in which they were accepted, and none has more than one line there. -/
theorem names_stay_in_order {workers : Nat} (hworkers : 0 < workers) (options : Line.Options)
    (limits : Limits) (route : String → Nat) (draws : Draws) (intake : Intake)
    (queueCapacity poolCapacity : Nat) (running : Bool) (transport : τ) (moves : List Move)
    (hrun : (start
      { Pipeline.new options workers route draws
          { capacity := queueCapacity, running, transport, pool := .new poolCapacity limits } with
        intake }).run? moves = some s) :
    let written := s.manifest.written
    s.pipeline.outbox.transport = Transport.afterWrites transport (written.map Row.textOf) ∧
    (∀ row ∈ written.flatten, row.IsHonest options) ∧
    s.manifest.dispatched.map Dispatch.sample = moves.filterMap Move.sample? ∧
    ∀ name, ((Row.samplesOf written.flatten).filter (·.routingName = name)).Sublist
      (s.manifest.accepted.filter (·.routingName = name)) := by
  intro written
  have hchannels := channels_start_new hworkers options route draws intake
    { capacity := queueCapacity, running, transport, pool := .new poolCapacity limits }
  have hsound := sound_start_new workers options limits route draws intake queueCapacity
    poolCapacity running transport
  have hdispatched := dispatched_run hchannels hrun
  obtain ⟨hchannels, hsound⟩ := sound_run hchannels hsound hrun
  have hwire : written.flatten.Sublist s.manifest.wire := s.manifest.sublist_wire
  refine ⟨hsound.fits.transport_eq, fun row hrow => ?_, hdispatched, fun name => ?_⟩
  · exact hsound.honest row (.wire (hwire.subset hrow))
  · -- All samples of a name are of the same shard.
    let j := s.pipeline.shardOf name
    have hlt : j < s.pipeline.shards.length := Nat.mod_lt _ hchannels.pos
    have hfifo := hchannels.fifo j _ (List.getElem?_eq_getElem hlt)
    -- Each stage on the way may leave samples out, and keeps the order of the others.
    have horder : ((Row.samplesOf written.flatten).filter (s.home · = j)).Sublist
        (s.manifest.accepted.filter (s.home · = j)) := by
      rw [← Manifest.filterMap_sampleAt]
      calc (written.flatten.filterMap (Manifest.sampleAt s.home j)).Sublist
            ((s.manifest.wire ++ s.manifest.packed j).filterMap (Manifest.sampleAt s.home j)) :=
          (hwire.trans (List.sublist_append_left _ _)).filterMap _
        _ |>.Sublist (s.manifest.kept.filter (s.home · = j)) := (hsound.ordered j).order
        _ |>.Sublist (s.manifest.calls.filter (s.home · = j)) := hsound.kept_sublist.filter _
        _ |>.Sublist (s.manifest.accepted.filter (s.home · = j)) := by
          rw [hfifo]
          exact List.sublist_append_left _ _
    -- To choose by name is to choose by shard first.
    have hname (samples : List Sample) : samples.filter (·.routingName = name) =
        (samples.filter (s.home · = j)).filter (·.routingName = name) := by
      rw [List.filter_filter]
      refine List.filter_congr fun sample _ => ?_
      by_cases hsame : sample.routingName = name
      · simp [hsame, home, j]
      · simp [hsame]
    rw [hname, hname s.manifest.accepted]
    exact horder.filter _

/-- Of five samples, one finds its channel full and one comes after the receiver is gone; a write
fails, and the last payload is taken over from the courier that was told to stop. -/
theorem names_stay_in_order_of_five_samples :
    let event (title text : String) : Sample := .event { title, text }
    let failsWrite (i : Nat) : Bool := i == 1
    let outbox : Outbox Scripted :=
      { capacity := 2, running := true, transport := { failsWrite }, pool := .new 1 ⟨64, 1⟩ }
    let moves : List Move :=
      [.dispatch (event "a" "1"), .dispatch (event "a" "2"), .take 1, .process 1,
        .dispatch (event "a" "3"), .dispatch (event "bb" "1"), .take 0, .process 0, .stop, .clear 1,
        .take 1, .process 1, .handOver 0, .fetch, .carry, .handOver 1, .leave 1, .retire 1,
        .dispatch (event "a" "4"), .halt, .fetch, .carry, .exit, .drain]
    ∃ s, (start
        { Pipeline.new {} 2 String.length { word := fun _ => 0 } outbox with
          intake := .channels ⟨1, true⟩ }).run? moves = some s ∧
      s.manifest.dispatched.map Dispatch.fate =
        [.accepted, .full, .accepted, .accepted, .closed] ∧
      s.pipeline.outbox.transport.writes =
        #[("_e{1,1}:a|1\n", true), ("_e{2,1}:bb|1\n", false), ("_e{1,1}:a|3\n", true)] ∧
      ∀ name, ((Row.samplesOf s.manifest.written.flatten).filter (·.routingName = name)).Sublist
        (s.manifest.accepted.filter (·.routingName = name)) := by
  intro event failsWrite outbox moves
  have hseen : ((start
      { Pipeline.new {} 2 String.length { word := fun _ => 0 } outbox with
        intake := .channels ⟨1, true⟩ }).run? moves).map (fun s =>
      decide (s.manifest.dispatched.map Dispatch.fate =
        [.accepted, .full, .accepted, .accepted, .closed]) &&
      decide (s.pipeline.outbox.transport.writes =
        #[("_e{1,1}:a|1\n", true), ("_e{2,1}:bb|1\n", false), ("_e{1,1}:a|3\n", true)])) =
      some true := by
    decide +kernel
  obtain ⟨s, hrun, hs⟩ := Option.map_eq_some_iff.mp hseen
  simp only [Bool.and_eq_true, decide_eq_true_eq] at hs
  obtain ⟨-, -, -, horder⟩ := names_stay_in_order (by decide) {} ⟨64, 1⟩ String.length
    { word := fun _ => 0 } (.channels ⟨1, true⟩) 2 1 true { failsWrite : Scripted } moves hrun
  exact ⟨s, hrun, hs.1, hs.2, horder⟩

end Plant

end DogStatsD
