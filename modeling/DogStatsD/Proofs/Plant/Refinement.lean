import DogStatsD.Proofs.Plant.Order

/-!
# Channels Change Nothing

With channels, a sample waits until the receiver of its shard comes to it; without, its shard
processes it at once. Apart from the samples that find their channel full, this makes no difference:
whatever a pipeline with channels does, one without them does the same, when it is given the
accepted samples at the times at which the receivers come to them. And as long as receivers are told
to stop only after the last sample, they come to all of them.

* `Pipeline.withoutChannels`: what is left of a pipeline when its channels are left out;
* `Plant.Attended`: receivers leave a channel only when it is empty, and every sample that is not
  accepted is counted;
* `Plant.Attended.next`, `Plant.attended_run`: so it is as long as no sample comes after the stop;
* `Plant.Shadows`: a plant does without channels what another one does with them;
* `Plant.Shadows.next`, `Plant.exists_shadow`: it can always follow;
* `Plant.channels_refine_direct`: what becomes of the samples dispatched to channels.
-/

namespace DogStatsD

variable {τ : Type}

/-! ## Leaving channels out -/

/-- A shard without its channel. -/
def Shard.withoutChannel (s : Shard) : Shard :=
  { s with waiting := [], held := none }

namespace Pipeline

/-- A pipeline in the same state that processes samples at once. -/
def withoutChannels (p : Pipeline τ) : Pipeline τ :=
  { p with shards := p.shards.map Shard.withoutChannel, intake := .direct, overflowed := 0 }

variable {p : Pipeline τ} {j : Nat}

@[simp]
theorem overflowed_atShard {f : Shard → Outbox τ → Draws → Shard × Outbox τ × Draws} :
    (p.atShard j f).overflowed = p.overflowed := by
  unfold atShard
  split <;> rfl

@[simp]
theorem shardOf_withoutChannels (name : String) : p.withoutChannels.shardOf name = p.shardOf name :=
  congrArg (p.route name % ·) (List.length_map _)

/-- An operation that has nothing to do with channels does the same without them. -/
theorem withoutChannels_atShard {f : Shard → Outbox τ → Draws → Shard × Outbox τ × Draws}
    (hf : ∀ s o d, f s.withoutChannel o d = ((f s o d).1.withoutChannel, (f s o d).2)) :
    (p.atShard j f).withoutChannels = p.withoutChannels.atShard j f := by
  have hmap : p.withoutChannels.shards[j]? = p.shards[j]?.map Shard.withoutChannel :=
    List.getElem?_map
  cases hs : p.shards[j]? with
  | none =>
    rw [hs] at hmap
    rw [atShard_of_none hs, atShard_of_none hmap]
  | some shard =>
    rw [hs] at hmap
    rw [atShard_of_getElem? hs, atShard_of_getElem? hmap]
    simp only [withoutChannels, hf, List.map_set]

/-- A change to the channel of a shard is not seen without channels. -/
theorem withoutChannels_set {shard t : Shard} (hs : p.shards[j]? = some shard)
    (hsame : t.withoutChannel = shard.withoutChannel) :
    ({ p with shards := p.shards.set j t } : Pipeline τ).withoutChannels = p.withoutChannels := by
  have hback : (p.shards.map Shard.withoutChannel).set j shard.withoutChannel =
      p.shards.map Shard.withoutChannel := by
    rw [← List.map_set, ← (List.getElem?_eq_some_iff.mp hs).2, List.set_getElem_self]
  simp only [withoutChannels, List.map_set, hsame, hback]

theorem withoutChannels_atShard_same {f : Shard → Shard}
    (hf : ∀ shard, (f shard).withoutChannel = shard.withoutChannel) :
    (p.atShard j fun shard o d => (f shard, o, d)).withoutChannels = p.withoutChannels := by
  cases hs : p.shards[j]? with
  | none => rw [atShard_of_none hs]
  | some shard =>
    rw [atShard_of_getElem? hs]
    exact withoutChannels_set hs (hf shard)

/-- Processing a sample does not depend on the channel. -/
theorem withoutChannels_process (sample : Sample) :
    (p.atShard j fun s o d => s.process o d sample).withoutChannels =
      p.withoutChannels.atShard j fun s o d => s.process o d sample := by
  refine withoutChannels_atShard fun s o d => ?_
  unfold Shard.process
  rcases Shard.keeps d sample with ⟨kept, d⟩
  cases kept with
  | true => rfl
  | false => rfl

end Pipeline

theorem Shard.withoutChannel_take (s : Shard) : s.take.withoutChannel = s.withoutChannel := by
  unfold take
  split <;> rfl

namespace Plant

variable {s s' q : Plant τ} {settings : ChannelSettings}

/-! ## Attending to channels -/

/-- Receivers leave a channel only when nothing is in it, and of the samples that were dispatched,
every one was accepted or found its channel full, and its sender was told so. -/
structure Attended (settings : ChannelSettings) (s : Plant τ) : Prop where
  intake_eq : s.pipeline.intake = .channels settings
  length_eq : s.receivers.length = s.pipeline.shards.length
  listening : s.stopping = false → ∀ receiver ∈ s.receivers, receiver = .listening
  empty : ∀ (j : Nat) (shard : Shard), s.pipeline.shards[j]? = some shard →
    s.isServing j = false → shard.inbox = []
  told : ∀ d ∈ s.manifest.dispatched, (d.fate = .accepted ∧ d.answer = .ok ()) ∨
    (d.fate = .full ∧ d.answer = if settings.reportFull then .error .channelFull else .ok ())
  overflowed_eq : s.pipeline.overflowed = s.manifest.dispatched.countP (·.fate = .full)

/-- As long as they are not told to stop, receivers serve their channels. -/
theorem Attended.receiver_eq (h : s.Attended settings) (hopen : s.stopping = false)
    (hpos : 0 < s.pipeline.shards.length) (sample : Sample) :
    s.receivers[s.home sample]? = some .listening := by
  have hlt : s.home sample < s.receivers.length := h.length_eq ▸ Nat.mod_lt _ hpos
  rw [List.getElem?_eq_getElem hlt]
  exact congrArg some (h.listening hopen _ (List.getElem_mem hlt))

/-- A sample is put into its channel if there is room, and is counted if there is none. -/
theorem Attended.dispatch_eq (h : s.Attended settings) (hopen : s.stopping = false)
    (hpos : 0 < s.pipeline.shards.length) (hcapacity : 0 < settings.capacity) (sample : Sample) :
    ∃ shard, s.pipeline.shards[s.home sample]? = some shard ∧ s.dispatch sample =
      if shard.waiting.length < settings.capacity then
        (.ok (), { s.pipeline with
          shards := s.pipeline.shards.set (s.home sample) (shard.enqueue sample) })
      else
        (if settings.reportFull then .error .channelFull else .ok (),
          { s.pipeline with overflowed := s.pipeline.overflowed + 1 }) := by
  have hlt : s.home sample < s.pipeline.shards.length := Nat.mod_lt _ hpos
  have hs := List.getElem?_eq_getElem hlt
  generalize s.pipeline.shards[s.home sample] = shard at hs
  -- A channel that holds something at all has room for a first sample.
  have hroom : shard.hasRoom settings.capacity =
      decide (shard.waiting.length < settings.capacity) := by
    cases hwaiting : shard.waiting with
    | nil => simp [Shard.hasRoom, hwaiting, hcapacity]
    | cons first rest => simp [Shard.hasRoom, hwaiting]
  refine ⟨shard, hs, ?_⟩
  have hdispatch : s.dispatch sample = s.pipeline.enqueue settings (s.home sample) sample := by
    simp only [dispatch, h.intake_eq, h.receiver_eq hopen hpos sample]
    exact Pipeline.dispatch_of_channels h.intake_eq sample
  rw [hdispatch, Pipeline.enqueue, hs]
  simp only [hroom, decide_eq_true_eq]

/-- Where receivers are and what senders were told does not change. -/
theorem Attended.of_same (h : s.Attended settings)
    (hintake : s'.pipeline.intake = s.pipeline.intake)
    (hlength : s'.pipeline.shards.length = s.pipeline.shards.length)
    (hoverflowed : s'.pipeline.overflowed = s.pipeline.overflowed)
    (hreceivers : s'.receivers = s.receivers) (hstopping : s'.stopping = s.stopping)
    (hdispatched : s'.manifest.dispatched = s.manifest.dispatched)
    (hinbox : ∀ (j : Nat) (t : Shard), s'.pipeline.shards[j]? = some t → s.isServing j = false →
      ∃ shard : Shard, s.pipeline.shards[j]? = some shard ∧ t.inbox = shard.inbox) :
    s'.Attended settings := by
  refine ⟨hintake.trans h.intake_eq, ?_, ?_, fun j t ht hserving => ?_, ?_, ?_⟩
  · rw [hreceivers, hlength, h.length_eq]
  · rw [hreceivers, hstopping]
    exact h.listening
  · rw [isServing, hreceivers] at hserving
    obtain ⟨shard, hs, hsame⟩ := hinbox j t ht hserving
    exact hsame.trans (h.empty j shard hs hserving)
  · rw [hdispatched]
    exact h.told
  · rw [hoverflowed, hdispatched, h.overflowed_eq]

/-- A sample that is accepted goes to a receiver that serves its channel. -/
theorem Attended.enqueue (h : s.Attended settings) (hopen : s.stopping = false)
    (hpos : 0 < s.pipeline.shards.length) {shard : Shard} (sample : Sample) :
    Attended settings
      { s.note ⟨sample, .accepted, .ok ()⟩ with
        pipeline :=
          { s.pipeline with
            shards := s.pipeline.shards.set (s.home sample) (shard.enqueue sample) } } := by
  refine ⟨h.intake_eq, ?_, h.listening, fun j t ht hserving => ?_, ?_, ?_⟩
  · exact h.length_eq.trans List.length_set.symm
  · obtain ⟨rfl, rfl⟩ | ⟨-, hold⟩ := getElem?_set_cases ht
    · have hnot : s.isServing (s.home sample) = false := hserving
      simp [isServing, h.receiver_eq hopen hpos sample, System.Receiver.isServing] at hnot
    · exact h.empty j t hold hserving
  · intro d hd
    obtain hold | hnew := List.mem_append.mp hd
    · exact h.told d hold
    · cases List.mem_singleton.mp hnew
      exact .inl ⟨rfl, rfl⟩
  · show s.pipeline.overflowed = (s.manifest.dispatched ++ [_]).countP _
    simp [h.overflowed_eq]

/-- A sample that finds its channel full is counted. -/
theorem Attended.overflow (h : s.Attended settings) (sample : Sample) :
    Attended settings
      { s.note
          ⟨sample, .full, if settings.reportFull then .error .channelFull else .ok ()⟩ with
        pipeline := { s.pipeline with overflowed := s.pipeline.overflowed + 1 } } := by
  refine ⟨h.intake_eq, h.length_eq, h.listening, h.empty, ?_, ?_⟩
  · intro d hd
    obtain hold | hnew := List.mem_append.mp hd
    · exact h.told d hold
    · cases List.mem_singleton.mp hnew
      exact .inr ⟨rfl, rfl⟩
  · show s.pipeline.overflowed + 1 = (s.manifest.dispatched ++ [_]).countP _
    simp [h.overflowed_eq]

variable [Transport τ]

/-- A step that dispatches nothing after the stop keeps receivers at their channels. -/
theorem Attended.next (h : s.Attended settings) (hpos : 0 < s.pipeline.shards.length)
    {move : Move} (hopen : move.sample? ≠ none → s.stopping = false) (hnext : Next s move s') :
    s'.Attended settings := by
  cases hnext with
  | direct sample hintake => cases h.intake_eq.symm.trans hintake
  | refuse sample hintake hclosed =>
    -- Nobody has stopped yet.
    have hlistening := h.receiver_eq (hopen (Option.some_ne_none _)) hpos sample
    obtain hstopped | hgone := hclosed
    · cases h.intake_eq.symm.trans hstopped
    · cases hlistening.symm.trans hgone
  | enqueue sample => exact h.enqueue (hopen (Option.some_ne_none _)) hpos sample
  | overflow sample hintake =>
    cases h.intake_eq.symm.trans hintake
    exact h.overflow sample
  | put e =>
    exact h.of_same Pipeline.intake_atShard Pipeline.length_atShard Pipeline.overflowed_atShard
      rfl rfl rfl fun j t ht _ => exists_of_atShard (fun _ _ _ => rfl) j t ht
  | take j =>
    exact h.of_same Pipeline.intake_atShard Pipeline.length_atShard Pipeline.overflowed_atShard
      rfl rfl rfl fun j t ht _ => exists_of_atShard (fun _ _ _ => Shard.inbox_take _) j t ht
  | handOver j =>
    exact h.of_same Pipeline.intake_atShard Pipeline.length_atShard Pipeline.overflowed_atShard
      rfl rfl rfl fun j t ht _ => exists_of_atShard (fun _ _ _ => rfl) j t ht
  | @process j shard sample hserving hs hheld =>
    rw [← release_eq hs hheld]
    refine h.of_same Pipeline.intake_atShard Pipeline.length_atShard Pipeline.overflowed_atShard
      rfl rfl rfl fun i t ht hidle => ?_
    -- The receiver that processes a sample is serving, and the other shards stay the same.
    obtain ⟨rfl, -⟩ | ⟨-, hold⟩ := Pipeline.getElem?_atShard ht
    · cases hserving.symm.trans hidle
    · exact ⟨t, hold, rfl⟩
  | @turn _ j before after hmove hbefore hne hstopping hafter =>
    have hlt := (List.getElem?_eq_some_iff.mp hbefore).1
    refine ⟨h.intake_eq, ?_, fun hopen => ?_, fun i t ht hidle => ?_, h.told, h.overflowed_eq⟩
    · exact List.length_set.trans h.length_eq
    · have hbefore := h.listening hopen before (List.mem_of_getElem? hbefore)
      cases (hstopping hbefore).symm.trans hopen
    · have hidle : (s.receivers.set j after)[i]?.any System.Receiver.isServing = false := hidle
      by_cases hij : j = i
      · subst hij
        rw [List.getElem?_set_self hlt, Option.any_some] at hidle
        obtain hserving | rfl | hempty := hafter
        · cases hserving.symm.trans hidle
        · refine h.empty j t ht ?_
          rw [isServing, hbefore]
          rfl
        · obtain ⟨hwaiting, hheld⟩ := hempty t ht
          simp [Shard.inbox, hwaiting, hheld]
      · rw [List.getElem?_set_ne hij] at hidle
        exact h.empty i t ht hidle
  | stop =>
    exact ⟨h.intake_eq, h.length_eq, fun hopen => Bool.noConfusion hopen, h.empty, h.told,
      h.overflowed_eq⟩
  | raise | fetch | carry | halt | exit | drain =>
    exact h.of_same rfl rfl rfl rfl rfl rfl fun j t ht _ => ⟨t, ht, rfl⟩

/-- Receivers are told to stop by a stop only. -/
theorem stopping_next {move : Move} (hnext : Next s move s') (hstopping : s'.stopping = true) :
    s.stopping = true ∨ move = .stop := by
  cases hnext with
  | stop => exact .inr rfl
  | direct | enqueue | overflow | refuse | put | take | process | turn | handOver | raise | fetch |
    carry | halt | exit | drain => exact .inl hstopping

/-- As long as no sample comes after a stop, receivers stay at their channels. -/
theorem attended_run (h : s.Attended settings) (hchannels : s.Channels) {moves : List Move}
    (hlast : moves.Pairwise fun earlier later => earlier = .stop → later.sample? = none)
    (hopen : s.stopping = true → ∀ move ∈ moves, move.sample? = none)
    (hrun : s.run? moves = some s') :
    s'.Attended settings ∧ s'.Channels ∧
      (s'.stopping = true → s.stopping = true ∨ .stop ∈ moves) := by
  -- The induction is from the front, as a stop rules out what comes behind it.
  induction moves generalizing s with
  | nil =>
    cases hrun
    exact ⟨h, hchannels, .inl⟩
  | cons move rest ih =>
    obtain ⟨next, hstep, hrest⟩ := Option.bind_eq_some_iff.mp hrun
    have hnext := next_of_step? hchannels.pos hstep
    obtain ⟨hfirst, hlast⟩ := List.pairwise_cons.mp hlast
    have hattended : next.Attended settings := by
      refine h.next hchannels.pos (fun hsample => ?_) hnext
      by_contra hstopping
      exact hsample (hopen (Bool.not_eq_false _ ▸ hstopping) move List.mem_cons_self)
    have hclosed : next.stopping = true → ∀ later ∈ rest, later.sample? = none := by
      intro hstopping later hlater
      obtain hbefore | rfl := stopping_next hnext hstopping
      · exact hopen hbefore later (List.mem_cons_of_mem _ hlater)
      · exact hfirst later hlater rfl
    obtain ⟨hattended, hchannels, hstopped⟩ :=
      ih hattended (hchannels.next hnext) hlast hclosed hrest
    refine ⟨hattended, hchannels, fun hstopping => ?_⟩
    obtain hbefore | hmem := hstopped hstopping
    · obtain hbefore | rfl := stopping_next hnext hbefore
      · exact .inl hbefore
      · exact .inr List.mem_cons_self
    · exact .inr (List.mem_cons_of_mem _ hmem)

/-! ## Doing without channels -/

omit [Transport τ] in
/-- A plant is where another one is, apart from channels. -/
structure Shadows (q s : Plant τ) : Prop where
  pipeline_eq : q.pipeline = s.pipeline.withoutChannels
  courier_eq : q.courier = s.courier

omit [Transport τ] in
/-- A plant without channels that stays behind a step stays a shadow. -/
theorem Shadows.of_same (h : q.Shadows s)
    (hpipeline : s'.pipeline.withoutChannels = s.pipeline.withoutChannels)
    (hcourier : s'.courier = s.courier) : q.Shadows s' :=
  ⟨h.pipeline_eq.trans hpipeline.symm, h.courier_eq.trans hcourier.symm⟩

omit [Transport τ] in
/-- Without channels, the sample that a receiver comes to is dispatched only then. -/
theorem Shadows.process (h : q.Shadows s) {j : Nat} {sample : Sample}
    (hhome : s.home sample = j) :
    (q.send sample).Shadows ((s.letGo j).processAt j sample) := by
  have hdirect : q.pipeline.intake = .direct := by
    rw [h.pipeline_eq]
    rfl
  have hsame : q.home sample = j := by
    rw [home, h.pipeline_eq, Pipeline.shardOf_withoutChannels]
    exact hhome
  have hletGo : (s.letGo j).pipeline.withoutChannels = s.pipeline.withoutChannels :=
    Pipeline.withoutChannels_atShard_same fun _ => rfl
  rw [send_of_direct hdirect, hsame]
  refine ⟨?_, h.courier_eq⟩
  calc q.pipeline.atShard j (fun shard o d => shard.process o d sample)
    _ = (s.letGo j).pipeline.withoutChannels.atShard j fun shard o d =>
          shard.process o d sample := by rw [h.pipeline_eq, hletGo]
    _ = _ := (Pipeline.withoutChannels_process sample).symm

/-- What one plant does with channels in a step, another one can do without them. -/
theorem Shadows.next (h : q.Shadows s) (hintake : s.pipeline.intake ≠ .direct)
    (hchannels : s.Channels) {move : Move} (hnext : Next s move s') :
    ∃ moves q', q.run? moves = some q' ∧ q'.Shadows s' ∧
      s'.manifest.calls = s.manifest.calls ++ moves.filterMap Move.sample? ∧
      moves.filterMap Move.entry? = move.entry?.toList := by
  have hpipeline := h.pipeline_eq
  have hcourier := h.courier_eq
  have houtbox : q.pipeline.outbox = s.pipeline.outbox := by
    rw [hpipeline]
    rfl
  -- Steps that have nothing to do with channels are taken together.
  have htogether (q' : Plant τ) (hstep : q.step? move = some q')
      (hpipeline : q'.pipeline = s'.pipeline.withoutChannels) (hcourier : q'.courier = s'.courier)
      (hcalls : s'.manifest.calls = s.manifest.calls) (hsample : move.sample? = none) :
      ∃ moves q', q.run? moves = some q' ∧ q'.Shadows s' ∧
        s'.manifest.calls = s.manifest.calls ++ moves.filterMap Move.sample? ∧
        moves.filterMap Move.entry? = move.entry?.toList := by
    refine ⟨[move], q', ?_, ⟨hpipeline, hcourier⟩, ?_, ?_⟩
    · simp [run?, hstep]
    · simp [hcalls, hsample]
    · cases hentry : move.entry? <;> simp [hentry]
  -- What goes on in channels needs no step.
  have hstays (hpipeline : s'.pipeline.withoutChannels = s.pipeline.withoutChannels)
      (hcourier : s'.courier = s.courier) (hcalls : s'.manifest.calls = s.manifest.calls)
      (hentry : move.entry? = none) :
      ∃ moves q', q.run? moves = some q' ∧ q'.Shadows s' ∧
        s'.manifest.calls = s.manifest.calls ++ moves.filterMap Move.sample? ∧
        moves.filterMap Move.entry? = move.entry?.toList := by
    refine ⟨[], q, rfl, h.of_same hpipeline hcourier, ?_, ?_⟩
    · rw [hcalls]
      exact (List.append_nil _).symm
    · rw [hentry]
      rfl
  cases hnext with
  | direct sample hdirect => exact absurd hdirect hintake
  | enqueue sample _ _ hs _ => exact hstays (Pipeline.withoutChannels_set hs rfl) rfl rfl rfl
  | overflow | refuse | stop => exact hstays rfl rfl rfl rfl
  | take j hserving =>
    exact hstays (Pipeline.withoutChannels_atShard_same Shard.withoutChannel_take) rfl rfl rfl
  | turn move j hmove =>
    refine hstays rfl rfl rfl ?_
    obtain rfl | rfl | rfl := hmove <;> rfl
  | @process j shard sample hserving hs hheld =>
    -- Only when the receiver comes to it does the sample reach the other plant.
    have hhome : s.home sample = j := hchannels.home_eq hs (by simp [Shard.inbox, hheld])
    exact ⟨[.dispatch sample], q.send sample, rfl, h.process hhome, rfl, rfl⟩
  | put e =>
    refine htogether _ rfl ?_ hcourier rfl rfl
    show q.pipeline.put e = (s.pipeline.put e).withoutChannels
    rw [hpipeline, Pipeline.put, Pipeline.put, Pipeline.shardOf_withoutChannels,
      Pipeline.withoutChannels_atShard fun _ _ _ => rfl]
  | handOver j =>
    refine htogether _ rfl ?_ hcourier rfl rfl
    show q.pipeline.handOverAt j = (s.pipeline.handOverAt j).withoutChannels
    rw [hpipeline, Pipeline.handOverAt, Pipeline.handOverAt,
      Pipeline.withoutChannels_atShard fun _ _ _ => rfl]
  | raise caller hroom =>
    refine htogether _ (if_pos (houtbox ▸ hroom)) ?_ hcourier rfl rfl
    simp only [setFreight, setOutbox, hpipeline, Pipeline.withoutChannels]
  | @fetch command queue hidle hqueue =>
    refine htogether
      { (q.setOutbox { s.pipeline.outbox with queue }).setFreight q.manifest.fetch with
        courier := .holding command } ?_ ?_ rfl rfl rfl
    · simp only [step?, hcourier, hidle, houtbox, hqueue]
    · simp only [setFreight, setOutbox, hpipeline, Pipeline.withoutChannels]
  | @carry command hholding =>
    refine htogether
      { (q.setOutbox (s.pipeline.outbox.perform command)).setFreight q.manifest.carry with
        courier := .idle } ?_ ?_ rfl rfl rfl
    · simp only [step?, hcourier, hholding, houtbox]
    · simp only [setFreight, setOutbox, hpipeline, Pipeline.withoutChannels]
  | halt =>
    refine htogether _ rfl ?_ hcourier rfl rfl
    simp only [setOutbox, hpipeline, Pipeline.withoutChannels]
  | exit hidle hstopped =>
    refine htogether { q with courier := .gone } ?_ hpipeline rfl rfl rfl
    simp only [step?, hcourier, hidle, houtbox, hstopped]
  | @drain command queue hgone hqueue =>
    refine htogether
      ((q.setOutbox (({ s.pipeline.outbox with queue } : Outbox τ).perform command)).setFreight
        q.manifest.fetch.carry) ?_ ?_ hcourier rfl rfl
    · simp only [step?, hcourier, hgone, houtbox, Outbox.step?_of_queue_eq_cons hqueue]
    · simp only [setFreight, setOutbox, hpipeline, Pipeline.withoutChannels]

/-- Steps leave alone how samples enter the shards. -/
theorem intake_next {move : Move} (hnext : Next s move s') :
    s'.pipeline.intake = s.pipeline.intake := by
  cases hnext with
  | direct | put | take | handOver => exact Pipeline.intake_atShard
  | process => exact Pipeline.intake_atShard.trans Pipeline.intake_atShard
  | enqueue | overflow | refuse | turn | stop | raise | fetch | carry | halt | exit | drain => rfl

/-- Whatever a plant does with channels, another one can do without them. -/
theorem exists_shadow (h : q.Shadows s) (hintake : s.pipeline.intake ≠ .direct)
    (hchannels : s.Channels) {moves : List Move} (hrun : s.run? moves = some s') :
    ∃ moves' q', q.run? moves' = some q' ∧ q'.Shadows s' ∧
      s'.manifest.calls = s.manifest.calls ++ moves'.filterMap Move.sample? ∧
      moves'.filterMap Move.entry? = moves.filterMap Move.entry? := by
  refine (steps_induction (motive := fun front t => t.pipeline.intake ≠ .direct ∧ t.Channels ∧
    ∃ moves' q', q.run? moves' = some q' ∧ q'.Shadows t ∧
      t.manifest.calls = s.manifest.calls ++ moves'.filterMap Move.sample? ∧
      moves'.filterMap Move.entry? = front.filterMap Move.entry?) hrun
    ⟨hintake, hchannels, [], q, rfl, h, (List.append_nil _).symm, rfl⟩ ?_).2.2
  intro front move t t' ⟨hintake, hchannels, first, q₁, hfirst, hq₁, hcalls, hentries⟩ hstep
  have hnext := next_of_step? hchannels.pos hstep
  obtain ⟨last, q₂, hlast, hq₂, hcalls', hentry⟩ := hq₁.next hintake hchannels hnext
  refine ⟨(intake_next hnext).trans_ne hintake, hchannels.next hnext, first ++ last, q₂,
    run?_append hfirst hlast, hq₂, ?_, ?_⟩
  · rw [hcalls', hcalls, List.append_assoc, List.filterMap_append]
  · rw [List.filterMap_append, List.filterMap_append, hentries, hentry]
    cases hmove : move.entry? <;> simp [hmove]

omit [Transport τ] in
/-- At first all receivers are at their channels. -/
theorem attended_start {p : Pipeline τ} (hintake : p.intake = .channels settings)
    (hoverflowed : p.overflowed = 0) : (start p).Attended settings := by
  have hreceivers : (start p).receivers = List.replicate p.shards.length .listening := by
    simp only [start, hintake]
  refine ⟨hintake, ?_, fun _ receiver hmem => ?_, fun j shard hs hidle => ?_,
    List.forall_mem_nil _, hoverflowed⟩
  · rw [hreceivers, List.length_replicate]
    rfl
  · rw [hreceivers] at hmem
    exact List.eq_of_mem_replicate hmem
  · have hlt : j < p.shards.length := (List.getElem?_eq_some_iff.mp hs).1
    rw [isServing, hreceivers, List.getElem?_replicate_of_lt hlt] at hidle
    cases hidle

omit [Transport τ] in
/-- Shards come to the samples that were accepted for them in their order. -/
theorem Channels.prefix_calls (h : s.Channels) (j : Nat) :
    s.manifest.calls.filter (s.home · = j) <+: s.manifest.accepted.filter (s.home · = j) := by
  rcases Nat.lt_or_ge j s.pipeline.shards.length with hlt | hle
  · rw [h.fifo j _ (List.getElem?_eq_getElem hlt)]
    exact List.prefix_append _ _
  · rw [filter_home_eq_nil h.pos hle]
    exact List.nil_prefix

omit [Transport τ] in
/-- Receivers that are gone have come to all samples, and take no more. -/
theorem Attended.all_gone (h : s.Attended settings) (hchannels : s.Channels)
    (hgone : ∀ receiver ∈ s.receivers, receiver = .gone) :
    (∀ j, s.manifest.calls.filter (s.home · = j) = s.manifest.accepted.filter (s.home · = j)) ∧
      ∀ sample, s.dispatch sample = (.error .closed, s.pipeline) := by
  have hreceiver {j : Nat} (hlt : j < s.pipeline.shards.length) :
      s.receivers[j]? = some .gone := by
    rw [List.getElem?_eq_getElem (h.length_eq ▸ hlt)]
    exact congrArg some (hgone _ (List.getElem_mem _))
  refine ⟨fun j => ?_, fun sample => ?_⟩
  · rcases Nat.lt_or_ge j s.pipeline.shards.length with hlt | hle
    · have hs := List.getElem?_eq_getElem hlt
      have hidle : s.isServing j = false := by
        rw [isServing, hreceiver hlt]
        rfl
      rw [hchannels.fifo j _ hs, h.empty j _ hs hidle, List.append_nil]
    · rw [filter_home_eq_nil hchannels.pos hle, filter_home_eq_nil hchannels.pos hle]
  · have hhome : s.receivers[s.home sample]? = some .gone :=
      hreceiver (Nat.mod_lt _ hchannels.pos)
    simp only [dispatch, h.intake_eq, hhome]

section

variable (workers : Nat) (options : Line.Options) (route : String → Nat) (draws : Draws)
  (settings : ChannelSettings) (o : Outbox τ)

omit [Transport τ] in
/-- A new plant without channels is where a new one with channels is. -/
theorem shadows_start :
    (start (Pipeline.new options workers route draws o)).Shadows
      (start { Pipeline.new options workers route draws o with intake := .channels settings }) := by
  refine ⟨?_, rfl⟩
  -- Nothing waits for new shards, so that there is nothing to leave out.
  have hshards : (Pipeline.newShards options o workers).1.map Shard.withoutChannel =
      (Pipeline.newShards options o workers).1 := by
    refine (List.map_congr_left fun shard hs => ?_).trans (List.map_id _)
    obtain ⟨hwaiting, hheld⟩ := (Pipeline.quiet_newShards options o workers).2 shard hs
    show ({ shard with waiting := [], held := none } : Shard) = shard
    rw [← hwaiting, ← hheld]
  simp only [start, Pipeline.withoutChannels, Pipeline.new, hshards]

/-- For any number of shards, any routing and channels of any capacity, however parties take their
steps, as long as no sample is dispatched after the receivers are told to stop: each sample is put
into the channel of its shard, or is counted because it finds the channel full, and its sender is
told so if that is asked for. The shards come to the samples accepted in their order, and to all of
them when all receivers are gone; from then on every sample is refused, which changes nothing. A
pipeline without channels to which the same samples are dispatched when the shards come to them, and
the same entries are written, gets to the same state. -/
theorem channels_refine_direct (hworkers : 0 < workers) (hcapacity : 0 < settings.capacity)
    (moves : List Move)
    (hlast : moves.Pairwise fun earlier later => earlier = .stop → later.sample? = none)
    (hrun : (start { Pipeline.new options workers route draws o with
      intake := .channels settings }).run? moves = some s) :
    s.manifest.dispatched.map Dispatch.sample = moves.filterMap Move.sample? ∧
    (∀ d ∈ s.manifest.dispatched, (d.fate = .accepted ∧ d.answer = .ok ()) ∨
      (d.fate = .full ∧
        d.answer = if settings.reportFull then .error .channelFull else .ok ())) ∧
    s.pipeline.overflowed = s.manifest.dispatched.countP (·.fate = .full) ∧
    (∀ front sample back s₀, moves = front ++ .dispatch sample :: back →
      (start { Pipeline.new options workers route draws o with
        intake := .channels settings }).run? front = some s₀ →
      ∃ shard, s₀.pipeline.shards[s₀.home sample]? = some shard ∧ s₀.dispatch sample =
        if shard.waiting.length < settings.capacity then
          (.ok (), { s₀.pipeline with
            shards := s₀.pipeline.shards.set (s₀.home sample) (shard.enqueue sample) })
        else
          (if settings.reportFull then .error .channelFull else .ok (),
            { s₀.pipeline with overflowed := s₀.pipeline.overflowed + 1 })) ∧
    (∀ j, s.manifest.calls.filter (s.home · = j) <+: s.manifest.accepted.filter (s.home · = j)) ∧
    ((∀ receiver ∈ s.receivers, receiver = .gone) →
      (∀ j, s.manifest.calls.filter (s.home · = j) = s.manifest.accepted.filter (s.home · = j)) ∧
      ∀ sample, s.dispatch sample = (.error .closed, s.pipeline)) ∧
    ∃ moves' q, (start (Pipeline.new options workers route draws o)).run? moves' = some q ∧
      moves'.filterMap Move.sample? = s.manifest.calls ∧
      moves'.filterMap Move.entry? = moves.filterMap Move.entry? ∧
      q.pipeline = s.pipeline.withoutChannels ∧ q.courier = s.courier := by
  have hattended := attended_start
    (p := { Pipeline.new options workers route draws o with intake := .channels settings }) rfl rfl
  have hchannels := channels_start_new hworkers options route draws (.channels settings) o
  have hshadows := shadows_start workers options route draws settings o
  have hdispatched := dispatched_run hchannels hrun
  obtain ⟨moves', q, hfollows, hq, hcalls, hentries⟩ :=
    exists_shadow hshadows (by simp [start]) hchannels hrun
  -- The claims about a single dispatch are about the state in which it finds the plant.
  have hfront : ∀ front sample back s₀, moves = front ++ .dispatch sample :: back →
      (start { Pipeline.new options workers route draws o with
        intake := .channels settings }).run? front = some s₀ →
      s₀.Attended settings ∧ s₀.Channels ∧ s₀.stopping = false := by
    rintro front sample back s₀ rfl hfront
    obtain ⟨hbefore, -, hacross⟩ := List.pairwise_append.mp hlast
    obtain ⟨hattended, hchannels, hstopped⟩ :=
      attended_run hattended hchannels hbefore (fun hstopping => Bool.noConfusion hstopping) hfront
    refine ⟨hattended, hchannels, ?_⟩
    by_contra hstopping
    -- A sample that comes behind a stop is ruled out.
    obtain hfalse | hmem := hstopped (Bool.not_eq_false _ ▸ hstopping)
    · cases hfalse
    · cases hacross .stop hmem (.dispatch sample) List.mem_cons_self rfl
  obtain ⟨hattended, hchannels, -⟩ :=
    attended_run hattended hchannels hlast (fun hstopping => Bool.noConfusion hstopping) hrun
  refine ⟨hdispatched, hattended.told, hattended.overflowed_eq, ?_, hchannels.prefix_calls,
    hattended.all_gone hchannels, moves', q, hfollows, hcalls.symm, hentries, hq.pipeline_eq,
    hq.courier_eq⟩
  intro front sample back s₀ hmoves hrun
  obtain ⟨hattended, hchannels, hopen⟩ := hfront front sample back s₀ hmoves hrun
  exact hattended.dispatch_eq hopen hchannels.pos hcapacity sample

end

/-- A sample finds the channel of its shard full, an entry for the same shard is written all the
same, and the receivers are told to stop while a sample waits. -/
theorem channels_refine_direct_three_samples :
    let event (text : String) : Sample := .event { title := "a", text }
    let o : Outbox Scripted := { capacity := 2, transport := {}, pool := .new 1 ⟨64, 8⟩ }
    let moves : List Move :=
      [.dispatch (event "1"), .dispatch (event "2"),
        .put (.sample (.metric { name := "b", value := .count 1 })), .take 1,
        .dispatch (event "3"), .stop, .clear 0, .process 1, .leave 0, .retire 0, .take 1,
        .process 1, .clear 1, .leave 1, .retire 1]
    ∃ s, (start
        { Pipeline.new {} 2 String.length { word := fun _ => 0 } o with
          intake := .channels ⟨1, true⟩ }).run? moves = some s ∧
      s.manifest.dispatched.map Dispatch.fate = [.accepted, .full, .accepted] ∧
      s.pipeline.overflowed = 1 ∧
      s.pipeline.shards.map (·.packer.current.text) =
        ["", "b:1|c\n_e{1,1}:a|1\n_e{1,1}:a|3\n"] ∧
      (∀ j, s.manifest.calls.filter (s.home · = j) =
        s.manifest.accepted.filter (s.home · = j)) ∧
      (∀ sample, s.dispatch sample = (.error .closed, s.pipeline)) ∧
      ∃ moves' q, (start
        (Pipeline.new {} 2 String.length { word := fun _ => 0 } o)).run? moves' = some q ∧
        moves'.filterMap Move.sample? = s.manifest.calls ∧
        q.pipeline = s.pipeline.withoutChannels := by
  intro event o moves
  have hseen : ((start
      { Pipeline.new {} 2 String.length { word := fun _ => 0 } o with
        intake := .channels ⟨1, true⟩ }).run? moves).map (fun s =>
      decide (s.manifest.dispatched.map Dispatch.fate = [.accepted, .full, .accepted]) &&
        (decide (s.pipeline.overflowed = 1) &&
          (decide (s.pipeline.shards.map (·.packer.current.text) =
            ["", "b:1|c\n_e{1,1}:a|1\n_e{1,1}:a|3\n"]) &&
          decide (∀ receiver ∈ s.receivers, receiver = .gone)))) = some true := by
    decide +kernel
  obtain ⟨s, hrun, hs⟩ := Option.map_eq_some_iff.mp hseen
  simp only [Bool.and_eq_true, decide_eq_true_eq] at hs
  obtain ⟨hfates, hoverflowed, htexts, hgone⟩ := hs
  obtain ⟨-, -, -, -, -, hjoined, moves', q, hfollows, hcalls, -, hq, -⟩ :=
    channels_refine_direct 2 {} String.length { word := fun _ => 0 } ⟨1, true⟩ o (by decide)
      (by decide) moves (by simp [moves, Move.sample?]) hrun
  exact ⟨s, hrun, hfates, hoverflowed, htexts, (hjoined hgone).1, (hjoined hgone).2, moves', q,
    hfollows, hcalls, hq⟩

end Plant

end DogStatsD
