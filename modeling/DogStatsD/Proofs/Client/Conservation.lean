import DogStatsD.Proofs.Client.Start
import DogStatsD.Proofs.Packer.HandedOver
import DogStatsD.Proofs.Shard.Packing

/-!
# Conservation of Samples

Every sample that a client without an aggregator has accepted is on a line in some payload, waits in
a channel, or is counted as dropped, and only one of these.

* `Client.Move`, `Client.History.run`: what happens to a client, one party at a time, and the fates
  of its payloads along with it;
* `Client.Balanced`: the samples accepted are those whose whereabouts are known;
* `Client.Balanced.step`, `Client.Balanced.run`: every move keeps it so;
* `Client.conservation`: where the samples are, in the counters and in the stages of the client.
-/

namespace DogStatsD

theorem Accepted.total_count (a : Accepted) (sample : Sample) :
    (a.count sample).total = a.total + 1 := by
  cases sample with
  | metric m =>
    cases hkind : m.kind <;> simp only [count, total, KindCounts.total, KindCounts.add, hkind] <;>
      omega
  | event e =>
    simp only [count, total]
    omega
  | serviceCheck c =>
    simp only [count, total]
    omega

namespace Shard

/-- The lines held, the entries dropped and the samples waiting. -/
def load (s : Shard) : Nat :=
  s.packer.load + s.waiting.length

theorem sum_load (shards : List Shard) :
    (shards.map load).sum = (shards.map (·.packer.current.lines)).sum +
      (shards.map (·.waiting.length)).sum + oversizedTogether shards := by
  induction shards with
  | nil => rfl
  | cons s rest ih =>
    simp only [List.map_cons, List.sum_cons, oversizedTogether, ih, load, Packer.load]
    omega

end Shard

namespace Client

/-! ## Moves -/

/-- What happens to a client. -/
inductive Move where
  | submit (sample : Sample)
  /-- The receiver of a shard takes a sample out of its channel and processes it. -/
  | receive (shard : Nat)
  /-- A shard is asked for its payload. -/
  | handOver (shard : Nat)
  /-- Whoever works off the queue carries out one command. -/
  | deliver
  /-- A caller that waits for the queue puts its barrier into it. -/
  | raise (caller : Nat)
  | markClosed
  /-- The receivers of a closed client find their channels empty and stop. -/
  | stopReceivers
  | stopThread
  | closeTransport

namespace Move

variable {τ : Type}

/-- The payloads that a move takes from a shard. -/
def handed (c : Client τ) : Move → List Payload
  | .submit sample =>
    let shard? := c.pipeline.shards[c.pipeline.shardOf sample.routingName]?
    match c.closed, sample.validate, c.pipeline.intake, shard? with
    | false, .ok (), .direct, some s => s.packer.displaced sample
    | _, _, _, _ => []
  | .receive i =>
    match c.pipeline.shards[i]? with
    | some { packer, waiting := sample :: _, held := none } => packer.displaced sample
    | _ => []
  | .handOver i =>
    match c.pipeline.shards[i]? with
    | some s => s.packer.finished
    | none => []
  | .deliver | .raise _ | .markClosed | .stopReceivers | .stopThread | .closeTransport => []

variable [Transport τ]

def run (c : Client τ) : Move → Client τ
  | .submit sample => (c.submit sample).2
  | .receive i => { c with pipeline := c.pipeline.receive i }
  | .handOver i => { c with pipeline := c.pipeline.handOverAt i }
  | .deliver => { c with pipeline := { c.pipeline with outbox := c.pipeline.outbox.deliverNext } }
  | .raise caller =>
    if c.pipeline.outbox.hasRoom then
      { c with pipeline := { c.pipeline with outbox := c.pipeline.outbox.raise caller } }
    else c
  | .markClosed => { c with closed := true }
  | .stopReceivers =>
    if c.closed && c.pipeline.shards.all (·.waiting.isEmpty) then
      match c.pipeline.intake with
      | .channels _ => { c with pipeline := { c.pipeline with intake := .stopped } }
      | .direct | .stopped => c
    else c
  | .stopThread =>
    { c with pipeline := { c.pipeline with outbox := { c.pipeline.outbox with running := false } } }
  | .closeTransport =>
    let outbox := c.pipeline.outbox
    let (_, transport) := Transport.close outbox.transport
    { c with pipeline := { c.pipeline with outbox := { outbox with transport } } }

end Move

/-- A client and the fates of its payloads. -/
structure History (τ : Type) where
  client : Client τ
  fates : Fates := {}

namespace History

variable {τ : Type} [Transport τ]

/-- Make a move, and note the fates of payloads. -/
def step (h : History τ) (move : Move) : History τ where
  client := move.run h.client
  fates :=
    let o := h.client.pipeline.outbox
    match move, o.queue with
    | .deliver, command :: _ => h.fates.perform o command
    | move, _ => h.fates.postAll o (move.handed h.client)

/-- Make moves one after the other. -/
def run (h : History τ) (moves : List Move) : History τ :=
  moves.foldl step h

end History

/-! ## Balance -/

/-- A sample is not left to chance. -/
abbrev Unsampled (sample : Sample) : Prop :=
  (Task.process sample).IsKept

/-- The samples accepted are those on lines, those waiting and those counted as dropped. -/
structure Balanced {τ : Type} (limits : Limits) (c : Client τ) (f : Fates) : Prop where
  aggregator_eq : c.aggregator = none
  clean : c.pipeline.outbox.Clean limits
  pos : 0 < c.pipeline.shards.length
  limits_eq : ∀ s ∈ c.pipeline.shards, s.packer.current.limits = limits
  unsampled : ∀ s ∈ c.pipeline.shards, ∀ sample ∈ s.waiting, Unsampled sample
  /-- Only a closed client has stopped its receivers. -/
  closed : c.pipeline.intake = .stopped → c.closed = true
  tells : f.Tells c.pipeline.outbox
  total_eq : c.accepted.total =
    f.lines + (c.pipeline.shards.map Shard.load).sum + c.pipeline.overflowed

variable {τ : Type} {limits : Limits} {c : Client τ} {f : Fates}

/-- Without an aggregator, a sample that the client accepts goes to its shard. -/
theorem submit_of_aggregator_eq_none (h : c.aggregator = none) (sample : Sample) :
    c.submit sample =
      if c.closed then (.error .closed, c)
      else
        match sample.validate with
        | .error reason => (.error (.invalidSample reason), c)
        | .ok () =>
          ((c.pipeline.dispatch sample).1,
            { c with
              accepted := c.accepted.count sample
              pipeline := (c.pipeline.dispatch sample).2 }) := by
  have hmerge : merge { c with accepted := c.accepted.count sample } sample =
      (some sample, { c with accepted := c.accepted.count sample }) := by
    unfold merge
    dsimp only
    rw [h]
    cases sample <;> rfl
  cases hvalid : sample.validate with
  | error reason => simp [submit, hvalid]
  | ok valid => simp [submit, hvalid, hmerge]

/-- A shard that takes some of the samples accepted and hands payloads over keeps the balance. -/
theorem Balanced.atShard (h : c.Balanced limits f) {i : Nat} {s : Shard}
    (hs : c.pipeline.shards[i]? = some s) {packer : Packer} {outbox : Outbox τ}
    {payloads : List Payload} {taken : Nat} {waiting : List Sample}
    (hover : Packer.HandsOver limits (s.packer, c.pipeline.outbox) payloads taken (packer, outbox))
    (hwaiting : ∀ sample ∈ waiting, Unsampled sample) (accepted : Accepted) (draws : Draws)
    (htaken : accepted.total + s.waiting.length = c.accepted.total + taken + waiting.length) :
    Balanced limits
      { c with
        accepted
        pipeline :=
          { c.pipeline with
            shards := c.pipeline.shards.set i { s with packer, waiting }, outbox, draws } }
      (f.postAll c.pipeline.outbox payloads) := by
  have houtbox : outbox = c.pipeline.outbox.takeOverAll payloads := hover.outbox_eq
  have hload := hover.load_eq
  -- Only one shard has another load, and it differs by what was taken and handed over.
  have hset := sum_map_set hs { s with packer, waiting } Shard.load
  have htotal := h.total_eq
  subst houtbox
  refine ⟨h.aggregator_eq, h.clean.takeOverAll hover.payloads_limits_eq, by simpa using h.pos, ?_,
    ?_, h.closed, h.tells.takeOverAll payloads, ?_⟩
  · intro t ht
    rcases List.mem_or_eq_of_mem_set ht with hold | rfl
    · exact h.limits_eq t hold
    · exact hover.limits_eq
  · intro t ht
    rcases List.mem_or_eq_of_mem_set ht with hold | rfl
    · exact h.unsampled t hold
    · exact hwaiting
  · rw [Fates.lines_postAll]
    simp only [Shard.load] at hset hload ⊢
    omega

/-- What changes nothing but the queue keeps the balance. -/
theorem Balanced.outbox (h : c.Balanced limits f) {outbox : Outbox τ} {fates : Fates}
    (hclean : outbox.Clean limits) (htells : fates.Tells outbox) (hlines : fates.lines = f.lines) :
    Balanced limits { c with pipeline := { c.pipeline with outbox } } fates :=
  ⟨h.aggregator_eq, hclean, h.pos, h.limits_eq, h.unsampled, h.closed, htells,
    hlines ▸ h.total_eq⟩

/-- A shard that processes a sample writes it to its payload. -/
theorem process_eq {sample : Sample} (hsample : Unsampled sample) (s : Shard) (o : Outbox τ)
    (d : Draws) :
    s.process o d sample =
      ({ s with packer := (s.packer.addSample o sample).1 }, (s.packer.addSample o sample).2, d) :=
  Task.process_of_isKept hsample s o d

/-- A sample that the client accepts goes to its shard, and the balance is kept. -/
theorem Balanced.dispatch (h : c.Balanced limits f) (hopen : ¬c.closed = true) {sample : Sample}
    (hvalid : sample.validate = .ok ()) (hsample : Unsampled sample) :
    Balanced limits
      { c with
        accepted := c.accepted.count sample
        pipeline := (c.pipeline.dispatch sample).2 }
      (f.postAll c.pipeline.outbox ((Move.submit sample).handed c)) := by
  have hlt : c.pipeline.shardOf sample.routingName < c.pipeline.shards.length :=
    Nat.mod_lt _ h.pos
  have hs := List.getElem?_eq_getElem hlt
  generalize c.pipeline.shards[c.pipeline.shardOf sample.routingName] = s at hs
  have hmem := List.mem_of_getElem? hs
  have hcount := Accepted.total_count c.accepted sample
  have htotal := h.total_eq
  cases hintake : c.pipeline.intake with
  | stopped => exact absurd (h.closed hintake) hopen
  | direct =>
    -- The caller writes the sample itself.
    have hhanded : (Move.submit sample).handed c = s.packer.displaced sample := by
      simp [Move.handed, hopen, hvalid, hintake, hs]
    have hover := Packer.handsOver_addSample (h.limits_eq s hmem) h.clean sample
    rw [hhanded, Pipeline.dispatch_of_direct hintake, Pipeline.atShard_of_getElem? hs,
      process_eq hsample]
    exact h.atShard hs hover (h.unsampled s hmem) (c.accepted.count sample) c.pipeline.draws
      (by omega)
  | channels settings =>
    have hhanded : (Move.submit sample).handed c = [] := by
      simp [Move.handed, hintake]
    have hstay : Packer.HandsOver limits (s.packer, c.pipeline.outbox) [] 0
        (s.packer, c.pipeline.outbox) :=
      ⟨rfl, h.limits_eq s hmem, List.forall_mem_nil _, rfl⟩
    have hwaiting : ∀ other ∈ s.waiting ++ [sample], Unsampled other := by
      intro other hother
      rcases List.mem_append.mp hother with hold | hnew
      · exact h.unsampled s hmem other hold
      · exact List.mem_singleton.mp hnew ▸ hsample
    rw [hhanded, Pipeline.dispatch_of_channels hintake]
    cases hroom : s.hasRoom settings.capacity with
    | true =>
      -- The sample waits for the receiver.
      simp only [Pipeline.enqueue, hs, hroom, if_true]
      refine h.atShard hs hstay hwaiting (c.accepted.count sample) c.pipeline.draws ?_
      rw [List.length_append, List.length_singleton]
      omega
    | false =>
      -- The sample is dropped, and that is counted.
      simp only [Pipeline.enqueue, hs, hroom, Bool.false_eq_true, if_false]
      refine ⟨h.aggregator_eq, h.clean, h.pos, h.limits_eq, h.unsampled, h.closed, h.tells, ?_⟩
      show (c.accepted.count sample).total =
        f.lines + (c.pipeline.shards.map Shard.load).sum + (c.pipeline.overflowed + 1)
      omega

/-- Submitting a sample keeps the balance. -/
theorem Balanced.submit (h : c.Balanced limits f) {sample : Sample}
    (hsample : Unsampled sample) :
    Balanced limits (c.submit sample).2
      (f.postAll c.pipeline.outbox ((Move.submit sample).handed c)) := by
  rw [submit_of_aggregator_eq_none h.aggregator_eq]
  by_cases hopen : c.closed = true
  · have hhanded : (Move.submit sample).handed c = [] := by simp [Move.handed, hopen]
    rw [if_pos hopen, hhanded]
    exact h
  · rw [if_neg hopen]
    cases hvalid : sample.validate with
    | error reason =>
      have hhanded : (Move.submit sample).handed c = [] := by simp [Move.handed, hvalid]
      rw [hhanded]
      exact h
    | ok valid => exact h.dispatch hopen hvalid hsample

/-- A receiver that takes a sample out of its channel keeps the balance. -/
theorem Balanced.receive (h : c.Balanced limits f) (i : Nat) :
    Balanced limits { c with pipeline := c.pipeline.receive i }
      (f.postAll c.pipeline.outbox ((Move.receive i).handed c)) := by
  unfold Pipeline.receive
  cases hs : c.pipeline.shards[i]? with
  | none =>
    have hhanded : (Move.receive i).handed c = [] := by simp [Move.handed, hs]
    rw [hhanded, Pipeline.atShard, hs]
    exact h
  | some s =>
    obtain ⟨packer, waiting, held⟩ := s
    have hmem := List.mem_of_getElem? hs
    have hwaiting := h.unsampled _ hmem
    have hstay : Packer.HandsOver limits (packer, c.pipeline.outbox) [] 0
        (packer, c.pipeline.outbox) :=
      ⟨rfl, h.limits_eq _ hmem, List.forall_mem_nil _, rfl⟩
    rw [Pipeline.atShard_of_getElem? hs]
    cases held with
    | some sample =>
      -- The receiver is held up.
      have hhanded : (Move.receive i).handed c = [] := by simp [Move.handed, hs]
      rw [hhanded]
      exact h.atShard hs hstay hwaiting c.accepted c.pipeline.draws rfl
    | none =>
      cases waiting with
      | nil =>
        have hhanded : (Move.receive i).handed c = [] := by simp [Move.handed, hs]
        rw [hhanded]
        exact h.atShard hs hstay hwaiting c.accepted c.pipeline.draws rfl
      | cons sample rest =>
        have hhanded : (Move.receive i).handed c = packer.displaced sample := by
          simp [Move.handed, hs]
        obtain ⟨hsample, hrest⟩ := List.forall_mem_cons.mp hwaiting
        have hover := Packer.handsOver_addSample (h.limits_eq _ hmem) h.clean sample
        rw [hhanded]
        simp only [Shard.receive, process_eq hsample]
        refine h.atShard hs hover hrest c.accepted c.pipeline.draws ?_
        simp only [List.length_cons]
        omega

/-- A shard that hands its payload over keeps the balance. -/
theorem Balanced.handOver (h : c.Balanced limits f) (i : Nat) :
    Balanced limits { c with pipeline := c.pipeline.handOverAt i }
      (f.postAll c.pipeline.outbox ((Move.handOver i).handed c)) := by
  unfold Pipeline.handOverAt
  cases hs : c.pipeline.shards[i]? with
  | none =>
    have hhanded : (Move.handOver i).handed c = [] := by simp [Move.handed, hs]
    rw [hhanded, Pipeline.atShard, hs]
    exact h
  | some s =>
    have hhanded : (Move.handOver i).handed c = s.packer.finished := by simp [Move.handed, hs]
    have hmem := List.mem_of_getElem? hs
    have hover := Packer.handsOver_handOver (h.limits_eq s hmem) h.clean
    rw [hhanded, Pipeline.atShard_of_getElem? hs]
    exact h.atShard hs hover (h.unsampled s hmem) c.accepted c.pipeline.draws rfl

/-- A command that is carried out keeps the balance. -/
theorem Balanced.deliver [Transport τ] (h : c.Balanced limits f) {command : Command}
    {rest : List Command} (hqueue : c.pipeline.outbox.queue = command :: rest) :
    Balanced limits
      { c with pipeline := { c.pipeline with outbox := c.pipeline.outbox.deliverNext } }
      (f.perform c.pipeline.outbox command) := by
  rw [Outbox.deliverNext_of_queue_eq_cons hqueue]
  exact h.outbox (h.clean.perform hqueue) (h.tells.perform hqueue)
    (Fates.lines_perform f _ command)

/-- A move keeps the balance. -/
theorem Balanced.step [Transport τ] {h : History τ} (hb : Balanced limits h.client h.fates)
    {move : Move} (hmove : ∀ sample, move = .submit sample → Unsampled sample) :
    Balanced limits (h.step move).client (h.step move).fates := by
  cases move with
  | submit sample => exact hb.submit (hmove sample rfl)
  | receive i => exact hb.receive i
  | handOver i => exact hb.handOver i
  | deliver =>
    simp only [History.step, Move.run]
    cases hqueue : h.client.pipeline.outbox.queue with
    | nil =>
      rw [Outbox.deliverNext_of_queue_eq_nil hqueue]
      exact hb
    | cons command rest => exact hb.deliver hqueue
  | raise caller =>
    simp only [History.step, Move.run]
    split
    · exact hb.outbox (hb.clean.raise caller) (hb.tells.raise caller) rfl
    · exact hb
  | markClosed =>
    exact ⟨hb.aggregator_eq, hb.clean, hb.pos, hb.limits_eq, hb.unsampled, fun _ => rfl, hb.tells,
      hb.total_eq⟩
  | stopReceivers =>
    simp only [History.step, Move.run]
    split
    next hstop =>
      split
      · exact ⟨hb.aggregator_eq, hb.clean, hb.pos, hb.limits_eq, hb.unsampled,
          fun _ => (Bool.and_eq_true_iff.mp hstop).1, hb.tells, hb.total_eq⟩
      · exact hb
      · exact hb
    · exact hb
  | stopThread =>
    exact hb.outbox ⟨hb.clean.pool, hb.clean.limits_eq⟩ ⟨hb.tells.sent_eq, hb.tells.failed_eq,
      hb.tells.overflowed_eq, hb.tells.admitted_eq, hb.tells.returned_perm⟩ rfl
  | closeTransport =>
    exact hb.outbox ⟨hb.clean.pool, hb.clean.limits_eq⟩ ⟨hb.tells.sent_eq, hb.tells.failed_eq,
      hb.tells.overflowed_eq, hb.tells.admitted_eq, hb.tells.returned_perm⟩ rfl

/-- Moves keep the balance. -/
theorem Balanced.run [Transport τ] {h : History τ} (hb : Balanced limits h.client h.fates)
    {moves : List Move} (hmoves : ∀ sample, .submit sample ∈ moves → Unsampled sample) :
    Balanced limits (h.run moves).client (h.run moves).fates := by
  induction moves generalizing h with
  | nil => exact hb
  | cons move rest ih =>
    refine ih (hb.step fun sample heq => ?_) fun sample hmem => ?_
    · exact hmoves sample (heq ▸ List.mem_cons_self)
    · exact hmoves sample (List.mem_cons_of_mem move hmem)

/-- A new client is in balance: nothing is accepted and nothing is anywhere. -/
theorem balanced_buildWith [Transport τ] {config : Config} {transport : τ} {route : String → Nat}
    {draws : Draws} (hbuild : config.buildWith transport route draws = .ok c)
    (haggregation : config.aggregation = false) : c.Balanced config.limits {} := by
  obtain ⟨hvalid, later, -, rfl⟩ := Config.eq_of_buildWith hbuild
  obtain ⟨pool, hpool, hpipeline⟩ := config.pipeline_eq later route draws
  rw [hpipeline]
  refine ⟨by simp [Config.aggregator, haggregation], ⟨hpool, List.forall_mem_nil _⟩, ?_, ?_, ?_, ?_,
    ⟨rfl, rfl, rfl, rfl, .refl _⟩, ?_⟩
  · simpa using workers_pos hvalid
  · intro s hs
    rw [List.eq_of_mem_replicate hs]
  · intro s hs
    rw [List.eq_of_mem_replicate hs]
    exact List.forall_mem_nil _
  · intro hstopped
    dsimp only at hstopped
    split at hstopped <;> cases hstopped
  · simp [Accepted.total, KindCounts.total, Fates.lines, Shard.load, Packer.load]

/-- A sample that is turned away leaves no trace, and one that a full channel drops is counted
twice: as accepted and as dropped. -/
theorem Balanced.submit_error (h : c.Balanced limits f) (sample : Sample) :
    (((∃ reason, (c.submit sample).1 = .error (.invalidSample reason)) ∨
        (c.submit sample).1 = .error .closed) → (c.submit sample).2 = c) ∧
    ((c.submit sample).1 = .error .channelFull → (c.submit sample).2 =
      { c with
        accepted := c.accepted.count sample
        pipeline := { c.pipeline with overflowed := c.pipeline.overflowed + 1 } }) := by
  rw [submit_of_aggregator_eq_none h.aggregator_eq]
  by_cases hopen : c.closed = true
  · rw [if_pos hopen]
    exact ⟨fun _ => rfl, fun hfull => by cases hfull⟩
  rw [if_neg hopen]
  cases hvalid : sample.validate with
  | error reason => exact ⟨fun _ => rfl, fun hfull => by cases hfull⟩
  | ok valid =>
    dsimp only
    obtain htaken | hfull | ⟨hstopped, -⟩ := c.pipeline.dispatch_cases sample
    · rw [htaken]
      exact ⟨fun hrefused => by simp at hrefused, fun hfull => by cases hfull⟩
    · rw [hfull]
      exact ⟨fun hrefused => by simp at hrefused, fun _ => rfl⟩
    · exact absurd (h.closed hstopped) hopen

/-- In whatever order callers submit samples, receivers take them, shards hand payloads over,
payloads are written and the client is closed: every sample accepted is in a payload that was sent,
dropped or is waiting, in a payload being filled, in a channel, or counted as dropped. A sample that
is turned away changes nothing, and one that finds its channel full only two counters. -/
theorem conservation [Transport τ] {config : Config} {transport : τ} {route : String → Nat}
    {draws : Draws} {client : Client τ}
    (hbuild : config.buildWith transport route draws = .ok client)
    (haggregation : config.aggregation = false) (moves : List Move)
    (hrate : ∀ m, .submit (.metric m) ∈ moves → m.rate = 1.0) :
    let h := History.run { client } moves
    let c := h.client
    let p := c.pipeline
    let t := c.telemetry
    t.accepted.points.gauge + t.accepted.points.count + t.accepted.points.set +
        t.accepted.points.histogram + t.accepted.points.distribution + t.accepted.points.timing +
        t.accepted.events + t.accepted.serviceChecks =
      linesIn h.fates.sent + (linesIn h.fates.refused + linesIn h.fates.failed) +
        linesIn (Outbox.waiting p.outbox.queue) +
        (p.shards.map (·.packer.current.lines)).sum + (p.shards.map (·.waiting.length)).sum +
        t.oversized + t.overflowed ∧
    -- The fates are those that the counters tell.
    t.ledger.sent = .ofTexts (h.fates.sent.map Payload.text) ∧
    t.ledger.overflowed = .ofTexts (h.fates.refused.map Payload.text) ∧
    t.ledger.failed = .ofTexts (h.fates.failed.map Payload.text) ∧
    ∀ sample : Sample,
      (((∃ reason, (c.submit sample).1 = .error (.invalidSample reason)) ∨
          (c.submit sample).1 = .error .closed) → (c.submit sample).2 = c) ∧
      ((c.submit sample).1 = .error .channelFull → (c.submit sample).2 =
        { c with
          accepted := c.accepted.count sample
          pipeline := { p with overflowed := p.overflowed + 1 } }) := by
  intro h c p t
  have hmoves : ∀ sample, .submit sample ∈ moves → Unsampled sample := by
    intro sample hmem
    cases sample with
    | metric m =>
      have hone : (1.0 : Float) ≤ 1.0 := by decide
      show 1.0 ≤ m.rate
      rw [hrate m hmem]
      exact hone
    | event e => trivial
    | serviceCheck check => trivial
  have hbalanced : Balanced config.limits c h.fates :=
    (balanced_buildWith hbuild haggregation).run hmoves
  refine ⟨?_, hbalanced.tells.sent_eq, hbalanced.tells.overflowed_eq, hbalanced.tells.failed_eq,
    hbalanced.submit_error⟩
  have htotal := hbalanced.total_eq
  rw [Shard.sum_load, hbalanced.tells.lines_eq] at htotal
  show c.accepted.total = _ + _ + linesIn (Outbox.waiting c.pipeline.outbox.queue) +
    (c.pipeline.shards.map (·.packer.current.lines)).sum +
    (c.pipeline.shards.map (·.waiting.length)).sum +
    Shard.oversizedTogether c.pipeline.shards + c.pipeline.overflowed
  omega

/-- Of four counts, one finds the channel full, one is in a payload whose write fails, one waits
to be written, and one is in the payload being filled. -/
theorem conservation_four_counts :
    let config : Config :=
      { limits := ⟨16, 1⟩, poolSize := 1, workers := 1, aggregation := false, channelMode := true
        channels := ⟨1, true⟩ }
    let client : Client Scripted :=
      { aggregator := config.aggregator
        pipeline := config.pipeline
          { failsWrite := fun i => i == 0, timeout := some config.writeTimeout } (fun _ => 0)
          { word := fun _ => 0 } }
    let count (value : Int64) : Move := .submit (.metric { name := "a", value := .count value })
    let moves : List Move :=
      [count 1, count 2, .receive 0, count 3, .receive 0, .deliver, count 4, .receive 0]
    config.buildWith { failsWrite := fun i => i == 0 } (fun _ => 0) { word := fun _ => 0 } =
      .ok client ∧
    let h := History.run { client } moves
    h.client.telemetry.overflowed = 1 ∧ h.client.telemetry.ledger.failed = ⟨1, 6⟩ ∧
    linesIn h.fates.sent + (linesIn h.fates.refused + linesIn h.fates.failed) +
      linesIn (Outbox.waiting h.client.pipeline.outbox.queue) +
      (h.client.pipeline.shards.map (·.packer.current.lines)).sum +
      (h.client.pipeline.shards.map (·.waiting.length)).sum +
      h.client.telemetry.oversized + h.client.telemetry.overflowed = 4 := by
  intro config client count moves
  have hbuild : config.buildWith { failsWrite := fun i => i == 0 } (fun _ => 0)
      { word := fun _ => 0 } = .ok client := rfl
  have hrate : ∀ m, .submit (.metric m) ∈ moves → m.rate = 1.0 := by
    intro m hm
    simp only [moves, count, List.mem_cons, Move.submit.injEq, Sample.metric.injEq,
      List.not_mem_nil, or_false, reduceCtorEq, false_or] at hm
    rcases hm with rfl | rfl | rfl | rfl <;> rfl
  have hkept := (conservation hbuild rfl moves hrate).1
  exact ⟨hbuild, by decide +kernel, by decide +kernel, hkept.symm.trans (by decide +kernel)⟩

end Client

end DogStatsD
