import DogStatsD.Proofs.Packer.Greedy
import DogStatsD.Shard
import DogStatsD.Transport.Scripted

/-!
# Packing in Shards

A shard whose samples all pass sampling packs greedily, whatever is asked of it and whatever the
thread of the outbox does in between. The rule goes along with the shard before an outbox of its
own, which it gives each payload at the moment the payload is closed.

* `Task.Follows`: a shard and its outbox are where the rule and its outbox are;
* `Task.Follows.run`, `Task.Follows.runAll`: a task keeps it so, hence every run does;
* `packing_eq_greedy`: what a run of a shard hands over, fills and drops.
-/

namespace DogStatsD

/-- What is asked of a shard, or done to the outbox behind it. -/
inductive Task where
  | process (sample : Sample)
  | flushed (metric : Metric)
  | flush
  | deliver

namespace Task

/-- The line that a task asks to write. -/
def line (o : Line.Options) : Task → Option String
  | .process s => some (Line.ofSample o s)
  | .flushed m => some (Line.ofMetric o m)
  | .flush | .deliver => none

/-- Nothing is left to sampling: a metric that is processed has a rate of one or more. -/
def IsKept : Task → Prop
  | .process (.metric m) => 1.0 ≤ m.rate
  | .process (.event _) | .process (.serviceCheck _) | .flushed _ | .flush | .deliver => True

instance : DecidablePred IsKept
  | .process (.metric m) => inferInstanceAs (Decidable (1.0 ≤ m.rate))
  | .process (.event _) | .process (.serviceCheck _) | .flushed _ | .flush | .deliver =>
    .isTrue trivial

/-- A sample that is not left to sampling is kept without a draw. -/
theorem keeps_of_isKept {sample : Sample} (h : (Task.process sample).IsKept) (d : Draws) :
    Shard.keeps d sample = (true, d) := by
  cases sample with
  | metric m => exact if_pos h
  | event e => rfl
  | serviceCheck c => rfl

variable {τ : Type} [Transport τ]

/-- Carry out a task with a shard before an outbox. -/
def run : Shard × Outbox τ × Draws → Task → Shard × Outbox τ × Draws
  | (s, o, d), .process sample => s.process o d sample
  | (s, o, d), .flushed m =>
    let (s, o) := s.put o (.metric m)
    (s, o, d)
  | (s, o, d), .flush =>
    let (s, o) := s.handOver o
    (s, o, d)
  | (s, o, d), .deliver => (s, o.deliverNext, d)

/-- Carry out tasks one after the other. -/
def runAll (start : Shard × Outbox τ × Draws) (tasks : List Task) : Shard × Outbox τ × Draws :=
  tasks.foldl run start

end Task

namespace Packing

/-- Follow a task. -/
def follow (options : Line.Options) (limits : Limits) (g : Packing) : Task → Packing
  | .process s => g.add limits (Line.ofSample options s)
  | .flushed m => g.add limits (Line.ofMetric options m)
  | .flush => g.close
  | .deliver => g

variable {τ : Type} [Transport τ]

/-- Follow a task before an outbox, which is given what is closed. -/
def followBefore (options : Line.Options) (limits : Limits) :
    Packing × Outbox τ → Task → Packing × Outbox τ
  | (g, o), .deliver => (g, o.deliverNext)
  | (g, o), task =>
    let later := g.follow options limits task
    (later, g.handOverSince limits later o)

/-- Follow tasks one after the other. -/
def followAll (options : Line.Options) (limits : Limits) (start : Packing × Outbox τ)
    (tasks : List Task) : Packing × Outbox τ :=
  tasks.foldl (followBefore options limits) start

/-! ## The rule over a run -/

/-- Following a task keeps the rule, for the lines so far and the one that the task writes. -/
theorem Sound.follow {limits : Limits} (hpos : 1 ≤ limits.maxLines) {lines : List String}
    {g : Packing} (h : g.Sound limits lines) (options : Line.Options) (t : Task) :
    (g.follow options limits t).Sound limits (lines ++ (t.line options).toList) := by
  cases t with
  | process s => exact h.add hpos _
  | flushed m => exact h.add hpos _
  | flush => simpa [Task.line, Packing.follow] using h.close
  | deliver => simpa [Task.line, Packing.follow] using h

/-- What is closed stays closed. -/
theorem closed_prefix_follow (options : Line.Options) (limits : Limits) (g : Packing) (t : Task) :
    g.closed <+: (g.follow options limits t).closed := by
  have hclose : g.closed <+: g.close.closed := by
    unfold close
    split
    · exact List.prefix_rfl
    · exact List.prefix_append _ _
  have hadd (line : String) : g.closed <+: (g.add limits line).closed := by
    unfold add
    split
    · exact hclose
    · split
      · exact List.prefix_rfl
      · exact hclose
  cases t with
  | process s => exact hadd _
  | flushed m => exact hadd _
  | flush => exact hclose
  | deliver => exact List.prefix_rfl

/-- Following a task before an outbox is following it. -/
theorem followBefore_fst (options : Line.Options) (limits : Limits) (start : Packing × Outbox τ)
    (t : Task) : (followBefore options limits start t).1 = start.1.follow options limits t := by
  cases t <;> rfl

/-- Following tasks keeps the rule. -/
theorem Sound.followAll {limits : Limits} {lines : List String} (start : Packing × Outbox τ)
    (h : start.1.Sound limits lines) (hpos : 1 ≤ limits.maxLines) (options : Line.Options)
    (tasks : List Task) :
    (Packing.followAll options limits start tasks).1.Sound limits
      (lines ++ tasks.filterMap (·.line options)) := by
  induction tasks generalizing start lines with
  | nil => simpa [Packing.followAll] using h
  | cons t rest ih =>
    have hstep : (followBefore options limits start t).1.Sound limits
        (lines ++ (t.line options).toList) := by
      rw [followBefore_fst]
      exact h.follow hpos options t
    have hlines : (t :: rest).filterMap (·.line options) =
        (t.line options).toList ++ rest.filterMap (·.line options) := by
      cases hline : t.line options <;> simp [hline]
    rw [hlines, ← List.append_assoc]
    exact ih _ hstep

/-! ## The outbox of the rule -/

omit [Transport τ] in
/-- What was handed over in two steps was handed over. -/
theorem handOverSince_trans {limits : Limits} {first second third : Packing}
    (hfirst : first.closed <+: second.closed) (hsecond : second.closed <+: third.closed)
    (o : Outbox τ) :
    second.handOverSince limits third (first.handOverSince limits second o) =
      first.handOverSince limits third o := by
  obtain ⟨more, hmore⟩ := hfirst
  obtain ⟨rest, hrest⟩ := hsecond
  simp [handOverSince, ← hrest, ← hmore]

/-- Without deliveries, the outbox was given what was closed since the start, and nothing else. -/
theorem followAll_snd {options : Line.Options} {limits : Limits} {start : Packing × Outbox τ}
    {tasks : List Task} (h : Task.deliver ∉ tasks) :
    start.1.closed <+: (followAll options limits start tasks).1.closed ∧
      (followAll options limits start tasks).2 =
        start.1.handOverSince limits (followAll options limits start tasks).1 start.2 := by
  induction tasks generalizing start with
  | nil => exact ⟨List.prefix_rfl, (handOverSince_self rfl start.2).symm⟩
  | cons t rest ih =>
    obtain ⟨hne, hrest⟩ := not_or.mp (mt List.mem_cons.mpr h)
    obtain ⟨hbefore, houtbox⟩ := @ih (followBefore options limits start t) hrest
    have hstep : (followBefore options limits start t).2 =
        start.1.handOverSince limits (start.1.follow options limits t) start.2 := by
      cases t with
      | deliver => exact absurd rfl hne
      | process s => rfl
      | flushed m => rfl
      | flush => rfl
    -- What the first task closes is handed over first, and what the others close after it.
    have hgrow := closed_prefix_follow options limits start.1 t
    rw [followBefore_fst] at hbefore
    refine ⟨hgrow.trans hbefore, houtbox.trans ?_⟩
    rw [followBefore_fst, hstep]
    exact handOverSince_trans hgrow hbefore start.2

omit [Transport τ] in
/-- A queue with room for all payloads that are handed over holds them in order. -/
theorem queue_handOver {limits : Limits} (packed : List (List String)) {o : Outbox τ}
    (hroom : o.queue.length + packed.length ≤ o.capacity) :
    (packed.foldl (fun o lines => o.takeOver (.ofLines limits lines)) o).queue =
      o.queue ++ packed.map fun lines => .payload (.ofLines limits lines) := by
  induction packed generalizing o with
  | nil => simp
  | cons lines rest ih =>
    rw [List.length_cons] at hroom
    -- Borrowing takes a payload out of the pool, not a place in the queue.
    have hfree : o.borrow.2.hasRoom = true := by
      have hlength : o.queue.length < o.capacity := by omega
      simp [Outbox.hasRoom, Outbox.borrow, hlength]
    have htake : o.takeOver (.ofLines limits lines) =
        { o.borrow.2 with queue := o.queue ++ [.payload (.ofLines limits lines)] } := by
      rw [Outbox.takeOver, Outbox.post, if_pos hfree]
      rfl
    rw [List.foldl_cons, ih, htake]
    · simp
    · rw [htake]
      simp only [List.length_append, List.length_singleton, Outbox.borrow]
      omega

end Packing

/-! ## Shards and the rule -/

namespace Task

variable {τ : Type} {options : Line.Options} {limits : Limits}

/-- A shard and its outbox are where the rule and its outbox are, and no draw was made. -/
structure Follows (options : Line.Options) (limits : Limits) (d : Draws)
    (shard : Shard × Outbox τ × Draws) (rule : Packing × Outbox τ) : Prop where
  describes : rule.1.Describes options limits shard.1.packer
  /-- Both outboxes were given the same. -/
  outbox_eq : shard.2.1 = rule.2
  /-- Only empty payloads come out of the outbox. -/
  clean : shard.2.1.Clean limits
  /-- No sample was left to sampling. -/
  draws_eq : shard.2.2 = d

variable [Transport τ] {d : Draws} {shard : Shard × Outbox τ × Draws} {rule : Packing × Outbox τ}

omit [Transport τ] in
theorem process_of_isKept {sample : Sample} (hkept : (Task.process sample).IsKept) (s : Shard)
    (o : Outbox τ) (d : Draws) :
    s.process o d sample =
      ({ s with packer := (s.packer.addSample o sample).1 },
        (s.packer.addSample o sample).2, d) := by
  simp [Shard.process, keeps_of_isKept hkept, Shard.put, Packer.add]

omit [Transport τ] in
/-- A packer and an outbox that have made a step of the rule are where the rule is. -/
theorem Follows.of_step (h : Follows options limits d shard rule) {later : Packing}
    {s : Shard} {o : Outbox τ}
    (hstep : later.Describes options limits s.packer ∧
      o = rule.1.handOverSince limits later shard.2.1) :
    Follows options limits d (s, o, d) (later, rule.1.handOverSince limits later rule.2) := by
  obtain ⟨hdescribes, rfl⟩ := hstep
  exact ⟨hdescribes, by rw [h.outbox_eq], Packing.clean_handOverSince h.clean _ _, rfl⟩

/-- A task keeps a shard with the rule. -/
theorem Follows.run (hpos : 1 ≤ limits.maxLines) (h : Follows options limits d shard rule)
    {t : Task} (hkept : t.IsKept) :
    Follows options limits d (t.run shard) (Packing.followBefore options limits rule t) := by
  obtain ⟨s, o, draws⟩ := shard
  obtain rfl : draws = d := h.draws_eq
  -- A task that writes is a step of the packer, and delivering one of both outboxes.
  cases t with
  | process sample =>
    rw [Task.run, process_of_isKept hkept]
    exact h.of_step (h.describes.addSample hpos h.clean sample)
  | flushed m => exact h.of_step (h.describes.addSample hpos h.clean (.metric m))
  | flush => exact h.of_step (h.describes.handOver h.clean)
  | deliver =>
    exact ⟨h.describes, congrArg Outbox.deliverNext h.outbox_eq, h.clean.deliverNext, rfl⟩

/-- Tasks keep a shard with the rule. -/
theorem Follows.runAll (hpos : 1 ≤ limits.maxLines) (h : Follows options limits d shard rule)
    {tasks : List Task} (hkept : ∀ t ∈ tasks, t.IsKept) :
    Follows options limits d (Task.runAll shard tasks)
      (Packing.followAll options limits rule tasks) := by
  induction tasks generalizing shard rule with
  | nil => exact h
  | cons t rest ih =>
    obtain ⟨hfirst, hrest⟩ := List.forall_mem_cons.mp hkept
    exact ih (h.run hpos hfirst) hrest

end Task

/-- From a fresh start, and as long as nothing is left to sampling, a shard packs the lines that it
is asked to write by the greedy rule. The payload it is filling and the number of lines it has
dropped are those of the rule; its outbox is as if given, one by one as they are closed, the
payloads that the rule closes, so that a queue with room for all of them holds just these if none is
delivered. The payloads hold every line that fits into a payload once and in order, and none of the
others, which are counted; those handed over are not empty, and all are within both limits. -/
theorem packing_eq_greedy {τ : Type} [Transport τ] (options : Line.Options) (limits : Limits)
    (hpos : 1 ≤ limits.maxLines) (poolCapacity queueCapacity : Nat) (running : Bool) (transport : τ)
    (d : Draws) (tasks : List Task) (hkept : ∀ t ∈ tasks, t.IsKept) :
    let pool := Pool.new poolCapacity limits
    let start := Packer.new options { capacity := queueCapacity, running, transport, pool }
    let shard := Task.runAll ({ packer := start.1 }, start.2, d) tasks
    let rule := Packing.followAll options limits ({}, start.2) tasks
    let g := rule.1
    let lines := tasks.filterMap (·.line options)
    shard.1.packer.current = .ofLines limits g.current ∧ shard.1.packer.oversized = g.dropped ∧
    shard.2.1 = rule.2 ∧
    (Task.deliver ∉ tasks → g.closed.length ≤ queueCapacity →
      shard.2.1.queue = g.closed.map fun packed => .payload (.ofLines limits packed)) ∧
    g.closed.flatten ++ g.current = lines.filter (fun line => line.utf8ByteSize ≤ limits.maxBytes) ∧
    g.dropped = lines.countP (fun line => limits.maxBytes < line.utf8ByteSize) ∧
    (∀ packed ∈ g.closed, packed ≠ []) ∧
    ∀ packed ∈ g.closed ++ [g.current],
      packed.length ≤ limits.maxLines ∧ joinedSize packed ≤ limits.maxBytes := by
  intro pool start shard rule
  have hclean : ({ capacity := queueCapacity, running, transport, pool } : Outbox τ).Clean limits :=
    ⟨Pool.clean_new poolCapacity limits, by simp⟩
  have hstart : Task.Follows options limits d ({ packer := start.1 }, start.2, d) ({}, start.2) :=
    ⟨⟨rfl, hclean.borrow_fst, rfl⟩, rfl, hclean.borrow_snd, rfl⟩
  have hfollows := hstart.runAll hpos hkept
  have hsound := Packing.Sound.followAll ({}, start.2) (Packing.sound_nil limits) hpos options
    tasks
  refine ⟨hfollows.describes.current_eq, hfollows.describes.oversized_eq, hfollows.outbox_eq,
    ?_, hsound.flatten_eq, hsound.dropped_eq, hsound.closed_ne_nil, hsound.within⟩
  intro hquiet hroom
  -- The queue is empty at first, and nothing is closed.
  rw [hfollows.outbox_eq, (Packing.followAll_snd hquiet).2, Packing.handOverSince,
    Packing.queue_handOver]
  · rfl
  · exact (Nat.zero_add _).trans_le hroom

/-- Three counts go into payloads of at most twelve bytes and two lines: the second fits beside the
first, the third does not. A service check is too long, and closes the payload of the third. -/
theorem packing_eq_greedy_three_counts :
    let count (value : Int64) : Metric := { name := "a", value := .count value }
    let tasks : List Task := [.process (.metric (count 1)), .flushed (count 2), .deliver,
      .process (.metric (count 3)), .process (.serviceCheck { name := "deploy", status := .ok })]
    let transport : Scripted := {}
    let start := Packer.new {} { capacity := 4, transport, pool := Pool.new 1 ⟨12, 2⟩ }
    let d : Draws := { word := fun _ => 0 }
    let shard := Task.runAll ({ packer := start.1 }, start.2, d) tasks
    1 ≤ (⟨12, 2⟩ : Limits).maxLines ∧ (∀ t ∈ tasks, t.IsKept) ∧
    shard.1.packer.current = .ofLines ⟨12, 2⟩ [] ∧ shard.1.packer.oversized = 1 := by
  intro count tasks transport start d shard
  have hkept : ∀ t ∈ tasks, t.IsKept := by
    intro t hmem
    simp only [tasks, List.mem_cons, List.not_mem_nil, or_false] at hmem
    have hrate (value : Int64) : (Task.process (.metric (count value))).IsKept :=
      show (1.0 : Float) ≤ 1.0 by decide
    rcases hmem with rfl | rfl | rfl | rfl | rfl
    · exact hrate 1
    · exact trivial
    · exact trivial
    · exact hrate 3
    · exact trivial
  have hpacked := packing_eq_greedy {} ⟨12, 2⟩ (by decide) 1 4 false transport d tasks hkept
  refine ⟨by decide, hkept, hpacked.1.trans ?_, hpacked.2.1.trans ?_⟩
  · decide +kernel
  · decide +kernel

end DogStatsD
