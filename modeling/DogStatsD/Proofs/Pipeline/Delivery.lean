import DogStatsD.Proofs.Packer.Points
import DogStatsD.Proofs.Pipeline.Shards

/-!
# What a Pipeline Delivers

Shards put their payloads on the wire as these fill up, so that points of different names change
places. Points of one name do not: all of them come from the shard of the name, its home, which
keeps them in order.

* `Pipeline.home`: the shard of a name;
* `Pipeline.Delivers`: of each name, the points on the wire and those held at home are, in order,
  those of the entries written so far, unless something was lost;
* `Delivers.put`, `Delivers.putAll`, `Delivers.handOver`, `Delivers.flush`: what the operations of a
  pipeline add to these.
-/

namespace DogStatsD

open Server

def named (name : String) (points : List Point) : List Point :=
  points.filter (·.1.name = name)

@[simp]
theorem named_append (name : String) (front back : List Point) :
    named name (front ++ back) = named name front ++ named name back :=
  List.filter_append ..

@[simp]
theorem named_nil (name : String) : named name [] = [] := rfl

theorem named_eq_nil {name : String} {points : List Point}
    (h : ∀ point ∈ points, point.1.name ≠ name) : named name points = [] := by
  simpa [named] using h

/-- What does not come in does not go out or stay. -/
theorem named_eq_nil_of_append {name : String} {gone later before more : List Point}
    (h : gone ++ later = before ++ more) (hbefore : named name before = [])
    (hmore : named name more = []) : named name gone = [] ∧ named name later = [] := by
  have hnone := congrArg (named name) h
  rw [named_append, named_append, hbefore, hmore] at hnone
  exact List.append_eq_nil_iff.mp hnone

/-! ## Shards -/

namespace Shard

/-- A shard has nothing in its channel. -/
structure Idle (options : Line.Options) (limits : Limits) (s : Shard) : Prop where
  packer : s.packer.Ready options limits
  waiting : s.waiting = []
  held : s.held = none

end Shard

namespace Pipeline

/-- Everything lost: entries that did not fit, and payloads. -/
def lost {τ : Type} (p : Pipeline τ) : Nat :=
  Shard.oversizedTogether p.shards + p.outbox.lost

/-- The shard that the points with a name come from. Shards are chosen by the name without the
namespace. -/
def home {τ : Type} (options : Line.Options) (p : Pipeline τ) (name : String) : Nat :=
  p.shardOf (String.ofList (name.toList.drop (options.metricNamespace.getD "").toList.length))

/-- The home of a name in its namespace is the shard of the name. -/
theorem home_append {τ : Type} (options : Line.Options) (p : Pipeline τ) (name : String) :
    p.home options (options.metricNamespace.getD "" ++ name) = p.shardOf name := by
  rw [home, String.toList_append, List.drop_left, String.ofList_toList]

/-- What was written is on the wire or held at home, unless something was lost. -/
structure Delivers (options : Line.Options) (limits : Limits) (p : Pipeline Scripted)
    (points : List Point) : Prop where
  direct : p.intake = .direct
  pos : 0 < p.shards.length
  idle : ∀ s ∈ p.shards, s.Idle options limits
  clean : p.outbox.Clean limits
  /-- The points of a name are on the wire and at its home, in order. -/
  at_home : p.lost = 0 → ∀ name s, p.shards[p.home options name]? = some s →
    named name (p.outbox.points ++ s.packer.points) = named name points
  /-- No other shard holds points of the name. -/
  elsewhere : p.lost = 0 → ∀ name i s, p.shards[i]? = some s → p.home options name ≠ i →
    named name s.packer.points = []

variable {options : Line.Options} {limits : Limits} {p : Pipeline Scripted}
  {points more : List Point}

/-- What happens in one shard and in the outbox adds the points that are passed on, provided that
they are at home there. -/
theorem Delivers.atShard (h : p.Delivers options limits points) {i : Nat} {s : Shard}
    (hs : p.shards[i]? = some s) {packer : Packer} {outbox : Outbox Scripted}
    (hpass : Packer.Passes options limits (s.packer, p.outbox) more (packer, outbox))
    (hmore : ∀ name, p.home options name ≠ i → named name more = []) (draws : Draws) :
    Delivers options limits
      { p with shards := p.shards.set i { s with packer }, outbox, draws } (points ++ more) := by
  have hidle := h.idle s (List.mem_of_getElem? hs)
  have hover := Shard.oversizedTogether_set hs { s with packer }
  have hoversized : s.packer.oversized ≤ packer.oversized := hpass.oversized_le
  have hlost : p.outbox.lost ≤ outbox.lost := hpass.lost_le
  dsimp only at hover
  -- If nothing is lost in the end, nothing was lost before, and no point goes missing here.
  have hkept
      (hzero : Shard.oversizedTogether (p.shards.set i { s with packer }) + outbox.lost = 0) :
      p.lost = 0 ∧ ∃ gone, outbox.points = p.outbox.points ++ gone ∧
        gone ++ packer.points = s.packer.points ++ more :=
    ⟨by rw [Pipeline.lost]; omega,
      hpass.points_eq (show packer.oversized = s.packer.oversized by omega)
        (show outbox.lost = p.outbox.lost by omega)⟩
  have hhome (name : String) : home options
      { p with shards := p.shards.set i { s with packer }, outbox, draws } name =
        p.home options name := by
    simp [home, shardOf]
  -- Nothing that belongs elsewhere goes through this shard.
  have hforeign {gone : List Point} (hgone : gone ++ packer.points = s.packer.points ++ more)
      (hzero : p.lost = 0) {name : String} (hne : p.home options name ≠ i) :
      named name gone = [] ∧ named name packer.points = [] :=
    named_eq_nil_of_append hgone (h.elsewhere hzero name i s hs hne) (hmore name hne)
  refine ⟨h.direct, by simpa using h.pos, ?_, hpass.clean, ?_, ?_⟩
  · intro t ht
    rcases List.mem_or_eq_of_mem_set ht with hold | rfl
    · exact h.idle t hold
    · exact ⟨hpass.ready, hidle.waiting, hidle.held⟩
  · intro hzero name t ht
    obtain ⟨hbefore, gone, hwire, hgone⟩ := hkept hzero
    rw [hhome] at ht
    dsimp only at ht ⊢
    rw [hwire]
    by_cases hsame : p.home options name = i
    · -- At home, what went on the wire and what stays are in order again.
      obtain rfl : { s with packer } = t := by
        rw [hsame, List.getElem?_set_self (List.getElem?_eq_some_iff.mp hs).1] at ht
        exact Option.some.inj ht
      rw [List.append_assoc, hgone, ← List.append_assoc, named_append,
        h.at_home hbefore name s (hsame ▸ hs), named_append]
    · -- The home is another shard, and nothing of the name went on the wire.
      rw [List.getElem?_set_ne (Ne.symm hsame)] at ht
      have hold := h.at_home hbefore name t ht
      rw [named_append] at hold
      rw [named_append, named_append, (hforeign hgone hbefore hsame).1, List.append_nil, hold,
        named_append, hmore name hsame, List.append_nil]
  · intro hzero name j t ht hne
    obtain ⟨hbefore, gone, -, hgone⟩ := hkept hzero
    rw [hhome] at hne
    dsimp only at ht
    by_cases hsame : i = j
    · subst hsame
      obtain rfl : { s with packer } = t := by
        rw [List.getElem?_set_self (List.getElem?_eq_some_iff.mp hs).1] at ht
        exact Option.some.inj ht
      exact (hforeign hgone hbefore hne).2
    · rw [List.getElem?_set_ne hsame] at ht
      exact h.elsewhere hbefore name j t ht hne

/-- Deliveries change nothing. -/
theorem Delivers.outbox (h : p.Delivers options limits points) {later : Outbox Scripted}
    (hpass : p.outbox.Passes limits [] later) :
    Delivers options limits { p with outbox := later } points := by
  have hlost := hpass.lost_le
  -- As nothing is lost in the end, the wire is the same.
  have hbefore (hzero : Shard.oversizedTogether p.shards + later.lost = 0) :
      p.lost = 0 ∧ later.points = p.outbox.points := by
    refine ⟨by rw [Pipeline.lost]; omega, ?_⟩
    rw [Outbox.points, hpass.wire_eq (by omega), List.append_nil]
    rfl
  refine ⟨h.direct, h.pos, h.idle, hpass.clean, ?_, ?_⟩
  · intro hzero name s hs
    dsimp only
    rw [(hbefore hzero).2]
    exact h.at_home (hbefore hzero).1 name s hs
  · intro hzero name i s hs hne
    exact h.elsewhere (hbefore hzero).1 name i s hs hne

/-! ## Entries -/

/-- Writing an entry adds its points. -/
theorem Delivers.put (h : p.Delivers options limits points) (hoptions : options.IsPlain)
    {e : Entry} (he : e.IsPlain options) :
    (p.put e).Delivers options limits (points ++ e.points options) := by
  have hlt : p.shardOf e.routingName < p.shards.length := Nat.mod_lt _ h.pos
  have hs := List.getElem?_eq_getElem hlt
  have hready := (h.idle _ (List.getElem_mem hlt)).packer
  unfold Pipeline.put Pipeline.atShard
  rw [hs]
  refine h.atShard hs (Packer.passes_add hoptions hready h.clean he) (fun name hne => ?_) p.draws
  -- The points of the entry have its name, whose home this shard is.
  refine named_eq_nil ?_
  intro point hmem
  rintro rfl
  rw [name_of_mem_points hmem, home_append] at hne
  exact hne rfl

/-- Writing entries adds their points, one entry after the other. -/
theorem Delivers.putAll (h : p.Delivers options limits points) (hoptions : options.IsPlain)
    {entries : List Entry} (hentries : ∀ e ∈ entries, e.IsPlain options) :
    (p.putAll entries).Delivers options limits
      (points ++ entries.flatMap (Entry.points options)) := by
  unfold Pipeline.putAll
  induction entries generalizing p points with
  | nil => simpa using h
  | cons e rest ih =>
    obtain ⟨he, hrest⟩ := List.forall_mem_cons.mp hentries
    have hput := h.put hoptions he
    rw [List.foldl_cons, List.flatMap_cons, ← List.append_assoc]
    exact ih (hput.outbox (Outbox.passes_catchUp hput.clean)) hrest

/-- A metric that is not left to sampling is written as it is. -/
theorem dispatch_eq_put {τ : Type} {p : Pipeline τ} (h : p.intake = .direct) {m : Metric}
    (hrate : 1.0 ≤ m.rate) : p.dispatch (.metric m) = (.ok (), p.put (.metric m)) := by
  have hkeeps (d : Draws) : Shard.keeps d (.metric m) = (true, d) := if_pos hrate
  unfold Pipeline.dispatch
  rw [h]
  simp only [Shard.process, hkeeps]
  rfl

/-! ## Handing over -/

/-- Hand over the payload of a shard, and let the thread of the outbox catch up. -/
def handOverShard (s : Shard) (o : Outbox Scripted) (d : Draws) :
    Shard × Outbox Scripted × Draws :=
  let (s, o) := s.handOver o
  (s, o.catchUp, d)

/-- Handing over the payloads of some shards keeps what is delivered; nothing is held there then. -/
theorem delivers_overShards (first rest : List Shard)
    (h : p.Delivers options limits points) (hshards : p.shards = first ++ rest) :
    let later := overShards handOverShard p.outbox p.draws rest
    Delivers options limits
      { p with shards := first ++ later.1, outbox := later.2.1, draws := later.2.2 } points ∧
    later.1.length = rest.length ∧ ∀ s ∈ later.1, s.packer.points = [] := by
  induction rest generalizing p first with
  | nil =>
    have hsame : { p with shards := first ++ [] } = p := by rw [← hshards]
    exact ⟨show Delivers options limits { p with shards := first ++ [] } points from hsame ▸ h, rfl,
      List.forall_mem_nil _⟩
  | cons s rest ih =>
    have hs : p.shards[first.length]? = some s := by simp [hshards]
    have hready := (h.idle s (List.mem_of_getElem? hs)).packer
    have hpass : Packer.Passes options limits (s.packer, p.outbox) []
        ((s.packer.handOver p.outbox).1, (s.packer.handOver p.outbox).2) :=
      Packer.passes_handOver hready h.clean
    have hover := h.atShard hs hpass (fun _ _ => rfl) p.draws
    rw [List.append_nil] at hover
    have hnext := hover.outbox (Outbox.passes_catchUp hover.clean)
    -- The shard joins those before it, and the others go on from there.
    obtain ⟨hrest, hlength, hempty⟩ := ih (first ++ [(s.handOver p.outbox).1]) hnext (by
      simp [hshards, Shard.handOver])
    refine ⟨?_, congrArg (· + 1) hlength, List.forall_mem_cons.mpr ⟨?_, hempty⟩⟩
    · rw [List.append_assoc] at hrest
      exact hrest
    · exact Packer.points_handOver hready h.clean

/-- Handing over all payloads keeps what is delivered; nothing is held then. -/
theorem Delivers.handOver (h : p.Delivers options limits points) :
    p.handOver.Delivers options limits points ∧ ∀ s ∈ p.handOver.shards, s.packer.points = [] := by
  obtain ⟨hdelivers, -, hempty⟩ := delivers_overShards [] p.shards h rfl
  exact ⟨hdelivers, hempty⟩

/-- After a flush, and if nothing was lost, the points of each name were delivered in order. -/
theorem Delivers.flush (h : p.Delivers options limits points) :
    p.flush.Delivers options limits points ∧
      (p.flush.lost = 0 → ∀ name,
        named name (p.flush.outbox.transport.accepted.flatMap pointsIn) = named name points) := by
  obtain ⟨hover, hempty⟩ := h.handOver
  have hflush := hover.outbox (Outbox.passes_flush hover.clean)
  refine ⟨hflush, ?_⟩
  intro hzero name
  have hlt : home options p.flush name < p.flush.shards.length := Nat.mod_lt _ hflush.pos
  have hs := List.getElem?_eq_getElem hlt
  have hpoints := hflush.at_home hzero name _ hs
  -- No shard holds anything, and nothing waits in the queue.
  have hqueue : p.flush.outbox.queue = [] := Outbox.queue_flush _
  have hwire : p.flush.outbox.wire = p.flush.outbox.transport.accepted := by
    rw [Outbox.wire, hqueue, Outbox.textsOf_nil, List.append_nil]
  rw [← hpoints, hempty _ (List.getElem_mem hlt), List.append_nil, ← hwire]
  rfl

/-! ## Catching up -/

theorem overShards_catchUp {shards : List Shard} (h : ∀ s ∈ shards, s.Idle options limits)
    (o : Outbox Scripted) (d : Draws) : overShards Shard.catchUp o d shards = (shards, o, d) := by
  induction shards with
  | nil => rfl
  | cons s rest ih =>
    obtain ⟨hfirst, hrest⟩ := List.forall_mem_cons.mp h
    have hs : s.catchUp o d = (s, o, d) := by
      obtain ⟨packer, waiting, held⟩ := s
      obtain ⟨-, rfl, rfl⟩ := hfirst
      rfl
    simp only [overShards, hs, ih hrest]

/-- Catching up changes nothing. -/
theorem Delivers.catchUp (h : p.Delivers options limits points) :
    p.catchUp.Delivers options limits points := by
  unfold Pipeline.catchUp atShards
  rw [overShards_catchUp h.idle]
  exact h.outbox (Outbox.passes_catchUp h.clean)

/-! ## At first -/

/-- A new pipeline delivers nothing yet. -/
theorem delivers_new (options : Line.Options) {o : Outbox Scripted} (h : o.Clean limits)
    (hwire : o.wire = []) {count : Nat} (hpos : 0 < count) (route : String → Nat) (draws : Draws) :
    (Pipeline.new options count route draws o).Delivers options limits [] := by
  obtain ⟨hshards, pool, houtbox, hpool⟩ := newShards_eq options h count
  have hnew : Pipeline.new options count route draws o =
      { route
        shards := List.replicate count { packer := { options, current := { limits } } }
        outbox := { o with pool }
        draws } := by
    rw [Pipeline.new,
      show newShards options o count = (_, { o with pool }) from Prod.ext hshards houtbox]
  have hwire' : Outbox.wire { o with pool } = [] := hwire
  rw [hnew]
  refine ⟨rfl, by simpa using hpos, ?_, ⟨hpool, h.limits_eq⟩, ?_, ?_⟩
  · intro s hs
    rw [List.eq_of_mem_replicate hs]
    exact ⟨⟨rfl, rfl, Payload.whole_empty limits⟩, rfl, rfl⟩
  · intro _ name s hs
    rw [List.eq_of_mem_replicate (List.mem_of_getElem? hs)]
    show named name (List.flatMap pointsIn (Outbox.wire { o with pool }) ++ []) = _
    rw [hwire']
    rfl
  · intro _ name i s hs _
    rw [List.eq_of_mem_replicate (List.mem_of_getElem? hs)]
    rfl

end Pipeline

end DogStatsD
