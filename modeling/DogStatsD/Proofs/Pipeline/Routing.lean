import DogStatsD.Proofs.Pipeline.Slips
import DogStatsD.Proofs.Shard.Packing

/-!
# Routing Does Not Matter

Where a name is routed decides which lines share a payload, and how the values of a batch are cut
into lines. It does not decide what is written: which lines, which values and how many entries are
dropped follows from the entries alone.

* `Pipeline.Accounts`: the slips on the wire and those held in the shards are those of all entries
  so far, unless a payload was lost;
* `Accounts.put`, `Accounts.handOverAt`, `Accounts.outbox`: so it stays, whatever a pipeline does;
* `Pipeline.Run`: the pipeline of a run with its routing, and what happens around the calls;
* `Run.writes`: what a run without losses has written and dropped;
* `routing_independent`: two runs with the same calls have written and dropped the same.
-/

namespace DogStatsD

/-- If the lines of slips are divided, so are the slips. -/
theorem exists_of_flatten_append_eq_map {α β : Type} (f : α → β) {packed : List (List β)}
    {last : List β} {members : List α} (h : packed.flatten ++ last = members.map f) :
    ∃ (parts : List (List α)) (rest : List α), parts.map (List.map f) = packed ∧
      rest.map f = last ∧ parts.flatten ++ rest = members := by
  induction packed generalizing members with
  | nil => exact ⟨[], members, rfl, h.symm, rfl⟩
  | cons first others ih =>
    rw [List.flatten_cons, List.append_assoc] at h
    obtain ⟨front, back, rfl, hfront, hback⟩ := List.append_eq_map_iff.mp h
    obtain ⟨parts, rest, hparts, hrest, rfl⟩ := ih hback.symm
    refine ⟨front :: parts, rest, ?_, hrest, ?_⟩
    · rw [List.map_cons, hfront, hparts]
    · rw [List.flatten_cons, List.append_assoc]

/-- Emptying every list leaves nothing. -/
theorem flatten_foldl_set_eq_nil {α : Type} (lists : List (List α)) :
    ((List.range lists.length).foldl (fun lists i => lists.set i []) lists).flatten = [] := by
  -- The lists emptied so far stand first, and the number of the next one is how many these are.
  suffices h : ∀ rest first : List (List α), first.flatten = [] →
      ((List.range' first.length rest.length).foldl (fun lists i => lists.set i [])
        (first ++ rest)).flatten = [] by
    rw [List.range_eq_range']
    exact h lists [] rfl
  intro rest
  induction rest with
  | nil =>
    intro first hfirst
    simpa using hfirst
  | cons next rest ih =>
    intro first hfirst
    have hnext := ih (first ++ [[]]) (by simpa using hfirst)
    rw [List.length_cons, List.range'_succ, List.foldl_cons]
    simpa using hnext

namespace Outbox

/-- Payloads that are taken over are put at the end, one after the other. -/
theorem passes_takeOverAll {limits : Limits} {o : Outbox Scripted} (h : o.Clean limits)
    {payloads : List Payload}
    (hpayloads : ∀ payload ∈ payloads, payload.limits = limits ∧ payload.lines ≠ 0) :
    o.Passes limits (payloads.map Payload.text) (o.takeOverAll payloads) := by
  induction payloads generalizing o with
  | nil => exact passes_refl h
  | cons payload rest ih =>
    obtain ⟨⟨hlimits, hlines⟩, hrest⟩ := List.forall_mem_cons.mp hpayloads
    have hfirst := passes_takeOver h hlimits hlines
    exact hfirst.trans (ih hfirst.clean hrest)

end Outbox

namespace Pipeline

/-! ## What is held and what is gone -/

/-- Every shard holds the lines of its slips. Unless a payload was lost, the slips held and those on
the wire are, in some order, all slips so far. -/
structure Accounts (options : Line.Options) (limits : Limits) (p : Pipeline Scripted)
    (held : List (List Slip)) (slips : List Slip) (dropped : Nat) : Prop where
  direct : p.intake = .direct
  pos : 0 < p.shards.length
  clean : p.outbox.Clean limits
  length_eq : held.length = p.shards.length
  holds : ∀ (i : Nat) (s : Shard) (own : List Slip), p.shards[i]? = some s → held[i]? = some own →
    Packer.Filled options limits (own.map Slip.line) (s.packer, p.outbox)
  oversized_eq : Shard.oversizedTogether p.shards = dropped
  written : p.outbox.lost = 0 → ∃ gone : List (List Slip),
    p.outbox.wire = gone.map Slip.textOf ∧ (gone.flatten ++ held.flatten).Perm slips

variable {options : Line.Options} {limits : Limits} {p : Pipeline Scripted}
  {held : List (List Slip)} {slips more own : List Slip} {dropped further : Nat}

/-- What happens in one shard and in the outbox adds the slips of what is written there. -/
theorem Accounts.atShard (h : p.Accounts options limits held slips dropped) {i : Nat} {s : Shard}
    (hs : p.shards[i]? = some s) (hown : held[i]? = some own) {packer : Packer}
    {outbox : Outbox Scripted} {last : List String}
    (hadvance : Packer.Advances options limits (s.packer, p.outbox) (own.map Slip.line)
      (more.map Slip.line) further (packer, outbox) last) (draws : Draws) :
    ∃ later : List Slip, later.map Slip.line = last ∧
      Accounts options limits
        { p with shards := p.shards.set i { s with packer }, outbox, draws }
        (held.set i later) (slips ++ more) (dropped + further) := by
  obtain ⟨handed, packed, houtbox, hholds, hne, hlines⟩ := hadvance.exists_handed
  dsimp only at houtbox
  rw [← List.map_append] at hlines
  -- The lines handed over are those of the first slips, in whole payloads.
  obtain ⟨parts, later, rfl, rfl, hparts⟩ := exists_of_flatten_append_eq_map Slip.line hlines
  have hwithin := Payload.within_of_forall₂_holds hholds hne
  have hpass : p.outbox.Passes limits (handed.map Payload.text) outbox :=
    houtbox ▸ Outbox.passes_takeOverAll h.clean fun payload hmem =>
      ⟨(hwithin payload hmem).1, (hwithin payload hmem).2.1⟩
  refine ⟨later, rfl, h.direct, by simpa using h.pos, hpass.clean, by simpa using h.length_eq,
    ?_, ?_, ?_⟩
  · intro j t lines ht hlines'
    obtain ⟨rfl, rfl⟩ | ⟨hne, ht⟩ := getElem?_set_cases ht
    · rw [List.getElem?_set_self (by exact (List.getElem?_eq_some_iff.mp hown).1)] at hlines'
      obtain rfl := Option.some.inj hlines'
      exact hadvance.filled
    · rw [List.getElem?_set_ne hne] at hlines'
      exact (h.holds j t lines ht hlines').outbox hpass.clean
  · have hover := Shard.oversizedTogether_set hs { s with packer }
    have hcount : packer.oversized = s.packer.oversized + further := hadvance.oversized_eq
    have hbefore := h.oversized_eq
    dsimp only at hover ⊢
    omega
  · -- If no payload is lost in the end, none was lost before.
    intro hzero
    have hlost : p.outbox.lost ≤ outbox.lost := hpass.lost_le
    dsimp only at hzero
    obtain ⟨gone, hwire, hperm⟩ := h.written (by omega)
    refine ⟨gone ++ parts, ?_, ?_⟩
    · have htexts : (parts.map (List.map Slip.line)).map String.join = parts.map Slip.textOf := by
        rw [List.map_map]
        rfl
      rw [hpass.wire_eq (by omega), hwire, Payload.map_text_of_forall₂_holds hholds, htexts,
        List.map_append]
    · -- What goes out comes before everything that stays.
      have hmoved : (parts.flatten ++ (held.set i later).flatten).Perm (held.flatten ++ more) := by
        have hset := flatMap_set_perm (f := id) hown hparts
        rwa [List.flatMap_id, List.flatMap_id] at hset
      calc ((gone ++ parts).flatten ++ (held.set i later).flatten)
          = gone.flatten ++ (parts.flatten ++ (held.set i later).flatten) := by simp
        List.Perm _ (gone.flatten ++ (held.flatten ++ more)) :=
          hmoved.append_left _
        _ = gone.flatten ++ held.flatten ++ more := (List.append_assoc ..).symm
        List.Perm _ (slips ++ more) := hperm.append_right more

/-- Deliveries change nothing. -/
theorem Accounts.outbox (h : p.Accounts options limits held slips dropped)
    {later : Outbox Scripted} (hpass : p.outbox.Passes limits [] later) :
    Accounts options limits { p with outbox := later } held slips dropped := by
  refine ⟨h.direct, h.pos, hpass.clean, h.length_eq, ?_, h.oversized_eq, ?_⟩
  · intro i s own hs hown
    exact (h.holds i s own hs hown).outbox hpass.clean
  · intro hzero
    have hlost := hpass.lost_le
    dsimp only at hzero
    obtain ⟨gone, hwire, hperm⟩ := h.written (by omega)
    refine ⟨gone, ?_, hperm⟩
    rw [hpass.wire_eq (by omega), hwire, List.append_nil]

/-- Writing an entry adds its slips, and counts it if it is not written in full. -/
theorem Accounts.put (h : p.Accounts options limits held slips dropped)
    (hpos : 1 ≤ limits.maxLines) (number : Nat) (e : Entry) :
    ∃ later more, e.WrittenAs options limits number more ∧
      (p.put e).Accounts options limits later (slips ++ more)
        (dropped + e.drops options limits) := by
  have hlt : p.shardOf e.routingName < p.shards.length := Nat.mod_lt _ h.pos
  have hs := List.getElem?_eq_getElem hlt
  have hown := List.getElem?_eq_getElem (h.length_eq ▸ hlt)
  obtain ⟨last, more, hwritten, hadvance⟩ :=
    (h.holds _ _ _ hs hown).addEntry hpos number e
  obtain ⟨later, -, haccounts⟩ := h.atShard hs hown hadvance p.draws
  rw [Pipeline.put, atShard_of_getElem? hs]
  exact ⟨_, more, hwritten, haccounts⟩

/-- Handing over the payload of a shard leaves nothing held there. -/
theorem Accounts.handOverAt (h : p.Accounts options limits held slips dropped) (i : Nat) :
    (p.handOverAt i).Accounts options limits (held.set i []) slips dropped := by
  cases hs : p.shards[i]? with
  | none =>
    -- There is no such shard.
    have hle : held.length ≤ i := h.length_eq ▸ List.getElem?_eq_none_iff.mp hs
    rw [Pipeline.handOverAt, atShard_of_none hs, List.set_eq_of_length_le hle]
    exact h
  | some s =>
    have hlt : i < held.length := h.length_eq ▸ (List.getElem?_eq_some_iff.mp hs).1
    have hown := List.getElem?_eq_getElem hlt
    have hadvance : Packer.Advances options limits (s.packer, p.outbox)
        (held[i].map Slip.line) (([] : List Slip).map Slip.line) 0
        (s.packer.handOver p.outbox) [] := (h.holds i s _ hs hown).handOver
    obtain ⟨later, hlater, haccounts⟩ := h.atShard hs hown hadvance p.draws
    obtain rfl := List.map_eq_nil_iff.mp hlater
    rw [List.append_nil, Nat.add_zero] at haccounts
    rw [Pipeline.handOverAt, atShard_of_getElem? hs]
    exact haccounts

/-! ## Flushing -/

/-- Hand over the payload of a shard, and let the thread of the outbox catch up. -/
def passOn (p : Pipeline Scripted) (i : Nat) : Pipeline Scripted :=
  p.atShard i fun s o d =>
    let (s, o) := s.handOver o
    (s, o.catchUp, d)

theorem Accounts.passOn (h : p.Accounts options limits held slips dropped) (i : Nat) :
    (p.passOn i).Accounts options limits (held.set i []) slips dropped := by
  have hover := h.handOverAt i
  cases hs : p.shards[i]? with
  | none =>
    rw [Pipeline.handOverAt, atShard_of_none hs] at hover
    rw [Pipeline.passOn, atShard_of_none hs]
    exact hover
  | some s =>
    have hcaught := hover.outbox (Outbox.passes_catchUp hover.clean)
    rw [Pipeline.handOverAt, atShard_of_getElem? hs] at hcaught
    rw [Pipeline.passOn, atShard_of_getElem? hs]
    exact hcaught

/-- After handing over in some shards, these hold nothing, and the others what they held. -/
theorem Accounts.passOnAll (h : p.Accounts options limits held slips dropped)
    (indices : List Nat) :
    (indices.foldl Pipeline.passOn p).Accounts options limits
      (indices.foldl (fun held i => held.set i []) held) slips dropped := by
  induction indices generalizing p held with
  | nil => exact h
  | cons i rest ih => exact ih (h.passOn i)

/-- After a flush, the slips on the wire are those of all entries, and the transport has accepted
everything on the wire. -/
theorem Accounts.flush (h : p.Accounts options limits held slips dropped) :
    Shard.oversizedTogether p.flush.shards = dropped ∧
      (p.flush.outbox.lost = 0 → ∃ gone : List (List Slip),
        p.flush.outbox.transport.accepted = gone.map Slip.textOf ∧ gone.flatten.Perm slips) := by
  have hover := h.passOnAll (List.range p.shards.length)
  rw [show (List.range p.shards.length).foldl Pipeline.passOn p = p.handOver from
    (atShards_eq_foldl ..).symm] at hover
  have hflush := hover.outbox (Outbox.passes_flush hover.clean)
  refine ⟨hflush.oversized_eq, ?_⟩
  intro hzero
  obtain ⟨gone, hwire, hperm⟩ := hflush.written hzero
  rw [← h.length_eq, flatten_foldl_set_eq_nil, List.append_nil] at hperm
  -- Nothing waits in the queue.
  have hqueue : p.handOver.outbox.flush.queue = [] := Outbox.queue_flush _
  rw [Outbox.wire, hqueue, Outbox.textsOf_nil, List.append_nil] at hwire
  exact ⟨gone, hwire, hperm⟩

/-! ## Runs -/

/-- A call that brings something to write. -/
inductive Call where
  /-- A sample from the application. -/
  | dispatch (sample : Sample)
  /-- An entry out of the aggregator. -/
  | flushed (entry : Entry)

namespace Call

def entry : Call → Entry
  | .dispatch s => .sample s
  | .flushed e => e

/-- The call is not left to sampling. -/
def IsKept : Call → Prop
  | .dispatch s => (Task.process s).IsKept
  | .flushed _ => True

def apply (p : Pipeline Scripted) : Call → Pipeline Scripted
  | .dispatch s => (p.dispatch s).2
  | .flushed e => p.put e

end Call

/-- What happens at a pipeline: calls, payloads handed over from shards, and payloads delivered. -/
inductive Move where
  | call (call : Call)
  | handOver (shard : Nat)
  | deliver

namespace Move

def call? : Move → Option Call
  | .call c => some c
  | .handOver _ | .deliver => none

def apply (p : Pipeline Scripted) : Move → Pipeline Scripted
  | .call c => c.apply p
  | .handOver shard => p.handOverAt shard
  | .deliver => { p with outbox := p.outbox.deliverNext }

end Move

/-- A pipeline with its routing, what is around it, and what happens there. -/
structure Run where
  count : Nat
  count_pos : 1 ≤ count
  route : String → Nat
  draws : Draws
  queueCapacity : Nat
  poolCapacity : Nat
  running : Bool
  failsWrite : Nat → Bool
  moves : List Move

namespace Run

/-- The calls of a run. -/
def calls (r : Run) : List Call :=
  r.moves.filterMap Move.call?

/-- The outbox before a run, with nothing in it. -/
def outbox (limits : Limits) (r : Run) : Outbox Scripted where
  capacity := r.queueCapacity
  running := r.running
  transport := { failsWrite := r.failsWrite }
  pool := Pool.new r.poolCapacity limits

/-- The pipeline at the beginning of a run. -/
def start (options : Line.Options) (limits : Limits) (r : Run) : Pipeline Scripted :=
  Pipeline.new options r.count r.route r.draws (r.outbox limits)

/-- The pipeline at the end of a run, once everything was flushed. -/
def finish (options : Line.Options) (limits : Limits) (r : Run) : Pipeline Scripted :=
  (r.moves.foldl Move.apply (r.start options limits)).flush

end Run

/-- The pipeline accounts for the entries so far. -/
def AccountsFor (options : Line.Options) (limits : Limits) (p : Pipeline Scripted)
    (entries : List Entry) : Prop :=
  ∃ held slips, WrittenInTurn options limits entries slips ∧
    p.Accounts options limits held slips ((entries.map (Entry.drops options limits)).sum)

variable {entries : List Entry}

/-- A sample that is not left to sampling is written as it is. -/
theorem dispatch_of_isKept (h : p.intake = .direct) {s : Sample} (hkept : (Task.process s).IsKept) :
    (p.dispatch s).2 = p.put (.sample s) := by
  have hprocess (t : Shard) (o : Outbox Scripted) (d : Draws) :
      t.process o d s = ((t.put o (.sample s)).1, (t.put o (.sample s)).2, d) := by
    simp [Shard.process, Task.keeps_of_isKept hkept]
  rw [dispatch_of_direct h]
  simp only [hprocess]
  rfl

/-- A call adds its entry. -/
theorem AccountsFor.call (h : p.AccountsFor options limits entries) (hpos : 1 ≤ limits.maxLines)
    {c : Call} (hkept : c.IsKept) :
    (c.apply p).AccountsFor options limits (entries ++ [c.entry]) := by
  obtain ⟨held, slips, hwritten, haccounts⟩ := h
  obtain ⟨later, more, hmore, hput⟩ := haccounts.put hpos entries.length c.entry
  have happly : c.apply p = p.put c.entry := by
    cases c with
    | dispatch s => exact dispatch_of_isKept haccounts.direct hkept
    | flushed e => rfl
  refine ⟨later, _, hwritten.concat hmore, ?_⟩
  rw [happly]
  simpa using hput

/-- Whatever happens adds the entries of the calls. -/
theorem AccountsFor.moves (h : p.AccountsFor options limits entries) (hpos : 1 ≤ limits.maxLines)
    {moves : List Move} (hkept : ∀ c ∈ moves.filterMap Move.call?, c.IsKept) :
    (moves.foldl Move.apply p).AccountsFor options limits
      (entries ++ (moves.filterMap Move.call?).map Call.entry) := by
  induction moves generalizing p entries with
  | nil => simpa using h
  | cons move rest ih =>
    cases move with
    | call c =>
      have hcall : Move.call? (.call c) = some c := rfl
      rw [List.filterMap_cons_some hcall] at hkept ⊢
      obtain ⟨hfirst, hrest⟩ := List.forall_mem_cons.mp hkept
      have hall := ih (h.call hpos hfirst) hrest
      rw [List.append_assoc] at hall
      exact hall
    | handOver shard =>
      rw [List.filterMap_cons_none rfl] at hkept ⊢
      obtain ⟨held, slips, hwritten, haccounts⟩ := h
      exact ih ⟨_, slips, hwritten, haccounts.handOverAt shard⟩ hkept
    | deliver =>
      rw [List.filterMap_cons_none rfl] at hkept ⊢
      obtain ⟨held, slips, hwritten, haccounts⟩ := h
      exact ih ⟨held, slips, hwritten,
        haccounts.outbox (Outbox.passes_deliverNext haccounts.clean)⟩ hkept

/-- At the beginning, there is nothing to account for. -/
theorem accountsFor_start (options : Line.Options) (limits : Limits) (r : Run) :
    (r.start options limits).AccountsFor options limits [] := by
  have hclean : (r.outbox limits).Clean limits :=
    ⟨Pool.clean_new _ limits, List.forall_mem_nil _⟩
  obtain ⟨hshards, pool, houtbox, hpool⟩ := newShards_eq options hclean r.count
  have hstart : r.start options limits =
      { route := r.route
        shards := List.replicate r.count { packer := { options, current := { limits } } }
        outbox := { r.outbox limits with pool }
        draws := r.draws } := by
    rw [Run.start, Pipeline.new,
      show newShards options _ r.count = (_, { r.outbox limits with pool }) from
        Prod.ext hshards houtbox]
  rw [hstart]
  refine ⟨List.replicate r.count [], [], .nil, rfl, ?_, ⟨hpool, List.forall_mem_nil _⟩, ?_, ?_, ?_,
    ?_⟩
  · rw [List.length_replicate]
    exact r.count_pos
  · simp
  · intro i s own hs hown
    obtain rfl := List.eq_of_mem_replicate (List.mem_of_getElem? hs)
    obtain rfl := List.eq_of_mem_replicate (List.mem_of_getElem? hown)
    exact ⟨rfl, Payload.holds_nil limits, hpool, List.forall_mem_nil _⟩
  · simp [Shard.oversizedTogether_eq_sum]
  · exact fun _ => ⟨[], rfl, by simp⟩

/-- What a run has written and dropped follows from its calls. The lines of samples are those that
fit into a payload; of a batch, the lines together have the values before the first that fits on no
line; and what is not written in full is counted. -/
theorem Run.writes (hpos : 1 ≤ limits.maxLines) (r : Run) (hkept : ∀ c ∈ r.calls, c.IsKept)
    (hlost : (r.finish options limits).outbox.lost = 0) :
    let entries := r.calls.map Call.entry
    Shard.oversizedTogether (r.finish options limits).shards =
      (entries.map (Entry.drops options limits)).sum ∧
    ∃ gone : List (List Slip),
      (r.finish options limits).outbox.transport.accepted = gone.map Slip.textOf ∧
      (∀ slip ∈ gone.flatten, slip.IsOf options entries) ∧
      (Slip.wholeLines gone.flatten).Perm (entries.flatMap (Entry.wholeLines options limits)) ∧
      ∀ entry, (Slip.triples entry gone.flatten).Perm
        ((entries[entry]?.map (Entry.triples options limits)).getD []) := by
  intro entries
  have hfor : (r.moves.foldl Move.apply (r.start options limits)).AccountsFor options limits
      entries := (accountsFor_start options limits r).moves hpos hkept
  obtain ⟨held, slips, hwritten, haccounts⟩ := hfor
  obtain ⟨hoversized, hgone⟩ := haccounts.flush
  obtain ⟨gone, haccepted, hperm⟩ := hgone hlost
  refine ⟨hoversized, gone, haccepted, ?_, ?_, ?_⟩
  · exact fun slip hmem => hwritten.isOf slip (hperm.mem_iff.mp hmem)
  · rw [← hwritten.wholeLines_eq]
    exact hperm.filterMap _
  · intro entry
    rw [← hwritten.triples_eq]
    exact hperm.flatMap_right _

end Pipeline

open Pipeline

/-- Two runs with the same calls, settings and limits may differ in the number of shards and in
where names are routed, in the queue and the pool, and in when payloads are handed over and
delivered. If no payload is lost in either, they write the same lines of samples and, of every
batch, the same values with the same header and trailer, each as often as the other, and they drop
the same number of entries. -/
theorem routing_independent (options : Line.Options) (limits : Limits) (hpos : 1 ≤ limits.maxLines)
    (first second : Pipeline.Run) (hcalls : first.calls = second.calls)
    (hkept : ∀ c ∈ first.calls, c.IsKept)
    (hfirst : (first.finish options limits).outbox.lost = 0)
    (hsecond : (second.finish options limits).outbox.lost = 0) :
    ∃ one two : List (List Slip),
      (first.finish options limits).outbox.transport.accepted = one.map Slip.textOf ∧
      (second.finish options limits).outbox.transport.accepted = two.map Slip.textOf ∧
      (∀ slip ∈ one.flatten ++ two.flatten, slip.IsOf options (first.calls.map Call.entry)) ∧
      (Slip.wholeLines one.flatten).Perm (Slip.wholeLines two.flatten) ∧
      (∀ entry, (Slip.triples entry one.flatten).Perm (Slip.triples entry two.flatten)) ∧
      (first.finish options limits).telemetry.oversized =
        (second.finish options limits).telemetry.oversized := by
  obtain ⟨hdrops, one, haccepted, hof, hwhole, htriples⟩ := first.writes hpos hkept hfirst
  obtain ⟨hdrops', two, haccepted', hof', hwhole', htriples'⟩ :=
    second.writes hpos (hcalls ▸ hkept) hsecond
  rw [← hcalls] at hdrops' hof' hwhole' htriples'
  refine ⟨one, two, haccepted, haccepted', List.forall_mem_append.mpr ⟨hof, hof'⟩,
    hwhole.trans hwhole'.symm, fun entry => (htriples entry).trans (htriples' entry).symm, ?_⟩
  exact hdrops.trans hdrops'.symm

/-- In one shard, the count leaves room for one of three values. In a shard of its own, the batch
goes on one line. -/
theorem routing_independent_count_and_batch :
    let limits : Limits := ⟨18, 8⟩
    let moves : List Move :=
      [.call (.dispatch (.metric { name := "hits", value := .count 1 })), .call (.flushed (.batch
        { kind := .histogram, context := { name := "ms" }, values := [1.5, 2.5, 3.5],
          rate := 1.0 }))]
    let one : Pipeline.Run :=
      { count := 1, count_pos := by decide, route := fun _ => 0, draws := { word := fun _ => 0 },
        queueCapacity := 4, poolCapacity := 1, running := false, failsWrite := fun _ => false,
        moves }
    let two : Pipeline.Run :=
      { one with count := 2, count_pos := by decide, route := fun name => name.length / 4 }
    1 ≤ limits.maxLines ∧ one.calls = two.calls ∧ (∀ c ∈ one.calls, c.IsKept) ∧
    (one.finish {} limits).outbox.lost = 0 ∧ (two.finish {} limits).outbox.lost = 0 ∧
    (one.finish {} limits).outbox.transport.accepted =
      ["hits:1|c\nms:1.5|h\n", "ms:2.5:3.5|h\n"] ∧
    (two.finish {} limits).outbox.transport.accepted = ["ms:1.5:2.5:3.5|h\n", "hits:1|c\n"] ∧
    ∃ slips slips' : List (List Slip),
      (one.finish {} limits).outbox.transport.accepted = slips.map Slip.textOf ∧
      (two.finish {} limits).outbox.transport.accepted = slips'.map Slip.textOf ∧
      (Slip.triples 1 slips.flatten).Perm (Slip.triples 1 slips'.flatten) := by
  intro limits moves one two
  have hkept : ∀ c ∈ one.calls, c.IsKept := by
    intro c hmem
    have hcalls : one.calls = moves.filterMap Move.call? := rfl
    simp only [hcalls, moves, List.filterMap_cons, Move.call?, List.filterMap_nil, List.mem_cons,
      List.not_mem_nil, or_false] at hmem
    rcases hmem with rfl | rfl
    · exact show (1.0 : Float) ≤ 1.0 by decide
    · exact trivial
  have hone : (one.finish {} limits).outbox.lost = 0 := by decide +kernel
  have htwo : (two.finish {} limits).outbox.lost = 0 := by decide +kernel
  obtain ⟨slips, slips', haccepted, haccepted', -, -, htriples, -⟩ :=
    routing_independent {} limits (by decide) one two rfl hkept hone htwo
  exact ⟨by decide, rfl, hkept, hone, htwo, by decide +kernel, by decide +kernel, slips, slips',
    haccepted, haccepted', htriples 1⟩

end DogStatsD
