import DogStatsD.Proofs.System.Trail

/-!
# Keeping Track of Samples

The trail of a client in use tells where its samples are, and what it tells of the lines is true:
each is a line of a sample that was accepted, or of an entry that stands for some. Every step keeps
it so, whatever the parties do.

* `System.Trail.IsTrue`: what a trail tells is true of the answers that callers got;
* `System.Matches`: the trail goes along with the whole system, is true, and has every sample that
  was accepted;
* `System.Matches.next`: every step keeps it so;
* `System.matches_start`: at first it is so;
* `System.Trail.Settles`, `System.Matches.settles`: what has become of samples that are held nowhere
  any more.
-/

namespace DogStatsD

variable {τ : Type}

/-! ## Draws -/

/-- A decision uses up the stream of words, and leaves the words alone. -/
@[simp]
theorem Draws.word_keeps (d : Draws) (rate : Float) : (d.keeps rate).2.word = d.word := by
  unfold keeps
  split <;> rfl

/-- To decide about a sample moves on in the stream of words, and does not change it. -/
@[simp]
theorem Shard.word_keeps (d : Draws) (sample : Sample) : (keeps d sample).2.word = d.word := by
  cases sample with
  | metric m => exact d.word_keeps m.rate
  | event | serviceCheck => rfl

/-- Merging a sample leaves the words of the stream alone. -/
@[simp]
theorem Aggregator.word_aggregate (a : Aggregator) (d : Draws) (m : Metric) :
    (a.aggregate d m).2.2.word = d.word := by
  unfold aggregate
  split
  · cases m.value with
    | count | gauge | set => rfl
    | histogram | distribution | timing => exact d.word_keeps m.rate
  · rfl

/-- Processing a sample leaves the words of the stream alone. -/
theorem Shard.word_process (s : Shard) (o : Outbox τ) (d : Draws) (sample : Sample) :
    (s.process o d sample).2.2.word = d.word := by
  unfold process
  rcases hkeeps : keeps d sample with ⟨kept, later⟩
  have hword := Shard.word_keeps d sample
  rw [hkeeps] at hword
  cases kept <;> exact hword

/-- What leaves the words alone at one shard leaves them alone. -/
theorem Pipeline.word_atShard {p : Pipeline τ} {i : Nat}
    {f : Shard → Outbox τ → Draws → Shard × Outbox τ × Draws}
    (hf : ∀ s o d, (f s o d).2.2.word = d.word) : (p.atShard i f).draws.word = p.draws.word := by
  unfold atShard
  split
  · rfl
  · exact hf _ _ _

namespace System

variable {p : Pipeline τ} {t : Trail}

/-! ## Telling the truth -/

/-- The sample with a number was accepted: its caller was told so. -/
def IsAccepted (log : List Answer) (n : Nat) (sample : Sample) : Prop :=
  log[n]?.bind Answer.sent? = some sample

section

variable {log later : List Answer} {n : Nat} {sample : Sample}

/-- A sample that was accepted has got its answer. -/
theorem IsAccepted.lt_length (h : IsAccepted log n sample) : n < log.length := by
  obtain ⟨answer, hanswer, -⟩ := Option.bind_eq_some_iff.mp h
  exact (List.getElem?_eq_some_iff.mp hanswer).1

/-- What was accepted stays accepted when more answers are given. -/
theorem IsAccepted.mono (h : IsAccepted log n sample) (hlog : log <+: later) :
    IsAccepted later n sample := by
  obtain ⟨more, rfl⟩ := hlog
  rw [IsAccepted, List.getElem?_append_left h.lt_length]
  exact h

/-- With an answer, the sample of the caller is accepted, if it is a sample and the answer good. -/
theorem isAccepted_append {answer : Answer} : IsAccepted (log ++ [answer]) n sample ↔
    IsAccepted log n sample ∨ n = log.length ∧ answer.sent? = some sample := by
  unfold IsAccepted
  rcases lt_trichotomy n log.length with hlt | rfl | hgt
  · rw [List.getElem?_append_left hlt]
    simp [hlt.ne]
  · simp
  · have hlength : (log ++ [answer]).length ≤ n := by simpa [Nat.succ_le_iff] using hgt
    simp [List.getElem?_eq_none hlength, List.getElem?_eq_none hgt.le, hgt.ne']

end

/-- What an origin tells is true: its sample was accepted, or its entry stands for samples that
were. -/
def Origin.IsTrue (cardinality : Option Cardinality) (log : List Answer) : Origin → Prop
  | .sent n sample => IsAccepted log n sample
  | .drained e numbers =>
    ∀ n ∈ numbers, ∃ sample, IsAccepted log n sample ∧ e.StandsFor cardinality sample

/-- What is true of an origin stays true when more answers are given. -/
theorem Origin.IsTrue.mono {cardinality : Option Cardinality} {log later : List Answer}
    {origin : Origin} (h : origin.IsTrue cardinality log) (hlog : log <+: later) :
    origin.IsTrue cardinality later := by
  cases origin with
  | sent n sample => exact IsAccepted.mono h hlog
  | drained e numbers =>
    intro n hn
    obtain ⟨sample, haccepted, hstands⟩ := h n hn
    exact ⟨sample, haccepted.mono hlog, hstands⟩

/-- A row is true: so is its origin, and its line is one of what the origin says was written. -/
def IsTrueRow (options : Line.Options) (log : List Answer) (row : Row Origin) : Prop :=
  row.origin.IsTrue options.cardinality log ∧ row.origin.entry.IsLine options row.line

namespace Trail

/-- What a trail tells is true of the answers that callers got, and of the words drawn. -/
structure IsTrue (options : Line.Options) (word : Nat → UInt64) (log : List Answer) (t : Trail) :
    Prop where
  /-- What was merged are metric samples that were accepted. -/
  live : ∀ item ∈ t.live, ∃ m, IsAccepted log item.1 (.metric m) ∧
    item.2.label = m.label options.cardinality
  rows : t.Every (IsTrueRow options log)
  dropped : ∀ origin ∈ t.dropped, origin.IsTrue options.cardinality log
  /-- A draw has left out what was left out. -/
  leftOut : ∀ item ∈ t.leftOut, item.2.word = word ∧
    ∃ sample, IsAccepted log item.1 sample ∧ (Shard.keeps item.2 sample).1 = false

variable {options : Line.Options} {limits : Limits} {word : Nat → UInt64} {log later : List Answer}
  {j : Nat} {origin : Origin} {c : Cart Origin} {added : List (Row Origin)}

/-- What is true of a trail stays true when more answers are given. -/
theorem IsTrue.mono (h : t.IsTrue options word log) (hlog : log <+: later) :
    t.IsTrue options word later := by
  refine ⟨fun item hitem => ?_, fun row hrow => ?_, fun origin horigin => ?_, fun item hitem => ?_⟩
  · obtain ⟨m, haccepted, hlabel⟩ := h.live item hitem
    exact ⟨m, haccepted.mono hlog, hlabel⟩
  · exact ⟨(h.rows row hrow).1.mono hlog, (h.rows row hrow).2⟩
  · exact (h.dropped origin horigin).mono hlog
  · obtain ⟨hword, sample, haccepted, hkeeps⟩ := h.leftOut item hitem
    exact ⟨hword, sample, haccepted.mono hlog, hkeeps⟩

/-- When lines of a shard move on, and those that come in are true, the trail stays true. -/
theorem IsTrue.setCart (h : t.IsTrue options word log) (hmoves : Cart.Moves added (t.cart j) c)
    (hadded : ∀ row ∈ added, IsTrueRow options log row)
    (hdropped : ∀ origin ∈ c.dropped, origin.IsTrue options.cardinality log) :
    (t.setFreight (t.setCart j c)).IsTrue options word log :=
  ⟨h.live, Freight.Every.setCart h.rows hmoves hadded, hdropped, h.leftOut⟩

/-- When lines go on from the queue, the trail stays true. -/
theorem IsTrue.of_wire (h : t.IsTrue options word log) {freight : Freight Origin}
    (hwire : freight.wire = t.wire) (hpacked : freight.packed = t.packed)
    (hrefused : freight.refused = t.refused) (hdropped : freight.dropped = t.dropped) :
    (t.setFreight freight).IsTrue options word log :=
  ⟨h.live, Freight.Every.of_wire h.rows hwire hpacked hrefused, fun origin horigin =>
    h.dropped origin (hdropped ▸ horigin), h.leftOut⟩

/-- Handing over brings in nothing that could be false. -/
theorem IsTrue.handOver (h : t.IsTrue options word log) (p : Pipeline τ) (j : Nat) :
    (t.setFreight (t.handOver p j)).IsTrue options word log := by
  obtain ⟨c, hmoves, hdropped, hover⟩ := t.exists_handOver p j
  rw [hover]
  exact h.setCart hmoves (List.forall_mem_nil _) (hdropped ▸ h.dropped)

/-- What is written for an entry of a true origin is true. -/
theorem IsTrue.put [Transport τ] {transport : τ} {hand : List Command}
    (h : t.IsTrue options word log) (origin : Origin)
    (hfits : t.Fits options limits transport p hand)
    (horigin : origin.IsTrue options.cardinality log) (j : Nat) :
    (t.setFreight (t.put p j origin.entry origin)).IsTrue options word log := by
  obtain ⟨c, count, hmoves, hdropped, hput⟩ := t.exists_put p j origin.entry origin
  rw [hput]
  refine h.setCart hmoves (fun row hrow => ?_) fun other hother => ?_
  · obtain ⟨line, hline, rfl⟩ := List.mem_map.mp hrow
    exact ⟨horigin, hfits.isLine_of_mem_encodedAt hline⟩
  · rw [hdropped, List.mem_append] at hother
    obtain hold | hnew := hother
    · exact h.dropped other hold
    · exact List.eq_of_mem_replicate hnew ▸ horigin

/-- A sample that is accepted is written, or a draw leaves it out. -/
theorem IsTrue.call [Transport τ] {transport : τ} {hand : List Command} {n : Nat} {sample : Sample}
    (h : t.IsTrue options word log) (hfits : t.Fits options limits transport p hand)
    (hword : p.draws.word = word) (haccepted : IsAccepted log n sample) :
    (t.call p n sample).IsTrue options word log := by
  obtain ⟨-, hcall⟩ | ⟨hskipped, hcall⟩ := t.call_cases p n sample
  · rw [hcall]
    exact h.put (.sent n sample) hfits haccepted _
  · rw [hcall]
    refine ⟨h.live, h.rows, h.dropped, fun item hitem => ?_⟩
    obtain hold | hnew := List.mem_append.mp hitem
    · exact h.leftOut item hold
    · rw [List.mem_singleton.mp hnew]
      exact ⟨hword, sample, haccepted, hskipped⟩

end Trail

/-! ## Merges -/

/-- What a metric is merged as is proper. -/
theorem isProper_of_mem_merges {settings : AggregatorSettings} {d : Draws} {metric : Metric}
    {m : Merge} (hm : m ∈ (DogStatsD.Request.aggregate metric).merges settings d) :
    m.IsProper := by
  have hobserve {kind : Kind} {context : Context} {value rate : Float}
      (hkind : kind.isReservoir = true)
      (hm : m ∈ (({ draws := d } : Window).observe kind context value rate).merges) :
      m.IsProper := by
    unfold Window.observe at hm
    dsimp only at hm
    split at hm
    · obtain rfl := List.mem_singleton.mp hm
      exact hkind
    · cases hm
  simp only [DogStatsD.Request.merges, Window.step, Window.aggregate] at hm
  split at hm
  · cases hm
  · split at hm
    · obtain rfl := List.mem_singleton.mp hm
      trivial
    · obtain rfl := List.mem_singleton.mp hm
      trivial
    · obtain rfl := List.mem_singleton.mp hm
      trivial
    · exact hobserve rfl hm
    · exact hobserve rfl hm
    · exact hobserve rfl hm

/-- What is taken out of the tables has something to write. -/
theorem isFull_of_mem_drainedOf {bound : Option Nat} {kind : Kind} {merges : List Merge}
    {e : Entry} (he : e ∈ drainedOf bound kind merges) : e.IsFull := by
  have hbatches {kind : Kind} (he : e ∈ batchesOf bound kind merges) : e.IsFull := by
    obtain ⟨context, hmem, rfl⟩ := List.mem_map.mp he
    have hitems := itemsOf_ne_nil _ context ((mem_contextsOf _ context).mp hmem)
    exact keptOf_ne_nil bound (mt List.map_eq_nil_iff.mp hitems)
  have hmetric {α : Type} {l : List α} {made : α → Metric}
      (he : e ∈ l.map fun a => .metric (made a)) : e.IsFull := by
    obtain ⟨a, -, rfl⟩ := List.mem_map.mp he
    trivial
  cases kind with
  | count | gauge | set => exact hmetric he
  | histogram | distribution | timing => exact hbatches he

/-- A metric that is not handed back is merged under its own label, or a draw leaves it out. -/
theorem merges_cases (settings : AggregatorSettings) (d : Draws) {metric : Metric}
    (htaken : ¬IsHandedBack settings metric) :
    (∃ m, (DogStatsD.Request.aggregate metric).merges settings d = [m] ∧
      m.label = metric.label settings.cardinality) ∨
    ((DogStatsD.Request.aggregate metric).merges settings d = [] ∧
      (Shard.keeps d (.metric metric)).1 = false) := by
  have hobserve (kind : Kind) (context : Context) (value : Float) :
      (({ draws := d } : Window).observe kind context value metric.rate).merges =
        if (d.keeps metric.rate).1 then [.observation kind context value metric.rate] else [] := by
    unfold Window.observe
    dsimp only
    split <;> rfl
  have hdrawn (kind : Kind) (context : Context) (value : Float) :
      (∃ m, (({ draws := d } : Window).observe kind context value metric.rate).merges = [m] ∧
        m.label = { kind, context }) ∨
      ((({ draws := d } : Window).observe kind context value metric.rate).merges = [] ∧
        (Shard.keeps d (.metric metric)).1 = false) := by
    rw [hobserve]
    cases hkeeps : (d.keeps metric.rate).1 with
    | true => exact .inl ⟨_, rfl, rfl⟩
    | false => exact .inr ⟨rfl, hkeeps⟩
  simp only [DogStatsD.Request.merges, Window.step, Window.aggregate, if_neg htaken, Metric.label,
    Metric.kind, Context.ofMetric]
  cases metric.value with
  | count | gauge | set => exact .inl ⟨_, rfl, rfl⟩
  | histogram value | distribution value | timing value => exact hdrawn _ _ value

/-- What is merged joins the merges that stand in the tables. -/
@[simp]
theorem Trail.live_merge (t : Trail) (n : Nat) (d : Draws) (merges : List Merge) :
    (t.merge n d merges).live = t.live ++ merges.map fun m => (n, m) := by
  cases merges with
  | nil => simp [Trail.merge]
  | cons first rest => rfl

@[simp]
theorem Trail.hands_merge (t : Trail) (n : Nat) (d : Draws) (merges : List Merge) :
    (t.merge n d merges).hands = t.hands := by
  cases merges <;> rfl

/-- Merging a sample writes nothing. -/
@[simp]
theorem Trail.toFreight_merge (t : Trail) (n : Nat) (d : Draws) (merges : List Merge) :
    (t.merge n d merges).toFreight = t.toFreight := by
  cases merges <;> rfl

/-- What is merged of a sample that is accepted is true, and so is that a draw has left it out if
nothing is merged. -/
theorem Trail.IsTrue.merge {options : Line.Options} {word : Nat → UInt64} {log : List Answer}
    (h : t.IsTrue options word log) {n : Nat} {d : Draws} (hword : d.word = word) {metric : Metric}
    (haccepted : IsAccepted log n (.metric metric)) {settings : AggregatorSettings}
    (hcardinality : settings.cardinality = options.cardinality)
    (htaken : ¬IsHandedBack settings metric) :
    (t.merge n d ((DogStatsD.Request.aggregate metric).merges settings d)).IsTrue options word
      log := by
  obtain ⟨m, hmerges, hlabel⟩ | ⟨hmerges, hkeeps⟩ := merges_cases settings d htaken
  · rw [hmerges]
    refine ⟨fun item hitem => ?_, h.rows, h.dropped, h.leftOut⟩
    obtain hold | hnew := List.mem_append.mp hitem
    · exact h.live item hold
    · rw [List.mem_singleton.mp hnew, ← hcardinality]
      exact ⟨metric, haccepted, hlabel⟩
  · rw [hmerges]
    refine ⟨h.live, h.rows, h.dropped, fun item hitem => ?_⟩
    obtain hold | hnew := List.mem_append.mp hitem
    · exact h.leftOut item hold
    · rw [List.mem_singleton.mp hnew]
      exact ⟨hword, _, haccepted, hkeeps⟩

/-! ## Hands -/

variable {s s' : System τ}

/-- A party has no entries in hand if the ticker or caller that it is has none. -/
theorem entries_eq_nil {party : Party}
    (hticker : ∀ i ticker, party = .ticker i → s.tickers[i]? = some ticker →
      ticker.state.sweep.entries = [])
    (hcaller : ∀ i caller, party = .caller i → s.callers[i]? = some caller →
      caller.sweep.entries = []) : (s.sweep party).entries = [] := by
  cases party with
  | ticker i =>
    cases hi : s.tickers[i]? with
    | none => simp [sweep, hi]
    | some ticker => simpa [sweep, hi] using hticker i ticker rfl hi
  | caller i =>
    cases hi : s.callers[i]? with
    | none => simp [sweep, hi]
    | some caller => simpa [sweep, hi] using hcaller i caller rfl hi

/-- At first, no party has entries in hand. -/
theorem entries_start (client : Client τ) (callers : Nat) (party : Party) :
    ((start client callers).sweep party).entries = [] := by
  refine entries_eq_nil (fun i ticker _ hticker => ?_) fun i caller _ hcaller => ?_
  · -- All tickers wait until it is their time.
    have hwaiting : ticker.state = .waiting := by
      obtain hmem | hmem := List.mem_append.mp (List.mem_of_getElem? hticker)
      · split at hmem
        · rw [List.mem_singleton.mp hmem]
        · cases hmem
      · rw [List.mem_singleton.mp hmem]
    rw [hwaiting]
    rfl
  · rw [List.eq_of_mem_replicate (List.mem_of_getElem? hcaller)]
    rfl

/-- A caller that takes no entry in hand and writes none leaves all hands as they are. -/
theorem entries_setCaller {i : Nat} {caller later : Caller} (h : s.callers[i]? = some caller)
    (hsame : later.sweep.entries = caller.sweep.entries) (party : Party) :
    ((s.setCaller i later).sweep party).entries = (s.sweep party).entries := by
  rw [sweep_setCaller h]
  by_cases hparty : party = .caller i
  · subst hparty
    simp [hsame, sweep, h]
  · rw [Function.update_of_ne hparty]

/-- A ticker that takes no entry in hand and writes none leaves all hands as they are. -/
theorem entries_setTicker {i : Nat} {ticker later : Ticker} (h : s.tickers[i]? = some ticker)
    (hsame : later.state.sweep.entries = ticker.state.sweep.entries) (party : Party) :
    ((s.setTicker i later).sweep party).entries = (s.sweep party).entries := by
  rw [sweep_setTicker h]
  by_cases hparty : party = .ticker i
  · subst hparty
    simp [hsame, sweep, h]
  · rw [Function.update_of_ne hparty]

/-- A party that goes on with its flush, but holds the entries it held, leaves all hands as they
are. -/
theorem entries_setSweep {w : Sweep} {party : Party} (h : s.Flushes w party) (later : Sweep)
    (hsame : later.entries = w.entries) (client : Client τ) (drainer : Option Party)
    (other : Party) :
    (({ s with client, drainer }.setSweep later party).sweep other).entries =
      (s.sweep other).entries := by
  rw [sweep_setSweep h]
  by_cases hother : other = party
  · subst hother
    simp [hsame, sweep_of_flushes h]
  · rw [Function.update_of_ne hother]

/-! ## The whole system -/

section

variable [Transport τ]

/-- An entry in hand has something to write, and the samples noted with it are those that it stands
for. -/
def IsHand (cardinality : Option Cardinality) (log : List Answer) (e : Entry)
    (numbers : List Nat) : Prop :=
  e.IsFull ∧ (Origin.drained e numbers).IsTrue cardinality log

/-- The trail of a system goes along with it, what it tells is true, and it has every sample that
was accepted. The client has begun as another one was built. -/
structure Matches (config : Config) (client : Client τ) (s : System τ) (t : Trail) : Prop where
  /-- The tables hold what was merged and not taken out yet. -/
  tables : ∀ a, s.client.aggregator = some a →
    a.settings.cardinality = config.options.cardinality ∧ a.Holds a.settings (t.live.map Prod.snd)
  unmerged : s.client.aggregator = none → t.live = []
  proper : ∀ item ∈ t.live, item.2.IsProper
  hands : ∀ party, List.Forall₂ (IsHand config.options.cardinality s.log) (s.sweep party).entries
    (t.hands party)
  /-- The lines make up the payloads, and the transport was given those that were written. -/
  fits : t.Fits config.options config.limits client.pipeline.outbox.transport s.client.pipeline
    s.courier.inHand
  word_eq : s.client.pipeline.draws.word = client.pipeline.draws.word
  honest : t.IsTrue config.options client.pipeline.draws.word s.log
  accounted : ∀ (n : Nat) sample, IsAccepted s.log n sample → t.Has n

variable {config : Config} {client : Client τ}

/-- With an answer, the sample of the caller has to be accounted for, if it is accepted. -/
theorem Matches.accounted_append (h : s.Matches config client t) {later : Trail}
    (hkept : ∀ n, t.Has n → later.Has n) {answer : Answer}
    (hnew : answer.sent? ≠ none → later.Has s.log.length) (n : Nat) (sample : Sample)
    (hn : IsAccepted (s.log ++ [answer]) n sample) : later.Has n := by
  obtain hold | ⟨rfl, hsent⟩ := isAccepted_append.mp hn
  · exact hkept n (h.accounted n sample hold)
  · exact hnew (by simp [hsent])

/-- Hands are as they were, if parties hold the entries they held. -/
theorem Matches.hands_of_eq (h : s.Matches config client t)
    (hsame : ∀ party, (s'.sweep party).entries = (s.sweep party).entries)
    (hlog : s.log <+: s'.log) (party : Party) :
    List.Forall₂ (IsHand config.options.cardinality s'.log) (s'.sweep party).entries
      (t.hands party) := by
  rw [hsame]
  exact (h.hands party).imp fun e numbers hhand => ⟨hhand.1, hhand.2.mono hlog⟩

/-- Of a party that has an entry to write, the samples in its first hand are those of the entry. -/
theorem Matches.exists_hand (h : s.Matches config client t) {party : Party} {e : Entry}
    {entries : List Entry} {shards : List Nat}
    (hflushes : s.Flushes { entries := e :: entries, shards } party) :
    ∃ group rest, t.hands party = group :: rest ∧ IsHand config.options.cardinality s.log e group ∧
      List.Forall₂ (IsHand config.options.cardinality s.log) entries rest := by
  have hhands := h.hands party
  rw [sweep_of_flushes hflushes] at hhands
  obtain ⟨group, rest, hfirst, hrest, hgroups⟩ := List.forall₂_cons_left_iff.mp hhands
  exact ⟨group, rest, hgroups, hfirst, hrest⟩

/-- A step that leaves tables, hands, pipeline and courier alone, and tells nobody that a sample is
accepted, leaves the trail right. -/
theorem Matches.stay (h : s.Matches config client t)
    (haggregator : s'.client.aggregator = s.client.aggregator)
    (hpipeline : s'.client.pipeline = s.client.pipeline) (hcourier : s'.courier = s.courier)
    (hsame : ∀ party, (s'.sweep party).entries = (s.sweep party).entries)
    (hlog : s'.log = s.log ∨ ∃ answer, answer.sent? = none ∧ s'.log = s.log ++ [answer]) :
    s'.Matches config client t := by
  have hbefore : s.log <+: s'.log := by
    obtain hlog | ⟨answer, -, hlog⟩ := hlog
    · exact hlog ▸ List.prefix_rfl
    · exact hlog ▸ List.prefix_append _ _
  refine ⟨?_, ?_, h.proper, h.hands_of_eq hsame hbefore, ?_, ?_, h.honest.mono hbefore, ?_⟩
  · rw [haggregator]
    exact h.tables
  · rw [haggregator]
    exact h.unmerged
  · rw [hpipeline, hcourier]
    exact h.fits
  · rw [hpipeline]
    exact h.word_eq
  · obtain hlog | ⟨answer, hsent, hlog⟩ := hlog
    · rw [hlog]
      exact h.accounted
    · rw [hlog]
      exact h.accounted_append (fun _ => id) fun hnew => absurd hsent hnew

/-- A step that has lines go on from the queue, and leaves tables, hands and answers alone, leaves
the trail right. -/
theorem Matches.of_wire (h : s.Matches config client t) {freight : Freight Origin}
    (haggregator : s'.client.aggregator = s.client.aggregator)
    (hdraws : s'.client.pipeline.draws = s.client.pipeline.draws) (hlog : s'.log = s.log)
    (hsame : ∀ party, (s'.sweep party).entries = (s.sweep party).entries)
    (hfits : freight.Fits config.options config.limits client.pipeline.outbox.transport
      s'.client.pipeline s'.courier.inHand)
    (hwire : freight.wire = t.wire) (hpacked : freight.packed = t.packed)
    (hrefused : freight.refused = t.refused) (hdropped : freight.dropped = t.dropped) :
    s'.Matches config client (t.setFreight freight) := by
  refine ⟨?_, ?_, h.proper, h.hands_of_eq hsame (hlog ▸ List.prefix_rfl), hfits, ?_, ?_, ?_⟩
  · rw [haggregator]
    exact h.tables
  · rw [haggregator]
    exact h.unmerged
  · rw [hdraws]
    exact h.word_eq
  · rw [hlog]
    exact h.honest.of_wire hwire hpacked hrefused hdropped
  · rw [hlog]
    exact fun n sample hn => (h.accounted n sample hn).of_wire hwire hpacked hrefused hdropped

/-! ## Flushes -/

section

variable {party : Party} {w : Sweep} {later : Trail}

/-- When a party gets on with its flush, the hands of all others are what they were. -/
theorem Matches.setSweep (h : s.Matches config client t) (hflushes : s.Flushes w party)
    {after : Client τ} {held : Sweep} (drainer : Option Party)
    (htables : ∀ a, after.aggregator = some a →
      a.settings.cardinality = config.options.cardinality ∧
        a.Holds a.settings (later.live.map Prod.snd))
    (hunmerged : after.aggregator = none → later.live = [])
    (hproper : ∀ item ∈ later.live, item.2.IsProper)
    (hhand : List.Forall₂ (IsHand config.options.cardinality s.log) held.entries
      (later.hands party))
    (hothers : ∀ other ≠ party, later.hands other = t.hands other)
    (hfits : later.Fits config.options config.limits client.pipeline.outbox.transport
      after.pipeline s.courier.inHand)
    (hword : after.pipeline.draws.word = client.pipeline.draws.word)
    (honest : later.IsTrue config.options client.pipeline.draws.word s.log)
    (hhas : ∀ n sample, IsAccepted s.log n sample → t.Has n → later.Has n) :
    Matches config client ({ s with client := after, drainer }.setSweep held party) later := by
  refine ⟨?_, ?_, hproper, fun other => ?_, ?_, ?_, ?_, ?_⟩
  · rwa [client_setSweep]
  · rwa [client_setSweep]
  · rw [sweep_setSweep hflushes, log_setSweep]
    by_cases hother : other = party
    · subst hother
      rwa [Function.update_self]
    · rw [Function.update_of_ne hother, hothers other hother]
      exact h.hands other
  · rwa [client_setSweep, courier_setSweep]
  · rwa [client_setSweep]
  · rwa [log_setSweep]
  · rw [log_setSweep]
    exact fun n sample hn => hhas n sample hn (h.accounted n sample hn)

/-- Those represented by what is taken out of a kind. -/
theorem Matches.drain (h : s.Matches config client t) {a : Aggregator}
    (ha : s.client.aggregator = some a) {kind : Kind} {kinds : List Kind}
    (hflushes : s.Flushes w party) (hkinds : w.kinds = kind :: kinds) (drainer : Option Party) :
    Matches config client
      ({ s with client := { s.client with aggregator := some (a.drain kind).2 }, drainer }.setSweep
        { w with kinds, entries := w.entries ++ (a.drain kind).1 } party)
      (t.drain party kind (a.drain kind).1) := by
  obtain ⟨hcardinality, htables⟩ := h.tables a ha
  have hperm := htables.drain_perm kind
  have hlive : (t.drain party kind (a.drain kind).1).live.map Prod.snd =
      (t.live.map Prod.snd).filter (·.kind ≠ kind) := by
    rw [List.filter_map]
    rfl
  have hlater := htables.drain kind
  refine h.setSweep hflushes drainer ?_ nofun
    (fun item hitem => h.proper item (List.mem_of_mem_filter hitem)) ?_
    (fun other hother => by simp [Trail.drain, hother]) h.fits h.word_eq
    ⟨fun item hitem => h.honest.live item (List.mem_of_mem_filter hitem), h.honest.rows,
      h.honest.dropped, h.honest.leftOut⟩ ?_
  · rintro later ⟨rfl⟩
    rw [hlive, hlater.settings_eq]
    exact ⟨hcardinality, hlater⟩
  · have hold := h.hands party
    rw [sweep_of_flushes hflushes] at hold
    have hnew : List.Forall₂ (IsHand config.options.cardinality s.log) (a.drain kind).1
        ((a.drain kind).1.map t.represented) := by
      rw [List.forall₂_map_right_iff, List.forall₂_same]
      refine fun e he => ⟨isFull_of_mem_drainedOf (hperm.mem_iff.mp he), fun n hn => ?_⟩
      -- What the entry stands for was merged under its label.
      obtain ⟨item, hitem, rfl⟩ := List.mem_map.mp hn
      obtain ⟨hmem, hlabel⟩ := List.mem_filter.mp hitem
      obtain ⟨m, haccepted, hm⟩ := h.honest.live item hmem
      exact ⟨_, haccepted, m, rfl, (of_decide_eq_true hlabel).trans (congrArg some hm)⟩
    simpa [Trail.drain] using List.rel_append hold hnew
  · refine fun n _ _ hn => hn.drain party fun item hitem hkind => ?_
    -- What stands for a merge was taken out together with it.
    subst hkind
    obtain ⟨e, he, hlabel⟩ := exists_label?_drainedOf a.settings.maxSamples
      (List.mem_map_of_mem hitem) (h.proper item hitem)
    exact ⟨e, hperm.mem_iff.mpr he, hlabel⟩

/-- An entry that is written goes from the hand of its party into its shard. -/
theorem Matches.putNext (h : s.Matches config client t) (hs : s.Direct) {e : Entry}
    {entries : List Entry} {shards : List Nat}
    (hflushes : s.Flushes { entries := e :: entries, shards } party) (drainer : Option Party) :
    Matches config client
      ({ s with
        client := { s.client with pipeline := s.client.pipeline.put e }, drainer }.setSweep
        { entries, shards } party)
      (t.putNext s.client.pipeline party e) := by
  obtain ⟨group, rest, hgroups, ⟨hfull, htrue⟩, hrest⟩ := h.exists_hand hflushes
  -- The shard gets what the party had first in hand, and the rest stays with the party.
  have hnext : t.putNext s.client.pipeline party e =
      { t with
        toFreight := t.put s.client.pipeline (s.client.pipeline.shardOf e.routingName) e
          (.drained e group)
        hands := Function.update t.hands party rest } := by
    simp [Trail.putNext, hgroups]
  have honest := h.honest.put (.drained e group) h.fits htrue
    (s.client.pipeline.shardOf e.routingName)
  have hhas (n : Nat) (hn : t.Has n) : (t.putNext s.client.pipeline party e).Has n :=
    hn.putNext (hs.shardOf_lt _) hfull (by rw [hgroups]; exact List.cons_ne_nil _ _)
  rw [hnext] at hhas ⊢
  exact h.setSweep hflushes drainer h.tables h.unmerged h.proper (by simpa using hrest)
    (fun other hother => Function.update_of_ne hother _ _) (h.fits.put _ e _)
    ((Pipeline.word_atShard fun _ _ _ => rfl).trans h.word_eq)
    ⟨honest.live, honest.rows, honest.dropped, honest.leftOut⟩ fun n _ _ => hhas n

/-- A payload that is handed over takes its samples along. -/
theorem Matches.handOver (h : s.Matches config client t) {j : Nat} {shards : List Nat}
    (hflushes : s.Flushes { shards := j :: shards } party) (drainer : Option Party) :
    Matches config client
      ({ s with
        client := { s.client with pipeline := s.client.pipeline.handOverAt j }, drainer }.setSweep
        { shards } party)
      (t.setFreight (t.handOver s.client.pipeline j)) := by
  have hhand := h.hands party
  rw [sweep_of_flushes hflushes] at hhand
  exact h.setSweep hflushes drainer h.tables h.unmerged h.proper hhand (fun _ _ => rfl)
    (h.fits.handOver j) ((Pipeline.word_atShard fun _ _ _ => rfl).trans h.word_eq)
    (h.honest.handOver _ j) fun n _ _ hn => hn.handOver _ j

/-- What comes next in a flush. -/
theorem Matches.advance (h : s.Matches config client t) (hs : s.Direct)
    (hflushes : s.Flushes w party) (hleft : w.isDone = false) (drainer : Option Party) :
    Matches config client
      ({ s with client := (w.advance s.client).2, drainer }.setSweep (w.advance s.client).1 party)
      (t.advance s.client party w) := by
  match w with
  | { kinds := kind :: kinds, entries, shards } =>
    cases ha : s.client.aggregator with
    | none =>
      simp only [Sweep.advance, Trail.advance, ha]
      refine h.stay ?_ ?_ ?_
        (entries_setSweep hflushes { kinds, entries, shards } rfl _ drainer) ?_
      · rw [client_setSweep]
      · rw [client_setSweep]
      · rw [courier_setSweep]
      · exact .inl (log_setSweep _ _)
    | some a =>
      simp only [Sweep.advance, Trail.advance, ha]
      exact h.drain ha hflushes rfl drainer
  | { kinds := [], entries := e :: entries, shards } => exact h.putNext hs hflushes drainer
  | { kinds := [], entries := [], shards := j :: shards } => exact h.handOver hflushes drainer
  | { kinds := [], entries := [], shards := [] } => cases hleft

end

/-! ## Steps -/

omit [Transport τ] in
/-- The trail follows the move of a party in a flush by what comes next in that flush. -/
theorem Trail.follow_advance (t : Trail) {party : Party} {w : Sweep}
    (h : s.Flushes w party) (hleft : w.isDone = false) :
    t.follow s party.move = t.advance s.client party w := by
  cases party with
  | caller i =>
    have hcaller : s.callers[i]? = some (.flushing w) := h
    simp [Trail.follow, Party.move, hcaller, hleft]
  | ticker i =>
    obtain ⟨plan, hplan⟩ := h
    simp [Trail.follow, Party.move, hplan]

/-- A sample that is merged. -/
theorem Matches.merge (h : s.Matches config client t) {i : Nat} {m : Metric} {a : Aggregator}
    (hsending : s.callers[i]? = some (.sending (.metric m))) (ha : s.client.aggregator = some a)
    (htakes : a.takes m = true) (accepted : Accepted) :
    Matches config client
      ({ s with
        client :=
          { s.client with
            accepted
            aggregator := some (a.aggregate s.client.pipeline.draws m).2.1
            pipeline :=
              { s.client.pipeline with
                draws := (a.aggregate s.client.pipeline.draws m).2.2 } } }.answer
        i (.send (.metric m)) (.ok ()))
      (t.merge s.log.length s.client.pipeline.draws
        ((DogStatsD.Request.aggregate m).merges a.settings s.client.pipeline.draws)) := by
  obtain ⟨hcardinality, htables⟩ := h.tables a ha
  have hlater := htables.request s.client.pipeline.draws (.aggregate m) nofun
  -- The sample is known by the place that its answer is about to take in the log.
  have haccepted :
      IsAccepted (s.log ++ [⟨i, .send (.metric m), .ok ()⟩]) s.log.length (.metric m) :=
    isAccepted_append.mpr (.inr ⟨rfl, rfl⟩)
  refine ⟨?_, nofun, ?_, ?_, ?_, ?_, ?_, ?_⟩
  · rintro later ⟨rfl⟩
    have hsettings := hlater.settings_eq
    change (a.aggregate s.client.pipeline.draws m).2.1.settings = a.settings at hsettings
    -- What was merged and what is merged now stand for the tables together.
    have hmerged (merges : List Merge) :
        (t.live ++ merges.map fun m => (s.log.length, m)).map Prod.snd =
          t.live.map Prod.snd ++ merges := by
      simp
    rw [hsettings, Trail.live_merge, hmerged]
    exact ⟨hcardinality, hlater⟩
  · intro item hitem
    rw [Trail.live_merge, List.mem_append] at hitem
    obtain hold | hnew := hitem
    · exact h.proper item hold
    · obtain ⟨merge, hmerge, rfl⟩ := List.mem_map.mp hnew
      exact isProper_of_mem_merges hmerge
  · rw [Trail.hands_merge]
    exact h.hands_of_eq (entries_setCaller hsending rfl) (List.prefix_append _ _)
  · rw [Trail.toFreight_merge]
    exact h.fits.of_packers rfl rfl
  · exact (a.word_aggregate _ m).trans h.word_eq
  · exact (h.honest.mono (List.prefix_append _ _)).merge h.word_eq haccepted hcardinality
      ((a.takes_iff m).mp htakes)
  · exact h.accounted_append (fun n hn => hn.merge _ _ _) fun _ => Trail.has_merge _ _ _ _

/-- A sample that is processed by its shard. -/
theorem Matches.call (h : s.Matches config client t) (hs : s.Direct) {i : Nat} {sample : Sample}
    (hdispatching : s.callers[i]? = some (.dispatching sample)) :
    Matches config client
      ((s.setPipeline (s.client.pipeline.dispatch sample).2).answer i (.send sample) (.ok ()))
      (t.call s.client.pipeline s.log.length sample) := by
  have haccepted : IsAccepted (s.log ++ [⟨i, .send sample, .ok ()⟩]) s.log.length sample :=
    isAccepted_append.mpr (.inr ⟨rfl, rfl⟩)
  rw [Pipeline.dispatch_of_direct hs.intake_eq]
  exact ⟨h.tables, h.unmerged, h.proper,
    h.hands_of_eq (entries_setCaller hdispatching rfl) (List.prefix_append _ _),
    h.fits.process _ sample _,
    (Pipeline.word_atShard fun shard o d => shard.word_process o d sample).trans h.word_eq,
    (h.honest.mono (List.prefix_append _ _)).call h.fits h.word_eq haccepted,
    h.accounted_append (fun n hn => hn.call _ _ sample) fun _ =>
      Trail.has_call (hs.shardOf_lt sample.routingName) t _⟩

/-- A step of a client in use keeps the trail true. -/
theorem Matches.next (h : s.Matches config client t) (hs : s.Direct) {move : Move}
    (hnext : s.Next move s') : s'.Matches config client (t.follow s move) := by
  cases hnext with
  | send hidle | flush hidle => exact h.stay rfl rfl rfl (entries_setCaller hidle rfl) (.inl rfl)
  | reject hsending hreason =>
    simp only [Trail.follow, hsending, Trail.submit, hreason]
    exact h.stay rfl rfl rfl (entries_setCaller hsending rfl) (.inr ⟨_, rfl, rfl⟩)
  | merge hsending hvalid ha htakes =>
    simp only [Trail.follow, hsending, Trail.submit, hvalid, ha, htakes, if_true]
    exact h.merge hsending ha htakes _
  | pass hsending hback =>
    simp only [Trail.follow, hsending, Trail.submit_of_not_takes hback]
    exact h.stay rfl rfl rfl (entries_setCaller hsending rfl) (.inl rfl)
  | dispatch hdispatching =>
    simp only [Trail.follow, hdispatching]
    exact h.call hs hdispatching
  | @advance party w drainer hflushes hleft =>
    rw [Trail.follow_advance t hflushes hleft]
    exact h.advance hs hflushes hleft drainer
  | raise hflushing =>
    simp only [Trail.follow, hflushing]
    exact h.of_wire rfl rfl rfl (entries_setCaller hflushing rfl) (h.fits.raise _) t.wire_raise rfl
      rfl rfl
  | finish hawaiting hbarrier =>
    simp only [Trail.follow, hawaiting]
    exact h.stay rfl rfl rfl (entries_setCaller hawaiting rfl) (.inr ⟨_, rfl, rfl⟩)
  | tick hticker =>
    exact h.stay rfl rfl rfl
      (entries_setTicker hticker (hs.plans _ (List.mem_of_getElem? hticker))) (.inl rfl)
  | rest hticker =>
    simp only [Trail.follow, hticker]
    exact h.stay rfl rfl rfl (entries_setTicker hticker rfl) (.inl rfl)
  | fetch hcourier hqueue =>
    -- A payload that changes hands between queue and courier stays on the same wire.
    have hfits := h.fits
    rw [hcourier] at hfits
    obtain ⟨hfits, hwire⟩ := hfits.fetch hqueue
    exact h.of_wire rfl rfl rfl (fun _ => rfl) hfits hwire rfl rfl rfl
  | carry hcourier =>
    have hfits := h.fits
    rw [hcourier] at hfits
    obtain ⟨hfits, hwire⟩ := hfits.carry
    exact h.of_wire rfl rfl rfl (fun _ => rfl) hfits hwire rfl rfl rfl

/-! ## What has become of samples -/

omit [Transport τ] in
/-- A true origin that a sample is behind is the sample, or stands for it. -/
theorem Origin.IsTrue.isOf {cardinality : Option Cardinality} {log : List Answer} {origin : Origin}
    {n : Nat} {sample : Sample} (h : origin.IsTrue cardinality log) (hn : n ∈ origin.numbers)
    (haccepted : IsAccepted log n sample) : origin.IsOf cardinality n sample := by
  cases origin with
  | sent m other =>
    obtain rfl : n = m := List.mem_singleton.mp hn
    exact ⟨rfl, Option.some.inj (Eq.trans (Eq.symm h) haccepted)⟩
  | drained e numbers =>
    obtain ⟨other, hother, hstands⟩ := h n hn
    obtain rfl : other = sample := Option.some.inj (hother.symm.trans haccepted)
    exact ⟨hn, hstands⟩

/-- A row is a line of a sample, or of an entry that stands for it. -/
def IsRowOf (options : Line.Options) (n : Nat) (sample : Sample) (row : Row Origin) : Prop :=
  row.origin.IsOf options.cardinality n sample ∧ row.origin.entry.IsLine options row.line

/-- What has become of a sample that is held nowhere any more. -/
inductive Trail.Settles (options : Line.Options) (word : Nat → UInt64) (t : Trail) (n : Nat)
    (sample : Sample) : Prop
  /-- A line of it, or of the entry that stands for it, was given to the transport. -/
  | written {row : Row Origin} (h : row ∈ t.written.flatten) (hrow : IsRowOf options n sample row)
  /-- Such a line was in a payload that found the queue full. -/
  | refused {row : Row Origin} (h : row ∈ t.refused.flatten) (hrow : IsRowOf options n sample row)
  /-- It, or the entry that stands for it, was dropped for its size. -/
  | dropped {origin : Origin} (h : origin ∈ t.dropped)
    (horigin : origin.IsOf options.cardinality n sample)
  /-- A word of the stream has left it out. -/
  | leftOut {d : Draws} (h : (n, d) ∈ t.leftOut) (hword : d.word = word)
    (hkeeps : (Shard.keeps d sample).1 = false)

/-- What a trail tells of a sample that is settled is so of that very sample. -/
theorem Matches.settles (h : s.Matches config client t) {n : Nat} {sample : Sample}
    (haccepted : IsAccepted s.log n sample) (hsettled : t.IsSettled n) :
    t.Settles config.options client.pipeline.draws.word n sample := by
  -- Every row that the trail has tells the truth about its origin, wherever it has come to.
  have hrow {row : Row Origin} (hmem : t.toFreight.Has row) (hn : n ∈ row.origin.numbers) :
      IsRowOf config.options n sample row :=
    ⟨(h.honest.rows row hmem).1.isOf hn haccepted, (h.honest.rows row hmem).2⟩
  cases hsettled with
  | written hmem =>
    obtain ⟨row, hmem, hn⟩ := Trail.mem_numbersOf.mp hmem
    exact .written hmem (hrow (.wire (t.sublist_wire.subset hmem)) hn)
  | refused hmem =>
    obtain ⟨row, hmem, hn⟩ := Trail.mem_numbersOf.mp hmem
    exact .refused hmem (hrow (.refused hmem) hn)
  | dropped hmem hn => exact .dropped hmem ((h.honest.dropped _ hmem).isOf hn haccepted)
  | leftOut hmem =>
    obtain ⟨hword, other, hother, hkeeps⟩ := h.honest.leftOut _ hmem
    -- The log has one answer at that place, hence one sample.
    obtain rfl : other = sample := Option.some.inj (hother.symm.trans haccepted)
    exact .leftOut hmem hword hkeeps

/-- At first, there are no samples. -/
theorem matches_start {config : Config} {transport : τ} {route : String → Nat} {draws : Draws}
    {client : Client τ} (hbuild : config.buildWith transport route draws = .ok client)
    (callers : Nat) : (start client callers).Matches config client {} := by
  obtain ⟨-, later, -, hclient⟩ := Config.eq_of_buildWith hbuild
  obtain ⟨pool, hpool, hpipeline⟩ := config.pipeline_eq later route draws
  have haggregator : client.aggregator = config.aggregator := by rw [hclient]
  have hnew : client.pipeline = config.pipeline later route draws := by rw [hclient]
  refine ⟨?_, fun _ => rfl, List.forall_mem_nil _, fun party => ?_, ?_, rfl,
    ⟨List.forall_mem_nil _, fun row hrow => absurd hrow (Freight.not_has_empty row),
      List.forall_mem_nil _, List.forall_mem_nil _⟩, fun _ _ haccepted => ?_⟩
  · intro a ha
    rw [start, haggregator, Config.aggregator] at ha
    split at ha <;> cases ha
    exact ⟨rfl, Aggregator.holds_nil _ _⟩
  · rw [entries_start]
    exact .nil
  · rw [start, hnew, hpipeline]
    exact Freight.fits_start hpool config.options config.workers route draws _ config.queueSize true
      later
  · simp [start, IsAccepted] at haccepted

end

end System

end DogStatsD
