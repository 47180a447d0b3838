import DogStatsD.Proofs.Aggregator.Flush

/-!
# Windows of an Aggregator

Between two flushes lies a window. What the next flush gives back is fixed by what was merged in the
window, and that by the requests, the settings and the draws; windows do not see each other.

* `Window`, `Window.step`: the merges of the window that is open, without any table;
* `Request.run`: the requests on an aggregator;
* `Window.Describes.step`, `Window.Describes.steps`: an aggregator goes along with its window over
  any requests;
* `flush_after_requests`: what is handed back, flushed, counted and left after any requests.
-/

namespace DogStatsD

/-- What is asked of an aggregator. -/
inductive Request where
  /-- A metric sample is to be merged, or handed back. -/
  | aggregate (metric : Metric)
  | count (context : Context) (value : Int64)
  | gauge (context : Context) (value : Float)
  | set (context : Context) (value : String)
  /-- An observation is sampled, and kept if sampling keeps it. -/
  | observe (kind : Kind) (context : Context) (value rate : Float)
  | flush

namespace Request

/-- Carry out a request. -/
def run : Aggregator × Draws → Request → Aggregator × Draws
  | (a, d), .aggregate m => (a.aggregate d m).2
  | (a, d), .count context value => (a.count context value, d)
  | (a, d), .gauge context value => (a.gauge context value, d)
  | (a, d), .set context value => (a.set context value, d)
  | (a, d), .observe kind context value rate => a.observe d kind context value rate
  | (a, d), .flush => (a.flush.2, d)

/-- Carry out requests one after the other. -/
def runAll (start : Aggregator × Draws) (requests : List Request) : Aggregator × Draws :=
  requests.foldl run start

end Request

/-- Whether a metric sample is handed back: it has a timestamp, or it is an observation and these
are not gathered. -/
def IsHandedBack (settings : AggregatorSettings) (m : Metric) : Prop :=
  m.timestamp ≠ none ∨ m.kind.isReservoir = true ∧ settings.extended = false

instance (settings : AggregatorSettings) (m : Metric) : Decidable (IsHandedBack settings m) := by
  unfold IsHandedBack
  infer_instance

/-- An aggregator merges a sample exactly if it does not hand it back. -/
theorem Aggregator.takes_iff (a : Aggregator) (m : Metric) :
    a.takes m = true ↔ ¬IsHandedBack a.settings m := by
  unfold takes IsHandedBack
  cases m.timestamp <;> cases m.kind.isReservoir <;> simp

/-- The window that is open, and what was counted of those before it. -/
structure Window where
  /-- What was merged in the window, the oldest first. -/
  merges : List Merge := []
  /-- The number of contexts of each kind flushed so far. -/
  flushed : Kind → Nat := fun _ => 0
  draws : Draws

namespace Window

def add (w : Window) (m : Merge) : Window :=
  { w with merges := w.merges ++ [m] }

/-- Sample an observation, and merge it if sampling keeps it. -/
def observe (w : Window) (kind : Kind) (context : Context) (value rate : Float) : Window :=
  let (kept, draws) := w.draws.keeps rate
  let w := { w with draws }
  if kept then w.add (.observation kind context value rate) else w

/-- Merge a metric sample unless it is handed back. Its own cardinality goes before that of the
settings. -/
def aggregate (settings : AggregatorSettings) (w : Window) (m : Metric) : Window :=
  if IsHandedBack settings m then w
  else
    let context := ⟨m.name, m.cardinality.or settings.cardinality, m.tags⟩
    match m.value with
    | .gauge value => w.add (.gauge context value)
    | .count value => w.add (.count context value)
    | .set value => w.add (.set context value)
    | .histogram value => w.observe .histogram context value m.rate
    | .distribution value => w.observe .distribution context value m.rate
    | .timing value => w.observe .timing context value m.rate

/-- Follow a request. -/
def step (settings : AggregatorSettings) (w : Window) : Request → Window
  | .aggregate m => w.aggregate settings m
  | .count context value => w.add (.count context value)
  | .gauge context value => w.add (.gauge context value)
  | .set context value => w.add (.set context value)
  | .observe kind context value rate => w.observe kind context value rate
  | .flush =>
    { w with
      merges := []
      flushed := fun kind => w.flushed kind + (flushedContexts w.merges kind).length }

/-- Follow requests one after the other. -/
def steps (settings : AggregatorSettings) (w : Window) (requests : List Request) : Window :=
  requests.foldl (step settings) w

/-- An aggregator holds the merges of the window and has counted what was flushed. -/
structure Describes (settings : AggregatorSettings) (w : Window) (state : Aggregator × Draws) :
    Prop where
  holds : state.1.Holds settings w.merges
  /-- The counters count what was flushed. -/
  contexts_eq : ∀ kind, state.1.contexts.of kind = w.flushed kind
  draws_eq : state.2 = w.draws

variable {settings : AggregatorSettings} {w : Window} {state : Aggregator × Draws}

/-- A merge counts nothing. -/
@[simp]
theorem contexts_apply (a : Aggregator) (m : Merge) : (m.apply a).contexts = a.contexts := by
  cases m with
  | observation kind context value rate => cases kind <;> rfl
  | count | gauge | set => rfl

/-- A merge keeps an aggregator with its window. -/
theorem Describes.add (h : w.Describes settings state) (m : Merge) :
    (w.add m).Describes settings (m.apply state.1, state.2) :=
  ⟨h.holds.apply m, fun kind => by rw [contexts_apply, h.contexts_eq]; rfl, h.draws_eq⟩

/-- An observation keeps an aggregator with its window, whether sampling keeps it or not. -/
theorem Describes.observe (h : w.Describes settings state) (kind : Kind) (context : Context)
    (value rate : Float) :
    (w.observe kind context value rate).Describes settings
      (state.1.observe state.2 kind context value rate) := by
  unfold Window.observe Aggregator.observe
  rw [h.draws_eq]
  -- The draw is made in either case.
  have hdrawn : Describes settings { w with draws := (w.draws.keeps rate).2 }
      (state.1, (w.draws.keeps rate).2) := ⟨h.holds, h.contexts_eq, rfl⟩
  by_cases hkept : (w.draws.keeps rate).1 = true
  · simp only [hkept, if_true]
    exact hdrawn.add (.observation kind context value rate)
  · simp only [hkept]
    exact hdrawn

/-- A sample is merged exactly if it is not handed back. -/
theorem Describes.takes_iff (h : w.Describes settings state) (m : Metric) :
    state.1.takes m = true ↔ ¬IsHandedBack settings m := by
  rw [state.1.takes_iff, h.holds.settings_eq]

/-- Merging a sample keeps an aggregator with its window. -/
theorem Describes.aggregate (h : w.Describes settings state) (m : Metric) :
    (w.aggregate settings m).Describes settings (state.1.aggregate state.2 m).2 := by
  unfold Aggregator.aggregate Window.aggregate
  by_cases hback : IsHandedBack settings m
  · rw [if_neg (mt (h.takes_iff m).mp (not_not.mpr hback)), if_pos hback]
    exact h
  · -- Both resolve the cardinality by the same settings.
    rw [if_pos ((h.takes_iff m).mpr hback), if_neg hback, Context.ofMetric, h.holds.settings_eq]
    cases m.value with
    | gauge value => exact h.add (.gauge _ value)
    | count value => exact h.add (.count _ value)
    | set value => exact h.add (.set _ value)
    | histogram value => exact h.observe .histogram _ value m.rate
    | distribution value => exact h.observe .distribution _ value m.rate
    | timing value => exact h.observe .timing _ value m.rate

/-- Taking everything out opens the next window. -/
theorem Describes.flush (h : w.Describes settings state) :
    (w.step settings .flush).Describes settings (state.1.flush.2, state.2) := by
  refine ⟨?_, ?_, h.draws_eq⟩
  · rw [Aggregator.flush_snd, h.holds.settings_eq]
    exact Aggregator.holds_nil settings _
  · intro kind
    rw [Aggregator.contexts_flush, h.holds.sizeOf_eq, h.contexts_eq]
    rfl

/-- A request keeps an aggregator with its window. -/
theorem Describes.step (h : w.Describes settings state) (request : Request) :
    (w.step settings request).Describes settings (request.run state) := by
  cases request with
  | aggregate m => exact h.aggregate m
  | count context value => exact h.add (.count context value)
  | gauge context value => exact h.add (.gauge context value)
  | set context value => exact h.add (.set context value)
  | observe kind context value rate => exact h.observe kind context value rate
  | flush => exact h.flush

/-- Requests keep an aggregator with its window. -/
theorem Describes.steps (h : w.Describes settings state) (requests : List Request) :
    (w.steps settings requests).Describes settings (Request.runAll state requests) := by
  induction requests generalizing w state with
  | nil => exact h
  | cons request rest ih => exact ih (h.step request)

end Window

/-! ## What flushes look like -/

/-- An entry is made of a context that was merged into: an unsampled metric without a timestamp, or
a batch that is not empty. -/
def IsMerged (merges : List Merge) : Entry → Prop
  | .sample (.metric m) => m.rate = 1.0 ∧ m.timestamp = none ∧
      ∃ context ∈ flushedContexts merges m.kind,
        m.name = context.name ∧ m.tags = context.tags ∧ m.cardinality = context.cardinality
  | .sample (.event _) | .sample (.serviceCheck _) => False
  | .batch b =>
    b.values ≠ [] ∧ b.kind.isReservoir = true ∧ b.context ∈ flushedContexts merges b.kind

/-- A metric made of a context that was merged into is merged. -/
theorem isMerged_metric {merges : List Merge} {context : Context} {value : Value}
    (h : context ∈ flushedContexts merges value.kind) :
    IsMerged merges (.metric (context.metric value)) :=
  ⟨rfl, rfl, context, h, rfl, rfl, rfl⟩

theorem isMerged_batchesOf {bound : Option Nat} {kind : Kind} {merges : List Merge}
    (hkind : kind.isReservoir = true)
    (hcontexts : flushedContexts merges kind =
      contextsOf (merges.filterMap (Merge.observation? kind))) {e : Entry}
    (he : e ∈ batchesOf bound kind merges) : IsMerged merges e := by
  obtain ⟨context, hmem, rfl⟩ := List.mem_map.mp he
  have hitems := itemsOf_ne_nil _ context ((mem_contextsOf _ context).mp hmem)
  exact ⟨keptOf_ne_nil bound (mt List.map_eq_nil_iff.mp hitems), hkind, hcontexts ▸ hmem⟩

/-- Everything flushed is merged. -/
theorem isMerged_entriesOf {bound : Option Nat} {merges : List Merge} {e : Entry}
    (he : e ∈ entriesOf bound merges) : IsMerged merges e := by
  simp only [entriesOf, List.mem_append] at he
  rcases he with ((((hcount | hgauge) | hset) | hhistogram) | hdistribution) | htiming
  · obtain ⟨context, hmem, rfl⟩ := List.mem_map.mp hcount
    exact isMerged_metric hmem
  · obtain ⟨context, hmem, rfl⟩ := List.mem_map.mp hgauge
    exact isMerged_metric hmem
  · obtain ⟨⟨context, member⟩, hmem, rfl⟩ := List.mem_map.mp hset
    refine isMerged_metric ((mem_contextsOf _ context).mpr ?_)
    exact List.mem_map.mpr ⟨(context, member), List.mem_dedup.mp hmem, rfl⟩
  · exact isMerged_batchesOf rfl rfl hhistogram
  · exact isMerged_batchesOf rfl rfl hdistribution
  · exact isMerged_batchesOf rfl rfl htiming

/-- After any requests, with any settings and any outcome of the draws:

* a metric sample is handed back as it is, and nothing changes, exactly if it has a timestamp or is
  an observation that is not gathered;
* a flush gives back, in some order, what the merges of the open window amount to, each entry with
  the context that was merged into, unsampled and without a timestamp;
* it leaves empty tables, and the counter of each kind grows by the number of distinct contexts of
  that kind in the window, as it did with the flushes before. -/
theorem flush_after_requests (settings : AggregatorSettings) (d : Draws) (requests : List Request) :
    let state := Request.runAll ({ settings }, d) requests
    let w := Window.steps settings { draws := d } requests
    let a := state.1
    (∀ m, IsHandedBack settings m → a.aggregate state.2 m = (some m, a, state.2)) ∧
    (∀ m, ¬IsHandedBack settings m → (a.aggregate state.2 m).1 = none) ∧
    a.flush.1.Perm (entriesOf settings.maxSamples w.merges) ∧
    (∀ e ∈ a.flush.1, IsMerged w.merges e) ∧
    a.flush.2 = { settings, contexts := a.flush.2.contexts } ∧
    (∀ kind, a.flush.2.contexts.of kind =
      a.contexts.of kind + (flushedContexts w.merges kind).length) ∧
    ∀ kind, a.contexts.of kind = w.flushed kind := by
  intro state w a
  have hstart : Window.Describes settings { draws := d } ({ settings }, d) :=
    ⟨Aggregator.holds_nil settings {}, fun kind => by cases kind <;> rfl, rfl⟩
  -- All parts are read off the invariant that the requests keep.
  have h : w.Describes settings state := hstart.steps requests
  have hperm := h.holds.flush_perm
  refine ⟨?_, ?_, hperm,
    fun e he => isMerged_entriesOf (hperm.mem_iff.mp he), ?_, ?_, h.contexts_eq⟩
  · intro m hback
    exact if_neg (mt (h.takes_iff m).mp (not_not.mpr hback))
  · intro m hmerged
    rw [Aggregator.aggregate, if_pos ((h.takes_iff m).mpr hmerged)]
  · rw [← h.holds.settings_eq]
    exact Aggregator.flush_snd a
  · intro kind
    rw [Aggregator.contexts_flush, h.holds.sizeOf_eq]

end DogStatsD
