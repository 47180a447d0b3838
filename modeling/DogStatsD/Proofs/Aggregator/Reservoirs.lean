import DogStatsD.Proofs.Aggregator.Window
import DogStatsD.Proofs.Binary64.Share
import Mathlib.Tactic.Ring

/-!
# What Is Flushed of Observations

A flush gives back one batch for each context that observations were kept of. How many values it has
is a matter of the bound, and its rate tells the server what share of the observations they are; but
if the caller has sampled, the rate is the caller's, and observations that made room for others are
not accounted for.

* `Retains`: which of the values observed are flushed, and in which order;
* `batchesFor_flush`: the batch of a context after any requests;
* `flush_gives_reservoirs`: its values and its rate;
* `reportedRate`, `scales_up_iff_whole`: when its rate accounts for all observations.
-/

namespace DogStatsD

open Binary64

/-! ## Values -/

/-- The values in the order in which a store without bound gives them back: cut into blocks of
sixty-four, the newest block first, which may be shorter, and each block in order of arrival. -/
def InBlocks (values flushed : List Float) : Prop :=
  ∃ (full : List (List Float)) (rest : List Float),
    values = full.flatten ++ rest ∧ (∀ block ∈ full, block.length = 64) ∧ rest.length ≤ 64 ∧
      flushed = rest ++ full.reverse.flatten

/-- What is flushed of the values observed. With a bound these are the last ones in order of
arrival, as many as the bound allows, and one at least; without, they are all values, in blocks. -/
def Retains (bound : Option Nat) (values flushed : List Float) : Prop :=
  match bound with
  | some bound => flushed <:+ values ∧ flushed.length = min values.length (max bound 1)
  | none => flushed.Perm values ∧ InBlocks values flushed

/-- Blocks in reverse order are full ones behind a rest. -/
theorem inBlocks_reverse_blocks (values : List Float) :
    InBlocks values (Reservoir.blocks values).reverse.flatten := by
  fun_induction Reservoir.blocks values with
  | case1 => exact ⟨[], [], rfl, by simp, by simp, rfl⟩
  | case2 values hne ih =>
    obtain ⟨full, rest, hvalues, hfull, hrest, hflushed⟩ := ih
    rw [List.reverse_cons, List.flatten_append, hflushed]
    by_cases hlong : 64 ≤ values.length
    · refine ⟨values.take 64 :: full, rest, ?_, ?_, hrest, ?_⟩
      · rw [List.flatten_cons, List.append_assoc, ← hvalues]
        exact (List.take_append_drop 64 values).symm
      · rintro block (_ | ⟨_, hblock⟩)
        · simp [hlong]
        · exact hfull block hblock
      · simp [Reservoir.blockSize]
    · -- The only block is the rest.
      have hnil : full.flatten ++ rest = [] := by
        rw [← hvalues]
        exact List.drop_eq_nil_of_le (Nat.le_of_not_le hlong)
      obtain ⟨hfullnil, rfl⟩ := List.append_eq_nil_iff.mp hnil
      have hreverse : full.reverse.flatten = [] := by simpa using hfullnil
      have htake : values.take Reservoir.blockSize = values :=
        List.take_of_length_le (Nat.le_of_not_le hlong)
      exact ⟨[], values, rfl, by simp, Nat.le_of_not_le hlong, by simp [hreverse, htake]⟩

/-- What a reservoir gives back is what is to be flushed. -/
theorem retains_keptOf (bound : Option Nat) (values : List Float) :
    Retains bound values (keptOf bound values) := by
  cases bound with
  | none => exact ⟨reverse_blocks_perm values, inBlocks_reverse_blocks values⟩
  | some bound =>
    refine ⟨List.drop_suffix _ _, ?_⟩
    rw [keptOf, List.length_drop]
    omega

/-- No more values are flushed than were observed. -/
theorem Retains.length_le {bound : Option Nat} {values flushed : List Float}
    (h : Retains bound values flushed) : flushed.length ≤ values.length := by
  cases bound with
  | none => exact h.1.length_eq.le
  | some bound => exact h.1.length_le

/-! ## Batches -/

/-- The observations of one kind and context, the oldest first, each with its rate. -/
def observationsOf (kind : Kind) (context : Context) (merges : List Merge) : List (Float × Float) :=
  itemsOf (merges.filterMap (Merge.observation? kind)) context

/-- The batches of one kind and context. -/
def batchesFor (kind : Kind) (context : Context) (entries : List Entry) : List Batch :=
  entries.filterMap fun
    | .batch b => if b.kind = kind ∧ b.context = context then some b else none
    | .sample _ => none

theorem batchesFor_append (kind : Kind) (context : Context) (entries others : List Entry) :
    batchesFor kind context (entries ++ others) =
      batchesFor kind context entries ++ batchesFor kind context others :=
  List.filterMap_append

/-- Metrics are not batches. -/
theorem batchesFor_map_metric {α : Type} (kind : Kind) (context : Context) (metric : α → Metric)
    (items : List α) :
    batchesFor kind context (items.map fun item => .metric (metric item)) = [] := by
  simp [batchesFor, Entry.metric, List.filterMap_map]

/-- Of the batches of one kind, at most one is for a given kind and context. -/
theorem batchesFor_batchesOf (bound : Option Nat) (kind other : Kind) (context : Context)
    (merges : List Merge) :
    batchesFor kind context (batchesOf bound other merges) =
      if other = kind ∧ observationsOf kind context merges ≠ [] then
        [batchOf bound kind context (observationsOf kind context merges)]
      else [] := by
  unfold batchesFor batchesOf
  rw [List.filterMap_map]
  by_cases hother : other = kind
  · subst hother
    have hselect := filterMap_contextsOf (merges.filterMap (Merge.observation? other)) context
      fun c => batchOf bound other c (itemsOf (merges.filterMap (Merge.observation? other)) c)
    simpa [Function.comp_def, batchOf, observationsOf, ite_not] using hselect
  · simp [batchOf, hother]

/-- Requests on a fresh aggregator leave it with what was merged in the open window. -/
theorem Window.describes_runAll (settings : AggregatorSettings) (d : Draws)
    (requests : List Request) :
    (Window.steps settings { draws := d } requests).Describes settings
      (Request.runAll ({ settings }, d) requests) :=
  Window.Describes.steps
    ⟨Aggregator.holds_nil settings {}, fun kind => by cases kind <;> rfl, rfl⟩ requests

/-- After any requests, a flush gives back one batch for a kind and context that observations were
kept of, and none for any other. -/
theorem batchesFor_flush (settings : AggregatorSettings) (d : Draws) (requests : List Request)
    {kind : Kind} (hkind : kind.isReservoir = true) (context : Context) :
    let kept := observationsOf kind context (Window.steps settings { draws := d } requests).merges
    batchesFor kind context (Request.runAll ({ settings }, d) requests).1.flush.1 =
      if kept = [] then [] else [batchOf settings.maxSamples kind context kept] := by
  intro kept
  have hperm := (Window.describes_runAll settings d requests).holds.flush_perm
  have hfor : (batchesFor kind context (Request.runAll ({ settings }, d) requests).1.flush.1).Perm
      (batchesFor kind context (entriesOf settings.maxSamples
        (Window.steps settings { draws := d } requests).merges)) := hperm.filterMap _
  -- Only the batches of one kind matter, and of these there is one at most.
  have hentries : batchesFor kind context (entriesOf settings.maxSamples
      (Window.steps settings { draws := d } requests).merges) =
      if kept = [] then [] else [batchOf settings.maxSamples kind context kept] := by
    simp only [entriesOf, batchesFor_append, totalsOf, lastsOf, membersOf, batchesFor_map_metric,
      batchesFor_batchesOf, List.nil_append]
    cases kind <;> cases hkind <;> simp [kept, ite_not]
  rw [hentries] at hfor
  exact eq_of_perm_ite hfor

/-! ## Rates -/

/-- The rate that is reported for a number of values out of a number of observations, in any
arithmetic: that of the first observation if it is below one, and else the share that is flushed. -/
def reportedRate {α : Type} [LT α] [DecidableLT α] (one : α) (share : ℕ → ℕ → α) (first : α)
    (flushed observed : ℕ) : α :=
  if first < one then first else share flushed observed

/-- A batch reports its rate in doubles. -/
theorem rate_batchOf (bound : Option Nat) (kind : Kind) (context : Context) {value rate : Float}
    {kept rest : List (Float × Float)} (h : kept = (value, rate) :: rest) :
    (batchOf bound kind context kept).rate =
      reportedRate 1.0 share rate (batchOf bound kind context kept).values.length kept.length := by
  subst h
  rfl

/-- Values that are flushed have a share in the observations, which is one for all of them. -/
theorem Retains.share_bounds {bound : Option Nat} {values flushed : List Float}
    (h : Retains bound values flushed) (hne : flushed ≠ []) (hfits : values.length < 2 ^ 64) :
    0.0 < share flushed.length values.length ∧ share flushed.length values.length ≤ 1.0 ∧
      (flushed.length = values.length → share flushed.length values.length = 1.0) := by
  have hpos := List.length_pos_iff.mpr hne
  refine ⟨share_pos hpos h.length_le hfits, share_le_one hpos h.length_le hfits, ?_⟩
  intro hall
  rw [hall] at hpos ⊢
  exact share_self hpos hfits

/-- What is flushed of the observations kept of a kind and context, after any requests, with any
settings and any outcome of the draws. If there are none, there is no batch. If there are some,
there is one batch:

* its values, of which there is one at least, are those to be flushed: with a bound the last ones in
  order of arrival, as many as the bound allows, and without a bound all of them, in blocks;
* its rate is that of the first observation if this is below one, and else the share of the values
  in the observations. As long as the observations can be counted in sixty-four bits, this share is
  positive and at most one, and it is one if all of them are flushed. -/
theorem flush_gives_reservoirs (settings : AggregatorSettings) (d : Draws)
    (requests : List Request) (kind : Kind) (hkind : kind.isReservoir = true) (context : Context) :
    let kept := observationsOf kind context (Window.steps settings { draws := d } requests).merges
    let batches := batchesFor kind context (Request.runAll ({ settings }, d) requests).1.flush.1
    (kept = [] → batches = []) ∧
    ∀ value rate rest, kept = (value, rate) :: rest → ∃ b, batches = [b] ∧
      Retains settings.maxSamples (kept.map Prod.fst) b.values ∧ b.values ≠ [] ∧
      (rate < 1.0 → b.rate = rate) ∧
      (¬rate < 1.0 → b.rate = b.values.length.toUInt64.toFloat / kept.length.toUInt64.toFloat ∧
        (kept.length < 2 ^ 64 → 0.0 < b.rate ∧ b.rate ≤ 1.0 ∧
          (b.values.length = kept.length → b.rate = 1.0))) := by
  intro kept batches
  -- There is one batch for the context, made of all that was kept in this window.
  have hbatches : batches =
      if kept = [] then [] else [batchOf settings.maxSamples kind context kept] :=
    batchesFor_flush settings d requests hkind context
  refine ⟨fun hnil => hbatches.trans (if_pos hnil), fun value rate rest hkept => ?_⟩
  have hne : kept ≠ [] := by simp [hkept]
  have hretains := retains_keptOf settings.maxSamples (kept.map Prod.fst)
  have hvalues : keptOf settings.maxSamples (kept.map Prod.fst) ≠ [] :=
    keptOf_ne_nil _ (by simpa using hne)
  have hrate := rate_batchOf settings.maxSamples kind context hkept
  refine ⟨_, hbatches.trans (if_neg hne), hretains, hvalues, ?_, ?_⟩
  · intro hsampled
    exact hrate.trans (if_pos hsampled)
  · intro hwhole
    have hshare := hrate.trans (if_neg hwhole)
    refine ⟨hshare, fun hfits => ?_⟩
    -- The bounds of the quotient need counts that sixty-four bits can hold.
    have hbounds := hretains.share_bounds hvalues (by simpa using hfits)
    rw [List.length_map] at hbounds
    rw [hshare]
    exact hbounds

/-- Of three observations, a bound of two leaves the last two, which are two thirds. -/
theorem flush_gives_reservoirs_last_two_of_three :
    let a := (Request.runAll ({ settings := { maxSamples := some 2 } }, ⟨fun _ => 0, 0⟩)
      [.observe .timing ⟨"t", none, []⟩ 3.0 1.0, .observe .timing ⟨"t", none, []⟩ 5.0 0.5,
        .observe .timing ⟨"t", none, []⟩ 4.0 1.0]).1
    ∃ b, batchesFor .timing ⟨"t", none, []⟩ a.flush.1 = [b] ∧
      b.values <:+ [3.0, 5.0, 4.0] ∧ b.values.length = 2 ∧
      b.rate = (2 : Nat).toUInt64.toFloat / (3 : Nat).toUInt64.toFloat ∧ 0.0 < b.rate ∧
      b.rate ≤ 1.0 := by
  have h := (flush_gives_reservoirs { maxSamples := some 2 } ⟨fun _ => 0, 0⟩
    [.observe .timing ⟨"t", none, []⟩ 3.0 1.0, .observe .timing ⟨"t", none, []⟩ 5.0 0.5,
      .observe .timing ⟨"t", none, []⟩ 4.0 1.0] .timing rfl ⟨"t", none, []⟩).2 3.0 1.0
    [(5.0, 0.5), (4.0, 1.0)] rfl
  obtain ⟨b, hb, ⟨hsuffix, hlength⟩, -, -, hwhole⟩ := h
  obtain ⟨hshare, hbounds⟩ := hwhole (by decide)
  have hlength : b.values.length = 2 := hlength
  rw [hlength] at hshare
  obtain ⟨hpos, hle, -⟩ := hbounds (by decide)
  exact ⟨b, hb, hsuffix, hlength, hshare, hpos, hle⟩

/-! ## Scaling up -/

/-- A share as an exact number. -/
def exactShare (flushed observed : ℕ) : ℚ :=
  flushed / observed

/-- In exact numbers, the values flushed and the rate reported give the observations back if nothing
was left out or the caller has not sampled, and only then. -/
theorem scaled_up_iff {rate : ℚ} (hpos : 0 < rate) (hle : rate ≤ 1) {observed bound : ℕ}
    (hobserved : 1 ≤ observed) (hbound : 1 ≤ bound) :
    ((min observed bound : ℕ) : ℚ) /
        reportedRate 1 exactShare rate (min observed bound) observed = observed / rate ↔
      observed ≤ bound ∨ ¬rate < 1 := by
  have hobserved' : (observed : ℚ) ≠ 0 := by positivity
  by_cases hsampled : rate < 1
  · -- The rate is the same whatever was left out.
    rw [reportedRate, if_pos hsampled, div_left_inj' hpos.ne', Nat.cast_inj]
    simp [hsampled]
  · have hone : rate = 1 := le_antisymm hle (not_lt.mp hsampled)
    have hmin : ((min observed bound : ℕ) : ℚ) ≠ 0 := by
      have : 1 ≤ min observed bound := le_min hobserved hbound
      positivity
    rw [reportedRate, if_neg hsampled, exactShare, hone, div_div_cancel₀ hmin, div_one]
    simp

/-- After any requests, with any settings and any outcome of the draws, if all observations kept of
a kind and context have one rate and there is a bound: as many values are flushed as the bound
allows, and in exact numbers these divided by the rate reported are the observations divided by
their rate if and only if none was left out or the rate is one. Below one, the rate reported is that
of the observations, whatever was left out. -/
theorem scales_up_iff_whole (settings : AggregatorSettings) {bound : ℕ}
    (hbound : settings.maxSamples = some bound) (hpos : 1 ≤ bound) (d : Draws)
    (requests : List Request) (kind : Kind) (hkind : kind.isReservoir = true) (context : Context)
    {rate : Float} (hrate : 0.0 < rate) (hone : rate ≤ 1.0) :
    let kept := observationsOf kind context (Window.steps settings { draws := d } requests).merges
    1 ≤ kept.length → (∀ observation ∈ kept, observation.2 = rate) →
    ∃ b, batchesFor kind context (Request.runAll ({ settings }, d) requests).1.flush.1 = [b] ∧
      b.values.length = min kept.length bound ∧
      b.rate = reportedRate 1.0 share rate b.values.length kept.length ∧
      (rate < 1.0 → b.rate = rate ∧ reportedRate 1 exactShare (exactValue rate) b.values.length
        kept.length = exactValue b.rate) ∧
      (b.values.length / reportedRate 1 exactShare (exactValue rate) b.values.length kept.length =
          kept.length / exactValue rate ↔
        kept.length ≤ bound ∨ ¬rate < 1.0) := by
  intro kept hlength hrates
  have hne : kept ≠ [] := List.length_pos_iff.mp hlength
  obtain ⟨⟨value, first⟩, rest, hkept⟩ := List.exists_cons_of_ne_nil hne
  obtain rfl : first = rate := hrates (value, first) (by simp [hkept])
  have hbatches := (batchesFor_flush settings d requests hkind context).trans (if_neg hne)
  have hreported := rate_batchOf settings.maxSamples kind context hkept
  have hretains := retains_keptOf settings.maxSamples (kept.map Prod.fst)
  -- A bound of one at least is the one that is in force.
  have hcount : (batchOf settings.maxSamples kind context kept).values.length =
      min kept.length bound := by
    have hflushed : (keptOf settings.maxSamples (kept.map Prod.fst)).length =
        min (kept.map Prod.fst).length (max bound 1) := by
      rw [hbound] at hretains ⊢
      exact hretains.2
    rw [List.length_map, Nat.max_eq_left hpos] at hflushed
    exact hflushed
  have hbelow : exactValue first < 1 ↔ first < 1.0 := exactValue_lt_one_iff hrate hone
  refine ⟨_, hbatches, hcount, hreported, ?_, ?_⟩
  · intro hsampled
    have hsame := hreported.trans (if_pos hsampled)
    refine ⟨hsame, ?_⟩
    rw [hsame]
    exact if_pos (hbelow.mpr hsampled)
  · rw [hcount, scaled_up_iff (exactValue_pos hrate hone) (exactValue_le_one hrate hone) hlength
      hpos, hbelow]

/-- Two sampled observations are within a bound of two, so that they speak for as many as without
it. -/
theorem scales_up_iff_whole_two_of_two :
    let a := (Request.runAll ({ settings := { maxSamples := some 2 } }, ⟨fun _ => 0, 0⟩)
      [.observe .timing ⟨"t", none, []⟩ 3.0 0.5, .observe .timing ⟨"t", none, []⟩ 4.0 0.5]).1
    ∃ b, batchesFor .timing ⟨"t", none, []⟩ a.flush.1 = [b] ∧ b.values.length = 2 ∧ b.rate = 0.5 ∧
      2 / exactValue b.rate = 2 / exactValue 0.5 := by
  have h := scales_up_iff_whole { maxSamples := some 2 } rfl (by decide) ⟨fun _ => 0, 0⟩
    [.observe .timing ⟨"t", none, []⟩ 3.0 0.5, .observe .timing ⟨"t", none, []⟩ 4.0 0.5]
    .timing rfl ⟨"t", none, []⟩ (by decide : (0.0 : Float) < 0.5) (by decide) (by decide)
    (List.forall_mem_cons.mpr ⟨rfl, List.forall_mem_singleton.mpr rfl⟩)
  obtain ⟨b, hb, hlength, -, hsampled, hscaled⟩ := h
  obtain ⟨hrate, hexact⟩ := hsampled (by decide)
  have hlength : b.values.length = 2 := hlength
  have hscaled := hscaled.mpr (.inl (by decide))
  rw [hexact, hlength] at hscaled
  exact ⟨b, hb, hlength, hrate, hscaled⟩

/-- The double that is written as one half. -/
theorem exactValue_half : exactValue 0.5 = 1 / 2 := by
  have hunpack : (0.5 : Float).toModel.unpack =
      .finite .positive (2 ^ 52) (-53) (by decide) := by rfl
  rw [exactValue_eq hunpack]
  norm_num

/-- Of two observations with a rate of one half, a bound of one leaves one at the same rate. This
speaks for two observations, where two at that rate speak for four. -/
theorem replaced_observation_unaccounted :
    let a := (Request.runAll ({ settings := { maxSamples := some 1 } }, ⟨fun _ => 0, 0⟩)
      [.observe .timing ⟨"t", none, []⟩ 3.0 0.5, .observe .timing ⟨"t", none, []⟩ 4.0 0.5]).1
    ∃ b, batchesFor .timing ⟨"t", none, []⟩ a.flush.1 = [b] ∧
      b.values.length / exactValue b.rate ≠ 2 / exactValue 0.5 := by
  have htiming : Kind.timing.isReservoir = true := rfl
  have hflush := batchesFor_flush { maxSamples := some 1 } ⟨fun _ => 0, 0⟩
    [.observe .timing ⟨"t", none, []⟩ 3.0 0.5, .observe .timing ⟨"t", none, []⟩ 4.0 0.5]
    htiming ⟨"t", none, []⟩
  let b := batchOf (some 1) .timing ⟨"t", none, []⟩ [(3.0, 0.5), (4.0, 0.5)]
  have hlength : b.values.length = 1 := rfl
  have hrate : b.rate = 0.5 :=
    (rate_batchOf (some 1) .timing ⟨"t", none, []⟩ rfl).trans (if_pos (by decide))
  refine ⟨b, hflush, ?_⟩
  rw [hlength, hrate, exactValue_half]
  norm_num

end DogStatsD
