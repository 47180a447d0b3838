import DogStatsD.Proofs.Aggregator.Table
import DogStatsD.Proofs.Recorder.Keys

/-!
# Uses of Instruments

Instruments of one type are used one after the other: each use names one by a key and may update it.
A registry keeps the instruments apart, so that the state of each is fixed by its own updates; and
what an update reports goes under the key with which its instrument was first named.

* `Registry.find_put`: what is found after a state was put back;
* `Registry.Follows`, `Registry.Follows.use`: a registry goes along with the uses;
* `reportsOf`, `itemsOf_reportsOf`: what uses report, and what of it goes under one key.
-/

namespace DogStatsD

/-- The use of an instrument: it is named, and perhaps updated. -/
structure Use (υ : Type) where
  key : Key
  update? : Option υ := none

section

variable {υ : Type}

/-- Some use names the instrument of a key. -/
def IsNamed (uses : List (Use υ)) (key : Key) : Prop :=
  ∃ use ∈ uses, use.key.same key = true

/-- The key with which an instrument was first named, which is the given one if it was not. -/
def firstNamed (uses : List (Use υ)) (key : Key) : Key :=
  ((uses.map Use.key).find? (·.same key)).getD key

/-- The updates of one instrument. -/
def updatesOf (uses : List (Use υ)) (key : Key) : List υ :=
  (uses.filter (·.key.same key)).filterMap Use.update?

/-- Two keys with the same name and tags name the same instrument. -/
def Distinguishable (uses : List (Use υ)) : Prop :=
  ∀ a ∈ uses, ∀ b ∈ uses, a.key.name = b.key.name → a.key.tags = b.key.tags →
    a.key.same b.key = true

instance (uses : List (Use υ)) (key : Key) : Decidable (IsNamed uses key) :=
  inferInstanceAs (Decidable (∃ use ∈ uses, use.key.same key = true))

instance (uses : List (Use υ)) : Decidable (Distinguishable uses) :=
  inferInstanceAs (Decidable (∀ a ∈ uses, ∀ b ∈ uses, a.key.name = b.key.name →
    a.key.tags = b.key.tags → a.key.same b.key = true))

variable {uses : List (Use υ)} {key other : Key}

/-! ## Updates of an instrument -/

theorem updatesOf_append (uses others : List (Use υ)) (key : Key) :
    updatesOf (uses ++ others) key = updatesOf uses key ++ updatesOf others key := by
  simp [updatesOf]

/-- A use may be an update of its own instrument, and of no other. -/
theorem updatesOf_cons (use : Use υ) (rest : List (Use υ)) (key : Key) :
    updatesOf (use :: rest) key =
      (if use.key.same key then use.update?.toList else []) ++ updatesOf rest key := by
  by_cases hsame : use.key.same key = true
  · cases hupdate : use.update? <;> simp [updatesOf, hsame, hupdate]
  · simp [updatesOf, hsame]

theorem updatesOf_concat (uses : List (Use υ)) (use : Use υ) (key : Key) :
    updatesOf (uses ++ [use]) key =
      updatesOf uses key ++ if use.key.same key then use.update?.toList else [] := by
  have hnil : updatesOf ([] : List (Use υ)) key = [] := rfl
  rw [updatesOf_append, updatesOf_cons, hnil, List.append_nil]

/-- All keys of one instrument have its updates. -/
theorem updatesOf_congr (h : key.same other = true) (uses : List (Use υ)) :
    updatesOf uses key = updatesOf uses other := by
  simp only [updatesOf, Key.same_congr h]

/-! ## First keys -/

/-- A named instrument is found by its first key. -/
theorem IsNamed.find?_eq (h : IsNamed uses key) :
    (uses.map Use.key).find? (·.same key) = some (firstNamed uses key) := by
  obtain ⟨use, hmem, hsame⟩ := h
  have hfound : ((uses.map Use.key).find? (·.same key)).isSome = true :=
    List.find?_isSome.mpr ⟨use.key, List.mem_map_of_mem hmem, hsame⟩
  obtain ⟨first, hfirst⟩ := Option.isSome_iff_exists.mp hfound
  rw [firstNamed, hfirst, Option.getD_some]

/-- A named instrument was first named by a use. -/
theorem IsNamed.exists_eq (h : IsNamed uses key) : ∃ use ∈ uses, use.key = firstNamed uses key :=
  List.mem_map.mp (List.mem_of_find?_eq_some h.find?_eq)

/-- A use names its own instrument. -/
theorem isNamed_of_mem {use : Use υ} (h : use ∈ uses) : IsNamed uses use.key :=
  ⟨use, h, Key.same_refl _⟩

/-- The first key of an instrument is one of its keys. -/
theorem firstNamed_same (uses : List (Use υ)) (key : Key) :
    (firstNamed uses key).same key = true := by
  unfold firstNamed
  cases hfirst : (uses.map Use.key).find? (·.same key) with
  | none => exact Key.same_refl key
  | some first => exact List.find?_some (p := fun k : Key => k.same key) hfirst

/-- An instrument keeps its first key. -/
theorem firstNamed_append (h : IsNamed uses key) (others : List (Use υ)) :
    firstNamed (uses ++ others) key = firstNamed uses key := by
  rw [firstNamed, List.map_append, List.find?_append, h.find?_eq]
  rfl

/-- All keys of a named instrument have the same first one. -/
theorem firstNamed_congr (h : key.same other = true) (hnamed : IsNamed uses key) :
    firstNamed uses key = firstNamed uses other := by
  have hother : firstNamed uses other = ((uses.map Use.key).find? (·.same key)).getD other := by
    simp only [firstNamed, Key.same_congr h]
  rw [hother, hnamed.find?_eq, Option.getD_some]

/-- A use that names an instrument first gives it its key. -/
theorem firstNamed_concat (uses : List (Use υ)) (use : Use υ) (key : Key) :
    firstNamed (uses ++ [use]) key =
      if use.key.same key then firstNamed uses use.key else firstNamed uses key := by
  unfold firstNamed
  rw [List.map_append, List.find?_append]
  by_cases hsame : use.key.same key = true
  · simp only [Key.same_congr hsame]
    cases hfirst : (uses.map Use.key).find? (·.same key) <;> simp [hsame]
  · cases hfirst : (uses.map Use.key).find? (·.same key) <;> simp [hsame]

/-- The key of a use goes by what was named before, whatever follows. -/
theorem firstNamed_use (before : List (Use υ)) (use : Use υ) (rest : List (Use υ)) :
    firstNamed (before ++ use :: rest) use.key = firstNamed before use.key := by
  have hnamed : IsNamed (before ++ [use]) use.key := isNamed_of_mem (by simp)
  rw [List.append_cons, firstNamed_append hnamed, firstNamed_concat, if_pos (Key.same_refl _)]

/-- Named instruments whose first keys have the same name and tags are the same. -/
theorem Distinguishable.same (h : Distinguishable uses) (hkey : IsNamed uses key)
    (hother : IsNamed uses other)
    (hname : (firstNamed uses key).name = (firstNamed uses other).name)
    (htags : (firstNamed uses key).tags = (firstNamed uses other).tags) :
    key.same other = true := by
  obtain ⟨a, ha, hfirst⟩ := hkey.exists_eq
  obtain ⟨b, hb, hfirst'⟩ := hother.exists_eq
  rw [← hfirst, ← hfirst'] at hname htags
  have hsame := h a ha b hb hname htags
  rw [hfirst, hfirst'] at hsame
  exact Key.same_trans (Key.same_symm (firstNamed_same uses key))
    (Key.same_trans hsame (firstNamed_same uses other))

end

/-! ## Registries -/

namespace Registry

variable {α : Type}

/-- A state that is put into a list is found under the key that was there, and the other states are
found as before. -/
theorem find?_putInto (key other : Key) (state : α) (instruments : List (Key × α)) :
    (putInto key state instruments).find? (·.1.same other) =
      if key.same other then
        some (((instruments.find? (·.1.same key)).map Prod.fst).getD key, state)
      else instruments.find? (·.1.same other) := by
  induction instruments with
  | nil => by_cases hsame : key.same other = true <;> simp [putInto, hsame]
  | cons head rest ih =>
    obtain ⟨k, old⟩ := head
    by_cases hhere : k.same key = true
    · -- The head is replaced, and it is found by whatever finds the key.
      have hother : k.same other = key.same other := by
        rw [Key.same_comm k, Key.same_comm key, Key.same_congr hhere]
      by_cases hsame : key.same other = true <;> simp [putInto, hhere, hother, hsame]
    · -- The head stays, so that it is not both this instrument and the other.
      by_cases hsame : key.same other = true
      · have hnot : k.same other = false := by
          rw [← Key.same_congr hsame]
          exact Bool.eq_false_iff.mpr hhere
        simp [putInto, hhere, hnot, ih, hsame]
      · cases hother : k.same other <;> simp [putInto, hhere, hother, ih, hsame]

theorem find_eq (r : Registry α) (key : Key) (fresh : α) :
    r.find key fresh = (r.instruments.find? (·.1.same key)).getD (key, fresh) :=
  rfl

/-- What is found is an instrument of the key, or the key itself. -/
theorem find_same (r : Registry α) (key : Key) (fresh : α) :
    (r.find key fresh).1.same key = true := by
  rw [find_eq]
  cases hfound : r.instruments.find? (·.1.same key) with
  | none => exact Key.same_refl key
  | some entry => exact List.find?_some (p := fun e : Key × α => e.1.same key) hfound

/-- A state that is put back is found by all keys of its instrument, and by no others. -/
theorem find_put (r : Registry α) (key other : Key) (state fresh : α) :
    (r.put (r.find key fresh).1 state).find other fresh =
      if key.same other then ((r.find key fresh).1, state) else r.find other fresh := by
  have hfirst := r.find_same key fresh
  have hother : (r.find key fresh).1.same other = key.same other := by
    rw [Key.same_comm, Key.same_congr hfirst, Key.same_comm]
  -- The key that is found for a key is also found for itself.
  have hagain : ((r.instruments.find? (·.1.same (r.find key fresh).1)).map Prod.fst).getD
      (r.find key fresh).1 = (r.find key fresh).1 := by
    simp only [Key.same_congr hfirst]
    rw [find_eq]
    cases r.instruments.find? (·.1.same key) <;> rfl
  rw [find_eq, put, find?_putInto, hother, hagain]
  split <;> rfl

variable {υ : Type} {r : Registry α} {state : List υ → α} {uses : List (Use υ)}

/-- A registry finds each instrument under its first key, in the state of its updates. -/
def Follows (r : Registry α) (state : List υ → α) (uses : List (Use υ)) : Prop :=
  ∀ key, r.find key (state []) = (firstNamed uses key, state (updatesOf uses key))

/-- Without instruments, none was used. -/
theorem follows_nil (state : List υ → α) : Follows {} state [] :=
  fun _ => rfl

/-- Putting the instrument of a use back in the state of its updates, of which that of the use is
the last, keeps a registry with the uses. -/
theorem Follows.use (h : r.Follows state uses) (use : Use υ) {after : α}
    (hafter : after = state (updatesOf uses use.key ++ use.update?.toList)) :
    (r.put (firstNamed uses use.key) after).Follows state (uses ++ [use]) := by
  intro other
  have hput := find_put r use.key other after (state [])
  rw [h use.key] at hput
  rw [hput, firstNamed_concat, updatesOf_concat]
  by_cases hsame : use.key.same other = true
  · rw [if_pos hsame, if_pos hsame, if_pos hsame, hafter, updatesOf_congr hsame]
  · rw [if_neg hsame, if_neg hsame, if_neg hsame, List.append_nil, h other]

end Registry

/-! ## Reports -/

section

variable {υ β : Type}

/-- The context that a key reports to. -/
def Key.context (cardinality : Option Cardinality) (key : Key) : Context :=
  ⟨key.name, cardinality, key.tags⟩

/-- What an instrument reports of updates, if it reports `report` of an update after earlier
ones. -/
def reportsAfter (report : List υ → υ → Option β) (before : List υ) : List υ → List β
  | [] => []
  | update :: rest =>
    (report before update).toList ++ reportsAfter report (before ++ [update]) rest

/-- What a use reports after earlier ones, under the first key of its instrument. -/
def reportOf (report : List υ → υ → Option β) (before : List (Use υ)) (use : Use υ) :
    Option (Key × β) :=
  (use.update?.bind (report (updatesOf before use.key))).map (firstNamed before use.key, ·)

/-- What uses report. -/
def reportsOf (report : List υ → υ → Option β) (before : List (Use υ)) :
    List (Use υ) → List (Key × β)
  | [] => []
  | use :: rest => (reportOf report before use).toList ++ reportsOf report (before ++ [use]) rest

/-- Reports by the contexts that they go to. -/
def byContext (cardinality : Option Cardinality) (reports : List (Key × β)) :
    List (Context × β) :=
  reports.map fun (key, value) => (key.context cardinality, value)

variable {report : List υ → υ → Option β}

theorem reportsAfter_concat (before updates : List υ) (update : υ) :
    reportsAfter report before (updates ++ [update]) =
      reportsAfter report before updates ++ (report (before ++ updates) update).toList := by
  induction updates generalizing before with
  | nil => simp [reportsAfter]
  | cons first rest ih => simp [reportsAfter, ih]

variable {before uses : List (Use υ)}

/-- All reports are under first keys. -/
theorem exists_of_mem_reportsOf {key : Key} {value : β}
    (h : (key, value) ∈ reportsOf report before uses) :
    ∃ use ∈ uses, key = firstNamed (before ++ uses) use.key := by
  induction uses generalizing before with
  | nil => cases h
  | cons use rest ih =>
    rcases List.mem_append.mp h with hfirst | hrest
    · rw [Option.mem_toList, reportOf, Option.map_eq_some_iff] at hfirst
      obtain ⟨_, -, heq⟩ := hfirst
      refine ⟨use, List.mem_cons_self, ?_⟩
      rw [firstNamed_use]
      exact (congrArg Prod.fst heq).symm
    · obtain ⟨other, hmem, heq⟩ := ih hrest
      rw [List.append_assoc] at heq
      exact ⟨other, List.mem_cons_of_mem _ hmem, heq⟩

/-- All contexts reported to are those of named instruments. -/
theorem exists_of_mem_byContext {cardinality : Option Cardinality} {context : Context}
    (h : context ∈ (byContext cardinality (reportsOf report before uses)).map Prod.fst) :
    ∃ key, IsNamed (before ++ uses) key ∧
      context = (firstNamed (before ++ uses) key).context cardinality := by
  rw [byContext, List.map_map] at h
  obtain ⟨⟨key, value⟩, hmem, rfl⟩ := List.mem_map.mp h
  obtain ⟨use, huse, rfl⟩ := exists_of_mem_reportsOf hmem
  exact ⟨use.key, isNamed_of_mem (List.mem_append_right _ huse), rfl⟩

/-- A use reports to the context of an instrument if it is a use of that instrument. -/
theorem itemsOf_reportOf (report : List υ → υ → Option β) (cardinality : Option Cardinality)
    {key : Key} {use : Use υ} {rest : List (Use υ)}
    (hdistinct : Distinguishable (before ++ use :: rest))
    (hnamed : IsNamed (before ++ use :: rest) key) :
    itemsOf (byContext cardinality (reportOf report before use).toList)
        ((firstNamed (before ++ use :: rest) key).context cardinality) =
      if use.key.same key then (use.update?.bind (report (updatesOf before key))).toList
      else [] := by
  have huse : IsNamed (before ++ use :: rest) use.key := isNamed_of_mem (by simp)
  have hfirst := firstNamed_use before use rest
  by_cases hsame : use.key.same key = true
  · rw [if_pos hsame, ← firstNamed_congr hsame huse, hfirst, ← updatesOf_congr hsame]
    cases hvalue : use.update?.bind (report (updatesOf before use.key)) <;>
      simp [reportOf, byContext, itemsOf, hvalue]
  · -- The contexts are those of different instruments.
    have hne : (firstNamed before use.key).context cardinality ≠
        (firstNamed (before ++ use :: rest) key).context cardinality := by
      intro heq
      rw [← hfirst] at heq
      exact hsame (hdistinct.same huse hnamed (congrArg Context.name heq)
        (congrArg Context.tags heq))
    rw [if_neg hsame]
    cases hvalue : use.update?.bind (report (updatesOf before use.key)) <;>
      simp [reportOf, byContext, itemsOf, hvalue, hne]

/-- What goes under the first key of an instrument is what its own updates report. -/
theorem itemsOf_reportsOf (cardinality : Option Cardinality) {key : Key}
    (hdistinct : Distinguishable (before ++ uses)) (hnamed : IsNamed (before ++ uses) key) :
    itemsOf (byContext cardinality (reportsOf report before uses))
        ((firstNamed (before ++ uses) key).context cardinality) =
      reportsAfter report (updatesOf before key) (updatesOf uses key) := by
  induction uses generalizing before with
  | nil => rfl
  | cons use rest ih =>
    have hfirst := itemsOf_reportOf report cardinality hdistinct hnamed
    rw [List.append_cons] at hdistinct hnamed
    have hrest := ih hdistinct hnamed
    rw [byContext] at hfirst hrest
    rw [reportsOf, byContext, List.map_append, itemsOf_append, hfirst,
      List.append_cons before use rest, hrest, updatesOf_concat, updatesOf_cons]
    -- The use is the next update of the instrument, or none of its.
    split
    · cases use.update? <;> simp [reportsAfter]
    · simp

end

end DogStatsD
