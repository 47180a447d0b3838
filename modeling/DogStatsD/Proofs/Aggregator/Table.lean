import DogStatsD.Aggregator.Table
import Mathlib.Data.List.Dedup
import Mathlib.Data.List.Perm.Basic

/-!
# What a Table Holds

A table is filled by merging, one after the other, the items of a log into the entries of their
contexts. Whatever the discipline of the merging, each context of the log then has one entry, made
of its own items in their order and of nothing else.

* `Table.Holds`: the entries are those of a log;
* `Table.Holds.merge`: merging an item makes them those of the log with the item behind it;
* `Table.Holds.entries_perm`: the entries as a list over the distinct contexts of the log.
-/

namespace DogStatsD

/-- The items of a log that belong to a context. -/
def itemsOf {β : Type} (log : List (Context × β)) (context : Context) : List β :=
  (log.filter (·.1 = context)).map Prod.snd

/-- The distinct contexts of a log. -/
def contextsOf {β : Type} (log : List (Context × β)) : List Context :=
  (log.map Prod.fst).dedup

section

variable {β : Type} (log : List (Context × β)) (context other : Context) (item : β)

theorem itemsOf_append (log others : List (Context × β)) (context : Context) :
    itemsOf (log ++ others) context = itemsOf log context ++ itemsOf others context := by
  simp [itemsOf]

/-- An item is put behind the items of its context. -/
theorem itemsOf_append_self :
    itemsOf (log ++ [(context, item)]) context = itemsOf log context ++ [item] := by
  simp [itemsOf]

/-- An item is no item of any other context. -/
theorem itemsOf_append_of_ne (h : other ≠ context) :
    itemsOf (log ++ [(context, item)]) other = itemsOf log other := by
  simp [itemsOf, h.symm]

/-- A context that is not in the log has no items. -/
theorem itemsOf_eq_nil (h : context ∉ log.map Prod.fst) : itemsOf log context = [] := by
  simp only [itemsOf, List.map_eq_nil_iff, List.filter_eq_nil_iff, decide_eq_true_eq]
  rintro pair hmem rfl
  exact h (List.mem_map_of_mem hmem)

/-- A context that is in the log has an item. -/
theorem itemsOf_ne_nil (h : context ∈ log.map Prod.fst) : itemsOf log context ≠ [] := by
  obtain ⟨pair, hmem, rfl⟩ := List.mem_map.mp h
  have hitem : pair ∈ log.filter (·.1 = pair.1) := by simp [hmem]
  exact List.ne_nil_of_mem (List.mem_map_of_mem hitem)

/-- The items of a context are those that the log has for it. -/
theorem mem_itemsOf : item ∈ itemsOf log context ↔ (context, item) ∈ log := by
  simp [itemsOf]

theorem mem_contextsOf : context ∈ contextsOf log ↔ context ∈ log.map Prod.fst :=
  List.mem_dedup

theorem nodup_contextsOf : (contextsOf log).Nodup :=
  List.nodup_dedup _

/-- Of what is made of each context, one piece is that of a given context, if the context has
items. -/
theorem filterMap_contextsOf {γ : Type} (make : Context → γ) :
    ((contextsOf log).filterMap fun c => if c = context then some (make c) else none) =
      if itemsOf log context = [] then [] else [make context] := by
  have hselected (contexts : List Context) :
      (contexts.filterMap fun c => if c = context then some (make c) else none) =
        (contexts.filter (· = context)).map make := by
    induction contexts with
    | nil => rfl
    | cons c rest ih => by_cases hc : c = context <;> simp [hc, ih]
  rw [hselected, List.filter_eq, List.map_replicate]
  by_cases hmem : context ∈ log.map Prod.fst
  · rw [List.count_eq_one_of_mem (nodup_contextsOf log) ((mem_contextsOf log context).mpr hmem),
      if_neg (itemsOf_ne_nil log context hmem)]
    rfl
  · rw [List.count_eq_zero.mpr (mt (mem_contextsOf log context).mp hmem),
      if_pos (itemsOf_eq_nil log context hmem)]
    rfl

/-- One item, or none, has no other order. -/
theorem eq_of_perm_ite {γ : Type} {items : List γ} {x : γ} {p : Prop} [Decidable p]
    (h : items.Perm (if p then [] else [x])) : items = if p then [] else [x] := by
  split at h
  next hp => rw [if_pos hp, h.eq_nil]
  next hp => rw [if_neg hp, List.perm_singleton.mp h]

end

namespace Table

variable {α β : Type}

/-! ## Merging into a list of entries -/

/-- Merging adds the context if it was not met before. -/
theorem keys_mergeInto (context : Context) (fresh : α) (update : α → α)
    (entries : List (Context × α)) :
    (mergeInto context fresh update entries).map Prod.fst =
      if context ∈ entries.map Prod.fst then entries.map Prod.fst
      else entries.map Prod.fst ++ [context] := by
  induction entries with
  | nil => simp [mergeInto]
  | cons head rest ih =>
    obtain ⟨c, entry⟩ := head
    by_cases hsame : c = context
    · simp [mergeInto, hsame]
    · -- The head stays, so that it all depends on whether the rest has the context.
      simp only [mergeInto, hsame, if_false, List.map_cons, ih, List.mem_cons,
        Ne.symm hsame, false_or]
      split <;> simp

/-- Merging leaves the entries of other contexts alone. -/
theorem mem_mergeInto_of_ne {context other : Context} (h : other ≠ context) (fresh : α)
    (update : α → α) (entries : List (Context × α)) (entry : α) :
    (other, entry) ∈ mergeInto context fresh update entries ↔ (other, entry) ∈ entries := by
  induction entries with
  | nil => simp [mergeInto, h]
  | cons head rest ih =>
    obtain ⟨c, old⟩ := head
    by_cases hsame : c = context
    · subst hsame
      simp [mergeInto, h]
    · simp [mergeInto, hsame, ih]

/-- Merging into a context that was not met before adds an entry for it. -/
theorem mem_mergeInto_of_not_mem {context : Context} {entries : List (Context × α)}
    (h : context ∉ entries.map Prod.fst) (fresh : α) (update : α → α) (entry : α) :
    (context, entry) ∈ mergeInto context fresh update entries ↔ entry = update fresh := by
  induction entries with
  | nil => simp [mergeInto]
  | cons head rest ih =>
    obtain ⟨c, old⟩ := head
    rw [List.map_cons, List.mem_cons, not_or] at h
    simp [mergeInto, Ne.symm h.1, h.1, ih h.2]

/-- Merging into a context that was met before updates its entry. -/
theorem mem_mergeInto_of_mem {context : Context} {entries : List (Context × α)} {old : α}
    (hnodup : (entries.map Prod.fst).Nodup) (h : (context, old) ∈ entries) (fresh : α)
    (update : α → α) (entry : α) :
    (context, entry) ∈ mergeInto context fresh update entries ↔ entry = update old := by
  induction entries with
  | nil => cases h
  | cons head rest ih =>
    obtain ⟨c, first⟩ := head
    rw [List.map_cons, List.nodup_cons] at hnodup
    by_cases hsame : c = context
    · subst hsame
      -- No context has two entries, so that the old one is the head.
      have hrest (e : α) : (c, e) ∉ rest := fun hmem =>
        hnodup.1 (List.mem_map.mpr ⟨(c, e), hmem, rfl⟩)
      obtain rfl : old = first := by simpa [hrest] using h
      simp [mergeInto, hrest]
    · have hmem : (context, old) ∈ rest := by simpa [Ne.symm hsame] using h
      simp [mergeInto, hsame, Ne.symm hsame, ih hnodup.2 hmem]

/-! ## Logs -/

/-- The entries of a table are those of a log: each context has one, which `value` makes of its
items. -/
structure Holds (t : Table α) (log : List (Context × β)) (value : List β → α) : Prop where
  /-- No context has two entries. -/
  nodup : (t.entries.map Prod.fst).Nodup
  /-- Each context of the log has the entry of its items. -/
  mem_iff : ∀ context entry, (context, entry) ∈ t.entries ↔
    context ∈ log.map Prod.fst ∧ entry = value (itemsOf log context)

variable {t : Table α} {log : List (Context × β)} {value : List β → α}

/-- A table that nothing was merged into holds nothing. -/
theorem holds_nil (value : List β → α) : Holds {} [] value :=
  ⟨List.nodup_nil, by simp⟩

/-- A table has entries for the contexts of the log. -/
theorem Holds.mem_keys_iff (h : t.Holds log value) (context : Context) :
    context ∈ t.entries.map Prod.fst ↔ context ∈ log.map Prod.fst := by
  constructor
  · intro hkey
    obtain ⟨⟨c, entry⟩, hmem, rfl⟩ := List.mem_map.mp hkey
    exact ((h.mem_iff c entry).mp hmem).1
  · intro hlog
    have hentry : (context, value (itemsOf log context)) ∈ t.entries :=
      (h.mem_iff context _).mpr ⟨hlog, rfl⟩
    exact List.mem_map_of_mem hentry

/-- Merging an item puts it behind the log, if updating an entry adds an item to those that the
entry is made of. -/
theorem Holds.merge (h : t.Holds log value) (context : Context) (item : β) (fresh : α)
    (update : α → α) (hfresh : update fresh = value [item])
    (hupdate : ∀ items, items ≠ [] → update (value items) = value (items ++ [item])) :
    (t.merge context fresh update).Holds (log ++ [(context, item)]) value := by
  have hkeys := keys_mergeInto context fresh update t.entries
  constructor
  · rw [Table.merge, hkeys]
    split
    case isTrue => exact h.nodup
    next hnew =>
      refine List.nodup_append.mpr ⟨h.nodup, List.nodup_singleton context, ?_⟩
      rintro c hc d hd rfl
      exact hnew (List.mem_singleton.mp hd ▸ hc)
  · intro other entry
    by_cases hother : other = context
    case neg =>
      rw [Table.merge, mem_mergeInto_of_ne hother, h.mem_iff, itemsOf_append_of_ne _ _ _ _ hother]
      simp [hother]
    subst hother
    rw [Table.merge, itemsOf_append_self]
    by_cases hmet : other ∈ log.map Prod.fst
    · -- The entry is that of the items so far, and there are some.
      have hold := (h.mem_iff other _).mpr ⟨hmet, rfl⟩
      rw [mem_mergeInto_of_mem h.nodup hold, hupdate _ (itemsOf_ne_nil log other hmet)]
      simp
    · -- The entry is made of a fresh one.
      have hnew : other ∉ t.entries.map Prod.fst := mt (h.mem_keys_iff other).mp hmet
      rw [mem_mergeInto_of_not_mem hnew, itemsOf_eq_nil log other hmet, hfresh]
      simp

/-- In some order, the entries are those of the distinct contexts of the log. -/
theorem Holds.entries_perm (h : t.Holds log value) :
    t.entries.Perm
      ((contextsOf log).map fun context => (context, value (itemsOf log context))) := by
  -- Neither side has an entry twice, so that it is enough to compare what they hold.
  have hentries : t.entries.Nodup := h.nodup.of_map Prod.fst
  have hlog : ((contextsOf log).map fun context =>
      (context, value (itemsOf log context))).Nodup :=
    (nodup_contextsOf log).map fun a b hab => congrArg Prod.fst hab
  refine (List.perm_ext_iff_of_nodup hentries hlog).mpr fun ⟨context, entry⟩ => ?_
  rw [h.mem_iff]
  simp only [List.mem_map, mem_contextsOf, Prod.mk.injEq]
  constructor
  · rintro ⟨hmem, rfl⟩
    exact ⟨context, hmem, rfl, rfl⟩
  · rintro ⟨c, hmem, rfl, rfl⟩
    exact ⟨hmem, rfl⟩

/-- There are as many entries as distinct contexts. -/
theorem Holds.size_eq (h : t.Holds log value) : t.size = (contextsOf log).length := by
  rw [Table.size, h.entries_perm.length_eq, List.length_map]

end Table

end DogStatsD
