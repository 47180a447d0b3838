import DogStatsD.Recorder.Instrument
import Mathlib.Data.List.Permutation

/-!
# Keys of One Instrument

Whether two keys name the same instrument is decided in two ways, depending on the number of their
labels. Either way it is an equivalence, so that instruments are classes of keys.

* `Key.perm_of_valuesOf`: labels with the same values are the same labels in some order;
* `Key.same_refl`, `Key.same_comm`, `Key.same_congr`: naming the same instrument is an equivalence.
-/

namespace DogStatsD.Key

/-! ## Labels -/

/-- How often a label has a value. -/
theorem count_valuesOf (label value : String) (labels : List (String × String)) :
    (valuesOf label labels).count value = labels.count (label, value) := by
  unfold valuesOf
  induction labels with
  | nil => rfl
  | cons head rest ih =>
    obtain ⟨l, v⟩ := head
    by_cases hlabel : l = label <;> simp [hlabel, ih, List.count_cons]

/-- Labels that have the same values in the same order for each label are the same, up to their
order. -/
theorem perm_of_valuesOf {labels labels' : List (String × String)}
    (h : ∀ label, valuesOf label labels = valuesOf label labels') : labels.Perm labels' := by
  rw [List.perm_iff_count]
  rintro ⟨label, value⟩
  rw [← count_valuesOf, ← count_valuesOf, h]

/-- A label that a list does not have has no values. -/
theorem valuesOf_eq_nil {label : String} {labels : List (String × String)}
    (h : ∀ value, (label, value) ∉ labels) : valuesOf label labels = [] := by
  rw [valuesOf, List.map_eq_nil_iff, List.filter_eq_nil_iff]
  rintro ⟨l, value⟩ hmem heq
  exact h value (eq_of_beq heq ▸ hmem)

/-- The labels of both lists are all that need to be compared. -/
theorem all_valuesOf_iff (labels labels' : List (String × String)) :
    ((labels ++ labels').all fun (label, _) => valuesOf label labels == valuesOf label labels') =
        true ↔
      ∀ label, valuesOf label labels = valuesOf label labels' := by
  simp only [List.all_eq_true, beq_iff_eq, List.mem_append]
  constructor
  · intro h label
    by_cases hmem : ∃ value, (label, value) ∈ labels ∨ (label, value) ∈ labels'
    · obtain ⟨value, hvalue⟩ := hmem
      exact h (label, value) hvalue
    · simp only [not_exists, not_or] at hmem
      rw [valuesOf_eq_nil fun value => (hmem value).1, valuesOf_eq_nil fun value => (hmem value).2]
  · intro h pair _
    exact h pair.1

/-- Two labels may change places; of more or fewer, each keeps its values. -/
theorem sameLabels_iff (labels labels' : List (String × String)) :
    sameLabels labels labels' = true ↔
      if labels.length = 2 then labels.Perm labels'
      else ∀ label, valuesOf label labels = valuesOf label labels' := by
  unfold sameLabels
  split
  next first second first' second' =>
    rw [if_pos (List.length_eq_two.mpr ⟨first, second, rfl⟩), List.perm_comm, List.pair_perm]
    simp
  next hpairs =>
    rw [all_valuesOf_iff]
    split
    next htwo =>
      -- The other list does not have two labels, so that both sides are false.
      have hother : ¬labels.Perm labels' := by
        intro hperm
        obtain ⟨first, second, rfl⟩ := List.length_eq_two.mp htwo
        obtain ⟨first', second', rfl⟩ := List.length_eq_two.mp (hperm.length_eq.symm.trans htwo)
        exact hpairs first second first' second' rfl rfl
      exact iff_of_false (mt perm_of_valuesOf hother) hother
    next => rfl

/-- Labels of one instrument are the same ones in some order. -/
theorem perm_of_sameLabels {labels labels' : List (String × String)}
    (h : sameLabels labels labels' = true) : labels.Perm labels' := by
  rw [sameLabels_iff] at h
  split at h
  · exact h
  · exact perm_of_valuesOf h

theorem sameLabels_refl (labels : List (String × String)) : sameLabels labels labels = true := by
  rw [sameLabels_iff]
  split
  · exact .rfl
  · exact fun _ => rfl

/-- Labels that are the same as others are so the other way round. -/
theorem sameLabels_symm {labels labels' : List (String × String)}
    (h : sameLabels labels labels' = true) : sameLabels labels' labels = true := by
  have hlength := (perm_of_sameLabels h).length_eq
  rw [sameLabels_iff, hlength] at h
  rw [sameLabels_iff]
  split at h
  next htwo => exact (if_pos htwo).mpr h.symm
  next htwo => exact (if_neg htwo).mpr fun label => (h label).symm

theorem sameLabels_trans {labels labels' labels'' : List (String × String)}
    (h : sameLabels labels labels' = true) (h' : sameLabels labels' labels'' = true) :
    sameLabels labels labels'' = true := by
  have hlength := (perm_of_sameLabels h).length_eq
  rw [sameLabels_iff] at h ⊢
  rw [sameLabels_iff, ← hlength] at h'
  split
  next htwo => exact ((if_pos htwo).mp h).trans ((if_pos htwo).mp h')
  next htwo =>
    exact fun label => ((if_neg htwo).mp h label).trans ((if_neg htwo).mp h' label)

/-! ## Keys -/

variable {a b : Key}

/-- Keys are the same if name and labels are. -/
theorem same_iff : a.same b = true ↔ a.name = b.name ∧ sameLabels a.labels b.labels = true := by
  simp [same]

@[simp]
theorem same_refl (a : Key) : a.same a = true :=
  same_iff.mpr ⟨rfl, sameLabels_refl _⟩

theorem same_symm (h : a.same b = true) : b.same a = true := by
  obtain ⟨hname, hlabels⟩ := same_iff.mp h
  exact same_iff.mpr ⟨hname.symm, sameLabels_symm hlabels⟩

theorem same_trans {c : Key} (h : a.same b = true) (h' : b.same c = true) : a.same c = true := by
  obtain ⟨hname, hlabels⟩ := same_iff.mp h
  obtain ⟨hname', hlabels'⟩ := same_iff.mp h'
  exact same_iff.mpr ⟨hname.trans hname', sameLabels_trans hlabels hlabels'⟩

/-- It does not matter which of two keys is compared with the other. -/
theorem same_comm (a b : Key) : a.same b = b.same a :=
  Bool.eq_iff_iff.mpr ⟨same_symm, same_symm⟩

/-- Keys of one instrument are told from no other key. -/
theorem same_congr (h : a.same b = true) (c : Key) : c.same a = c.same b :=
  Bool.eq_iff_iff.mpr ⟨fun hc => same_trans hc h, fun hc => same_trans hc (same_symm h)⟩

end DogStatsD.Key
