import Mathlib

/-!
# Sums over the values of an association list

`AList.total weight m` is the sum of `weight` over the values of `m`.  The
lemmas follow it through the three updates of a map: an insertion under a new
key, the replacement of a value, and a removal.
-/

namespace AList

variable {κ β : Type} [DecidableEq κ] {m : AList fun _ : κ => β} {key : κ} {value : β}

/-- The sum of `weight` over the values of the map. -/
def total (weight : β → Int) (m : AList fun _ : κ => β) : Int :=
  (m.entries.map fun entry => weight entry.2).sum

private theorem sum_kerase (weight : β → Int) (key : κ) (value : β) :
    ∀ entries : List (Sigma fun _ : κ => β),
      entries.dlookup key = some value →
      (entries.map fun entry => weight entry.2).sum =
        weight value + ((entries.kerase key).map fun entry => weight entry.2).sum := by
  intro entries
  induction entries with
  | nil =>
    intro h
    simp at h
  | cons entry rest ih =>
    intro h
    obtain ⟨key', value'⟩ := entry
    by_cases hk : key = key'
    · subst hk
      rw [List.dlookup_cons_eq] at h
      have hrest : List.kerase key (⟨key, value'⟩ :: rest : List (Sigma fun _ : κ => β)) =
          rest := List.kerase_cons_eq rfl
      rw [← Option.some.inj h, hrest, List.map_cons, List.sum_cons]
    · rw [List.dlookup_cons_ne _ _ hk] at h
      rw [List.kerase_cons_ne hk, List.map_cons, List.map_cons, List.sum_cons,
        List.sum_cons, ih h]
      omega

/-- The total is the weight of one value plus the total of the others. -/
theorem total_eq_add_erase (weight : β → Int) (h : m.lookup key = some value) :
    m.total weight = weight value + (m.erase key).total weight :=
  sum_kerase weight key value m.entries h

theorem total_erase (weight : β → Int) (h : m.lookup key = some value) :
    (m.erase key).total weight = m.total weight - weight value := by
  have := total_eq_add_erase weight h
  omega

/-- An insertion adds the weight of the value to the total of the other keys. -/
theorem total_insert (weight : β → Int) (m : AList fun _ : κ => β) (key : κ)
    (value : β) :
    (m.insert key value).total weight = weight value + (m.erase key).total weight := by
  unfold total
  rw [entries_insert, List.map_cons, List.sum_cons]
  rfl

theorem total_insert_new (weight : β → Int) (value : β) (h : m.lookup key = none) :
    (m.insert key value).total weight = weight value + m.total weight := by
  rw [total_insert]
  unfold total
  rw [show (m.erase key).entries = m.entries from
    List.kerase_of_notMem_keys (List.dlookup_eq_none.mp h)]

theorem total_insert_replace (weight : β → Int) {old : β} (value : β)
    (h : m.lookup key = some old) :
    (m.insert key value).total weight = m.total weight - weight old + weight value := by
  rw [total_insert, total_erase weight h]
  omega

/-- Only the weights of the values in the map count. -/
theorem total_congr {weight weight' : β → Int}
    (h : ∀ key value, m.lookup key = some value → weight value = weight' value) :
    m.total weight = m.total weight' := by
  unfold total
  refine congrArg List.sum (List.map_congr_left fun entry hentry => ?_)
  exact h entry.1 entry.2 (m.mem_lookup_iff.mpr hentry)

/-- The weight of one value changes. -/
theorem total_update (weight weight' : β → Int) (h : m.lookup key = some value)
    (hothers : ∀ key' value', m.lookup key' = some value' → key' ≠ key →
      weight' value' = weight value') :
    m.total weight' = m.total weight - weight value + weight' value := by
  have hrest : (m.erase key).total weight' = (m.erase key).total weight := by
    refine total_congr fun key' value' hlookup => ?_
    have hne : key' ≠ key := by
      rintro rfl
      rw [lookup_erase] at hlookup
      cases hlookup
    rw [lookup_erase_ne hne] at hlookup
    exact hothers key' value' hlookup hne
  rw [total_eq_add_erase weight' h, total_eq_add_erase weight h, hrest]
  omega

/-- A total of non-negative weights is at least each of them. -/
theorem weight_le_total (weight : β → Int)
    (hnonneg : ∀ key value, m.lookup key = some value → 0 ≤ weight value)
    (h : m.lookup key = some value) : weight value ≤ m.total weight := by
  have hrest : 0 ≤ (m.erase key).total weight := by
    unfold total
    refine List.sum_nonneg fun x hx => ?_
    obtain ⟨entry, hentry, rfl⟩ := List.mem_map.mp hx
    refine hnonneg entry.1 entry.2 ?_
    have hmem := (m.erase key).mem_lookup_iff.mpr hentry
    by_cases hk : entry.1 = key
    · rw [hk, lookup_erase] at hmem
      simp at hmem
    · rwa [lookup_erase_ne hk] at hmem
  rw [total_eq_add_erase weight h]
  omega

end AList
