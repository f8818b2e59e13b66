import Mathlib

/-!
# Loops over a finite map

A loop takes labels one by one, and each label changes the entry of one key: `advance` makes
the new entry from the old one, where `none` is no entry.  Seen at one key, the loop is the
same loop over the labels of that key (`lookup_steps`).  So two lists of labels have the same
effect when they have it at every key (`steps_congr`), and labels of different keys can be
exchanged (`steps_comm`).
-/

namespace Streamweld.Lib.Keyed

variable {κ α β : Type} [DecidableEq κ]

/-- The entry of a key is replaced, and there is none for `none`. -/
def update (m : Finmap fun _ : κ => β) (key : κ) : Option β → Finmap fun _ : κ => β
  | some entry => m.insert key entry
  | none => m.erase key

@[simp] theorem lookup_update (m : Finmap fun _ : κ => β) (key : κ) (entry : Option β) :
    (update m key entry).lookup key = entry := by
  cases entry with
  | none => exact Finmap.lookup_erase key m
  | some entry => exact Finmap.lookup_insert m

theorem lookup_update_of_ne (m : Finmap fun _ : κ => β) {key other : κ} (h : other ≠ key)
    (entry : Option β) : (update m key entry).lookup other = m.lookup other := by
  cases entry with
  | none => exact Finmap.lookup_erase_ne h
  | some entry => exact Finmap.lookup_insert_of_ne m h

/-- The entry that is there already. -/
theorem update_lookup (m : Finmap fun _ : κ => β) (key : κ) : update m key (m.lookup key) = m := by
  refine Finmap.ext_lookup fun other => ?_
  by_cases h : other = key
  · rw [h, lookup_update]
  · exact lookup_update_of_ne m h _

section Loop

variable (key : α → κ) (advance : Option β → α → Option β)

/-- One turn of the loop. -/
def step (m : Finmap fun _ : κ => β) (a : α) : Finmap fun _ : κ => β :=
  update m (key a) (advance (m.lookup (key a)) a)

/-- The loop. -/
def steps (m : Finmap fun _ : κ => β) (labels : List α) : Finmap fun _ : κ => β :=
  labels.foldl (step key advance) m

/-- The labels of a key. -/
def labelsOf (k : κ) (labels : List α) : List α := labels.filter fun a => key a = k

theorem labelsOf_cons (k : κ) (a : α) (labels : List α) :
    labelsOf key k (a :: labels) =
      if key a = k then a :: labelsOf key k labels else labelsOf key k labels := by
  simp [labelsOf, List.filter_cons]

theorem labelsOf_append (k : κ) (labels more : List α) :
    labelsOf key k (labels ++ more) = labelsOf key k labels ++ labelsOf key k more :=
  List.filter_append labels more

theorem lookup_step (m : Finmap fun _ : κ => β) (a : α) (k : κ) :
    (step key advance m a).lookup k =
      if key a = k then advance (m.lookup k) a else m.lookup k := by
  unfold step
  split
  · rename_i h
    rw [h, lookup_update]
  · rename_i h
    exact lookup_update_of_ne m (Ne.symm h) _

/-- At one key the loop runs over the labels of that key. -/
theorem lookup_steps (m : Finmap fun _ : κ => β) (labels : List α) (k : κ) :
    (steps key advance m labels).lookup k =
      (labelsOf key k labels).foldl advance (m.lookup k) := by
  induction labels generalizing m with
  | nil => rfl
  | cons a labels ih =>
    show (steps key advance (step key advance m a) labels).lookup k = _
    rw [ih, lookup_step, labelsOf_cons]
    split <;> rfl

/-- Two lists of labels with the same effect at every key have the same effect. -/
theorem steps_congr {m : Finmap fun _ : κ => β} {labels labels' : List α}
    (h : ∀ k, (labelsOf key k labels).foldl advance (m.lookup k) =
      (labelsOf key k labels').foldl advance (m.lookup k)) :
    steps key advance m labels = steps key advance m labels' :=
  Finmap.ext_lookup fun k => by rw [lookup_steps, lookup_steps, h k]

theorem labelsOf_eq_nil {k : κ} {labels : List α} (h : ∀ a ∈ labels, key a ≠ k) :
    labelsOf key k labels = [] :=
  List.filter_eq_nil_iff.mpr fun a ha => by simpa using h a ha

/-- Labels of one key can be exchanged with labels of another one. -/
theorem steps_comm (m : Finmap fun _ : κ => β) {j k : κ} (hne : j ≠ k) {labels labels' : List α}
    (hlabels : ∀ a ∈ labels, key a = j) (hlabels' : ∀ a ∈ labels', key a = k) :
    steps key advance m (labels ++ labels') = steps key advance m (labels' ++ labels) := by
  refine steps_congr key advance fun i => ?_
  rw [labelsOf_append, labelsOf_append]
  by_cases hi : i = j
  · have hnil : labelsOf key i labels' = [] :=
      labelsOf_eq_nil key fun a ha hkey => hne (by rw [← hi, ← hkey, hlabels' a ha])
    rw [hnil, List.append_nil, List.nil_append]
  · have hnil : labelsOf key i labels = [] :=
      labelsOf_eq_nil key fun a ha hkey => hi (by rw [← hkey, hlabels a ha])
    rw [hnil, List.append_nil, List.nil_append]

end Loop

end Streamweld.Lib.Keyed
