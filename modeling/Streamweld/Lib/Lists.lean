import Mathlib

/-!
# Lists

Association lists, and lists that are related element by element.
-/

namespace Streamweld.Lib

variable {α β γ ε : Type}

theorem lookup_eq_none_iff_notMem [DecidableEq α] {key : α} {entries : List (α × β)} :
    entries.lookup key = none ↔ key ∉ entries.map Prod.fst := by
  rw [List.lookup_eq_none_iff, List.mem_map]
  constructor
  · rintro h ⟨entry, hentry, rfl⟩
    simpa using h entry hentry
  · intro h entry hentry
    rw [bne_iff_ne]
    rintro rfl
    exact h ⟨entry, hentry, rfl⟩

/-- The results of a loop that succeeds. -/
theorem forall₂_of_mapM {f : α → Except ε β} {as : List α} {bs : List β}
    (h : as.mapM f = .ok bs) : List.Forall₂ (fun a b => f a = .ok b) as bs := by
  induction as generalizing bs with
  | nil =>
    obtain rfl := Except.ok.inj h
    exact .nil
  | cons a as ih =>
    rw [List.mapM_cons] at h
    cases hfirst : f a with
    | error e =>
      rw [hfirst] at h
      exact absurd h (by simp [bind, Except.bind])
    | ok b =>
      cases hrest : as.mapM f with
      | error e =>
        rw [hfirst, hrest] at h
        exact absurd h (by simp [bind, Except.bind])
      | ok bs' =>
        rw [hfirst, hrest] at h
        obtain rfl := Except.ok.inj h
        exact .cons hfirst (ih hrest)

theorem forall₂_trans {R : α → β → Prop} {S : β → γ → Prop} {T : α → γ → Prop}
    (htrans : ∀ a b c, R a b → S b c → T a c) {as : List α} {bs : List β} {cs : List γ}
    (h : List.Forall₂ R as bs) (h' : List.Forall₂ S bs cs) : List.Forall₂ T as cs := by
  induction h generalizing cs with
  | nil =>
    cases h'
    exact .nil
  | cons hab _ ih =>
    cases h' with
    | cons hbc hrest => exact .cons (htrans _ _ _ hab hbc) (ih hrest)

theorem forall₂_mem_left {R : α → β → Prop} {as : List α} {bs : List β}
    (h : List.Forall₂ R as bs) {a : α} (ha : a ∈ as) : ∃ b ∈ bs, R a b := by
  induction h with
  | nil => exact absurd ha List.not_mem_nil
  | cons hab _ ih =>
    rcases List.mem_cons.mp ha with rfl | ha
    · exact ⟨_, List.mem_cons_self, hab⟩
    · obtain ⟨b, hb, hR⟩ := ih ha
      exact ⟨b, List.mem_cons_of_mem _ hb, hR⟩

end Streamweld.Lib
