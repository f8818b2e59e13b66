import Mathlib

/-!
# Cutting a text at an offset, and overlaps

A text is a list whose elements have sizes, such as the bytes of a rune, and an offset
into it counts sizes.  `cut` splits a text at an offset and fails when the offset is
inside an element.  `longestOverlap` is the search for the longest end of one text that
another one starts with, from the greatest length down; `IsOverlap` is what it searches
for.

Every element has a positive size (`hpos`).
-/

namespace Streamweld.Lib

variable {α : Type} (size : α → Nat)

/-- The size of a text. -/
def weight (text : List α) : Nat := (text.map size).sum

@[simp] theorem weight_nil : weight size [] = 0 := rfl

@[simp] theorem weight_cons (a : α) (text : List α) :
    weight size (a :: text) = size a + weight size text := by
  simp [weight]

@[simp] theorem weight_append (left right : List α) :
    weight size (left ++ right) = weight size left + weight size right := by
  simp [weight]

/-- Split a text at an offset. -/
def cut : Nat → List α → Option (List α × List α)
  | 0, text => some ([], text)
  | _ + 1, [] => none
  | offset + 1, a :: text =>
    if size a ≤ offset + 1 then
      (cut (offset + 1 - size a) text).map fun (left, right) => (a :: left, right)
    else none

@[simp] theorem cut_zero (text : List α) : cut size 0 text = some ([], text) := by
  cases text <;> rfl

section Cut

variable {size} (hpos : ∀ a, 0 < size a)

include hpos

theorem weight_eq_zero_iff {text : List α} : weight size text = 0 ↔ text = [] := by
  cases text with
  | nil => simp
  | cons a text =>
    have := hpos a
    simp only [weight_cons, reduceCtorEq, iff_false]
    omega

/-- `cut` finds the one split at the offset. -/
theorem cut_eq_some_iff {offset : Nat} {text left right : List α} :
    cut size offset text = some (left, right) ↔
      left ++ right = text ∧ weight size left = offset := by
  induction text generalizing offset left with
  | nil =>
    cases offset with
    | zero =>
      rw [cut_zero, Option.some.injEq, Prod.mk.injEq, List.append_eq_nil_iff,
        weight_eq_zero_iff hpos]
      grind
    | succ offset =>
      simp only [cut, reduceCtorEq, List.append_eq_nil_iff, false_iff, not_and]
      rintro ⟨rfl, rfl⟩
      simp
  | cons a text ih =>
    cases offset with
    | zero =>
      rw [cut_zero, Option.some.injEq, Prod.mk.injEq, weight_eq_zero_iff hpos]
      constructor
      · rintro ⟨rfl, rfl⟩
        exact ⟨rfl, rfl⟩
      · rintro ⟨happend, rfl⟩
        exact ⟨rfl, happend.symm⟩
    | succ offset =>
      have ha := hpos a
      rw [cut]
      split
      · rename_i hfits
        rw [Option.map_eq_some_iff]
        constructor
        · rintro ⟨⟨left', right'⟩, hcut, hpair⟩
          cases hpair
          obtain ⟨happend, hweight⟩ := ih.mp hcut
          exact ⟨by rw [List.cons_append, happend], by rw [weight_cons, hweight]; omega⟩
        · rintro ⟨happend, hweight⟩
          cases left with
          | nil => simp at hweight
          | cons b left =>
            obtain ⟨rfl, hrest⟩ := List.cons.inj happend
            rw [weight_cons] at hweight
            exact ⟨(left, right), ih.mpr ⟨hrest, by omega⟩, rfl⟩
      · rename_i hlarge
        simp only [reduceCtorEq, false_iff, not_and]
        intro happend hweight
        cases left with
        | nil => simp at hweight
        | cons b left =>
          obtain ⟨rfl, _⟩ := List.cons.inj happend
          rw [weight_cons] at hweight
          omega

/-- An offset between two parts of a text is not inside an element. -/
theorem cut_append (left right : List α) :
    cut size (weight size left) (left ++ right) = some (left, right) :=
  (cut_eq_some_iff hpos).mpr ⟨rfl, rfl⟩

/-- Two starts of one text are comparable by their sizes. -/
theorem prefix_of_weight_le {text p q : List α} (hp : p <+: text) (hq : q <+: text)
    (h : weight size p ≤ weight size q) : p <+: q := by
  rcases List.prefix_or_prefix_of_prefix hp hq with hpq | ⟨rest, rfl⟩
  · exact hpq
  · rw [weight_append] at h
    have hrest : rest = [] := (weight_eq_zero_iff hpos).mp (by omega)
    rw [hrest, List.append_nil]

/-- A start of a text is determined by its size. -/
theorem prefix_eq_of_weight_eq {text p q : List α} (hp : p <+: text) (hq : q <+: text)
    (h : weight size p = weight size q) : p = q :=
  (prefix_of_weight_le hpos hp hq h.le).eq_of_length_le
    (prefix_of_weight_le hpos hq hp h.ge).length_le

end Cut

/-! ## The greatest boundary -/

/-- The greatest offset up to a given one that is not inside an element. -/
def boundaryAtOrBefore (text : List α) : Nat → Nat
  | 0 => 0
  | offset + 1 =>
    if (cut size (offset + 1) text).isSome then offset + 1 else boundaryAtOrBefore text offset

/-- The part of a text before that boundary. -/
theorem boundaryAtOrBefore_spec {size : α → Nat} (hpos : ∀ a, 0 < size a) (text : List α)
    (offset : Nat) :
    ∃ held rest, cut size (boundaryAtOrBefore size text offset) text = some (held, rest) ∧
      weight size held ≤ offset ∧
      ∀ p, p <+: text → weight size p ≤ offset → p <+: held := by
  induction offset with
  | zero =>
    refine ⟨[], text, cut_zero size text, le_refl 0, fun p _ hp => ?_⟩
    rw [(weight_eq_zero_iff hpos).mp (Nat.le_zero.mp hp)]
  | succ offset ih =>
    rw [boundaryAtOrBefore]
    split
    · rename_i hsome
      obtain ⟨⟨held, rest⟩, hcut⟩ := Option.isSome_iff_exists.mp hsome
      obtain ⟨rfl, hweight⟩ := (cut_eq_some_iff hpos).mp hcut
      exact ⟨held, rest, hcut, hweight.le, fun p hp hle =>
        prefix_of_weight_le hpos hp (List.prefix_append held rest) (by omega)⟩
    · rename_i hnone
      obtain ⟨held, rest, hcut, hweight, hgreatest⟩ := ih
      refine ⟨held, rest, hcut, by omega, fun p hp hle => hgreatest p hp ?_⟩
      -- No start of the text ends at the offset itself.
      rcases Nat.lt_or_eq_of_le hle with hlt | heq
      · omega
      · obtain ⟨after, rfl⟩ := hp
        rw [← heq, cut_append hpos] at hnone
        exact absurd rfl hnone

/-! ## Overlaps -/

/-- `p` ends the first text and starts the second one. -/
structure IsOverlap (first second p : List α) : Prop where
  ends : p <:+ first
  starts : p <+: second

section Search

variable [DecidableEq α]

/-- The two texts overlap by the given size. -/
def overlapsBy (first second : List α) (length : Nat) : Bool :=
  match cut size (weight size first - length) first, cut size length second with
  | some (_, ending), some (start, _) => decide (ending = start)
  | _, _ => false

/-- The search from a length down. -/
def overlapFrom (first second : List α) : Nat → Nat
  | 0 => 0
  | length + 1 =>
    if overlapsBy size first second (length + 1) then length + 1
    else overlapFrom first second length

def longestOverlap (first second : List α) : Nat :=
  overlapFrom size first second (min (weight size first) (weight size second))

variable {size} (hpos : ∀ a, 0 < size a)

include hpos

theorem overlapsBy_iff {first second : List α} {length : Nat}
    (hlength : length ≤ weight size first) :
    overlapsBy size first second length = true ↔
      ∃ p, IsOverlap first second p ∧ weight size p = length := by
  unfold overlapsBy
  constructor
  · intro h
    split at h
    · rename_i before ending start after hfirst hsecond
      obtain ⟨rfl, hbefore⟩ := (cut_eq_some_iff hpos).mp hfirst
      obtain ⟨rfl, hstart⟩ := (cut_eq_some_iff hpos).mp hsecond
      cases of_decide_eq_true h
      exact ⟨ending, ⟨List.suffix_append .., List.prefix_append ..⟩, hstart⟩
    · cases h
  · rintro ⟨p, ⟨⟨before, rfl⟩, ⟨after, rfl⟩⟩, rfl⟩
    have hbefore : weight size (before ++ p) - weight size p = weight size before := by
      rw [weight_append]
      omega
    rw [hbefore, cut_append hpos, cut_append hpos]
    exact decide_eq_true rfl

/-- The search finds the longest overlap up to its start. -/
theorem overlapFrom_spec {first second : List α} {limit : Nat}
    (hlimit : limit ≤ weight size first) :
    (∃ p, IsOverlap first second p ∧ weight size p = overlapFrom size first second limit) ∧
      ∀ p, IsOverlap first second p → weight size p ≤ limit →
        weight size p ≤ overlapFrom size first second limit := by
  induction limit with
  | zero =>
    exact ⟨⟨[], ⟨List.nil_suffix, List.nil_prefix⟩, rfl⟩, fun _ _ h => h⟩
  | succ limit ih =>
    rw [overlapFrom]
    split
    · rename_i hfound
      exact ⟨(overlapsBy_iff hpos hlimit).mp hfound, fun _ _ h => h⟩
    · rename_i hmissing
      obtain ⟨hexists, hlongest⟩ := ih (by omega)
      refine ⟨hexists, fun p hp hle => hlongest p hp ?_⟩
      by_contra hgreater
      exact hmissing ((overlapsBy_iff hpos hlimit).mpr ⟨p, hp, by omega⟩)

theorem longestOverlap_spec (first second : List α) :
    (∃ p, IsOverlap first second p ∧ weight size p = longestOverlap size first second) ∧
      ∀ p, IsOverlap first second p → weight size p ≤ longestOverlap size first second := by
  have hlimit : min (weight size first) (weight size second) ≤ weight size first :=
    Nat.min_le_left ..
  obtain ⟨hexists, hlongest⟩ := overlapFrom_spec hpos hlimit
  refine ⟨hexists, fun p hp => hlongest p hp ?_⟩
  obtain ⟨⟨before, hbefore⟩, after, hafter⟩ := hp
  have hfirst := congrArg (weight size) hbefore
  have hsecond := congrArg (weight size) hafter
  rw [weight_append] at hfirst hsecond
  omega

end Search

end Streamweld.Lib
