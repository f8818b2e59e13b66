import Mathlib

/-!
# Consecutive sequences

A log assigns consecutive numbers.  `Consecutive start numbers` says that
`numbers` is `start, start + 1, …` with none skipped and none repeated; the
lemmas extend such a list at its end, cut it, and read a position off it.
-/

namespace Streamweld.Lib

/-- `numbers` is `start, start + 1, …`, for as long as it lasts. -/
def Consecutive (start : Nat) (numbers : List Nat) : Prop :=
  numbers = List.range' start numbers.length

instance (start : Nat) (numbers : List Nat) : Decidable (Consecutive start numbers) :=
  inferInstanceAs (Decidable (numbers = List.range' start numbers.length))

namespace Consecutive

variable {start : Nat} {numbers : List Nat}

@[simp] theorem nil (start : Nat) : Consecutive start [] := rfl

/-- A consecutive list grows at its end by the next number. -/
theorem concat (h : Consecutive start numbers) {next : Nat}
    (hnext : next = start + numbers.length) : Consecutive start (numbers ++ [next]) := by
  unfold Consecutive at h ⊢
  rw [List.length_append, List.length_singleton, List.range'_1_concat, ← h, hnext]

/-- The last number of a consecutive list is determined by its length. -/
theorem eq_of_concat {next : Nat} (h : Consecutive start (numbers ++ [next])) :
    Consecutive start numbers ∧ next = start + numbers.length := by
  unfold Consecutive at h ⊢
  rw [List.length_append, List.length_singleton, List.range'_1_concat] at h
  obtain ⟨h1, h2⟩ := List.append_inj' h rfl
  exact ⟨h1, (List.cons.inj h2).1⟩

/-- A prefix of a consecutive list is consecutive. -/
theorem left {suffix : List Nat} (h : Consecutive start (numbers ++ suffix)) :
    Consecutive start numbers := by
  induction suffix using List.reverseRecOn with
  | nil => simpa using h
  | append_singleton suffix last ih =>
    rw [← List.append_assoc] at h
    exact ih (eq_of_concat h).1

/-- What remains of a consecutive list after its first `count` numbers. -/
theorem drop (h : Consecutive start numbers) (count : Nat) :
    Consecutive (start + count) (numbers.drop count) := by
  unfold Consecutive at h ⊢
  have hdrop : numbers.drop count = (List.range' start numbers.length).drop count :=
    congrArg (List.drop count) h
  rw [List.length_drop, hdrop, List.drop_range', Nat.mul_one]

/-- The number at a position. -/
theorem getElem? (h : Consecutive start numbers) {index : Nat}
    (hindex : index < numbers.length) : numbers[index]? = some (start + index) := by
  unfold Consecutive at h
  rw [h, List.getElem?_range' (by simpa using hindex), Nat.one_mul]

theorem mem_iff (h : Consecutive start numbers) {n : Nat} :
    n ∈ numbers ↔ start ≤ n ∧ n < start + numbers.length := by
  unfold Consecutive at h
  rw [h, List.mem_range'_1, List.length_range']

theorem of_cons {first : Nat} {rest : List Nat} (h : Consecutive start (first :: rest)) :
    first = start ∧ Consecutive (start + 1) rest := by
  unfold Consecutive at h ⊢
  rw [List.length_cons, List.range'_succ] at h
  exact List.cons.inj h

/-- Of elements with consecutive numbers, those from a number on are the elements
from a position on. -/
theorem filter_eq_drop {β : Type} (number : β → Nat) {elements : List β} {start : Nat}
    (h : Consecutive start (elements.map number)) (count : Nat) :
    elements.filter (fun x => decide (start + count ≤ number x)) = elements.drop count := by
  induction elements generalizing start count with
  | nil => simp
  | cons x rest ih =>
    cases count with
    | zero =>
      rw [List.drop_zero, List.filter_eq_self]
      intro y hy
      simpa using (h.mem_iff.mp (List.mem_map_of_mem hy)).1
    | succ count =>
      obtain ⟨hx, hrest⟩ := of_cons h
      have hdrop : ¬ start + (count + 1) ≤ number x := by omega
      have htail := ih hrest count
      simp only [Nat.add_right_comm start 1 count] at htail
      simp only [List.filter_cons, hdrop, decide_false, Bool.false_eq_true, if_false,
        List.drop_succ_cons]
      exact htail

/-- Of elements with consecutive numbers, those below a number are the elements
before a position. -/
theorem filter_eq_take {β : Type} (number : β → Nat) {elements : List β} {start : Nat}
    (h : Consecutive start (elements.map number)) (count : Nat) :
    elements.filter (fun x => decide (number x < start + count)) = elements.take count := by
  induction elements generalizing start count with
  | nil => simp
  | cons x rest ih =>
    obtain ⟨hx, hrest⟩ := of_cons h
    cases count with
    | zero =>
      rw [List.take_zero, List.filter_eq_nil_iff]
      intro y hy
      have := (h.mem_iff.mp (List.mem_map_of_mem hy)).1
      simp only [decide_eq_true_eq]
      omega
    | succ count =>
      have hkeep : number x < start + (count + 1) := by omega
      have htail := ih hrest count
      simp only [Nat.add_right_comm start 1 count] at htail
      simp only [List.filter_cons, hkeep, decide_true, if_true, List.take_succ_cons]
      rw [← htail]
      rfl

/-- The numbers above `cursor`, when the list reaches `cursor` or starts right
above it. -/
theorem filter_gt (h : Consecutive start numbers) (cursor : Nat) (hlow : start ≤ cursor + 1)
    (hhigh : cursor < start + numbers.length) :
    numbers.filter (fun n => decide (cursor < n)) =
      List.range' (cursor + 1) (start + numbers.length - (cursor + 1)) := by
  unfold Consecutive at h
  have hsplit : numbers = List.range' start (cursor + 1 - start) ++
      List.range' (cursor + 1) (start + numbers.length - (cursor + 1)) := by
    have happend := List.range'_append_1 (s := start) (m := cursor + 1 - start)
      (n := start + numbers.length - (cursor + 1))
    rw [Nat.add_sub_cancel' hlow] at happend
    rw [happend]
    refine h.trans ?_
    congr 1
    omega
  generalize start + numbers.length - (cursor + 1) = rest at hsplit ⊢
  rw [hsplit, List.filter_append]
  have hbelow : (List.range' start (cursor + 1 - start)).filter
      (fun n => decide (cursor < n)) = [] := by
    rw [List.filter_eq_nil_iff]
    intro n hn
    rw [List.mem_range'_1] at hn
    simp only [decide_eq_true_eq]
    omega
  have habove : (List.range' (cursor + 1) rest).filter (fun n => decide (cursor < n)) =
      List.range' (cursor + 1) rest := by
    rw [List.filter_eq_self]
    intro n hn
    rw [List.mem_range'_1] at hn
    simp only [decide_eq_true_eq]
    omega
  rw [hbelow, habove, List.nil_append]

end Consecutive

end Streamweld.Lib
