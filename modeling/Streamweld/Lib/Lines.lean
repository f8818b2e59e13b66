import Mathlib.Data.List.Basic
import Mathlib.Tactic.Common

/-!
# Lines with three endings

A text is cut into lines at a carriage return, a line feed, or a carriage return
with the line feed that follows it.  The letters are of any type; `cr` and `lf`
are the two marks.  What follows the last ending is not a line yet.

* `cut`: every text is a line and its ending, or has no ending;
* `split_append`: the lines of a text stay when more text follows;
* `blocks`: the lines between blank lines.
-/

namespace Streamweld.Lib.Lines

variable {α : Type} {cr lf : α}

/-- No ending occurs in the text. -/
def Plain (cr lf : α) (line : List α) : Prop := cr ∉ line ∧ lf ∉ line

theorem plain_nil : Plain cr lf ([] : List α) := ⟨List.not_mem_nil, List.not_mem_nil⟩

theorem plain_cons {a : α} {line : List α} :
    Plain cr lf (a :: line) ↔ a ≠ cr ∧ a ≠ lf ∧ Plain cr lf line := by
  unfold Plain
  rw [List.mem_cons, List.mem_cons, not_or, not_or]
  constructor
  · intro ⟨⟨hcr, hcr'⟩, hlf, hlf'⟩
    exact ⟨Ne.symm hcr, Ne.symm hlf, hcr', hlf'⟩
  · intro ⟨hcr, hlf, hcr', hlf'⟩
    exact ⟨⟨Ne.symm hcr, hcr'⟩, Ne.symm hlf, hlf'⟩

variable [DecidableEq α]

/-- A letter in front of the first line. -/
def consLetter (a : α) : List (List α) × List α → List (List α) × List α
  | ([], rest) => ([], a :: rest)
  | (line :: lines, rest) => ((a :: line) :: lines, rest)

/-- An empty line in front. -/
def consEmpty (split : List (List α) × List α) : List (List α) × List α :=
  ([] :: split.1, split.2)

/-- The lines that are ended, and the rest. -/
def split (cr lf : α) : List α → List (List α) × List α
  | [] => ([], [])
  | [a] => if a = cr ∨ a = lf then ([[]], []) else ([], [a])
  | a :: b :: rest =>
    if a = cr ∧ b = lf then consEmpty (split cr lf rest)
    else if a = cr ∨ a = lf then consEmpty (split cr lf (b :: rest))
    else consLetter a (split cr lf (b :: rest))

/-- What is left of a text after a carriage return. -/
def skip (lf : α) (text : List α) : List α := if text.head? = some lf then text.tail else text

theorem skip_length (lf : α) (text : List α) : (skip lf text).length ≤ text.length := by
  unfold skip
  split
  · exact List.length_tail ▸ Nat.sub_le _ _
  · exact Nat.le_refl _

/-! ## Whole lines -/

theorem split_letter {a : α} (hcr : a ≠ cr) (hlf : a ≠ lf) (text : List α) :
    split cr lf (a :: text) = consLetter a (split cr lf text) := by
  have hend : ¬ (a = cr ∨ a = lf) := not_or.mpr ⟨hcr, hlf⟩
  cases text with
  | nil => exact if_neg hend
  | cons b rest =>
    show (if _ then _ else if _ then _ else _) = _
    rw [if_neg fun h => hcr h.1, if_neg hend]

theorem split_feed (hne : cr ≠ lf) (text : List α) :
    split cr lf (lf :: text) = consEmpty (split cr lf text) := by
  cases text with
  | nil => exact if_pos (Or.inr rfl)
  | cons b rest =>
    show (if _ then _ else if _ then _ else _) = _
    rw [if_neg fun h => hne h.1.symm, if_pos (Or.inr rfl)]

theorem split_return (text : List α) :
    split cr lf (cr :: text) = consEmpty (split cr lf (skip lf text)) := by
  cases text with
  | nil => exact if_pos (Or.inl rfl)
  | cons b rest =>
    show (if _ then _ else if _ then _ else _) = _
    by_cases hb : b = lf
    · rw [if_pos ⟨rfl, hb⟩, skip, if_pos (by rw [hb]; rfl)]
      rfl
    · rw [if_neg fun h => hb h.2, if_pos (Or.inl rfl), skip, if_neg]
      simpa using hb

/-- A text without an ending is not a line yet. -/
theorem split_plain {line : List α} (h : Plain cr lf line) : split cr lf line = ([], line) := by
  induction line with
  | nil => rfl
  | cons a line ih =>
    obtain ⟨hcr, hlf, hline⟩ := plain_cons.mp h
    rw [split_letter hcr hlf, ih hline]
    rfl

/-- The letters of a line go in front of what its ending makes of the rest. -/
theorem split_plain_append {line text : List α} {lines : List (List α)} {rest : List α}
    (h : Plain cr lf line) (htext : split cr lf text = ([] :: lines, rest)) :
    split cr lf (line ++ text) = (line :: lines, rest) := by
  induction line with
  | nil => exact htext
  | cons a line ih =>
    obtain ⟨hcr, hlf, hline⟩ := plain_cons.mp h
    rw [List.cons_append, split_letter hcr hlf, ih hline]
    rfl

theorem split_line_feed (hne : cr ≠ lf) {line : List α} (h : Plain cr lf line) (text : List α) :
    split cr lf (line ++ lf :: text) = (line :: (split cr lf text).1, (split cr lf text).2) :=
  split_plain_append h (split_feed hne text)

theorem split_line_return {line : List α} (h : Plain cr lf line) (text : List α) :
    split cr lf (line ++ cr :: text) =
      (line :: (split cr lf (skip lf text)).1, (split cr lf (skip lf text)).2) :=
  split_plain_append h (split_return text)

/-- Every text is a line and its ending, or has no ending. -/
theorem cut (cr lf : α) (text : List α) :
    Plain cr lf text ∨
      (∃ line rest, Plain cr lf line ∧ text = line ++ lf :: rest) ∨
      ∃ line rest, Plain cr lf line ∧ text = line ++ cr :: rest := by
  induction text with
  | nil => exact Or.inl plain_nil
  | cons a text ih =>
    by_cases hcr : a = cr
    · exact Or.inr (Or.inr ⟨[], text, plain_nil, by rw [hcr]; rfl⟩)
    by_cases hlf : a = lf
    · exact Or.inr (Or.inl ⟨[], text, plain_nil, by rw [hlf]; rfl⟩)
    obtain hplain | ⟨line, rest, hline, rfl⟩ | ⟨line, rest, hline, rfl⟩ := ih
    · exact Or.inl (plain_cons.mpr ⟨hcr, hlf, hplain⟩)
    · exact Or.inr (Or.inl ⟨a :: line, rest, plain_cons.mpr ⟨hcr, hlf, hline⟩, rfl⟩)
    · exact Or.inr (Or.inr ⟨a :: line, rest, plain_cons.mpr ⟨hcr, hlf, hline⟩, rfl⟩)

/-! ## More text -/

theorem skip_append {text : List α} (h : text ≠ []) (more : List α) :
    skip lf (text ++ more) = skip lf text ++ more := by
  cases text with
  | nil => exact absurd rfl h
  | cons a text =>
    unfold skip
    rw [List.cons_append, List.head?_cons, List.head?_cons]
    split <;> rfl

/-- The lines of a text stay when more text follows. -/
theorem split_append (hne : cr ≠ lf) (text more : List α) :
    (split cr lf text).1 <+: (split cr lf (text ++ more)).1 := by
  -- the first line is taken off both
  induction hlen : text.length using Nat.strongRecOn generalizing text with
  | ind n ih =>
  obtain hplain | ⟨line, rest, hline, rfl⟩ | ⟨line, rest, hline, rfl⟩ := cut cr lf text
  · rw [split_plain hplain]
    exact List.nil_prefix
  · have hshort : rest.length < n := by
      rw [List.length_append, List.length_cons] at hlen
      omega
    rw [List.append_assoc, List.cons_append, split_line_feed hne hline, split_line_feed hne hline]
    exact List.cons_prefix_cons.mpr ⟨rfl, ih _ hshort rest rfl⟩
  · have hskip := skip_length lf rest
    have hshort : (skip lf rest).length < n := by
      rw [List.length_append, List.length_cons] at hlen
      omega
    rw [List.append_assoc, List.cons_append, split_line_return hline, split_line_return hline]
    refine List.cons_prefix_cons.mpr ⟨rfl, ?_⟩
    by_cases hrest : rest = []
    · subst hrest
      exact List.nil_prefix
    · rw [skip_append hrest]
      exact ih _ hshort _ rfl

/-! ## Blocks -/

section Blocks

variable {β : Type} (blank : β → Prop) [DecidablePred blank]

/-- The blocks that a blank line ends, with that line, and the lines after the last
of them; `block` has begun. -/
def blocks (block : List β) : List β → List (List β) × List β
  | [] => ([], block)
  | line :: lines =>
    if blank line then ((block ++ [line]) :: (blocks [] lines).1, (blocks [] lines).2)
    else blocks (block ++ [line]) lines

end Blocks

end Streamweld.Lib.Lines
