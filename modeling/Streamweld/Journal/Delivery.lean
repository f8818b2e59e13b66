import Streamweld.Journal.Types
import Streamweld.Lib.Sequence

/-!
# Gap-free deliveries

What a reader of a tail may see: the entries after its cursor in order, and then
at most one entry that carries an error.
-/

namespace Streamweld.Journal

open Streamweld.Lib

variable {start : Nat} {entries rest : List Entry}

/-- The entry that carries a delivery error.  All its other fields are zero in the
source; nothing reads the kind of such an entry. -/
def errorEntry (reason : JournalError) : Entry :=
  { seq := 0, ts := 0, kind := .kindError, payload := ⟨"", none⟩, err := some reason }

/-- The entries are sequenced ones: `start + 1`, `start + 2`, … -/
def Sequenced (start : Nat) (entries : List Entry) : Prop :=
  (∀ entry ∈ entries, entry.err = none) ∧ Consecutive (start + 1) (entries.map (·.seq))

/-- The entries are sequenced ones, followed by at most one error entry. -/
def GapFree (start : Nat) (entries : List Entry) : Prop :=
  ∃ data last, entries = data ++ last ∧ Sequenced start data ∧
    (last = [] ∨ ∃ reason, last = [errorEntry reason])

theorem Sequenced.nil (start : Nat) : Sequenced start [] := ⟨by simp, by simp⟩

theorem Sequenced.concat (h : Sequenced start entries) {entry : Entry} (herr : entry.err = none)
    (hseq : entry.seq = start + entries.length + 1) : Sequenced start (entries ++ [entry]) := by
  refine ⟨List.forall_mem_append.mpr ⟨h.1, List.forall_mem_singleton.mpr herr⟩, ?_⟩
  rw [List.map_append, List.map_cons, List.map_nil]
  apply h.2.concat
  rw [List.length_map]
  omega

theorem Sequenced.left (h : Sequenced start (entries ++ rest)) : Sequenced start entries := by
  refine ⟨fun e he => h.1 e (List.mem_append_left _ he), ?_⟩
  have hseqs := h.2
  rw [List.map_append] at hseqs
  exact hseqs.left

theorem Sequenced.gapFree (h : Sequenced start entries) : GapFree start entries :=
  ⟨entries, [], by simp, h, .inl rfl⟩

theorem Sequenced.concat_error (h : Sequenced start entries) (reason : JournalError) :
    GapFree start (entries ++ [errorEntry reason]) :=
  ⟨entries, _, rfl, h, .inr ⟨reason, rfl⟩⟩

/-- What a consumer saw before is gap-free when what it saw later is. -/
theorem GapFree.left (h : GapFree start (entries ++ rest)) : GapFree start entries := by
  obtain ⟨data, last, heq, hdata, hlast⟩ := h
  rcases List.append_eq_append_iff.mp heq with ⟨middle, hd, _⟩ | ⟨middle, he, hl⟩
  · rw [hd] at hdata
    exact hdata.left.gapFree
  · rcases hlast with rfl | ⟨reason, rfl⟩
    · obtain ⟨rfl, _⟩ := List.append_eq_nil_iff.mp hl.symm
      rw [he, List.append_nil]
      exact hdata.gapFree
    · rcases List.append_eq_singleton_iff.mp hl.symm with ⟨rfl, _⟩ | ⟨rfl, _⟩
      · rw [he, List.append_nil]
        exact hdata.gapFree
      · rw [he]
        exact hdata.concat_error reason

/-- The first sequenced entry of a gap-free delivery follows the cursor. -/
theorem GapFree.head_seq {entry : Entry} (h : GapFree start (entry :: rest))
    (herr : entry.err = none) : entry.seq = start + 1 := by
  obtain ⟨data, last, heq, hdata, hlast⟩ := h
  cases data with
  | nil =>
    rcases hlast with rfl | ⟨reason, rfl⟩
    · simp at heq
    · simp only [List.nil_append, List.cons.injEq] at heq
      rw [heq.1] at herr
      cases herr
  | cons first data =>
    simp only [List.cons_append, List.cons.injEq] at heq
    have hfirst := hdata.2.getElem? (show 0 < _ by simp)
    rw [heq.1]
    simpa using hfirst

end Streamweld.Journal
