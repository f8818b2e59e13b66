import Mathlib

/-!
# Runs of a step function

A system is a partial step function `step : σ → α → Option σ` over states `σ`
and labels `α`.  The label carries every choice the step makes, so that a run
is a list of labels and the state it reaches is a value that can be computed.
`run` executes a list of labels and answers `none` as soon as a label is not
enabled.

A guard `Good : σ → α → Prop` restricts a run: `Along` says that every step of
the run meets the guard in the state before it.  The two rules of this file are
the inductions that every safety proof needs: an invariant of the steps is an
invariant of the runs (`inv_of_run`), and an invariant of the steps that meet a
guard is an invariant of the runs that meet it (`inv_of_run_along`).
-/

namespace Streamweld.Lib

variable {σ α : Type} {step : σ → α → Option σ} {s t : σ} {as : List α} {Good : σ → α → Prop}

/-- Execute the labels in order.  The run is stuck, and the answer is `none`, at
the first label that the current state does not enable. -/
def run (step : σ → α → Option σ) : σ → List α → Option σ
  | s, [] => some s
  | s, a :: as => (step s a).bind fun s' => run step s' as

/-- Every step of the run meets `Good` in the state before it. -/
def Along (step : σ → α → Option σ) (Good : σ → α → Prop) : σ → List α → Prop
  | _, [] => True
  | s, a :: as => Good s a ∧ ∀ s', step s a = some s' → Along step Good s' as

/-- A concrete run can be checked against a decidable guard. -/
instance Along.decidable (step : σ → α → Option σ) (Good : σ → α → Prop)
    [∀ s a, Decidable (Good s a)] : (s : σ) → (as : List α) → Decidable (Along step Good s as)
  | _, [] => .isTrue trivial
  | s, a :: as =>
    match hstep : step s a with
    | none => decidable_of_iff (Good s a) (by simp [Along, hstep])
    | some s' =>
      have := Along.decidable step Good s' as
      decidable_of_iff (Good s a ∧ Along step Good s' as) (by simp [Along, hstep])

@[simp] theorem run_nil (step : σ → α → Option σ) (s : σ) :
    run step s [] = some s := rfl

theorem run_cons {a : α} (h : run step s (a :: as) = some t) :
    ∃ s', step s a = some s' ∧ run step s' as = some t := by
  rw [run] at h
  exact Option.bind_eq_some_iff.mp h

/-- A guarded run splits where its labels do. -/
theorem Along.append {bs : List α} (h : Along step Good s (as ++ bs))
    (hrun : run step s as = some t) : Along step Good s as ∧ Along step Good t bs := by
  induction as generalizing s with
  | nil =>
    rw [run_nil] at hrun
    exact ⟨trivial, Option.some.inj hrun ▸ h⟩
  | cons a as ih =>
    obtain ⟨s', hs', hrun'⟩ := run_cons hrun
    obtain ⟨hgood, hrest⟩ := h
    refine ⟨⟨hgood, fun s'' hs'' => ?_⟩, (ih (hrest s' hs') hrun').2⟩
    rw [hs'] at hs''
    exact Option.some.inj hs'' ▸ (ih (hrest s' hs') hrun').1

/-- A guard that every step meets is met along every run. -/
theorem Along.of_forall (h : ∀ s a, Good s a) (s : σ) (as : List α) : Along step Good s as := by
  induction as generalizing s with
  | nil => trivial
  | cons a as ih => exact ⟨h s a, fun s' _ => ih s'⟩

/-- A guard on the labels alone. -/
theorem Along.of_mem {P : α → Prop} (h : ∀ a ∈ as, P a) (s : σ) :
    Along step (fun _ a => P a) s as := by
  induction as generalizing s with
  | nil => trivial
  | cons a as ih =>
    exact ⟨h a List.mem_cons_self, fun s' _ => ih (fun b hb => h b (List.mem_cons_of_mem _ hb)) s'⟩

/-- A run that meets two guards meets both at every step. -/
theorem Along.and {Good' : σ → α → Prop} (h : Along step Good s as) (h' : Along step Good' s as) :
    Along step (fun s a => Good s a ∧ Good' s a) s as := by
  induction as generalizing s with
  | nil => trivial
  | cons a as ih => exact ⟨⟨h.1, h'.1⟩, fun s' hs' => ih (h.2 s' hs') (h'.2 s' hs')⟩

/-- A run that meets a guard meets every weaker one. -/
theorem Along.imp {Good' : σ → α → Prop} (h : ∀ s a, Good s a → Good' s a)
    (halong : Along step Good s as) : Along step Good' s as := by
  induction as generalizing s with
  | nil => trivial
  | cons a as ih => exact ⟨h s a halong.1, fun s' hs' => ih (halong.2 s' hs')⟩

/-- An invariant of the steps that meet the guard holds along every run whose
steps all meet it. -/
theorem inv_of_run_along {Inv : σ → Prop}
    (hstep : ∀ s a s', Inv s → Good s a → step s a = some s' → Inv s') (hinit : Inv s)
    (hgood : Along step Good s as) (hrun : run step s as = some t) : Inv t := by
  induction as generalizing s with
  | nil =>
    rw [run_nil] at hrun
    exact Option.some.inj hrun ▸ hinit
  | cons a as ih =>
    obtain ⟨s', hs', hrun'⟩ := run_cons hrun
    exact ih (hstep s a s' hinit hgood.1 hs') (hgood.2 s' hs') hrun'

/-- An invariant of the steps is an invariant of the runs. -/
theorem inv_of_run {Inv : σ → Prop} (hstep : ∀ s a s', Inv s → step s a = some s' → Inv s')
    (hinit : Inv s) (hrun : run step s as = some t) : Inv t := by
  induction as generalizing s with
  | nil =>
    rw [run_nil] at hrun
    exact Option.some.inj hrun ▸ hinit
  | cons a as ih =>
    obtain ⟨s', hs', hrun'⟩ := run_cons hrun
    exact ih (hstep s a s' hinit hs') hrun'

end Streamweld.Lib
