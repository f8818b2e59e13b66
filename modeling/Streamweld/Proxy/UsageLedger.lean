import Streamweld.Proxy.Chunk

/-!
# The usage ledger of a stream

`streamProgress` (`internal/proxy/chunk.go`) over any sequence of `Apply` and `BeginAttempt`,
with the additions of `uint64`.

The exact ledger of `Streamweld.Proxy.Chunk` adds natural numbers.  As long as its sums fit
into 64 bits both ledgers are equal (`ledger_eq`), so the closed form is proved for the exact
one: within an attempt, the completion tokens are the highest of the frozen base and the
reports on top of it, and the bytes of the text that no report covers come on top
(`CurrentAttempt.inAttempt`).
-/

namespace Streamweld.Proxy

open Streamweld.Journal Streamweld.Lib Streamweld.Migrate

variable {observation : ChunkObservation} {steps : List LedgerStep}

/-! ## The ledger of the code -/

/-- Addition of `uint64`. -/
def add64 (a b : Nat) : Nat := (a + b) % 2 ^ 64

theorem add64_eq {a b : Nat} (h : a + b < 2 ^ 64) : add64 a b = a + b := Nat.mod_eq_of_lt h

namespace StreamProgress

variable (p : StreamProgress)

/-- `Apply`. -/
def apply64 (observation : ChunkObservation) : StreamProgress :=
  let p := { p with text := p.text ++ observation.textDelta }
  let p :=
    match observation.usage with
    | some usage =>
      let completion := add64 p.attemptCompletionBase usage.completionTokens
      let prompt := add64 p.attemptPromptBase usage.promptTokens
      let completionTokens :=
        if completion > p.usage.completionTokens then completion else p.usage.completionTokens
      let promptTokens := if prompt > p.usage.promptTokens then prompt else p.usage.promptTokens
      { p with
        usage :=
          { promptTokens := promptTokens
            completionTokens := completionTokens
            totalTokens := add64 promptTokens completionTokens
            estimated := p.attemptBaseEstimated || usage.estimated }
        exactUsage := true
        textBytesAtUsage := byteLength p.text }
    | none => p
  { p with toolCall := p.toolCall || observation.toolCall }

/-- `Snapshot`. -/
def snapshot64 : Text × Usage :=
  let extraBytes := byteLength p.text - p.textBytesAtUsage
  if p.exactUsage = false ∨ extraBytes ≠ 0 then
    let completion := add64 p.usage.completionTokens extraBytes
    (p.text,
      { p.usage with
        completionTokens := completion
        totalTokens := add64 p.usage.promptTokens completion
        estimated := true })
  else (p.text, p.usage)

/-- `BeginAttempt`. -/
def beginAttempt64 : StreamProgress :=
  let usage := p.snapshot64.2
  { p with
    usage := usage
    attemptCompletionBase := usage.completionTokens
    attemptPromptBase := usage.promptTokens
    attemptBaseEstimated := usage.estimated
    textBytesAtUsage := byteLength p.text
    exactUsage := !usage.estimated }

end StreamProgress

/-- A call that changes the ledger. -/
inductive LedgerStep where
  | apply (observation : ChunkObservation)
  | beginAttempt
  deriving DecidableEq, Repr

def LedgerStep.run64 (p : StreamProgress) : LedgerStep → StreamProgress
  | .apply observation => p.apply64 observation
  | .beginAttempt => p.beginAttempt64

def LedgerStep.run (p : StreamProgress) : LedgerStep → StreamProgress
  | .apply observation => p.apply observation
  | .beginAttempt => p.beginAttempt

/-- The ledger after a sequence of calls. -/
def ledger (steps : List LedgerStep) : StreamProgress := steps.foldl LedgerStep.run64 .zero

/-- The exact ledger after a sequence of calls. -/
def exactLedger (steps : List LedgerStep) : StreamProgress := steps.foldl LedgerStep.run .zero

/-- No sum of the ledger exceeds 64 bits after any of the calls. -/
def NoOverflow (steps : List LedgerStep) : Prop :=
  ∀ earlier, earlier <+: steps → (exactLedger earlier).snapshot.2.totalTokens < 2 ^ 64

/-! ## The exact ledger -/

attribute [ext] Usage

namespace StreamProgress

variable {p : StreamProgress}

/-- The bytes of the text that no report covers. -/
def extraBytes (p : StreamProgress) : Nat := byteLength p.text - p.textBytesAtUsage

/-- The ledger has taken its text into account up to some point, and the total that `Snapshot`
returns as it is is the sum. -/
structure Sound (p : StreamProgress) : Prop where
  covered : p.textBytesAtUsage ≤ byteLength p.text
  total : p.exactUsage = true → p.usage.totalTokens = p.usage.promptTokens + p.usage.completionTokens
  estimated : p.attemptBaseEstimated = true → p.exactUsage = false ∨ p.usage.estimated = true

theorem snapshot_prompt : p.snapshot.2.promptTokens = p.usage.promptTokens := by
  unfold snapshot
  dsimp only
  split <;> rfl

theorem snapshot_completion :
    p.snapshot.2.completionTokens = p.usage.completionTokens + p.extraBytes := by
  unfold snapshot extraBytes
  dsimp only
  split
  · rfl
  · rename_i h
    rw [not_not.mp (not_or.mp h).2, Nat.add_zero]

theorem snapshot_total (h : p.Sound) :
    p.snapshot.2.totalTokens = p.snapshot.2.promptTokens + p.snapshot.2.completionTokens := by
  unfold snapshot
  dsimp only
  split
  · rfl
  · rename_i hexact
    exact h.total (by simpa using (not_or.mp hexact).1)

theorem snapshot_estimated :
    p.snapshot.2.estimated = true ↔
      p.exactUsage = false ∨ p.extraBytes ≠ 0 ∨ p.usage.estimated = true := by
  unfold snapshot extraBytes
  dsimp only
  split
  · rename_i h
    exact iff_of_true rfl (h.imp_right .inl)
  · rename_i h
    obtain ⟨hexact, hextra⟩ := not_or.mp h
    exact ⟨fun hest => .inr (.inr hest), fun hest =>
      (hest.resolve_left hexact).resolve_left hextra⟩

theorem Sound.zero : StreamProgress.zero.Sound :=
  ⟨le_rfl, fun h => absurd h Bool.false_ne_true, fun h => absurd h Bool.false_ne_true⟩

/-- A chunk without usage only adds text. -/
theorem apply_of_none (h : observation.usage = none) :
    p.apply observation =
      { p with
        text := p.text ++ observation.textDelta
        toolCall := p.toolCall || observation.toolCall } := by
  unfold apply
  rw [h]

/-- A chunk with usage adds text and a report. -/
theorem apply_of_some {usage : Usage} (h : observation.usage = some usage) :
    p.apply observation =
      { ({ p with text := p.text ++ observation.textDelta } : StreamProgress).applyUsage usage with
        toolCall := p.toolCall || observation.toolCall } := by
  unfold apply
  rw [h]
  rfl

theorem apply_usage_of_some {usage : Usage} (h : observation.usage = some usage) :
    (p.apply observation).usage =
      { promptTokens := max p.usage.promptTokens (p.attemptPromptBase + usage.promptTokens)
        completionTokens :=
          max p.usage.completionTokens (p.attemptCompletionBase + usage.completionTokens)
        totalTokens := max p.usage.promptTokens (p.attemptPromptBase + usage.promptTokens) +
          max p.usage.completionTokens (p.attemptCompletionBase + usage.completionTokens)
        estimated := p.attemptBaseEstimated || usage.estimated } := by
  rw [apply_of_some h]
  rfl

theorem apply_extraBytes_of_some {usage : Usage} (h : observation.usage = some usage) :
    (p.apply observation).extraBytes = 0 := by
  rw [apply_of_some h]
  exact Nat.sub_self _

theorem Sound.apply (hp : p.Sound) (observation : ChunkObservation) :
    (p.apply observation).Sound := by
  cases husage : observation.usage with
  | none =>
    rw [apply_of_none husage]
    have hcovered := hp.covered
    exact ⟨by simp only [byteLength_append]; omega, hp.total, hp.estimated⟩
  | some usage =>
    rw [apply_of_some husage]
    refine ⟨le_rfl, fun _ => rfl, fun hbase => .inr ?_⟩
    show (p.attemptBaseEstimated || usage.estimated) = true
    rw [show p.attemptBaseEstimated = true from hbase, Bool.true_or]

theorem Sound.beginAttempt (hp : p.Sound) : p.beginAttempt.Sound := by
  refine ⟨le_rfl, fun _ => snapshot_total hp, fun hbase => .inl ?_⟩
  show (!p.snapshot.2.estimated) = false
  rw [show p.snapshot.2.estimated = true from hbase, Bool.not_true]

theorem Sound.step (hp : p.Sound) (step : LedgerStep) : (step.run p).Sound := by
  cases step with
  | apply observation => exact hp.apply observation
  | beginAttempt => exact hp.beginAttempt

/-- `BeginAttempt` does not change what `Snapshot` returns. -/
theorem beginAttempt_snapshot (hp : p.Sound) : p.beginAttempt.snapshot = p.snapshot := by
  have hextra : p.beginAttempt.extraBytes = 0 := Nat.sub_self _
  have hcompletion : p.beginAttempt.snapshot.2.completionTokens = p.snapshot.2.completionTokens := by
    rw [snapshot_completion, hextra]
    rfl
  have hprompt : p.beginAttempt.snapshot.2.promptTokens = p.snapshot.2.promptTokens := snapshot_prompt
  have htotal : p.beginAttempt.snapshot.2.totalTokens = p.snapshot.2.totalTokens := by
    rw [snapshot_total hp.beginAttempt, snapshot_total hp, hcompletion, hprompt]
  have hestimated : p.beginAttempt.snapshot.2.estimated = p.snapshot.2.estimated := by
    rw [Bool.eq_iff_iff, snapshot_estimated, hextra]
    show (!p.snapshot.2.estimated) = false ∨ 0 ≠ 0 ∨ p.snapshot.2.estimated = true ↔ _
    simp
  apply Prod.ext
  · rw [snapshot_fst, snapshot_fst, beginAttempt_text]
  · exact Usage.ext hprompt hcompletion htotal hestimated

/-! ## The additions of 64 bits -/

theorem snapshot64_eq (hp : p.Sound) (h : p.snapshot.2.totalTokens < 2 ^ 64) :
    p.snapshot64 = p.snapshot := by
  rw [snapshot_total hp, snapshot_prompt, snapshot_completion] at h
  unfold extraBytes at h
  have hcompletion := @add64_eq p.usage.completionTokens (byteLength p.text - p.textBytesAtUsage)
    (by omega)
  unfold snapshot64 snapshot
  dsimp only
  rw [hcompletion, add64_eq (by omega)]

theorem apply64_eq (hp : p.Sound) (h : (p.apply observation).snapshot.2.totalTokens < 2 ^ 64) :
    p.apply64 observation = p.apply observation := by
  rw [snapshot_total (hp.apply observation), snapshot_prompt, snapshot_completion] at h
  cases husage : observation.usage with
  | none =>
    unfold apply64 apply
    rw [husage]
  | some usage =>
    -- the reports are below the highest ones, which fit
    rw [apply_usage_of_some husage, apply_extraBytes_of_some husage, Nat.add_zero] at h
    dsimp only at h
    have hmax : ∀ a b : Nat, (if b > a then b else a) = max a b := fun a b => by
      split <;> omega
    unfold apply64 apply
    rw [husage]
    dsimp only
    rw [add64_eq (a := p.attemptCompletionBase) (by omega),
      add64_eq (a := p.attemptPromptBase) (by omega), hmax, hmax, add64_eq h]
    rfl

theorem run64_eq (hp : p.Sound) {step : LedgerStep}
    (hbefore : p.snapshot.2.totalTokens < 2 ^ 64)
    (h : (step.run p).snapshot.2.totalTokens < 2 ^ 64) : step.run64 p = step.run p := by
  cases step with
  | apply observation => exact apply64_eq hp h
  | beginAttempt =>
    show p.beginAttempt64 = p.beginAttempt
    unfold beginAttempt64 beginAttempt
    rw [snapshot64_eq hp hbefore]

end StreamProgress

/-! ## Runs -/

theorem exactLedger_append (steps more : List LedgerStep) :
    exactLedger (steps ++ more) = more.foldl LedgerStep.run (exactLedger steps) :=
  List.foldl_append

theorem exactLedger_sound (steps : List LedgerStep) : (exactLedger steps).Sound := by
  induction steps using List.reverseRecOn with
  | nil => exact .zero
  | append_singleton steps step ih =>
    rw [exactLedger_append]
    exact ih.step step

theorem NoOverflow.of_append {more : List LedgerStep} (h : NoOverflow (steps ++ more)) :
    NoOverflow steps :=
  fun earlier hearlier => h earlier (hearlier.trans (List.prefix_append _ _))

/-- Without overflow the ledger is the exact one. -/
theorem ledger_eq (h : NoOverflow steps) : ledger steps = exactLedger steps := by
  induction steps using List.reverseRecOn with
  | nil => rfl
  | append_singleton steps step ih =>
    have hsteps := h.of_append
    have hlast := h _ (List.prefix_refl _)
    rw [exactLedger_append] at hlast ⊢
    rw [ledger, List.foldl_append, ← ledger, ih hsteps]
    exact StreamProgress.run64_eq (exactLedger_sound steps) (hsteps _ (List.prefix_refl _)) hlast

theorem ledger_snapshot (h : NoOverflow steps) :
    (ledger steps).snapshot64 = (exactLedger steps).snapshot := by
  rw [ledger_eq h]
  exact StreamProgress.snapshot64_eq (exactLedger_sound steps) (h _ (List.prefix_refl _))

/-! ## Attempts -/

/-- The reports of some chunks. -/
def reports (chunks : List ChunkObservation) : List Usage := chunks.filterMap (·.usage)

/-- The largest of a base and the completion counts on top of it. -/
def highest (base : Nat) (usages : List Usage) : Nat :=
  usages.foldl (fun tokens usage => max tokens (base + usage.completionTokens)) base

/-- The bytes of the text after the last report. -/
def uncoveredBytes (chunks : List ChunkObservation) : Nat :=
  chunks.foldl (fun bytes chunk =>
    if chunk.usage.isSome then 0 else bytes + byteLength chunk.textDelta) 0

/-- The chunks since the last attempt began, with the completion tokens that were frozen
then. -/
inductive CurrentAttempt : List LedgerStep → Nat → List ChunkObservation → Prop
  | first (chunks : List ChunkObservation) : CurrentAttempt (chunks.map .apply) 0 chunks
  | later (earlier : List LedgerStep) (chunks : List ChunkObservation) :
    CurrentAttempt (earlier ++ .beginAttempt :: chunks.map .apply)
      (ledger earlier).snapshot64.2.completionTokens chunks

theorem exists_currentAttempt (steps : List LedgerStep) :
    ∃ base chunks, CurrentAttempt steps base chunks := by
  induction steps using List.reverseRecOn with
  | nil => exact ⟨0, [], .first []⟩
  | append_singleton steps step ih =>
    cases step with
    | beginAttempt => exact ⟨_, [], .later steps []⟩
    | apply observation =>
      obtain ⟨base, chunks, hattempt⟩ := ih
      cases hattempt with
      | first =>
        have hfirst := CurrentAttempt.first (chunks ++ [observation])
        rw [List.map_append] at hfirst
        exact ⟨0, _, hfirst⟩
      | later earlier =>
        have hlater := CurrentAttempt.later earlier (chunks ++ [observation])
        rw [List.map_append, ← List.cons_append, ← List.append_assoc] at hlater
        exact ⟨_, _, hlater⟩

/-- The ledger within an attempt. -/
structure StreamProgress.InAttempt (p : StreamProgress) (base : Nat)
    (chunks : List ChunkObservation) : Prop where
  sound : p.Sound
  frozen : p.attemptCompletionBase = base
  completion : p.usage.completionTokens = highest base (reports chunks)
  extra : p.extraBytes = uncoveredBytes chunks

/-- A chunk within an attempt. -/
theorem StreamProgress.InAttempt.apply {p : StreamProgress} {base : Nat}
    {chunks : List ChunkObservation} (hp : p.InAttempt base chunks)
    (observation : ChunkObservation) :
    (p.apply observation).InAttempt base (chunks ++ [observation]) := by
  have hcovered := hp.sound.covered
  have hextra := hp.extra
  unfold extraBytes at hextra
  cases husage : observation.usage with
  | none =>
    have hreports : reports (chunks ++ [observation]) = reports chunks := by
      simp [reports, husage]
    have huncovered : uncoveredBytes (chunks ++ [observation]) =
        uncoveredBytes chunks + byteLength observation.textDelta := by
      simp [uncoveredBytes, List.foldl_append, husage]
    refine ⟨hp.sound.apply observation, ?_, ?_, ?_⟩ <;> rw [apply_of_none husage]
    · exact hp.frozen
    · rw [hreports]
      exact hp.completion
    · show byteLength (p.text ++ observation.textDelta) - p.textBytesAtUsage = _
      rw [huncovered, byteLength_append]
      omega
  | some usage =>
    have hreports : reports (chunks ++ [observation]) = reports chunks ++ [usage] := by
      simp [reports, husage]
    have huncovered : uncoveredBytes (chunks ++ [observation]) = 0 := by
      simp [uncoveredBytes, List.foldl_append, husage]
    refine ⟨hp.sound.apply observation, ?_, ?_, ?_⟩
    · rw [apply_of_some husage]
      exact hp.frozen
    · rw [apply_usage_of_some husage, hreports, highest, List.foldl_append, ← highest,
        ← hp.completion, ← hp.frozen]
      rfl
    · rw [apply_extraBytes_of_some husage, huncovered]

theorem StreamProgress.InAttempt.run {p : StreamProgress} {base : Nat}
    (hp : p.InAttempt base []) (chunks : List ChunkObservation) :
    ((chunks.map LedgerStep.apply).foldl LedgerStep.run p).InAttempt base chunks := by
  induction chunks using List.reverseRecOn with
  | nil => exact hp
  | append_singleton chunks observation ih =>
    rw [List.map_append, List.foldl_append]
    exact ih.apply observation

/-- What the exact ledger has counted in the current attempt. -/
theorem CurrentAttempt.inAttempt {base : Nat} {chunks : List ChunkObservation}
    (hattempt : CurrentAttempt steps base chunks) (h : NoOverflow steps) :
    (exactLedger steps).InAttempt base chunks := by
  cases hattempt with
  | first => exact StreamProgress.InAttempt.run ⟨.zero, rfl, rfl, rfl⟩ chunks
  | later earlier =>
    rw [exactLedger_append, ledger_snapshot h.of_append]
    exact StreamProgress.InAttempt.run
      ⟨(exactLedger_sound earlier).beginAttempt, rfl, rfl, Nat.sub_self _⟩ chunks

/-! ## Along a run -/

/-- The prompt tokens do not decrease. -/
theorem StreamProgress.prompt_step (p : StreamProgress) (step : LedgerStep) :
    p.usage.promptTokens ≤ (step.run p).usage.promptTokens := by
  cases step with
  | apply observation =>
    show _ ≤ (p.apply observation).usage.promptTokens
    cases husage : observation.usage with
    | none => rw [apply_of_none husage]
    | some usage =>
      rw [apply_usage_of_some husage]
      exact Nat.le_max_left _ _
  | beginAttempt =>
    show _ ≤ p.snapshot.2.promptTokens
    rw [snapshot_prompt]

/-- An attempt that is frozen as estimated stays so. -/
theorem StreamProgress.baseEstimated_step {p : StreamProgress} (hp : p.Sound)
    (h : p.attemptBaseEstimated = true) (step : LedgerStep) :
    (step.run p).attemptBaseEstimated = true := by
  cases step with
  | apply observation =>
    show (p.apply observation).attemptBaseEstimated = true
    cases husage : observation.usage with
    | none => rw [apply_of_none husage, h]
    | some usage =>
      rw [apply_of_some husage]
      exact h
  | beginAttempt =>
    exact snapshot_estimated.mpr ((hp.estimated h).imp_right .inr)

theorem exactLedger_prompt_mono {more : List LedgerStep} :
    (exactLedger steps).usage.promptTokens ≤ (exactLedger (steps ++ more)).usage.promptTokens := by
  induction more using List.reverseRecOn with
  | nil => rw [List.append_nil]
  | append_singleton more step ih =>
    rw [← List.append_assoc, exactLedger_append (steps ++ more)]
    exact ih.trans (StreamProgress.prompt_step _ step)

theorem exactLedger_estimated {earlier : List LedgerStep}
    (h : (exactLedger earlier).snapshot.2.estimated = true) (later : List LedgerStep) :
    (exactLedger (earlier ++ .beginAttempt :: later)).attemptBaseEstimated = true := by
  induction later using List.reverseRecOn with
  | nil =>
    rw [exactLedger_append]
    exact h
  | append_singleton later step ih =>
    rw [← List.cons_append, ← List.append_assoc,
      exactLedger_append (earlier ++ .beginAttempt :: later)]
    exact StreamProgress.baseEstimated_step (exactLedger_sound _) ih step

/-- The usage ledger is conservative and sticky. -/
theorem ledger_conservative (steps : List LedgerStep) (h : NoOverflow steps) :
    (∃ base chunks, CurrentAttempt steps base chunks ∧
      (ledger steps).snapshot64.2.completionTokens =
        highest base (reports chunks) + uncoveredBytes chunks ∧
      (uncoveredBytes chunks ≠ 0 → (ledger steps).snapshot64.2.estimated = true)) ∧
    (∀ earlier later, steps = earlier ++ later →
      (ledger earlier).snapshot64.2.promptTokens ≤ (ledger steps).snapshot64.2.promptTokens) ∧
    (ledger steps).snapshot64.2.totalTokens =
      (ledger steps).snapshot64.2.promptTokens + (ledger steps).snapshot64.2.completionTokens ∧
    (∀ earlier later, steps = earlier ++ .beginAttempt :: later →
      (ledger earlier).snapshot64.2.estimated = true →
      (ledger steps).snapshot64.2.estimated = true) ∧
    (ledger (steps ++ [.beginAttempt])).snapshot64 = (ledger steps).snapshot64 := by
  have hsound := exactLedger_sound steps
  rw [ledger_snapshot h]
  refine ⟨?_, ?_, StreamProgress.snapshot_total hsound, ?_, ?_⟩
  · obtain ⟨base, chunks, hattempt⟩ := exists_currentAttempt steps
    have hin := hattempt.inAttempt h
    refine ⟨base, chunks, hattempt, ?_, fun huncovered => ?_⟩
    · rw [StreamProgress.snapshot_completion, hin.completion, hin.extra]
    · exact StreamProgress.snapshot_estimated.mpr (.inr (.inl (hin.extra ▸ huncovered)))
  · rintro earlier later rfl
    rw [ledger_snapshot h.of_append, StreamProgress.snapshot_prompt, StreamProgress.snapshot_prompt]
    exact exactLedger_prompt_mono
  · rintro earlier later rfl hestimated
    rw [ledger_snapshot h.of_append] at hestimated
    have hbase := exactLedger_estimated hestimated later
    exact StreamProgress.snapshot_estimated.mpr ((hsound.estimated hbase).imp_right .inr)
  · have hsame : (exactLedger (steps ++ [.beginAttempt])).snapshot = (exactLedger steps).snapshot := by
      rw [exactLedger_append]
      exact StreamProgress.beginAttempt_snapshot hsound
    have hnext : NoOverflow (steps ++ [.beginAttempt]) := by
      intro earlier hearlier
      rcases List.prefix_concat_iff.mp hearlier with rfl | hearlier
      · rw [hsame]
        exact h _ (List.prefix_refl _)
      · exact h _ hearlier
    rw [ledger_snapshot hnext, hsame]

/-- A text, a new attempt with a report, and a text that no report covers. -/
def twoAttempts : List LedgerStep :=
  [.apply ⟨['a', 'b'], none, "", none, false⟩, .beginAttempt,
    .apply ⟨['c'], some ⟨3, 4, 7, false⟩, "", none, false⟩,
    .apply ⟨['d'], none, "", none, false⟩]

theorem ledger_conservative_two_attempts :
    NoOverflow twoAttempts ∧ (ledger twoAttempts).snapshot64.2 = ⟨3, 7, 10, true⟩ ∧
      ∃ base chunks, CurrentAttempt twoAttempts base chunks ∧
        7 = highest base (reports chunks) + uncoveredBytes chunks := by
  have hfits : NoOverflow twoAttempts := by
    have hall : ∀ earlier ∈ twoAttempts.inits,
        (exactLedger earlier).snapshot.2.totalTokens < 2 ^ 64 := by decide +kernel
    exact fun earlier hearlier => hall earlier ((List.mem_inits _ _).mpr hearlier)
  have hvalue : (ledger twoAttempts).snapshot64.2 = ⟨3, 7, 10, true⟩ := by decide +kernel
  obtain ⟨⟨base, chunks, hattempt, hcompletion, _⟩, _⟩ := ledger_conservative twoAttempts hfits
  rw [hvalue] at hcompletion
  exact ⟨hfits, hvalue, base, chunks, hattempt, hcompletion⟩

end Streamweld.Proxy
