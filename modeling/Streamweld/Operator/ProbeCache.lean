import Streamweld.Lib.Transition
import Streamweld.Migrate.Eligibility

/-!
# The cache of conformance verdicts

The status of an `InferenceRoute` doubles as a cache of the verdicts that the
conformance checker gave (`controllers/inference_route_controller.go` and
`internal/apis/v1alpha1/probe_cache.go`).  Every pass of `Reconcile` writes the
entries of the status anew, from the earlier entries and from the Pods it finds, and
stamps them with the generation of the route.

* `findCachedBackendProbe` and `evaluateBackend`, as the source has them.
* `Controller.step`: a pass, or an edit of the route between two passes.  The calls of
  `Checker.Check` are recorded with their answers.
* `cached_verdict_has_provenance`: where an entry is kept without a probe only under
  the key that it was probed under, every cached verdict and every registered one is
  the answer of a check for its key.  `verdict_without_provenance` has the two runs
  in which an entry drifts.
-/

namespace Streamweld.Operator

open Streamweld.Lib Streamweld.Migrate

variable {imageDigest tokenizerHash : String} {route : InferenceRoute}
  {candidate : ResolvedBackend}

/-! ## The status of a route -/

/-- `BackendStatus` without its message.  A time is in nanoseconds; the zero time is
`0`. -/
structure BackendStatus where
  id : String
  address : String
  ready : Bool
  draining : Bool
  templateVerdict : Verdict
  lastProbedAt : Option Int
  imageDigest : String
  tokenizerHash : String
  deriving DecidableEq, Repr

/-- The fields of `InferenceRoute` that the cache uses. -/
structure InferenceRoute where
  model : String
  generation : Nat
  observedGeneration : Nat
  backends : List BackendStatus
  deriving DecidableEq, Repr

/-- The entry has a verdict that may be reused. -/
def BackendStatus.probed (status : BackendStatus) : Bool :=
  match status.lastProbedAt with
  | none => false
  | some probedAt =>
    decide (probedAt ≠ 0) && decide (status.templateVerdict ≠ .verdictUnknown) &&
      status.templateVerdict.valid

/-- The entry is newer, or as new and of a smaller identifier. -/
def BackendStatus.newer (status newest : BackendStatus) : Bool :=
  match status.lastProbedAt, newest.lastProbedAt with
  | some probedAt, some newestAt =>
    decide (newestAt < probedAt) || (decide (probedAt = newestAt) && decide (status.id < newest.id))
  | _, _ => false

/-- The loop of `FindCachedBackendProbe`. -/
def newestProbe (imageDigest tokenizerHash : String) (backends : List BackendStatus) :
    Option BackendStatus :=
  backends.foldl (fun newest backend =>
    if backend.imageDigest ≠ imageDigest ∨ backend.tokenizerHash ≠ tokenizerHash ∨
        backend.probed = false then newest
    else if newest.all backend.newer then some backend else newest) none

/-- `FindCachedBackendProbe`. -/
def InferenceRoute.findCachedBackendProbe (route : InferenceRoute)
    (model imageDigest tokenizerHash : String) : Option BackendStatus :=
  if model = "" ∨ imageDigest = "" ∨ tokenizerHash = "" ∨ model ≠ route.model ∨
      route.observedGeneration ≠ route.generation then none
  else
    (newestProbe imageDigest tokenizerHash route.backends).map fun newest =>
      { newest with id := "", address := "", ready := false, draining := false }

def findBackendStatus (statuses : List BackendStatus) (id : String) : Option BackendStatus :=
  statuses.find? fun status => status.id = id

/-- A cached probe is one of the entries. -/
theorem newestProbe_mem {backends : List BackendStatus} {newest : BackendStatus}
    (h : newestProbe imageDigest tokenizerHash backends = some newest) :
    newest ∈ backends ∧ newest.imageDigest = imageDigest ∧
      newest.tokenizerHash = tokenizerHash ∧ newest.probed = true := by
  revert h
  refine List.foldlRecOn backends _
    (motive := fun found => found = some newest → newest ∈ backends ∧
      newest.imageDigest = imageDigest ∧ newest.tokenizerHash = tokenizerHash ∧
      newest.probed = true) (fun h => by cases h) ?_
  intro found ih backend hbackend
  split
  · exact ih
  · rename_i hmatch
    simp only [not_or, not_not, Bool.not_eq_false] at hmatch
    split
    · rintro ⟨⟩
      exact ⟨hbackend, hmatch.1, hmatch.2.1, hmatch.2.2⟩
    · exact ih

/-- What a hit of the cache says. -/
theorem findCachedBackendProbe_some {model : String} {cached : BackendStatus}
    (h : route.findCachedBackendProbe model imageDigest tokenizerHash = some cached) :
    model = route.model ∧ route.observedGeneration = route.generation ∧
      ∃ entry ∈ route.backends, entry.imageDigest = imageDigest ∧
        entry.tokenizerHash = tokenizerHash ∧ entry.probed = true ∧
        cached.templateVerdict = entry.templateVerdict := by
  unfold InferenceRoute.findCachedBackendProbe at h
  split at h
  · cases h
  · rename_i hkey
    simp only [not_or, not_not] at hkey
    obtain ⟨newest, hnewest, rfl⟩ := Option.map_eq_some_iff.mp h
    obtain ⟨hmem, hdigest, htokenizer, hprobed⟩ := newestProbe_mem hnewest
    exact ⟨hkey.2.2.2.1, hkey.2.2.2.2, newest, hmem, hdigest, htokenizer, hprobed, rfl⟩

/-! ## A pass -/

/-- `resolvedBackend`: a selected Pod. -/
structure ResolvedBackend where
  id : String
  address : String
  imageDigest : String
  tokenizerHash : String
  ready : Bool
  draining : Bool
  deriving DecidableEq, Repr

/-- The part of a conformance report that the controller uses. -/
structure Report where
  verdict : Verdict
  checkedAt : Int
  deriving DecidableEq, Repr

/-- A call of `Checker.Check` that returned a verdict; or a verdict that a backend is
registered with. -/
structure ProbeRecord where
  model : String
  imageDigest : String
  tokenizerHash : String
  verdict : Verdict
  deriving DecidableEq, Repr

/-- `probeOutcome`, with the call of the checker. -/
structure ProbeOutcome where
  status : BackendStatus
  failed : Bool
  check : Option ProbeRecord
  deriving DecidableEq, Repr

/-- The status of a candidate before it is probed. -/
def initialStatus (route : InferenceRoute) (candidate : ResolvedBackend) : BackendStatus :=
  let status : BackendStatus :=
    { id := candidate.id, address := candidate.address, ready := false
      draining := candidate.draining, templateVerdict := .verdictUnknown, lastProbedAt := none
      imageDigest := candidate.imageDigest, tokenizerHash := candidate.tokenizerHash }
  match findBackendStatus route.backends candidate.id with
  | some prior =>
    { status with templateVerdict := prior.templateVerdict, lastProbedAt := prior.lastProbedAt }
  | none => status

/-- `evaluateBackend`.  `answer` is what the checker answers when it is asked; `none`
is an error. -/
def evaluateBackend (route : InferenceRoute) (now : Int) (candidate : ResolvedBackend)
    (answer : Option Report) : ProbeOutcome :=
  let status := initialStatus route candidate
  if candidate.ready = false ∨ candidate.draining = true then ⟨status, false, none⟩
  else
    match route.findCachedBackendProbe route.model candidate.imageDigest
        candidate.tokenizerHash with
    | some cached =>
      ⟨{ cached with
          id := candidate.id, address := candidate.address, ready := candidate.ready
          draining := candidate.draining, imageDigest := candidate.imageDigest
          tokenizerHash := candidate.tokenizerHash }, false, none⟩
    | none =>
      let check := answer.map fun report =>
        { model := route.model, imageDigest := candidate.imageDigest
          tokenizerHash := candidate.tokenizerHash, verdict := report.verdict }
      let failure : ProbeOutcome :=
        ⟨{ status with templateVerdict := .verdictUnknown, lastProbedAt := none }, true, check⟩
      match answer with
      | none => failure
      | some report =>
        if report.verdict = .verdictUnknown ∨ report.verdict.valid = false then failure
        else
          ⟨{ status with
              ready := true
              templateVerdict := report.verdict
              lastProbedAt := some (if report.checkedAt = 0 then now else report.checkedAt) },
            false, check⟩

/-- What a pass of `Reconcile` meets. -/
structure Pass where
  now : Int
  /-- the route and its policy are valid -/
  policyReady : Bool
  /-- the selected Pods, each with the answer of the checker; `none` when they could not
  be resolved -/
  candidates : Option (List (ResolvedBackend × Option Report))
  /-- the status could be written -/
  stored : Bool
  deriving DecidableEq, Repr

/-- The candidates that the pass evaluates. -/
def Pass.evaluated (pass : Pass) : Option (List (ResolvedBackend × Option Report)) :=
  if pass.policyReady then pass.candidates else none

/-- The outcomes of `evaluate`. -/
def Pass.outcomes (pass : Pass) (route : InferenceRoute) : List (ResolvedBackend × ProbeOutcome) :=
  (pass.evaluated.getD []).map fun (candidate, answer) =>
    (candidate, evaluateBackend route pass.now candidate answer)

/-- The backends of the new status. -/
def Pass.backends (pass : Pass) (route : InferenceRoute) : List BackendStatus :=
  match pass.evaluated with
  | some _ => (pass.outcomes route).map fun outcome => outcome.2.status
  | none => route.backends.map fun status => { status with ready := false }

/-- The verdicts that the pass registers with the proxy. -/
def Pass.registrations (pass : Pass) (route : InferenceRoute) : List ProbeRecord :=
  (pass.outcomes route).filterMap fun (candidate, outcome) =>
    if outcome.failed = true ∨ outcome.status.ready = false ∨ outcome.status.draining = true then
      none
    else
      some
        { model := route.model, imageDigest := candidate.imageDigest
          tokenizerHash := candidate.tokenizerHash, verdict := outcome.status.templateVerdict }

/-! ## The system -/

/-- A route and what the controller has done with it.  `checks` are the answers of the
checker, `registered` the verdicts that backends were registered with, and
`recordedModel` is the model of the route when its status was last written. -/
structure Controller where
  route : InferenceRoute
  checks : List ProbeRecord
  registered : List ProbeRecord
  recordedModel : String
  deriving DecidableEq, Repr

/-- A new route. -/
def Controller.start (model : String) (generation : Nat) : Controller :=
  { route := { model := model, generation := generation, observedGeneration := 0, backends := [] }
    checks := []
    registered := []
    recordedModel := model }

inductive ControllerEvent where
  /-- the specification of the route is edited -/
  | edit (model : String) (generation : Nat)
  | reconcile (pass : Pass)
  deriving DecidableEq, Repr

/-- One step. -/
def Controller.step (s : Controller) : ControllerEvent → Option Controller
  | .edit model generation =>
    some { s with route := { s.route with model := model, generation := generation } }
  | .reconcile pass =>
    let checks := s.checks ++ (pass.outcomes s.route).filterMap fun outcome => outcome.2.check
    let registered := s.registered ++ pass.registrations s.route
    if pass.stored then
      some {
        route := { s.route with
          observedGeneration := s.route.generation
          backends := pass.backends s.route }
        checks := checks
        registered := registered
        recordedModel := s.route.model }
    else some { s with checks := checks, registered := registered }

/-- The entries that a pass keeps without a probe, each with the image digest and the
tokenizer hash that it is kept under. -/
def Pass.carried (pass : Pass) (route : InferenceRoute) :
    List (BackendStatus × String × String) :=
  match pass.evaluated with
  | none => route.backends.map fun status => (status, status.imageDigest, status.tokenizerHash)
  | some candidates =>
    candidates.filterMap fun (candidate, _) =>
      if candidate.ready = false ∨ candidate.draining = true then
        (findBackendStatus route.backends candidate.id).map fun prior =>
          (prior, candidate.imageDigest, candidate.tokenizerHash)
      else none

/-- The API server never lowers the generation of a route and raises it when the model
changes; and a pass keeps a verdict without a probe only when the model, the image
digest and the tokenizer hash are those of its entry. -/
def Undrifted (s : Controller) : ControllerEvent → Prop
  | .edit model generation =>
    s.route.generation ≤ generation ∧ (model ≠ s.route.model → s.route.generation < generation)
  | .reconcile pass =>
    ∀ kept ∈ pass.carried s.route, kept.1.probed = true →
      s.route.model = s.recordedModel ∧ kept.1.imageDigest = kept.2.1 ∧
        kept.1.tokenizerHash = kept.2.2

instance (s : Controller) (event : ControllerEvent) : Decidable (Undrifted s event) := by
  cases event <;> unfold Undrifted <;> infer_instance

/-! ## The invariant -/

/-- The key under which an entry was probed, with its verdict. -/
def BackendStatus.record (status : BackendStatus) (model : String) : ProbeRecord :=
  { model := model, imageDigest := status.imageDigest, tokenizerHash := status.tokenizerHash
    verdict := status.templateVerdict }

/-- The entries of a status are answers of the checker. -/
structure Controller.Inv (s : Controller) : Prop where
  known : ∀ entry ∈ s.route.backends, entry.probed = true →
    entry.record s.recordedModel ∈ s.checks
  current : s.route.observedGeneration = s.route.generation → s.recordedModel = s.route.model
  past : s.route.observedGeneration ≤ s.route.generation
  registered : ∀ record ∈ s.registered, record ∈ s.checks

/-- A hit of the cache is the answer of a check. -/
theorem Controller.Inv.cached {s : Controller} (h : s.Inv) {model : String}
    {cached : BackendStatus}
    (hcached : s.route.findCachedBackendProbe model imageDigest tokenizerHash = some cached) :
    ⟨model, imageDigest, tokenizerHash, cached.templateVerdict⟩ ∈ s.checks := by
  obtain ⟨rfl, hgeneration, entry, hentry, rfl, rfl, hprobed, hverdict⟩ :=
    findCachedBackendProbe_some hcached
  have hknown := h.known entry hentry hprobed
  rw [h.current hgeneration] at hknown
  rw [hverdict]
  exact hknown

/-- Where the verdict of a new status comes from: the entry before it, the cache, or the
checker. -/
theorem evaluateBackend_source (route : InferenceRoute) (now : Int) (candidate : ResolvedBackend)
    (answer : Option Report) :
    let outcome := evaluateBackend route now candidate answer
    outcome.status.imageDigest = candidate.imageDigest ∧
      outcome.status.tokenizerHash = candidate.tokenizerHash ∧
      ((candidate.ready = false ∨ candidate.draining = true) ∧
          outcome.status = initialStatus route candidate ∨
        (∃ cached, route.findCachedBackendProbe route.model candidate.imageDigest
            candidate.tokenizerHash = some cached ∧
          outcome.status.templateVerdict = cached.templateVerdict) ∨
        outcome.failed = true ∧ outcome.status.probed = false ∨
        outcome.check = some (outcome.status.record route.model)) := by
  have hdigest : (initialStatus route candidate).imageDigest = candidate.imageDigest := by
    unfold initialStatus
    split <;> rfl
  have htokenizer : (initialStatus route candidate).tokenizerHash = candidate.tokenizerHash := by
    unfold initialStatus
    split <;> rfl
  simp only [evaluateBackend]
  split
  · rename_i hserving
    exact ⟨hdigest, htokenizer, .inl ⟨hserving, rfl⟩⟩
  · split
    · rename_i cached hcached
      exact ⟨rfl, rfl, .inr (.inl ⟨cached, hcached, rfl⟩)⟩
    · split
      · exact ⟨hdigest, htokenizer, .inr (.inr (.inl ⟨rfl, rfl⟩))⟩
      · rename_i report
        split
        · exact ⟨hdigest, htokenizer, .inr (.inr (.inl ⟨rfl, rfl⟩))⟩
        · refine ⟨hdigest, htokenizer, .inr (.inr (.inr ?_))⟩
          simp [BackendStatus.record, hdigest, htokenizer]

/-- The probes of a status that keeps the verdict of an earlier entry. -/
theorem initialStatus_probed (h : (initialStatus route candidate).probed = true) :
    ∃ prior, findBackendStatus route.backends candidate.id = some prior ∧ prior.probed = true ∧
      (initialStatus route candidate).templateVerdict = prior.templateVerdict := by
  unfold initialStatus at h ⊢
  split at h
  · rename_i prior hprior
    refine ⟨prior, hprior, ?_, ?_⟩
    · simpa [BackendStatus.probed] using h
    · rfl
  · cases h

theorem mem_of_findBackendStatus {statuses : List BackendStatus} {id : String}
    {status : BackendStatus} (h : findBackendStatus statuses id = some status) :
    status ∈ statuses :=
  List.mem_of_find?_eq_some h

section Reconcile

variable {s : Controller} {pass : Pass}

/-- The check log after a pass. -/
def Controller.checksAfter (s : Controller) (pass : Pass) : List ProbeRecord :=
  s.checks ++ (pass.outcomes s.route).filterMap fun outcome => outcome.2.check

/-- A verdict of an evaluated candidate is the answer of a check, before the pass or in
it. -/
theorem Controller.Inv.evaluated (h : s.Inv) (hkept : Undrifted s (.reconcile pass))
    {outcome : ProbeOutcome} (houtcome : (candidate, outcome) ∈ pass.outcomes s.route)
    (hprobed : outcome.status.probed = true) :
    outcome.status.record s.route.model ∈ s.checksAfter pass := by
  obtain ⟨⟨candidate', answer⟩, hmem, hpair⟩ := List.mem_map.mp houtcome
  cases hpair
  obtain ⟨hdigest, htokenizer, hsource⟩ :=
    evaluateBackend_source s.route pass.now candidate answer
  rcases hsource with ⟨hserving, hstatus⟩ | ⟨cached, hcached, hverdict⟩ | ⟨-, hnone⟩ | hcheck
  · -- The entry of the Pod was kept: the pass keeps it under the key of that entry.
    rw [hstatus] at hprobed
    obtain ⟨prior, hprior, hpriorProbed, hverdict⟩ := initialStatus_probed hprobed
    cases hevaluated : pass.evaluated with
    | none =>
      rw [hevaluated] at hmem
      cases hmem
    | some candidates =>
      rw [hevaluated] at hmem
      have hcarried : (prior, candidate.imageDigest, candidate.tokenizerHash) ∈
          pass.carried s.route := by
        unfold Pass.carried
        rw [hevaluated]
        refine List.mem_filterMap.mpr ⟨(candidate, answer), hmem, ?_⟩
        simp only [if_pos hserving, hprior, Option.map_some]
      obtain ⟨hmodel, hpriorDigest, hpriorTokenizer⟩ := hkept _ hcarried hpriorProbed
      change prior.imageDigest = candidate.imageDigest at hpriorDigest
      change prior.tokenizerHash = candidate.tokenizerHash at hpriorTokenizer
      have hknown := h.known prior (mem_of_findBackendStatus hprior) hpriorProbed
      refine List.mem_append_left _ ?_
      have hrecord : (evaluateBackend s.route pass.now candidate answer).status.record
          s.route.model = prior.record s.recordedModel := by
        rw [BackendStatus.record, hdigest, htokenizer, hmodel, hstatus, hverdict,
          ← hpriorDigest, ← hpriorTokenizer]
        rfl
      rw [hrecord]
      exact hknown
  · refine List.mem_append_left _ ?_
    have hknown := h.cached hcached
    simp only [BackendStatus.record, hdigest, htokenizer, hverdict]
    exact hknown
  · rw [hnone] at hprobed
    cases hprobed
  · exact List.mem_append_right _ (List.mem_filterMap.mpr ⟨_, houtcome, hcheck⟩)

/-- A candidate is registered with a probed verdict. -/
theorem evaluateBackend_ready {now : Int} {answer : Option Report}
    (hready : (evaluateBackend route now candidate answer).status.ready = true)
    (hfailed : (evaluateBackend route now candidate answer).failed = false) :
    (∃ cached, route.findCachedBackendProbe route.model candidate.imageDigest
        candidate.tokenizerHash = some cached ∧
      (evaluateBackend route now candidate answer).status.templateVerdict =
        cached.templateVerdict) ∨
      (evaluateBackend route now candidate answer).check =
        some ((evaluateBackend route now candidate answer).status.record route.model) := by
  obtain ⟨-, -, hsource⟩ := evaluateBackend_source route now candidate answer
  rcases hsource with ⟨-, hstatus⟩ | hcached | ⟨htrue, -⟩ | hcheck
  · rw [hstatus] at hready
    unfold initialStatus at hready
    split at hready <;> cases hready
  · exact .inl hcached
  · rw [htrue] at hfailed
    cases hfailed
  · exact .inr hcheck

/-- What a pass registers are answers of the checker. -/
theorem Controller.Inv.registrations (h : s.Inv) :
    ∀ record ∈ pass.registrations s.route, record ∈ s.checksAfter pass := by
  intro record hrecord
  obtain ⟨⟨candidate, outcome⟩, houtcome, hsome⟩ := List.mem_filterMap.mp hrecord
  simp only at hsome
  split at hsome
  · cases hsome
  · rename_i hserving
    cases hsome
    simp only [not_or, Bool.not_eq_true, Bool.not_eq_false] at hserving
    obtain ⟨⟨candidate', answer⟩, -, hpair⟩ := List.mem_map.mp houtcome
    cases hpair
    obtain ⟨hdigest, htokenizer, -⟩ := evaluateBackend_source s.route pass.now candidate answer
    rcases evaluateBackend_ready hserving.2.1 hserving.1 with ⟨cached, hcached, hverdict⟩ | hcheck
    · rw [hverdict]
      exact List.mem_append_left _ (h.cached hcached)
    · refine List.mem_append_right _ (List.mem_filterMap.mpr ⟨_, houtcome, ?_⟩)
      rw [hcheck, BackendStatus.record, hdigest, htokenizer]

/-- The entries that a pass writes. -/
theorem Controller.Inv.backends (h : s.Inv) (hkept : Undrifted s (.reconcile pass)) :
    ∀ entry ∈ pass.backends s.route, entry.probed = true →
      entry.record s.route.model ∈ s.checksAfter pass := by
  intro entry hentry hprobed
  cases hevaluated : pass.evaluated with
  | some candidates =>
    simp only [Pass.backends, hevaluated] at hentry
    obtain ⟨⟨candidate, outcome⟩, houtcome, rfl⟩ := List.mem_map.mp hentry
    exact h.evaluated hkept houtcome hprobed
  | none =>
    -- Nothing was evaluated: every entry stays as it was, but for its readiness.
    simp only [Pass.backends, hevaluated] at hentry
    obtain ⟨status, hstatus, rfl⟩ := List.mem_map.mp hentry
    have hcarried : (status, status.imageDigest, status.tokenizerHash) ∈ pass.carried s.route := by
      unfold Pass.carried
      rw [hevaluated]
      exact List.mem_map_of_mem hstatus
    obtain ⟨hmodel, -⟩ := hkept _ hcarried hprobed
    rw [hmodel]
    exact List.mem_append_left _ (h.known status hstatus hprobed)

end Reconcile

/-- Every step keeps the invariant. -/
theorem Controller.Inv.step {s s' : Controller} {event : ControllerEvent} (h : s.Inv)
    (hundrifted : Undrifted s event) (hstep : s.step event = some s') : s'.Inv := by
  cases event with
  | edit model generation =>
    cases hstep
    refine ⟨h.known, ?_, Nat.le_trans h.past hundrifted.1, h.registered⟩
    intro hgeneration
    have hpast := h.past
    have hsame : s.route.observedGeneration = s.route.generation := by
      have hgeneration : s.route.observedGeneration = generation := hgeneration
      have hle := hundrifted.1
      omega
    have hmodel : model = s.route.model := by
      by_contra hne
      have hlt := hundrifted.2 hne
      have hgeneration : s.route.observedGeneration = generation := hgeneration
      omega
    exact (h.current hsame).trans hmodel.symm
  | reconcile pass =>
    have hregistered : ∀ record ∈ s.registered ++ pass.registrations s.route,
        record ∈ s.checksAfter pass := by
      intro record hrecord
      rcases List.mem_append.mp hrecord with hold | hnew
      · exact List.mem_append_left _ (h.registered record hold)
      · exact h.registrations record hnew
    simp only [Controller.step] at hstep
    split at hstep
    · cases hstep
      exact ⟨h.backends hundrifted, fun _ => rfl, Nat.le_refl _, hregistered⟩
    · cases hstep
      exact ⟨fun entry hentry hprobed => List.mem_append_left _ (h.known entry hentry hprobed),
        h.current, h.past, hregistered⟩

theorem Controller.Inv.start (model : String) (generation : Nat) :
    (Controller.start model generation).Inv :=
  ⟨fun _ hmem => absurd hmem List.not_mem_nil, fun _ => rfl, Nat.zero_le _,
    fun _ hmem => absurd hmem List.not_mem_nil⟩

/-! ## The result -/

/-- In every run in which no entry drifts, a cached verdict is the answer of a check with
exactly that model, image digest and tokenizer hash, and so is every verdict that a
backend was registered with. -/
theorem cached_verdict_has_provenance (model : String) (generation : Nat)
    (events : List ControllerEvent) (s : Controller)
    (hrun : run Controller.step (Controller.start model generation) events = some s)
    (hundrifted : Along Controller.step Undrifted (Controller.start model generation) events) :
    (∀ model imageDigest tokenizerHash cached,
      s.route.findCachedBackendProbe model imageDigest tokenizerHash = some cached →
      ⟨model, imageDigest, tokenizerHash, cached.templateVerdict⟩ ∈ s.checks) ∧
    ∀ record ∈ s.registered, record ∈ s.checks := by
  have h : s.Inv := inv_of_run_along
    (fun _ _ _ hinv hgood hstep => hinv.step hgood hstep)
    (Controller.Inv.start model generation) hundrifted hrun
  exact ⟨fun _ _ _ _ hcached => h.cached hcached, h.registered⟩

/-! ## Runs -/

/-- A Pod of the examples. -/
def samplePod (imageDigest : String) (ready : Bool) : ResolvedBackend :=
  { id := "pod", address := "10.0.0.1:8000", imageDigest := imageDigest, tokenizerHash := "t"
    ready := ready, draining := false }

/-- A pass that finds one Pod, with a checker that finds it safe. -/
def samplePass (pod : ResolvedBackend) : ControllerEvent :=
  .reconcile {
    now := 5, policyReady := true, stored := true
    candidates := some [(pod, some ⟨.verdictSafe, 5⟩)] }

/-- A pass on a route whose policy is missing. -/
def passWithoutPolicy : ControllerEvent :=
  .reconcile { now := 6, policyReady := false, candidates := none, stored := true }

/-- The Pod is probed, not ready for a while, and ready again. -/
def sampleEvents : List ControllerEvent :=
  [samplePass (samplePod "d" true), samplePass (samplePod "d" false), passWithoutPolicy,
    samplePass (samplePod "d" true)]

theorem cached_verdict_has_provenance_of_probe :
    ∃ s, run Controller.step (Controller.start "m" 1) sampleEvents = some s ∧
      (s.route.findCachedBackendProbe "m" "d" "t").isSome = true ∧
      ∀ cached, s.route.findCachedBackendProbe "m" "d" "t" = some cached →
        ⟨"m", "d", "t", cached.templateVerdict⟩ ∈ s.checks := by
  refine ⟨_, rfl, by decide, fun cached hcached => ?_⟩
  exact (cached_verdict_has_provenance "m" 1 sampleEvents _ rfl (by decide)).1 _ _ _ cached
    hcached

/-- Two ways in which an entry drifts.  The image of a Pod that is not ready changes, and
the verdict for the old image is kept under the digest of the new one.  Or the model of
the route changes, and a pass without a policy stamps the verdict for the old model with
the new generation. -/
theorem verdict_without_provenance :
    (∃ s, run Controller.step (Controller.start "m" 1)
        [samplePass (samplePod "d" true), samplePass (samplePod "d'" false)] = some s ∧
      (s.route.findCachedBackendProbe "m" "d'" "t").map (·.templateVerdict) =
        some .verdictSafe ∧
      s.checks = [⟨"m", "d", "t", .verdictSafe⟩]) ∧
    ∃ s, run Controller.step (Controller.start "m" 1)
        [samplePass (samplePod "d" true), .edit "m'" 2, passWithoutPolicy] = some s ∧
      (s.route.findCachedBackendProbe "m'" "d" "t").map (·.templateVerdict) =
        some .verdictSafe ∧
      s.checks = [⟨"m", "d", "t", .verdictSafe⟩] :=
  ⟨⟨_, rfl, by decide, by decide⟩, _, rfl, by decide, by decide⟩

end Streamweld.Operator
