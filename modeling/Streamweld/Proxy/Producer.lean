import Streamweld.Proxy.Payloads
import Streamweld.Proxy.Seam
import Streamweld.Proxy.System

/-!
# The migration of a stream

`prepareMigration` of the producer (`internal/proxy/producer.go`): what it makes of a failed
attempt, up to the call or the attempt that comes next.  `ProducerPc` says where the producer
goes; what it computes from its local variables belongs to the step before.  The reading of
the upstream is in `Streamweld.Proxy.Buffering`, the locks are in `Streamweld.Proxy.System`.

What the rest of the process decides are arguments: the target that the registry offers, the
time that has passed, and whether the generated text stands inside a tool call or a JSON value.
-/

namespace Streamweld.Proxy

open Streamweld.Journal Streamweld.Lib Streamweld.Migrate

/-! ## Where the producer goes -/

/-- What is fixed for a stream. -/
structure Setup where
  requestKind : RequestKind
  requestBody : Json
  structured : Bool
  policy : Policy
  originModelVersion : String

/-- `attemptSpec` of a continuation.  The fields for telemetry are left out. -/
structure AttemptSpec where
  body : Json
  seamBase : Text
  migrationEntries : List ControlRecord
  estimateWarning : Bool
  rescuedTokens : Nat
  attempt : Nat

/-- A call of a function that takes `writeMu`. -/
inductive Request where
  | appendNonTerminal (entries : List ControlRecord)
  | finishDone (fallbackFinishReason : String)
  | finishError (code message reason : String)

/-- What comes after such a call. -/
inductive After where
  /-- `refuseMigrationUntil` -/
  | refusal (estimateWarning : Bool) (reason : String)
  /-- `runProducer` returns -/
  | leave

/-- What `prepareMigration` has read and computed. -/
structure Plan where
  reason : String
  failedLease : Option LeaseID
  failedBackend : String
  accumulated : Text
  usage : Usage
  migrationsUsed : Nat
  estimateWarning : Bool
  correctness : List CorrectnessFailure
  rewritten : Except ContinuationError Json

/-- Where the producer is. -/
inductive ProducerPc where
  /-- it asks for `writeMu` -/
  | call (request : Request) (after : After)
  /-- `finishCanceledProducer` -/
  | canceled
  /-- `acquireMigrationTarget` -/
  | acquiring (plan : Plan)
  /-- `reserveMigrationTarget`, and then the attempt -/
  | reserving (failedLease : Option LeaseID) (target : LeaseID) (backend : String)
      (spec : AttemptSpec)
  /-- it releases a lease before a call -/
  | releasing (lease : Option LeaseID) (request : Request) (after : After)
  | returned

/-- Where the producer goes after a call. -/
def After.pc : After → ProducerPc
  | refusal _ reason =>
    .call (.finishError "migration_refused" "continuation is not safe" reason) .leave
  | leave => .returned

/-! ## Migrating -/

/-- The rewriting failed because a limit is exhausted. -/
def budgetExhausted (rewritten : Except ContinuationError Json) : Bool :=
  match rewritten with
  | .error err => decide (err.sentinel = .errTokenBudgetExhausted)
  | .ok _ => false

/-- `completedGenerationReason`. -/
def completedGenerationReason (finishReason : String) (usage : Usage)
    (correctness : List CorrectnessFailure) (rewritten : Except ContinuationError Json) :
    Option String :=
  if correctness ≠ [] ∨ (rewritten.isOk = false ∧ budgetExhausted rewritten = false) then none
  else if finishReason ≠ "" then some finishReason
  else if usage.estimated = false ∧ budgetExhausted rewritten = true then some "length"
  else none

/-- `refuseMigrationUntil`, as far as its first call. -/
def refuseMigration (estimateWarning : Bool) (predicates : List Predicate)
    (correctness : List CorrectnessFailure) : Request × After :=
  let (entries, reason) := buildRefusalEntries estimateWarning predicates correctness
  (.appendNonTerminal entries, .refusal estimateWarning reason)

def invalidPolicy : Request × After :=
  (.finishError "migration_refused" "migration policy could not be evaluated" "invalid_policy",
    .leave)

/-- The snapshot that a drain is checked with before there is a target. -/
def drainPreflight (setup : Setup) (plan : Plan) (elapsed : Int) : EligibilitySnapshot :=
  { migrationsUsed := plan.migrationsUsed
    accumulatedTokens := plan.usage.completionTokens
    elapsed := elapsed
    templateVerdict := .verdictSafe
    structuredResponse := setup.structured
    originModelVersion := "drain-preflight"
    targetModelVersion := "drain-preflight"
    targetBackendAvailable := true }

/-- `prepareMigration` from its snapshot to `acquireMigrationTarget`. -/
def preparePc (setup : Setup) (plan : Plan) (finishReason : String) (elapsed : Int) :
    ProducerPc :=
  match completedGenerationReason finishReason plan.usage plan.correctness plan.rewritten with
  | some reason => .call (.finishDone reason) .leave
  | none =>
    if budgetExhausted plan.rewritten then
      let (request, after) := refuseMigration plan.estimateWarning []
        (if plan.correctness = [] then [.failureTokenBudgetExhausted] else plan.correctness)
      .call request after
    else if plan.reason = "drain" then
      match evaluateEligibility setup.policy (drainPreflight setup plan elapsed) with
      | .error _ => .call invalidPolicy.1 invalidPolicy.2
      | .ok preflight =>
        if preflight.eligible = false ∨ plan.correctness ≠ [] then
          let (request, after) :=
            refuseMigration plan.estimateWarning preflight.failures plan.correctness
          .call request after
        else .acquiring plan
    else .acquiring plan

/-- The fields of `backend.State` that the eligibility of a target depends on. -/
structure Backend where
  id : String
  modelVersion : String
  templateVerdict : Verdict
  deriving DecidableEq, Repr

def targetSnapshot (setup : Setup) (plan : Plan) (lease : Option LeaseID) (target : Backend)
    (elapsed : Int) : EligibilitySnapshot :=
  { migrationsUsed := plan.migrationsUsed
    accumulatedTokens := plan.usage.completionTokens
    elapsed := elapsed
    templateVerdict := target.templateVerdict
    structuredResponse := setup.structured
    originModelVersion := setup.originModelVersion
    targetModelVersion := target.modelVersion
    targetBackendAvailable := lease.isSome }

/-- The migration that a plan leads to. -/
def Plan.migration (plan : Plan) (target : Backend) : Migration :=
  { seq := 0
    fromBackend := plan.failedBackend
    toBackend := target.id
    reason := plan.reason
    rescuedTokens := plan.usage.completionTokens
    tokenCountEstimated := plan.usage.estimated
    attempt := plan.migrationsUsed + 2 }

/-- The attempt that a plan leads to. -/
def Plan.spec (plan : Plan) (target : Backend) (warnings : List WarningCode) (body : Json) :
    AttemptSpec :=
  { body := body
    seamBase := plan.accumulated
    migrationEntries := estimateWarnings plan.estimateWarning ++
      (warnings.map fun warning => warningRecord warning.code (warningMessage warning.code) none) ++
      [migrationRecord (plan.migration target)]
    estimateWarning := plan.estimateWarning
    rescuedTokens := plan.usage.completionTokens
    attempt := plan.migrationsUsed + 2 }

/-- `prepareMigration` after `acquireMigrationTarget`.  Without a lease `target` is made of
the failed backend. -/
def admitPc (setup : Setup) (plan : Plan) (lease : Option LeaseID) (target : Backend)
    (elapsed : Int) : ProducerPc :=
  let refuse (request : Request × After) : ProducerPc :=
    .releasing lease request.1 request.2
  match evaluateEligibility setup.policy (targetSnapshot setup plan lease target elapsed) with
  | .error _ => refuse invalidPolicy
  | .ok eligibility =>
    if eligibility.eligible = false ∨ plan.correctness ≠ [] then
      refuse (refuseMigration plan.estimateWarning eligibility.failures plan.correctness)
    else
      match plan.rewritten, lease with
      | .ok body, some lease =>
        .reserving plan.failedLease lease target.id (plan.spec target eligibility.warnings body)
      | _, _ =>
        refuse (refuseMigration plan.estimateWarning [] [.failureUnsupportedContinuationShape])

end Streamweld.Proxy
