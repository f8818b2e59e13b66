import Mathlib

/-!
# Eligibility of a migration

The policy side of a migration (`internal/migrate/policy.go`, `eligibility.go` and
`internal/conformance/verdict.go`): which streams may move to which backend.  All
predicates are evaluated, so that a refusal names every one that failed.
-/

namespace Streamweld.Migrate

/-! ## Verdicts and policies -/

/-- `conformance.Verdict`. -/
inductive Verdict where
  | verdictUnknown
  | verdictSafe
  | verdictDegraded
  | verdictUnsafe
  /-- any other text -/
  | undefined (text : String)
  deriving DecidableEq, Repr

def Verdict.valid : Verdict → Bool
  | .undefined _ => false
  | _ => true

/-- `conformance.TemplateMode`. -/
inductive TemplateMode where
  | templateStrict
  | templatePermissive
  /-- any other text -/
  | undefined (text : String)
  deriving DecidableEq, Repr

def TemplateMode.validate : TemplateMode → Bool
  | .undefined _ => false
  | _ => true

/-- `Policy`.  Durations are nanoseconds. -/
structure Policy where
  maxMigrations : Nat
  maxMigrationTokens : Nat
  maxStreamDuration : Int
  allowStructuredResume : Bool
  allowCrossVersion : Bool
  seamWindowBytes : Int
  templateMode : TemplateMode
  deriving DecidableEq, Repr

def Policy.validate (policy : Policy) : Bool :=
  decide (0 < policy.maxStreamDuration) && decide (0 < policy.seamWindowBytes) &&
    policy.templateMode.validate

/-! ## Predicates -/

/-- `Predicate`, in the order of the protocol. -/
inductive Predicate where
  | maxMigrations
  | maxMigrationTokens
  | maxStreamDuration
  | templateVerdict
  | structuredResume
  | modelVersion
  | backendAvailable
  deriving DecidableEq, Repr

def Predicate.code : Predicate → String
  | maxMigrations => "max_migrations"
  | maxMigrationTokens => "max_migration_tokens"
  | maxStreamDuration => "max_stream_duration"
  | templateVerdict => "template_verdict"
  | structuredResume => "allow_structured_resume"
  | modelVersion => "model_version"
  | backendAvailable => "backend_available"

/-- `WarningCode`. -/
inductive WarningCode where
  | templateDegraded
  | templateUnsafePermissive
  deriving DecidableEq, Repr

def WarningCode.code : WarningCode → String
  | templateDegraded => "template_degraded"
  | templateUnsafePermissive => "template_unsafe_permissive"

/-- `EligibilitySnapshot`. -/
structure EligibilitySnapshot where
  migrationsUsed : Nat
  accumulatedTokens : Nat
  elapsed : Int
  templateVerdict : Verdict
  structuredResponse : Bool
  originModelVersion : String
  targetModelVersion : String
  targetBackendAvailable : Bool
  deriving DecidableEq, Repr

/-- `EligibilityResult`. -/
structure EligibilityResult where
  failures : List Predicate
  warnings : List WarningCode
  deriving DecidableEq, Repr

def EligibilityResult.eligible (result : EligibilityResult) : Bool := result.failures.isEmpty

def evaluateTemplate (mode : TemplateMode) : Verdict → Bool × Option WarningCode
  | .verdictSafe => (true, none)
  | .verdictDegraded => (true, some .templateDegraded)
  | .verdictUnsafe =>
    if mode = .templatePermissive then (true, some .templateUnsafePermissive) else (false, none)
  | _ => (false, none)

/-- The error of `EvaluateEligibility`. -/
inductive EligibilityError where
  | invalidPolicy
  | invalidSnapshot
  deriving DecidableEq, Repr

/-- One predicate: it is listed when it fails. -/
def failing (predicate : Predicate) (failed : Bool) : List Predicate :=
  if failed then [predicate] else []

/-- `EvaluateEligibility`. -/
def evaluateEligibility (policy : Policy) (snapshot : EligibilitySnapshot) :
    Except EligibilityError EligibilityResult :=
  if policy.validate = false then .error .invalidPolicy
  else if snapshot.elapsed < 0 ∨ snapshot.templateVerdict.valid = false then .error .invalidSnapshot
  else
    let (templateAllowed, templateWarning) :=
      evaluateTemplate policy.templateMode snapshot.templateVerdict
    let versionsMatch :=
      snapshot.originModelVersion ≠ "" ∧ snapshot.targetModelVersion ≠ "" ∧
        snapshot.originModelVersion = snapshot.targetModelVersion
    .ok {
      failures :=
        failing .maxMigrations (snapshot.migrationsUsed ≥ policy.maxMigrations) ++
        failing .maxMigrationTokens (snapshot.accumulatedTokens ≥ policy.maxMigrationTokens) ++
        failing .maxStreamDuration (snapshot.elapsed ≥ policy.maxStreamDuration) ++
        failing .templateVerdict (!templateAllowed) ++
        failing .structuredResume (snapshot.structuredResponse && !policy.allowStructuredResume) ++
        failing .modelVersion (!decide versionsMatch && !policy.allowCrossVersion) ++
        failing .backendAvailable (!snapshot.targetBackendAvailable)
      warnings := templateWarning.toList }

end Streamweld.Migrate
