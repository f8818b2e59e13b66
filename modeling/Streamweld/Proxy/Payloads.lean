import Streamweld.Migrate.Continuation
import Streamweld.Proxy.Chunk
import Streamweld.Proxy.Runtime

/-!
# The entries that the proxy writes

The payloads of the terminal entries (`finishDoneUntil`, `finishErrorUntil` and `stop` in
`internal/proxy/durable.go`), of the warnings and of the migrations
(`internal/proxy/producer.go`).  The journal reads them back (`state_reads_back`).
-/

namespace Streamweld.Proxy

open Streamweld.Journal Streamweld.Lib Streamweld.Migrate

/-! ## Terminal entries -/

/-- `json.Marshal` of a `tokenUsage`. -/
def usageJson (usage : Usage) : Json :=
  .obj [
    ("prompt_tokens", .num (toString usage.promptTokens)),
    ("completion_tokens", .num (toString usage.completionTokens)),
    ("total_tokens", .num (toString usage.totalTokens)),
    ("estimated", .bool usage.estimated)]

/-- The entry of `finishDoneUntil`. -/
def doneRecord (finishReason : String) (usage : Usage) : FinalRecord :=
  { kind := .kindDone
    payload := .marshal (.obj [
      ("finish_reason", optionalString finishReason (finishReason ≠ "")),
      ("usage", usageJson usage)])
    terminal := rfl
    valid := rfl }

/-- The entry of `finishErrorUntil`, `finishErrorWhen` and a refusal. -/
def errorRecord (code message reason : String) (usage : Usage) : FinalRecord :=
  { kind := .kindError
    payload := .marshal (.obj [
      ("code", .str code),
      ("message", .str message),
      ("reason", .str reason),
      ("retriable", .bool false),
      ("usage", usageJson usage)])
    terminal := rfl
    valid := rfl }

/-- The entry of `stop`. -/
def stoppedRecord (partialText : Text) (usage : Usage) : FinalRecord :=
  { kind := .kindStopped
    payload := .marshal (.obj [
      ("partial_text", .str (String.ofList partialText)),
      ("usage", usageJson usage)])
    terminal := rfl
    valid := rfl }

/-! ## Warnings and migrations -/

theorem kindWarning_ne_kindChunk : EntryKind.kindWarning ≠ .kindChunk := by decide

theorem kindMigration_ne_kindChunk : EntryKind.kindMigration ≠ .kindChunk := by decide

/-- `warningEntry`. -/
def warningRecord (code message : String) (predicate : Option String) : ControlRecord :=
  { record :=
      { kind := .kindWarning
        payload := .marshal (.obj [
          ("code", .str code),
          ("message", .str message),
          ("predicate", (predicate.map Json.str).getD .null),
          ("details", .obj [])])
        appendable := rfl
        valid := rfl }
    control := kindWarning_ne_kindChunk }

def warningMessage (code : String) : String :=
  if code = "tool_call_boundary" then "migration would split a fragmented tool call"
  else if code = "structured_prefix_invalid" then
    "accumulated structured output is not a valid JSON prefix"
  else if code = "unsupported_continuation_shape" then
    "the request cannot be represented as one continuation"
  else if code = "token_budget_exhausted" then
    "the estimated completion-token count leaves no safe continuation budget"
  else if code = "template_degraded" then
    "the target chat template has degraded continuation conformance"
  else if code = "template_unsafe_permissive" then
    "an unsafe target chat template was admitted by permissive policy"
  else if code = "seam_anomaly" then
    "continuation may have restarted instead of continuing"
  else code

/-- The warning that the token count is an estimate, when it is due. -/
def estimateWarnings (estimateWarning : Bool) : List ControlRecord :=
  if estimateWarning then
    [warningRecord "token_count_estimated" "completion token count is a conservative estimate" none]
  else []

/-- The entries of a refusal, and its reason (`buildRefusalEntries`). -/
def buildRefusalEntries (estimateWarning : Bool) (predicates : List Predicate)
    (correctness : List CorrectnessFailure) : List ControlRecord × String :=
  (estimateWarnings estimateWarning ++
    (predicates.map fun predicate =>
      warningRecord "eligibility_failed" "migration eligibility predicate failed"
        (some predicate.code)) ++
    (correctness.map fun failure =>
      warningRecord failure.code (warningMessage failure.code) none),
  match correctness, predicates with
  | failure :: _, _ => failure.code
  | [], predicate :: _ => predicate.code
  | [], [] => "migration_ineligible")

/-- The entry of a migration.  Its sequence is given by the journal. -/
def migrationRecord (migration : Migration) : ControlRecord :=
  { record :=
      { kind := .kindMigration
        payload := .marshal (.obj [
          ("from_backend", .str migration.fromBackend),
          ("to_backend", .str migration.toBackend),
          ("reason", .str migration.reason),
          ("rescued_tokens", .num (toString migration.rescuedTokens)),
          ("token_count_estimated", .bool migration.tokenCountEstimated),
          ("attempt", .num (toString migration.attempt))])
        appendable := rfl
        valid := rfl }
    control := kindMigration_ne_kindChunk }

/-! ## What the journal reads back -/

/-- An entry that the proxy appends. -/
inductive Written where
  | chunk (event : Event)
  | warning (code message : String) (predicate : Option String)
  | migrated (migration : Migration)

def Written.record : Written → BodyRecord
  | chunk event => chunkRecord event
  | warning code message predicate => (warningRecord code message predicate).record
  | migrated migration => (migrationRecord migration).record

/-- The migrations among entries that begin at a sequence. -/
def migrationsFrom : Nat → List Written → List Migration
  | _, [] => []
  | seq, .migrated migration :: rest =>
    { migration with seq := seq } :: migrationsFrom (seq + 1) rest
  | seq, _ :: rest => migrationsFrom (seq + 1) rest

/-- The counts are `uint64`. -/
def Written.InRange : Written → Prop
  | migrated migration => migration.rescuedTokens < 2 ^ 64 ∧ migration.attempt < 2 ^ 64
  | _ => True

theorem parseUint_repr {n : Nat} (h : n < 2 ^ 64) : Json.parseUint n.repr = some n :=
  Json.parseUint_toString h

theorem decodeUsage_written (written : Written) : decodeUsage written.record.payload = none := by
  cases written <;>
    simp +decide [Written.record, chunkRecord, warningRecord, migrationRecord, decodeUsage,
      RawMessage.marshal, Json.decodeStruct, Json.Fields.select, usagePayloadFields]

theorem decodeMigration_migrationRecord {migration : Migration} (seq : Nat)
    (hrescued : migration.rescuedTokens < 2 ^ 64) (hattempt : migration.attempt < 2 ^ 64) :
    decodeMigration seq (migrationRecord migration).record.payload =
      some { migration with seq := seq } := by
  simp +decide [decodeMigration, migrationRecord, RawMessage.marshal, Json.decodeStruct,
    Json.Fields.select, migrationFields, Json.decodeString, Json.decodeUint, Json.decodeBool,
    parseUint_repr hrescued, parseUint_repr hattempt]

/-- What appended entries make of the derived state. -/
theorem foldl_apply_written {written : List Written} (h : ∀ w ∈ written, w.InRange) (d : Derived)
    (seq : Nat) :
    (numbered seq (written.map fun w => (w.record.kind, w.record.payload))).foldl
        Derived.apply d =
      { d with
        migrations := d.migrations ++ migrationsFrom seq written
        currentBackend := ((migrationsFrom seq written).getLast?.map (·.toBackend)).getD
          d.currentBackend } := by
  induction written generalizing d seq with
  | nil => simp [numbered, migrationsFrom]
  | cons w rest ih =>
    have hrest := ih fun w' hw' => h w' (List.mem_cons_of_mem _ hw')
    simp only [List.map_cons, numbered, List.foldl_cons, hrest, Derived.apply, decodeUsage_written]
    cases w with
    | chunk | warning => rfl
    | migrated migration =>
      obtain ⟨hrescued, hattempt⟩ := h _ List.mem_cons_self
      have hkind : (migrationRecord migration).record.kind = .kindMigration := rfl
      simp only [Written.record, hkind, if_true, migrationsFrom, List.getLast?_cons,
        List.append_assoc, decodeMigration_migrationRecord seq hrescued hattempt]
      cases (migrationsFrom (seq + 1) rest).getLast? <;> rfl

/-- A stream to which the proxy has appended entries. -/
def writtenLog (id : StreamID) (metadata : Meta) (written : List Written) : LogStream :=
  { LogStream.create id metadata with body := written.map Written.record }

/-- The state of a closed stream reads back what the proxy wrote: every migration under its
sequence, the backend of the last one, and the usage of the terminal entry. -/
theorem state_reads_back (id : StreamID) (metadata : Meta) (written : List Written)
    (hwritten : ∀ w ∈ written, w.InRange) (usage : Usage)
    (husage : usage.promptTokens < 2 ^ 64 ∧ usage.completionTokens < 2 ^ 64 ∧
      usage.totalTokens < 2 ^ 64)
    (record : FinalRecord) (finishReason code message reason : String) (partialText : Text)
    (hrecord : record = doneRecord finishReason usage ∨
      record = errorRecord code message reason usage ∨ record = stoppedRecord partialText usage) :
    ((writtenLog id metadata written).finish (.closed record)).derived =
      { migrations := migrationsFrom 2 written
        currentBackend :=
          ((migrationsFrom 2 written).getLast?.map (·.toBackend)).getD metadata.backendID
        usage := usage } := by
  have hopen : (Derived.start metadata.backendID).apply ⟨1, .kindOpen, openPayload id metadata⟩ =
      .start metadata.backendID := LogStream.derived_create id metadata
  have hlive := foldl_apply_written hwritten (.start metadata.backendID) 2
  have hdecode : decodeUsage record.payload = some usage := by
    rcases hrecord with rfl | rfl | rfl <;>
      simp +decide [doneRecord, errorRecord, stoppedRecord, usageJson, decodeUsage,
        RawMessage.marshal, Json.decodeStruct, Json.Fields.select, usagePayloadFields,
        usageFields, Json.decodePointer, Json.decodeUint, Json.decodeBool,
        parseUint_repr husage.1, parseUint_repr husage.2.1, parseUint_repr husage.2.2]
  have hkind : record.kind ≠ .kindMigration := fun hkind => by
    simpa [hkind, EntryKind.terminal] using record.terminal
  have hconcat := (writtenLog id metadata written).records_close rfl record
  rw [LogStream.derived_concat (by rfl) hconcat, Derived.apply, hdecode, if_neg hkind]
  simp only [LogStream.derived, LogStream.items, LogStream.records, LogStream.openRecords,
    writtenLog, LogStream.create, numbered, Ending.records, List.append_nil, List.map_map,
    List.foldl_cons, hopen]
  simp only [Function.comp_def, hlive]
  rfl

/-- A stream that was moved once. -/
theorem state_reads_back_one_migration :
    ((writtenLog sampleID sampleMeta [.migrated ⟨0, "b", "c", "drain", 1, false, 2⟩]).finish
      (.closed (doneRecord "stop" .zero))).derived.currentBackend = "c" := by
  rw [state_reads_back sampleID sampleMeta _ (by simp [Written.InRange]) .zero (by decide) _ "stop"
    "" "" "" [] (.inl rfl)]
  rfl

end Streamweld.Proxy
