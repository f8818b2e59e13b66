import Streamweld.Lib.Json

/-!
# The journal's data model

The types of `internal/journal/types.go` and the pure functions that both
journal backends share: the entry kinds and their classes, the sentinel errors,
the persisted envelope, the stream metadata, and the state snapshot that is
rebuilt from the committed entries.

A `json.RawMessage` is its text together with the JSON value that the text
parses to; `none` is a text that is not valid JSON.  A Go slice that can be nil
is an `Option` of a list, because a nil slice and an empty one are different
values: `json.Marshal` prints the first as `null` and the second as `[]`.
-/

namespace Streamweld.Journal

open Streamweld.Lib

/-! ## Stream identifiers -/

/-- `StreamID`: a canonical lowercase ULID.  `Validate` says which strings are. -/
abbrev StreamID := String

/-- The protocol retention period for terminal journals, in nanoseconds. -/
def defaultTTL : Int := 10 * 60 * 1000000000

/-- The protocol memory-ring limit per stream. -/
def defaultMaxBytesPerStream : Int := 4 * 2 ^ 20

def maxInt64 : Int := 2 ^ 63 - 1

def maxUint64 : Nat := 2 ^ 64 - 1

/-- The canonical encoded ULID length. -/
def streamIDLength : Nat := 26

def crockfordLower : List Char := "0123456789abcdefghjkmnpqrstvwxyz".toList

/-- `StreamID.Validate`: 26 characters of the lowercase Crockford alphabet, the
first of which fits the 128 bits of a ULID. -/
def validateStreamID (id : StreamID) : Bool :=
  decide (id.toList.length = streamIDLength) &&
    id.toList.all (fun c => crockfordLower.contains c) &&
    (id.toList.head?.all fun c => decide (crockfordLower.idxOf c ≤ 7))

/-! ## Errors -/

/-- The sentinel errors of the package, and the two errors of a finished
context.  `errors.Is` compares these. -/
inductive Sentinel where
  | errAlreadyExists
  | errNotFound
  | errExpired
  | errOffsetExpired
  | errCursorAhead
  | errNotResumable
  | errTerminalState
  | errInvalidEntry
  | errCapacity
  | errReaderLagged
  | errDegraded
  | errInvalidConfig
  | errInvalidContext
  | errInvalidStreamID
  | errIdempotencyReservationLost
  | errInvalidIdempotencyTTL
  | contextCanceled
  | contextDeadlineExceeded
  /-- An error of the Redis client that no sentinel classifies. -/
  | redisError
  /-- An error of `OwnerRecord.Validate`, which no sentinel classifies either. -/
  | ownerError
  deriving DecidableEq, Repr

/-- A sentinel wrapped with the text that follows it and with the text that a
caller put before it. -/
structure JournalError where
  sentinel : Sentinel
  detail : String := ""
  context : String := ""
  deriving DecidableEq, Repr

/-- `fmt.Errorf("text: %w", err)`. -/
def JournalError.wrap (text : String) (err : JournalError) : JournalError :=
  { err with context := text ++ ": " ++ err.context }

/-- What a call's two `checkContext` calls return: the first one before any lock
is taken, the second one after it. -/
structure Context where
  entry : Option JournalError := none
  locked : Option JournalError := none
  deriving DecidableEq, Repr

/-! ## Entries -/

/-- `EntryKind`. -/
inductive EntryKind where
  | kindOpen
  | kindChunk
  | kindMigration
  | kindWarning
  | kindError
  | kindDone
  | kindStopped
  deriving DecidableEq, Repr

namespace EntryKind

/-- The persisted name of a kind. -/
def name : EntryKind → String
  | kindOpen => "open"
  | kindChunk => "chunk"
  | kindMigration => "migration"
  | kindWarning => "warning"
  | kindError => "error"
  | kindDone => "done"
  | kindStopped => "stopped"

def terminal (kind : EntryKind) : Bool :=
  kind = kindDone || kind = kindError || kind = kindStopped

def appendable (kind : EntryKind) : Bool :=
  kind = kindChunk || kind = kindMigration || kind = kindWarning

end EntryKind

/-- `StreamStatus`. -/
inductive StreamStatus where
  | statusOpen
  | statusDone
  | statusError
  | statusStopped
  deriving DecidableEq, Repr

/-- The exposed name of a status. -/
def StreamStatus.name : StreamStatus → String
  | statusOpen => "open"
  | statusDone => "done"
  | statusError => "error"
  | statusStopped => "stopped"

def statusForTerminal : EntryKind → StreamStatus
  | .kindDone => .statusDone
  | .kindError => .statusError
  | .kindStopped => .statusStopped
  | _ => .statusOpen

/-- The status of a terminal kind is not the open status. -/
theorem statusForTerminal_ne_open {kind : EntryKind} (h : kind.terminal = true) :
    statusForTerminal kind ≠ .statusOpen := by
  cases kind <;> simp_all [EntryKind.terminal, statusForTerminal]

/-- `json.RawMessage`. -/
structure RawMessage where
  text : String
  value : Option Json
  deriving DecidableEq, Repr

/-- The message that `json.Marshal` writes for a value. -/
def RawMessage.marshal (value : Json) : RawMessage :=
  ⟨value.render, some value⟩

/-- `validatePayload`: the text has to be a JSON object. -/
def validatePayload (payload : RawMessage) : Except JournalError Unit :=
  match payload.value with
  | some (.obj _) => .ok ()
  | _ => .error { sentinel := .errInvalidEntry, detail := "payload must be a valid JSON object" }

/-- `Entry`.  Times are nanoseconds of the journal's clock. -/
structure Entry where
  seq : Nat
  ts : Int
  kind : EntryKind
  payload : RawMessage
  err : Option JournalError
  deriving DecidableEq, Repr

/-! ## Stream metadata and state -/

/-- `IdempotencyDigest`: the SHA-256 digest of a client key, in hexadecimal. -/
abbrev IdempotencyDigest := String

/-- What `OwnerRecord.Validate` reads of a parsed URL; `user` says that it has
credentials. -/
structure RelayURL where
  scheme : String
  host : String
  hostname : String
  user : Bool
  rawQuery : String
  fragment : String
  path : String
  deriving DecidableEq, Repr

/-- `OwnerRecord`.  `parsed` is what `url.Parse` makes of the relay URL, and `none`
if it fails. -/
structure OwnerRecord where
  replicaID : String
  relayURL : String
  parsed : Option RelayURL
  deriving DecidableEq, Repr

/-- `replicaIDPattern`. -/
def validReplicaID (id : String) : Bool :=
  (id.toList.head?.any Char.isAlphanum) && id.toList.length ≤ 128 &&
    id.toList.all fun c => c.isAlphanum || c = '.' || c = '_' || c = '-'

/-- `OwnerRecord.Validate`: the text of the error, if there is one. -/
def OwnerRecord.validate (owner : OwnerRecord) : Option String :=
  if validReplicaID owner.replicaID = false then
    some "replica ID must be 1-128 letters, digits, dots, underscores, or hyphens"
  else
    match owner.parsed with
    | none => some "relay URL is malformed"
    | some url =>
      if url.scheme ≠ "http" ∧ url.scheme ≠ "https" then
        some ("relay URL scheme must be http or https, got \"" ++ url.scheme ++ "\"")
      else if url.host = "" ∨ url.hostname = "" then
        some "relay URL must be absolute and include a host"
      else if url.user = true ∨ url.rawQuery ≠ "" ∨ url.fragment ≠ "" then
        some "relay URL must not contain credentials, a query, or a fragment"
      else if url.path ≠ "" ∧ url.path ≠ "/" then some "relay URL must not contain a path"
      else if owner.relayURL.toList.any fun c => c = '\r' || c = '\n' || c.toNat = 0 then
        some "relay URL must not contain line breaks or NUL"
      else none

/-- `Meta`: what `Open` captures.  The endpoint and the request body are stored for
other packages and read by nothing here. -/
structure Meta where
  model : String
  modelVersion : Option String
  backendID : String
  retentionTTL : Int
  owner : Option OwnerRecord
  idempotency : Option IdempotencyDigest
  deriving DecidableEq, Repr

/-- `Usage`. -/
structure Usage where
  promptTokens : Nat
  completionTokens : Nat
  totalTokens : Nat
  estimated : Bool
  deriving DecidableEq, Repr

def Usage.zero : Usage := ⟨0, 0, 0, false⟩

/-- `Migration`. -/
structure Migration where
  seq : Nat
  fromBackend : String
  toBackend : String
  reason : String
  rescuedTokens : Nat
  tokenCountEstimated : Bool
  attempt : Nat
  deriving DecidableEq, Repr

/-- `TerminalState`. -/
structure TerminalState where
  seq : Nat
  ts : Int
  kind : EntryKind
  payload : RawMessage
  deriving DecidableEq, Repr

/-- `StreamState`.  `migrations` is `none` for a nil slice. -/
structure StreamState where
  streamID : StreamID
  status : StreamStatus
  resumable : Bool
  model : String
  modelVersion : Option String
  originBackend : String
  currentBackend : String
  createdAt : Int
  updatedAt : Int
  earliestSeq : Nat
  lastSeq : Nat
  usage : Usage
  migrations : Option (List Migration)
  terminal : Option TerminalState
  deriving DecidableEq, Repr

/-! ## Payloads -/

/-- The payload of an open entry. -/
def openPayload (id : StreamID) (metadata : Meta) : RawMessage :=
  .marshal (.obj [
    ("stream_id", .str id),
    ("model", .str metadata.model),
    ("model_version", (metadata.modelVersion.map Json.str).getD .null),
    ("backend_id", .str metadata.backendID)])

def usageFields : Json.Fields Usage := [
  ("prompt_tokens", Json.decodeUint fun n u => { u with promptTokens := n }),
  ("completion_tokens", Json.decodeUint fun n u => { u with completionTokens := n }),
  ("total_tokens", Json.decodeUint fun n u => { u with totalTokens := n }),
  ("estimated", Json.decodeBool fun b u => { u with estimated := b })]

/-- The fields of `usagePayload`, whose only field is the pointer itself. -/
def usagePayloadFields : Json.Fields (Option Usage) := [
  ("usage", Json.decodePointer usageFields Usage.zero id fun u _ => u)]

/-- The usage that a payload carries, when it decodes and carries one. -/
def decodeUsage (payload : RawMessage) : Option Usage :=
  payload.value.bind fun value =>
    (Json.decodeStruct usagePayloadFields value none).bind id

def migrationFields : Json.Fields Migration := [
  ("from_backend", Json.decodeString fun s p => { p with fromBackend := s }),
  ("to_backend", Json.decodeString fun s p => { p with toBackend := s }),
  ("reason", Json.decodeString fun s p => { p with reason := s }),
  ("rescued_tokens", Json.decodeUint fun n p => { p with rescuedTokens := n }),
  ("token_count_estimated", Json.decodeBool fun b p => { p with tokenCountEstimated := b }),
  ("attempt", Json.decodeUint fun n p => { p with attempt := n })]

/-- The migration that a migration entry records, when its payload decodes. -/
def decodeMigration (seq : Nat) (payload : RawMessage) : Option Migration :=
  payload.value.bind fun value =>
    Json.decodeStruct migrationFields value ⟨seq, "", "", "", 0, false, 0⟩

/-- The keys of the open payload select no field of `usagePayload`. -/
private theorem usagePayloadFields_select_open :
    usagePayloadFields.select "stream_id" = none ∧ usagePayloadFields.select "model" = none ∧
      usagePayloadFields.select "model_version" = none ∧
      usagePayloadFields.select "backend_id" = none := by
  have key : ∀ name : String, ("usage" == name) = false →
      (Json.foldName "usage" == Json.foldName name) = false →
      usagePayloadFields.select name = none := by
    intro name hExact hFold
    simp [Json.Fields.select, usagePayloadFields, hExact, hFold]
  exact ⟨key _ (by decide) (by decide), key _ (by decide) (by decide),
    key _ (by decide) (by decide), key _ (by decide) (by decide)⟩

/-- The open payload names no usage, so replaying it leaves the usage alone. -/
theorem decodeUsage_openPayload (id : StreamID) (metadata : Meta) :
    decodeUsage (openPayload id metadata) = none := by
  obtain ⟨hID, hModel, hVersion, hBackend⟩ := usagePayloadFields_select_open
  simp [decodeUsage, openPayload, RawMessage.marshal, Json.decodeStruct, hID, hModel,
    hVersion, hBackend]

/-! ## Sample values -/

/-- A warning entry with an empty payload object. -/
def warningEntry : Entry :=
  { seq := 0, ts := 0, kind := .kindWarning, payload := .marshal (.obj []), err := none }

/-- The identifier of a stream in the examples. -/
def sampleID : StreamID := "01arz3ndektsv4rrffq69g5fav"

/-- The metadata of a stream in the examples. -/
def sampleMeta : Meta :=
  { model := "m", modelVersion := none, backendID := "b", retentionTTL := 0, owner := none,
    idempotency := none }

end Streamweld.Journal
