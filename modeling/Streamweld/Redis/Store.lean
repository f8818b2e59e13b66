import Mathlib
import Streamweld.Journal.Types

/-!
# The Redis keys and scripts of the journal

The keys that `internal/journal/redis.go` and its siblings keep in Redis, and
the Lua scripts that change them.  Redis runs a script atomically, so a script is
a function from a database to a database and a reply.

The three keys of a stream (`state`, `events`, `exists`) and its receipts are
typed; the hash fields are the fields of `StateHash`.  The events are a Redis
stream whose identifiers all have the form `n-0`, so a message is identified by
`n`.  The idempotency keys and the associations are plain string keys, under
their full names and with the texts that the scripts parse.

Any key may expire at any time, so the life time of a key is recorded only where
a result speaks about renewals: on the string keys.
-/

namespace Streamweld.Redis

open Streamweld.Journal

/-! ## Keys -/

/-- An operation nonce. -/
abbrev Nonce := String

/-- The `state` hash of a stream. -/
structure StateHash where
  model : String
  modelVersion : Option String
  originBackend : String
  createdAt : Int
  updatedAt : Int
  earliestSeq : Nat
  lastSeq : Nat
  status : StreamStatus
  resumable : Bool
  degraded : Bool
  ttlMs : Int
  openOpNonce : Nonce
  idempotencyKey : Option String
  deriving DecidableEq, Repr

/-- A message of the `events` stream; `seq` stands for the identifier `seq-0`. -/
structure XMessage where
  seq : Nat
  kind : EntryKind
  payload : RawMessage
  ts : Int
  deriving DecidableEq, Repr

/-- The operation that a receipt names before its colon. -/
inductive Mutation where
  | append
  | close
  | degrade
  deriving DecidableEq, Repr

/-- A receipt: the operation and the decimal result after the colon. -/
structure Receipt where
  operation : Mutation
  result : Nat
  deriving DecidableEq, Repr

/-- The keys of one stream. -/
structure StreamKeys where
  state : Option StateHash
  events : Option (List XMessage)
  tombstone : Bool
  receipts : Nonce → Option Receipt

def StreamKeys.empty : StreamKeys :=
  { state := none, events := none, tombstone := false, receipts := fun _ => none }

/-- A string key with its life time. -/
structure StringKey where
  value : String
  expiresAt : Int
  deriving DecidableEq, Repr

/-- The database. -/
structure Database where
  streams : StreamID → StreamKeys
  strings : String → Option StringKey

def Database.empty : Database :=
  { streams := fun _ => .empty, strings := fun _ => none }

/-- `redisNamespace`. -/
def redisNamespace (keyPrefix : String) : String :=
  keyPrefix ++ ":\x7b" ++ keyPrefix ++ "\x7d"

def idempotencyKey (keyPrefix : String) (digest : IdempotencyDigest) : String :=
  redisNamespace keyPrefix ++ ":idempotency:" ++ digest

def idempotencyAssociationKey (keyPrefix : String) (id : StreamID) : String :=
  redisNamespace keyPrefix ++ ":stream:" ++ id ++ ":idempotency"

/-! ## Commands -/

/-- The error replies of the scripts, and the rejection of a command. -/
inductive ScriptError where
  | alreadyExists
  | notFound
  | expired
  | offsetExpired
  | degraded
  | terminal
  | nonceConflict
  | reservationLost
  | idempotencyCorrupt
  | invalidStreamID
  deriving DecidableEq, Repr

/-- `tostring` of a Lua number as the decimal text of a stream identifier.  Lua
prints fourteen significant digits, so from `10^14` on the text has an exponent
and is no identifier. -/
def luaTostring (n : Nat) : Option Nat :=
  if n < 10 ^ 14 then some n else none

/-- `XADD` under an explicit identifier, which has to exceed the last one. -/
def xadd (events : List XMessage) (message : XMessage) : Except ScriptError (List XMessage) :=
  match events.getLast? with
  | some last =>
    if last.seq < message.seq then .ok (events ++ [message]) else .error .invalidStreamID
  | none => if 0 < message.seq then .ok (events ++ [message]) else .error .invalidStreamID

section Strings

variable (strings : String → Option StringKey)

/-- `GET`. -/
def getString (key : String) : Option String := (strings key).map (·.value)

/-- `SET key value PX ttl`. -/
def setString (key value : String) (expiresAt : Int) : String → Option StringKey :=
  Function.update strings key (some { value := value, expiresAt := expiresAt })

/-- `DEL`, and the expiry of a key. -/
def delString (key : String) : String → Option StringKey :=
  Function.update strings key none

/-- `PEXPIRE`, which does nothing on a missing key. -/
def pexpire (key : String) (expiresAt : Int) : String → Option StringKey :=
  match strings key with
  | some stored => Function.update strings key (some { stored with expiresAt := expiresAt })
  | none => strings

end Strings

/-! ## Mutations with a receipt -/

/-- A found receipt renews the keys of an open stream, which writes its tombstone
again. -/
def renewOpen (keys : StreamKeys) : StreamKeys :=
  match keys.state with
  | some state => if state.status = .statusOpen then { keys with tombstone := true } else keys
  | none => keys

section RenewOpen

variable (keys : StreamKeys)

@[simp] theorem renewOpen_state : (renewOpen keys).state = keys.state := by
  unfold renewOpen
  split
  · split <;> rfl
  · rfl

@[simp] theorem renewOpen_events : (renewOpen keys).events = keys.events := by
  unfold renewOpen
  split
  · split <;> rfl
  · rfl

@[simp] theorem renewOpen_receipts : (renewOpen keys).receipts = keys.receipts := by
  unfold renewOpen
  split
  · split <;> rfl
  · rfl

end RenewOpen

/-- The common frame of the three receipt scripts.  The receipt is consulted before
anything else; `body` is the part between the existence checks and the receipt. -/
def mutationScript (operation : Mutation) (nonce : Nonce)
    (body : StateHash → List XMessage →
      Except ScriptError (StateHash × List XMessage × Nat))
    (keys : StreamKeys) : StreamKeys × Except ScriptError Nat :=
  match keys.receipts nonce with
  | some receipt =>
    if receipt.operation ≠ operation then (keys, .error .nonceConflict)
    else
      (renewOpen keys, .ok receipt.result)
  | none =>
    match keys.state, keys.events with
    | none, _ => (keys, .error (if keys.tombstone then .expired else .notFound))
    | some _, none => (keys, .error .offsetExpired)
    | some state, some events =>
      match body state events with
      | .error err => (keys, .error err)
      | .ok (state, events, result) =>
        ({ state := some state
           events := some events
           tombstone := true
           receipts := Function.update keys.receipts nonce
             (some { operation := operation, result := result }) },
          .ok result)

/-- The commit of an entry, shared by the append and the close script. -/
def commitEntry (now : Int) (kind : EntryKind) (payload : RawMessage)
    (state : StateHash) (events : List XMessage) :
    Except ScriptError (StateHash × List XMessage × Nat) :=
  if state.degraded then .error .degraded
  else if state.status ≠ .statusOpen then .error .terminal
  else
    match luaTostring (state.lastSeq + 1) with
    | none => .error .invalidStreamID
    | some seq =>
      match xadd events { seq := seq, kind := kind, payload := payload, ts := now } with
      | .error err => .error err
      | .ok events => .ok ({ state with lastSeq := seq, updatedAt := now }, events, seq)

/-- `redisAppendReceiptScript`. -/
def redisAppendReceiptScript (nonce : Nonce) (now : Int) (kind : EntryKind)
    (payload : RawMessage) : StreamKeys → StreamKeys × Except ScriptError Nat :=
  mutationScript .append nonce (commitEntry now kind payload)

/-- `redisCloseReceiptScript`, with the status and the resumability that `Close`
passes for the terminal kind. -/
def redisCloseReceiptScript (nonce : Nonce) (now : Int) (kind : EntryKind)
    (payload : RawMessage) (status : StreamStatus) (resumable : Bool) :
    StreamKeys → StreamKeys × Except ScriptError Nat :=
  mutationScript .close nonce fun state events =>
    match commitEntry now kind payload state events with
    | .error err => .error err
    | .ok (state, events, seq) =>
      .ok ({ state with status := status, resumable := resumable }, events, seq)

/-- `redisDegradeReceiptScript`. -/
def redisDegradeReceiptScript (nonce : Nonce) (now : Int) :
    StreamKeys → StreamKeys × Except ScriptError Nat :=
  mutationScript .degrade nonce fun state events =>
    if state.status ≠ .statusOpen then .error .terminal
    else if state.degraded then .ok (state, events, 0)
    else .ok ({ state with degraded := true, updatedAt := now }, events, 1)

/-! ## Opening a stream -/

/-- The part of a text before its first bar, and the part after it. -/
def splitBar : List Char → Option (List Char × List Char)
  | [] => none
  | c :: rest =>
    if c = '|' then some ([], rest)
    else (splitBar rest).map fun (before, after) => (c :: before, after)

/-- The stream that a reservation names, and whether the reservation is pending.
A promoted value is `r|id`, a pending one `p|id|creator|association`, and an
older release wrote `id|creator`. -/
def parseReservation (value : String) : Option (String × Bool) :=
  (splitBar value.toList).map fun (tag, rest) =>
    if tag = ['p'] ∨ tag = ['r'] then
      let id := match splitBar rest with
        | some (id, _) => id
        | none => rest
      (String.ofList id, decide (tag = ['p']))
    else (String.ofList tag, true)

/-- The arguments of the open script. -/
structure OpenArgs where
  id : StreamID
  metadata : Meta
  payload : RawMessage
  now : Int
  ttlMs : Int
  nonce : Nonce
  association : String
  reservationKey : Option String
  deriving DecidableEq, Repr

/-- The idempotency key that the open script promotes, when the association of the
stream leads to a pending reservation of the stream. -/
def promotable (db : Database) (args : OpenArgs) : Option String :=
  match getString db.strings args.association with
  | none => none
  | some key =>
    match (getString db.strings key).bind parseReservation with
    | some (reserved, true) => if reserved = args.id then some key else none
    | _ => none

/-- The hash that the open script writes. -/
def newStateHash (args : OpenArgs) (idempotency : Option String) : StateHash :=
  { model := args.metadata.model
    modelVersion := args.metadata.modelVersion
    originBackend := args.metadata.backendID
    createdAt := args.now
    updatedAt := args.now
    earliestSeq := 1
    lastSeq := 1
    status := .statusOpen
    resumable := true
    degraded := false
    ttlMs := args.ttlMs
    openOpNonce := args.nonce
    idempotencyKey := idempotency }

/-- `redisOpenScript`.  `clock` is the server's clock. -/
def redisOpenScript (db : Database) (args : OpenArgs) (clock : Int) :
    Database × Except ScriptError Unit :=
  let keys := db.streams args.id
  match keys.state with
  | some state =>
    if state.openOpNonce = args.nonce then
      if keys.events.isNone then (db, .error .offsetExpired)
      else
        -- A repeated execution renews the keys of the stream it created.
        ({ streams := Function.update db.streams args.id { keys with tombstone := true }
           strings := match state.idempotencyKey with
             | some key => pexpire db.strings key (clock + state.ttlMs)
             | none => db.strings },
          .ok ())
    else (db, .error .alreadyExists)
  | none =>
    if keys.events.isSome ∨ keys.tombstone = true then (db, .error .alreadyExists)
    else
      let idempotency := promotable db args
      if args.reservationKey.isSome ∧ idempotency ≠ args.reservationKey then
        (db, .error .reservationLost)
      else
        let opened : StreamKeys :=
          { keys with
            state := some (newStateHash args idempotency)
            events := some
              [{ seq := 1, kind := .kindOpen, payload := args.payload, ts := args.now }]
            tombstone := true }
        let promoted := match idempotency with
          | some key => setString db.strings key ("r|" ++ args.id) (clock + args.ttlMs)
          | none => db.strings
        ({ streams := Function.update db.streams args.id opened
           strings := delString promoted args.association },
          .ok ())

/-- `redisTouchScript`. -/
def redisTouchScript (db : Database) (id : StreamID) (clock : Int) :
    Database × Except ScriptError Unit :=
  let keys := db.streams id
  match keys.state with
  | none => (db, .error (if keys.tombstone then .expired else .notFound))
  | some state =>
    if keys.events.isNone then (db, .error .offsetExpired)
    else if state.status ≠ .statusOpen then (db, .error .terminal)
    else
      ({ streams := Function.update db.streams id { keys with tombstone := true }
         strings := match state.idempotencyKey with
           | some key => pexpire db.strings key (clock + state.ttlMs)
           | none => db.strings },
        .ok ())

/-- Whether a mutation renews the idempotency key of its stream: it answered without
an error, and it either committed or found its receipt on an open stream. -/
def renewsIdempotency (keys : StreamKeys) (nonce : Nonce) (reply : Except ScriptError Nat) :
    Bool :=
  match reply, keys.state with
  | .ok _, some state =>
    (keys.receipts nonce).isNone || decide (state.status = .statusOpen)
  | _, _ => false

/-- A mutation of a stream in the database. -/
def mutateStream (db : Database) (id : StreamID) (nonce : Nonce)
    (script : StreamKeys → StreamKeys × Except ScriptError Nat) (clock : Int) :
    Database × Except ScriptError Nat :=
  let keys := db.streams id
  let (keys', reply) := script keys
  let strings := match keys.state.bind (·.idempotencyKey), keys.state with
    | some key, some state =>
      if renewsIdempotency keys nonce reply then
        pexpire db.strings key (clock + state.ttlMs)
      else db.strings
    | _, _ => db.strings
  ({ streams := Function.update db.streams id keys', strings := strings }, reply)

end Streamweld.Redis
