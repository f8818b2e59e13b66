import Streamweld.Redis.Receipts

/-!
# The methods of the Redis journal

`Redis.Open`, `Append`, `Close`, `MarkDegraded`, `Read` and `State` with the replay
functions of `redis_replay.go`, for calls whose Redis commands are all answered.
A method takes the database to a database and a reply; its timestamp, its nonce
and the server's clock are arguments.

`boundedRedisSnapshot` reads the metadata with the first and the last event in
one transaction, and `replayRedisRange` then pages through the events.  The loop
of the latter runs on fuel; `replayRedisRange` gives it one unit for every
sequence of the interval, and a page that is not empty uses at least one.
-/

namespace Streamweld.Redis

open Streamweld.Journal

/-! ## Decoding -/

/-- `decodeRedisEntry`. -/
def decodeRedisEntry (message : XMessage) : Except JournalError Entry :=
  if message.seq = 0 then
    .error { sentinel := .redisError, detail := "decode Redis entry sequence" }
  else
    match validatePayload message.payload with
    | .error err =>
      .error (err.wrap ("decode Redis entry " ++ toString message.seq))
    | .ok () =>
      .ok { seq := message.seq, ts := message.ts, kind := message.kind,
            payload := message.payload, err := none }

/-- The state that the hash describes before any event is replayed. -/
def headerState (id : StreamID) (hash : StateHash) : StreamState :=
  { streamID := id
    status := hash.status
    resumable := hash.resumable
    model := hash.model
    modelVersion := hash.modelVersion
    originBackend := hash.originBackend
    currentBackend := hash.originBackend
    createdAt := hash.createdAt
    updatedAt := hash.updatedAt
    earliestSeq := hash.earliestSeq
    lastSeq := hash.lastSeq
    usage := Usage.zero
    migrations := some []
    terminal := none }

/-- `decodeState` as the readers call it, without messages and without a replay: the
state and whether the stream is degraded. -/
def decodeState (id : StreamID) (fields : Option StateHash) (tombstoneExists eventsExist : Bool) :
    Except JournalError (StreamState × Bool) :=
  match fields with
  | none =>
    if tombstoneExists then .error { sentinel := .errExpired, detail := id }
    else .error { sentinel := .errNotFound, detail := id }
  | some hash =>
    if eventsExist = false then
      .error {
        sentinel := .errOffsetExpired
        detail := "stream " ++ id ++ " metadata exists but its events are unavailable" }
    else .ok (headerState id hash, hash.degraded)

/-- `applyRedisStateEntry`. -/
def applyRedisStateEntry (state : StreamState) (entry : Entry) : StreamState :=
  let state :=
    if entry.kind = .kindMigration then
      match decodeMigration entry.seq entry.payload with
      | some migration =>
        { state with
          migrations := some (state.migrations.getD [] ++ [migration])
          currentBackend := migration.toBackend }
      | none => state
    else state
  let state := match decodeUsage entry.payload with
    | some usage => { state with usage := usage }
    | none => state
  if entry.kind.terminal then
    { state with
      terminal := some {
        seq := entry.seq, ts := entry.ts, kind := entry.kind, payload := entry.payload } }
  else state

/-! ## Replay -/

/-- `XRANGE` from one identifier to another, at most `count` messages. -/
def xrange (events : List XMessage) (low high count : Nat) : List XMessage :=
  (events.filter fun message => low ≤ message.seq ∧ message.seq ≤ high).take count

def invalidBounds (state : StreamState) (detail : String) : Except JournalError Unit :=
  .error {
    sentinel := .errOffsetExpired, detail := "stream " ++ state.streamID ++ detail }

/-- The event decodes and has the sequence. -/
def decodesTo (message : XMessage) (seq : Nat) : Option Entry :=
  match decodeRedisEntry message with
  | .ok entry => if entry.seq = seq then some entry else none
  | .error _ => none

/-- `validateRedisRetainedBounds`. -/
def validateRedisRetainedBounds (state : StreamState) (degraded : Bool) (length : Nat)
    (first last : Option XMessage) : Except JournalError Unit :=
  if state.earliestSeq = 0 ∨ state.lastSeq < state.earliestSeq then
    invalidBounds state (s!" has invalid retained bounds {state.earliestSeq}.." ++
      toString state.lastSeq)
  else
    let expectedLength := state.lastSeq - state.earliestSeq + 1
    match first, last with
    | some first, some last =>
      if length ≠ expectedLength then
        invalidBounds state (s!" metadata covers {expectedLength} events but Redis retains " ++
          toString length)
      else
        match decodesTo first state.earliestSeq, decodesTo last state.lastSeq with
        | none, _ => invalidBounds state " has an invalid first retained event"
        | some _, none => invalidBounds state " has an invalid last retained event"
        | some firstEntry, some lastEntry =>
          if state.earliestSeq = 1 ∧ firstEntry.kind ≠ .kindOpen then
            invalidBounds state " sequence 1 is not the open event"
          else if state.status = .statusOpen ∧ lastEntry.kind.terminal = true then
            invalidBounds state " is open but its last event is terminal"
          else if state.status ≠ .statusOpen ∧ (lastEntry.kind.terminal = false ∨
              statusForTerminal lastEntry.kind ≠ state.status) then
            invalidBounds state " terminal metadata and event disagree"
          else if degraded = true ∧ state.status ≠ .statusOpen then
            invalidBounds state " is both degraded and terminal"
          else .ok ()
    | _, _ =>
      invalidBounds state (s!" metadata covers {expectedLength} events but Redis retains " ++
        toString length)

/-- `boundedRedisSnapshot`. -/
def boundedRedisSnapshot (keys : StreamKeys) (id : StreamID) :
    Except JournalError (StreamState × Bool) :=
  if validateStreamID id = false then
    .error { sentinel := .errInvalidStreamID, detail := id, context := "read stream: " }
  else
    match decodeState id keys.state keys.tombstone keys.events.isSome with
    | .error err => .error err
    | .ok (state, degraded) =>
      let events := keys.events.getD []
      match validateRedisRetainedBounds state degraded events.length events.head?
          events.getLast? with
      | .error err => .error err
      | .ok () => .ok (state, degraded)

def replayError (id : StreamID) (detail : String) : JournalError :=
  { sentinel := .errOffsetExpired, detail := "stream " ++ id ++ detail }

/-- What a replay yielded, the cursor it reached, and its error. -/
structure Replay where
  yielded : List Entry
  cursor : Nat
  err : Option JournalError
  deriving DecidableEq, Repr

/-- The inner loop of `replayRedisRange` over the messages of a page. -/
def replayPage (id : StreamID) (throughSeq : Nat) : List XMessage → Nat → Replay
  | [], cursor => ⟨[], cursor, none⟩
  | message :: rest, cursor =>
    match decodesTo message (cursor + 1) with
    | none =>
      ⟨[], cursor, some (replayError id (" expected sequence " ++ toString (cursor + 1)))⟩
    | some entry =>
      if entry.kind.terminal = true ∧ entry.seq ≠ throughSeq then
        ⟨[], cursor, some (replayError id
          (" became terminal before replay boundary " ++ toString throughSeq))⟩
      else
        let replay := replayPage id throughSeq rest entry.seq
        { replay with yielded := entry :: replay.yielded }

/-- The outer loop of `replayRedisRange`.  `none` means that the fuel ran out. -/
def replayLoop (events : List XMessage) (id : StreamID) (throughSeq pageEntries : Nat) :
    Nat → Nat → Option Replay
  | 0, cursor => if cursor < throughSeq then none else some ⟨[], cursor, none⟩
  | fuel + 1, cursor =>
    if cursor < throughSeq then
      let messages := xrange events (cursor + 1) throughSeq pageEntries
      if messages.isEmpty then
        some ⟨[], cursor, some (replayError id
          (" expected sequence " ++ toString (cursor + 1)))⟩
      else
        let page := replayPage id throughSeq messages cursor
        if page.err.isSome then some page
        else
          (replayLoop events id throughSeq pageEntries fuel page.cursor).map fun rest =>
            { rest with yielded := page.yielded ++ rest.yielded }
    else some ⟨[], cursor, none⟩

/-- `replayRedisRange` with a yield function that never stops. -/
def replayRedisRange (events : List XMessage) (id : StreamID)
    (fromSeq throughSeq pageEntries : Nat) : Option Replay :=
  replayLoop events id throughSeq pageEntries (throughSeq - fromSeq) fromSeq

def redisStateReplayPageEntries : Nat := 8

/-! ## Methods -/

/-- `mapError`. -/
def mapError (operation : String) (id : StreamID) : ScriptError → JournalError
  | .alreadyExists => { sentinel := .errAlreadyExists, detail := id }
  | .notFound => { sentinel := .errNotFound, detail := id }
  | .expired => { sentinel := .errExpired, detail := id }
  | .offsetExpired =>
    { sentinel := .errOffsetExpired, detail := "stream " ++ id ++ " lost journal continuity" }
  | .degraded =>
    { sentinel := .errDegraded, detail := "stream " ++ id ++ " lost journal continuity" }
  | .terminal =>
    { sentinel := .errTerminalState, detail := "stream " ++ id ++ " is terminal" }
  | .nonceConflict =>
    { sentinel := .errInvalidEntry, detail := "stream " ++ id ++ " operation nonce conflict" }
  | .reservationLost => { sentinel := .errIdempotencyReservationLost, detail := id }
  | .idempotencyCorrupt | .invalidStreamID =>
    { sentinel := .redisError, context := operation ++ " Redis stream " ++ id ++ ": " }

/-- What a method returns.  `stuck` stands for a replay that does not end. -/
inductive RedisReply where
  | done
  | seq (n : Nat)
  | entries (yielded : List Entry) (trailing : Option JournalError)
  | state (state : StreamState)
  | failed (err : JournalError)
  | stuck
  deriving DecidableEq, Repr

/-- The moment of a call: the client's timestamp, its nonce and the server's clock. -/
structure Moment where
  now : Int
  nonce : Nonce
  clock : Int
  deriving DecidableEq, Repr

/-- `durationMillis` of a duration in nanoseconds. -/
def durationMillis (duration : Int) : Int :=
  if duration.tdiv 1000000 = 0 then 1 else duration.tdiv 1000000

/-- The reply of a mutation. -/
def mutationReply (operation : String) (id : StreamID)
    (result : Database × Except ScriptError Nat) (ok : Nat → RedisReply) :
    Database × RedisReply :=
  match result with
  | (db, .ok n) => (db, ok n)
  | (db, .error err) => (db, .failed (mapError operation id err))

/-- The checks that `Append` and `Close` make before they run their script. -/
def checkEntry (operation : String) (id : StreamID) (entry : Entry) (kindOk : Bool)
    (kindError : String) : Except JournalError Unit :=
  if validateStreamID id = false then
    .error {
      sentinel := .errInvalidStreamID, detail := id, context := operation ++ " stream: " }
  else if kindOk = false then .error { sentinel := .errInvalidEntry, detail := kindError }
  else
    match entry.err with
    | some _ =>
      .error {
        sentinel := .errInvalidEntry
        detail := "persisted entries cannot carry delivery errors" }
    | none => validatePayload entry.payload

section Methods

variable (db : Database)

/-- `Redis.Open`; `ttl` is the configured retention, in nanoseconds. -/
def redisOpen (keyPrefix : String) (ttl : Int) (id : StreamID) (metadata : Meta)
    (moment : Moment) : Database × RedisReply :=
  let retentionTTL := if metadata.retentionTTL = 0 then ttl else metadata.retentionTTL
  if validateStreamID id = false then
    (db, .failed { sentinel := .errInvalidStreamID, detail := id, context := "open stream: " })
  else if retentionTTL < 0 ∨ retentionTTL > maxInt64 / 2 then
    (db, .failed {
      sentinel := .errInvalidEntry
      detail := "retention TTL must be positive and safely bounded" })
  else
    match metadata.owner.bind OwnerRecord.validate with
    | some problem =>
      (db, .failed { sentinel := .ownerError, detail := problem, context := "open stream owner: " })
    | none =>
      let args : OpenArgs :=
        { id := id
          metadata := metadata
          payload := openPayload id metadata
          now := moment.now
          ttlMs := durationMillis retentionTTL
          nonce := moment.nonce
          association := idempotencyAssociationKey keyPrefix id
          reservationKey := metadata.idempotency.map (idempotencyKey keyPrefix) }
      match redisOpenScript db args moment.clock with
      | (db, .ok ()) => (db, .done)
      | (db, .error err) => (db, .failed (mapError "open" id err))

/-- `Redis.Append`. -/
def redisAppend (id : StreamID) (entry : Entry) (moment : Moment) : Database × RedisReply :=
  match checkEntry "append" id entry entry.kind.appendable
      ("kind \"" ++ entry.kind.name ++ "\" cannot be appended") with
  | .error err => (db, .failed err)
  | .ok () =>
    mutationReply "append" id
      (mutateStream db id moment.nonce
        ((Invocation.append entry.kind entry.payload).script moment.nonce moment.now) moment.clock) .seq

/-- `Redis.Close`. -/
def redisClose (id : StreamID) (terminal : Entry) (moment : Moment) : Database × RedisReply :=
  match checkEntry "close" id terminal terminal.kind.terminal
      ("kind \"" ++ terminal.kind.name ++ "\" is not terminal") with
  | .error err => (db, .failed err)
  | .ok () =>
    mutationReply "close" id
      (mutateStream db id moment.nonce
        ((Invocation.close terminal.kind terminal.payload).script moment.nonce moment.now) moment.clock)
      fun _ => .done

/-- `Redis.MarkDegraded`. -/
def redisMarkDegraded (id : StreamID) (moment : Moment) : Database × RedisReply :=
  if validateStreamID id = false then
    (db, .failed {
      sentinel := .errInvalidStreamID, detail := id, context := "mark stream degraded: " })
  else
    mutationReply "mark degraded" id
      (mutateStream db id moment.nonce (Invocation.degrade.script moment.nonce moment.now) moment.clock)
      fun _ => .done

/-- `validateRedisCursor`. -/
def validateRedisCursor (state : StreamState) (fromSeq : Nat) : Except JournalError Unit :=
  if fromSeq > state.lastSeq then
    .error {
      sentinel := .errCursorAhead
      detail := s!"cursor {fromSeq} exceeds last sequence {state.lastSeq}" }
  else if state.earliestSeq > 1 ∧ fromSeq < state.earliestSeq - 1 then
    .error {
      sentinel := .errOffsetExpired
      detail := s!"cursor {fromSeq} precedes earliest sequence {state.earliestSeq}" }
  else .ok ()

/-- `Redis.Read`, with its iterator run to the end. -/
def redisRead (id : StreamID) (fromSeq : Nat) : RedisReply :=
  match boundedRedisSnapshot (db.streams id) id with
  | .error err => .failed err
  | .ok (state, degraded) =>
    if state.resumable = false then .failed { sentinel := .errNotResumable, detail := id }
    else
      match validateRedisCursor state fromSeq with
      | .error err => .failed err
      | .ok () =>
        if degraded = true ∧ fromSeq = state.lastSeq then
          .failed {
            sentinel := .errOffsetExpired
            detail := "stream " ++ id ++ " contains an unjournaled gap" }
        else
          match replayRedisRange ((db.streams id).events.getD []) id fromSeq state.lastSeq
              redisStateReplayPageEntries with
          | none => .stuck
          | some replay =>
            match replay.err with
            | some err => .entries replay.yielded (some err)
            | none =>
              .entries replay.yielded
                (if degraded then
                  some (replayError id " lost journal continuity")
                else none)

/-- `Redis.State`. -/
def redisState (id : StreamID) : RedisReply :=
  match boundedRedisSnapshot (db.streams id) id with
  | .error err => .failed err
  | .ok (state, _) =>
    match replayRedisRange ((db.streams id).events.getD []) id (state.earliestSeq - 1)
        state.lastSeq redisStateReplayPageEntries with
    | none => .stuck
    | some replay =>
      match replay.err with
      | some err => .failed err
      | none => .state (replay.yielded.foldl applyRedisStateEntry state)

end Methods

end Streamweld.Redis
