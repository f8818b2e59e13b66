import Mathlib
import Streamweld.Journal.Types

/-!
# The memory journal

`internal/journal/memory.go`: a bounded store of streams, each of which keeps a
ring of committed entries.  Every exported method takes `m.mu`, reads the clock
once and runs to its end, so a call is a function from a store to a store and a
reply; the clock reading and the outcomes of the context checks are arguments.

The maps of the source are association lists.  `terminalLRU` lists the streams
by their ids, most recently used first.  `stream.tails` holds the readers of the
stream that were not stopped: `Tail` adds a reader and `stopTailLocked` is the
only deletion.  It is therefore not stored; the readers live in one heap and
name their stream.  The channels of a reader and the goroutine that serves it
are in `Streamweld.Journal.MemoryTail`.

The size of an entry is the length of its JSON envelope.  It is a parameter
(`envelopeLen`), and `none` is a marshalling error.
-/

namespace Streamweld.Journal

/-! ## State -/

/-- `Config`, without the clock. -/
structure Config where
  ttl : Int
  maxBytesPerStream : Int
  maxTotalBytes : Int
  readerMaxLagBytes : Int
  deriving DecidableEq, Repr

structure StoredEntry where
  entry : Entry
  size : Nat
  deriving DecidableEq, Repr

/-- `memoryStream`.  `inLRU` says that `lruElement` is not nil. -/
structure MemoryStream where
  id : StreamID
  metadata : Meta
  retentionTTL : Int
  originBackend : String
  currentBackend : String
  entries : List StoredEntry
  bytes : Int
  earliestSeq : Nat
  lastSeq : Nat
  status : StreamStatus
  resumable : Bool
  createdAt : Int
  updatedAt : Int
  expiresAt : Int
  usage : Usage
  migrations : List Migration
  terminal : Option TerminalState
  degraded : Bool
  nextTailID : Nat
  inLRU : Bool
  deriving DecidableEq, Repr

/-- The part of `tailReader` that `m.mu` protects, and its wake-up channel. -/
structure TailReader where
  id : Nat
  stream : StreamID
  cursor : Nat
  liveAfter : Nat
  liveLag : Int
  inFlightSeq : Nat
  inFlightSize : Nat
  stopped : Bool
  stopErr : Option JournalError
  discard : Bool
  wake : Bool
  deriving DecidableEq, Repr

/-- `Memory`. -/
structure Memory where
  config : Config
  streams : AList fun _ : StreamID => MemoryStream
  tombstones : AList fun _ : StreamID => Int
  terminalLRU : List StreamID
  totalBytes : Int
  readers : List TailReader

/-- How a call fails: with an error, or by a panic of the runtime. -/
inductive Failure where
  | error (err : JournalError)
  | panic
  deriving DecidableEq, Repr

/-! ## Construction -/

def withDefaults (config : Config) : Config :=
  { config with
    ttl := if config.ttl = 0 then defaultTTL else config.ttl
    maxBytesPerStream :=
      if config.maxBytesPerStream = 0 then defaultMaxBytesPerStream
      else config.maxBytesPerStream }

/-- The problems that `validateConfig` joins. -/
def configProblems (config : Config) : List String :=
  (if config.ttl ≤ 0 then ["TTL must be positive"] else []) ++
  (if config.maxBytesPerStream ≤ 0 then ["maximum bytes per stream must be positive"]
    else []) ++
  (if config.maxTotalBytes ≤ 0 then ["maximum total bytes must be positive"] else []) ++
  (if config.readerMaxLagBytes ≤ 0 then ["reader maximum lag bytes must be positive"]
    else [])

def validateConfig (config : Config) : Except JournalError Unit :=
  match configProblems config with
  | [] => .ok ()
  | problems =>
    .error { sentinel := .errInvalidConfig, detail := "\n".intercalate problems }

/-- `NewMemory`. -/
def newMemory (config : Config) : Except JournalError Memory :=
  let config := withDefaults config
  match validateConfig config with
  | .error err => .error err
  | .ok () =>
    .ok {
      config := config
      streams := ∅
      tombstones := ∅
      terminalLRU := []
      totalBytes := 0
      readers := [] }

/-! ## Readers -/

/-- The fields that `stopTailLocked` sets before it closes `done`. -/
def TailReader.stop (reason : Option JournalError) (discard : Bool) (reader : TailReader) :
    TailReader :=
  if reader.stopped then reader
  else { reader with stopped := true, stopErr := reason, discard := discard }

/-- The reader is in the `tails` map of the stream. -/
def TailReader.attached (id : StreamID) (reader : TailReader) : Bool :=
  reader.stream == id && !reader.stopped

/-- A loop over `stream.tails` that treats every reader alike. -/
def Memory.forTails (m : Memory) (id : StreamID) (f : TailReader → TailReader) : Memory :=
  { m with
    readers := m.readers.map fun reader => if reader.attached id then f reader else reader }

/-- The error of a reader that is dropped for its lag. -/
def readerLagged : JournalError := { sentinel := .errReaderLagged }

/-- One turn of the loop of `publishLocked`. -/
def TailReader.publish (maxLag : Int) (size : Nat) (reader : TailReader) : TailReader :=
  let reader := { reader with liveLag := reader.liveLag + size }
  -- The entry that the goroutine already took is no longer in the backlog.
  if reader.liveLag - reader.inFlightSize > maxLag then
    reader.stop (some readerLagged) true
  else { reader with wake := true }

def publishLocked (m : Memory) (id : StreamID) (size : Nat) : Memory :=
  m.forTails id (TailReader.publish m.config.readerMaxLagBytes size)

/-- One turn of the loop of `dropReadersBehindRingLocked`. -/
def TailReader.dropBehind (minimumCursor : Nat) (reader : TailReader) : TailReader :=
  if max reader.cursor reader.inFlightSeq < minimumCursor then
    reader.stop (some readerLagged) true
  else reader

def dropReadersBehindRingLocked (m : Memory) (stream : MemoryStream) : Memory :=
  if stream.earliestSeq ≤ 1 then m
  else m.forTails stream.id (TailReader.dropBehind (stream.earliestSeq - 1))

/-! ## Removal and expiry -/

/-- The tombstone that `removeStreamLocked` leaves: none that is already over, and
never one that ends earlier than an existing one. -/
def bury (tombstones : AList fun _ : StreamID => Int) (id : StreamID)
    (now tombstoneUntil : Int) : AList fun _ : StreamID => Int :=
  if now < tombstoneUntil then
    match tombstones.lookup id with
    | some existing =>
      if existing < tombstoneUntil then tombstones.insert id tombstoneUntil else tombstones
    | none => tombstones.insert id tombstoneUntil
  else tombstones

/-- `removeStreamLocked`. -/
def removeStreamLocked (m : Memory) (stream : MemoryStream) (now tombstoneUntil : Int) :
    Memory :=
  let m := m.forTails stream.id (TailReader.stop (some { sentinel := .errExpired }) true)
  { m with
    streams := m.streams.erase stream.id
    totalBytes := m.totalBytes - stream.bytes
    terminalLRU :=
      if stream.inLRU then m.terminalLRU.erase stream.id else m.terminalLRU
    tombstones := bury m.tombstones stream.id now tombstoneUntil }

/-- The loop of `cleanupExpiredLocked` over the tombstones. -/
def expireTombstones (tombstones : AList fun _ : StreamID => Int) (now : Int) :
    AList fun _ : StreamID => Int :=
  tombstones.keys.foldl (fun rest id =>
    match tombstones.lookup id with
    | some expiresAt => if now < expiresAt then rest else rest.erase id
    | none => rest) tombstones

/-- Whether `cleanupExpiredLocked` leaves the stream alone. -/
def MemoryStream.kept (stream : MemoryStream) (now : Int) : Bool :=
  (decide (stream.status = .statusOpen) && !stream.degraded) ||
    decide (now < stream.expiresAt)

/-- One turn of the loop of `cleanupExpiredLocked` over the streams. -/
def expireStream (now : Int) (m : Memory) (id : StreamID) : Memory :=
  match m.streams.lookup id with
  | none => m
  | some stream =>
    if stream.kept now then m
    else removeStreamLocked m stream now (stream.expiresAt + stream.retentionTTL)

/-- `cleanupExpiredLocked`. -/
def cleanupExpiredLocked (m : Memory) (now : Int) : Memory :=
  let m := { m with tombstones := expireTombstones m.tombstones now }
  m.streams.keys.foldl (expireStream now) m

/-- The second half of `lookupLocked`, after the cleanup. -/
def findLocked (m : Memory) (id : StreamID) : Except JournalError MemoryStream :=
  match m.streams.lookup id with
  | some stream => .ok stream
  | none =>
    match m.tombstones.lookup id with
    | some _ => .error { sentinel := .errExpired, detail := id }
    | none => .error { sentinel := .errNotFound, detail := id }

/-- `touchTerminalLocked`. -/
def touchTerminalLocked (m : Memory) (stream : MemoryStream) : Memory :=
  if stream.inLRU then
    { m with terminalLRU := stream.id :: m.terminalLRU.erase stream.id }
  else m

/-! ## Committing an entry -/

/-- `prepareEntry`: the committed envelope and its encoded length. -/
def prepareEntry (envelopeLen : Entry → Option Nat) (input : Entry) (seq : Nat) (now : Int) :
    Except JournalError StoredEntry :=
  match input.err with
  | some _ =>
    .error {
      sentinel := .errInvalidEntry
      detail := "persisted entries cannot carry delivery errors" }
  | none =>
    match validatePayload input.payload with
    | .error err => .error err
    | .ok () =>
      let entry : Entry :=
        { seq := seq, ts := now, kind := input.kind, payload := input.payload, err := none }
      match envelopeLen entry with
      | none => .error { sentinel := .errInvalidEntry, detail := "marshal envelope" }
      | some size => .ok { entry := entry, size := size }

/-- The trim loop of `makeRoomLocked`: the number of entries to trim and their
bytes.  `none` is the panic of an index past the entry list. -/
def trimLoop (bytes limit : Int) : List StoredEntry → Nat → Int → Option (Nat × Int)
  | rest, trimCount, trimBytes =>
    if bytes - trimBytes > limit then
      match rest with
      | [] => none
      | stored :: rest => trimLoop bytes limit rest (trimCount + 1) (trimBytes + stored.size)
    else some (trimCount, trimBytes)

/-- The victim loop of `makeRoomLocked`, over the LRU list from its back: the
streams to evict and the bytes that they free. -/
def selectVictims (streams : AList fun _ : StreamID => MemoryStream)
    (self : Option StreamID) (needFree : Int) :
    List StreamID → Int → List MemoryStream × Int
  | [], freed => ([], freed)
  | id :: rest, freed =>
    if freed < needFree then
      if some id = self then selectVictims streams self needFree rest freed
      else
        match streams.lookup id with
        | none => selectVictims streams self needFree rest freed
        | some candidate =>
          let (victims, total) :=
            selectVictims streams self needFree rest (freed + candidate.bytes)
          (candidate :: victims, total)
    else ([], freed)

/-- The first loop of `makeRoomLocked`, skipped when no stream is given. -/
def trimFor (m : Memory) (stream : Option MemoryStream) (size : Nat) :
    Option (Nat × Int) :=
  match stream with
  | none => some (0, 0)
  | some stream =>
    trimLoop stream.bytes (m.config.maxBytesPerStream - size) stream.entries 0 0

/-- `needFree` of `makeRoomLocked`: what the store has to give up once the stream
is trimmed. -/
def bytesToFree (m : Memory) (trimBytes : Int) (size : Nat) : Int :=
  let baseBytes := m.totalBytes - trimBytes
  if size > m.config.maxTotalBytes - baseBytes then
    size - (m.config.maxTotalBytes - baseBytes)
  else 0

/-- The last loop of `makeRoomLocked`. -/
def evict (now : Int) (m : Memory) (victims : List MemoryStream) : Memory :=
  victims.foldl (fun m victim =>
    removeStreamLocked m victim now (now + victim.retentionTTL)) m

/-- `makeRoomLocked`: evicts terminal streams and says how many entries of the
growing stream have to be trimmed. -/
def makeRoomLocked (m : Memory) (stream : Option MemoryStream) (size : Nat) (now : Int) :
    Except Failure (Memory × Nat) :=
  if size > m.config.maxBytesPerStream then
    .error (.error {
      sentinel := .errCapacity
      detail := s!"entry needs {size} bytes; per-stream limit is " ++
        toString m.config.maxBytesPerStream })
  else
    match trimFor m stream size with
    | none => .error .panic
    | some (trimCount, trimBytes) =>
      let needFree := bytesToFree m trimBytes size
      let (victims, freed) :=
        selectVictims m.streams (stream.map (·.id)) needFree m.terminalLRU.reverse 0
      if freed < needFree then
        .error (.error {
          sentinel := .errCapacity
          detail := "need " ++ toString (needFree - freed) ++
            " additional bytes with only active streams remaining" })
      else .ok (evict now m victims, trimCount)

/-- The bytes of a list of stored entries. -/
def storedBytes (entries : List StoredEntry) : Int :=
  (entries.map fun stored => (stored.size : Int)).sum

/-- The stream after `trimStreamLocked` dropped its first `count` entries. -/
def trimStream (stream : MemoryStream) (count : Nat) : MemoryStream :=
  { stream with
    bytes := stream.bytes - storedBytes (stream.entries.take count)
    entries := stream.entries.drop count
    earliestSeq :=
      match stream.entries.drop count with
      | [] => stream.lastSeq + 1
      | stored :: _ => stored.entry.seq }

/-- `trimStreamLocked`. -/
def trimStreamLocked (m : Memory) (stream : MemoryStream) (count : Nat) :
    Memory × MemoryStream :=
  ({ m with totalBytes := m.totalBytes - storedBytes (stream.entries.take count) },
    trimStream stream count)

/-- `applyStateEntryLocked`. -/
def applyStateEntryLocked (stream : MemoryStream) (entry : Entry) : MemoryStream :=
  let stream :=
    if entry.kind = .kindMigration then
      match decodeMigration entry.seq entry.payload with
      | some migration =>
        { stream with
          migrations := stream.migrations ++ [migration]
          currentBackend := migration.toBackend }
      | none => stream
    else stream
  match decodeUsage entry.payload with
  | some usage => { stream with usage := usage }
  | none => stream

/-- The fields that `commitLocked` sets after the trim. -/
def pushEntry (stream : MemoryStream) (stored : StoredEntry) (now : Int) : MemoryStream :=
  { stream with
    entries := stream.entries ++ [stored]
    bytes := stream.bytes + stored.size
    lastSeq := stored.entry.seq
    earliestSeq := if stream.entries.length = 0 then stored.entry.seq else stream.earliestSeq
    updatedAt := now
    expiresAt := now + stream.retentionTTL }

/-- The part of `commitLocked` after the room was made.  The stream is returned
as it is afterwards. -/
def installEntry (m : Memory) (stream : MemoryStream) (trimCount : Nat)
    (stored : StoredEntry) (now : Int) : Memory × MemoryStream :=
  let (m, stream) :=
    if trimCount ≠ 0 then trimStreamLocked m stream trimCount else (m, stream)
  let stream := applyStateEntryLocked (pushEntry stream stored now) stored.entry
  let m :=
    { m with
      streams := m.streams.insert stream.id stream
      totalBytes := m.totalBytes + stored.size }
  (publishLocked (dropReadersBehindRingLocked m stream) stream.id stored.size, stream)

/-- `commitLocked`. -/
def commitLocked (m : Memory) (stream : MemoryStream) (stored : StoredEntry) (now : Int) :
    Except Failure (Memory × MemoryStream) :=
  match makeRoomLocked m (some stream) stored.size now with
  | .error .panic => .error .panic
  | .error (.error err) => .error (.error (err.wrap ("append to stream " ++ stream.id)))
  | .ok (m, trimCount) => .ok (installEntry m stream trimCount stored now)

/-! ## The exported methods -/

/-- What a call returns. -/
inductive Reply where
  | done
  | seq (n : Nat)
  | entries (snapshot : List Entry) (trailing : Option JournalError)
  | reader (ref : Nat)
  | state (state : StreamState)
  | failed (failure : Failure)
  deriving DecidableEq, Repr

/-- A call that fails with an error. -/
abbrev Reply.error (err : JournalError) : Reply := .failed (.error err)

def terminalError (stream : MemoryStream) : JournalError :=
  { sentinel := .errTerminalState
    detail := "stream " ++ stream.id ++ " ended as " ++ stream.status.name ++
      " at sequence " ++ toString stream.lastSeq }

def gapError (id : StreamID) : JournalError :=
  { sentinel := .errOffsetExpired
    detail := "stream " ++ id ++ " contains an unjournaled gap" }

def validateCursor (stream : MemoryStream) (fromSeq : Nat) : Except JournalError Unit :=
  if fromSeq > stream.lastSeq then
    .error {
      sentinel := .errCursorAhead
      detail := s!"cursor {fromSeq} exceeds last sequence {stream.lastSeq}" }
  else if stream.earliestSeq > 1 ∧ fromSeq < stream.earliestSeq - 1 then
    .error {
      sentinel := .errOffsetExpired
      detail := s!"cursor {fromSeq} precedes earliest sequence {stream.earliestSeq}" }
  else .ok ()

def entriesAfter (stream : MemoryStream) (fromSeq : Nat) : List Entry :=
  (stream.entries.map (·.entry)).filter fun entry => entry.seq > fromSeq

/-- `append([]T(nil), xs...)`: the copy of an empty slice is nil. -/
def appendToNil {α : Type} (xs : List α) : Option (List α) :=
  if xs.isEmpty then none else some xs

def snapshotState (stream : MemoryStream) : StreamState :=
  { streamID := stream.id
    status := stream.status
    resumable := stream.resumable
    model := stream.metadata.model
    modelVersion := stream.metadata.modelVersion
    originBackend := stream.originBackend
    currentBackend := stream.currentBackend
    createdAt := stream.createdAt
    updatedAt := stream.updatedAt
    earliestSeq := stream.earliestSeq
    lastSeq := stream.lastSeq
    usage := stream.usage
    migrations := appendToNil stream.migrations
    terminal := stream.terminal }

/-- The prologue that every method shares: both context checks, then the body
under the lock. -/
def withLock (m : Memory) (ctx : Context) (check : Except JournalError Unit)
    (body : Memory → Memory × Reply) : Memory × Reply :=
  match ctx.entry with
  | some err => (m, .error err)
  | none =>
    match check with
    | .error err => (m, .error err)
    | .ok () =>
      match ctx.locked with
      | some err => (m, .error err)
      | none => body m

/-- `lookupLocked`, and the rest of the method on the stream it finds. -/
def withStream (m : Memory) (id : StreamID) (now : Int)
    (body : Memory → MemoryStream → Memory × Reply) : Memory × Reply :=
  let m := cleanupExpiredLocked m now
  match findLocked m id with
  | .error err => (m, .error err)
  | .ok stream => body m stream

/-- The checks that `Append` and `Close` make before they allocate a sequence. -/
def checkWritable (stream : MemoryStream) : Except JournalError Unit :=
  if stream.status ≠ .statusOpen then .error (terminalError stream)
  else if stream.degraded then .error { sentinel := .errDegraded, detail := stream.id }
  else if stream.lastSeq = maxUint64 then
    .error { sentinel := .errCapacity, detail := "sequence exhausted" }
  else .ok ()

section Methods

variable (envelopeLen : Entry → Option Nat)

/-- The entry of a write to the stream, committed under the next sequence. -/
def commitNext (m : Memory) (stream : MemoryStream) (entry : Entry) (now : Int) :
    Except Failure (Memory × MemoryStream × StoredEntry) :=
  match checkWritable stream with
  | .error err => .error (.error err)
  | .ok () =>
    match prepareEntry envelopeLen entry (stream.lastSeq + 1) now with
    | .error err => .error (.error err)
    | .ok stored =>
      match commitLocked m stream stored now with
      | .error failure => .error failure
      | .ok (m, stream) => .ok (m, stream, stored)

/-- The stream that `Open` creates. -/
def newStream (id : StreamID) (metadata : Meta) (retentionTTL : Int) (stored : StoredEntry)
    (now : Int) : MemoryStream :=
  { id := id
    metadata := metadata
    retentionTTL := retentionTTL
    originBackend := metadata.backendID
    currentBackend := metadata.backendID
    entries := [stored]
    bytes := stored.size
    earliestSeq := 1
    lastSeq := 1
    status := .statusOpen
    resumable := true
    createdAt := now
    updatedAt := now
    expiresAt := now + retentionTTL
    usage := Usage.zero
    migrations := []
    terminal := none
    degraded := false
    nextTailID := 0
    inLRU := false }

/-- The retention period of a new stream. -/
def retentionFor (m : Memory) (metadata : Meta) : Int :=
  if metadata.retentionTTL = 0 then m.config.ttl else metadata.retentionTTL

/-- The checks that `Open` makes before it takes the lock. -/
def checkOpen (m : Memory) (id : StreamID) (metadata : Meta) : Except JournalError Unit :=
  if validateStreamID id = false then
    .error { sentinel := .errInvalidStreamID, detail := id, context := "open stream: " }
  else if retentionFor m metadata < 0 ∨ retentionFor m metadata > maxInt64 / 2 then
    .error {
      sentinel := .errInvalidEntry
      detail := "retention TTL must be positive and safely bounded" }
  else .ok ()

/-- The body of `Open` under the lock. -/
def openLocked (m : Memory) (id : StreamID) (metadata : Meta) (now : Int) : Memory × Reply :=
  let m := cleanupExpiredLocked m now
  if (m.streams.lookup id).isSome ∨ (m.tombstones.lookup id).isSome then
    (m, .error { sentinel := .errAlreadyExists, detail := id })
  else
    let entry : Entry :=
      { seq := 0, ts := 0, kind := .kindOpen, payload := openPayload id metadata, err := none }
    match prepareEntry envelopeLen entry 1 now with
    | .error err => (m, .error err)
    | .ok stored =>
      match makeRoomLocked m none stored.size now with
      | .error .panic => (m, .failed .panic)
      | .error (.error err) => (m, .error (err.wrap ("open stream " ++ id)))
      | .ok (room, _) =>
        ({ room with
            streams := room.streams.insert id
              (newStream id metadata (retentionFor m metadata) stored now)
            totalBytes := room.totalBytes + stored.size },
          .done)

/-- `Memory.Open`. -/
def Memory.open (m : Memory) (ctx : Context) (id : StreamID) (metadata : Meta) (now : Int) :
    Memory × Reply :=
  withLock m ctx (checkOpen m id metadata) fun m => openLocked envelopeLen m id metadata now

/-- `Memory.Append`. -/
def Memory.append (m : Memory) (ctx : Context) (id : StreamID) (entry : Entry) (now : Int) :
    Memory × Reply :=
  let check :=
    if entry.kind.appendable then .ok ()
    else .error {
      sentinel := .errInvalidEntry
      detail := "kind \"" ++ entry.kind.name ++ "\" cannot be appended" }
  withLock m ctx check fun m =>
    withStream m id now fun m stream =>
      match commitNext envelopeLen m stream entry now with
      | .error failure => (m, .failed failure)
      | .ok (m, _, stored) => (m, .seq stored.entry.seq)

/-- The fields that `Close` sets after the commit. -/
def closeStream (stream : MemoryStream) (committed : Entry) (now : Int) : MemoryStream :=
  { stream with
    status := statusForTerminal committed.kind
    resumable := decide (committed.kind ≠ .kindStopped)
    expiresAt := now + stream.retentionTTL
    terminal := some {
      seq := committed.seq, ts := committed.ts, kind := committed.kind,
      payload := committed.payload }
    inLRU := true }

/-- `Memory.Close`. -/
def Memory.close (m : Memory) (ctx : Context) (id : StreamID) (terminal : Entry) (now : Int) :
    Memory × Reply :=
  let check :=
    if terminal.kind.terminal then .ok ()
    else .error {
      sentinel := .errInvalidEntry
      detail := "kind \"" ++ terminal.kind.name ++ "\" is not terminal" }
  withLock m ctx check fun m =>
    withStream m id now fun m stream =>
      match commitNext envelopeLen m stream terminal now with
      | .error failure => (m, .failed failure)
      | .ok (m, stream, stored) =>
        ({ m with
            streams := m.streams.insert stream.id (closeStream stream stored.entry now)
            terminalLRU := stream.id :: m.terminalLRU },
          .done)

end Methods

/-- `Memory.MarkDegraded`. -/
def Memory.markDegraded (m : Memory) (ctx : Context) (id : StreamID) (now : Int) :
    Memory × Reply :=
  withLock m ctx (.ok ()) fun m =>
    withStream m id now fun m stream =>
      if stream.status ≠ .statusOpen then (m, .error (terminalError stream))
      else
        let sealedStream :=
          { stream with
            degraded := true
            updatedAt := now
            expiresAt := now + stream.retentionTTL }
        let m := { m with streams := m.streams.insert stream.id sealedStream }
        if stream.degraded then (m, .done)
        else (m.forTails stream.id fun reader => { reader with wake := true }, .done)

/-- `Memory.Read`: the call-time snapshot and the error that follows it. -/
def Memory.read (m : Memory) (ctx : Context) (id : StreamID) (fromSeq : Nat) (now : Int) :
    Memory × Reply :=
  withLock m ctx (.ok ()) fun m =>
    withStream m id now fun m stream =>
      if stream.resumable = false then
        (m, .error { sentinel := .errNotResumable, detail := id })
      else
        match validateCursor stream fromSeq with
        | .error err => (m, .error err)
        | .ok () =>
          let m := touchTerminalLocked m stream
          let snapshot := entriesAfter stream fromSeq
          if stream.degraded ∧ snapshot.isEmpty then (m, .error (gapError id))
          else (m, .entries snapshot (if stream.degraded then some (gapError id) else none))

/-- The iterator that `Read` returns, run to its end: the entries that it yields
and the error that it yields last.  `first` is the outcome of the context check
before the loop and `checks i` the one of the check before entry `i`. -/
def iterate (checks : Nat → Option JournalError) (first : Option JournalError)
    (snapshot : List Entry) (trailing : Option JournalError) :
    List Entry × Option JournalError :=
  match first with
  | some err => ([], some err)
  | none => loop 0 snapshot
where
  loop : Nat → List Entry → List Entry × Option JournalError
    | _, [] => ([], trailing)
    | i, entry :: rest =>
      match checks i with
      | some err => ([], some err)
      | none =>
        let (yielded, last) := loop (i + 1) rest
        (entry :: yielded, last)

/-- `Memory.Tail`: the new reader is the last one of the heap. -/
def Memory.tail (m : Memory) (ctx : Context) (id : StreamID) (fromSeq : Nat) (now : Int) :
    Memory × Reply :=
  withLock m ctx (.ok ()) fun m =>
    withStream m id now fun m stream =>
      if stream.resumable = false then
        (m, .error { sentinel := .errNotResumable, detail := id })
      else
        match validateCursor stream fromSeq with
        | .error err => (m, .error err)
        | .ok () =>
          if stream.degraded ∧ fromSeq = stream.lastSeq then (m, .error (gapError id))
          else if stream.nextTailID = maxUint64 then
            (m, .error { sentinel := .errCapacity, detail := "reader identifier exhausted" })
          else
            let reader : TailReader :=
              { id := stream.nextTailID + 1
                stream := stream.id
                cursor := fromSeq
                liveAfter := stream.lastSeq
                liveLag := 0
                inFlightSeq := 0
                inFlightSize := 0
                stopped := false
                stopErr := none
                discard := false
                wake := false }
            let numbered := { stream with nextTailID := stream.nextTailID + 1 }
            let m :=
              { m with
                streams := m.streams.insert stream.id numbered
                readers := m.readers ++ [reader] }
            (touchTerminalLocked m numbered, .reader (m.readers.length - 1))

/-- `Memory.State`. -/
def Memory.state (m : Memory) (ctx : Context) (id : StreamID) (now : Int) : Memory × Reply :=
  withLock m ctx (.ok ()) fun m =>
    withStream m id now fun m stream =>
      (touchTerminalLocked m stream, .state (snapshotState stream))

/-- A call of an exported method, with its clock reading. -/
inductive Call where
  | open (ctx : Context) (id : StreamID) (metadata : Meta) (now : Int)
  | append (ctx : Context) (id : StreamID) (entry : Entry) (now : Int)
  | close (ctx : Context) (id : StreamID) (terminal : Entry) (now : Int)
  | markDegraded (ctx : Context) (id : StreamID) (now : Int)
  | read (ctx : Context) (id : StreamID) (fromSeq : Nat) (now : Int)
  | tail (ctx : Context) (id : StreamID) (fromSeq : Nat) (now : Int)
  | state (ctx : Context) (id : StreamID) (now : Int)
  deriving DecidableEq, Repr

/-- The call on a store. -/
def Memory.exec (envelopeLen : Entry → Option Nat) (m : Memory) : Call → Memory × Reply
  | .open ctx id metadata now => m.open envelopeLen ctx id metadata now
  | .append ctx id entry now => m.append envelopeLen ctx id entry now
  | .close ctx id terminal now => m.close envelopeLen ctx id terminal now
  | .markDegraded ctx id now => m.markDegraded ctx id now
  | .read ctx id fromSeq now => m.read ctx id fromSeq now
  | .tail ctx id fromSeq now => m.tail ctx id fromSeq now
  | .state ctx id now => m.state ctx id now

/-- The store after a list of calls. -/
def Memory.execAll (envelopeLen : Entry → Option Nat) (m : Memory) (calls : List Call) :
    Memory :=
  calls.foldl (fun m call => (m.exec envelopeLen call).1) m

end Streamweld.Journal
