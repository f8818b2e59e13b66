import Streamweld.Redis.Equivalence

/-!
# Tail delivery of the Redis journal

`Redis.Tail` starts two goroutines for a reader.  `runTail` replays the entries up
to the boundary of its snapshot and then follows the stream with `XREAD`; after an
empty `XREAD` it reads the header and falls back to `XRANGE`.  It hands each entry
to `runRedisTailDelivery` over an unbuffered channel.  The pump queues the entries
under a byte budget and hands them to the consumer over a second unbuffered
channel.

The system of this module is one reader and the writers of its stream.  A label is
one atomic step: a script of a writer, a step of `runTail`, a command that Redis
answers, a step of the pump, a handoff, or the cancellation of the reader.  Redis
answers a command in one step and `runTail` goes on later, so that what it learned
may be stale.  A command may also fail, because the context ended or the
connection was lost; `Faithful` says which failures the last result excludes.

The results are in `Streamweld.Redis.TailInvariant`.
-/

namespace Streamweld.Redis

open Streamweld.Journal Streamweld.Lib

/-! ## Writers -/

/-- A mutation of the stream by some replica. -/
inductive Write where
  | append (record : BodyRecord) (nonce : Nonce) (now : Int)
  | close (record : FinalRecord) (nonce : Nonce) (now : Int)
  | degrade (nonce : Nonce) (now : Int)

/-- The script that a mutation runs. -/
def Write.run (keys : StreamKeys) : Write → StreamKeys
  | .append record nonce now =>
    ((Invocation.append record.kind record.payload).script nonce now keys).1
  | .close record nonce now =>
    ((Invocation.close record.kind record.payload).script nonce now keys).1
  | .degrade nonce now => (Invocation.degrade.script nonce now keys).1

/-- The keys of a stream that the open script has just created. -/
def openedKeys (args : OpenArgs) (idempotency : Option String) : StreamKeys :=
  { state := some (newStateHash args idempotency)
    events := some [{ seq := 1, kind := .kindOpen, payload := args.payload, ts := args.now }]
    tombstone := true
    receipts := fun _ => none }

/-! ## The source goroutine -/

/-- `ctx.Err()` of a context that is done. -/
inductive CtxErr where
  | canceled
  | deadlineExceeded
  deriving DecidableEq, Repr

def CtxErr.error : CtxErr → JournalError
  | .canceled => { sentinel := .contextCanceled }
  | .deadlineExceeded => { sentinel := .contextDeadlineExceeded }

/-- Where `runTail` is.  `state` and `degraded` are its variables, and a message is
what the last command answered. -/
inductive SourcePc where
  /-- at the head of the loop of `replayRedisRange` -/
  | replayCheck (cursor : Nat)
  /-- waits for `XRANGE` in the replay -/
  | replayRange (cursor : Nat)
  | replayMessage (cursor : Nat) (message : XMessage)
  /-- at the select of the yield function -/
  | replaySend (cursor : Nat) (entry : Entry)
  /-- at the head of the loop -/
  | loop (cursor : Nat) (state : StreamState) (degraded : Bool)
  /-- waits for `XREAD` -/
  | reading (cursor : Nat) (state : StreamState) (degraded : Bool)
  | received (cursor : Nat) (state : StreamState) (degraded : Bool) (message : XMessage)
  /-- at a select that sends an entry -/
  | sending (cursor : Nat) (state : StreamState) (degraded : Bool) (entry : Entry)
  /-- waits for the header -/
  | heading (cursor : Nat)
  /-- waits for the fallback `XRANGE` -/
  | fallback (cursor : Nat) (state : StreamState) (degraded : Bool)
  /-- in `sendTailError` -/
  | reporting (err : JournalError)
  | closed
  deriving DecidableEq, Repr

/-- The arguments of `runTail`. -/
structure TailArgs where
  id : StreamID
  fromSeq : Nat
  initial : StreamState
  degraded : Bool
  maxLagBytes : Int
  deriving DecidableEq, Repr

def continuityError (id : StreamID) : JournalError := replayError id " lost journal continuity"

def expectedError (id : StreamID) (cursor : Nat) : JournalError :=
  replayError id (" expected sequence " ++ toString (cursor + 1))

/-- The steps of `runTail` between its commands and its sends.  `ctxErr` is what
`ctx.Err()` returns. -/
def SourcePc.advance (args : TailArgs) (ctxErr : Option CtxErr) :
    SourcePc → Option SourcePc
  | .replayCheck cursor =>
    if cursor < args.initial.lastSeq then
      match ctxErr with
      | some err => some (.reporting err.error)
      | none => some (.replayRange cursor)
    else if args.degraded then some (.reporting (continuityError args.id))
    else if args.initial.status ≠ .statusOpen then some .closed
    else some (.loop cursor args.initial args.degraded)
  | .replayMessage cursor message =>
    match ctxErr with
    | some err => some (.reporting err.error)
    | none =>
      match decodesTo message (cursor + 1) with
      | none => some (.reporting (expectedError args.id cursor))
      | some entry =>
        if entry.kind.terminal = true ∧ entry.seq ≠ args.initial.lastSeq then
          some (.reporting (replayError args.id
            (" became terminal before replay boundary " ++ toString args.initial.lastSeq)))
        else some (.replaySend cursor entry)
  | .loop cursor state degraded =>
    if degraded = true ∧ cursor ≥ state.lastSeq then
      some (.reporting (continuityError args.id))
    else if state.status ≠ .statusOpen ∧ cursor ≥ state.lastSeq then some .closed
    else some (.reading cursor state degraded)
  | .received cursor state degraded message =>
    match decodeRedisEntry message with
    | .error err => some (.reporting err)
    | .ok entry =>
      if entry.seq ≤ cursor then some (.loop cursor state degraded)
      else if cursor = maxUint64 ∨ entry.seq ≠ cursor + 1 then
        some (.reporting (replayError args.id
          (s!" expected sequence {cursor + 1} and received " ++ toString entry.seq)))
      else some (.sending cursor state degraded entry)
  | _ => none

/-- What `runTail` does with the answer of the command that it waits for. -/
def SourcePc.answer (args : TailArgs) (keys : StreamKeys) : SourcePc → Option SourcePc
  | .replayRange cursor =>
    match xrange (keys.events.getD []) (cursor + 1) args.initial.lastSeq 1 with
    | [] => some (.reporting (expectedError args.id cursor))
    | message :: _ => some (.replayMessage cursor message)
  | .reading cursor state degraded =>
    -- `XREAD COUNT 1` after the cursor; without a message it times out with nil.
    match (keys.events.getD []).find? fun message => decide (cursor < message.seq) with
    | some message => some (.received cursor state degraded message)
    | none => some (.heading cursor)
  | .heading cursor =>
    match decodeState args.id keys.state keys.tombstone keys.events.isSome with
    | .error err => some (.reporting err)
    | .ok (state, degraded) =>
      if state.lastSeq > cursor then
        if cursor = maxUint64 then
          some (.reporting (replayError args.id " sequence overflow"))
        else some (.fallback cursor state degraded)
      else some (.loop cursor state degraded)
  | .fallback cursor state degraded =>
    match (keys.events.getD []).find? fun message => decide (cursor + 1 ≤ message.seq) with
    | none =>
      some (.reporting (replayError args.id
        (s!" has committed sequence {state.lastSeq} after cursor {cursor}" ++
          " but no retained event")))
    | some message =>
      match decodesTo message (cursor + 1) with
      | none => some (.reporting (expectedError args.id cursor))
      | some entry => some (.sending cursor state degraded entry)
  | _ => none

/-- What `runTail` does when the command that it waits for fails with `err`. -/
def SourcePc.fail (args : TailArgs) (ctxErr : Option CtxErr) (err : JournalError) :
    SourcePc → Option SourcePc
  | .replayRange _ =>
    match ctxErr with
    | some ended => some (.reporting ended.error)
    | none => some (.reporting (replayError args.id " events cannot be replayed"))
  | .reading _ _ _ | .heading _ =>
    match ctxErr with
    | some _ => some .closed
    | none => some (.reporting err)
  -- The only command whose failure is reported without a look at the context.
  | .fallback _ _ _ => some (.reporting (replayError args.id " events cannot be replayed"))
  | _ => none

/-- The entry that `runTail` offers, and where it goes on after it was taken. -/
def SourcePc.offer : SourcePc → Option (Entry × SourcePc)
  | .replaySend _ entry => some (entry, .replayCheck entry.seq)
  | .sending _ state degraded entry =>
    some (entry, if entry.kind.terminal then .closed else .loop entry.seq state degraded)
  | .reporting err => some (errorEntry err, .closed)
  | _ => none

/-! ## The pump -/

/-- Where `runRedisTailDelivery` is. -/
inductive PumpPc where
  /-- at the head of the loop and its first select -/
  | polling
  /-- at the second select -/
  | waiting
  /-- at the select that sends the lag error -/
  | lagging
  | closed
  deriving DecidableEq, Repr

structure RedisTailPendingEntry where
  entry : Entry
  bytes : Int
  deriving DecidableEq, Repr

/-- The variables of `runRedisTailDelivery`; `sourceOpen` says that `source` is not
nil. -/
structure Pump where
  pc : PumpPc
  pending : List RedisTailPendingEntry
  pendingBytes : Int
  sourceOpen : Bool
  deriving DecidableEq, Repr

/-- `redisTailEntrySize`; `envelopeLen` is the length of the encoded entry. -/
def redisTailEntrySize (envelopeLen : Entry → Option Nat) (entry : Entry) : Int :=
  match entry.err with
  | some _ => 0
  | none =>
    match envelopeLen entry with
    | some size => size
    | none => maxInt64

def lagError (args : TailArgs) : JournalError :=
  { sentinel := .errReaderLagged
    detail := "stream " ++ args.id ++ " exceeded " ++ toString args.maxLagBytes ++
      " pending bytes" }

/-- The pump takes an entry from the source. -/
def Pump.accept (envelopeLen : Entry → Option Nat) (args : TailArgs) (pump : Pump)
    (entry : Entry) : Pump :=
  let size := redisTailEntrySize envelopeLen entry
  let fits := size ≤ args.maxLagBytes ∧ pump.pendingBytes ≤ args.maxLagBytes - size
  if entry.err = none ∧ pump.pending ≠ [] ∧ ¬ fits then { pump with pc := .lagging }
  else
    { pump with
      pc := .polling
      pending := pump.pending ++ [{ entry := entry, bytes := size }]
      pendingBytes := pump.pendingBytes + size }

/-- The pump evicts the reader, or it queues the entry. -/
theorem Pump.accept_cases (envelopeLen : Entry → Option Nat) (args : TailArgs) (pump : Pump)
    (entry : Entry) :
    ((entry.err = none ∧ pump.pending ≠ []) ∧
      pump.accept envelopeLen args entry = { pump with pc := .lagging }) ∨
    (entry.err ≠ none ∨ pump.pending = [] ∨
      pump.pendingBytes + redisTailEntrySize envelopeLen entry ≤ args.maxLagBytes) ∧
      pump.accept envelopeLen args entry =
        { pump with
          pc := .polling
          pending := pump.pending ++
            [{ entry := entry, bytes := redisTailEntrySize envelopeLen entry }]
          pendingBytes := pump.pendingBytes + redisTailEntrySize envelopeLen entry } := by
  by_cases hlag : entry.err = none ∧ pump.pending ≠ [] ∧
      ¬ (redisTailEntrySize envelopeLen entry ≤ args.maxLagBytes ∧
        pump.pendingBytes ≤ args.maxLagBytes - redisTailEntrySize envelopeLen entry)
  · exact .inl ⟨⟨hlag.1, hlag.2.1⟩, if_pos hlag⟩
  · refine .inr ⟨?_, if_neg hlag⟩
    by_cases herr : entry.err = none
    · by_cases hpending : pump.pending = []
      · exact .inr (.inl hpending)
      · have hfits := Classical.not_not.mp fun hfits => hlag ⟨herr, hpending, hfits⟩
        exact .inr (.inr (by omega))
    · exact .inl herr

/-! ## The system -/

/-- One reader of a stream. -/
structure RedisTail where
  args : TailArgs
  keys : StreamKeys
  source : SourcePc
  pump : Pump
  delivered : List Entry
  /-- the error of the context that the caller gave or canceled -/
  callerErr : Option CtxErr

/-- `ctx.Err()` of the tail context, which the pump cancels when it returns. -/
def RedisTail.ctxErr (s : RedisTail) : Option CtxErr :=
  match s.callerErr with
  | some err => some err
  | none => if s.pump.pc = .closed then some .canceled else none

/-- `Redis.Tail`: the checks, and the reader that it starts. -/
def redisTail (maxLagBytes : Int) (keys : StreamKeys) (id : StreamID) (fromSeq : Nat) :
    Except JournalError RedisTail :=
  match boundedRedisSnapshot keys id with
  | .error err => .error err
  | .ok (state, degraded) =>
    if state.resumable = false then .error { sentinel := .errNotResumable, detail := id }
    else
      match validateRedisCursor state fromSeq with
      | .error err => .error err
      | .ok () =>
        if degraded = true ∧ fromSeq = state.lastSeq then
          .error {
            sentinel := .errOffsetExpired
            detail := "stream " ++ id ++ " contains an unjournaled gap" }
        else
          .ok {
            args := {
              id := id, fromSeq := fromSeq, initial := state, degraded := degraded,
              maxLagBytes := maxLagBytes }
            keys := keys
            source := .replayCheck fromSeq
            pump := { pc := .polling, pending := [], pendingBytes := 0, sourceOpen := true }
            delivered := []
            callerErr := none }

/-- A step of the system. -/
inductive TailEvent where
  | write (mutation : Write)
  | advance
  | answer
  | fail (err : JournalError)
  /-- the source hands its entry to the pump -/
  | send
  /-- a select of the source sees its context done -/
  | abandon
  /-- the first select of the pump finds no ready consumer -/
  | poll
  /-- the consumer takes an entry -/
  | deliver
  /-- the pump sees that the source is closed -/
  | sourceClosed
  /-- a select of the pump sees its context done -/
  | pumpDone
  | cancel (err : CtxErr)

section System

variable (envelopeLen : Entry → Option Nat)

/-- One step. -/
def RedisTail.step (s : RedisTail) : TailEvent → Option RedisTail
  | .write mutation => some { s with keys := mutation.run s.keys }
  | .advance =>
    (s.source.advance s.args s.ctxErr).map fun source => { s with source := source }
  | .answer => (s.source.answer s.args s.keys).map fun source => { s with source := source }
  | .fail err =>
    (s.source.fail s.args s.ctxErr err).map fun source => { s with source := source }
  | .send =>
    if s.pump.pc = .waiting ∧ s.pump.sourceOpen = true then
      s.source.offer.map fun (entry, source) =>
        { s with source := source, pump := s.pump.accept envelopeLen s.args entry }
    else none
  | .abandon =>
    if s.ctxErr.isSome ∧ s.source.offer.isSome then some { s with source := .closed } else none
  | .poll =>
    if s.pump.pc = .polling then
      if s.pump.sourceOpen = false ∧ s.pump.pending = [] then
        some { s with pump := { s.pump with pc := .closed } }
      else some { s with pump := { s.pump with pc := .waiting } }
    else none
  | .deliver =>
    match s.pump.pc, s.pump.pending with
    | .polling, head :: rest | .waiting, head :: rest =>
      some { s with
        delivered := s.delivered ++ [head.entry]
        pump := { s.pump with
          pc := .polling
          pending := rest
          pendingBytes := s.pump.pendingBytes - head.bytes } }
    | .lagging, _ =>
      some { s with
        delivered := s.delivered ++ [errorEntry (lagError s.args)]
        pump := { s.pump with pc := .closed } }
    | _, _ => none
  | .sourceClosed =>
    if s.pump.pc = .waiting ∧ s.pump.sourceOpen = true ∧ s.source = .closed then
      some { s with pump := { s.pump with pc := .polling, sourceOpen := false } }
    else none
  | .pumpDone =>
    if (s.pump.pc = .waiting ∨ s.pump.pc = .lagging) ∧ s.ctxErr.isSome then
      some { s with pump := { s.pump with pc := .closed } }
    else none
  | .cancel err => some { s with callerErr := some (s.callerErr.getD err) }

end System

/-- Redis answers every command, except that the end of the context may abort a
command other than the fallback. -/
def Faithful (s : RedisTail) : TailEvent → Prop
  | .fail _ => s.ctxErr.isSome ∧ ∀ cursor state degraded, s.source ≠ .fallback cursor state degraded
  | _ => True

end Streamweld.Redis
