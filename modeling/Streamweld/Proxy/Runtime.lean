import Streamweld.Proxy.DegradedFeed

/-!
# The writers of a stream

The functions of `streamRuntime` that write to the stream
(`internal/proxy/durable.go`, `producer.go` and `degradation.go`): `appendChunk`,
`appendNonTerminalUntil`, `closeTerminalUntil` and `closeExternalMigrationRefusal`
with what they call.  All of them run under `writeMu`, and between their accesses to
shared state any other goroutine can run.

What a function still has to do under `writeMu` is a list of actions, its script.
An action is what the function does in one block under `r.mu` or `feed.mu`, or one
call of the journal; `Action.exec` executes it and says what the function does next.
The journal is a `LogStream`.  A call of it succeeds, fails, or is committed and
reported as failed.

The choices that the code makes from what it has computed before (the payload of a
terminal entry, the warnings of a refusal) are arguments of the calls.
-/

namespace Streamweld.Proxy

open Streamweld.Journal Streamweld.Lib

/-! ## Entries to write -/

/-- A frame without a sequence. -/
abbrev LocalFrame := { frame : DegradedFrame // frame.entry = none }

/-- An entry to append, and the frame that takes its place when it cannot be
journaled. -/
structure Outgoing where
  record : BodyRecord
  frame : LocalFrame

/-- A warning or a migration. -/
structure ControlRecord where
  record : BodyRecord
  control : record.kind ≠ .kindChunk

def optionalString (value : String) (present : Bool) : Json :=
  if present = false ∨ value = "" then .null else .str value

/-- The entry that `appendChunk` makes of an upstream event. -/
def chunkRecord (event : Event) : BodyRecord :=
  { kind := .kindChunk
    payload := .marshal (.obj [
      ("data", .str event.data),
      ("upstream_event", optionalString event.type event.hasType)])
    appendable := rfl
    valid := rfl }

def Outgoing.chunk (event : Event) : Outgoing :=
  ⟨chunkRecord event, degradedChunkFrame event, rfl⟩

def Outgoing.control (notice : ControlRecord) : Outgoing :=
  ⟨notice.record, degradedEntryFrame notice.record.kind notice.record.payload, rfl⟩

/-- The frame of a terminal entry that is not journaled. -/
def terminalFrame (record : FinalRecord) : LocalFrame :=
  ⟨degradedTerminalFrame record.kind record.payload, degradedTerminalFrame_entry ..⟩

def warningFrame : LocalFrame := ⟨degradedWarningFrame, rfl⟩

/-! ## The runtime -/

abbrev LeaseID := Nat

/-- The fields of `streamRuntime` that the writers and the readers share, the journal
of the stream, and the leases that were acquired for it and not released.

`broadcastSeq` and `lateCommits` are not in the code: the sequence of the last
entry whose broadcast has taken its list of readers, and the number of journal calls
that succeeded while `degraded` was set. -/
structure Runtime where
  journal : LogStream
  terminating : Bool
  terminal : Option EntryKind
  degraded : Bool
  lastSeq : Nat
  /-- `context.Cause(r.context) != nil` -/
  canceled : Bool
  /-- `done` is closed -/
  done : Bool
  activeDone : Bool
  currentLease : Option LeaseID
  currentBackend : String
  readers : Nat
  orphanClaim : Option String
  firstOnce : Bool
  firstEntry : Option Item
  feed : DegradedFeed
  leases : List LeaseID
  broadcastSeq : Nat
  lateCommits : Nat

/-- The runtime that `resolve` registers after it has opened the stream. -/
def newRuntime (id : StreamID) (metadata : Meta) (lease : LeaseID) (maxLagBytes : Int) :
    Runtime :=
  { journal := .create id metadata
    terminating := false
    terminal := none
    degraded := false
    lastSeq := 1
    canceled := false
    done := false
    activeDone := false
    currentLease := some lease
    currentBackend := metadata.backendID
    readers := 0
    orphanClaim := none
    firstOnce := false
    firstEntry := none
    feed := newDegradedFeed maxLagBytes
    leases := [lease]
    broadcastSeq := 1
    lateCommits := 0 }

/-- What a journal call has done when it returns.  That Redis executes a script after its
caller has given up is not modelled here; `Streamweld.Proxy.Resolve` does so for `Open`. -/
inductive Outcome where
  | ok
  | fail
  /-- it commits, and reports an error -/
  | failCommitted
  deriving DecidableEq, Repr

/-- A journal call that would change the log by `f`, and whether it succeeded.  Only a
live stream accepts a mutation. -/
def Runtime.mutate (r : Runtime) (f : LogStream → LogStream) : Outcome → Option (Runtime × Bool)
  | .fail => some (r, false)
  | .ok =>
    match r.journal.ending with
    | .live =>
      some ({ r with
        journal := f r.journal
        lateCommits := if r.degraded then r.lateCommits + 1 else r.lateCommits }, true)
    | _ => none
  | .failCommitted =>
    match r.journal.ending with
    | .live => some ({ r with journal := f r.journal }, false)
    | _ => none

/-- `publishFirst`. -/
def Runtime.publishFirst (r : Runtime) (entry : Item) : Runtime :=
  if r.firstOnce = true then r else { r with firstOnce := true, firstEntry := some entry }

/-- What a terminal transition does under `r.mu`. -/
def Runtime.setTerminal (r : Runtime) (kind : EntryKind) : Runtime :=
  { r with
    terminal := some kind
    terminating := false
    currentLease := none
    done := true
    activeDone := true }

/-! ## Calls and actions -/

/-- The guard of `closeTerminalUntil`. -/
inductive Guard where
  | always
  | noReaders
  | claimed (claimID : String)
  deriving DecidableEq, Repr

def Guard.holds (r : Runtime) : Guard → Bool
  | always => true
  | noReaders => r.readers = 0
  | claimed claimID => r.readers = 0 ∧ r.orphanClaim = some claimID

/-- A call of a function that writes to the stream. -/
inductive Call where
  | appendChunk (event : Event)
  | appendNonTerminal (entries : List ControlRecord)
  | closeTerminal (record : FinalRecord) (guard : Guard)

/-- `appendNonTerminalUntil` returns at once when it has no entries. -/
def Call.locks : Call → Bool
  | .appendNonTerminal [] => false
  | _ => true

/-- Something that a writer does without giving way. -/
inductive Action where
  /-- the first block under `r.mu` -/
  | check (call : Call)
  /-- `journal.Append` of the first entry, then the others -/
  | append (entries : List Outgoing)
  /-- `r.lastSeq = seq` -/
  | mirror (seq : Nat)
  /-- the first block of `broadcast` -/
  | broadcast (frame : DegradedFrame)
  | enqueue (reader : Nat) (frame : DegradedFrame)
  /-- `publishFirst` -/
  | offer (entry : Item)
  /-- the first block of `enterJournalDegradedLocked` -/
  | degrade (frames : List LocalFrame)
  /-- the first block of `degradedFeed.activate` -/
  | activate (boundary : Nat) (frames : List LocalFrame)
  /-- the first block of `degradedFeed.append` -/
  | relay (frames : List LocalFrame)
  /-- the block that builds the payload and reads `r.degraded` -/
  | build (record : FinalRecord)
  /-- `journal.Close` -/
  | close (record : FinalRecord)
  /-- the block that sets `r.terminal` after the journal was closed -/
  | finish (record : FinalRecord)
  /-- the block of `finishDegradedLocked` -/
  | finishDegraded (record : FinalRecord)
  | release (lease : LeaseID)
  | closeFeed
  /-- the loop of `closeExternalMigrationRefusal` over its warnings -/
  | warn (committed : List Item) (warnings : List BodyRecord) (record : FinalRecord)
  /-- its `journal.Close` -/
  | closeRefused (committed : List Item) (record : FinalRecord)
  /-- its block that sets `r.terminal` -/
  | finishRefused (committed : List Item) (record : FinalRecord)
  /-- it gives `writeMu` back -/
  | depart (lease : Option LeaseID) (committed : List Item) (terminal : Item)
  /-- `r.cancel` -/
  | cancel

/-- How a function gives `writeMu` back. -/
inductive Exit where
  | returned
  /-- with `ErrTerminalState` -/
  | errTerminalState
  /-- a refusal that failed, and what it had committed -/
  | abandoned (committed : List Item)
  /-- a refusal that closed the stream, and what it does afterwards -/
  | departed (epilogue : List Action)

/-- What comes after an action. -/
inductive Next where
  /-- these actions, and then the rest of the script -/
  | go (actions : List Action)
  | leave (exit : Exit)

/-- The choices that an action leaves open: what the journal does, and in which order
`broadcast` visits the readers. -/
structure Choice where
  outcome : Outcome := .ok
  order : List Nat := []
  deriving DecidableEq, Repr

def releases (lease : Option LeaseID) : List Action := lease.toList.map .release

/-- The first block of a call, on a stream that is neither closed nor being closed. -/
def Call.enter (r : Runtime) : Call → Runtime × Next
  | .appendChunk event =>
    let out := Outgoing.chunk event
    (r, .go [if r.degraded then .relay [out.frame] else .append [out]])
  | .appendNonTerminal entries =>
    let out := entries.map Outgoing.control
    (r, .go [if r.degraded then .relay (out.map (·.frame)) else .append out])
  | .closeTerminal record guard =>
    if guard.holds r then
      ({ r with terminating := true, canceled := true }, .go [.build record])
    else (r, .leave .returned)

/-- Execute one action. -/
def Action.exec (choice : Choice) (r : Runtime) : Action → Option (Runtime × Next)
  | .check call =>
    if r.terminal.isSome = true ∨ r.terminating = true then some (r, .leave .errTerminalState)
    else some (call.enter r)
  | .append [] => some (r, .go [])
  | .append (out :: rest) =>
    match r.mutate (·.push out.record) choice.outcome with
    | none => none
    | some (r', true) =>
      let entry := out.record.item r'.journal.lastSeq
      some (r', .go [.mirror entry.seq, .broadcast (shadowFrame entry), .offer entry,
        .append rest])
    | some (r', false) => some (r', .go [.degrade ((out :: rest).map (·.frame))])
  | .mirror seq => some ({ r with lastSeq := seq }, .go [])
  | .broadcast frame =>
    if choice.order.isPerm r.feed.broadcastReaders then
      some ({ r with broadcastSeq := (frame.entry.map (·.seq)).getD r.broadcastSeq },
        .go (choice.order.map fun reader => .enqueue reader frame.sized))
    else none
  | .enqueue reader frame => some ({ r with feed := r.feed.enqueueSecondary reader frame }, .go [])
  | .offer entry => some (r.publishFirst entry, .go [])
  | .degrade frames =>
    if r.degraded then some (r, .go [.relay frames])
    else some ({ r with degraded := true }, .go [.activate r.lastSeq (warningFrame :: frames)])
  | .activate boundary frames =>
    let (feed, frames) := r.feed.activate boundary (frames.map Subtype.val)
    some ({ r with feed := feed }, .go (frames.map .broadcast))
  | .relay frames =>
    some (r, .go ((r.feed.append (frames.map Subtype.val)).map .broadcast))
  | .build record =>
    some (r, .go [if r.degraded then .finishDegraded record else .close record])
  | .close record =>
    match r.mutate (·.finish (.closed record)) choice.outcome with
    | none => none
    | some (r', true) => some (r', .go [.finish record])
    | some (r', false) => some (r', .go [.degrade [], .finishDegraded record])
  | .finish record =>
    let entry := record.item (r.lastSeq + 1)
    some ({ r.setTerminal record.kind with lastSeq := r.lastSeq + 1 },
      .go (releases r.currentLease ++
        [.broadcast (shadowFrame entry), .closeFeed, .offer entry]))
  | .finishDegraded record =>
    some (r.setTerminal record.kind,
      .go (releases r.currentLease ++ [.relay [terminalFrame record], .closeFeed]))
  | .release lease => some ({ r with leases := r.leases.erase lease }, .go [])
  | .closeFeed => some ({ r with feed := r.feed.close }, .go [])
  | .warn committed [] record => some (r, .go [.closeRefused committed record])
  | .warn committed (warning :: warnings) record =>
    match r.mutate (·.push warning) choice.outcome with
    | none => none
    | some (r', true) =>
      let entry := warning.item r'.journal.lastSeq
      some (r', .go [.mirror entry.seq, .broadcast (shadowFrame entry),
        .warn (committed ++ [entry]) warnings record])
    | some (r', false) => some (r', .leave (.abandoned committed))
  | .closeRefused committed record =>
    match r.mutate (·.finish (.closed record)) choice.outcome with
    | none => none
    | some (r', true) => some (r', .go [.finishRefused committed record])
    | some (r', false) => some (r', .leave (.abandoned committed))
  | .finishRefused committed record =>
    let entry := record.item (r.lastSeq + 1)
    some ({ r.setTerminal record.kind with lastSeq := r.lastSeq + 1 },
      .go [.broadcast (shadowFrame entry), .closeFeed, .depart r.currentLease committed entry])
  | .depart lease committed terminal =>
    some (r, .leave (.departed (.cancel ::
      (releases lease ++ (committed ++ [terminal]).map .offer))))
  | .cancel => some ({ r with canceled := true }, .go [])

end Streamweld.Proxy
