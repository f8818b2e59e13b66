import Streamweld.Lib.Transition
import Streamweld.Proxy.Reader

/-!
# A stream with its writers and readers

The interleavings of the goroutines of one stream.  `writeMu` is represented by the
function that holds it (`Writer`), so that at most one does.  A refusal
(`closeExternalMigrationRefusal`) does some of its work without the lock: it raises
`terminating` before it asks for it and, when it fails, lowers it after it has given
the lock back.  Since it only starts on a stream that is not being closed, there is at
most one at a time (`Streamweld.Proxy.Control`).

In this system anyone may call any of the writing functions at any time, and the
producer may move the stream to another backend whenever `reserveMigrationTarget` lets it.
What makes the producer do so is in `Streamweld.Proxy.Producer`.
-/

namespace Streamweld.Proxy

open Streamweld.Journal Streamweld.Lib

/-- On whose behalf `writeMu` is held. -/
inductive Owner where
  /-- `runProducer` -/
  | producer
  | refusal
  /-- `stop` or an orphan cancellation -/
  | other
  deriving DecidableEq, Repr

/-- A function that holds `writeMu`, and what it still does with it. -/
structure Writer where
  owner : Owner
  script : List Action

/-- Where `closeExternalMigrationRefusal` is. -/
inductive Refusal where
  | idle
  /-- it has raised `terminating` and waits for `writeMu` -/
  | waiting (warnings : List BodyRecord) (record : FinalRecord)
  /-- it holds `writeMu` -/
  | inside
  /-- it has failed and given `writeMu` back -/
  | rollingBack (committed : List Item)
  /-- it has closed the stream -/
  | leaving (epilogue : List Action)

/-- `terminating` is raised on behalf of the refusal. -/
def Refusal.active : Refusal → Bool
  | waiting _ _ | inside | rollingBack _ => true
  | _ => false

structure System where
  runtime : Runtime
  writer : Option Writer
  refusal : Refusal
  readers : List Reader

/-- What the holder of `writeMu` still does. -/
def System.script (s : System) : List Action :=
  match s.writer with
  | some writer => writer.script
  | none => []

/-- A stream that was just opened; the reader of the request has yet to attach. -/
def System.start (id : StreamID) (metadata : Meta) (lease : LeaseID) (maxLagBytes : Int)
    (verbose : Bool) : System :=
  { runtime := newRuntime id metadata lease maxLagBytes
    writer := none
    refusal := .idle
    readers := [Reader.new true 0 verbose] }

/-- A step of the system. -/
inductive StreamEvent where
  /-- a function takes `writeMu` -/
  | lock (owner : Owner) (call : Call)
  /-- the holder of `writeMu` executes an action, or gives it back -/
  | write (choice : Choice)
  /-- a refusal for the streams of a backend raises `terminating` -/
  | refuse (backend : String) (warnings : List BodyRecord) (record : FinalRecord)
  | refusalLock
  /-- `failTerminalTransition` of the refusal -/
  | rollback
  /-- the refusal executes an action after it has closed the stream -/
  | refusalStep (choice : Choice)
  /-- an attempt of `runJournalDegradedLease` succeeds -/
  | markDegraded
  /-- `cancelOrphan` obtains a claim -/
  | claimOrphan (claimID : String)
  /-- `finishClaimedOrphan` drops it -/
  | dropClaim (claimID : String)
  /-- `acquireMigrationTarget` obtains a lease -/
  | acquire (lease : LeaseID)
  /-- `reserveMigrationTarget` puts it in the place of the failed one -/
  | reserve (failedLease targetLease : LeaseID) (target : String)
  /-- the producer releases the failed lease, or the target's when it got no place -/
  | release (lease : LeaseID)
  /-- a reader resumes the stream -/
  | resume (cursor : Nat) (verbose : Bool)
  | reader (index : Nat) (event : ReaderEvent)

/-- The refusal after its function has left `writeMu`. -/
def Refusal.after (refusal : Refusal) : Exit → Refusal
  | .abandoned committed => .rollingBack committed
  | .departed epilogue => .leaving epilogue
  | _ => refusal

/-- The holder of `writeMu` executes an action.  With the new state comes how it left,
when it did. -/
def System.writeStep (s : System) (choice : Choice) : Option (System × Option (Owner × Exit)) :=
  match s.writer with
  | none => none
  | some writer =>
    match writer.script with
    | [] => some ({ s with writer := none }, some (writer.owner, .returned))
    | action :: rest =>
      match action.exec choice s.runtime with
      | none => none
      | some (runtime, .go actions) =>
        some ({ s with
          runtime := runtime
          writer := some { writer with script := actions ++ rest } }, none)
      | some (runtime, .leave exit) =>
        some ({ s with
          runtime := runtime
          writer := none
          refusal := s.refusal.after exit }, some (writer.owner, exit))

/-- One step. -/
def System.step (s : System) : StreamEvent → Option System
  | .lock owner call =>
    if s.writer.isNone = true ∧ call.locks = true ∧ owner ≠ .refusal then
      some { s with writer := some { owner := owner, script := [.check call] } }
    else none
  | .write choice => (s.writeStep choice).map Prod.fst
  | .refuse backend warnings record =>
    if s.runtime.terminal = none ∧ s.runtime.terminating = false ∧
        s.runtime.currentBackend = backend then
      some { s with
        runtime := { s.runtime with terminating := true }
        refusal := .waiting warnings record }
    else none
  | .refusalLock =>
    match s.writer, s.refusal with
    | none, .waiting warnings record =>
      some { s with
        writer := some { owner := .refusal, script := [.warn [] warnings record] }
        refusal := .inside }
    | _, _ => none
  | .rollback =>
    match s.refusal with
    | .rollingBack _ =>
      some { s with
        runtime := { s.runtime with terminating := false }
        refusal := .idle }
    | _ => none
  | .refusalStep choice =>
    match s.refusal with
    | .leaving (action :: rest) =>
      match action.exec choice s.runtime with
      | some (runtime, .go []) =>
        some { s with runtime := runtime, refusal := .leaving rest }
      | _ => none
    | _ => none
  | .markDegraded =>
    if s.runtime.degraded = true then
      match s.runtime.journal.ending with
      | .closed _ => some s
      | _ =>
        some { s with
          runtime := { s.runtime with journal := s.runtime.journal.finish .degraded } }
    else none
  | .claimOrphan claimID =>
    if s.runtime.readers = 0 ∧ s.runtime.terminal = none ∧ s.runtime.terminating = false then
      some { s with runtime := { s.runtime with orphanClaim := some claimID } }
    else none
  | .dropClaim claimID =>
    if s.runtime.orphanClaim = some claimID then
      some { s with runtime := { s.runtime with orphanClaim := none } }
    else none
  | .acquire lease =>
    some { s with runtime := { s.runtime with leases := s.runtime.leases ++ [lease] } }
  | .reserve failedLease targetLease target =>
    if s.runtime.terminal = none ∧ s.runtime.terminating = false ∧
        s.runtime.currentLease = some failedLease then
      some { s with
        runtime := { s.runtime with
          currentLease := some targetLease
          currentBackend := target } }
    else none
  | .release lease =>
    some { s with runtime := { s.runtime with leases := s.runtime.leases.erase lease } }
  | .resume cursor verbose =>
    some { s with readers := s.readers ++ [Reader.new false cursor verbose] }
  | .reader index event =>
    match s.readers[index]? with
    | none => none
    | some reader =>
      (reader.step s.runtime event).map fun (runtime, reader) =>
        { s with runtime := runtime, readers := s.readers.set index reader }

/-! ## A stream for the examples -/

def sampleStream : System := System.start sampleID sampleMeta 7 1000 true

def sampleEvent : Event := { Event.empty with data := "x", hasData := true }

/-- A warning without fields. -/
def sampleWarning : BodyRecord :=
  { kind := .kindWarning
    payload := .marshal (.obj [])
    appendable := kindWarning_appendable
    valid := emptyObject_valid }

/-- An error without fields. -/
def sampleRefusal : FinalRecord :=
  { kind := .kindError
    payload := .marshal (.obj [])
    terminal := kindError_terminal
    valid := emptyObject_valid }

end Streamweld.Proxy
