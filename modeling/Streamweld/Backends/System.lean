import Streamweld.Backends.Pool
import Streamweld.Lib.AssocSum
import Streamweld.Lib.Transition

/-!
# The pool and its callers

A step is one block under `pool.mu`, or one atomic exchange outside of it, of one of the
calls that are under way.

* `acquire` chooses in one block from the candidates that it has seen in an earlier one.
* `Release` and `Close` exchange a flag and only then take the lock.  Both can be called
  again, and at the same time.
* `Wait` and `WaitDrained` look at the record once per turn and sleep in between.
* A probe is started with a copy of the backend, and its result is applied later.

Every event has the answer that the call gives, so that a property can speak of the lease
that was granted or of the wait that has returned.
-/

namespace Streamweld.Backends

open Streamweld.Lib

/-- Where a lease stands.  The flag of `Release` is set in `releasing` and `released`; in
the first one the block that removes the lease from its record is still ahead. -/
inductive Hold where
  | held
  | releasing
  | released
  deriving DecidableEq, Repr

/-- Where the pin of a retained drain stands, with `Close` in place of `Release`. -/
inductive Pin where
  | pinned
  | closing
  | closed
  deriving DecidableEq, Repr

/-- `RetainedDrain`, without the flag of `Close`. -/
structure RetainedDrain where
  record : Nat
  snapshot : DrainSnapshot
  deriving DecidableEq, Repr

/-- A call of `acquire`: the turns before this one, and the choice of this turn if it has
been made. -/
structure Acquiring where
  owner : String
  model : Option String
  excluded : List ID
  attempt : Nat
  chosen : Option ID

/-- Where a call of `Wait` or `WaitDrained` stands. -/
inductive WaitPc where
  /-- at the top of the loop -/
  | turn
  /-- asleep on the channel that was current then -/
  | asleep (changed : Nat)
  /-- `WaitDrained` before its deferred block -/
  | leaving
  deriving DecidableEq, Repr

/-- A call of `Wait`, or of `WaitDrained`, which holds a pin of its own. -/
structure Waiting where
  record : Nat
  pinned : Bool
  pc : WaitPc
  deriving DecidableEq, Repr

structure System where
  pool : Pool
  /-- every lease that was granted -/
  leases : List (Lease × Hold)
  /-- every retained drain -/
  drains : List (RetainedDrain × Pin)
  acquiring : AList fun _ : Nat => Acquiring
  waiting : AList fun _ : Nat => Waiting
  /-- the probes under way -/
  probes : List ProbeTarget

def System.start (pool : Pool) : System := ⟨pool, [], [], ∅, ∅, []⟩

/-! ## Events -/

/-- The calls of the controller. -/
inductive Controller where
  | upsert (backend : Backend) (now : Int)
  | replace (backends : List Backend) (admitNew : Bool) (now : ID → Int)
  | remove (id : ID)

/-- The calls that change the state of one backend. -/
inductive Observation where
  | setHealth (health : Health)
  | markPassiveFailure
  | markDraining
  | undrain
  deriving DecidableEq, Repr

inductive Event where
  | controller (call : Controller)
  | observe (id : ID) (observation : Observation) (now : Int)
  /-- `Acquire` or `AcquireModel` is called -/
  | acquire (call : Nat) (owner : String) (model : Option String) (excluded : List ID)
  /-- a turn of `acquire`: the candidates, and the choice of `Choose` or of the counter -/
  | choose (call : Nat) (now : Int) (choice : Int)
  /-- the second block of the turn -/
  | take (call : Nat) (now : Int)
  | acquireID (id : ID) (owner : String) (now : Int)
  /-- the exchange of `Release` of the lease with this index -/
  | release (lease : Nat)
  /-- the locked block of `Release` -/
  | releaseLocked (lease : Nat)
  | beginRetainedDrain (id : ID) (now : Int)
  | beginRetainedPodDrain (podNamespace podName : String) (now : Int)
  /-- the exchange of `Close` of the drain with this index -/
  | close (drain : Nat)
  | closeLocked (drain : Nat)
  /-- `Wait` of the drain with this index is called -/
  | wait (call drain : Nat)
  | waitDrained (call : Nat) (id : ID)
  | waitTurn (call : Nat) (now : Int)
  /-- the context of a sleeping call ends -/
  | waitCanceled (call : Nat) (now : Int)
  | leave (call : Nat)
  | probeTargets
  /-- the probe with this index returns, with the parent context canceled or not -/
  | probeOne (probe : Nat) (canceled : Bool) (err : Option String) (now : Int)

/-- What a call answers at the step. -/
inductive Reply where
  /-- the call has not returned, or it has no result -/
  | none
  | failed (problem : PoolError)
  | state (state : State)
  | removed (found : Bool)
  | transition (transition : Transition)
  | draining (snapshot : DrainSnapshot)
  | drains (snapshots : List DrainSnapshot)
  | granted (lease : Lease)
  /-- `Wait` or `WaitDrained` returns without an error -/
  | drained (state : State)
  | waitCanceled (state : State)
  | probed (result : ProbeResult)
  deriving DecidableEq, Repr

/-- The reply of a call that can fail. -/
def Reply.of {α : Type} (ok : α → Reply) : Except PoolError α → Reply
  | .error problem => .failed problem
  | .ok value => ok value

/-! ## Steps -/

def Pool.controller (pool : Pool) : Controller → Pool × Reply
  | .upsert backend now => ((pool.upsert backend now).1, .of .state (pool.upsert backend now).2)
  | .replace backends admitNew now =>
    ((pool.replace backends admitNew now).1,
      .of (fun _ => .none) (pool.replace backends admitNew now).2)
  | .remove id => ((pool.remove id).1, .of .removed (pool.remove id).2)

def Pool.observe (pool : Pool) (id : ID) (now : Int) : Observation → Pool × Reply
  | .setHealth health =>
    ((pool.setHealth id health now).1, .of .transition (pool.setHealth id health now).2)
  | .markPassiveFailure =>
    ((pool.markPassiveFailure id now).1, .of .transition (pool.markPassiveFailure id now).2)
  | .markDraining => ((pool.markDraining id now).1, .of .draining (pool.markDraining id now).2)
  | .undrain => ((pool.undrain id now).1, .of .state (pool.undrain id now).2)

/-- The answer of a block that may grant a lease. -/
def System.grant (system : System) : Pool × Except PoolError Lease → System × Reply
  | (pool, .error problem) => ({ system with pool := pool }, .failed problem)
  | (pool, .ok lease) =>
    ({ system with pool := pool, leases := system.leases ++ [(lease, .held)] }, .granted lease)

/-- The checks of `AcquireModel` and `acquire` before the first turn. -/
def acquireProblem (model : Option String) (excluded : List ID) : Option PoolError :=
  (model.bind fun model => validateBackendMetadata "model" model true).or
    (excluded.findSome? fun id =>
      (ID.validate id).map fun problem => { problem with context := "exclude backend: " })

def System.putAcquire (system : System) (call : Nat) (acquiring : Acquiring) : System :=
  { system with acquiring := system.acquiring.insert call acquiring }

/-- The call returns. -/
def System.endAcquire (system : System) (call : Nat) : System :=
  { system with acquiring := system.acquiring.erase call }

/-- The first block of a turn of `acquire`, and the choice. -/
def System.choose (system : System) (call : Nat) (acquiring : Acquiring) (now choice : Int) :
    System × Reply :=
  let candidates := system.pool.candidates acquiring.model acquiring.excluded now
  if candidates = [] then (system.endAcquire call, .failed ⟨.noEligibleBackend, "", ""⟩)
  else
    match if 0 ≤ choice then candidates[choice.toNat]? else none with
    | none =>
      (system.endAcquire call, .failed ⟨.invalidSelection,
        "got " ++ toString choice ++ " for " ++ toString candidates.length ++ " candidates", ""⟩)
    | some candidate =>
      (system.putAcquire call { acquiring with chosen := some candidate.backend.id }, .none)

/-- The second block of a turn of `acquire`. -/
def System.take (system : System) (call : Nat) (acquiring : Acquiring) (chosen : ID)
    (now : Int) : System × Reply :=
  match system.pool.eligibleChoice chosen acquiring.model acquiring.excluded now with
  | some ref =>
    (system.endAcquire call).grant (system.pool.acquireLocked ref acquiring.owner now)
  | none =>
    if acquiring.attempt + 1 < 64 then
      (system.putAcquire call { acquiring with attempt := acquiring.attempt + 1, chosen := none },
        .none)
    else (system.endAcquire call, .failed ⟨.noEligibleBackend, "", ""⟩)

/-- `BeginRetainedDrain`. -/
def System.beginRetainedDrain (system : System) (id : ID) (now : Int) : System × Reply :=
  match ID.validate id with
  | some problem => (system, .failed problem)
  | none =>
    match system.pool.records.lookup id with
    | none => (system, .failed ⟨.notFound, id, ""⟩)
    | some ref =>
      let begun := system.pool.beginRetainedDrainLocked ref now
      ({ system with pool := begun.1, drains := system.drains ++ [(⟨ref, begun.2⟩, .pinned)] },
        .draining begun.2)

/-- The records of a Pod. -/
def Pool.podRecords (pool : Pool) (podNamespace podName : String) : List Nat :=
  (pool.records.entries.map Sigma.snd).filter fun ref =>
    (pool.heap ref).backend.podNamespace = podNamespace ∧
      (pool.heap ref).backend.podName = podName

/-- The loop of `BeginRetainedPodDrain`. -/
def Pool.beginRetainedDrains (now : Int) : Pool → List Nat → Pool × List RetainedDrain
  | pool, [] => (pool, [])
  | pool, ref :: refs =>
    let begun := pool.beginRetainedDrainLocked ref now
    let rest := Pool.beginRetainedDrains now begun.1 refs
    (rest.1, ⟨ref, begun.2⟩ :: rest.2)

/-- `BeginRetainedPodDrain`. -/
def System.beginRetainedPodDrain (system : System) (podNamespace podName : String) (now : Int) :
    System × Reply :=
  match (validateBackendMetadata "pod namespace" podNamespace false).or
      (validateBackendMetadata "pod name" podName false) with
  | some problem => (system, .failed problem)
  | none =>
    let begun := system.pool.beginRetainedDrains now (system.pool.podRecords podNamespace podName)
    let drains := begun.2.insertionSort fun left right =>
      left.snapshot.backend.backend.id ≤ right.snapshot.backend.backend.id
    ({ system with
        pool := begun.1
        drains := system.drains ++ drains.map fun drain => (drain, .pinned) },
      .drains (drains.map RetainedDrain.snapshot))

def System.putWait (system : System) (call : Nat) (waiting : Waiting) : System :=
  { system with waiting := system.waiting.insert call waiting }

/-- A call of `Wait` returns, or `WaitDrained` goes to its deferred block. -/
def System.endWait (system : System) (call : Nat) (waiting : Waiting) : System :=
  if waiting.pinned then
    system.putWait call { waiting with pc := .leaving }
  else { system with waiting := system.waiting.erase call }

/-- `WaitDrained` up to its loop. -/
def System.waitDrained (system : System) (call : Nat) (id : ID) : System × Reply :=
  match system.pool.find id with
  | .error problem => (system, .failed problem)
  | .ok ref =>
    if (system.pool.heap ref).draining = false then (system, .failed ⟨.notDraining, id, ""⟩)
    else
      ({ system with
          pool := system.pool.modify ref fun record =>
            { record with waiters := record.waiters + 1 }
          waiting := system.waiting.insert call ⟨ref, true, .turn⟩ }, .none)

/-- A turn of the loop of `Wait` or `WaitDrained`. -/
def System.waitTurn (system : System) (call : Nat) (waiting : Waiting) (now : Int) :
    System × Reply :=
  match system.pool.waitTurn waiting.record now with
  | .notDraining state =>
    (system.endWait call waiting, .failed ⟨.notDraining, state.backend.id, ""⟩)
  | .drained state => (system.endWait call waiting, .drained state)
  | .blocked changed =>
    (system.putWait call { waiting with pc := .asleep changed }, .none)

/-- One step, and what the call answers.  The answer is `none` where the event is not
possible in the state. -/
def System.exec (system : System) : Event → Option (System × Reply)
  | .controller call =>
    some ({ system with pool := (system.pool.controller call).1 }, (system.pool.controller call).2)
  | .observe id observation now =>
    some ({ system with pool := (system.pool.observe id now observation).1 },
      (system.pool.observe id now observation).2)
  | .acquire call owner model excluded =>
    if call ∈ system.acquiring then none
    else
      match acquireProblem model excluded with
      | some problem => some (system, .failed problem)
      | none =>
        some (system.putAcquire call ⟨owner, model, excluded, 0, none⟩, .none)
  | .choose call now choice =>
    (system.acquiring.lookup call).bind fun acquiring =>
      if acquiring.chosen = none then some (system.choose call acquiring now choice) else none
  | .take call now =>
    (system.acquiring.lookup call).bind fun acquiring =>
      acquiring.chosen.map fun chosen => system.take call acquiring chosen now
  | .acquireID id owner now => some (system.grant (system.pool.acquireID id owner now))
  | .release lease =>
    system.leases[lease]?.map fun (granted, hold) =>
      -- the exchange fails, and the call returns, where the flag is set already
      if hold = .held then
        ({ system with leases := system.leases.set lease (granted, .releasing) }, .none)
      else (system, .none)
  | .releaseLocked lease =>
    system.leases[lease]?.bind fun (granted, hold) =>
      if hold = .releasing then
        some ({ system with
          pool := system.pool.releaseLocked granted
          leases := system.leases.set lease (granted, .released) }, .none)
      else none
  | .beginRetainedDrain id now => some (system.beginRetainedDrain id now)
  | .beginRetainedPodDrain podNamespace podName now =>
    some (system.beginRetainedPodDrain podNamespace podName now)
  | .close drain =>
    system.drains[drain]?.map fun (retained, pin) =>
      if pin = .pinned then
        ({ system with drains := system.drains.set drain (retained, .closing) }, .none)
      else (system, .none)
  | .closeLocked drain =>
    system.drains[drain]?.bind fun (retained, pin) =>
      if pin = .closing then
        some ({ system with
          pool := system.pool.unpin retained.record
          drains := system.drains.set drain (retained, .closed) }, .none)
      else none
  | .wait call drain =>
    if call ∈ system.waiting then none
    else
      system.drains[drain]?.map fun (retained, pin) =>
        if pin = .pinned then
          (system.putWait call ⟨retained.record, false, .turn⟩, .none)
        else (system, .failed ⟨.drainClosed, "", ""⟩)
  | .waitDrained call id =>
    if call ∈ system.waiting then none else some (system.waitDrained call id)
  | .waitTurn call now =>
    (system.waiting.lookup call).bind fun waiting =>
      match waiting.pc with
      | .turn => some (system.waitTurn call waiting now)
      | .asleep changed =>
        if (system.pool.heap waiting.record).changed = changed then none
        else some (system.waitTurn call waiting now)
      | .leaving => none
  | .waitCanceled call now =>
    (system.waiting.lookup call).bind fun waiting =>
      match waiting.pc with
      | .asleep _ =>
        some (system.endWait call waiting,
          .waitCanceled ((system.pool.heap waiting.record).state now))
      | _ => none
  | .leave call =>
    (system.waiting.lookup call).bind fun waiting =>
      if waiting.pinned ∧ waiting.pc = .leaving then
        some ({ system with
          pool := system.pool.unpin waiting.record
          waiting := system.waiting.erase call }, .none)
      else none
  | .probeTargets =>
    some ({ system with probes := system.probes ++ system.pool.probeTargets }, .none)
  | .probeOne probe canceled err now =>
    system.probes[probe]?.map fun target =>
      let rest := { system with probes := system.probes.eraseIdx probe }
      if canceled then (rest, .probed ⟨target.backend.id, now, err, none⟩)
      else
        ({ rest with pool := (system.pool.probeOne target err now).1 },
          .probed (system.pool.probeOne target err now).2)

/-- One step. -/
def System.step (system : System) (event : Event) : Option System :=
  (system.exec event).map Prod.fst

/-- The leases whose release has not taken effect. -/
def System.unreleased (system : System) : List Lease :=
  (system.leases.filter fun entry => entry.2 ≠ .released).map Prod.fst

/-- The pins on a record: of the retained drains that have not been closed and of the calls
of `WaitDrained`. -/
def System.pins (system : System) (ref : Nat) : Int :=
  (system.drains.countP fun entry => entry.2 ≠ .closed ∧ entry.1.record = ref) +
    system.waiting.total fun waiting => if waiting.pinned ∧ waiting.record = ref then 1 else 0

end Streamweld.Backends
