import Streamweld.Backends.Types

/-!
# The pool of backends

`internal/backend/pool.go`, one function per block under `pool.mu`.

A record is an object with an identity: leases and retained drains keep a pointer to it,
and the map of the pool may meanwhile hold another record under the same identifier.  The
model has a heap of records; a pointer is an address in it, and addresses are never used
again.  The map holds addresses.

A channel that is closed and replaced to wake its waiters is the number of times that
this has happened.  A time is in nanoseconds after the zero time of Go.  The clock is read
outside the lock; its reading is an argument of the functions.
-/

namespace Streamweld.Backends

open Streamweld.Migrate

/-- `record`.  `revisions` counts without a bound what the field `revision` of the source,
a `uint64`, counts. -/
structure Record where
  backend : Backend
  revisions : Nat
  health : Health
  draining : Bool
  retirementDrain : Bool
  retired : Bool
  quarantinedUntil : Int
  lastProbeAt : Int
  lastFailureAt : Int
  lastProbeError : String
  leases : AList fun _ : Nat => String
  waiters : Int
  changed : Nat

/-- `Pool`, with the records that it has allocated. -/
structure Pool where
  quarantineWindow : Int
  heap : Nat → Record
  allocated : Nat
  records : AList fun _ : ID => Nat
  changed : Nat
  nextLeaseID : Nat

/-- `State`. -/
structure State where
  backend : Backend
  health : Health
  draining : Bool
  quarantined : Bool
  quarantinedUntil : Int
  inFlight : Nat
  lastProbeAt : Int
  lastFailureAt : Int
  lastProbeError : String
  deriving DecidableEq, Repr

/-- `Binding`. -/
structure Binding where
  leaseID : Nat
  owner : String
  deriving DecidableEq, Repr

/-- `DrainSnapshot`. -/
structure DrainSnapshot where
  backend : State
  bindings : List Binding
  deriving DecidableEq, Repr

/-- `Transition`. -/
structure Transition where
  backend : State
  changed : Bool
  bindings : List Binding
  deriving DecidableEq, Repr

/-- `Lease`.  Whether it has been released is in the state of the system. -/
structure Lease where
  record : Nat
  id : Nat
  owner : String
  backend : State
  deriving DecidableEq, Repr

/-! ## Records -/

/-- The field `revision`: each `revision++` wraps at `2 ^ 64`. -/
def Record.revision (record : Record) : Nat := record.revisions % 2 ^ 64

/-- The number of leases on the record. -/
def Record.inFlight (record : Record) : Nat := record.leases.entries.length

/-- `stateLocked`. -/
def Record.state (record : Record) (now : Int) : State where
  backend := record.backend
  health := record.health
  draining := record.draining
  quarantined := now < record.quarantinedUntil
  quarantinedUntil := record.quarantinedUntil
  inFlight := record.inFlight
  lastProbeAt := record.lastProbeAt
  lastFailureAt := record.lastFailureAt
  lastProbeError := record.lastProbeError

/-- `bindingsLocked`. -/
def Record.bindings (record : Record) : List Binding :=
  (record.leases.entries.map fun entry => ⟨entry.1, entry.2⟩).insertionSort
    fun left right => left.leaseID ≤ right.leaseID

/-- `eligibleLocked`. -/
def Record.eligible (record : Record) (excluded : List ID) (now : Int) : Bool :=
  !record.retired && record.health = .healthHealthy && !record.draining &&
    record.quarantinedUntil ≤ now && record.backend.id ∉ excluded

/-- `newRecord`. -/
def newRecord (backend : Backend) : Record where
  backend := backend
  revisions := 1
  health := .healthUnknown
  draining := false
  retirementDrain := false
  retired := false
  quarantinedUntil := 0
  lastProbeAt := 0
  lastFailureAt := 0
  lastProbeError := ""
  leases := ∅
  waiters := 0
  changed := 0

/-- `updateRecord`. -/
def updateRecord (record : Record) (backend : Backend) : Record :=
  if backendAddressChanged record.backend backend then
    { record with
      backend := backend
      revisions := record.revisions + 1
      health := .healthUnknown
      lastProbeAt := 0
      lastProbeError := "" }
  else { record with backend := backend }

/-- `retireLocked`. -/
def Record.retire (record : Record) : Record :=
  if record.draining then { record with retired := true }
  else { record with retired := true, draining := true, retirementDrain := true }

/-- `reviveLocked`. -/
def Record.revive (record : Record) : Record :=
  if record.retirementDrain then { record with draining := false, retirementDrain := false }
  else record

/-- What `replace` does with a record that exists.  `Upsert` does the same without
`admitNew`. -/
def Record.reinstate (record : Record) (backend : Backend) (admitNew : Bool) (now : Int) :
    Record :=
  let updated := updateRecord record backend
  let updated :=
    if record.retired then { updated with revisions := updated.revisions + 1 } else updated
  let updated :=
    if admitNew && (record.retired || backendAddressChanged record.backend backend) then
      { updated with health := .healthHealthy, lastProbeAt := now, lastProbeError := "" }
    else updated
  let updated := if record.retired then updated.revive else updated
  { updated with retired := false }

/-- A drain that was asked for explicitly and not by a retirement. -/
def Record.explicitDrain (record : Record) : Bool := record.draining && !record.retirementDrain

/-! ## The heap and the map -/

/-- The record at `ref` is overwritten. -/
def Pool.modify (pool : Pool) (ref : Nat) (f : Record → Record) : Pool :=
  { pool with heap := Function.update pool.heap ref (f (pool.heap ref)) }

/-- A new record is allocated and stored in the map. -/
def Pool.store (pool : Pool) (record : Record) : Pool :=
  { pool with
    heap := Function.update pool.heap pool.allocated record
    allocated := pool.allocated + 1
    records := pool.records.insert record.backend.id pool.allocated }

/-- `notifyLocked`. -/
def Pool.notifyLocked (pool : Pool) (ref : Nat) : Pool :=
  pool.modify ref fun record => { record with changed := record.changed + 1 }

/-- `notifySelectionLocked`. -/
def Pool.notifySelectionLocked (pool : Pool) (ref : Nat) : Pool :=
  { pool.notifyLocked ref with changed := pool.changed + 1 }

/-- `cleanupRetiredLocked`. -/
def Pool.cleanupRetiredLocked (pool : Pool) (ref : Nat) : Pool :=
  let record := pool.heap ref
  if record.retired ∧ record.inFlight = 0 ∧ record.waiters = 0 ∧
      pool.records.lookup record.backend.id = some ref then
    { pool with records := pool.records.erase record.backend.id }
  else pool

/-- The record under the identifier, if the controller still supplies it. -/
def Pool.current (pool : Pool) (id : ID) : Option Nat :=
  (pool.records.lookup id).filter fun ref => !(pool.heap ref).retired

/-- How the functions begin that work on one backend of the controller. -/
def Pool.find (pool : Pool) (id : ID) : Except PoolError Nat :=
  match ID.validate id with
  | some problem => .error problem
  | none =>
    match pool.current id with
    | none => .error ⟨.notFound, id, ""⟩
    | some ref => .ok ref

/-! ## The functions for the controller -/

/-- The loop of `replace` and the body of `Upsert` for one backend. -/
def Pool.replaceOne (admitNew : Bool) (now : ID → Int) (pool : Pool) (backend : Backend) : Pool :=
  match pool.records.lookup backend.id with
  | none =>
    let record := newRecord backend
    let record := if admitNew then { record with health := .healthHealthy } else record
    (pool.store record).notifySelectionLocked pool.allocated
  | some ref =>
    (pool.modify ref fun record =>
      record.reinstate backend admitNew (now backend.id)).notifySelectionLocked ref

/-- The controller no longer supplies the backend of a record. -/
def Pool.retire (pool : Pool) (ref : Nat) : Pool :=
  ((pool.modify ref Record.retire).notifySelectionLocked ref).cleanupRetiredLocked ref

/-- `Upsert`. -/
def Pool.upsert (pool : Pool) (backend : Backend) (now : Int) : Pool × Except PoolError State :=
  match normalizeBackend backend with
  | .error problem => (pool, .error problem)
  | .ok normalized =>
    let ref := (pool.records.lookup normalized.id).getD pool.allocated
    let pool := pool.replaceOne false (fun _ => now) normalized
    (pool, .ok ((pool.heap ref).state now))

/-- The first loop of `replace`. -/
def normalizeAll : Nat → List Backend → List Backend → Except PoolError (List Backend)
  | _, seen, [] => .ok seen
  | index, seen, backend :: rest =>
    match normalizeBackend backend with
    | .error problem =>
      .error { problem with context := "replace backend " ++ toString index ++ ": " }
    | .ok value =>
      if value.id ∈ seen.map Backend.id then
        .error ⟨.invalidBackend, "duplicate ID " ++ quoted value.id, ""⟩
      else normalizeAll (index + 1) (seen ++ [value]) rest

/-- The loop of `replace` over the records, for one of them: it is retired if it is missing
in the new set. -/
def Pool.retireUnless (seen : List ID) (pool : Pool) (entry : Sigma fun _ : ID => Nat) : Pool :=
  if entry.1 ∈ seen ∨ (pool.heap entry.2).retired then pool else pool.retire entry.2

def Pool.retireMissing (seen : List ID) (pool : Pool) : Pool :=
  pool.records.entries.foldl (Pool.retireUnless seen) pool

/-- `replace`, that is, `Replace` and `ReplaceReady`. -/
def Pool.replace (pool : Pool) (backends : List Backend) (admitNew : Bool) (now : ID → Int) :
    Pool × Except PoolError Unit :=
  match normalizeAll 0 [] backends with
  | .error problem => (pool, .error problem)
  | .ok normalized =>
    ((normalized.foldl (Pool.replaceOne admitNew now) pool).retireMissing
      (normalized.map Backend.id), .ok ())

/-- `Remove`. -/
def Pool.remove (pool : Pool) (id : ID) : Pool × Except PoolError Bool :=
  match ID.validate id with
  | some problem => (pool, .error problem)
  | none =>
    match pool.current id with
    | none => (pool, .ok false)
    | some ref => (pool.retire ref, .ok true)

/-- `ListRetained`. -/
def Pool.listRetained (pool : Pool) (now : Int) : List State :=
  (pool.records.entries.map fun entry => (pool.heap entry.2).state now).insertionSort
    fun left right => left.backend.id ≤ right.backend.id

/-- `List`. -/
def Pool.list (pool : Pool) (now : Int) : List State :=
  ((pool.records.entries.filter fun entry => !(pool.heap entry.2).retired).map
    fun entry => (pool.heap entry.2).state now).insertionSort
      fun left right => left.backend.id ≤ right.backend.id

/-- `Get`. -/
def Pool.get (pool : Pool) (id : ID) (now : Int) : Except PoolError State :=
  (pool.find id).map fun ref => (pool.heap ref).state now

/-- A pool before its first backend. -/
def emptyPool (quarantineWindow : Int) : Pool where
  quarantineWindow := quarantineWindow
  heap := fun _ => newRecord ⟨"", none, none, "", "", .verdictUnknown, "", ""⟩
  allocated := 0
  records := ∅
  changed := 0
  nextLeaseID := 0

/-- The numbers of `Config`, with durations in nanoseconds.  The functions in it have
defaults where they are missing, so that the checks on them never fail. -/
structure Config where
  quarantineWindow : Int := 0
  probeInterval : Int := 0
  probeTimeout : Int := 0
  probeConcurrency : Int := 0

/-- `configWithDefaults`. -/
def configWithDefaults (config : Config) : Config where
  quarantineWindow := if config.quarantineWindow = 0 then 5 * 10 ^ 9 else config.quarantineWindow
  probeInterval := if config.probeInterval = 0 then 10 * 10 ^ 9 else config.probeInterval
  probeTimeout := if config.probeTimeout = 0 then 2 * 10 ^ 9 else config.probeTimeout
  probeConcurrency := if config.probeConcurrency = 0 then 16 else config.probeConcurrency

/-- `validateConfig`. -/
def validateConfig (config : Config) : Option PoolError :=
  let problems :=
    [("quarantine window", config.quarantineWindow), ("probe interval", config.probeInterval),
      ("probe timeout", config.probeTimeout), ("probe concurrency", config.probeConcurrency)].filter
      fun setting => setting.2 ≤ 0
  if problems = [] then none
  else
    some ⟨.invalidConfig,
      "\n".intercalate (problems.map fun setting => setting.1 ++ " must be positive"), ""⟩

/-- `NewPool`. -/
def newPool (config : Config) (initial : List Backend) : Except PoolError Pool :=
  match validateConfig (configWithDefaults config) with
  | some problem => .error problem
  | none =>
    let empty := emptyPool (configWithDefaults config).quarantineWindow
    (empty.replace initial false fun _ => 0).2.map fun _ =>
      (empty.replace initial false fun _ => 0).1

/-! ## Health, quarantine and drains -/

/-- `SetHealth`. -/
def Pool.setHealth (pool : Pool) (id : ID) (health : Health) (now : Int) :
    Pool × Except PoolError Transition :=
  match pool.find id with
  | .error problem => (pool, .error problem)
  | .ok ref =>
    let changed := (pool.heap ref).health ≠ health
    let pool :=
      if changed then
        (pool.modify ref fun record =>
          { record with
            health := health
            lastProbeAt := now
            lastProbeError :=
              if health ≠ .healthUnhealthy then "" else record.lastProbeError
            }).notifySelectionLocked ref
      else pool
    let record := pool.heap ref
    (pool, .ok
      { backend := record.state now
        changed := changed
        bindings :=
          if health ≠ .healthHealthy ∧ record.inFlight ≠ 0 then record.bindings else [] })

/-- `MarkPassiveFailure`. -/
def Pool.markPassiveFailure (pool : Pool) (id : ID) (now : Int) :
    Pool × Except PoolError Transition :=
  match pool.find id with
  | .error problem => (pool, .error problem)
  | .ok ref =>
    let wasQuarantined := now < (pool.heap ref).quarantinedUntil
    let pool :=
      (pool.modify ref fun record =>
        { record with
          quarantinedUntil := max record.quarantinedUntil (now + pool.quarantineWindow)
          lastFailureAt := now }).notifySelectionLocked ref
    let record := pool.heap ref
    (pool, .ok
      { backend := record.state now
        changed := true
        bindings := if wasQuarantined then [] else record.bindings })

/-- The explicit drain of `MarkDraining` and of a retained drain. -/
def Pool.drainLocked (pool : Pool) (ref : Nat) : Pool :=
  let pool :=
    if (pool.heap ref).draining then pool
    else (pool.modify ref fun record =>
      { record with draining := true }).notifySelectionLocked ref
  pool.modify ref fun record => { record with retirementDrain := false }

/-- `MarkDraining`. -/
def Pool.markDraining (pool : Pool) (id : ID) (now : Int) :
    Pool × Except PoolError DrainSnapshot :=
  match pool.find id with
  | .error problem => (pool, .error problem)
  | .ok ref =>
    let pool := pool.drainLocked ref
    (pool, .ok ⟨(pool.heap ref).state now, (pool.heap ref).bindings⟩)

/-- `Undrain`. -/
def Pool.undrain (pool : Pool) (id : ID) (now : Int) : Pool × Except PoolError State :=
  match pool.find id with
  | .error problem => (pool, .error problem)
  | .ok ref =>
    let pool :=
      if (pool.heap ref).draining then
        (pool.modify ref fun record =>
          { record with draining := false, retirementDrain := false }).notifySelectionLocked ref
      else pool
    (pool, .ok ((pool.heap ref).state now))

/-- `beginRetainedDrainLocked`. -/
def Pool.beginRetainedDrainLocked (pool : Pool) (ref : Nat) (now : Int) : Pool × DrainSnapshot :=
  let pool := (pool.drainLocked ref).modify ref fun record =>
    { record with waiters := record.waiters + 1 }
  (pool, ⟨(pool.heap ref).state now, (pool.heap ref).bindings⟩)

/-- The end of a pin: `Close` of a retained drain and the deferred block of
`WaitDrained`. -/
def Pool.unpin (pool : Pool) (ref : Nat) : Pool :=
  (pool.modify ref fun record =>
    { record with waiters := record.waiters - 1 }).cleanupRetiredLocked ref

/-- What one turn of the loops of `Wait` and `WaitDrained` finds. -/
inductive WaitTurn where
  | notDraining (state : State)
  | drained (state : State)
  /-- wait until the channel of the record is closed -/
  | blocked (changed : Nat)

/-- One turn of the loops of `Wait` and `WaitDrained`. -/
def Pool.waitTurn (pool : Pool) (ref : Nat) (now : Int) : WaitTurn :=
  let record := pool.heap ref
  if record.draining = false then .notDraining (record.state now)
  else if record.inFlight = 0 then .drained (record.state now)
  else .blocked record.changed

/-! ## Leases -/

/-- `candidatesLocked` and `filterModelCandidates`. -/
def Pool.candidates (pool : Pool) (model : Option String) (excluded : List ID) (now : Int) :
    List State :=
  (((pool.records.entries.map Sigma.snd).filter fun ref =>
      (pool.heap ref).eligible excluded now).map fun ref => (pool.heap ref).state now).insertionSort
        (fun left right => left.backend.id ≤ right.backend.id) |>.filter fun candidate =>
          model.all (backendServesModel candidate.backend)

/-- `acquireLocked`. -/
def Pool.acquireLocked (pool : Pool) (ref : Nat) (owner : String) (now : Int) :
    Pool × Except PoolError Lease :=
  if pool.nextLeaseID = 2 ^ 64 - 1 then (pool, .error ⟨.leaseIDExhausted, "", ""⟩)
  else
    let id := pool.nextLeaseID + 1
    let pool := (({ pool with nextLeaseID := id } : Pool).modify ref fun record =>
      { record with leases := record.leases.insert id owner }).notifyLocked ref
    (pool, .ok ⟨ref, id, owner, (pool.heap ref).state now⟩)

/-- The second block of a turn of `acquire`: the chosen backend is checked again. -/
def Pool.eligibleChoice (pool : Pool) (chosen : ID) (model : Option String)
    (excluded : List ID) (now : Int) : Option Nat :=
  (pool.records.lookup chosen).filter fun ref =>
    (pool.heap ref).eligible excluded now &&
      model.all (backendServesModel (pool.heap ref).backend)

/-- `AcquireID`. -/
def Pool.acquireID (pool : Pool) (id : ID) (owner : String) (now : Int) :
    Pool × Except PoolError Lease :=
  match pool.find id with
  | .error problem => (pool, .error problem)
  | .ok ref =>
    if (pool.heap ref).eligible [] now then pool.acquireLocked ref owner now
    else (pool, .error ⟨.noEligibleBackend, id, ""⟩)

/-- The locked block of `Release`. -/
def Pool.releaseLocked (pool : Pool) (lease : Lease) : Pool :=
  if lease.id ∈ (pool.heap lease.record).leases then
    ((pool.modify lease.record fun record =>
      { record with leases := record.leases.erase lease.id }).notifyLocked
        lease.record).cleanupRetiredLocked lease.record
  else pool

/-! ## Probes -/

/-- `probeTarget`. -/
structure ProbeTarget where
  backend : Backend
  revision : Nat
  deriving DecidableEq, Repr

/-- `probeTargets`. -/
def Pool.probeTargets (pool : Pool) : List ProbeTarget :=
  (((pool.records.entries.map Sigma.snd).filter fun ref => !(pool.heap ref).retired).map fun ref =>
    ⟨(pool.heap ref).backend, (pool.heap ref).revision⟩).insertionSort
      fun left right => left.backend.id ≤ right.backend.id

/-- `ProbeResult`, with the text of the error of the probe. -/
structure ProbeResult where
  id : ID
  time : Int
  err : Option String
  applied : Option Transition
  deriving DecidableEq, Repr

/-- The record that a result of a probe is applied to. -/
def Pool.probed (pool : Pool) (target : ProbeTarget) : Option Nat :=
  (pool.current target.backend.id).filter fun ref =>
    (pool.heap ref).revision = target.revision

/-- The end of `probeOne`: the result of the probe becomes the health of the record. -/
def Pool.applyProbe (pool : Pool) (ref : Nat) (newHealth : Health) (err : Option String)
    (now : Int) : Pool × Transition :=
  let changed := (pool.heap ref).health ≠ newHealth
  let pool := pool.modify ref fun record =>
    { record with
      health := newHealth
      lastProbeAt := now
      lastProbeError := err.getD "" }
  let pool := if changed then pool.notifySelectionLocked ref else pool.notifyLocked ref
  let record := pool.heap ref
  (pool,
    { backend := record.state now
      changed := changed
      bindings :=
        if newHealth ≠ .healthHealthy ∧ record.inFlight ≠ 0 then record.bindings else [] })

/-- `probeOne` after the probe, unless the parent context was canceled.  The error has the
text that `boundedError` leaves of it. -/
def Pool.probeOne (pool : Pool) (target : ProbeTarget) (err : Option String) (now : Int) :
    Pool × ProbeResult :=
  match pool.probed target with
  | none => (pool, ⟨target.backend.id, now, err, none⟩)
  | some ref =>
    let newHealth := if err = none then Health.healthHealthy else .healthUnhealthy
    ((pool.applyProbe ref newHealth err now).1,
      ⟨target.backend.id, now, err, some (pool.applyProbe ref newHealth err now).2⟩)

end Streamweld.Backends
