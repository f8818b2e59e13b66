import Streamweld.Redis.Reservations

/-!
# Admission of a request with an idempotency key

`durableService.resolve` (`internal/proxy/durable.go`) on the Redis journal: it reserves
the key for a new stream, opens the stream, and gives the reservation back when it
cannot.  A command that it sends to Redis is executed and answered, or its answer is
lost; then it was executed, or is executed later, or never.

* The steps of `resolve`, between those of all other calls and of the expiry of keys.
* `retained_mapping_has_producer` says when no mapping to a stream without a producer is
  left behind.  `mapping_without_producer` is a run that leaves one: `Open` is executed,
  its answer and the lookup that would have found it are lost, and `ReleasePending`
  only recognises a reservation that is still pending.
-/

namespace Streamweld.Proxy

open Streamweld.Journal Streamweld.Lib Streamweld.Redis

variable {command : IdempotencyEvent} {delivery : Delivery} {call : OpenCall}

/-! ## The steps of `resolve` -/

/-- What becomes of a command. -/
inductive Delivery where
  | answered
  /-- The caller gets an error.  `done` says that its context is done, and `interrupted`
  is the error of a context that ends before the retry. -/
  | lost (executed : Bool) (err : RedisError) (done : Bool) (interrupted : Option RedisError)
  deriving DecidableEq, Repr

/-- `retryRedisOperation` sends the command again. -/
def Delivery.retries (retried : Bool) : Delivery → Bool
  | .answered => false
  | .lost _ err done interrupted =>
    !retried && retryableRedisOperationError done err && interrupted.isNone

/-- The error that `retryRedisOperation` returns when it does not send the command
again. -/
def Delivery.error (retried : Bool) : Delivery → Option RedisError
  | .answered => none
  | .lost _ err done interrupted =>
    if !retried && retryableRedisOperationError done err then some (interrupted.getD err)
    else some err

def Delivery.executes : Delivery → Bool
  | .answered => true
  | .lost executed _ _ _ => executed

/-- What `resolve` does after it has given a reservation back. -/
inductive AfterRelease where
  /-- another turn of the loop -/
  | again
  /-- it passes the request through without a journal -/
  | degraded
  | failed
  deriving DecidableEq, Repr

/-- What `resolve` returns. -/
inductive Resolution where
  | registered (id : StreamID)
  | existing (id : StreamID)
  | degraded
  | failed
  deriving DecidableEq, Repr

/-- A call of `Redis.Open`; its attempts share the nonce and the time. -/
structure OpenCall where
  id : StreamID
  nonce : Nonce
  now : Int
  deriving DecidableEq, Repr

/-- Where `resolve` is.  `retried` says that the command is sent for the second time.
`executed` is not in the code: the open script has been executed for the stream. -/
inductive ResolvePc where
  | loop
  | resolveOrCreate (id : StreamID) (nonce : Nonce) (retried : Bool)
  /-- `journal.State` of the stream that has the key -/
  | state (bound : StreamID)
  | removeIfBound (bound : StreamID) (retried : Bool)
  | acquireBackend (id : StreamID)
  | openStream (call : OpenCall) (retried executed : Bool)
  /-- `reconcileOpenReceipt` -/
  | reconcile (call : OpenCall) (err : RedisError) (executed : Bool)
  | releasePending (id : StreamID) (retried : Bool) (after : AfterRelease)
  | returned (resolution : Resolution)
  deriving DecidableEq, Repr

/-- The arguments of a call. -/
structure Admission where
  keyPrefix : String
  digest : IdempotencyDigest
  metadata : Meta
  /-- the retention of the journal, in nanoseconds -/
  ttl : Int
  deriving DecidableEq, Repr

def Admission.key (a : Admission) : String := idempotencyKey a.keyPrefix a.digest

def Admission.resolveEvent (a : Admission) (id : StreamID) (nonce : Nonce) (clock : Int) :
    IdempotencyEvent :=
  .resolve a.digest id (durationMillis (redisPendingTTL a.ttl)) nonce clock

/-- The reply to `ResolveOrCreate`: the bound stream and whether it was created. -/
def Admission.resolveReply (a : Admission) (db : Database) (id : StreamID) (nonce : Nonce)
    (clock : Int) : Except ScriptError (String × Bool) :=
  (redisResolveIdempotencyScript db a.key (idempotencyAssociationKey a.keyPrefix id) id
    (durationMillis (redisPendingTTL a.ttl)) nonce clock).2

/-- The metadata of the stream carries the digest. -/
def Admission.openMetadata (a : Admission) : Meta :=
  { a.metadata with idempotency := some a.digest }

def Admission.openEvent (a : Admission) (call : OpenCall) (clock : Int) : IdempotencyEvent :=
  .openStream call.id a.openMetadata call.now (durationMillis a.ttl) call.nonce clock

def Admission.openReply (a : Admission) (db : Database) (call : OpenCall) (clock : Int) :
    Except ScriptError Unit :=
  (redisOpenScript db
    (openArgs a.keyPrefix call.id a.openMetadata call.now (durationMillis a.ttl) call.nonce)
    clock).2

/-- A call of `resolve`, the database, and the commands that the call gave up on and that
may still be executed.  `generated` are the identifiers that the call has generated, and
`taken` those of the streams that others have opened. -/
structure Resolver where
  db : Database
  pc : ResolvePc
  inFlight : List IdempotencyEvent
  generated : List StreamID
  taken : List StreamID

def Resolver.start : Resolver :=
  { db := .empty, pc := .loop, inFlight := [], generated := [], taken := [] }

/-- The answer of `journal.State`. -/
inductive StateAnswer where
  | found
  | notFound
  | expired
  | failed
  deriving DecidableEq, Repr

inductive ResolveEvent where
  /-- a script of another call, or an expiry -/
  | other (event : IdempotencyEvent)
  /-- a command that was given up is executed -/
  | late (index : Nat)
  /-- the loop starts over with a new identifier -/
  | generate (id : StreamID) (nonce : Nonce)
  /-- the context is done, or no identifier could be generated -/
  | expire
  /-- the pending command is sent -/
  | send (clock : Int) (delivery : Delivery)
  | answer (answer : StateAnswer)
  /-- a backend was acquired, and `Open` is called -/
  | acquired (nonce : Nonce) (now : Int)
  | unavailable
  /-- the lookup of the receipt is answered or not -/
  | lookup (answered : Bool)
  deriving DecidableEq, Repr

/-- Nobody else reserves or opens a stream under an identifier of this call. -/
def foreign (generated : List StreamID) : IdempotencyEvent → Bool
  | .openStream id _ _ _ _ _ | .resolve _ id _ _ _ => decide (id ∉ generated)
  | _ => true

def opened : IdempotencyEvent → List StreamID
  | .openStream id _ _ _ _ _ => [id]
  | _ => []

/-- A command reaches the server, or is on its way. -/
def Resolver.send (keyPrefix : String) (s : Resolver) (command : IdempotencyEvent)
    (delivery : Delivery) (pc : ResolvePc) : Resolver :=
  if delivery.executes then { s with db := s.db.step keyPrefix command, pc := pc }
  else { s with inFlight := command :: s.inFlight, pc := pc }

def AfterRelease.pc : AfterRelease → ResolvePc
  | .again => .loop
  | .degraded => .returned .degraded
  | .failed => .returned .failed

/-- The loop goes on when `Open` fails with `ErrAlreadyExists` or
`ErrIdempotencyReservationLost`. -/
def afterOpenError : ScriptError → AfterRelease
  | .alreadyExists | .reservationLost => .again
  | _ => .degraded

/-- The answer to `ResolveOrCreate` decides. -/
def afterResolve (id : StreamID) : Except ScriptError (String × Bool) → ResolvePc
  | .error _ => .returned .degraded
  | .ok (bound, created) => if created then .acquireBackend id else .state bound

/-- The answer to `Open` decides. -/
def afterOpen (id : StreamID) : Except ScriptError Unit → ResolvePc
  | .ok () => .returned (.registered id)
  | .error err => .releasePending id false (afterOpenError err)

/-- Where `resolve` is after an attempt to open the stream. -/
def OpenCall.next (call : OpenCall) (delivery : Delivery) (retried executed : Bool)
    (reply : Except ScriptError Unit) : ResolvePc :=
  let executed := executed || (delivery.executes && reply.isOk)
  if delivery.retries retried then .openStream call true executed
  else
    match delivery.error retried with
    | some err => .reconcile call err executed
    | none => afterOpen call.id reply

/-- An open script that is executed late may be the one that the call waits for. -/
def ResolvePc.afterLate (keyPrefix : String) (db : Database) :
    IdempotencyEvent → ResolvePc → ResolvePc
  | .openStream id metadata now ttl nonce clock, .openStream call retried executed =>
    .openStream call retried (executed || (decide (call.id = id) &&
      (redisOpenScript db (openArgs keyPrefix id metadata now ttl nonce) clock).2.isOk))
  | .openStream id metadata now ttl nonce clock, .reconcile call err executed =>
    .reconcile call err (executed || (decide (call.id = id) &&
      (redisOpenScript db (openArgs keyPrefix id metadata now ttl nonce) clock).2.isOk))
  | _, pc => pc

/-- The command that `resolve` is about to send is delivered. -/
def Resolver.deliver (a : Admission) (s : Resolver) (clock : Int) (delivery : Delivery) :
    Option Resolver :=
  match s.pc with
  | .resolveOrCreate id nonce retried =>
    some <| s.send a.keyPrefix (a.resolveEvent id nonce clock) delivery <|
      if delivery.retries retried then .resolveOrCreate id nonce true
      else if (delivery.error retried).isSome then .returned .degraded
      else afterResolve id (a.resolveReply s.db id nonce clock)
  | .removeIfBound bound retried =>
    some <| s.send a.keyPrefix (.removeIfBound a.digest bound) delivery <|
      if delivery.retries retried then .removeIfBound bound true
      else if (delivery.error retried).isSome then .returned .degraded
      else .loop
  | .openStream call retried executed =>
    some <| s.send a.keyPrefix (a.openEvent call clock) delivery <|
      call.next delivery retried executed (a.openReply s.db call clock)
  | .releasePending id retried after =>
    some <| s.send a.keyPrefix (.releasePending a.digest id) delivery <|
      if delivery.retries retried then .releasePending id true after else after.pc
  | _ => none

/-- The receipt of `Open` is in the hash of the stream. -/
def OpenCall.Recorded (db : Database) (call : OpenCall) : Prop :=
  (db.streams call.id).state.map (·.openOpNonce) = some call.nonce

instance (db : Database) (call : OpenCall) : Decidable (call.Recorded db) := by
  unfold OpenCall.Recorded
  infer_instance

/-- One step. -/
def Resolver.step (a : Admission) (s : Resolver) : ResolveEvent → Option Resolver
  | .other event =>
    if foreign s.generated event then
      some { s with
        db := s.db.step a.keyPrefix event
        taken := opened event ++ s.taken }
    else none
  | .late index =>
    match s.inFlight[index]? with
    | none => none
    | some command =>
      some { s with
        db := s.db.step a.keyPrefix command
        pc := s.pc.afterLate a.keyPrefix s.db command
        inFlight := s.inFlight.eraseIdx index }
  | .generate id nonce =>
    match s.pc with
    | .loop =>
      if id ∉ s.generated ∧ id ∉ s.taken then
        some { s with
          pc := .resolveOrCreate id nonce false
          generated := id :: s.generated }
      else none
    | _ => none
  | .expire =>
    match s.pc with
    | .loop => some { s with pc := .returned .failed }
    | _ => none
  | .send clock delivery => s.deliver a clock delivery
  | .answer answer =>
    match s.pc with
    | .state bound =>
      match answer with
      | .found => some { s with pc := .returned (.existing bound) }
      | .notFound => some { s with pc := .loop }
      | .expired => some { s with pc := .removeIfBound bound false }
      | .failed => some { s with pc := .returned .degraded }
    | _ => none
  | .acquired nonce now =>
    match s.pc with
    | .acquireBackend id => some { s with pc := .openStream ⟨id, nonce, now⟩ false false }
    | _ => none
  | .unavailable =>
    match s.pc with
    | .acquireBackend id => some { s with pc := .releasePending id false .failed }
    | _ => none
  | .lookup answered =>
    match s.pc with
    | .reconcile call err _ =>
      if redisMutationResultMayBeAmbiguous err = true ∧ answered = true ∧ call.Recorded s.db then
        some { s with pc := .returned (.registered call.id) }
      else some { s with pc := .releasePending call.id false .degraded }
    | _ => none

/-! ## The condition -/

/-- The call whose open script has been executed and that `resolve` has not given up. -/
def ResolvePc.executing : ResolvePc → Option OpenCall
  | .openStream call _ true | .reconcile call _ true => some call
  | _ => none

/-- The stream that the call is opening or has opened. -/
def ResolvePc.opening : ResolvePc → Option StreamID
  | .openStream call _ _ | .reconcile call _ _ => some call.id
  | .returned (.registered id) => some id
  | _ => none

/-- The error that `reconcileOpenReceipt` starts from leads to a lookup. -/
def ResolvePc.looksUp : ResolvePc → Bool
  | .reconcile _ err _ => redisMutationResultMayBeAmbiguous err
  | _ => true

/-- The arguments of an open script. -/
def openArgsOf (keyPrefix : String) : IdempotencyEvent → Option OpenArgs
  | .openStream id metadata now ttl nonce _ => some (openArgs keyPrefix id metadata now ttl nonce)
  | _ => none

/-- An open script that has been executed is reported: a further attempt that is answered
finds the stream, and otherwise the lookup is made, is answered and finds its hash.  An
open script that is executed when `resolve` no longer waits for it does not find the
reservation. -/
def OpenReported (a : Admission) (s : Resolver) : ResolveEvent → Prop
  | .send _ delivery =>
    ∀ call ∈ s.pc.executing, delivery = .answered →
      call.Recorded s.db ∧ (s.db.streams call.id).events.isSome = true
  | .lookup answered =>
    ∀ call ∈ s.pc.executing, s.pc.looksUp = true ∧ answered = true ∧ call.Recorded s.db
  | .late index =>
    ∀ args ∈ (s.inFlight[index]?).bind (openArgsOf a.keyPrefix),
      s.pc.opening = some args.id ∨ promotable s.db args = none
  | _ => True

instance (a : Admission) (s : Resolver) (event : ResolveEvent) :
    Decidable (OpenReported a s event) := by
  cases event <;> unfold OpenReported <;> infer_instance

/-! ## The invariant -/

/-- The stream that the call may have promoted and has not given up. -/
def ResolvePc.promoted : ResolvePc → Option StreamID
  | .openStream call _ true | .reconcile call _ true => some call.id
  | .returned (.registered id) => some id
  | _ => none

/-- A mapping names a stream that another call has opened, or the one that this call has
promoted. -/
structure ResolveInv (a : Admission) (s : Resolver) : Prop where
  mapped : ∀ id, Mapped a.keyPrefix s.db a.digest id → id ∈ s.taken ∨ s.pc.promoted = some id
  fresh : ∀ id ∈ s.generated, id ∉ s.taken

section Invariant

variable {a : Admission} {s s' : Resolver}

theorem ResolveInv.start : ResolveInv a .start where
  mapped := fun _ hmapped => by cases hmapped
  fresh := fun _ hid => by cases hid

/-- The call goes on without a command. -/
theorem ResolveInv.goto (h : ResolveInv a s) {pc : ResolvePc}
    (hpc : ∀ id, s.pc.promoted = some id → pc.promoted = some id) :
    ResolveInv a { s with pc := pc } where
  mapped := fun id hmapped => (h.mapped id hmapped).imp_right (hpc id)
  fresh := h.fresh

/-- A command of the call is executed. -/
theorem ResolveInv.execute (h : ResolveInv a s) {pc : ResolvePc}
    {inFlight : List IdempotencyEvent}
    (hpc : ∀ id, s.pc.promoted = some id → pc.promoted = some id)
    (hpromotes : ∀ id, command.Promotes a.keyPrefix s.db a.key id → pc.promoted = some id) :
    ResolveInv a { s with db := s.db.step a.keyPrefix command, pc := pc, inFlight := inFlight } where
  mapped := fun id hmapped => by
    rcases hmapped.of_step with hbefore | hnew
    · exact (h.mapped id hbefore).imp_right (hpc id)
    · exact .inr (hpromotes id hnew)
  fresh := h.fresh

/-- A command of the call is delivered. -/
theorem ResolveInv.send (h : ResolveInv a s) {pc : ResolvePc}
    (hpc : ∀ id, s.pc.promoted = some id → pc.promoted = some id)
    (hpromotes : delivery.executes = true →
      ∀ id, command.Promotes a.keyPrefix s.db a.key id → pc.promoted = some id) :
    ResolveInv a (s.send a.keyPrefix command delivery pc) := by
  unfold Resolver.send
  split
  · rename_i hexecutes
    exact h.execute hpc (hpromotes hexecutes)
  · exact ⟨(h.goto hpc).mapped, h.fresh⟩

/-- Only an open script promotes, and it succeeds. -/
theorem promotes_openEvent {db : Database} {clock : Int} {key : String} {id : StreamID}
    (h : (a.openEvent call clock).Promotes a.keyPrefix db key id) :
    id = call.id ∧ a.openReply db call clock = .ok () := by
  obtain ⟨metadata, now, ttl, nonce, clock', hevent, hok, _⟩ := h
  cases hevent
  exact ⟨rfl, hok⟩

/-- A further attempt to open a stream that is there succeeds. -/
theorem openReply_recorded {db : Database} (hrecorded : call.Recorded db)
    (hevents : (db.streams call.id).events.isSome = true) (clock : Int) :
    a.openReply db call clock = .ok () := by
  unfold OpenCall.Recorded at hrecorded
  obtain ⟨state, hstate, hnonce⟩ := Option.map_eq_some_iff.mp hrecorded
  unfold Admission.openReply redisOpenScript
  simp only [openArgs, hstate, hnonce, if_true]
  rw [if_neg (by simpa [Option.isNone_iff_eq_none, ← Option.isSome_iff_ne_none] using hevents)]

/-- An attempt that has been executed, or follows one that has, leaves the call waiting
for the stream, unless it is answered with an error. -/
theorem OpenCall.next_promoted {retried executed : Bool} {reply : Except ScriptError Unit}
    (hexecuted : executed = true ∨ delivery.executes = true ∧ reply = .ok ())
    (hanswered : delivery = .answered → reply = .ok ()) :
    (call.next delivery retried executed reply).promoted = some call.id := by
  have hghost : (executed || (delivery.executes && reply.isOk)) = true := by
    rcases hexecuted with hexecuted | ⟨hexecutes, hok⟩
    · rw [hexecuted, Bool.true_or]
    · rw [hexecutes, hok, Bool.true_and, Except.isOk, Except.toBool, Bool.or_true]
  unfold OpenCall.next
  rw [hghost]
  cases delivery with
  | answered =>
    rw [hanswered rfl]
    rfl
  | lost wasExecuted err done interrupted =>
    have herror : ∃ reported, (Delivery.lost wasExecuted err done interrupted).error retried =
        some reported := by
      unfold Delivery.error
      dsimp only
      split <;> exact ⟨_, rfl⟩
    obtain ⟨reported, hreported⟩ := herror
    rw [hreported]
    dsimp only
    split <;> rfl

/-- `Open` is delivered. -/
theorem ResolveInv.deliverOpen (h : ResolveInv a s) {retried executed : Bool}
    (hpc : s.pc = .openStream call retried executed) {clock : Int}
    (hreported : OpenReported a s (.send clock delivery)) :
    ResolveInv a (s.send a.keyPrefix (a.openEvent call clock) delivery
      (call.next delivery retried executed (a.openReply s.db call clock))) := by
  refine h.send (fun id hid => ?_) (fun hexecutes id hpromotes => ?_)
  · rw [hpc] at hid
    cases executed with
    | true =>
      cases hid
      refine OpenCall.next_promoted (.inl rfl) fun hanswered => ?_
      obtain ⟨hrecorded, hevents⟩ := hreported call (by rw [hpc]; rfl) hanswered
      exact openReply_recorded hrecorded hevents clock
    | false => cases hid
  · obtain ⟨rfl, hok⟩ := promotes_openEvent hpromotes
    exact OpenCall.next_promoted (.inr ⟨hexecutes, hok⟩) fun _ => hok

/-- The command that is sent is delivered. -/
theorem ResolveInv.deliver (h : ResolveInv a s) {clock : Int}
    (hreported : OpenReported a s (.send clock delivery))
    (hdeliver : s.deliver a clock delivery = some s') : ResolveInv a s' := by
  have hnone {command : IdempotencyEvent} {pc : ResolvePc}
      (hpc : s.pc.promoted = none)
      (hcommand : ∀ db key id, ¬ command.Promotes a.keyPrefix db key id) :
      ResolveInv a (s.send a.keyPrefix command delivery pc) :=
    h.send (fun id hid => by rw [hpc] at hid; cases hid)
      (fun _ id hpromotes => absurd hpromotes (hcommand _ _ id))
  cases hpc : s.pc with
  | openStream call retried executed =>
    simp only [Resolver.deliver, hpc] at hdeliver
    cases hdeliver
    exact h.deliverOpen hpc hreported
  | resolveOrCreate id nonce retried =>
    simp only [Resolver.deliver, hpc] at hdeliver
    cases hdeliver
    exact hnone (by rw [hpc]; rfl) fun _ _ _ ⟨_, _, _, _, _, hevent, _⟩ => by cases hevent
  | removeIfBound bound retried =>
    simp only [Resolver.deliver, hpc] at hdeliver
    cases hdeliver
    exact hnone (by rw [hpc]; rfl) fun _ _ _ ⟨_, _, _, _, _, hevent, _⟩ => by cases hevent
  | releasePending id retried after =>
    simp only [Resolver.deliver, hpc] at hdeliver
    cases hdeliver
    exact hnone (by rw [hpc]; rfl) fun _ _ _ ⟨_, _, _, _, _, hevent, _⟩ => by cases hevent
  | _ =>
    simp only [Resolver.deliver, hpc] at hdeliver
    cases hdeliver

/-- A command that was given up is executed. -/
theorem ResolveInv.late (h : ResolveInv a s) {index : Nat}
    (hcommand : s.inFlight[index]? = some command) (hreported : OpenReported a s (.late index))
    (inFlight : List IdempotencyEvent) :
    ResolveInv a { s with
      db := s.db.step a.keyPrefix command
      pc := s.pc.afterLate a.keyPrefix s.db command
      inFlight := inFlight } := by
  refine h.execute (fun id hid => ?_) (fun id hpromotes => ?_)
  · unfold ResolvePc.afterLate
    split
    · rename_i call retried executed hpc
      rw [hpc] at hid
      cases executed with
      | true => exact hid
      | false => cases hid
    · rename_i call err executed hpc
      rw [hpc] at hid
      cases executed with
      | true => exact hid
      | false => cases hid
    · exact hid
  · obtain ⟨metadata, now, ttl, nonce, clock, rfl, hok, hpromotable⟩ := hpromotes
    rcases hreported (openArgs a.keyPrefix id metadata now ttl nonce)
      (by rw [hcommand]; rfl) with hopening | hnone
    · -- The stream is the one that the call waits for.
      change s.pc.opening = some id at hopening
      cases hpc : s.pc with
      | openStream call retried executed =>
        rw [hpc] at hopening
        cases hopening
        simp [ResolvePc.afterLate, hok, Except.isOk, Except.toBool, ResolvePc.promoted]
      | reconcile call err executed =>
        rw [hpc] at hopening
        cases hopening
        simp [ResolvePc.afterLate, hok, Except.isOk, Except.toBool, ResolvePc.promoted]
      | returned resolution =>
        rw [hpc] at hopening
        cases resolution with
        | registered other => exact hopening
        | _ => cases hopening
      | _ =>
        rw [hpc] at hopening
        cases hopening
    · rw [hnone] at hpromotable
      cases hpromotable

/-- A script of another call is executed. -/
theorem ResolveInv.other (h : ResolveInv a s) {event : IdempotencyEvent}
    (hforeign : foreign s.generated event = true) :
    ResolveInv a { s with db := s.db.step a.keyPrefix event, taken := opened event ++ s.taken } where
  mapped := fun id hmapped => by
    rcases hmapped.of_step with hbefore | ⟨_, _, _, _, _, rfl, _⟩
    · exact (h.mapped id hbefore).imp_left (List.mem_append_right _)
    · exact .inl (List.mem_append_left _ (List.mem_singleton_self id))
  fresh := fun id hid htaken => by
    rcases List.mem_append.mp htaken with hopened | htaken
    · cases event with
      | openStream other metadata now ttl nonce clock =>
        cases List.mem_singleton.mp hopened
        exact of_decide_eq_true hforeign hid
      | _ => cases hopened
    · exact h.fresh id hid htaken

/-- The step lemma. -/
theorem ResolveInv.step (h : ResolveInv a s) {event : ResolveEvent}
    (hreported : OpenReported a s event) (hstep : s.step a event = some s') :
    ResolveInv a s' := by
  have hgoto {pc : ResolvePc} (hpc : s.pc.promoted = none) : ResolveInv a { s with pc := pc } :=
    h.goto fun id hid => by rw [hpc] at hid; cases hid
  cases event with
  | other event =>
    simp only [Resolver.step] at hstep
    split at hstep
    · rename_i hforeign
      cases hstep
      exact h.other hforeign
    · cases hstep
  | late index =>
    simp only [Resolver.step] at hstep
    split at hstep
    · cases hstep
    · rename_i command hcommand
      cases hstep
      exact h.late hcommand hreported _
  | generate id nonce =>
    simp only [Resolver.step] at hstep
    split at hstep
    · rename_i hpc
      split at hstep
      · rename_i hnew
        cases hstep
        refine ⟨(hgoto (by rw [hpc]; rfl)).mapped, fun other hother => ?_⟩
        rcases List.mem_cons.mp hother with rfl | hother
        · exact hnew.2
        · exact h.fresh other hother
      · cases hstep
    · cases hstep
  | expire =>
    simp only [Resolver.step] at hstep
    split at hstep
    · rename_i hpc
      cases hstep
      exact hgoto (by rw [hpc]; rfl)
    · cases hstep
  | send clock delivery => exact h.deliver hreported hstep
  | answer answer =>
    simp only [Resolver.step] at hstep
    split at hstep
    · rename_i bound hpc
      cases answer <;> cases hstep <;> exact hgoto (by rw [hpc]; rfl)
    · cases hstep
  | acquired nonce now =>
    simp only [Resolver.step] at hstep
    split at hstep
    · rename_i id hpc
      cases hstep
      exact hgoto (by rw [hpc]; rfl)
    · cases hstep
  | unavailable =>
    simp only [Resolver.step] at hstep
    split at hstep
    · rename_i id hpc
      cases hstep
      exact hgoto (by rw [hpc]; rfl)
    · cases hstep
  | lookup answered =>
    simp only [Resolver.step] at hstep
    split at hstep
    · rename_i call err executed hpc
      split at hstep
      · cases hstep
        refine h.goto fun id hid => ?_
        rw [hpc] at hid
        cases executed with
        | true => exact hid
        | false => cases hid
      · rename_i hmissed
        cases hstep
        refine hgoto ?_
        rw [hpc]
        cases executed with
        | true =>
          obtain ⟨hlooks, hanswered⟩ := hreported call (by rw [hpc]; rfl)
          rw [hpc] at hlooks
          exact absurd ⟨hlooks, hanswered⟩ hmissed
        | false => rfl
    · cases hstep

end Invariant

/-! ## The result -/

/-- In every run in which an executed open script is reported, the digest key holds no
mapping to a stream that the call has generated and not registered when it returns. -/
theorem retained_mapping_has_producer (a : Admission) (events : List ResolveEvent) (s : Resolver)
    (hrun : run (Resolver.step a) .start events = some s)
    (hreported : Along (Resolver.step a) (OpenReported a) .start events)
    (resolution : Resolution) (hreturned : s.pc = .returned resolution)
    (id : StreamID) (hid : id ∈ s.generated) (hregistered : resolution ≠ .registered id) :
    ¬ Mapped a.keyPrefix s.db a.digest id := by
  intro hmapped
  have h : ResolveInv a s := inv_of_run_along
    (fun _ _ _ hinv hgood hstep => hinv.step hgood hstep) .start hreported hrun
  rcases h.mapped id hmapped with htaken | hpromoted
  · exact h.fresh id hid htaken
  · rw [hreturned] at hpromoted
    cases resolution with
    | registered other =>
      cases hpromoted
      exact hregistered rfl
    | _ => cases hpromoted

/-- A call for one key. -/
def sampleAdmission : Admission :=
  { keyPrefix := "streamweld", digest := "d", metadata := sampleMeta, ttl := 600 * 10 ^ 9 }

/-- The deadline of the call passes while `Open` is on its way, and the lookup is not
answered. -/
def lostOpen (executed : Bool) : List ResolveEvent :=
  [.generate sampleID "n1", .send 0 .answered, .acquired "n2" 1,
    .send 2 (.lost executed .deadlineExceeded true none), .lookup false, .send 3 .answered]

/-- The command was not executed: the reservation is given back. -/
theorem retained_mapping_has_producer_of_lostOpen :
    ∃ s, run (Resolver.step sampleAdmission) .start (lostOpen false) = some s ∧
      s.pc = .returned .degraded ∧ sampleID ∈ s.generated ∧
      ¬ Mapped "streamweld" s.db "d" sampleID := by
  refine ⟨_, rfl, rfl, by decide, ?_⟩
  exact retained_mapping_has_producer sampleAdmission (lostOpen false) _ rfl (by decide +kernel)
    .degraded rfl sampleID (by decide) (by decide)

/-- The command was executed: the call passes the request through without a journal, and
the key leads every later request to the stream that nobody writes. -/
theorem mapping_without_producer :
    ∃ s, run (Resolver.step sampleAdmission) .start (lostOpen true) = some s ∧
      s.pc = .returned .degraded ∧ sampleID ∈ s.generated ∧
      Mapped "streamweld" s.db "d" sampleID ∧
      sampleAdmission.resolveReply s.db otherID "n3" 4 = .ok (sampleID, false) ∧
      (s.db.streams sampleID).state.map (·.status) = some .statusOpen :=
  ⟨_, rfl, rfl, by decide, rfl, rfl, rfl⟩

end Streamweld.Proxy
