import Streamweld.Lib.Transition
import Streamweld.Migrate.Seam
import Streamweld.Redis.Store

/-!
# Mutation receipts

`Redis.Append`, `Close` and `MarkDegraded` run a script that stores a receipt
under the nonce of the operation.  A client that does not know whether its script
ran repeats it under the same nonce, and `reconcileMutationReceipt` looks the
receipt up after an ambiguous error.

The system of this module is a database whose mutations are executed any number
of times and in any order: an execution names a nonce, and a nonce stands for one
invocation on one stream.  Streams are opened and touched, and keys expire, in
between.  The log records every execution with its reply and with whether it
changed the entries or the last sequence of the stream.

`ReceiptInv` is the invariant of one nonce whose receipt does not expire, and
`LastSeqInv` the one of a stream.  `redis_mutations_exactly_once` is the result.
`reconcile_misses_refused_retry` shows why it does not say that the
reconciliation always finds a commit: after an error that is not ambiguous the
receipt is not looked up.
-/

namespace Streamweld.Redis

open Streamweld.Journal Streamweld.Lib

variable {nonce : Nonce} {s s' : ReceiptSystem}

/-! ## The client -/

/-- The errors that the Redis client reports, as the retry rules tell them apart. -/
inductive RedisError where
  | canceled
  | deadlineExceeded
  | eof
  | unexpectedEOF
  | closed
  | network
  /-- an error reply of the server -/
  | reply (message : String)
  deriving DecidableEq, Repr

/-- `unicode.ToUpper`, as far as its result is an ASCII rune: besides the ASCII letters, the
dotless i and the long s have one. -/
def toUpper (c : Char) : Char :=
  if c.toNat = 0x131 then 'I' else if c.toNat = 0x17f then 'S' else c.toUpper

/-- The error replies that a retry may get over. -/
def retryableReplies : List String :=
  ["LOADING ", "TRYAGAIN ", "CLUSTERDOWN ", "MASTERDOWN ", "READONLY ", "NOREPLICAS "]

/-- `retryableRedisOperationError`; `done` says that the context is done. -/
def retryableRedisOperationError (done : Bool) : RedisError → Bool
  | .canceled | .deadlineExceeded => false
  | .eof | .unexpectedEOF | .closed | .network => !done
  | .reply message =>
    !done && retryableReplies.any fun start =>
      start.toList.isPrefixOf ((Migrate.trimSpace message.toList).map toUpper)

/-- `retryRedisOperation`: the operation runs once more after a retryable error.
`interrupted` is the error of a context that ends during the backoff. -/
def retryRedisOperation {α : Type} (done : Bool) (first : Except RedisError α)
    (interrupted : Option RedisError) (second : Except RedisError α) : Except RedisError α :=
  match first with
  | .ok result => .ok result
  | .error err =>
    if retryableRedisOperationError done err then
      match interrupted with
      | some err => .error err
      | none => second
    else .error err

/-- `redisMutationResultMayBeAmbiguous`. -/
def redisMutationResultMayBeAmbiguous (err : RedisError) : Bool :=
  err = .canceled || err = .deadlineExceeded || retryableRedisOperationError false err

/-- The name of an operation in a receipt. -/
def Mutation.name : Mutation → String
  | .append => "append"
  | .close => "close"
  | .degrade => "degrade"

/-- What `reconcileMutationReceipt` returns. -/
structure Reconciled where
  result : Nat
  committed : Bool
  err : Option JournalError
  deriving DecidableEq, Repr

/-- `reconcileMutationReceipt`.  `lookup` is the error of a `GET` that was not
answered. -/
def reconcileMutationReceipt (keys : StreamKeys) (id : StreamID) (nonce : Nonce)
    (operation : Mutation) (operationErr : RedisError) (lookup : Option RedisError) :
    Reconciled :=
  if redisMutationResultMayBeAmbiguous operationErr = false then ⟨0, false, none⟩
  else
    match lookup with
    | some _ =>
      ⟨0, false, some {
        sentinel := .redisError
        context := "read " ++ operation.name ++ " mutation receipt: " }⟩
    | none =>
      match keys.receipts nonce with
      | none => ⟨0, false, none⟩
      | some receipt =>
        if receipt.operation ≠ operation then
          ⟨0, false, some {
            sentinel := .errInvalidEntry
            detail := "stream " ++ id ++ " " ++ operation.name ++
              " receipt has an invalid operation" }⟩
        else ⟨receipt.result, true, none⟩

/-! ## The system -/

/-- What a nonce stands for: one call of `Append`, `Close` or `MarkDegraded`. -/
inductive Invocation where
  | append (kind : EntryKind) (payload : RawMessage)
  | close (kind : EntryKind) (payload : RawMessage)
  | degrade
  deriving DecidableEq, Repr

def Invocation.operation : Invocation → Mutation
  | .append _ _ => .append
  | .close _ _ => .close
  | .degrade => .degrade

/-- The script of an invocation, with the arguments that the method passes. -/
def Invocation.script (nonce : Nonce) (now : Int) :
    Invocation → StreamKeys → StreamKeys × Except ScriptError Nat
  | .append kind payload => redisAppendReceiptScript nonce now kind payload
  | .close kind payload =>
    redisCloseReceiptScript nonce now kind payload (statusForTerminal kind)
      (decide (kind ≠ .kindStopped))
  | .degrade => redisDegradeReceiptScript nonce now

/-- An execution of a mutation script. -/
structure Execution where
  nonce : Nonce
  reply : Except ScriptError Nat
  changed : Bool

/-- A database with the log of the executions so far. -/
structure ReceiptSystem where
  db : Database
  log : List Execution

/-- Change the keys of one stream. -/
def Database.mapKeys (db : Database) (id : StreamID) (f : StreamKeys → StreamKeys) :
    Database :=
  { db with streams := Function.update db.streams id (f (db.streams id)) }

@[simp] theorem mapKeys_self (db : Database) (id : StreamID) (f : StreamKeys → StreamKeys) :
    (db.mapKeys id f).streams id = f (db.streams id) :=
  Function.update_self ..

theorem mapKeys_of_ne (db : Database) {id id' : StreamID} (f : StreamKeys → StreamKeys)
    (h : id' ≠ id) : (db.mapKeys id f).streams id' = db.streams id' :=
  Function.update_of_ne h ..

/-- The end of the life time of one key. -/
inductive Expiry where
  | state (id : StreamID)
  | events (id : StreamID)
  | tombstone (id : StreamID)
  | receipt (id : StreamID) (nonce : Nonce)
  | string (key : String)
  deriving DecidableEq, Repr

def Database.expire (db : Database) : Expiry → Database
  | .state id => db.mapKeys id fun keys => { keys with state := none }
  | .events id => db.mapKeys id fun keys => { keys with events := none }
  | .tombstone id => db.mapKeys id fun keys => { keys with tombstone := false }
  | .receipt id nonce => db.mapKeys id fun keys =>
      { keys with receipts := Function.update keys.receipts nonce none }
  | .string key => { db with strings := delString db.strings key }

/-- A step of the system. -/
inductive ReceiptEvent where
  | execute (nonce : Nonce) (now clock : Int)
  | openStream (args : OpenArgs) (clock : Int)
  | touch (id : StreamID) (clock : Int)
  | expire (expiry : Expiry)
  deriving DecidableEq, Repr

/-- The entries and the last sequence differ. -/
def entriesChanged (keys keys' : StreamKeys) : Bool :=
  decide (keys'.events ≠ keys.events) ||
    decide (keys'.state.map (·.lastSeq) ≠ keys.state.map (·.lastSeq))

section System

variable (target : Nonce → StreamID) (invocation : Nonce → Invocation)

/-- One step of the system. -/
def ReceiptSystem.step (s : ReceiptSystem) : ReceiptEvent → ReceiptSystem
  | .execute nonce now clock =>
    let id := target nonce
    let (db, reply) := mutateStream s.db id nonce ((invocation nonce).script nonce now) clock
    { db := db
      log := s.log ++ [{
        nonce := nonce
        reply := reply
        changed := entriesChanged (s.db.streams id) (db.streams id) }] }
  | .openStream args clock => { s with db := (redisOpenScript s.db args clock).1 }
  | .touch id clock => { s with db := (redisTouchScript s.db id clock).1 }
  | .expire expiry => { s with db := s.db.expire expiry }

/-- The system after a list of steps. -/
def ReceiptSystem.runAll (s : ReceiptSystem) (events : List ReceiptEvent) : ReceiptSystem :=
  events.foldl (ReceiptSystem.step target invocation) s

end System

def ReceiptSystem.start : ReceiptSystem := { db := .empty, log := [] }

/-! ## What a script can do -/

/-- The last message of the stream carries the last sequence of the state. -/
def LastSeqInv (keys : StreamKeys) : Prop :=
  ∀ state events, keys.state = some state → keys.events = some events →
    (events.getLast?).map (·.seq) = some state.lastSeq

/-- The script found the receipt of its nonce: it changes no entry and answers from
the receipt. -/
structure FoundReceipt (nonce : Nonce) (operation : Mutation) (keys keys' : StreamKeys)
    (reply : Except ScriptError Nat) (receipt : Receipt) : Prop where
  found : keys.receipts nonce = some receipt
  state : keys'.state = keys.state
  events : keys'.events = keys.events
  receipts : keys'.receipts = keys.receipts
  reply_eq : receipt.operation = operation → reply = .ok receipt.result

/-- The script committed: it stores the receipt of its nonce. -/
structure CommittedReceipt (nonce : Nonce) (operation : Mutation) (keys keys' : StreamKeys)
    (reply : Except ScriptError Nat) (result : Nat) : Prop where
  missing : keys.receipts nonce = none
  reply_eq : reply = .ok result
  receipts : keys'.receipts = Function.update keys.receipts nonce (some ⟨operation, result⟩)
  lastSeq : LastSeqInv keys → LastSeqInv keys'

/-- The three outcomes of a mutation script. -/
inductive ScriptOutcome (nonce : Nonce) (operation : Mutation) (keys : StreamKeys) :
    StreamKeys → Except ScriptError Nat → Prop where
  | found {keys' reply} (receipt : Receipt)
      (h : FoundReceipt nonce operation keys keys' reply receipt) :
      ScriptOutcome nonce operation keys keys' reply
  | refused (err : ScriptError) (h : keys.receipts nonce = none) :
      ScriptOutcome nonce operation keys keys (.error err)
  | committed {keys' reply} (result : Nat)
      (h : CommittedReceipt nonce operation keys keys' reply result) :
      ScriptOutcome nonce operation keys keys' reply

/-- A body keeps the agreement of the last message with the state. -/
def KeepsLastSeq (body : StateHash → List XMessage →
    Except ScriptError (StateHash × List XMessage × Nat)) : Prop :=
  ∀ state events state' events' result, body state events = .ok (state', events', result) →
    (events.getLast?).map (·.seq) = some state.lastSeq →
      (events'.getLast?).map (·.seq) = some state'.lastSeq

theorem mutationScript_outcome (operation : Mutation) (nonce : Nonce)
    {body : StateHash → List XMessage → Except ScriptError (StateHash × List XMessage × Nat)}
    (hbody : KeepsLastSeq body) (keys : StreamKeys) :
    ScriptOutcome nonce operation keys (mutationScript operation nonce body keys).1
      (mutationScript operation nonce body keys).2 := by
  unfold mutationScript
  cases hreceipt : keys.receipts nonce with
  | some receipt =>
    dsimp only
    split
    · rename_i hconflict
      exact .found receipt ⟨hreceipt, rfl, rfl, rfl, fun hop => absurd hop hconflict⟩
    · exact .found receipt ⟨hreceipt, by simp, by simp, by simp, fun _ => rfl⟩
  | none =>
    dsimp only
    split
    · exact .refused _ hreceipt
    · exact .refused _ hreceipt
    · rename_i state events hstate hevents
      split
      · exact .refused _ hreceipt
      · rename_i state' events' result hok
        refine .committed result ⟨hreceipt, rfl, rfl, ?_⟩
        intro h st es hst hes
        cases hst
        cases hes
        exact hbody _ _ _ _ _ hok (h state events hstate hevents)

theorem xadd_ok {events events' : List XMessage} {message : XMessage}
    (h : xadd events message = .ok events') : events' = events ++ [message] := by
  unfold xadd at h
  split at h
  · split at h
    · cases h
      rfl
    · cases h
  · split at h
    · cases h
      rfl
    · cases h

/-- What a committed entry does to the state and the messages. -/
theorem commitEntry_ok {now : Int} {kind : EntryKind} {payload : RawMessage}
    {state state' : StateHash} {events events' : List XMessage} {seq : Nat}
    (h : commitEntry now kind payload state events = .ok (state', events', seq)) :
    state.degraded = false ∧ state.status = .statusOpen ∧ seq = state.lastSeq + 1 ∧
      state' = { state with lastSeq := seq, updatedAt := now } ∧
      events' = events ++ [{ seq := seq, kind := kind, payload := payload, ts := now }] := by
  unfold commitEntry at h
  split at h
  · cases h
  · rename_i hdegraded
    split at h
    · cases h
    · rename_i hstatus
      split at h
      · cases h
      · rename_i n hn
        have hseq : n = state.lastSeq + 1 := by
          unfold luaTostring at hn
          split at hn
          · exact (Option.some.inj hn).symm
          · cases hn
        split at h
        · cases h
        · rename_i es hadd
          cases h
          exact ⟨by simpa using hdegraded, by simpa using hstatus, hseq, rfl, xadd_ok hadd⟩

/-- Every invocation has one of the three outcomes. -/
theorem Invocation.outcome (invocation : Invocation) (nonce : Nonce) (now : Int)
    (keys : StreamKeys) :
    ScriptOutcome nonce invocation.operation keys (invocation.script nonce now keys).1
      (invocation.script nonce now keys).2 := by
  cases invocation with
  | append kind payload =>
    refine mutationScript_outcome .append nonce ?_ keys
    intro state events state' events' seq hok _
    obtain ⟨_, _, _, rfl, rfl⟩ := commitEntry_ok hok
    simp
  | close kind payload =>
    refine mutationScript_outcome .close nonce ?_ keys
    intro state events state' events' seq hok _
    dsimp only at hok
    split at hok
    · cases hok
    · rename_i hcommit
      cases hok
      obtain ⟨_, _, _, rfl, rfl⟩ := commitEntry_ok hcommit
      simp
  | degrade =>
    refine mutationScript_outcome .degrade nonce ?_ keys
    intro state events state' events' seq hok hlast
    dsimp only at hok
    split at hok
    · cases hok
    · split at hok
      · cases hok
        exact hlast
      · cases hok
        exact hlast

/-! ## The invariants -/

section Invariants

variable {target : Nonce → StreamID} {invocation : Nonce → Invocation}

/-- No receipt is written, and the last messages agree with the states as before. -/
structure KeepsReceipts (streams streams' : StreamID → StreamKeys) : Prop where
  receipts : ∀ id, (streams' id).receipts = (streams id).receipts
  lastSeq : (∀ id, LastSeqInv (streams id)) → ∀ id, LastSeqInv (streams' id)

theorem KeepsReceipts.refl (streams : StreamID → StreamKeys) : KeepsReceipts streams streams :=
  ⟨fun _ => rfl, id⟩

/-- The last messages agree with the states after a change of one stream. -/
theorem lastSeq_update {streams : StreamID → StreamKeys} (h : ∀ id, LastSeqInv (streams id))
    (changed : StreamID) (keys : StreamKeys) (hkeys : LastSeqInv keys) (id : StreamID) :
    LastSeqInv (Function.update streams changed keys id) := by
  by_cases hid : id = changed
  · subst hid
    rwa [Function.update_self]
  · rw [Function.update_of_ne hid]
    exact h id

theorem KeepsReceipts.update {streams : StreamID → StreamKeys} {changed : StreamID}
    {keys : StreamKeys} (hreceipts : keys.receipts = (streams changed).receipts)
    (hlast : LastSeqInv (streams changed) → LastSeqInv keys) :
    KeepsReceipts streams (Function.update streams changed keys) := by
  refine ⟨fun id => ?_, fun h => lastSeq_update h _ _ (hlast (h changed))⟩
  by_cases hid : id = changed
  · subst hid
    rw [Function.update_self, hreceipts]
  · rw [Function.update_of_ne hid]

theorem redisOpenScript_keeps (db : Database) (args : OpenArgs) (clock : Int) :
    KeepsReceipts db.streams (redisOpenScript db args clock).1.streams := by
  unfold redisOpenScript
  dsimp only
  split
  · split
    · split
      · exact .refl _
      · exact .update rfl id
    · exact .refl _
  · split
    · exact .refl _
    · split
      · exact .refl _
      · refine .update rfl fun _ state events hstate hevents => ?_
        cases hstate
        cases hevents
        rfl

/-- `Touch` changes nothing but tombstones and life times. -/
theorem redisTouchScript_keeps (db : Database) (touched : StreamID) (clock : Int) :
    KeepsReceipts db.streams (redisTouchScript db touched clock).1.streams := by
  unfold redisTouchScript
  dsimp only
  split
  · exact .refl _
  · split
    · exact .refl _
    · split
      · exact .refl _
      · exact .update rfl id

/-- Only the expiry of a receipt removes it. -/
theorem Database.expire_receipts (db : Database) {expiry : Expiry} {id : StreamID}
    (h : expiry ≠ .receipt id nonce) :
    ((db.expire expiry).streams id).receipts nonce = (db.streams id).receipts nonce := by
  cases expiry with
  | state other | events other | tombstone other =>
    by_cases hid : id = other
    · subst hid
      rw [Database.expire, mapKeys_self]
    · rw [Database.expire, mapKeys_of_ne _ _ hid]
  | receipt other nonce' =>
    by_cases hid : id = other
    · subst hid
      have hne : nonce ≠ nonce' := fun heq => h (by rw [heq])
      rw [Database.expire, mapKeys_self]
      exact Function.update_of_ne hne ..
    · rw [Database.expire, mapKeys_of_ne _ _ hid]
  | string key => rfl

/-- The invariant of one nonce: before its receipt exists no execution succeeded or
changed anything; afterwards there is one execution that stored the receipt, all
later ones repeat its reply, and no other one changed anything. -/
structure ReceiptInv (target : Nonce → StreamID) (invocation : Nonce → Invocation)
    (nonce : Nonce) (s : ReceiptSystem) : Prop where
  missing : (s.db.streams (target nonce)).receipts nonce = none →
    ∀ execution ∈ s.log, execution.nonce = nonce →
      (∃ err, execution.reply = .error err) ∧ execution.changed = false
  stored : ∀ receipt, (s.db.streams (target nonce)).receipts nonce = some receipt →
    receipt.operation = (invocation nonce).operation ∧
    ∃ before commit after, s.log = before ++ commit :: after ∧ commit.nonce = nonce ∧
      commit.reply = .ok receipt.result ∧
      (∀ execution ∈ before, execution.nonce = nonce →
        (∃ err, execution.reply = .error err) ∧ execution.changed = false) ∧
      (∀ execution ∈ after, execution.nonce = nonce →
        execution.reply = .ok receipt.result ∧ execution.changed = false)

theorem ReceiptInv.start (nonce : Nonce) :
    ReceiptInv target invocation nonce ReceiptSystem.start :=
  ⟨by simp [ReceiptSystem.start], by simp [ReceiptSystem.start, Database.empty,
    StreamKeys.empty]⟩

/-- A step that leaves the receipt and the log alone. -/
theorem ReceiptInv.of_same (h : ReceiptInv target invocation nonce s)
    (hreceipt : (s'.db.streams (target nonce)).receipts nonce =
      (s.db.streams (target nonce)).receipts nonce) (hlog : s'.log = s.log) :
    ReceiptInv target invocation nonce s' := by
  constructor
  · rw [hreceipt, hlog]
    exact h.missing
  · rw [hreceipt, hlog]
    exact h.stored

/-- An execution under another nonce. -/
theorem ReceiptInv.other (h : ReceiptInv target invocation nonce s)
    (hreceipt : (s'.db.streams (target nonce)).receipts nonce =
      (s.db.streams (target nonce)).receipts nonce) {execution : Execution}
    (hlog : s'.log = s.log ++ [execution]) (hother : execution.nonce ≠ nonce) :
    ReceiptInv target invocation nonce s' := by
  constructor
  · rw [hreceipt, hlog]
    intro hnone e he hnonce
    rcases List.mem_append.mp he with he | he
    · exact h.missing hnone e he hnonce
    · rw [List.mem_singleton.mp he] at hnonce
      exact absurd hnonce hother
  · rw [hreceipt, hlog]
    intro receipt hsome
    obtain ⟨hop, before, commit, after, heq, hcommit, hreply, hbefore, hafter⟩ :=
      h.stored receipt hsome
    refine ⟨hop, before, commit, after ++ [execution], by simp [heq], hcommit, hreply, hbefore,
      ?_⟩
    intro e he hnonce
    rcases List.mem_append.mp he with he | he
    · exact hafter e he hnonce
    · rw [List.mem_singleton.mp he] at hnonce
      exact absurd hnonce hother

/-- An execution under the nonce itself. -/
theorem ReceiptInv.execute (h : ReceiptInv target invocation nonce s) {keys' : StreamKeys}
    {reply : Except ScriptError Nat} (houtcome : ScriptOutcome nonce (invocation nonce).operation
      (s.db.streams (target nonce)) keys' reply) (hkeys : s'.db.streams (target nonce) = keys')
    (hlog : s'.log = s.log ++ [⟨nonce, reply,
      entriesChanged (s.db.streams (target nonce)) keys'⟩]) :
    ReceiptInv target invocation nonce s' := by
  have hsame {keys' : StreamKeys} (hstate : keys'.state = (s.db.streams (target nonce)).state)
      (hevents : keys'.events = (s.db.streams (target nonce)).events) :
      entriesChanged (s.db.streams (target nonce)) keys' = false := by
    simp [entriesChanged, hstate, hevents]
  cases houtcome with
  | found receipt hfound =>
    -- The reply repeats the receipt, and the execution joins the later ones.
    obtain ⟨hop, before, commit, after, heq, hcommit, hreply, hbefore, hafter⟩ :=
      h.stored receipt hfound.found
    constructor
    · rw [hkeys, hfound.receipts, hfound.found]
      intro hnone
      cases hnone
    · intro receipt' hreceipt'
      rw [hkeys, hfound.receipts, hfound.found] at hreceipt'
      cases hreceipt'
      rw [heq, List.append_assoc, List.cons_append] at hlog
      refine ⟨hop, before, commit, _, hlog, hcommit, hreply, hbefore, ?_⟩
      intro e he hnonce
      rcases List.mem_append.mp he with he | he
      · exact hafter e he hnonce
      · rw [List.mem_singleton.mp he]
        exact ⟨hfound.reply_eq hop, hsame hfound.state hfound.events⟩
  | refused err hmissing =>
    constructor
    · intro _ e he hnonce
      rw [hlog] at he
      rcases List.mem_append.mp he with he | he
      · exact h.missing hmissing e he hnonce
      · rw [List.mem_singleton.mp he]
        exact ⟨⟨err, rfl⟩, hsame rfl rfl⟩
    · intro receipt hreceipt
      rw [hkeys, hmissing] at hreceipt
      cases hreceipt
  | committed result hcommitted =>
    constructor
    · rw [hkeys, hcommitted.receipts, Function.update_self]
      intro hnone
      cases hnone
    · intro receipt hreceipt
      rw [hkeys, hcommitted.receipts, Function.update_self] at hreceipt
      cases hreceipt
      exact ⟨rfl, s.log, _, [], hlog, rfl, hcommitted.reply_eq,
        h.missing hcommitted.missing, by simp⟩

/-- A script under another nonce leaves the receipt alone. -/
theorem ScriptOutcome.receipts_ne {other : Nonce} {operation : Mutation} {keys keys' : StreamKeys}
    {reply : Except ScriptError Nat} (h : ScriptOutcome nonce operation keys keys' reply)
    (hne : other ≠ nonce) : keys'.receipts other = keys.receipts other := by
  cases h with
  | found receipt hfound => rw [hfound.receipts]
  | refused err hmissing => rfl
  | committed result hcommitted =>
    rw [hcommitted.receipts, Function.update_of_ne hne]

theorem ScriptOutcome.lastSeq {operation : Mutation} {keys keys' : StreamKeys}
    {reply : Except ScriptError Nat} (h : ScriptOutcome nonce operation keys keys' reply)
    (hinv : LastSeqInv keys) : LastSeqInv keys' := by
  cases h with
  | found receipt hfound =>
    intro state events hstate hevents
    rw [hfound.state] at hstate
    rw [hfound.events] at hevents
    exact hinv state events hstate hevents
  | refused err hmissing => exact hinv
  | committed result hcommitted => exact hcommitted.lastSeq hinv

/-- The step lemma: a step that does not expire the receipt keeps the invariant of
the nonce. -/
theorem ReceiptInv.step (h : ReceiptInv target invocation nonce s) {event : ReceiptEvent}
    (hlive : event ≠ .expire (.receipt (target nonce) nonce)) :
    ReceiptInv target invocation nonce (s.step target invocation event) := by
  cases event with
  | execute nonce' now clock =>
    have houtcome := (invocation nonce').outcome nonce' now (s.db.streams (target nonce'))
    by_cases hnonce : nonce' = nonce
    · subst hnonce
      exact h.execute houtcome (Function.update_self ..)
        (by simp [ReceiptSystem.step, mutateStream])
    · refine h.other ?_ rfl hnonce
      by_cases htarget : target nonce = target nonce'
      · simp only [ReceiptSystem.step, mutateStream, htarget, Function.update_self]
        exact houtcome.receipts_ne (Ne.symm hnonce)
      · simp only [ReceiptSystem.step, mutateStream]
        rw [Function.update_of_ne htarget]
  | openStream args clock =>
    exact h.of_same (congrFun ((redisOpenScript_keeps s.db args clock).receipts _) nonce) rfl
  | touch id clock =>
    exact h.of_same (congrFun ((redisTouchScript_keeps s.db id clock).receipts _) nonce) rfl
  | expire expiry =>
    exact h.of_same (s.db.expire_receipts fun hexpired => hlive (by rw [hexpired])) rfl

/-- Every step keeps the agreement of the last message with the state. -/
theorem lastSeq_step (h : ∀ id, LastSeqInv (s.db.streams id)) (event : ReceiptEvent)
    (id : StreamID) : LastSeqInv ((s.step target invocation event).db.streams id) := by
  cases event with
  | execute nonce now clock =>
    exact lastSeq_update h _ _ (((invocation nonce).outcome nonce now _).lastSeq (h _)) id
  | openStream args clock => exact (redisOpenScript_keeps s.db args clock).lastSeq h id
  | touch touched clock => exact (redisTouchScript_keeps s.db touched clock).lastSeq h id
  | expire expiry =>
    cases expiry with
    | state => exact lastSeq_update h _ _ (fun _ _ hstate _ => by cases hstate) id
    | events => exact lastSeq_update h _ _ (fun _ _ _ hevents => by cases hevents) id
    | tombstone expired | receipt expired =>
      refine lastSeq_update h expired _ ?_ id
      exact h expired
    | string key => exact h id

/-- The run lemma of a nonce. -/
theorem ReceiptInv.runAll (events : List ReceiptEvent)
    (hlive : .expire (.receipt (target nonce) nonce) ∉ events)
    (h : ReceiptInv target invocation nonce s) :
    ReceiptInv target invocation nonce (s.runAll target invocation events) := by
  induction events generalizing s with
  | nil => exact h
  | cons event events ih =>
    rw [List.mem_cons, not_or] at hlive
    exact ih hlive.2 (h.step (Ne.symm hlive.1))

/-- The run lemma of the streams. -/
theorem lastSeq_runAll (events : List ReceiptEvent) (h : ∀ id, LastSeqInv (s.db.streams id)) :
    ∀ id, LastSeqInv ((s.runAll target invocation events).db.streams id) := by
  induction events generalizing s with
  | nil => exact h
  | cons event events ih => exact ih (lastSeq_step h event)

/-- At most one execution of the nonce changed anything. -/
theorem ReceiptInv.changed_le_one (h : ReceiptInv target invocation nonce s) :
    (s.log.filter fun execution => execution.nonce = nonce ∧ execution.changed = true).length ≤
      1 := by
  have hnone {log : List Execution}
      (hlog : ∀ execution ∈ log, execution.nonce = nonce → execution.changed = false) :
      (log.filter fun execution => execution.nonce = nonce ∧ execution.changed = true) = [] := by
    rw [List.filter_eq_nil_iff]
    intro execution hmem hchanged
    simp only [decide_eq_true_eq] at hchanged
    rw [hlog execution hmem hchanged.1] at hchanged
    cases hchanged.2
  cases hreceipt : (s.db.streams (target nonce)).receipts nonce with
  | none =>
    rw [hnone fun e he hn => (h.missing hreceipt e he hn).2]
    exact Nat.zero_le 1
  | some receipt =>
    obtain ⟨_, before, commit, after, heq, _, _, hbefore, hafter⟩ := h.stored receipt hreceipt
    rw [heq, List.filter_append, hnone fun e he hn => (hbefore e he hn).2, List.nil_append,
      List.filter_cons, hnone fun e he hn => (hafter e he hn).2]
    split <;> simp

/-- The executions after a successful one repeat its reply. -/
theorem ReceiptInv.reply_repeats (h : ReceiptInv target invocation nonce s) {i j : Nat}
    (hij : i < j) {execution later : Execution} (hi : s.log[i]? = some execution)
    (hj : s.log[j]? = some later) (hnonce : execution.nonce = nonce)
    (hlater : later.nonce = nonce) {result : Nat} (hok : execution.reply = .ok result) :
    later.reply = .ok result := by
  cases hreceipt : (s.db.streams (target nonce)).receipts nonce with
  | none =>
    obtain ⟨⟨err, herr⟩, _⟩ :=
      h.missing hreceipt execution (List.mem_of_getElem? hi) hnonce
    rw [herr] at hok
    cases hok
  | some receipt =>
    obtain ⟨_, before, commit, after, heq, _, hcommit, hbefore, hafter⟩ :=
      h.stored receipt hreceipt
    rw [heq] at hi hj
    -- The first successful execution is the commit or comes after it.
    have hstart : before.length ≤ i := by
      by_contra hlt
      rw [List.getElem?_append_left (by omega)] at hi
      obtain ⟨⟨err, herr⟩, _⟩ := hbefore execution (List.mem_of_getElem? hi) hnonce
      rw [herr] at hok
      cases hok
    have hend : later ∈ after := by
      rw [List.getElem?_append_right (by omega)] at hj
      obtain ⟨k, hk⟩ : ∃ k, j - before.length = k + 1 := ⟨j - before.length - 1, by omega⟩
      rw [hk, List.getElem?_cons_succ] at hj
      exact List.mem_of_getElem? hj
    have hresult : execution.reply = .ok receipt.result := by
      rw [List.getElem?_append_right hstart] at hi
      rcases Nat.eq_zero_or_pos (i - before.length) with hzero | hpos
      · rw [hzero, List.getElem?_cons_zero] at hi
        cases hi
        exact hcommit
      · obtain ⟨k, hk⟩ : ∃ k, i - before.length = k + 1 := ⟨i - before.length - 1, by omega⟩
        rw [hk, List.getElem?_cons_succ] at hi
        exact (hafter execution (List.mem_of_getElem? hi) hnonce).1
    rw [hok] at hresult
    cases hresult
    exact (hafter later hend hlater).1

/-- The receipt exists exactly when an execution of the nonce succeeded. -/
theorem ReceiptInv.stored_iff (h : ReceiptInv target invocation nonce s) (result : Nat) :
    (∃ execution ∈ s.log, execution.nonce = nonce ∧ execution.reply = .ok result) ↔
      (s.db.streams (target nonce)).receipts nonce =
        some ⟨(invocation nonce).operation, result⟩ := by
  constructor
  · rintro ⟨execution, hmem, hnonce, hok⟩
    cases hreceipt : (s.db.streams (target nonce)).receipts nonce with
    | none =>
      obtain ⟨⟨err, herr⟩, _⟩ := h.missing hreceipt execution hmem hnonce
      rw [herr] at hok
      cases hok
    | some receipt =>
      obtain ⟨hop, before, commit, after, heq, _, hcommit, hbefore, hafter⟩ :=
        h.stored receipt hreceipt
      have hresult : execution.reply = .ok receipt.result := by
        rw [heq, List.mem_append, List.mem_cons] at hmem
        rcases hmem with hmem | rfl | hmem
        · obtain ⟨⟨err, herr⟩, _⟩ := hbefore execution hmem hnonce
          rw [herr] at hok
          cases hok
        · exact hcommit
        · exact (hafter execution hmem hnonce).1
      rw [hok] at hresult
      cases hresult
      rw [← hop]
  · intro hreceipt
    obtain ⟨_, before, commit, after, heq, hnonce, hcommit, _⟩ := h.stored _ hreceipt
    exact ⟨commit, by rw [heq]; simp, hnonce, hcommit⟩

end Invariants

/-! ## The results -/

/-- Mutations are exactly-once per nonce while the receipt of the nonce lives: at most
one execution changes the stream, the executions after a successful one repeat its
reply, a reconciliation whose lookup is made and answered finds exactly the commits
that happened, none is ever invented, an error that is not ambiguous reports nothing, and the
last sequence of a stream is the identifier of its last entry. -/
theorem redis_mutations_exactly_once (target : Nonce → StreamID)
    (invocation : Nonce → Invocation) (nonce : Nonce) (events : List ReceiptEvent)
    (hlive : .expire (.receipt (target nonce) nonce) ∉ events) :
    let s := ReceiptSystem.start.runAll target invocation events
    let keys := s.db.streams (target nonce)
    let reconcile := reconcileMutationReceipt keys (target nonce) nonce
      (invocation nonce).operation
    (s.log.filter fun execution =>
        execution.nonce = nonce ∧ execution.changed = true).length ≤ 1 ∧
    (∀ (i j : Nat) execution later result, i < j → s.log[i]? = some execution →
      s.log[j]? = some later → execution.nonce = nonce → later.nonce = nonce →
      execution.reply = .ok result → later.reply = .ok result) ∧
    (∀ err, redisMutationResultMayBeAmbiguous err = true → ∀ result,
      reconcile err none = ⟨result, true, none⟩ ↔
        ∃ execution ∈ s.log, execution.nonce = nonce ∧ execution.reply = .ok result) ∧
    (∀ err lookup, (reconcile err lookup).committed = true →
      ∃ execution ∈ s.log, execution.nonce = nonce ∧
        execution.reply = .ok (reconcile err lookup).result) ∧
    (∀ err lookup, redisMutationResultMayBeAmbiguous err = false →
      reconcile err lookup = ⟨0, false, none⟩) ∧
    (∀ id state messages, (s.db.streams id).state = some state →
      (s.db.streams id).events = some messages →
      (messages.getLast?).map (·.seq) = some state.lastSeq) := by
  intro s keys reconcile
  have hinv : ReceiptInv target invocation nonce s :=
    (ReceiptInv.start nonce).runAll events hlive
  have hlookup {receipt : Receipt} (hreceipt : keys.receipts nonce = some receipt) :
      receipt.operation = (invocation nonce).operation :=
    (hinv.stored receipt hreceipt).1
  refine ⟨hinv.changed_le_one, ?_, ?_, ?_, fun err lookup hclear => if_pos hclear, ?_⟩
  · intro i j execution later result hij hi hj hnonce hlater hok
    exact hinv.reply_repeats hij hi hj hnonce hlater hok
  · intro err hambiguous result
    rw [hinv.stored_iff]
    simp only [reconcile, reconcileMutationReceipt, hambiguous, Bool.true_eq_false, if_false]
    cases hreceipt : keys.receipts nonce with
    | none => simp
    | some receipt =>
      have hop := hlookup hreceipt
      obtain ⟨operation, stored⟩ := receipt
      subst hop
      simp
  · intro err lookup hcommitted
    rw [hinv.stored_iff]
    simp only [reconcile, reconcileMutationReceipt] at hcommitted ⊢
    split at hcommitted
    · cases hcommitted
    · rename_i hambiguous
      rw [if_neg hambiguous]
      cases lookup with
      | some lookupErr => cases hcommitted
      | none =>
        cases hreceipt : keys.receipts nonce with
        | none =>
          rw [hreceipt] at hcommitted
          cases hcommitted
        | some receipt =>
          have hop := hlookup hreceipt
          obtain ⟨operation, stored⟩ := receipt
          subst hop
          simp
  · exact lastSeq_runAll events (fun id state messages hs _ => by cases hs)

/-- The arguments of an `Open` without an idempotency key. -/
def sampleOpen : OpenArgs :=
  { id := sampleID
    metadata := sampleMeta
    payload := openPayload sampleID sampleMeta
    now := 0
    ttlMs := 600000
    nonce := "open"
    association := idempotencyAssociationKey "streamweld" sampleID
    reservationKey := none }

/-- An append of a warning that is executed twice, the second time after the stream
was closed. -/
def repeatedAppend : List ReceiptEvent :=
  [.openStream sampleOpen 0, .execute "append" 1 1, .execute "close" 2 2,
    .execute "append" 3 3]

/-- The invocations of `repeatedAppend`. -/
def sampleInvocation (nonce : Nonce) : Invocation :=
  if nonce = "close" then .close .kindDone (.marshal (.obj []))
  else .append .kindWarning (.marshal (.obj []))

theorem redis_mutations_exactly_once_of_repeatedAppend :
    let s := ReceiptSystem.start.runAll (fun _ => sampleID) sampleInvocation repeatedAppend
    (s.log.filter fun execution =>
      execution.nonce = "append" ∧ execution.changed = true).length ≤ 1 :=
  (redis_mutations_exactly_once (fun _ => sampleID) sampleInvocation "append" repeatedAppend
    (by decide)).1

/-- The append commits and its reply is lost; the server refuses the retry with an
error that the client does not take for ambiguous, so the receipt is not looked up. -/
theorem reconcile_misses_refused_retry :
    let s := ReceiptSystem.start.runAll (fun _ => sampleID) sampleInvocation
      [.openStream sampleOpen 0, .execute "append" 1 1]
    let refusal := RedisError.reply "BUSY Redis is busy running a script."
    (s.log.map fun execution => (execution.nonce, execution.reply.toOption, execution.changed)) =
        [("append", some 2, true)] ∧
      retryRedisOperation false (.error .eof) none (.error refusal : Except RedisError Nat) =
        .error refusal ∧
      reconcileMutationReceipt (s.db.streams sampleID) sampleID "append" .append refusal none =
        ⟨0, false, none⟩ := by
  refine ⟨by decide +kernel, by rfl, by rfl⟩

end Streamweld.Redis
