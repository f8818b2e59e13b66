import Streamweld.Journal.Abstract
import Streamweld.Redis.Client

/-!
# The Redis journal refines the abstract journal

A call on the Redis journal does what the abstract journal does, as long as no key
expires, every operation has a nonce of its own and the sequences are numbers that
Lua prints in full.  `Database.Holds` relates a database to an abstract journal.

* `replayRedisRange_eq`: the pages of a replay are the messages after the cursor.
* `boundedRedisSnapshot_eq`: the checks of the snapshot all succeed.
* `redisPerform_refines`: one call, with the same answer as the abstract journal.
-/

namespace Streamweld.Redis

open Streamweld.Journal Streamweld.Lib

variable {keys : StreamKeys} {log : LogStream} {hash : StateHash} {events : List XMessage}

/-! ## Calls and their observations -/

/-- The operation on the Redis journal. -/
def Database.perform (keyPrefix : String) (ttl : Int) (db : Database) (moment : Moment) :
    Operation → Database × RedisReply
  | .open id metadata => redisOpen db keyPrefix ttl id metadata moment
  | .append id record seq ts =>
    redisAppend db id
      { seq := seq, ts := ts, kind := record.kind, payload := record.payload, err := none } moment
  | .close id record seq ts =>
    redisClose db id
      { seq := seq, ts := ts, kind := record.kind, payload := record.payload, err := none } moment
  | .markDegraded id => redisMarkDegraded db id moment
  | .read id fromSeq => (db, redisRead db id fromSeq)
  | .state id => (db, redisState db id)

/-- What a caller sees. -/
def RedisReply.observe : RedisReply → Observation
  | .done => .done
  | .seq n => .seq n
  | .entries yielded trailing => .entries (yielded.map Entry.item) (trailing.map (·.sentinel))
  | .state snapshot => .state snapshot.timeless
  | .failed err => .failed err.sentinel
  | .stuck => .broken

/-! ## Replay -/

def XMessage.item (message : XMessage) : Item := ⟨message.seq, message.kind, message.payload⟩

/-- The entry that a message decodes to. -/
def XMessage.entry (message : XMessage) : Entry :=
  { seq := message.seq, ts := message.ts, kind := message.kind, payload := message.payload,
    err := none }

theorem decodesTo_of_valid {message : XMessage} (hvalid : validatePayload message.payload = .ok ())
    (hpos : message.seq ≠ 0) : decodesTo message message.seq = some message.entry := by
  simp [decodesTo, decodeRedisEntry, hpos, hvalid, XMessage.entry]

/-- `XRANGE` from the sequence after the cursor. -/
theorem xrange_eq {messages : List XMessage} (h : Consecutive 1 (messages.map XMessage.seq))
    (cursor throughSeq count : Nat) :
    xrange messages (cursor + 1) throughSeq count =
      ((messages.take throughSeq).drop cursor).take count := by
  have htake := Consecutive.filter_eq_take XMessage.seq h throughSeq
  have hfirst : Consecutive 1 ((messages.take throughSeq).map XMessage.seq) := by
    rw [← List.take_append_drop throughSeq messages, List.map_append] at h
    exact h.left
  have hdrop := Consecutive.filter_eq_drop XMessage.seq hfirst cursor
  rw [← htake, List.filter_filter] at hdrop
  rw [xrange, ← htake, ← hdrop]
  congr 1
  refine List.filter_congr fun message _ => ?_
  rw [← Bool.decide_and, decide_eq_decide]
  omega

/-- Messages that a replay up to `throughSeq` accepts after the cursor. -/
structure Replayable (throughSeq cursor : Nat) (messages : List XMessage) : Prop where
  consecutive : Consecutive (cursor + 1) (messages.map XMessage.seq)
  valid : ∀ message ∈ messages, validatePayload message.payload = .ok ()
  terminal : ∀ message ∈ messages, message.kind.terminal = true → message.seq = throughSeq

namespace Replayable

variable {throughSeq cursor : Nat} {messages : List XMessage}

theorem drop (h : Replayable throughSeq cursor messages) (count : Nat) :
    Replayable throughSeq (cursor + count) (messages.drop count) := by
  refine ⟨?_, fun message hm => h.valid message (List.mem_of_mem_drop hm),
    fun message hm => h.terminal message (List.mem_of_mem_drop hm)⟩
  have hdrop := h.consecutive.drop count
  rw [← List.map_drop, Nat.add_right_comm] at hdrop
  exact hdrop

theorem take (h : Replayable throughSeq cursor messages) (count : Nat) :
    Replayable throughSeq cursor (messages.take count) := by
  refine ⟨?_, fun message hm => h.valid message (List.mem_of_mem_take hm),
    fun message hm => h.terminal message (List.mem_of_mem_take hm)⟩
  have hsplit := h.consecutive
  rw [← List.take_append_drop count messages, List.map_append] at hsplit
  exact hsplit.left

/-- A page is yielded as a whole. -/
theorem replayPage_eq (h : Replayable throughSeq cursor messages) (id : StreamID) :
    replayPage id throughSeq messages cursor =
      ⟨messages.map XMessage.entry, cursor + messages.length, none⟩ := by
  induction messages generalizing cursor with
  | nil => rfl
  | cons message rest ih =>
    obtain ⟨hseq, hrest⟩ : message.seq = cursor + 1 ∧
        Consecutive (cursor + 1 + 1) (rest.map XMessage.seq) := Consecutive.of_cons h.consecutive
    have hdecode := decodesTo_of_valid (h.valid message List.mem_cons_self)
      (show message.seq ≠ 0 by omega)
    rw [hseq] at hdecode
    have hboundary : ¬ (message.entry.kind.terminal = true ∧ message.entry.seq ≠ throughSeq) :=
      fun hne => hne.2 (h.terminal message List.mem_cons_self hne.1)
    have hcursor : message.entry.seq = cursor + 1 := hseq
    have hrest' : Replayable throughSeq (cursor + 1) rest :=
      ⟨hrest, fun m hm => h.valid m (List.mem_cons_of_mem _ hm),
        fun m hm => h.terminal m (List.mem_cons_of_mem _ hm)⟩
    have htail := ih hrest'
    simp only [replayPage, hdecode, if_neg hboundary]
    rw [hcursor, htail]
    simp only [List.map_cons, List.length_cons, Replay.mk.injEq, true_and, and_true]
    omega

/-- The pages from a cursor on are the messages after it, whatever the page size. -/
theorem replayLoop_eq (h : Replayable throughSeq 0 messages)
    (hlength : messages.length = throughSeq) {pageEntries : Nat} (hpage : 0 < pageEntries)
    (id : StreamID) (fuel : Nat) :
    ∀ cursor, cursor ≤ throughSeq → throughSeq - cursor ≤ fuel →
      replayLoop messages id throughSeq pageEntries fuel cursor =
        some ⟨(messages.drop cursor).map XMessage.entry, throughSeq, none⟩ := by
  have hend : ∀ cursor, ¬ cursor < throughSeq → cursor ≤ throughSeq →
      some (⟨[], cursor, none⟩ : Replay) =
        some ⟨(messages.drop cursor).map XMessage.entry, throughSeq, none⟩ := by
    intro cursor hnot hle
    have heq : cursor = throughSeq := by omega
    rw [heq, ← hlength, List.drop_length]
    rfl
  induction fuel with
  | zero =>
    intro cursor hle hfuel
    have hnot : ¬ cursor < throughSeq := by omega
    rw [replayLoop, if_neg hnot, hend cursor hnot hle]
  | succ fuel ih =>
    intro cursor hle hfuel
    by_cases hlt : cursor < throughSeq
    · rw [replayLoop, if_pos hlt]
      have hall : messages.take throughSeq = messages :=
        List.take_of_length_le (Nat.le_of_eq hlength)
      simp only [xrange_eq h.consecutive cursor throughSeq pageEntries, hall]
      have hdrop := h.drop cursor
      rw [Nat.zero_add] at hdrop
      have hlen : ((messages.drop cursor).take pageEntries).length =
          min pageEntries (throughSeq - cursor) := by
        rw [List.length_take, List.length_drop, hlength]
      -- The page is not empty, so the rest of the loop needs less fuel.
      have hne : ((messages.drop cursor).take pageEntries).isEmpty = false := by
        rw [List.isEmpty_eq_false_iff, ← List.length_pos_iff, hlen]
        omega
      have hrest := ih (cursor + ((messages.drop cursor).take pageEntries).length)
        (by omega) (by omega)
      have hjoin : (messages.drop cursor).take pageEntries ++
          messages.drop (cursor + ((messages.drop cursor).take pageEntries).length) =
          messages.drop cursor := by
        rw [← List.drop_drop, List.length_take]
        conv_rhs => rw [← List.take_append_drop pageEntries (messages.drop cursor)]
        congr 1
        by_cases hshort : pageEntries ≤ (messages.drop cursor).length
        · rw [Nat.min_eq_left hshort]
        · rw [Nat.min_eq_right (by omega), List.drop_length, List.drop_of_length_le (by omega)]
      simp only [hne, (hdrop.take pageEntries).replayPage_eq id, hrest, Option.isSome_none,
        Bool.false_eq_true, if_false, Option.map_some, ← List.map_append, hjoin]
    · rw [replayLoop, if_neg hlt, hend cursor hlt hle]

end Replayable

/-- The replay of an interval yields the messages after the cursor. -/
theorem replayRedisRange_eq {throughSeq : Nat} {messages : List XMessage}
    (h : Replayable throughSeq 0 messages) (hlength : messages.length = throughSeq)
    (id : StreamID) {fromSeq : Nat} (hfrom : fromSeq ≤ throughSeq) :
    replayRedisRange messages id fromSeq throughSeq redisStateReplayPageEntries =
      some ⟨(messages.drop fromSeq).map XMessage.entry, throughSeq, none⟩ :=
  h.replayLoop_eq hlength (by decide) id _ fromSeq hfrom (Nat.le_refl _)

/-! ## The relation -/

/-- The hash describes the log. -/
structure StateHash.Holds (hash : StateHash) (log : LogStream) : Prop where
  model : hash.model = log.metadata.model
  modelVersion : hash.modelVersion = log.metadata.modelVersion
  origin : hash.originBackend = log.metadata.backendID
  earliest : hash.earliestSeq = 1
  last : hash.lastSeq = log.lastSeq
  status : hash.status = log.ending.status
  resumable : hash.resumable = log.ending.resumable
  degraded : hash.degraded = log.ending.isDegraded

/-- The keys of a stream keep the log. -/
structure StreamKeys.Holds (keys : StreamKeys) (log : LogStream) (hash : StateHash)
    (events : List XMessage) : Prop where
  state_eq : keys.state = some hash
  events_eq : keys.events = some events
  hash_holds : hash.Holds log
  items : events.map XMessage.item = log.items

/-- The hash was written under one of the nonces, without an idempotency key. -/
def StateHash.Registered (hash : StateHash) (used : List Nonce) : Prop :=
  hash.openOpNonce ∈ used ∧ hash.idempotencyKey = none

/-- The database keeps the journal.  Only the nonces in `used` occur in it. -/
structure Database.Holds (db : Database) (j : LogJournal) (used : List Nonce) : Prop where
  live : ∀ id log, j id = some log → ∃ hash events,
    (db.streams id).Holds log hash events ∧ hash.Registered used
  missing : ∀ id, j id = none → (db.streams id).state = none ∧ (db.streams id).events = none ∧
    (db.streams id).tombstone = false
  receipts : ∀ id nonce, (db.streams id).receipts nonce ≠ none → nonce ∈ used
  strings : ∀ key, db.strings key = none

namespace StreamKeys.Holds

theorem length (h : keys.Holds log hash events) : events.length = log.lastSeq := by
  rw [← log.length_items, ← h.items, List.length_map]

theorem item_mem (h : keys.Holds log hash events) {message : XMessage} (hm : message ∈ events) :
    message.item ∈ log.items :=
  h.items ▸ List.mem_map_of_mem hm

/-- The events of a log can be replayed. -/
theorem replayable (h : keys.Holds log hash events) : Replayable log.lastSeq 0 events := by
  refine ⟨?_, fun message hm => log.valid_of_mem (h.item_mem hm),
    fun message hm hterminal => (log.terminal_item (h.item_mem hm) hterminal).1⟩
  have hconsecutive := log.consecutive_items
  rw [← h.items, List.map_map] at hconsecutive
  exact hconsecutive

theorem head (h : keys.Holds log hash events) :
    ∃ first, events.head? = some first ∧ first.item = ⟨1, .kindOpen, log.opening⟩ := by
  have hhead := log.head_items
  rw [← h.items, List.head?_map] at hhead
  exact Option.map_eq_some_iff.mp hhead

theorem getLast (h : keys.Holds log hash events) :
    ∃ last, events.getLast? = some last ∧ last.seq = log.lastSeq ∧
      match log.ending with
      | .closed record => last.kind = record.kind ∧ last.payload = record.payload
      | _ => last.kind.terminal = false := by
  obtain ⟨item, hlast, hseq, hkind⟩ := log.getLast_items
  rw [← h.items, List.getLast?_map] at hlast
  obtain ⟨last, hevents, rfl⟩ := Option.map_eq_some_iff.mp hlast
  exact ⟨last, hevents, hseq, hkind⟩

/-- Every check of the snapshot succeeds. -/
theorem boundedRedisSnapshot_eq (h : keys.Holds log hash events) (id : ValidID) :
    boundedRedisSnapshot keys id = .ok (headerState id hash, hash.degraded) := by
  obtain ⟨first, hhead, hfirst⟩ := h.head
  obtain ⟨last, hgetLast, hlastSeq, hlastKind⟩ := h.getLast
  have hpos := log.lastSeq_pos
  have hearliest : (headerState id.1 hash).earliestSeq = 1 := h.hash_holds.earliest
  have hlast : (headerState id.1 hash).lastSeq = log.lastSeq := h.hash_holds.last
  have hstatus : (headerState id.1 hash).status = log.ending.status := h.hash_holds.status
  have hfirstSeq : first.seq = 1 := congrArg Item.seq hfirst
  have hfirstKind : first.kind = .kindOpen := congrArg Item.kind hfirst
  have hdecodeFirst : decodesTo first 1 = some first.entry := by
    have hvalid := log.valid_of_mem (h.item_mem (List.mem_of_mem_head? hhead))
    have hdecode := decodesTo_of_valid hvalid (show first.seq ≠ 0 by omega)
    rwa [hfirstSeq] at hdecode
  have hdecodeLast : decodesTo last log.lastSeq = some last.entry := by
    have hvalid := log.valid_of_mem (h.item_mem (List.mem_of_mem_getLast? hgetLast))
    have hdecode := decodesTo_of_valid hvalid (show last.seq ≠ 0 by omega)
    rwa [hlastSeq] at hdecode
  have hbounds : validateRedisRetainedBounds (headerState id.1 hash) hash.degraded events.length
      events.head? events.getLast? = .ok () := by
    unfold validateRedisRetainedBounds
    have hlen : ¬ events.length ≠ log.lastSeq - 1 + 1 := by rw [h.length]; omega
    simp only [hearliest, hlast, hhead, hgetLast, hdecodeFirst, hdecodeLast]
    rw [if_neg (by omega), if_neg hlen, if_neg (by simp [XMessage.entry, hfirstKind])]
    rw [hstatus, h.hash_holds.degraded]
    cases hending : log.ending with
    | live | degraded =>
      simp only [hending] at hlastKind
      simp [Ending.status, Ending.isDegraded, XMessage.entry, hlastKind]
    | closed record =>
      simp only [hending] at hlastKind
      simp [Ending.status, Ending.isDegraded, XMessage.entry, hlastKind.1, record.terminal,
        statusForTerminal_ne_open record.terminal]
  unfold boundedRedisSnapshot
  rw [id.2, if_neg (by simp)]
  simp only [decodeState, h.state_eq, h.events_eq, Option.isSome_some, Bool.true_eq_false, if_false,
    Option.getD_some, hbounds]

end StreamKeys.Holds

/-! ## The replayed state -/

/-- What one entry changes in the state, up to the times. -/
theorem applyRedisStateEntry_timeless {state : StreamState} {migrations : List Migration}
    (h : state.migrations = some migrations) (entry : Entry) :
    let d := (⟨state.currentBackend, state.usage, migrations⟩ : Derived).apply entry.item
    (applyRedisStateEntry state entry).timeless =
      { state.timeless with
        currentBackend := d.currentBackend
        usage := d.usage
        migrations := some d.migrations
        terminal := LogStream.lastTerminal [entry.item] state.timeless.terminal } := by
  by_cases hkind : entry.kind = .kindMigration
  · have hterminal : EntryKind.kindMigration.terminal = false := rfl
    cases hmigration : decodeMigration entry.seq entry.payload <;>
      cases husage : decodeUsage entry.payload <;>
        simp [applyRedisStateEntry, Derived.apply, Entry.item, StreamState.timeless,
          LogStream.lastTerminal, hkind, hmigration, husage, h, hterminal]
  · by_cases hterminal : entry.kind.terminal = true <;>
      cases husage : decodeUsage entry.payload <;>
        simp [applyRedisStateEntry, Derived.apply, Entry.item, StreamState.timeless,
          LogStream.lastTerminal, hkind, husage, h, hterminal]

/-- What a replay leaves, up to the times. -/
theorem foldl_applyRedisStateEntry (entries : List Entry) :
    ∀ (state : StreamState) (migrations : List Migration), state.migrations = some migrations →
      let d := (entries.map Entry.item).foldl Derived.apply
        ⟨state.currentBackend, state.usage, migrations⟩
      (entries.foldl applyRedisStateEntry state).timeless =
        { state.timeless with
          currentBackend := d.currentBackend
          usage := d.usage
          migrations := some d.migrations
          terminal := LogStream.lastTerminal (entries.map Entry.item) state.timeless.terminal } := by
  induction entries with
  | nil =>
    intro state migrations h d
    have hd : d = ⟨state.currentBackend, state.usage, migrations⟩ := rfl
    rw [hd, ← h]
    rfl
  | cons entry rest ih =>
    intro state migrations h d
    have hstep := applyRedisStateEntry_timeless h entry
    have hfold := ih (applyRedisStateEntry state entry) _
      (congrArg StreamState.migrations hstep)
    rw [List.foldl_cons, hfold, hstep]
    have hbackend := congrArg StreamState.currentBackend hstep
    have husage := congrArg StreamState.usage hstep
    simp only [StreamState.timeless] at hbackend husage
    rw [hbackend, husage]
    rfl

/-- The replay of the events of a log rebuilds its state. -/
theorem StreamKeys.Holds.replayed (h : keys.Holds log hash events) (id : StreamID) :
    ((events.map XMessage.entry).foldl applyRedisStateEntry (headerState id hash)).timeless =
      log.state id := by
  have hitems : (events.map XMessage.entry).map Entry.item = log.items := by
    rw [← h.items, List.map_map]
    rfl
  have hderived : log.items.foldl Derived.apply
      ⟨(headerState id hash).currentBackend, (headerState id hash).usage, []⟩ = log.derived := by
    simp only [headerState, h.hash_holds.origin]
    rfl
  have hfold := foldl_applyRedisStateEntry (events.map XMessage.entry) (headerState id hash) [] rfl
  simp only [hitems, hderived] at hfold
  rw [hfold]
  simp only [headerState, StreamState.timeless, LogStream.state, Option.map_none,
    h.hash_holds.model, h.hash_holds.modelVersion, h.hash_holds.origin, h.hash_holds.earliest,
    h.hash_holds.last, h.hash_holds.status, h.hash_holds.resumable, log.lastTerminal_items]

/-! ## One call -/

namespace Database.Holds

variable {db : Database} {j : LogJournal} {used : List Nonce}

theorem empty : Database.empty.Holds .empty [] :=
  { live := fun id log h => by cases h
    missing := fun _ _ => ⟨rfl, rfl, rfl⟩
    receipts := fun _ _ h => absurd rfl h
    strings := fun _ => rfl }

theorem mono (h : db.Holds j used) {used' : List Nonce} (hused : ∀ nonce ∈ used, nonce ∈ used') :
    db.Holds j used' :=
  { live := fun id log hlog => by
      obtain ⟨hash, events, hkeys, hnonce⟩ := h.live id log hlog
      exact ⟨hash, events, hkeys, hused _ hnonce.1, hnonce.2⟩
    missing := h.missing
    receipts := fun id nonce hreceipt => hused _ (h.receipts id nonce hreceipt)
    strings := h.strings }

/-- The keys of one stream are written. -/
theorem update (h : db.Holds j used) {db' : Database} {used' : List Nonce}
    (hused : ∀ nonce ∈ used, nonce ∈ used') {id : StreamID}
    (hstreams : db'.streams = Function.update db.streams id keys)
    (hstrings : ∀ key, db'.strings key = none) (hkeys : keys.Holds log hash events)
    (hnonce : hash.Registered used')
    (hreceipts : ∀ nonce, keys.receipts nonce ≠ none → nonce ∈ used') :
    db'.Holds (j.set id log) used' := by
  have hself : db'.streams id = keys := by rw [hstreams, Function.update_self]
  have hother : ∀ id', id' ≠ id → db'.streams id' = db.streams id' := by
    intro id' hne
    rw [hstreams, Function.update_of_ne hne]
  refine ⟨fun id' log' hlog => ?_, fun id' hnone => ?_, fun id' nonce hreceipt => ?_, hstrings⟩
  · by_cases hid : id' = id
    · subst hid
      rw [j.set_self] at hlog
      cases hlog
      rw [hself]
      exact ⟨hash, events, hkeys, hnonce⟩
    · rw [j.set_of_ne log hid] at hlog
      rw [hother id' hid]
      exact (h.mono hused).live id' log' hlog
  · by_cases hid : id' = id
    · subst hid
      rw [j.set_self] at hnone
      cases hnone
    · rw [j.set_of_ne log hid] at hnone
      rw [hother id' hid]
      exact h.missing id' hnone
  · by_cases hid : id' = id
    · subst hid
      rw [hself] at hreceipt
      exact hreceipts nonce hreceipt
    · rw [hother id' hid] at hreceipt
      exact hused _ (h.receipts id' nonce hreceipt)

/-- A fresh nonce has no receipt. -/
theorem no_receipt (h : db.Holds j used) {nonce : Nonce} (hfresh : nonce ∉ used)
    (id : StreamID) : (db.streams id).receipts nonce = none := by
  by_contra hreceipt
  exact hfresh (h.receipts id nonce hreceipt)

end Database.Holds

/-- What is proved of every call. -/
def RedisRefines (result : Database × RedisReply) (expected : LogJournal × Observation)
    (used : List Nonce) : Prop :=
  result.1.Holds expected.1 used ∧ result.2.observe = expected.2

section Perform

variable {keyPrefix : String} {ttl : Int} {db : Database} {j : LogJournal} {used : List Nonce}
  {moment : Moment}

theorem Database.Holds.later (h : db.Holds j used) : db.Holds j (moment.nonce :: used) :=
  h.mono fun _ hnonce => List.mem_cons_of_mem _ hnonce

/-- A mutation of a stream that does not exist. -/
theorem mutateStream_missing (h : db.Holds j used) (hfresh : moment.nonce ∉ used) {id : StreamID}
    (hnone : j id = none) (operation : Mutation)
    (body : StateHash → List XMessage → Except ScriptError (StateHash × List XMessage × Nat)) :
    mutateStream db id moment.nonce (mutationScript operation moment.nonce body) moment.clock =
      (db, .error .notFound) := by
  obtain ⟨hstate, hevents, htombstone⟩ := h.missing id hnone
  have hscript : mutationScript operation moment.nonce body (db.streams id) =
      (db.streams id, .error .notFound) := by
    simp [mutationScript, h.no_receipt hfresh id, hstate, htombstone]
  simp only [mutateStream, hscript, hstate, Option.bind_none, Function.update_eq_self]

/-- The database after a mutation that committed. -/
def Database.commit (db : Database) (id : StreamID) (nonce : Nonce) (receipt : Receipt)
    (hash : StateHash) (events : List XMessage) : Database :=
  db.mapKeys id fun keys =>
    { state := some hash
      events := some events
      tombstone := true
      receipts := Function.update keys.receipts nonce (some receipt) }

/-- A mutation of a stream that exists is its body, and a commit leaves a receipt. -/
theorem mutateStream_live (h : db.Holds j used) (hfresh : moment.nonce ∉ used) {id : StreamID}
    (hkeys : (db.streams id).Holds log hash events) (hnonce : hash.Registered used)
    (operation : Mutation)
    (body : StateHash → List XMessage → Except ScriptError (StateHash × List XMessage × Nat)) :
    mutateStream db id moment.nonce (mutationScript operation moment.nonce body) moment.clock =
      match body hash events with
      | .error err => (db, .error err)
      | .ok (hash', events', result) =>
        (db.commit id moment.nonce ⟨operation, result⟩ hash' events', .ok result) := by
  have hstrings : (db.streams id).state.bind (·.idempotencyKey) = none := by
    rw [hkeys.state_eq]
    exact hnonce.2
  cases hbody : body hash events with
  | error err =>
    have hscript : mutationScript operation moment.nonce body (db.streams id) =
        (db.streams id, .error err) := by
      simp [mutationScript, h.no_receipt hfresh id, hkeys.state_eq, hkeys.events_eq, hbody]
    simp only [mutateStream, hscript, hstrings, Function.update_eq_self]
  | ok result =>
    obtain ⟨hash', events', result⟩ := result
    have hscript : mutationScript operation moment.nonce body (db.streams id) =
        ({ state := some hash'
           events := some events'
           tombstone := true
           receipts := Function.update (db.streams id).receipts moment.nonce
             (some ⟨operation, result⟩) }, .ok result) := by
      simp [mutationScript, h.no_receipt hfresh id, hkeys.state_eq, hkeys.events_eq, hbody]
    simp only [mutateStream, hscript, hstrings]
    rfl

/-- The keys that a mutation wrote keep the new log. -/
theorem Database.Holds.commit (h : db.Holds j used) {id : StreamID} {log' : LogStream}
    {hash' : StateHash} {events' : List XMessage} (hnonce : hash.Registered used)
    (hhash : hash'.Holds log')
    (hsame : hash'.openOpNonce = hash.openOpNonce ∧ hash'.idempotencyKey = hash.idempotencyKey)
    (hitems : events'.map XMessage.item = log'.items) (receipt : Receipt) :
    (db.commit id moment.nonce receipt hash' events').Holds (j.set id log')
      (moment.nonce :: used) := by
  have hkeys : StreamKeys.Holds
      { state := some hash'
        events := some events'
        tombstone := true
        receipts := Function.update (db.streams id).receipts moment.nonce (some receipt) }
      log' hash' events' := ⟨rfl, rfl, hhash, hitems⟩
  have hstrings : ∀ key, (db.commit id moment.nonce receipt hash' events').strings key = none :=
    h.strings
  refine h.update (fun _ hn => List.mem_cons_of_mem _ hn) rfl hstrings hkeys ?_ ?_
  · exact ⟨hsame.1 ▸ List.mem_cons_of_mem _ hnonce.1, hsame.2.trans hnonce.2⟩
  · intro nonce hreceipt
    by_cases heq : nonce = moment.nonce
    · exact heq ▸ List.mem_cons_self
    · simp only [Function.update_of_ne heq] at hreceipt
      exact List.mem_cons_of_mem _ (h.receipts id nonce hreceipt)

/-- The hash after the commit of an entry to a live log. -/
theorem StateHash.Holds.push (h : hash.Holds log) (hlive : log.ending = .live)
    (record : BodyRecord) (now : Int) :
    StateHash.Holds { hash with lastSeq := log.lastSeq + 1, updatedAt := now }
      (log.push record) :=
  { h with last := (LogStream.lastSeq_concat (log.records_push hlive record)).symm }

/-- The hash after the commit of the terminal entry. -/
theorem StateHash.Holds.close (h : hash.Holds log) (hlive : log.ending = .live)
    (record : FinalRecord) (now : Int) :
    StateHash.Holds
      { hash with
        lastSeq := log.lastSeq + 1
        updatedAt := now
        status := statusForTerminal record.kind
        resumable := decide (record.kind ≠ .kindStopped) }
      (log.finish (.closed record)) :=
  { h with
    last := (LogStream.lastSeq_concat (log.records_close hlive record)).symm
    status := rfl
    resumable := rfl
    degraded := by rw [h.degraded, hlive]; rfl }

/-- The hash of a log that is marked degraded. -/
theorem StateHash.Holds.degrade (h : hash.Holds log)
    (hopen : ∀ record, log.ending ≠ .closed record) (now : Int) :
    StateHash.Holds { hash with degraded := true, updatedAt := now } (log.finish .degraded) := by
  obtain ⟨hstatus, hresumable, -, -⟩ := Ending.of_not_closed hopen log.lastSeq
  refine { h with last := ?_, status := ?_, resumable := ?_, degraded := rfl }
  · rw [LogStream.lastSeq, log.records_degrade hopen]
    exact h.last
  · exact h.status.trans hstatus
  · exact h.resumable.trans hresumable

/-- The events after the commit of an entry. -/
theorem StreamKeys.Holds.items_concat (h : keys.Holds log hash events) {log' : LogStream}
    {kind : EntryKind} {payload : RawMessage}
    (hrecords : log'.records = log.records ++ [(kind, payload)]) (now : Int) :
    List.map XMessage.item (events ++
      [{ seq := log.lastSeq + 1, kind := kind, payload := payload, ts := now }]) = log'.items := by
  rw [List.map_append, h.items, LogStream.items_concat hrecords]
  rfl

/-- The commit of an entry to a live log. -/
theorem commitEntry_live (hkeys : keys.Holds log hash events) (hlive : log.ending = .live)
    (hbound : log.lastSeq + 1 < 10 ^ 14) (now : Int) (kind : EntryKind) (payload : RawMessage) :
    commitEntry now kind payload hash events =
      .ok ({ hash with lastSeq := log.lastSeq + 1, updatedAt := now },
        events ++ [{ seq := log.lastSeq + 1, kind := kind, payload := payload, ts := now }],
        log.lastSeq + 1) := by
  obtain ⟨last, hlast, hseq, -⟩ := hkeys.getLast
  have hdegraded : hash.degraded = false := by rw [hkeys.hash_holds.degraded, hlive]; rfl
  have hstatus : hash.status = .statusOpen := by rw [hkeys.hash_holds.status, hlive]; rfl
  have htostring : luaTostring (log.lastSeq + 1) = some (log.lastSeq + 1) := if_pos hbound
  have hxadd : last.seq < log.lastSeq + 1 := by omega
  simp [commitEntry, hdegraded, hstatus, hkeys.hash_holds.last, htostring, xadd, hlast, hxadd]

/-- The refusal of an entry by a log that has ended. -/
theorem commitEntry_ended (hkeys : keys.Holds log hash events) (hended : log.ending ≠ .live)
    (now : Int) (kind : EntryKind) (payload : RawMessage) :
    commitEntry now kind payload hash events =
      .error (match log.ending with
        | .closed _ => .terminal
        | _ => .degraded) := by
  have hdegraded := hkeys.hash_holds.degraded
  have hstatus := hkeys.hash_holds.status
  cases hending : log.ending with
  | live => exact absurd hending hended
  | degraded =>
    rw [hending] at hdegraded
    simp [commitEntry, hdegraded, Ending.isDegraded]
  | closed record =>
    rw [hending] at hdegraded hstatus
    simp [commitEntry, hdegraded, Ending.isDegraded, hstatus, Ending.status,
      statusForTerminal_ne_open record.terminal]

/-- The sequence that a write would allocate is a number that Lua prints in full. -/
def SequencesPrintable (j : LogJournal) : Operation → Prop
  | .append id _ _ _ | .close id _ _ _ =>
    ∀ log, j id.1 = some log → log.ending = .live → log.lastSeq + 1 < 10 ^ 14
  | _ => True

/-- A write whose script commits an entry and then sets fields that the ending of
the log determines. -/
theorem write_refines (h : db.Holds j used) (hfresh : moment.nonce ∉ used) (id : ValidID)
    {kind : EntryKind} {payload : RawMessage}
    (hbound : ∀ log, j id.1 = some log → log.ending = .live → log.lastSeq + 1 < 10 ^ 14)
    (operation : Mutation) (name : String) (finish : StateHash → StateHash)
    (body : StateHash → List XMessage → Except ScriptError (StateHash × List XMessage × Nat))
    (hbody : ∀ hash events, body hash events =
      match commitEntry moment.now kind payload hash events with
      | .error err => .error err
      | .ok (hash, events, seq) => .ok (finish hash, events, seq))
    (hfinish : ∀ hash, (finish hash).openOpNonce = hash.openOpNonce ∧
      (finish hash).idempotencyKey = hash.idempotencyKey)
    {f : LogStream → LogStream} (hrecords : ∀ log : LogStream, log.ending = .live →
      (f log).records = log.records ++ [(kind, payload)])
    (hholds : ∀ (log : LogStream) (hash : StateHash), log.ending = .live → hash.Holds log →
      (finish { hash with lastSeq := log.lastSeq + 1, updatedAt := moment.now }).Holds (f log))
    {ok : Nat → RedisReply} {reply : LogStream → Observation}
    (hreply : ∀ log : LogStream, (ok (log.lastSeq + 1)).observe = reply log) :
    RedisRefines
      (mutationReply name id
        (mutateStream db id moment.nonce (mutationScript operation moment.nonce body)
          moment.clock) ok)
      (j.write id f reply) (moment.nonce :: used) := by
  unfold LogJournal.write
  cases hlog : j id.1 with
  | none =>
    rw [mutateStream_missing h hfresh hlog]
    exact ⟨h.later, rfl⟩
  | some log =>
    obtain ⟨hash, events, hkeys, hnonce⟩ := h.live id log hlog
    rw [mutateStream_live h hfresh hkeys hnonce, hbody]
    by_cases hlive : log.ending = .live
    · rw [commitEntry_live hkeys hlive (hbound log hlog hlive)]
      simp only [hlive, mutationReply]
      have hsame := hfinish { hash with lastSeq := log.lastSeq + 1, updatedAt := moment.now }
      exact ⟨h.commit hnonce (hholds log hash hlive hkeys.hash_holds) hsame
        (hkeys.items_concat (hrecords log hlive) moment.now) _, hreply log⟩
    · rw [commitEntry_ended hkeys hlive]
      cases hending : log.ending with
      | live => exact absurd hending hlive
      | degraded | closed =>
        simp only [hending, mutationReply]
        exact ⟨h.later, rfl⟩

theorem redisAppend_refines (h : db.Holds j used) (hfresh : moment.nonce ∉ used) (id : ValidID)
    (record : BodyRecord) (seq : Nat) (ts : Int)
    (hbound : SequencesPrintable j (.append id record seq ts)) :
    RedisRefines (db.perform keyPrefix ttl moment (.append id record seq ts))
      (j.step ttl (.append id record seq ts)) (moment.nonce :: used) := by
  have hcheck : checkEntry "append" id.1
      { seq := seq, ts := ts, kind := record.kind, payload := record.payload, err := none }
      record.kind.appendable ("kind \"" ++ record.kind.name ++ "\" cannot be appended") =
      .ok () := by
    simp [checkEntry, id.2, record.appendable, record.valid]
  simp only [Database.perform, redisAppend, hcheck, LogJournal.step]
  refine write_refines h hfresh id hbound .append "append" (fun hash => hash) _ ?_ (fun _ => ⟨rfl, rfl⟩)
    (fun log hlive => log.records_push hlive record)
    (fun _ _ hlive hhash => hhash.push hlive record moment.now) fun _ => rfl
  intro hash events
  cases commitEntry moment.now record.kind record.payload hash events <;> rfl

theorem redisClose_refines (h : db.Holds j used) (hfresh : moment.nonce ∉ used) (id : ValidID)
    (record : FinalRecord) (seq : Nat) (ts : Int)
    (hbound : SequencesPrintable j (.close id record seq ts)) :
    RedisRefines (db.perform keyPrefix ttl moment (.close id record seq ts))
      (j.step ttl (.close id record seq ts)) (moment.nonce :: used) := by
  have hcheck : checkEntry "close" id.1
      { seq := seq, ts := ts, kind := record.kind, payload := record.payload, err := none }
      record.kind.terminal ("kind \"" ++ record.kind.name ++ "\" is not terminal") = .ok () := by
    simp [checkEntry, id.2, record.terminal, record.valid]
  simp only [Database.perform, redisClose, hcheck, LogJournal.step]
  exact write_refines h hfresh id hbound .close "close"
    (fun hash =>
      { hash with
        status := statusForTerminal record.kind
        resumable := decide (record.kind ≠ .kindStopped) }) _ (fun _ _ => rfl)
    (fun _ => ⟨rfl, rfl⟩) (fun log hlive => log.records_close hlive record)
    (fun _ _ hlive hhash => hhash.close hlive record moment.now) fun _ => rfl

theorem redisMarkDegraded_refines (h : db.Holds j used) (hfresh : moment.nonce ∉ used)
    (id : ValidID) :
    RedisRefines (db.perform keyPrefix ttl moment (.markDegraded id))
      (j.step ttl (.markDegraded id)) (moment.nonce :: used) := by
  have hvalid : validateStreamID id.1 = true := id.2
  simp only [Database.perform, redisMarkDegraded, hvalid, Bool.true_eq_false, if_false,
    LogJournal.step, Invocation.script, redisDegradeReceiptScript]
  cases hlog : j id.1 with
  | none =>
    rw [mutateStream_missing h hfresh hlog, LogJournal.degrade, hlog]
    exact ⟨h.later, rfl⟩
  | some log =>
    obtain ⟨hash, events, hkeys, hnonce⟩ := h.live id log hlog
    rw [mutateStream_live h hfresh hkeys hnonce]
    have hhash := hkeys.hash_holds
    by_cases hclosed : ∃ record, log.ending = .closed record
    · obtain ⟨record, hending⟩ := hclosed
      have hne : hash.status ≠ .statusOpen := by
        rw [hhash.status, hending]
        exact statusForTerminal_ne_open record.terminal
      simp only [if_pos hne, LogJournal.degrade, hlog, hending]
      exact ⟨h.later, rfl⟩
    · have hopen : ∀ record, log.ending ≠ .closed record :=
        fun record hending => hclosed ⟨record, hending⟩
      have hstatusOpen : ¬ hash.status ≠ .statusOpen := by
        rw [hhash.status, (Ending.of_not_closed hopen log.lastSeq).1]
        simp
      have hitems : events.map XMessage.item = (log.finish .degraded).items := by
        rw [LogStream.items, log.records_degrade hopen]
        exact hkeys.items
      rw [if_neg hstatusOpen, LogJournal.degrade_open hlog hopen]
      -- Both branches of the script leave the hash of a degraded log.
      by_cases hdegraded : hash.degraded = true
      · rw [if_pos hdegraded]
        have hsealed : hash.Holds (log.finish .degraded) :=
          { hhash.degrade hopen moment.now with degraded := hdegraded }
        exact ⟨h.commit hnonce hsealed ⟨rfl, rfl⟩ hitems _, rfl⟩
      · rw [if_neg hdegraded]
        exact ⟨h.commit hnonce (hhash.degrade hopen moment.now) ⟨rfl, rfl⟩ hitems _, rfl⟩

/-- The Redis journal refuses the owner record of an open operation with a retention that it
takes; the memory journal does not look at the record. -/
def OwnerRefused (ttl : Int) : Operation → Prop
  | .open _ metadata =>
    ¬ (retentionOf ttl metadata < 0 ∨ retentionOf ttl metadata > maxInt64 / 2) ∧
      (metadata.owner.bind OwnerRecord.validate).isSome = true
  | _ => False

theorem redisOpen_refused (id : ValidID) {metadata : Meta}
    (h : OwnerRefused ttl (.open id metadata)) :
    (db.perform keyPrefix ttl moment (.open id metadata)).2.observe = .failed .ownerError := by
  obtain ⟨hretention, howner⟩ := h
  obtain ⟨problem, hproblem⟩ := Option.isSome_iff_exists.mp howner
  have hvalid : validateStreamID id.1 = true := id.2
  unfold retentionOf at hretention
  simp only [Database.perform, redisOpen, hvalid, Bool.true_eq_false, if_false, if_neg hretention,
    hproblem]
  rfl

theorem redisOpen_refines (h : db.Holds j used) (hfresh : moment.nonce ∉ used) (id : ValidID)
    {metadata : Meta} (hidempotency : metadata.idempotency = none)
    (howner : ¬ OwnerRefused ttl (.open id metadata)) :
    RedisRefines (db.perform keyPrefix ttl moment (.open id metadata))
      (j.step ttl (.open id metadata)) (moment.nonce :: used) := by
  have hvalid : validateStreamID id.1 = true := id.2
  simp only [Database.perform, redisOpen, hvalid, Bool.true_eq_false, if_false, LogJournal.step]
  by_cases hrefused : retentionOf ttl metadata < 0 ∨ retentionOf ttl metadata > maxInt64 / 2
  · rw [if_pos hrefused]
    unfold retentionOf at hrefused
    rw [if_pos hrefused]
    exact ⟨h.later, rfl⟩
  · have hnone : metadata.owner.bind OwnerRecord.validate = none := by
      simpa [OwnerRefused, hrefused] using howner
    rw [if_neg hrefused]
    unfold retentionOf at hrefused
    rw [if_neg hrefused, hnone]
    cases hlog : j id.1 with
    | some log =>
      obtain ⟨hash, events, hkeys, hnonce⟩ := h.live id log hlog
      have hne : hash.openOpNonce ≠ moment.nonce := fun heq => hfresh (heq ▸ hnonce.1)
      simp only [redisOpenScript, hkeys.state_eq, if_neg hne, Option.isSome_some, if_true]
      exact ⟨h.later, rfl⟩
    | none =>
      obtain ⟨hstate, hevents, htombstone⟩ := h.missing id hlog
      have hpromotable : ∀ args : OpenArgs, promotable db args = none := by
        intro args
        simp [promotable, getString, h.strings]
      simp only [redisOpenScript, hstate, hevents, htombstone, hpromotable, hidempotency,
        Option.isSome_none, Bool.false_eq_true, or_self, if_false, Option.map_none, false_and]
      refine ⟨h.update (fun _ hn => List.mem_cons_of_mem _ hn) rfl ?_
        ⟨rfl, rfl, ?_, rfl⟩ ⟨List.mem_cons_self, rfl⟩ ?_, rfl⟩
      · intro key
        simp only [delString]
        by_cases hkey : key = idempotencyAssociationKey keyPrefix id.1
        · rw [hkey, Function.update_self]
        · rw [Function.update_of_ne hkey, h.strings]
      · exact {
          model := rfl
          modelVersion := rfl
          origin := rfl
          earliest := rfl
          last := rfl
          status := rfl
          resumable := rfl
          degraded := rfl }
      · intro nonce hreceipt
        exact List.mem_cons_of_mem _ (h.receipts id nonce hreceipt)

/-- The readers find no stream that was never opened. -/
theorem boundedRedisSnapshot_missing (h : db.Holds j used) (id : ValidID) (hnone : j id.1 = none) :
    boundedRedisSnapshot (db.streams id.1) id.1 =
      .error { sentinel := .errNotFound, detail := id.1 } := by
  obtain ⟨hstate, -, htombstone⟩ := h.missing id hnone
  unfold boundedRedisSnapshot
  rw [id.2, if_neg (by simp)]
  simp [decodeState, hstate, htombstone]

theorem redisRead_refines (h : db.Holds j used) (id : ValidID) (fromSeq : Nat) :
    RedisRefines (db.perform keyPrefix ttl moment (.read id fromSeq))
      (j.step ttl (.read id fromSeq)) (moment.nonce :: used) := by
  simp only [Database.perform, redisRead, LogJournal.step]
  cases hlog : j id.1 with
  | none =>
    rw [boundedRedisSnapshot_missing h id hlog]
    exact ⟨h.later, rfl⟩
  | some log =>
    obtain ⟨hash, events, hkeys, -⟩ := h.live id log hlog
    have hhash := hkeys.hash_holds
    have hlast : (headerState id.1 hash).lastSeq = log.lastSeq := hhash.last
    have hresumableEq : (headerState id.1 hash).resumable = log.ending.resumable := hhash.resumable
    simp only [hkeys.boundedRedisSnapshot_eq id, LogStream.read, hresumableEq, hhash.degraded,
      hlast, hkeys.events_eq, Option.getD_some]
    by_cases hresumable : log.ending.resumable = false
    · simp only [if_pos hresumable]
      exact ⟨h.later, rfl⟩
    · simp only [if_neg hresumable]
      by_cases hahead : fromSeq > log.lastSeq
      · have hcursor : validateRedisCursor (headerState id.1 hash) fromSeq = .error {
            sentinel := .errCursorAhead
            detail := s!"cursor {fromSeq} exceeds last sequence {hash.lastSeq}" } :=
          if_pos (by rw [hlast]; exact hahead)
        simp only [hcursor, if_pos hahead]
        exact ⟨h.later, rfl⟩
      · have hcursor : validateRedisCursor (headerState id.1 hash) fromSeq = .ok () := by
          unfold validateRedisCursor
          have hearliest : (headerState id.1 hash).earliestSeq = 1 := hhash.earliest
          rw [if_neg (by omega), if_neg (by omega)]
        simp only [hcursor, if_neg hahead]
        by_cases hgap : log.ending.isDegraded = true ∧ fromSeq = log.lastSeq
        · simp only [if_pos hgap]
          exact ⟨h.later, rfl⟩
        · simp only [if_neg hgap]
          rw [replayRedisRange_eq hkeys.replayable hkeys.length id.1 (by omega)]
          refine ⟨h.later, ?_⟩
          simp only [RedisReply.observe, List.map_map]
          rw [← hkeys.items, ← List.map_drop]
          cases log.ending.isDegraded <;> rfl

theorem redisState_refines (h : db.Holds j used) (id : ValidID) :
    RedisRefines (db.perform keyPrefix ttl moment (.state id)) (j.step ttl (.state id))
      (moment.nonce :: used) := by
  simp only [Database.perform, redisState, LogJournal.step]
  cases hlog : j id.1 with
  | none =>
    rw [boundedRedisSnapshot_missing h id hlog]
    exact ⟨h.later, rfl⟩
  | some log =>
    obtain ⟨hash, events, hkeys, -⟩ := h.live id log hlog
    have hlast : (headerState id.1 hash).lastSeq = log.lastSeq := hkeys.hash_holds.last
    have hearliest : (headerState id.1 hash).earliestSeq = 1 := hkeys.hash_holds.earliest
    simp only [hkeys.boundedRedisSnapshot_eq id, hlast, hearliest, hkeys.events_eq,
      Option.getD_some, Nat.sub_self,
      replayRedisRange_eq hkeys.replayable hkeys.length id.1 (Nat.zero_le _), List.drop_zero]
    exact ⟨h.later, congrArg Observation.state (hkeys.replayed id)⟩

/-- An open operation carries no idempotency digest. -/
def WithoutIdempotency : Operation → Prop
  | .open _ metadata => metadata.idempotency = none
  | _ => True

/-- One call of the Redis journal is one step of the abstract journal. -/
theorem redisPerform_refines (h : db.Holds j used) (hfresh : moment.nonce ∉ used)
    (op : Operation) (hidempotency : WithoutIdempotency op) (howner : ¬ OwnerRefused ttl op)
    (hbound : SequencesPrintable j op) :
    RedisRefines (db.perform keyPrefix ttl moment op) (j.step ttl op) (moment.nonce :: used) := by
  cases op with
  | «open» id metadata => exact redisOpen_refines h hfresh id hidempotency howner
  | append id record seq ts => exact redisAppend_refines h hfresh id record seq ts hbound
  | close id record seq ts => exact redisClose_refines h hfresh id record seq ts hbound
  | markDegraded id => exact redisMarkDegraded_refines h hfresh id
  | read id fromSeq => exact redisRead_refines h id fromSeq
  | state id => exact redisState_refines h id

end Perform

end Streamweld.Redis
