import Streamweld.Journal.MemoryInvariant

/-!
# The memory journal refines the abstract journal

A call on the memory journal does what the abstract journal does, as long as no
stream expires and no limit is reached.  `Memory.Holds` relates a store to an
abstract journal: a live stream keeps every record of its log, and its state
fields are those that the log determines.

* `cleanupExpiredLocked_quiet`, `makeRoomLocked_room`: without expiry and below the
  limits, the cleanup and the search for room change nothing.
* `MemoryStream.Holds.commit`: a committed entry is one more record of the log.
* `perform_refines`: one call.  The two journals give the same answer, except that
  the memory journal shows an empty list of migrations as a nil slice
  (`Observation.nilSlices`).
-/

namespace Streamweld.Journal

open Streamweld.Lib

variable {m : Memory} {now : Int} {id : StreamID} {stream : MemoryStream} {log : LogStream}
  {kind : EntryKind} {payload : RawMessage}

/-! ## Calls and their observations -/

/-- The entry that a caller passes for a record. -/
def entryOf (kind : EntryKind) (payload : RawMessage) (seq : Nat) (ts : Int) : Entry :=
  { seq := seq, ts := ts, kind := kind, payload := payload, err := none }

/-- The operation on the memory journal, in a context that is never done. -/
def Memory.perform (envelopeLen : Entry → Option Nat) (m : Memory) (now : Int) :
    Operation → Memory × Reply
  | .open id metadata => m.open envelopeLen {} id metadata now
  | .append id record seq ts =>
    m.append envelopeLen {} id (entryOf record.kind record.payload seq ts) now
  | .close id record seq ts =>
    m.close envelopeLen {} id (entryOf record.kind record.payload seq ts) now
  | .markDegraded id => m.markDegraded {} id now
  | .read id fromSeq => m.read {} id fromSeq now
  | .state id => m.state {} id now

/-- What a caller sees; the iterator of `Read` is run to its end. -/
def Reply.observe : Reply → Observation
  | .done => .done
  | .seq n => .seq n
  | .entries snapshot trailing =>
    let (yielded, last) := iterate (fun _ => none) none snapshot trailing
    .entries (yielded.map Entry.item) (last.map (·.sentinel))
  | .state snapshot => .state snapshot.timeless
  | .failed (.error err) => .failed err.sentinel
  | .failed .panic => .broken
  | .reader _ => .broken

/-- An iterator that nothing interrupts yields its whole snapshot. -/
theorem iterate_uninterrupted (snapshot : List Entry) (trailing : Option JournalError) :
    iterate (fun _ => none) none snapshot trailing = (snapshot, trailing) := by
  have hloop : ∀ (entries : List Entry) (i : Nat),
      iterate.loop (fun _ => none) trailing i entries = (entries, trailing) := by
    intro entries
    induction entries with
    | nil => intro i; rfl
    | cons entry rest ih => intro i; simp [iterate.loop, ih]
  exact hloop snapshot 0

/-- The observation under which an empty list of migrations is a nil slice. -/
def Observation.nilSlices : Observation → Observation
  | .state shown => .state { shown with migrations := shown.migrations.bind appendToNil }
  | observation => observation

/-- The observation changes exactly when it is a state without migrations. -/
theorem Observation.nilSlices_ne_iff (observation : Observation) :
    observation.nilSlices ≠ observation ↔
      ∃ state, observation = .state state ∧ state.migrations = some [] := by
  cases observation with
  | state state =>
    obtain ⟨migrations, hmigrations⟩ : ∃ migrations, state.migrations = migrations := ⟨_, rfl⟩
    have hiff : (state.migrations.bind appendToNil = state.migrations) ↔
        state.migrations ≠ some [] := by
      rw [hmigrations]
      cases migrations with
      | none => simp
      | some list => cases list <;> simp [appendToNil]
    have heq : Observation.nilSlices (.state state) = .state state ↔
        state.migrations.bind appendToNil = state.migrations := by
      constructor
      · intro h
        have hstate := Observation.state.inj h
        exact congrArg StreamState.migrations hstate
      · intro h
        simp only [nilSlices, h]
    rw [ne_eq, heq, hiff, not_not]
    simp
  | _ => simp [nilSlices]

/-! ## Calls below the limits -/

/-- The entry can be encoded, and both limits leave room for it. -/
def Memory.RoomFor (m : Memory) (bytes : Int) (size : Option Nat) : Prop :=
  match size with
  | none => False
  | some size =>
    bytes + size ≤ m.config.maxBytesPerStream ∧ m.totalBytes + size ≤ m.config.maxTotalBytes

instance (m : Memory) (bytes : Int) (size : Option Nat) : Decidable (m.RoomFor bytes size) := by
  unfold Memory.RoomFor
  cases size <;> infer_instance

/-- There is room for the next entry of an active stream, and its sequence is a
number that Lua prints in full. -/
def Memory.RoomForNext (envelopeLen : Entry → Option Nat) (m : Memory) (now : Int)
    (id : StreamID) (kind : EntryKind) (payload : RawMessage) : Prop :=
  match m.streams.lookup id with
  | none => True
  | some stream =>
    stream.Active → stream.lastSeq + 1 < 10 ^ 14 ∧
      m.RoomFor stream.bytes (envelopeLen (entryOf kind payload (stream.lastSeq + 1) now))

instance (envelopeLen : Entry → Option Nat) (m : Memory) (now : Int) (id : StreamID)
    (kind : EntryKind) (payload : RawMessage) :
    Decidable (m.RoomForNext envelopeLen now id kind payload) := by
  unfold Memory.RoomForNext
  cases m.streams.lookup id <;> infer_instance

/-- The operation reaches no limit. -/
def Memory.Fits (envelopeLen : Entry → Option Nat) (m : Memory) (now : Int) :
    Operation → Prop
  | .open id metadata =>
    m.streams.lookup id.1 = none →
      m.RoomFor 0 (envelopeLen (entryOf .kindOpen (openPayload id metadata) 1 now))
  | .append id record _ _ => m.RoomForNext envelopeLen now id record.kind record.payload
  | .close id record _ _ => m.RoomForNext envelopeLen now id record.kind record.payload
  | _ => True

instance (envelopeLen : Entry → Option Nat) (m : Memory) (now : Int) (op : Operation) :
    Decidable (m.Fits envelopeLen now op) := by
  unfold Memory.Fits
  cases op <;> infer_instance

/-- No stream expires at the time. -/
def Memory.NoneExpires (m : Memory) (now : Int) : Prop :=
  ∀ id ∈ m.streams.keys, ((m.streams.lookup id).all fun stream => stream.kept now) = true

instance (m : Memory) (now : Int) : Decidable (m.NoneExpires now) :=
  inferInstanceAs (Decidable (∀ id ∈ m.streams.keys, _))

/-- The turns of the cleanup leave a store alone whose streams are all kept. -/
private theorem foldl_expireStream_quiet (h : m.NoneExpires now) :
    ∀ ids : List StreamID, (∀ id ∈ ids, id ∈ m.streams.keys) →
      ids.foldl (expireStream now) m = m := by
  intro ids
  induction ids with
  | nil => intro _; rfl
  | cons id rest ih =>
    intro hids
    have hkept := h id (hids id List.mem_cons_self)
    have hturn : expireStream now m id = m := by
      unfold expireStream
      cases hlookup : m.streams.lookup id with
      | none => rfl
      | some stream =>
        rw [hlookup] at hkept
        simp only [Option.all_some] at hkept
        simp [hkept]
    rw [List.foldl_cons, hturn]
    exact ih fun other hother => hids other (List.mem_cons_of_mem _ hother)

/-- Without tombstones and without expiry the cleanup changes nothing. -/
theorem cleanupExpiredLocked_quiet (h : m.NoneExpires now)
    (htombstones : ∀ id, m.tombstones.lookup id = none) : cleanupExpiredLocked m now = m := by
  have hbury : expireTombstones m.tombstones now = m.tombstones := by
    unfold expireTombstones
    refine List.foldlRecOn _ _ (motive := fun rest => rest = m.tombstones) rfl ?_
    intro rest hrest id _
    rw [htombstones id]
    exact hrest
  unfold cleanupExpiredLocked
  rw [hbury]
  exact foldl_expireStream_quiet h m.streams.keys fun _ hid => hid

/-- Below the limits nothing has to be trimmed or evicted. -/
theorem makeRoomLocked_room {stream : Option MemoryStream} {size : Nat} {bytes : Int}
    (hbytes : ∀ s, stream = some s → s.bytes = bytes) (hnonneg : 0 ≤ bytes)
    (hroom : m.RoomFor bytes (some size)) (now : Int) :
    makeRoomLocked m stream size now = .ok (m, 0) := by
  obtain ⟨hstream, htotal⟩ := hroom
  have hsize : ¬ (size : Int) > m.config.maxBytesPerStream := by omega
  have htrim : trimFor m stream size = some (0, 0) := by
    unfold trimFor
    cases hs : stream with
    | none => rfl
    | some s =>
      have hkeep : ¬ s.bytes - 0 > m.config.maxBytesPerStream - size := by
        have := hbytes s hs
        omega
      simp only
      rw [trimLoop.eq_def]
      exact if_neg hkeep
  have hfree : bytesToFree m 0 size = 0 := by
    unfold bytesToFree
    simp only [Int.sub_zero]
    rw [if_neg (by omega)]
  have hvictims : ∀ self ids, selectVictims m.streams self 0 ids 0 = ([], 0) := by
    intro self ids
    cases ids with
    | nil => rfl
    | cons id rest => simp [selectVictims]
  unfold makeRoomLocked
  rw [if_neg hsize, htrim]
  simp only [hfree, hvictims, Int.lt_irrefl, if_false]
  rfl

/-! ## The relation -/

/-- The stream keeps the log. -/
structure MemoryStream.Holds (stream : MemoryStream) (id : StreamID) (log : LogStream) :
    Prop where
  id_eq : stream.id = id
  metadata : stream.metadata = log.metadata
  origin : stream.originBackend = log.metadata.backendID
  items : stream.entries.map (·.entry.item) = log.items
  earliest : stream.earliestSeq = 1
  last : stream.lastSeq = log.lastSeq
  status : stream.status = log.ending.status
  resumable : stream.resumable = log.ending.resumable
  degraded : stream.degraded = log.ending.isDegraded
  derived : (⟨stream.currentBackend, stream.usage, stream.migrations⟩ : Derived) = log.derived
  terminal : (stream.terminal.map fun terminal => { terminal with ts := 0 }) =
    log.ending.terminal log.lastSeq
  bytes_nonneg : 0 ≤ stream.bytes

/-- The store keeps the journal. -/
structure Memory.Holds (m : Memory) (j : LogJournal) : Prop where
  live : ∀ id stream, m.streams.lookup id = some stream →
    ∃ log, j id = some log ∧ stream.Holds id log
  missing : ∀ id, m.streams.lookup id = none → j id = none
  tombstones : ∀ id, m.tombstones.lookup id = none

namespace MemoryStream.Holds

theorem length (h : stream.Holds id log) : stream.entries.length = log.lastSeq := by
  rw [← log.length_items, ← h.items, List.length_map]

/-- The snapshot of the stream is the state of the log, up to the nil slice. -/
theorem snapshotState_eq (h : stream.Holds id log) :
    (snapshotState stream).timeless =
      { log.state id with migrations := appendToNil log.derived.migrations } := by
  have hderived := h.derived
  simp only [snapshotState, StreamState.timeless, LogStream.state, h.id_eq, h.status, h.resumable,
    h.metadata, h.origin, h.earliest, h.last, h.terminal]
  rw [← hderived]

/-- The entries after a cursor are the records after it. -/
theorem entriesAfter_items (h : stream.Holds id log) (fromSeq : Nat) :
    (entriesAfter stream fromSeq).map Entry.item = log.items.drop fromSeq := by
  rw [← log.items_after, ← h.items, entriesAfter, List.filter_map, List.map_map,
    List.filter_map]
  rfl

/-- Applying an entry to the stream derives what the entry derives. -/
theorem applyStateEntryLocked_derived (s : MemoryStream) (entry : Entry) :
    (⟨(applyStateEntryLocked s entry).currentBackend, (applyStateEntryLocked s entry).usage,
      (applyStateEntryLocked s entry).migrations⟩ : Derived) =
      (⟨s.currentBackend, s.usage, s.migrations⟩ : Derived).apply entry.item := by
  by_cases hkind : entry.kind = .kindMigration
  · cases hmigration : decodeMigration entry.seq entry.payload <;>
      cases husage : decodeUsage entry.payload <;>
        simp [applyStateEntryLocked, Derived.apply, Entry.item, hkind, hmigration, husage]
  · cases husage : decodeUsage entry.payload <;>
      simp [applyStateEntryLocked, Derived.apply, Entry.item, hkind, husage]

/-- A committed entry is one more record of a live log.  The ending of the log is
that of the new log only after `Close` has set the status of the stream. -/
theorem commit (h : stream.Holds id log) (log' : LogStream) (hmeta : log'.metadata = log.metadata)
    (hrecords : log'.records = log.records ++ [(kind, payload)]) (size : Nat) (now : Int) :
    let stored : StoredEntry := ⟨entryOf kind payload (stream.lastSeq + 1) now, size⟩
    let committed := commitStream stream 0 stored now
    committed.id = id ∧ committed.metadata = log'.metadata ∧
      committed.originBackend = log'.metadata.backendID ∧
      committed.entries.map (·.entry.item) = log'.items ∧ committed.earliestSeq = 1 ∧
      committed.lastSeq = log'.lastSeq ∧ committed.status = stream.status ∧
      committed.resumable = stream.resumable ∧ committed.degraded = stream.degraded ∧
      (⟨committed.currentBackend, committed.usage, committed.migrations⟩ : Derived) =
        log'.derived ∧
      committed.terminal = stream.terminal ∧ 0 ≤ committed.bytes := by
  intro stored committed
  have hpush : committed = applyStateEntryLocked (pushEntry stream stored now) stored.entry := rfl
  obtain ⟨migrations, backend, usage, happly⟩ :=
    applyStateEntryLocked_eq (pushEntry stream stored now) stored.entry
  have hne : stream.entries.length ≠ 0 := by
    have := log.lastSeq_pos
    rw [h.length]
    omega
  have hderived := applyStateEntryLocked_derived (pushEntry stream stored now) stored.entry
  rw [← hpush] at hderived
  have hfields := hpush.trans happly
  have hbytes := h.bytes_nonneg
  refine ⟨?_, ?_, ?_, ?_, ?_, ?_, ?_, ?_, ?_, ?_, ?_, ?_⟩
  · rw [hfields]; exact h.id_eq
  · rw [hfields, hmeta]; exact h.metadata
  · rw [hfields, hmeta]; exact h.origin
  · rw [hfields, LogStream.items_concat hrecords]
    simp only [pushEntry, List.map_append, h.items, List.map_cons, List.map_nil]
    rw [← h.last]
    rfl
  · rw [hfields]
    simp only [pushEntry, if_neg hne]
    exact h.earliest
  · rw [hfields, LogStream.lastSeq_concat hrecords, ← h.last]
    rfl
  · rw [hfields]; rfl
  · rw [hfields]; rfl
  · rw [hfields]; rfl
  · rw [hderived, LogStream.derived_concat hmeta hrecords, ← h.derived, ← h.last]
    rfl
  · rw [hfields]; rfl
  · rw [hfields]
    simp only [pushEntry]
    omega

end MemoryStream.Holds

/-! ## One call -/

namespace Memory.Holds

variable {j : LogJournal}

theorem newMemory {config : Config} (h : newMemory config = .ok m) : m.Holds .empty := by
  have hlookup : ∀ id, m.streams.lookup id = none ∧ m.tombstones.lookup id = none := by
    simp only [Journal.newMemory] at h
    split at h
    · cases h
    · cases h
      exact fun id => ⟨AList.lookup_empty id, AList.lookup_empty id⟩
  refine ⟨fun id stream hstream => ?_, fun _ _ => rfl, fun id => (hlookup id).2⟩
  rw [(hlookup id).1] at hstream
  cases hstream

/-- A stream that is written under its identifier. -/
theorem insert (h : m.Holds j) {m' : Memory} (hstreams : m'.streams = m.streams.insert id stream)
    (htombstones : m'.tombstones = m.tombstones) (hholds : stream.Holds id log) :
    m'.Holds (j.set id log) := by
  have hlookup : ∀ key, m'.streams.lookup key =
      if key = id then some stream else m.streams.lookup key := by
    intro key
    rw [hstreams]
    by_cases hkey : key = id
    · rw [if_pos hkey, hkey, AList.lookup_insert]
    · rw [if_neg hkey, AList.lookup_insert_ne hkey]
  refine ⟨fun key s hs => ?_, fun key hnone => ?_, fun key => htombstones ▸ h.tombstones key⟩
  · rw [hlookup] at hs
    by_cases hkey : key = id
    · rw [if_pos hkey] at hs
      cases hs
      subst hkey
      exact ⟨log, j.set_self key log, hholds⟩
    · rw [if_neg hkey] at hs
      rw [j.set_of_ne log hkey]
      exact h.live key s hs
  · rw [hlookup] at hnone
    by_cases hkey : key = id
    · rw [if_pos hkey] at hnone
      cases hnone
    · rw [if_neg hkey] at hnone
      rw [j.set_of_ne log hkey]
      exact h.missing key hnone

/-- The LRU list is not part of the relation. -/
theorem touch (h : m.Holds j) (stream : MemoryStream) :
    (touchTerminalLocked m stream).Holds j := by
  unfold touchTerminalLocked
  split
  · exact ⟨h.live, h.missing, h.tombstones⟩
  · exact h

/-- The stream that a method finds, and what the method does when it finds none. -/
theorem withStream_eq (h : m.Holds j) (hquiet : m.NoneExpires now) (id : StreamID)
    (body : Memory → MemoryStream → Memory × Reply) :
    (m.streams.lookup id = none ∧ j id = none ∧
      withStream m id now body = (m, .error { sentinel := .errNotFound, detail := id })) ∨
    ∃ stream log, m.streams.lookup id = some stream ∧ j id = some log ∧ stream.Holds id log ∧
      withStream m id now body = body m stream := by
  have hclean := cleanupExpiredLocked_quiet hquiet h.tombstones
  unfold withStream
  rw [hclean]
  cases hlookup : m.streams.lookup id with
  | none =>
    refine .inl ⟨rfl, h.missing id hlookup, ?_⟩
    simp [findLocked, hlookup, h.tombstones id]
  | some stream =>
    obtain ⟨log, hlog, hholds⟩ := h.live id stream hlookup
    refine .inr ⟨stream, log, rfl, hlog, hholds, ?_⟩
    simp [findLocked, hlookup]

end Memory.Holds

/-- The checks before a write, by the ending of the log. -/
theorem checkWritable_of_holds (h : stream.Holds id log)
    (hseq : log.ending = .live → stream.lastSeq ≠ maxUint64) :
    match log.ending with
    | .live => checkWritable stream = .ok ()
    | .degraded => checkWritable stream = .error { sentinel := .errDegraded, detail := stream.id }
    | .closed _ => checkWritable stream = .error (terminalError stream) := by
  have hstatus := h.status
  have hdegraded := h.degraded
  cases hending : log.ending with
  | live =>
    simp only [hending, Ending.status, Ending.isDegraded] at hstatus hdegraded
    simp [checkWritable, hstatus, hdegraded, hseq hending]
  | degraded =>
    simp only [hending, Ending.status, Ending.isDegraded] at hstatus hdegraded
    simp [checkWritable, hstatus, hdegraded]
  | closed record =>
    simp only [hending, Ending.status] at hstatus
    simp [checkWritable, hstatus, statusForTerminal_ne_open record.terminal]

/-- A record of a log that is still live is active in the store. -/
theorem MemoryStream.Holds.active (h : stream.Holds id log) (hlive : log.ending = .live) :
    stream.Active := by
  refine ⟨?_, ?_⟩
  · rw [h.status, hlive]; rfl
  · rw [h.degraded, hlive]; rfl

/-- The commit of a valid entry to a live stream that has room for it. -/
theorem commitNext_room {envelopeLen : Entry → Option Nat} (h : stream.Holds id log)
    (hlookup : m.streams.lookup id = some stream) (hlive : log.ending = .live)
    (hvalid : validatePayload payload = .ok ())
    (hroom : m.RoomForNext envelopeLen now id kind payload) (seq : Nat) (ts : Int) :
    ∃ m' size, commitNext envelopeLen m stream (entryOf kind payload seq ts) now =
        .ok (m', commitStream stream 0 ⟨entryOf kind payload (stream.lastSeq + 1) now, size⟩ now,
          ⟨entryOf kind payload (stream.lastSeq + 1) now, size⟩) ∧
      m'.config = m.config ∧ m'.tombstones = m.tombstones ∧
      m'.streams = m.streams.insert id
        (commitStream stream 0 ⟨entryOf kind payload (stream.lastSeq + 1) now, size⟩ now) := by
  unfold Memory.RoomForNext at hroom
  rw [hlookup] at hroom
  obtain ⟨hseq, hroom⟩ := hroom (h.active hlive)
  cases hsize : envelopeLen (entryOf kind payload (stream.lastSeq + 1) now) with
  | none =>
    rw [hsize] at hroom
    exact hroom.elim
  | some size =>
    rw [hsize] at hroom
    have hcheck := checkWritable_of_holds h fun _ => by
      have : maxUint64 = 2 ^ 64 - 1 := rfl
      omega
    simp only [hlive] at hcheck
    have hprepare : prepareEntry envelopeLen (entryOf kind payload seq ts) (stream.lastSeq + 1)
        now = .ok ⟨entryOf kind payload (stream.lastSeq + 1) now, size⟩ := by
      unfold entryOf at hsize
      simp [prepareEntry, entryOf, hvalid, hsize]
    have hmake : makeRoomLocked m (some stream) size now = .ok (m, 0) :=
      makeRoomLocked_room (fun s hs => by cases hs; rfl) h.bytes_nonneg hroom now
    obtain ⟨readers, -, hinstall⟩ := installEntry_eq m stream 0
      ⟨entryOf kind payload (stream.lastSeq + 1) now, size⟩ now
    refine ⟨(installEntry m stream 0
      ⟨entryOf kind payload (stream.lastSeq + 1) now, size⟩ now).1, size, ?_, ?_, ?_, ?_⟩
    · simp only [commitNext, hcheck, hprepare, commitLocked, hmake, hinstall]
    · rw [hinstall]
    · rw [hinstall]
    · rw [hinstall, h.id_eq]

/-- A write that is refused because the log has ended. -/
theorem commitNext_refused (envelopeLen : Entry → Option Nat) (m : Memory)
    (h : stream.Holds id log) (hended : log.ending ≠ .live) (entry : Entry) (now : Int) :
    ∃ err, commitNext envelopeLen m stream entry now = .error (.error err) ∧
      err.sentinel = match log.ending with
        | .closed _ => Sentinel.errTerminalState
        | _ => .errDegraded := by
  have hcheck := checkWritable_of_holds h fun hlive => absurd hlive hended
  cases hending : log.ending with
  | live => exact absurd hending hended
  | degraded =>
    simp only [hending] at hcheck
    exact ⟨{ sentinel := .errDegraded, detail := stream.id },
      by simp only [commitNext, hcheck], rfl⟩
  | closed record =>
    simp only [hending] at hcheck
    exact ⟨terminalError stream, by simp only [commitNext, hcheck], rfl⟩

section Perform

variable {envelopeLen : Entry → Option Nat} {j : LogJournal}

/-- What is proved of every call. -/
def Refines (m : Memory) (result : Memory × Reply) (expected : LogJournal × Observation) : Prop :=
  result.1.Holds expected.1 ∧ result.1.config = m.config ∧
    result.2.observe = expected.2.nilSlices

theorem touch_config (m : Memory) (stream : MemoryStream) :
    (touchTerminalLocked m stream).config = m.config := by
  unfold touchTerminalLocked
  split <;> rfl

theorem open_refines (h : m.Holds j) (hquiet : m.NoneExpires now) (id : ValidID)
    (metadata : Meta) (hfits : m.Fits envelopeLen now (.open id metadata)) :
    Refines m (m.open envelopeLen {} id metadata now) (j.step m.config.ttl (.open id metadata)) := by
  have hvalid : validateStreamID id.1 = true := id.2
  have hunfold : m.open envelopeLen {} id metadata now =
      withLock m {} (checkOpen m id metadata) fun m => openLocked envelopeLen m id metadata now :=
    rfl
  rw [hunfold]
  simp only [LogJournal.step]
  by_cases hrefused : retentionOf m.config.ttl metadata < 0 ∨
      retentionOf m.config.ttl metadata > maxInt64 / 2
  · have hcheck : checkOpen m id.1 metadata = .error {
        sentinel := .errInvalidEntry
        detail := "retention TTL must be positive and safely bounded" } := by
      unfold checkOpen
      rw [hvalid, if_neg (by simp)]
      exact if_pos hrefused
    rw [hcheck, if_pos hrefused]
    exact ⟨h, rfl, rfl⟩
  · have hcheck : checkOpen m id.1 metadata = .ok () := by
      unfold checkOpen
      rw [hvalid, if_neg (by simp)]
      exact if_neg hrefused
    rw [hcheck, if_neg hrefused]
    have hbody : withLock m {} (.ok ()) (fun m => openLocked envelopeLen m id metadata now) =
        openLocked envelopeLen m id metadata now := rfl
    rw [hbody]
    unfold openLocked
    rw [cleanupExpiredLocked_quiet hquiet h.tombstones]
    cases hlookup : m.streams.lookup id.1 with
    | some stream =>
      obtain ⟨log, hlog, -⟩ := h.live id stream hlookup
      simp only [hlookup, Option.isSome_some, true_or, if_true, hlog]
      exact ⟨h, rfl, rfl⟩
    | none =>
      have hroom := hfits hlookup
      cases hsize : envelopeLen (entryOf .kindOpen (openPayload id metadata) 1 now) with
      | none =>
        rw [hsize] at hroom
        exact hroom.elim
      | some size =>
        rw [hsize] at hroom
        have hprepare : prepareEntry envelopeLen
            { seq := 0, ts := 0, kind := .kindOpen, payload := openPayload id metadata, err := none }
            1 now = .ok ⟨entryOf .kindOpen (openPayload id metadata) 1 now, size⟩ := by
          unfold entryOf at hsize
          simp [prepareEntry, entryOf, LogStream.openPayload_valid, hsize]
        have hmake : makeRoomLocked m none size now = .ok (m, 0) :=
          makeRoomLocked_room (fun s hs => by cases hs) (Int.le_refl 0) hroom now
        simp only [hlookup, Option.isSome_none, h.tombstones id, Bool.false_eq_true, or_self, if_false,
          h.missing id hlookup, hprepare, hmake]
        refine ⟨h.insert rfl rfl ?_, rfl, rfl⟩
        exact {
          id_eq := rfl
          metadata := rfl
          origin := rfl
          items := rfl
          earliest := rfl
          last := rfl
          status := rfl
          resumable := rfl
          degraded := rfl
          derived := (LogStream.derived_create id metadata).symm
          terminal := rfl
          bytes_nonneg := by
            show (0 : Int) ≤ (size : Int)
            omega }

/-- A write: the commit, and what the method does after it. -/
theorem write_refines (h : m.Holds j) (hquiet : m.NoneExpires now) (id : StreamID)
    (hvalid : validatePayload payload = .ok ())
    (hroom : m.RoomForNext envelopeLen now id kind payload) (seq : Nat) (ts : Int)
    (after : Memory → MemoryStream → StoredEntry → Memory × Reply) {f : LogStream → LogStream}
    {reply : LogStream → Observation}
    (hafter : ∀ m' stream log size, stream.Holds id log → log.ending = .live →
      m'.config = m.config → m'.tombstones = m.tombstones →
      m'.streams = m.streams.insert id
        (commitStream stream 0 ⟨entryOf kind payload (stream.lastSeq + 1) now, size⟩ now) →
      Refines m
        (after m' (commitStream stream 0 ⟨entryOf kind payload (stream.lastSeq + 1) now, size⟩ now)
          ⟨entryOf kind payload (stream.lastSeq + 1) now, size⟩)
        (j.set id (f log), reply log)) :
    Refines m
      (withStream m id now fun m stream =>
        match commitNext envelopeLen m stream (entryOf kind payload seq ts) now with
        | .error failure => (m, .failed failure)
        | .ok (m, stream, stored) => after m stream stored)
      (j.write id f reply) := by
  unfold LogJournal.write
  rcases h.withStream_eq hquiet id _ with ⟨-, hnone, heq⟩ | ⟨stream, log, hlookup, hlog, hholds, heq⟩
  · rw [heq, hnone]
    exact ⟨h, rfl, rfl⟩
  · rw [heq, hlog]
    by_cases hlive : log.ending = .live
    · obtain ⟨m', size, hcommit, hconfig, htombstones, hstreams⟩ :=
        commitNext_room hholds hlookup hlive hvalid hroom seq ts
      simp only [hcommit, hlive]
      exact hafter m' stream log size hholds hlive hconfig htombstones hstreams
    · obtain ⟨err, hcommit, herr⟩ := commitNext_refused envelopeLen m hholds hlive
        (entryOf kind payload seq ts) now
      simp only [hcommit]
      cases hending : log.ending with
      | live => exact absurd hending hlive
      | degraded | closed =>
        simp only [hending] at herr
        exact ⟨h, rfl, congrArg Observation.failed herr⟩

theorem append_refines (h : m.Holds j) (hquiet : m.NoneExpires now) (id : ValidID)
    (record : BodyRecord) (seq : Nat) (ts : Int)
    (hfits : m.Fits envelopeLen now (.append id record seq ts)) :
    Refines m (m.append envelopeLen {} id (entryOf record.kind record.payload seq ts) now)
      (j.step m.config.ttl (.append id record seq ts)) := by
  have hunfold : m.append envelopeLen {} id (entryOf record.kind record.payload seq ts) now =
      withStream m id now fun m stream =>
        match commitNext envelopeLen m stream (entryOf record.kind record.payload seq ts) now with
        | .error failure => (m, .failed failure)
        | .ok (m, _, stored) => (m, .seq stored.entry.seq) := by
    have happendable : (entryOf record.kind record.payload seq ts).kind.appendable = true :=
      record.appendable
    unfold Memory.append
    rw [happendable]
    rfl
  rw [hunfold]
  refine write_refines h hquiet id.1 record.valid hfits seq ts
    (fun m _ stored => (m, .seq stored.entry.seq)) ?_
  intro m' stream log size hholds hlive hconfig htombstones hstreams
  refine ⟨h.insert hstreams htombstones ?_, hconfig, ?_⟩
  · obtain ⟨hid, hmeta, horigin, hitems, hearliest, hlast, hstatus, hresumable, hdegraded,
      hderived, hterminal, hbytes⟩ := hholds.commit (log.push record) rfl
      (log.records_push hlive record) size now
    have hsame : (log.push record).ending = log.ending := rfl
    refine ⟨hid, hmeta, horigin, hitems, hearliest, hlast, ?_, ?_, ?_, hderived, ?_, hbytes⟩
    · rw [hstatus, hholds.status, hsame]
    · rw [hresumable, hholds.resumable, hsame]
    · rw [hdegraded, hholds.degraded, hsame]
    · rw [hterminal, hholds.terminal, hsame, hlive]
      rfl
  · show Observation.seq (stream.lastSeq + 1) = _
    rw [hholds.last]
    rfl

theorem close_refines (h : m.Holds j) (hquiet : m.NoneExpires now) (id : ValidID)
    (record : FinalRecord) (seq : Nat) (ts : Int)
    (hfits : m.Fits envelopeLen now (.close id record seq ts)) :
    Refines m (m.close envelopeLen {} id (entryOf record.kind record.payload seq ts) now)
      (j.step m.config.ttl (.close id record seq ts)) := by
  have hunfold : m.close envelopeLen {} id (entryOf record.kind record.payload seq ts) now =
      withStream m id now fun m stream =>
        match commitNext envelopeLen m stream (entryOf record.kind record.payload seq ts) now with
        | .error failure => (m, .failed failure)
        | .ok (m, stream, stored) =>
          ({ m with
              streams := m.streams.insert stream.id (closeStream stream stored.entry now)
              terminalLRU := stream.id :: m.terminalLRU },
            .done) := by
    have hterminal : (entryOf record.kind record.payload seq ts).kind.terminal = true :=
      record.terminal
    unfold Memory.close
    rw [hterminal]
    rfl
  rw [hunfold]
  refine write_refines h hquiet id.1 record.valid hfits seq ts
    (fun m stream stored =>
      ({ m with
          streams := m.streams.insert stream.id (closeStream stream stored.entry now)
          terminalLRU := stream.id :: m.terminalLRU },
        .done)) ?_
  intro m' stream log size hholds hlive hconfig htombstones hstreams
  obtain ⟨hid, hmeta, horigin, hitems, hearliest, hlast, -, -, hdegraded, hderived, -, hbytes⟩ :=
    hholds.commit (log.finish (.closed record)) rfl (log.records_close hlive record)
      size now
  have hclosed : (closeStream (commitStream stream 0
      ⟨entryOf record.kind record.payload (stream.lastSeq + 1) now, size⟩ now)
      (entryOf record.kind record.payload (stream.lastSeq + 1) now) now).Holds id.1
        (log.finish (.closed record)) := by
    refine ⟨hid, hmeta, horigin, hitems, hearliest, hlast, rfl, rfl, ?_, hderived, ?_, hbytes⟩
    · have hlog := hholds.degraded
      rw [hlive] at hlog
      exact hdegraded.trans hlog
    · have hseq : (log.finish (.closed record)).lastSeq = stream.lastSeq + 1 := by
        rw [LogStream.lastSeq_concat (log.records_close hlive record), hholds.last]
      rw [hseq]
      rfl
  refine ⟨h.insert ?_ htombstones hclosed, hconfig, rfl⟩
  simp only [hstreams, hid]
  exact AList.insert_insert ..

/-- A stream that is still open becomes a degraded one, whether it was degraded
before or not. -/
theorem MemoryStream.Holds.degrade (h : stream.Holds id log)
    (hopen : ∀ record, log.ending ≠ .closed record) (updatedAt expiresAt : Int) :
    ({ stream with degraded := true, updatedAt := updatedAt, expiresAt := expiresAt } :
      MemoryStream).Holds id (log.finish .degraded) := by
  obtain ⟨hstatus, hresumable, -, hterminal⟩ := Ending.of_not_closed hopen log.lastSeq
  have hfinish := log.records_degrade hopen
  refine ⟨h.id_eq, h.metadata, h.origin, ?_, h.earliest, ?_, ?_, ?_, rfl, ?_, ?_,
    h.bytes_nonneg⟩
  · rw [LogStream.items, hfinish]
    exact h.items
  · rw [LogStream.lastSeq, hfinish]
    exact h.last
  · exact h.status.trans hstatus
  · exact h.resumable.trans hresumable
  · rw [LogStream.derived, LogStream.items, hfinish]
    exact h.derived
  · exact h.terminal.trans hterminal

theorem markDegraded_refines (h : m.Holds j) (hquiet : m.NoneExpires now) (id : ValidID) :
    Refines m (m.markDegraded {} id now) (j.step m.config.ttl (.markDegraded id)) := by
  simp only [Memory.markDegraded, withLock, LogJournal.step]
  rcases h.withStream_eq hquiet id.1 _ with ⟨-, hnone, heq⟩ | ⟨stream, log, hlookup, hlog, hholds, heq⟩
  · rw [heq, LogJournal.degrade, hnone]
    exact ⟨h, rfl, rfl⟩
  · rw [heq]
    have hstatus := hholds.status
    by_cases hclosed : ∃ record, log.ending = .closed record
    · obtain ⟨record, hending⟩ := hclosed
      rw [hending] at hstatus
      have hne : stream.status ≠ .statusOpen := by
        rw [hstatus]
        exact statusForTerminal_ne_open record.terminal
      simp only [if_pos hne, LogJournal.degrade, hlog, hending]
      exact ⟨h, rfl, rfl⟩
    · have hopen : ∀ record, log.ending ≠ .closed record :=
        fun record hending => hclosed ⟨record, hending⟩
      have hsealed := hholds.degrade hopen now (now + stream.retentionTTL)
      have hstatusOpen : ¬ stream.status ≠ .statusOpen := by
        rw [hstatus, (Ending.of_not_closed hopen 0).1]
        simp
      rw [LogJournal.degrade_open hlog hopen, if_neg hstatusOpen]
      by_cases hdegraded : stream.degraded = true
      · rw [if_pos hdegraded]
        exact ⟨h.insert (by rw [hholds.id_eq]) rfl hsealed, rfl, rfl⟩
      · rw [if_neg hdegraded]
        exact ⟨h.insert (by rw [hholds.id_eq]; rfl) rfl hsealed, rfl, rfl⟩

theorem read_refines (h : m.Holds j) (hquiet : m.NoneExpires now) (id : ValidID)
    (fromSeq : Nat) :
    Refines m (m.read {} id fromSeq now) (j.step m.config.ttl (.read id fromSeq)) := by
  simp only [Memory.read, withLock, LogJournal.step]
  rcases h.withStream_eq hquiet id.1 _ with ⟨-, hnone, heq⟩ | ⟨stream, log, hlookup, hlog, hholds, heq⟩
  · rw [heq, hnone]
    exact ⟨h, rfl, rfl⟩
  · rw [heq, hlog]
    simp only [LogStream.read, ← hholds.resumable, ← hholds.degraded, ← hholds.last]
    by_cases hresumable : stream.resumable = false
    · simp only [if_pos hresumable]
      exact ⟨h, rfl, rfl⟩
    · simp only [if_neg hresumable]
      by_cases hahead : fromSeq > stream.lastSeq
      · have hcursor : validateCursor stream fromSeq = .error {
            sentinel := .errCursorAhead
            detail := s!"cursor {fromSeq} exceeds last sequence {stream.lastSeq}" } :=
          if_pos hahead
        simp only [hcursor, if_pos hahead]
        exact ⟨h, rfl, rfl⟩
      · have hcursor : validateCursor stream fromSeq = .ok () := by
          unfold validateCursor
          rw [if_neg hahead, if_neg]
          rw [hholds.earliest]
          omega
        have hitems := hholds.entriesAfter_items fromSeq
        have hempty : (entriesAfter stream fromSeq).isEmpty = true ↔ fromSeq = stream.lastSeq := by
          rw [List.isEmpty_iff_length_eq_zero, ← List.length_map (f := Entry.item), hitems,
            List.length_drop, log.length_items, ← hholds.last]
          omega
        simp only [hcursor, if_neg hahead, hempty]
        by_cases hgap : stream.degraded = true ∧ fromSeq = stream.lastSeq
        · simp only [if_pos hgap]
          exact ⟨h.touch stream, touch_config m stream, rfl⟩
        · simp only [if_neg hgap]
          refine ⟨h.touch stream, touch_config m stream, ?_⟩
          simp only [Reply.observe, iterate_uninterrupted, hitems, Observation.nilSlices]
          cases stream.degraded <;> rfl

theorem state_refines (h : m.Holds j) (hquiet : m.NoneExpires now) (id : ValidID) :
    Refines m (m.state {} id now) (j.step m.config.ttl (.state id)) := by
  simp only [Memory.state, withLock, LogJournal.step]
  rcases h.withStream_eq hquiet id.1 _ with ⟨-, hnone, heq⟩ | ⟨stream, log, hlookup, hlog, hholds, heq⟩
  · rw [heq, hnone]
    exact ⟨h, rfl, rfl⟩
  · rw [heq, hlog]
    refine ⟨h.touch stream, touch_config m stream, ?_⟩
    simp only [Reply.observe, hholds.snapshotState_eq, Observation.nilSlices]
    rfl

/-- One call of the memory journal is one step of the abstract journal. -/
theorem perform_refines (h : m.Holds j) (hquiet : m.NoneExpires now) (op : Operation)
    (hfits : m.Fits envelopeLen now op) :
    Refines m (m.perform envelopeLen now op) (j.step m.config.ttl op) := by
  cases op with
  | «open» id metadata => exact open_refines h hquiet id metadata hfits
  | append id record seq ts => exact append_refines h hquiet id record seq ts hfits
  | close id record seq ts => exact close_refines h hquiet id record seq ts hfits
  | markDegraded id => exact markDegraded_refines h hquiet id
  | read id fromSeq => exact read_refines h hquiet id fromSeq
  | state id => exact state_refines h hquiet id

end Perform

end Streamweld.Journal
