import Mathlib
import Streamweld.Journal.Types
import Streamweld.Lib.Sequence

/-!
# What a journal is for

An abstract journal, in no particular backend: a stream is the list of the
records that were committed to it, the open record first, and how it ended.  Its
sequence numbers are the positions of the records, its status follows from its
ending, and the rest of its state is a fold over its records.

A stream cannot be ill-formed.  A record of the body has an appendable kind and a
final record a terminal one, both have payloads that the journal accepts, and a
stream is either live, or degraded, or closed by its final record.

`LogJournal.step` is the operation of the methods on it, and an `Observation` is what
a caller can see of a reply: everything but the timestamps and the texts of the
errors.  Both backends are compared with this journal.
-/

namespace Streamweld.Journal

/-! ## Items -/

/-- A committed entry without its timestamp. -/
structure Item where
  seq : Nat
  kind : EntryKind
  payload : RawMessage
  deriving DecidableEq, Repr

def Entry.item (entry : Entry) : Item := ⟨entry.seq, entry.kind, entry.payload⟩

/-- Records under consecutive sequence numbers. -/
def numbered : Nat → List (EntryKind × RawMessage) → List Item
  | _, [] => []
  | seq, (kind, payload) :: rest => ⟨seq, kind, payload⟩ :: numbered (seq + 1) rest

@[simp] theorem length_numbered (seq : Nat) (records : List (EntryKind × RawMessage)) :
    (numbered seq records).length = records.length := by
  induction records generalizing seq with
  | nil => rfl
  | cons record rest ih => simp [numbered, ih]

theorem numbered_append (seq : Nat) (records records' : List (EntryKind × RawMessage)) :
    numbered seq (records ++ records') =
      numbered seq records ++ numbered (seq + records.length) records' := by
  induction records generalizing seq with
  | nil => rfl
  | cons record rest ih =>
    simp only [List.cons_append, numbered, ih, List.length_cons]
    congr 3
    omega

theorem seqs_numbered (seq : Nat) (records : List (EntryKind × RawMessage)) :
    (numbered seq records).map (·.seq) = List.range' seq records.length := by
  induction records generalizing seq with
  | nil => rfl
  | cons record rest ih => simp [numbered, ih, List.range'_succ]

/-- A record of the list, found from its item. -/
theorem mem_of_mem_numbered {seq : Nat} {records : List (EntryKind × RawMessage)} {item : Item}
    (h : item ∈ numbered seq records) : (item.kind, item.payload) ∈ records := by
  induction records generalizing seq with
  | nil => simp [numbered] at h
  | cons record rest ih =>
    rcases List.mem_cons.mp h with rfl | h
    · exact List.mem_cons_self
    · exact List.mem_cons_of_mem _ (ih h)

/-! ## The state that entries determine -/

/-- The fields of a state that are rebuilt from the entries. -/
structure Derived where
  currentBackend : String
  usage : Usage
  migrations : List Migration
  deriving DecidableEq, Repr

/-- What one entry changes. -/
def Derived.apply (d : Derived) (item : Item) : Derived :=
  let d :=
    if item.kind = .kindMigration then
      match decodeMigration item.seq item.payload with
      | some migration =>
        { d with migrations := d.migrations ++ [migration], currentBackend := migration.toBackend }
      | none => d
    else d
  match decodeUsage item.payload with
  | some usage => { d with usage := usage }
  | none => d

def Derived.start (backend : String) : Derived :=
  { currentBackend := backend, usage := Usage.zero, migrations := [] }

/-! ## Streams -/

/-- A record that `Append` accepts. -/
structure BodyRecord where
  kind : EntryKind
  payload : RawMessage
  appendable : kind.appendable = true
  valid : validatePayload payload = .ok ()

/-- A record that `Close` accepts. -/
structure FinalRecord where
  kind : EntryKind
  payload : RawMessage
  terminal : kind.terminal = true
  valid : validatePayload payload = .ok ()

theorem kindWarning_appendable : EntryKind.kindWarning.appendable = true := rfl

theorem kindError_terminal : EntryKind.kindError.terminal = true := rfl

theorem emptyObject_valid : validatePayload (.marshal (.obj [])) = .ok () := rfl

/-- The entry that a record becomes under a sequence. -/
def BodyRecord.item (record : BodyRecord) (seq : Nat) : Item :=
  ⟨seq, record.kind, record.payload⟩

def FinalRecord.item (record : FinalRecord) (seq : Nat) : Item :=
  ⟨seq, record.kind, record.payload⟩

/-- An appendable kind is not terminal. -/
theorem EntryKind.terminal_of_appendable {kind : EntryKind} (h : kind.appendable = true) :
    kind.terminal = false := by
  cases kind <;> simp_all [EntryKind.terminal, EntryKind.appendable]

/-- How far a stream is. -/
inductive Ending where
  | live
  | degraded
  | closed (record : FinalRecord)

namespace Ending

def status : Ending → StreamStatus
  | closed record => statusForTerminal record.kind
  | _ => .statusOpen

def resumable : Ending → Bool
  | closed record => decide (record.kind ≠ .kindStopped)
  | _ => true

def isDegraded : Ending → Bool
  | degraded => true
  | _ => false

def records : Ending → List (EntryKind × RawMessage)
  | closed record => [(record.kind, record.payload)]
  | _ => []

/-- The terminal state of a stream with the last sequence. -/
def terminal (lastSeq : Nat) : Ending → Option TerminalState
  | closed record =>
    some { seq := lastSeq, ts := 0, kind := record.kind, payload := record.payload }
  | _ => none

end Ending

/-- A stream. -/
structure LogStream where
  metadata : Meta
  opening : RawMessage
  body : List BodyRecord
  ending : Ending
  opening_valid : validatePayload opening = .ok ()
  opening_usage : decodeUsage opening = none

namespace LogStream

variable (log : LogStream)

/-- The records without the final one. -/
def openRecords : List (EntryKind × RawMessage) :=
  (.kindOpen, log.opening) :: log.body.map fun record => (record.kind, record.payload)

def records : List (EntryKind × RawMessage) := log.openRecords ++ log.ending.records

def items : List Item := numbered 1 log.records

def lastSeq : Nat := log.records.length

def derived : Derived := log.items.foldl Derived.apply (.start log.metadata.backendID)

/-- The state of the stream, with all times zero. -/
def state (id : StreamID) : StreamState :=
  { streamID := id
    status := log.ending.status
    resumable := log.ending.resumable
    model := log.metadata.model
    modelVersion := log.metadata.modelVersion
    originBackend := log.metadata.backendID
    currentBackend := log.derived.currentBackend
    createdAt := 0
    updatedAt := 0
    earliestSeq := 1
    lastSeq := log.lastSeq
    usage := log.derived.usage
    migrations := some log.derived.migrations
    terminal := log.ending.terminal log.lastSeq }

/-- The open payload is accepted and carries no usage. -/
theorem openPayload_valid (id : StreamID) (metadata : Meta) :
    validatePayload (openPayload id metadata) = .ok () := rfl

/-- A new stream. -/
def create (id : StreamID) (metadata : Meta) : LogStream :=
  { metadata := metadata
    opening := openPayload id metadata
    body := []
    ending := .live
    opening_valid := openPayload_valid id metadata
    opening_usage := decodeUsage_openPayload id metadata }

/-- The stream with one more record. -/
def push (record : BodyRecord) : LogStream := { log with body := log.body ++ [record] }

/-- The stream under another ending. -/
def finish (ending : Ending) : LogStream := { log with ending := ending }

end LogStream

/-! ## Observations -/

/-- A state without its times. -/
def StreamState.timeless (state : StreamState) : StreamState :=
  { state with
    createdAt := 0
    updatedAt := 0
    terminal := state.terminal.map fun terminal => { terminal with ts := 0 } }

/-- What a caller sees of a reply. -/
inductive Observation where
  | done
  | seq (n : Nat)
  | entries (items : List Item) (trailing : Option Sentinel)
  | state (state : StreamState)
  | failed (sentinel : Sentinel)
  /-- a panic, or a call without end -/
  | broken
  deriving DecidableEq, Repr

/-! ## Operations -/

/-- A valid stream identifier. -/
abbrev ValidID := { id : StreamID // validateStreamID id = true }

/-- A call with valid arguments.  An entry that is passed in carries a sequence and a
timestamp, which no journal reads. -/
inductive Operation where
  | open (id : ValidID) (metadata : Meta)
  | append (id : ValidID) (record : BodyRecord) (seq : Nat) (ts : Int)
  | close (id : ValidID) (record : FinalRecord) (seq : Nat) (ts : Int)
  | markDegraded (id : ValidID)
  | read (id : ValidID) (fromSeq : Nat)
  | state (id : ValidID)

/-- A journal. -/
def LogJournal := StreamID → Option LogStream

def LogJournal.empty : LogJournal := fun _ => none

/-- The journal with the stream under the identifier. -/
def LogJournal.set (j : LogJournal) (id : StreamID) (log : LogStream) : LogJournal :=
  Function.update j id (some log)

@[simp] theorem LogJournal.set_self (j : LogJournal) (id : StreamID) (log : LogStream) :
    j.set id log id = some log :=
  Function.update_self ..

theorem LogJournal.set_of_ne (j : LogJournal) {id id' : StreamID} (log : LogStream)
    (h : id' ≠ id) : j.set id log id' = j id' :=
  Function.update_of_ne h ..

/-- What a write does to a live stream. -/
def LogJournal.write (j : LogJournal) (id : StreamID) (f : LogStream → LogStream)
    (reply : LogStream → Observation) : LogJournal × Observation :=
  match j id with
  | none => (j, .failed .errNotFound)
  | some log =>
    match log.ending with
    | .closed _ => (j, .failed .errTerminalState)
    | .degraded => (j, .failed .errDegraded)
    | .live => (j.set id (f log), reply log)

/-- What `MarkDegraded` does. -/
def LogJournal.degrade (j : LogJournal) (id : StreamID) : LogJournal × Observation :=
  match j id with
  | none => (j, .failed .errNotFound)
  | some log =>
    match log.ending with
    | .closed _ => (j, .failed .errTerminalState)
    | _ => (j.set id (log.finish .degraded), .done)

/-- What `Read` answers on a stream. -/
def LogStream.read (log : LogStream) (fromSeq : Nat) : Observation :=
  if log.ending.resumable = false then .failed .errNotResumable
  else if fromSeq > log.lastSeq then .failed .errCursorAhead
  else if log.ending.isDegraded = true ∧ fromSeq = log.lastSeq then .failed .errOffsetExpired
  else
    .entries (log.items.drop fromSeq)
      (if log.ending.isDegraded then some .errOffsetExpired else none)

/-- The retention of a new stream under the configured one. -/
def retentionOf (ttl : Int) (metadata : Meta) : Int :=
  if metadata.retentionTTL = 0 then ttl else metadata.retentionTTL

/-- One call. -/
def LogJournal.step (ttl : Int) (j : LogJournal) : Operation → LogJournal × Observation
  | .open id metadata =>
    if retentionOf ttl metadata < 0 ∨ retentionOf ttl metadata > maxInt64 / 2 then
      (j, .failed .errInvalidEntry)
    else if (j id).isSome then (j, .failed .errAlreadyExists)
    else (j.set id (.create id metadata), .done)
  | .append id record _ _ => j.write id (·.push record) fun log => .seq (log.lastSeq + 1)
  | .close id record _ _ => j.write id (·.finish (.closed record)) fun _ => .done
  | .markDegraded id => j.degrade id
  | .read id fromSeq =>
    match j id with
    | none => (j, .failed .errNotFound)
    | some log => (j, log.read fromSeq)
  | .state id =>
    match j id with
    | none => (j, .failed .errNotFound)
    | some log => (j, .state (log.state id))

/-! ## Lemmas about streams -/

/-- A stream that is not closed is open, and its ending adds no record. -/
theorem Ending.of_not_closed {ending : Ending} (h : ∀ record, ending ≠ .closed record)
    (lastSeq : Nat) :
    ending.status = .statusOpen ∧ ending.resumable = true ∧ ending.records = [] ∧
      ending.terminal lastSeq = none := by
  cases ending with
  | closed record => exact absurd rfl (h record)
  | live | degraded => exact ⟨rfl, rfl, rfl, rfl⟩

theorem LogJournal.degrade_open {j : LogJournal} {id : StreamID} {log : LogStream}
    (hlog : j id = some log) (h : ∀ record, log.ending ≠ .closed record) :
    j.degrade id = (j.set id (log.finish .degraded), .done) := by
  unfold LogJournal.degrade
  cases hending : log.ending with
  | closed record => exact absurd hending (h record)
  | live | degraded => simp only [hlog, hending]

namespace LogStream

variable (log : LogStream)

theorem length_items : log.items.length = log.lastSeq := length_numbered ..

theorem lastSeq_pos : 1 ≤ log.lastSeq := by
  simp [lastSeq, records, openRecords]

/-- The sequences of the items are `1, 2, …, lastSeq`. -/
theorem seqs_items : log.items.map (·.seq) = List.range' 1 log.lastSeq := seqs_numbered ..

theorem consecutive_items : Lib.Consecutive 1 (log.items.map (·.seq)) := by
  rw [Lib.Consecutive, List.length_map, log.length_items]
  exact log.seqs_items

/-- The items after a cursor. -/
theorem items_after (fromSeq : Nat) :
    log.items.filter (fun item => decide (fromSeq < item.seq)) = log.items.drop fromSeq := by
  have hfilter := Lib.Consecutive.filter_eq_drop Item.seq log.consecutive_items fromSeq
  simp only [Nat.add_comm 1 fromSeq, Nat.succ_le_iff] at hfilter
  exact hfilter

theorem head_items : log.items.head? = some ⟨1, .kindOpen, log.opening⟩ := rfl

/-- The items of a live stream that takes one more record. -/
theorem items_concat {log log' : LogStream} {kind : EntryKind} {payload : RawMessage}
    (h : log'.records = log.records ++ [(kind, payload)]) :
    log'.items = log.items ++ [⟨log.lastSeq + 1, kind, payload⟩] := by
  rw [items, h, numbered_append, items, lastSeq, Nat.add_comm 1]
  rfl

theorem lastSeq_concat {log log' : LogStream} {record : EntryKind × RawMessage}
    (h : log'.records = log.records ++ [record]) : log'.lastSeq = log.lastSeq + 1 := by
  rw [lastSeq, h, List.length_append, List.length_singleton, lastSeq]

theorem derived_concat {log log' : LogStream} {kind : EntryKind} {payload : RawMessage}
    (hmeta : log'.metadata = log.metadata)
    (h : log'.records = log.records ++ [(kind, payload)]) :
    log'.derived = log.derived.apply ⟨log.lastSeq + 1, kind, payload⟩ := by
  rw [derived, items_concat h, List.foldl_append, hmeta]
  rfl

theorem records_push (hlive : log.ending = .live) (record : BodyRecord) :
    (log.push record).records = log.records ++ [(record.kind, record.payload)] := by
  simp [records, openRecords, push, hlive, Ending.records]

theorem records_close (hlive : log.ending = .live) (record : FinalRecord) :
    (log.finish (.closed record)).records = log.records ++ [(record.kind, record.payload)] := by
  simp [records, openRecords, finish, hlive, Ending.records]

theorem records_degrade (h : ∀ record, log.ending ≠ .closed record) :
    (log.finish .degraded).records = log.records := by
  rw [records, records, (Ending.of_not_closed h 0).2.2.1]
  rfl

/-- An open record changes nothing. -/
theorem derived_create (id : StreamID) (metadata : Meta) :
    (create id metadata).derived = .start metadata.backendID := by
  have hopen : (Derived.start metadata.backendID).apply
      ⟨1, .kindOpen, openPayload id metadata⟩ = .start metadata.backendID := by
    simp [Derived.apply, decodeUsage_openPayload]
  exact hopen

/-- Every payload of a stream is accepted. -/
theorem valid_of_mem {item : Item} (h : item ∈ log.items) :
    validatePayload item.payload = .ok () := by
  have hmem := mem_of_mem_numbered h
  rcases List.mem_append.mp hmem with hopen | hfinal
  · rcases List.mem_cons.mp hopen with heq | hbody
    · rw [(Prod.mk.inj heq).2]
      exact log.opening_valid
    · obtain ⟨record, -, heq⟩ := List.mem_map.mp hbody
      rw [← (Prod.mk.inj heq).2]
      exact record.valid
  · cases hending : log.ending with
    | live => simp [hending, Ending.records] at hfinal
    | degraded => simp [hending, Ending.records] at hfinal
    | closed record =>
      simp only [hending, Ending.records, List.mem_singleton] at hfinal
      rw [(Prod.mk.inj hfinal).2]
      exact record.valid

/-- The kinds of the records before the final one are not terminal. -/
theorem openRecords_not_terminal {record : EntryKind × RawMessage}
    (h : record ∈ log.openRecords) : record.1.terminal = false := by
  rcases List.mem_cons.mp h with rfl | h
  · rfl
  · obtain ⟨record, -, rfl⟩ := List.mem_map.mp h
    exact EntryKind.terminal_of_appendable record.appendable

/-- A terminal item is the last one of a closed stream. -/
theorem terminal_item {item : Item} (h : item ∈ log.items) (hterminal : item.kind.terminal = true) :
    item.seq = log.lastSeq ∧
      ∃ record, log.ending = .closed record ∧ record.kind = item.kind ∧
        record.payload = item.payload := by
  rw [items, records, numbered_append] at h
  rcases List.mem_append.mp h with hopen | hfinal
  · have hkind := log.openRecords_not_terminal (mem_of_mem_numbered hopen)
    simp [hterminal] at hkind
  · cases hending : log.ending with
    | live => simp [hending, Ending.records, numbered] at hfinal
    | degraded => simp [hending, Ending.records, numbered] at hfinal
    | closed record =>
      simp only [hending, Ending.records, numbered, List.mem_singleton] at hfinal
      subst hfinal
      refine ⟨?_, record, rfl, rfl, rfl⟩
      simp [lastSeq, records, hending, Ending.records]
      omega

/-- The terminal state that a list of items leaves. -/
def lastTerminal (items : List Item) (before : Option TerminalState) : Option TerminalState :=
  items.foldl (fun terminal item =>
    if item.kind.terminal then
      some { seq := item.seq, ts := 0, kind := item.kind, payload := item.payload }
    else terminal) before

/-- Items that are not terminal leave no terminal state. -/
theorem lastTerminal_of_open {items : List Item} (h : ∀ item ∈ items, item.kind.terminal = false)
    (before : Option TerminalState) : lastTerminal items before = before := by
  induction items with
  | nil => rfl
  | cons item rest ih =>
    have hitem := h item List.mem_cons_self
    simp only [lastTerminal, List.foldl_cons, hitem, Bool.false_eq_true, if_false]
    exact ih fun other hother => h other (List.mem_cons_of_mem _ hother)

/-- The items of a stream leave the terminal state of its ending. -/
theorem lastTerminal_items : lastTerminal log.items none = log.ending.terminal log.lastSeq := by
  have hopen : lastTerminal (numbered 1 log.openRecords) none = none :=
    lastTerminal_of_open (fun item hitem =>
      log.openRecords_not_terminal (mem_of_mem_numbered hitem)) none
  rw [items, records, numbered_append, lastTerminal, List.foldl_append]
  change lastTerminal _ (lastTerminal (numbered 1 log.openRecords) none) = _
  rw [hopen]
  cases hending : log.ending with
  | live | degraded => rfl
  | closed record =>
    simp only [Ending.records, Ending.terminal, numbered, lastTerminal, List.foldl_cons,
      List.foldl_nil, record.terminal, if_true, lastSeq, records, hending, List.length_append,
      List.length_singleton]
    congr 2
    omega

/-- The last item is terminal exactly when the stream is closed. -/
theorem getLast_items : ∃ item, log.items.getLast? = some item ∧ item.seq = log.lastSeq ∧
    match log.ending with
    | .closed record => item.kind = record.kind ∧ item.payload = record.payload
    | _ => item.kind.terminal = false := by
  have hne : log.items ≠ [] := by
    intro hnil
    have hlen := log.length_items
    have hpos := log.lastSeq_pos
    rw [hnil, List.length_nil] at hlen
    omega
  refine ⟨log.items.getLast hne, List.getLast?_eq_some_getLast hne, ?_, ?_⟩
  · have hseq : (log.items.map (·.seq)).getLast? = some log.lastSeq := by
      rw [log.seqs_items, List.getLast?_range']
      have := log.lastSeq_pos
      simp only [show log.lastSeq ≠ 0 by omega, if_false, Option.some.injEq]
      omega
    rw [List.getLast?_map, List.getLast?_eq_some_getLast hne] at hseq
    exact Option.some.inj hseq
  · cases hending : log.ending with
    | closed record =>
      have hitems : log.items = numbered 1 log.openRecords ++
          [⟨1 + log.openRecords.length, record.kind, record.payload⟩] := by
        rw [items, records, numbered_append, hending]
        rfl
      simp [hitems]
    | live | degraded =>
      have hmem := List.getLast_mem hne
      by_contra hterminal
      obtain ⟨-, record, hclosed, -⟩ :=
        log.terminal_item hmem (by simpa using hterminal)
      rw [hending] at hclosed
      cases hclosed

end LogStream

end Streamweld.Journal
