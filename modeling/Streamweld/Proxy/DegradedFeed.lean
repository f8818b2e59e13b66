import Streamweld.Redis.Equivalence

/-!
# The degraded feed

The process-local relay of a stream (`internal/proxy/degradation.go`).  Every
reader that subscribes has a queue with a byte budget.  Before degradation the
queue holds shadows of committed entries, which the reader drops by acknowledging
what it got from the journal; after degradation it holds the events that were never
journaled.

`feed.mu` protects the whole feed, so every method is one function on it.  A
broadcast is not one: it takes the list of readers under the lock and then locks
again for each of them, and `Streamweld.Proxy.Runtime` takes it apart accordingly.
-/

namespace Streamweld.Proxy

open Streamweld.Journal Streamweld.Lib

/-! ## Frames -/

/-- `sse.Event`, for text that is UTF-8.  `Streamweld.Sse` has it in bytes. -/
structure Event where
  data : String
  type : String
  id : String
  retry : Int := 0
  comments : List String := []
  hasData : Bool
  hasType : Bool
  hasID : Bool
  hasRetry : Bool := false
  deriving DecidableEq, Repr

def Event.empty : Event :=
  { data := "", type := "", id := "", hasData := false, hasType := false, hasID := false }

/-- `degradedFrame`. -/
structure DegradedFrame where
  entry : Option Item
  event : Event
  terminal : Bool
  verboseOnly : Bool
  size : Int
  deriving DecidableEq, Repr

def degradedEntrySize (entry : Item) : Int := entry.payload.text.utf8ByteSize + 128

def degradedEventSize (event : Event) : Int :=
  (event.data.utf8ByteSize + event.type.utf8ByteSize + event.id.utf8ByteSize : Nat) + 64

/-- The size that `broadcast` gives a frame without one. -/
def DegradedFrame.sized (frame : DegradedFrame) : DegradedFrame :=
  if frame.size ≤ 0 then { frame with size := degradedEventSize frame.event } else frame

@[simp] theorem DegradedFrame.sized_entry (frame : DegradedFrame) :
    frame.sized.entry = frame.entry := by
  unfold sized; split <;> rfl

/-- An entry of `journalSSEMappings`. -/
structure JournalSSEMapping where
  eventType : String
  verboseOnly : Bool
  terminal : Bool

def journalSSEMappings : EntryKind → JournalSSEMapping
  | .kindOpen => ⟨"streamweld.stream.open", false, false⟩
  | .kindChunk => ⟨"", false, false⟩
  | .kindMigration => ⟨"streamweld.stream.migration", true, false⟩
  | .kindWarning => ⟨"streamweld.stream.warning", true, false⟩
  | .kindError => ⟨"streamweld.stream.error", false, true⟩
  | .kindDone => ⟨"streamweld.stream.done", false, true⟩
  | .kindStopped => ⟨"streamweld.stream.stopped", false, true⟩

/-- The shadow of a committed entry (`publishCommitted`). -/
def shadowFrame (entry : Item) : DegradedFrame :=
  { entry := some entry, event := .empty, terminal := false, verboseOnly := false
    size := degradedEntrySize entry }

def degradedChunkFrame (event : Event) : DegradedFrame :=
  let event := { event with id := "", hasID := false }
  { entry := none, event := event, terminal := false, verboseOnly := false
    size := degradedEventSize event }

/-- `degradedEntryFrame` for a kind other than a chunk, whose downstream payload is its
payload. -/
def degradedEntryFrame (kind : EntryKind) (payload : RawMessage) : DegradedFrame :=
  let mapping := journalSSEMappings kind
  let event : Event :=
    { data := payload.text, type := mapping.eventType, id := "", hasData := true
      hasType := mapping.eventType ≠ "", hasID := false }
  { entry := none, event := event, terminal := mapping.terminal
    verboseOnly := mapping.verboseOnly, size := degradedEventSize event }

def degradedWarningFrame : DegradedFrame :=
  let payload := RawMessage.marshal (.obj [
    ("code", .str "journal_degraded"),
    ("message", .str "stream journaling failed; subsequent events are not resumable"),
    ("details", .obj [])])
  let event : Event :=
    { data := payload.text, type := "streamweld.stream.warning", id := "", hasData := true
      hasType := true, hasID := false }
  { entry := none, event := event, terminal := false, verboseOnly := false
    size := degradedEventSize event }

def degradedTerminalFrame (kind : EntryKind) (payload : RawMessage) : DegradedFrame :=
  if kind = .kindDone then
    let event : Event :=
      { data := "[DONE]", type := "", id := "", hasData := true, hasType := false
        hasID := false }
    { entry := none, event := event, terminal := true, verboseOnly := false
      size := degradedEventSize event }
  else degradedEntryFrame kind payload

@[simp] theorem degradedTerminalFrame_entry (kind : EntryKind) (payload : RawMessage) :
    (degradedTerminalFrame kind payload).entry = none := by
  unfold degradedTerminalFrame
  split <;> rfl

/-! ## Subscribers -/

/-- `degradedSubscriber`.  `changed` and `evicted` are signals; `evicted` is closed
exactly when `lagged` is set. -/
structure DegradedSubscriber where
  required : Bool
  queue : List DegradedFrame
  bytes : Int
  ackedSeq : Nat
  lagged : Bool
  deriving DecidableEq, Repr

def committedFrameAcknowledged (subscriber : DegradedSubscriber) (frame : DegradedFrame) : Bool :=
  match frame.entry with
  | some entry => decide (entry.seq ≤ subscriber.ackedSeq)
  | none => false

/-- What `enqueueSecondary` does to the subscriber of an open feed. -/
def DegradedSubscriber.enqueue (maxLagBytes : Int) (frame : DegradedFrame)
    (subscriber : DegradedSubscriber) : DegradedSubscriber :=
  if subscriber.lagged = true ∨ committedFrameAcknowledged subscriber frame = true then subscriber
  else if subscriber.bytes ≠ 0 ∧ subscriber.bytes + frame.size > maxLagBytes then
    { subscriber with queue := [], bytes := 0, lagged := true }
  else
    { subscriber with
      queue := subscriber.queue ++ [frame]
      bytes := subscriber.bytes + frame.size }

/-- The loop of `acknowledge` over the queue. -/
def dropAcknowledged (seq : Nat) : List DegradedFrame → Int → List DegradedFrame × Int
  | [], bytes => ([], bytes)
  | frame :: rest, bytes =>
    match frame.entry with
    | none => (frame :: rest, bytes)
    | some entry =>
      if entry.seq > seq then (frame :: rest, bytes)
      else dropAcknowledged seq rest (bytes - frame.size)

def DegradedSubscriber.acknowledge (seq : Nat) (subscriber : DegradedSubscriber) :
    DegradedSubscriber :=
  if seq = 0 ∨ seq ≤ subscriber.ackedSeq then subscriber
  else
    let (queue, bytes) := dropAcknowledged seq subscriber.queue subscriber.bytes
    { subscriber with ackedSeq := seq, queue := queue, bytes := bytes }

/-! ## The feed -/

/-- `degradedFeed`; the channel `activated` is closed exactly when `active` is set. -/
structure DegradedFeed where
  maxLagBytes : Int
  active : Bool
  boundary : Nat
  closed : Bool
  nextSubscriberID : Nat
  subscribers : AList fun _ : Nat => DegradedSubscriber

def newDegradedFeed (maxLagBytes : Int) : DegradedFeed :=
  { maxLagBytes := maxLagBytes, active := false, boundary := 0, closed := false
    nextSubscriberID := 0, subscribers := ∅ }

namespace DegradedFeed

/-- `subscribe`, with the identifier of the new subscriber. -/
def subscribe (feed : DegradedFeed) (required : Bool) : Option (DegradedFeed × Nat) :=
  if feed.active = true ∨ feed.closed = true then none
  else
    let id := feed.nextSubscriberID + 1
    let subscriber : DegradedSubscriber :=
      { required := required, queue := [], bytes := 0, ackedSeq := 0, lagged := false }
    some ({ feed with
      nextSubscriberID := id
      subscribers := feed.subscribers.insert id subscriber }, id)

def status (feed : DegradedFeed) : Nat × Bool := (feed.boundary, feed.active)

/-- The first part of `activate`, and the frames that it then broadcasts. -/
def activate (feed : DegradedFeed) (boundary : Nat) (frames : List DegradedFrame) :
    DegradedFeed × List DegradedFrame :=
  if feed.closed = true then (feed, [])
  else if feed.active = true then (feed, frames)
  else ({ feed with active := true, boundary := boundary }, frames)

/-- The frames that `append` broadcasts. -/
def append (feed : DegradedFeed) (frames : List DegradedFrame) : List DegradedFrame :=
  if feed.active = true ∧ feed.closed = false then frames else []

def close (feed : DegradedFeed) : DegradedFeed := { feed with closed := true }

/-- The readers that a broadcast reaches. -/
def broadcastReaders (feed : DegradedFeed) : List Nat :=
  if feed.closed = true then [] else feed.subscribers.keys

/-- Change one subscriber. -/
def modify (feed : DegradedFeed) (id : Nat) (f : DegradedSubscriber → DegradedSubscriber) :
    DegradedFeed :=
  match feed.subscribers.lookup id with
  | none => feed
  | some subscriber => { feed with subscribers := feed.subscribers.insert id (f subscriber) }

def enqueueSecondary (feed : DegradedFeed) (id : Nat) (frame : DegradedFrame) : DegradedFeed :=
  if feed.closed = true then feed else feed.modify id (·.enqueue feed.maxLagBytes frame)

def acknowledge (feed : DegradedFeed) (id seq : Nat) : DegradedFeed :=
  feed.modify id (·.acknowledge seq)

/-- What `next` returns. -/
inductive NextResult where
  | frame (frame : DegradedFrame)
  | ended
  | lagged
  deriving DecidableEq, Repr

/-- One turn of the loop of `next`; it waits when there is no answer. -/
def next (feed : DegradedFeed) (id : Nat) : Option (DegradedFeed × NextResult) :=
  match feed.subscribers.lookup id with
  | none => some (feed, .ended)
  | some subscriber =>
    if subscriber.lagged = true then some (feed, .lagged)
    else
      match subscriber.queue with
      | frame :: rest =>
        some (feed.modify id fun subscriber =>
          { subscriber with queue := rest, bytes := subscriber.bytes - frame.size }, .frame frame)
      | [] => if feed.closed = true then some (feed, .ended) else none

def unsubscribe (feed : DegradedFeed) (id : Nat) : DegradedFeed :=
  { feed with subscribers := feed.subscribers.erase id }

/-! ## Lemmas about the fields -/

variable (feed : DegradedFeed) (id : Nat)

/-- What the methods of a subscription leave alone. -/
def Same (feed' : DegradedFeed) : Prop :=
  feed'.maxLagBytes = feed.maxLagBytes ∧ feed'.active = feed.active ∧
    feed'.boundary = feed.boundary ∧ feed'.closed = feed.closed

theorem same_modify (f : DegradedSubscriber → DegradedSubscriber) : feed.Same (feed.modify id f) := by
  unfold modify
  split <;> exact ⟨rfl, rfl, rfl, rfl⟩

theorem same_unsubscribe : feed.Same (feed.unsubscribe id) := ⟨rfl, rfl, rfl, rfl⟩

theorem same_subscribe {feed' : DegradedFeed} {required : Bool}
    (h : feed.subscribe required = some (feed', id)) : feed.Same feed' := by
  unfold subscribe at h
  split at h
  · cases h
  · cases h
    exact ⟨rfl, rfl, rfl, rfl⟩

theorem same_next {feed' : DegradedFeed} {result : NextResult}
    (h : feed.next id = some (feed', result)) : feed.Same feed' := by
  unfold next at h
  split at h
  · cases h
    exact ⟨rfl, rfl, rfl, rfl⟩
  · split at h
    · cases h
      exact ⟨rfl, rfl, rfl, rfl⟩
    · split at h
      · cases h
        exact feed.same_modify id _
      · split at h
        · cases h
          exact ⟨rfl, rfl, rfl, rfl⟩
        · cases h

@[simp] theorem modify_active (f : DegradedSubscriber → DegradedSubscriber) :
    (feed.modify id f).active = feed.active := by
  unfold modify; split <;> rfl

@[simp] theorem modify_boundary (f : DegradedSubscriber → DegradedSubscriber) :
    (feed.modify id f).boundary = feed.boundary := by
  unfold modify; split <;> rfl

@[simp] theorem modify_closed (f : DegradedSubscriber → DegradedSubscriber) :
    (feed.modify id f).closed = feed.closed := by
  unfold modify; split <;> rfl

theorem enqueueSecondary_active (frame : DegradedFrame) :
    (feed.enqueueSecondary id frame).active = feed.active := by
  unfold enqueueSecondary; split <;> simp

theorem enqueueSecondary_boundary (frame : DegradedFrame) :
    (feed.enqueueSecondary id frame).boundary = feed.boundary := by
  unfold enqueueSecondary; split <;> simp

theorem enqueueSecondary_closed (frame : DegradedFrame) :
    (feed.enqueueSecondary id frame).closed = feed.closed := by
  unfold enqueueSecondary; split <;> simp

end DegradedFeed

end Streamweld.Proxy
