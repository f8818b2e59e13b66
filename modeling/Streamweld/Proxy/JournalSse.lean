import Streamweld.Client.SseRoundTrip
import Streamweld.Proxy.Payloads
import Streamweld.Proxy.Reader
import Streamweld.Sse.RoundTrip

/-!
# Entries and frames on the wire

What a reader receives (`internal/proxy/journal_sse.go`): a journal entry as a
frame with its sequence as the identifier, and a frame of the degraded feed
without one.  The writer has its encoder; the bytes are what it writes.

`Event` is an upstream event as the runtime holds it, with strings for its text.
`Event.ofWire` and `Event.wire` go between it and the bytes of
`Streamweld.Sse`; what the decoder returns is UTF-8, so nothing is lost
(`wire_ofWire`).

* `writeEntry_spec`: the frames of an entry;
* `parse_events_iff`: a client takes frames exactly when they fit its limit.
-/

namespace Streamweld.Proxy

open Streamweld.Journal Streamweld.Lib Streamweld.Client

variable {event : Sse.Event}

/-! ## Events in bytes -/

def Event.wire (event : Event) : Sse.Event where
  data := if event.hasData then some (Utf8.encode event.data.toList) else none
  type := Utf8.encode event.type.toList
  id := Utf8.encode event.id.toList
  retry := event.retry
  comments := event.comments.map fun comment => Utf8.encode comment.toList
  hasData := event.hasData
  hasType := event.hasType
  hasID := event.hasID
  hasRetry := event.hasRetry

def Event.ofWire (event : Sse.Event) : Event where
  data := String.ofList (Utf8.text event.dataBytes)
  type := String.ofList (Utf8.text event.type)
  id := String.ofList (Utf8.text event.id)
  retry := event.retry
  comments := event.comments.map fun comment => String.ofList (Utf8.text comment)
  hasData := event.hasData
  hasType := event.hasType
  hasID := event.hasID
  hasRetry := event.hasRetry

theorem encode_ofList_text {value : List UInt8} (h : Utf8.valid value = true) :
    Utf8.encode (String.ofList (Utf8.text value)).toList = value := by
  rw [String.toList_ofList, Utf8.encode_text h]

/-- An event that the decoder returned is held as it is. -/
theorem wire_ofWire (h : event.Received) : (Event.ofWire event).wire = event := by
  have hdata : (if event.hasData then
      some (Utf8.encode (String.ofList (Utf8.text event.dataBytes)).toList) else none) =
        event.data := by
    rw [encode_ofList_text h.bytes.1, ← h.data]
    cases hdata : event.data with
    | none => rfl
    | some data => rw [Sse.Event.dataBytes, hdata]; rfl
  have hcomments : (event.comments.map fun comment => String.ofList (Utf8.text comment)).map
      (fun comment => Utf8.encode comment.toList) = event.comments := by
    rw [List.map_map]
    conv_rhs => rw [← List.map_id event.comments]
    exact List.map_congr_left fun comment hcomment =>
      encode_ofList_text (h.comments comment hcomment).valid
  unfold Event.wire Event.ofWire
  dsimp only
  rw [hdata, hcomments, encode_ofList_text h.type.valid, encode_ofList_text h.id.1.valid]

/-! ## The writer -/

/-- What a method of the writer reports.  The first two wrap
`ErrInvalidJournalEntry`, the third `ErrMalformedJournalPayload`. -/
inductive SSEWriteError where
  | invalidEntry (detail : String)
  | deliveryError (seq : Nat) (cause : JournalError)
  | malformedPayload (detail : String)
  | encode (context cause : String)
  deriving DecidableEq, Repr

/-- What `encoding/json` calls a value in an error. -/
def jsonKind : Json → String
  | .null => "null"
  | .bool _ => "bool"
  | .num _ => "number"
  | .str _ => "string"
  | .arr _ => "array"
  | .obj _ => "object"

/-- `downstreamPayload`.  A member that is repeated has its last value. -/
def downstreamPayload (entry : Entry) : Except SSEWriteError String :=
  let sequence := "sequence " ++ toString entry.seq
  match entry.payload.value with
  | some (.obj members) =>
    if entry.kind = .kindChunk then
      match (members.filter fun member => member.1 = "data").getLast? with
      | none => .error (.malformedPayload (sequence ++ " chunk is missing string field \"data\""))
      | some (_, .str data) => .ok data
      | some (_, .null) =>
        .error (.malformedPayload (sequence ++ " chunk field \"data\" must be a string"))
      | some (_, value) =>
        .error (.malformedPayload (sequence ++ " chunk field \"data\": json: cannot unmarshal " ++
          jsonKind value ++ " into Go value of type string"))
    else .ok entry.payload.text
  | _ =>
    .error (.malformedPayload (sequence ++ " kind \"" ++ entry.kind.name ++
      "\" must contain a valid UTF-8 JSON object"))

/-- The event that `WriteEntry` encodes. -/
def journalEvent (kind : EntryKind) (seq : Nat) (payload : String) : Sse.Event :=
  let mapping := journalSSEMappings kind
  { Sse.Event.zero with
    data := some (Utf8.encode payload.toList)
    id := Utf8.encode (Nat.toDigits 10 seq)
    type := Utf8.encode mapping.eventType.toList
    hasData := true
    hasID := true
    hasType := mapping.eventType ≠ "" }

def doneSentinel : Sse.Event :=
  { Sse.Event.zero with data := some (Utf8.encode "[DONE]".toList), hasData := true }

def encodeWith (context : String) (event : Sse.Event) : Except SSEWriteError (List UInt8) :=
  (Sse.encode event).mapError (.encode context)

def writeDoneSentinel : Except SSEWriteError (List UInt8) :=
  encodeWith "proxy: write done sentinel as SSE" doneSentinel

/-- `WriteEntry`. -/
def JournalSSEWriter.writeEntry (verbose : Bool) (entry : Entry) :
    Except SSEWriteError (List UInt8 × SSEWriteResult) :=
  if entry.seq = 0 then .error (.invalidEntry "sequence must be positive")
  else
    match entry.err with
    | some cause => .error (.deliveryError entry.seq cause)
    | none => do
      let mapping := journalSSEMappings entry.kind
      let payload ← downstreamPayload entry
      if mapping.verboseOnly = true ∧ verbose = false then
        return ([], { visible := false, terminal := false })
      else
        let frame ← encodeWith ("proxy: write journal sequence " ++ toString entry.seq ++ " as SSE")
          (journalEvent entry.kind entry.seq payload)
        let sentinel ← if entry.kind = .kindDone then writeDoneSentinel else pure []
        return (frame ++ sentinel, { visible := true, terminal := mapping.terminal })

/-- The event of a degraded frame, which never has an identifier. -/
def DegradedFrame.sentEvent (frame : DegradedFrame) : Event :=
  { frame.event with id := "", hasID := false }

/-- `WriteDegradedFrame`. -/
def JournalSSEWriter.writeDegradedFrame (verbose : Bool) (frame : DegradedFrame) :
    Except SSEWriteError (List UInt8 × SSEWriteResult) :=
  if frame.verboseOnly = true ∧ verbose = false then
    .ok ([], { visible := false, terminal := false })
  else do
    let bytes ← encodeWith "proxy: write degraded SSE frame" frame.sentEvent.wire
    return (bytes, { visible := true, terminal := frame.terminal })

/-! ## What is written -/

theorem encodeWith_eq_ok_iff {context : String} {frame : List UInt8} :
    encodeWith context event = .ok frame ↔ event.Encodable ∧ event.frame = frame := by
  rw [← Sse.encode_eq_ok_iff, encodeWith]
  cases Sse.encode event with
  | error e => exact ⟨nofun, nofun⟩
  | ok bytes => simp [Except.mapError]

theorem doneSentinel_encodable : doneSentinel.Encodable :=
  (Sse.encode_eq_ok_iff.mp (show Sse.encode doneSentinel = .ok doneSentinel.frame by
    decide +kernel)).1

/-- The events that an entry is written as. -/
def entryEvents (entry : Entry) (payload : String) : List Sse.Event :=
  journalEvent entry.kind entry.seq payload ::
    if entry.kind = .kindDone then [doneSentinel] else []

/-- The frames of an entry that is written. -/
theorem writeEntry_spec {verbose : Bool} {entry : Entry} {bytes : List UInt8}
    {result : SSEWriteResult}
    (h : JournalSSEWriter.writeEntry verbose entry = .ok (bytes, result)) :
    entry.seq ≠ 0 ∧ ∃ payload, downstreamPayload entry = .ok payload ∧
      (((journalSSEMappings entry.kind).verboseOnly = true ∧ verbose = false ∧ bytes = [] ∧
          result = ⟨false, false⟩) ∨
        (¬ ((journalSSEMappings entry.kind).verboseOnly = true ∧ verbose = false) ∧
          (∀ event ∈ entryEvents entry payload, event.Encodable) ∧
          bytes = ((entryEvents entry payload).map Sse.Event.frame).flatten ∧
          result = ⟨true, (journalSSEMappings entry.kind).terminal⟩)) := by
  unfold JournalSSEWriter.writeEntry at h
  by_cases hseq : entry.seq = 0
  · rw [if_pos hseq] at h
    cases h
  rw [if_neg hseq] at h
  refine ⟨hseq, ?_⟩
  cases herr : entry.err with
  | some cause => simp [herr] at h
  | none =>
    simp only [herr] at h
    cases hpayload : downstreamPayload entry with
    | error e => simp [hpayload, bind, Except.bind] at h
    | ok payload =>
      refine ⟨payload, rfl, ?_⟩
      simp only [hpayload, bind, Except.bind] at h
      by_cases hhidden : (journalSSEMappings entry.kind).verboseOnly = true ∧ verbose = false
      · rw [if_pos hhidden] at h
        cases h
        exact Or.inl ⟨hhidden.1, hhidden.2, rfl, rfl⟩
      rw [if_neg hhidden] at h
      refine Or.inr ⟨hhidden, ?_⟩
      cases hframe : encodeWith ("proxy: write journal sequence " ++ toString entry.seq ++ " as SSE")
          (journalEvent entry.kind entry.seq payload) with
      | error e =>
        rw [hframe] at h
        cases h
      | ok frame =>
        simp only [hframe] at h
        obtain ⟨hencodable, rfl⟩ := encodeWith_eq_ok_iff.mp hframe
        by_cases hdone : entry.kind = .kindDone
        · have hsentinel : writeDoneSentinel = .ok doneSentinel.frame :=
            encodeWith_eq_ok_iff.mpr ⟨doneSentinel_encodable, rfl⟩
          rw [if_pos hdone, hsentinel] at h
          cases h
          rw [entryEvents, if_pos hdone]
          refine ⟨List.forall_mem_cons.mpr ⟨hencodable, ?_⟩, by simp, rfl⟩
          rw [List.forall_mem_singleton]
          exact doneSentinel_encodable
        · rw [if_neg hdone] at h
          cases h
          rw [entryEvents, if_neg hdone]
          exact ⟨List.forall_mem_singleton.mpr hencodable, by simp, rfl⟩

/-- An entry that is shown and can be encoded is written. -/
theorem writeEntry_shown {verbose : Bool} {entry : Entry} {payload : String}
    (hseq : entry.seq ≠ 0) (herr : entry.err = none)
    (hpayload : downstreamPayload entry = .ok payload)
    (hshown : ¬ ((journalSSEMappings entry.kind).verboseOnly = true ∧ verbose = false))
    (hencodable : (journalEvent entry.kind entry.seq payload).Encodable) :
    JournalSSEWriter.writeEntry verbose entry =
      .ok (((entryEvents entry payload).map Sse.Event.frame).flatten,
        { visible := true, terminal := (journalSSEMappings entry.kind).terminal }) := by
  have hframe (context : String) :
      encodeWith context (journalEvent entry.kind entry.seq payload) =
        .ok (journalEvent entry.kind entry.seq payload).frame :=
    encodeWith_eq_ok_iff.mpr ⟨hencodable, rfl⟩
  have hsentinel : writeDoneSentinel = .ok doneSentinel.frame :=
    encodeWith_eq_ok_iff.mpr ⟨doneSentinel_encodable, rfl⟩
  unfold JournalSSEWriter.writeEntry entryEvents
  rw [if_neg hseq]
  simp only [herr, hpayload, hframe, hsentinel, bind, Except.bind, if_neg hshown]
  by_cases hdone : entry.kind = .kindDone
  · simp only [if_pos hdone, List.map_cons, List.map_nil, List.flatten_cons, List.flatten_nil,
      List.append_nil]
    rfl
  · simp only [if_neg hdone, List.map_cons, List.map_nil, List.flatten_cons, List.flatten_nil]
    rfl

/-- A client takes frames exactly when each of them fits its limit. -/
theorem parse_events_iff {max : Int} {parser : IncrementalSSEParser}
    (hnew : IncrementalSSEParser.new max = .ok parser) {events : List Sse.Event}
    (hencodable : ∀ event ∈ events, event.Encodable) :
    (∀ chunks : List (List UInt8), chunks.flatten = (events.map Sse.Event.frame).flatten →
        ∃ parsed, parser.parse chunks = .ok parsed) ↔
      ∀ event ∈ events, (Sse.frameBytes event.frame : Int) ≤ max := by
  constructor
  · intro h
    obtain ⟨parsed, hparsed⟩ := h [(events.map Sse.Event.frame).flatten] List.flatten_singleton
    exact ((parse_frames_iff hnew hencodable List.flatten_singleton).mp hparsed).1
  · intro hfit chunks hchunks
    exact ⟨_, (parse_frames_iff hnew hencodable hchunks).mpr ⟨hfit, rfl⟩⟩

/-! ## The size of an entry -/

/-- The bytes of an entry's frame without its line feeds: the type, the sequence
and every line of the data, each with the name of its field. -/
def entryBytes (kind : EntryKind) (seq : Nat) (payload : String) : Nat :=
  let eventType := Utf8.encode (journalSSEMappings kind).eventType.toList
  (if eventType = [] then 0 else 7 + eventType.length) +
    (4 + (Nat.toDigits 10 seq).length) +
    (((Utf8.encode payload.toList).splitOn Sse.lineFeed).map fun line =>
      if line = [] then 5 else 6 + line.length).sum

theorem fieldLine_ne_nil (name value : List UInt8) : Sse.fieldLine name value ≠ [] := by
  simp [Sse.fieldLine]

theorem length_fieldLine (name value : List UInt8) :
    (Sse.fieldLine name value).length =
      name.length + 1 + if value = [] then 0 else 1 + value.length := by
  unfold Sse.fieldLine
  split
  · simp
  · simp only [List.length_append, List.length_cons]
    omega

theorem length_encode_digits (seq : Nat) :
    (Utf8.encode (Nat.toDigits 10 seq)).length = (Nat.toDigits 10 seq).length := by
  have hascii (text : List Char) (h : ∀ c ∈ text, c.toNat < 0x80) :
      (Utf8.encode text).length = text.length := by
    induction text with
    | nil => rfl
    | cons c text ih =>
      rw [List.forall_mem_cons] at h
      rw [Utf8.encode_cons, List.length_append, ih h.2, Utf8.encode_ascii h.1,
        List.length_singleton, List.length_cons, Nat.add_comm]
  refine hascii _ fun c hc => ?_
  have hdigit := Nat.isDigit_of_mem_toDigits (by decide) (by decide) hc
  rw [Char.isDigit, Bool.and_eq_true, decide_eq_true_eq, decide_eq_true_eq] at hdigit
  have hle : c.val.toNat ≤ 57 := hdigit.2
  show c.val.toNat < 0x80
  omega

theorem eventType_eq_nil (kind : EntryKind) :
    Utf8.encode (journalSSEMappings kind).eventType.toList = [] ↔
      (journalSSEMappings kind).eventType = "" := by
  rw [Utf8.encode_eq_nil, String.toList_eq_nil_iff]

/-- An entry's frame has the size that its fields say. -/
theorem frameBytes_journalEvent {kind : EntryKind} {seq : Nat} {payload : String}
    (h : (journalEvent kind seq payload).Encodable) :
    Sse.frameBytes (journalEvent kind seq payload).frame = entryBytes kind seq payload := by
  have hdigits : Utf8.encode (Nat.toDigits 10 seq) ≠ [] :=
    mt Utf8.encode_eq_nil.mp Nat.toDigits_ne_nil
  have htype : (journalEvent kind seq payload).typePresent =
      decide (Utf8.encode (journalSSEMappings kind).eventType.toList ≠ []) := by
    show (decide ((journalSSEMappings kind).eventType ≠ "") ||
      Utf8.encode (journalSSEMappings kind).eventType.toList != []) = _
    by_cases hnil : (journalSSEMappings kind).eventType = ""
    · simp [hnil]
    · have hne := mt (eventType_eq_nil kind).mp hnil
      simp [hnil, hne]
  have hretry : (journalEvent kind seq payload).retryPresent = false := rfl
  have hid : (journalEvent kind seq payload).idPresent = true := rfl
  have hdata : (journalEvent kind seq payload).dataPresent = true := rfl
  rw [Sse.frameBytes_frame h, Sse.Event.lines, Sse.Event.fields, hretry, hid, hdata, htype]
  simp only [List.flatMap_cons, List.flatMap_nil, List.append_nil, List.map_append,
    List.sum_append]
  show 0 + (_ + (_ + (0 + _))) = _
  rw [entryBytes]
  have hlines : ((((journalEvent kind seq payload).dataBytes.splitOn Sse.lineFeed).map
      (Sse.fieldLine (Utf8.encode "data".toList))).map List.length).sum =
        (((Utf8.encode payload.toList).splitOn Sse.lineFeed).map fun line =>
          if line = [] then 5 else 6 + line.length).sum := by
    rw [List.map_map]
    refine congrArg List.sum (List.map_congr_left fun line _ => ?_)
    show (Sse.fieldLine (Utf8.encode "data".toList) line).length = _
    rw [length_fieldLine, show (Utf8.encode "data".toList).length = 4 by decide]
    split <;> omega
  have hidLine : (Sse.fieldLine (Utf8.encode "id".toList)
      (journalEvent kind seq payload).id).length = 4 + (Nat.toDigits 10 seq).length := by
    show (Sse.fieldLine _ (Utf8.encode (Nat.toDigits 10 seq))).length = _
    rw [length_fieldLine, if_neg hdigits, length_encode_digits,
      show (Utf8.encode "id".toList).length = 2 by decide]
    omega
  by_cases hnil : Utf8.encode (journalSSEMappings kind).eventType.toList = []
  · simp only [hnil, if_true, ne_eq, not_true_eq_false, decide_false, Bool.false_eq_true, if_false,
      List.map_nil, List.sum_nil, List.map_cons, List.sum_cons]
    rw [hlines, hidLine]
    omega
  · have htypeLine : (Sse.fieldLine (Utf8.encode "event".toList)
        (journalEvent kind seq payload).type).length =
          7 + (Utf8.encode (journalSSEMappings kind).eventType.toList).length := by
      show (Sse.fieldLine _ (Utf8.encode (journalSSEMappings kind).eventType.toList)).length = _
      rw [length_fieldLine, if_neg hnil, show (Utf8.encode "event".toList).length = 5 by decide]
      omega
    simp only [hnil, if_false, ne_eq, not_false_eq_true, decide_true, if_true, List.map_nil,
      List.sum_nil, List.map_cons, List.sum_cons]
    rw [hlines, hidLine, htypeLine]
    omega

/-- The terminal event of a finished stream outweighs the sentinel after it. -/
theorem doneSentinel_le (seq : Nat) (payload : String) :
    Sse.frameBytes doneSentinel.frame ≤ entryBytes .kindDone seq payload := by
  have hsentinel : Sse.frameBytes doneSentinel.frame = 12 := by decide +kernel
  have htype : Utf8.encode (journalSSEMappings .kindDone).eventType.toList ≠ [] := by decide
  have hlength : (Utf8.encode (journalSSEMappings .kindDone).eventType.toList).length = 22 := by
    decide +kernel
  rw [hsentinel, entryBytes, if_neg htype, hlength]
  omega

/-- An entry that is written is accepted by every client of limit `max`, however
its bytes are cut, exactly when its frame has at most `max` bytes or it is not
shown. -/
theorem writeEntry_accepted_iff {verbose : Bool} {entry : Entry} {bytes : List UInt8}
    {result : SSEWriteResult}
    (hwrite : JournalSSEWriter.writeEntry verbose entry = .ok (bytes, result))
    {payload : String} (hpayload : downstreamPayload entry = .ok payload)
    {max : Int} {parser : IncrementalSSEParser}
    (hnew : IncrementalSSEParser.new max = .ok parser) :
    (∀ chunks : List (List UInt8), chunks.flatten = bytes →
        ∃ events, parser.parse chunks = .ok events) ↔
      ((journalSSEMappings entry.kind).verboseOnly = true ∧ verbose = false) ∨
        (entryBytes entry.kind entry.seq payload : Int) ≤ max := by
  obtain ⟨-, payload', hpayload', hcase⟩ := writeEntry_spec hwrite
  rw [hpayload, Except.ok.injEq] at hpayload'
  subst hpayload'
  obtain ⟨hverbose, hquiet, rfl, -⟩ | ⟨hshown, hencodable, rfl, -⟩ := hcase
  · refine ⟨fun _ => Or.inl ⟨hverbose, hquiet⟩, fun _ chunks hchunks => ?_⟩
    exact ⟨_, (parse_frames_iff hnew (List.forall_mem_nil _) hchunks).mpr
      ⟨List.forall_mem_nil _, rfl⟩⟩
  rw [parse_events_iff hnew hencodable]
  have hfirst := hencodable (journalEvent entry.kind entry.seq payload) List.mem_cons_self
  rw [entryEvents, List.forall_mem_cons, frameBytes_journalEvent hfirst]
  constructor
  · exact fun h => Or.inr h.1
  · rintro (hhidden | hfit)
    · exact absurd hhidden hshown
    refine ⟨hfit, ?_⟩
    by_cases hdone : entry.kind = .kindDone
    · rw [if_pos hdone, List.forall_mem_singleton]
      have hle := doneSentinel_le entry.seq payload
      rw [hdone] at hfit
      omega
    · rw [if_neg hdone]
      exact List.forall_mem_nil _

/-! ## Chunks -/

/-- The journal entry that `appendChunk` commits for an upstream event. -/
def chunkEntry (seq : Nat) (event : Sse.Event) : Entry :=
  let record := chunkRecord (Event.ofWire event)
  { seq := seq, ts := 0, kind := record.kind, payload := record.payload, err := none }

theorem downstreamPayload_chunkEntry (seq : Nat) (event : Sse.Event) :
    downstreamPayload (chunkEntry seq event) =
      .ok (String.ofList (Utf8.text event.dataBytes)) := rfl

/-- The frame of a chunk entry has the data of the upstream event and nothing
else of it. -/
theorem journalEvent_chunk (h : event.Received) (seq : Nat) :
    journalEvent .kindChunk seq (String.ofList (Utf8.text event.dataBytes)) =
      { Sse.Event.zero with
        data := some event.dataBytes, id := Utf8.encode (Nat.toDigits 10 seq)
        hasData := true, hasID := true } := by
  unfold journalEvent
  dsimp only
  rw [encode_ofList_text h.bytes.1]
  rfl

theorem journalEvent_chunk_encodable (h : event.Received) (seq : Nat) :
    (journalEvent .kindChunk seq (String.ofList (Utf8.text event.dataBytes))).Encodable := by
  rw [journalEvent_chunk h]
  have hdigit {c : Char} (hc : c ∈ Nat.toDigits 10 seq) : c.isDigit = true :=
    Nat.isDigit_of_mem_toDigits (by decide) (by decide) hc
  refine ⟨by simp [Sse.Event.dataPresent], fun _ => h.bytes, nofun, fun _ => ⟨?_, ?_⟩, nofun,
    List.forall_mem_nil _⟩
  · refine Sse.singleLine_iff.mpr ⟨_, rfl, ?_, ?_⟩
    · exact fun hc => absurd (hdigit hc) (by decide)
    · exact fun hc => absurd (hdigit hc) (by decide)
  · intro hnul
    exact absurd (hdigit ((Utf8.mem_encode (by decide : (Char.ofNat 0).toNat < 0x80)).mp hnul))
      (by decide)

/-- A chunk that the decoder accepted is written. -/
theorem writeEntry_chunk (h : event.Received) {seq : Nat} (hseq : seq ≠ 0) (verbose : Bool) :
    JournalSSEWriter.writeEntry verbose (chunkEntry seq event) =
      .ok ((journalEvent .kindChunk seq (String.ofList (Utf8.text event.dataBytes))).frame,
        { visible := true, terminal := false }) := by
  rw [@writeEntry_shown verbose (chunkEntry seq event) _ hseq rfl
    (downstreamPayload_chunkEntry seq event) (fun hhidden => Bool.false_ne_true hhidden.1)
    (journalEvent_chunk_encodable h seq)]
  show Except.ok (([_] : List _).flatten, _) = _
  rw [List.flatten_singleton]
  rfl

/-- The event that `WriteDegradedFrame` encodes for a chunk. -/
def degradedEvent (event : Sse.Event) : Sse.Event := { event with id := [], hasID := false }

theorem wire_degradedChunkFrame (h : event.Received) :
    (degradedChunkFrame (Event.ofWire event)).sentEvent.wire = degradedEvent event := by
  unfold degradedEvent
  conv_rhs => rw [← wire_ofWire h]
  rfl

theorem degradedEvent_encodable (h : event.Received) (hdata : event.hasData = true) :
    (degradedEvent event).Encodable where
  nonempty := fun hempty => by
    have : (event.hasData || event.data.isSome) = false := hempty.1
    rw [hdata] at this
    cases this
  data _ := h.bytes
  type _ := h.type
  id := nofun
  retry _ := h.millis
  comments := h.comments

/-- A chunk that the decoder accepted is written without a journal, too. -/
theorem writeDegradedFrame_chunk (h : event.Received) (hdata : event.hasData = true)
    (verbose : Bool) :
    JournalSSEWriter.writeDegradedFrame verbose (degradedChunkFrame (Event.ofWire event)) =
      .ok ((degradedEvent event).frame, { visible := true, terminal := false }) := by
  have hframe (context : String) : encodeWith context (degradedEvent event) =
      .ok (degradedEvent event).frame :=
    encodeWith_eq_ok_iff.mpr ⟨degradedEvent_encodable h hdata, rfl⟩
  unfold JournalSSEWriter.writeDegradedFrame
  rw [if_neg (fun hhidden => Bool.false_ne_true hhidden.1), wire_degradedChunkFrame h, hframe]
  rfl

/-- A frame with a line that is a comment. -/
def HasComment (frame : List UInt8) : Prop :=
  ∃ line ∈ frame.splitOn Sse.lineFeed, line.head? = some 0x3A

/-- A frame that names the type of its event. -/
def HasName (frame : List UInt8) : Prop :=
  ∃ name, name ≠ [] ∧
    Sse.fieldLine (Utf8.encode "event".toList) name ∈ frame.splitOn Sse.lineFeed

/-- A line of a frame that starts with a given byte. -/
theorem mem_splitOn_frame (h : event.Encodable) {line : List UInt8} (hne : line ≠ []) :
    line ∈ event.frame.splitOn Sse.lineFeed ↔ line ∈ event.lines := by
  rw [Sse.splitOn_frame h, List.mem_append]
  simp [hne]

/-- The comments of a frame are the comments of the event. -/
theorem hasComment_frame (h : event.Encodable) :
    HasComment event.frame ↔ event.comments ≠ [] := by
  constructor
  · rintro ⟨line, hline, hhead⟩
    have hne : line ≠ [] := fun hnil => by rw [hnil] at hhead; cases hhead
    rw [mem_splitOn_frame h hne] at hline
    have hmem : Sse.fieldValue line.tail ∈ Sse.commentsOf event.lines :=
      List.mem_filterMap.mpr ⟨line, hline, if_pos hhead⟩
    rw [Sse.commentsOf_lines] at hmem
    exact List.ne_nil_of_mem hmem
  · intro hne
    obtain ⟨comment, hcomment⟩ := List.exists_mem_of_ne_nil _ hne
    refine ⟨Sse.fieldLine [] comment, ?_, rfl⟩
    rw [mem_splitOn_frame h (fieldLine_ne_nil _ _)]
    exact Sse.mem_lines.mpr ⟨_, List.mem_cons_self, comment, hcomment, rfl⟩

/-- The name in a frame is the type of the event. -/
theorem hasName_frame (h : event.Encodable) : HasName event.frame ↔ event.type ≠ [] := by
  constructor
  · rintro ⟨name, hname, hline⟩
    rw [mem_splitOn_frame h (fieldLine_ne_nil _ _)] at hline
    obtain ⟨hread, hvalue⟩ := Sse.read_fieldLine (show ':' ∉ "event".toList by decide) name
    have hmem : name ∈ Sse.values "event" event.lines :=
      List.mem_filterMap.mpr ⟨_, hline, by rw [if_pos hread, hvalue]⟩
    rw [Sse.values_lines] at hmem
    have htype : event.typePresent = true ∧ name = event.type := by
      simpa [Sse.Event.fields, apply_ite] using hmem
    exact htype.2 ▸ hname
  · intro hne
    refine ⟨event.type, hne, ?_⟩
    rw [mem_splitOn_frame h (fieldLine_ne_nil _ _)]
    refine Sse.mem_lines.mpr ⟨_, List.mem_cons_of_mem _ List.mem_cons_self, event.type, ?_, rfl⟩
    simp [Sse.Event.typePresent, hne]

/-- What a client sees of a chunk: the type and the data are those of the
journaled frame, and the frame has no identifier, and no name, retry delay or
comment of the upstream event. -/
structure LooksJournaled (degraded : List UInt8) (seen journaled : ParsedSSEEvent) : Prop where
  event : seen.event = journaled.event
  data : seen.data = journaled.data
  id : seen.id = none
  retry : seen.retry = none
  name : ¬ HasName degraded
  comment : ¬ HasComment degraded

theorem retry_degradedEvent (h : event.Received) :
    (degradedEvent event).parsed.retry = none ↔ event.hasRetry = false := by
  show (if event.retryPresent = true ∧ event.retryMillis ≤ maxSafeInteger then _ else _) = _ ↔ _
  have hsafe : event.retryMillis ≤ maxSafeInteger := by
    obtain ⟨n, hn, hle⟩ := h.retry
    have hmillis : event.retryMillis = n := by
      rw [Sse.Event.retryMillis, hn, Int.mul_ediv_cancel _ (by decide), Int.toNat_natCast]
    rw [hmillis]
    exact hle.trans (by decide)
  rw [h.retryPresent]
  cases event.hasRetry with
  | false => simp
  | true => simp [hsafe]

/-- The two frames of a chunk differ to a client exactly in what the upstream
event has besides its data. -/
theorem looksJournaled_iff (h : event.Received) (hdata : event.hasData = true) (seq : Nat) :
    LooksJournaled (degradedEvent event).frame (degradedEvent event).parsed
        (journalEvent .kindChunk seq (String.ofList (Utf8.text event.dataBytes))).parsed ↔
      event.type = [] ∧ event.hasRetry = false ∧ event.comments = [] := by
  have hencodable := degradedEvent_encodable h hdata
  have hcomment := hasComment_frame hencodable
  have hname := hasName_frame hencodable
  have hretry := retry_degradedEvent h
  constructor
  · intro hlooks
    exact ⟨not_not.mp (mt hname.mpr hlooks.name), hretry.mp hlooks.retry,
      not_not.mp (mt hcomment.mpr hlooks.comment)⟩
  · rintro ⟨htype, hnoRetry, hnoComment⟩
    refine ⟨?_, ?_, rfl, hretry.mpr hnoRetry, fun hhas => hname.mp hhas htype,
      fun hhas => hcomment.mp hhas hnoComment⟩
    · rw [journalEvent_chunk h]
      exact if_pos htype
    · rw [journalEvent_chunk h]
      rfl

/-- A chunk that the decoder accepted reaches a reader of the degraded stream as
it reaches a reader of the journal, without the identifier, exactly when the
upstream event has no name, no retry delay and no comment. -/
theorem degradedChunk_looksJournaled_iff {limit : Nat} {event : Sse.Event}
    (haccepted : Sse.Accepted limit event) (hdata : event.hasData = true)
    {seq : Nat} (hseq : seq ≠ 0) (verbose : Bool) :
    ∃ degraded journaled,
      JournalSSEWriter.writeDegradedFrame verbose (degradedChunkFrame (Event.ofWire event)) =
          .ok (degraded, { visible := true, terminal := false }) ∧
      JournalSSEWriter.writeEntry verbose (chunkEntry seq event) =
          .ok (journaled, { visible := true, terminal := false }) ∧
      ∀ (max : Int) (parser : IncrementalSSEParser), IncrementalSSEParser.new max = .ok parser →
        (Sse.frameBytes degraded : Int) ≤ max → (Sse.frameBytes journaled : Int) ≤ max →
        ∀ chunks chunks' : List (List UInt8),
          chunks.flatten = degraded → chunks'.flatten = journaled →
          ∃ seen seen', parser.parse chunks = .ok [seen] ∧ parser.parse chunks' = .ok [seen'] ∧
            (LooksJournaled degraded seen seen' ↔
              event.type = [] ∧ event.hasRetry = false ∧ event.comments = []) := by
  have h := haccepted.received
  refine ⟨_, _, writeDegradedFrame_chunk h hdata verbose, writeEntry_chunk h hseq verbose, ?_⟩
  intro max parser hnew hfit hfit' chunks chunks' hchunks hchunks'
  have hparse {e : Sse.Event} (he : e.Encodable) (hpresent : e.dataPresent = true)
      (hle : (Sse.frameBytes e.frame : Int) ≤ max) {cut : List (List UInt8)}
      (hcut : cut.flatten = e.frame) : parser.parse cut = .ok [e.parsed] := by
    refine (parse_frames_iff hnew (List.forall_mem_singleton.mpr he) (by rw [hcut]; simp)).mpr
      ⟨List.forall_mem_singleton.mpr hle, ?_⟩
    rw [List.filter_cons_of_pos hpresent]
    rfl
  have hpresent : (degradedEvent event).dataPresent = true := h.dataPresent.trans hdata
  exact ⟨_, _, hparse (degradedEvent_encodable h hdata) hpresent hfit hchunks,
    hparse (journalEvent_chunk_encodable h seq) rfl hfit' hchunks', looksJournaled_iff h hdata seq⟩

/-! ## Concrete chunks -/

/-- A chunk without text. -/
def emptyChunk : Sse.Event :=
  { Sse.Event.zero with data := some (Utf8.encode "\x7b\x7d".toList), hasData := true }

/-- The same chunk under the name of a control event. -/
def namedChunk : Sse.Event :=
  { emptyChunk with type := Utf8.encode "streamweld.stream.done".toList, hasType := true }

theorem emptyChunk_accepted : Sse.Accepted 7 emptyChunk :=
  ⟨Utf8.encode "data:\x7b\x7d\n\n".toList, .eof, _, .start, by decide +kernel⟩

theorem namedChunk_accepted : Sse.Accepted 64 namedChunk :=
  ⟨Utf8.encode "event: streamweld.stream.done\ndata: \x7b\x7d\n\n".toList, .eof, _, .start, by
    decide +kernel⟩

theorem writeEntry_emptyChunk :
    JournalSSEWriter.writeEntry false (chunkEntry 2 emptyChunk) =
      .ok (Utf8.encode "id: 2\ndata: \x7b\x7d\n\n".toList,
        { visible := true, terminal := false }) := by
  decide +kernel

/-- A parser with a given limit before its first chunk. -/
def freshParser (max : Nat) : IncrementalSSEParser :=
  { decoder := .new, maxEventBytes := max, pending := [], started := false, finished := false
    buffer := .empty }

/-- A frame of seven bytes passes a decoder of limit seven.  Its entry is written
with an `id` line and a space, and a client of limit seven refuses it. -/
theorem writeEntry_refused :
    Sse.Accepted 7 emptyChunk ∧ IncrementalSSEParser.new 7 = .ok (freshParser 7) ∧
      JournalSSEWriter.writeEntry false (chunkEntry 2 emptyChunk) =
        .ok (Utf8.encode "id: 2\ndata: \x7b\x7d\n\n".toList,
          { visible := true, terminal := false }) ∧
      (freshParser 7).parse [Utf8.encode "id: 2\ndata: \x7b\x7d\n\n".toList] =
        .error (tooLarge 7) :=
  ⟨emptyChunk_accepted, by decide, writeEntry_emptyChunk, by decide +kernel⟩

/-- A client of limit thirteen takes the same entry. -/
theorem writeEntry_accepted_thirteen :
    ∃ events, (freshParser 13).parse
      [Utf8.encode "id: 2\nda".toList, Utf8.encode "ta: \x7b\x7d\n\n".toList] = .ok events :=
  (writeEntry_accepted_iff writeEntry_emptyChunk
    (downstreamPayload_chunkEntry 2 emptyChunk)
    (show IncrementalSSEParser.new 13 = .ok (freshParser 13) by decide)).mpr
    (Or.inr (by decide +kernel)) _ (by decide +kernel)

/-- The degraded frame of a chunk that upstream calls `streamweld.stream.done` is
seen under that name; the journaled frame is seen as a message. -/
theorem degradedChunk_forwards_name :
    Sse.Accepted 64 namedChunk ∧
      JournalSSEWriter.writeDegradedFrame false (degradedChunkFrame (Event.ofWire namedChunk)) =
        .ok (Utf8.encode "event: streamweld.stream.done\ndata: \x7b\x7d\n\n".toList,
          { visible := true, terminal := false }) ∧
      (freshParser 64).parse
          [Utf8.encode "event: streamweld.stream.done\ndata: \x7b\x7d\n\n".toList] =
        .ok [⟨"\x7b\x7d".toList, "streamweld.stream.done".toList, none, none⟩] ∧
      JournalSSEWriter.writeEntry false (chunkEntry 2 namedChunk) =
        .ok (Utf8.encode "id: 2\ndata: \x7b\x7d\n\n".toList,
          { visible := true, terminal := false }) ∧
      (freshParser 64).parse [Utf8.encode "id: 2\ndata: \x7b\x7d\n\n".toList] =
        .ok [⟨"\x7b\x7d".toList, "message".toList, some ['2'], none⟩] :=
  ⟨namedChunk_accepted, by decide +kernel, by decide +kernel, by decide +kernel,
    by decide +kernel⟩

/-- A chunk without a name looks the same on both paths. -/
theorem degradedChunk_looksJournaled_plain :
    ∃ degraded seen seen',
      JournalSSEWriter.writeDegradedFrame false (degradedChunkFrame (Event.ofWire emptyChunk)) =
          .ok (degraded, { visible := true, terminal := false }) ∧
        (freshParser 64).parse [degraded] = .ok [seen] ∧ LooksJournaled degraded seen seen' := by
  obtain ⟨degraded, journaled, hdegraded, hjournaled, hseen⟩ :=
    degradedChunk_looksJournaled_iff emptyChunk_accepted rfl (by decide : 2 ≠ 0) false
  have hfit : (Sse.frameBytes degraded : Int) ≤ 64 := by
    have hbytes : JournalSSEWriter.writeDegradedFrame false
          (degradedChunkFrame (Event.ofWire emptyChunk)) =
        .ok (Utf8.encode "data: \x7b\x7d\n\n".toList, { visible := true, terminal := false }) := by
      decide +kernel
    rw [hbytes] at hdegraded
    cases hdegraded
    decide +kernel
  have hfit' : (Sse.frameBytes journaled : Int) ≤ 64 := by
    rw [writeEntry_emptyChunk] at hjournaled
    cases hjournaled
    decide +kernel
  obtain ⟨seen, seen', hparse, -, hiff⟩ := hseen 64 (freshParser 64) (by decide) hfit hfit'
    [degraded] [journaled] List.flatten_singleton List.flatten_singleton
  exact ⟨degraded, seen, seen', hdegraded, hparse, hiff.mpr ⟨rfl, rfl, rfl⟩⟩

end Streamweld.Proxy
