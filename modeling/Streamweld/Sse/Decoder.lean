import Streamweld.Lib.JsonMap
import Streamweld.Sse.Encoder

/-!
# The decoder of server-sent events

The decoder that the proxy reads upstream responses with
(`internal/proxy/sse/decoder.go`).  The reader is the list of the bytes that it
will deliver and the error that it ends with.

`readLine` and `Decode` are loops; the first is recursive in the bytes that are
left, the second in their number (`readLine_input`).

* `readLine_singleLine`: a line is one line of UTF-8;
* `decode_received`: whatever `Decode` returns can be encoded, and its flags
  say which fields it has.
-/

namespace Streamweld.Sse

open Streamweld.Lib

variable {line result : List UInt8} {decoder : Decoder}

/-! ## The model -/

/-- The error that a reader ends with. -/
inductive ReadError where
  | eof
  | other (message : String)
  deriving DecidableEq, Repr

/-- The errors of `Decode`.  The position is the byte at which the line starts,
or at which the event became too large. -/
inductive DecodeError where
  | read (cause : ReadError)
  | invalidUTF8 (position : Nat) (cause : Option ReadError)
  | incompleteEvent (position : Nat) (cause : ReadError)
  | eventTooLarge (limit position : Nat)
  deriving DecidableEq, Repr

structure Decoder where
  input : List UInt8
  readError : ReadError
  frame : Event
  recognized : Bool
  blockStarted : Bool
  firstLine : Bool
  skipLF : Bool
  offset : Nat
  frameBytes : Nat
  maxEventBytes : Nat
  deriving DecidableEq, Repr

/-- `NewDecoderWithOptions` with a positive `WithMaxEventBytes`. -/
def newDecoder (input : List UInt8) (readError : ReadError) (maxEventBytes : Nat) : Decoder :=
  { input := input, readError := readError, frame := .zero, recognized := false
    blockStarted := false, firstLine := true, skipLF := false, offset := 0, frameBytes := 0
    maxEventBytes := maxEventBytes }

def utf8BOM : List UInt8 := [0xEF, 0xBB, 0xBF]

namespace Decoder

/-- `stripInitialBOM`; it leaves `firstLine` unset. -/
def stripInitialBOM (decoder : Decoder) (line : List UInt8) : List UInt8 :=
  if decoder.firstLine = true ∧ utf8BOM <+: line then line.drop utf8BOM.length else line

def completeLine (decoder : Decoder) (line : List UInt8) (lineStart : Nat) :
    Except DecodeError (List UInt8) × Decoder :=
  let line := decoder.stripInitialBOM line
  ((if Utf8.valid line then .ok line else .error (.invalidUTF8 lineStart none)),
    { decoder with firstLine := false })

/-- The end of the input inside or before a line. -/
def endOfInput (decoder : Decoder) (line : List UInt8) (lineStart : Nat) : DecodeError :=
  let line := decoder.stripInitialBOM line
  if line ≠ [] ∧ Utf8.valid line = false then .invalidUTF8 lineStart (some decoder.readError)
  else if line ≠ [] ∨ decoder.blockStarted = true then
    .incompleteEvent lineStart decoder.readError
  else .read decoder.readError

/-- The loop of `readLine`. -/
def readBytes : List UInt8 → Nat → List UInt8 → Decoder → Except DecodeError (List UInt8) × Decoder
  | [], lineStart, line, decoder =>
    (.error (decoder.endOfInput line lineStart), { decoder with input := [], firstLine := false })
  | b :: rest, lineStart, line, decoder =>
    let read := { decoder with input := rest, offset := decoder.offset + 1, skipLF := false }
    -- a carriage return ended the previous line
    if decoder.skipLF = true ∧ b = lineFeed then
      readBytes rest (decoder.offset + 1) line read
    else
      let lineStart := if decoder.skipLF then decoder.offset else lineStart
      if b = carriageReturn then { read with skipLF := true }.completeLine line lineStart
      else if b = lineFeed then read.completeLine line lineStart
      else if decoder.frameBytes ≥ decoder.maxEventBytes then
        (.error (.eventTooLarge decoder.maxEventBytes decoder.offset), read)
      else
        readBytes rest lineStart (line ++ [b])
          { read with frameBytes := decoder.frameBytes + 1 }

def readLine (decoder : Decoder) : Except DecodeError (List UInt8) × Decoder :=
  readBytes decoder.input decoder.offset [] decoder

end Decoder

/-- `fieldValue`: one space in front is dropped. -/
def fieldValue (value : List UInt8) : List UInt8 :=
  if value.head? = some 0x20 then value.tail else value

/-- `math.MaxInt64 / int64(time.Millisecond)`. -/
def maxRetryMillis : Nat := 9223372036854

/-- `parseRetry`, in nanoseconds. -/
def parseRetry (value : List UInt8) : Option Int :=
  if value = [] then none
  else
    (Json.parseDigits (value.map fun b => Char.ofNat b.toNat) 0).bind fun milliseconds =>
      if milliseconds ≤ maxRetryMillis then some (milliseconds * millisecond) else none

/-- The `switch` of `consumeLine`; the answer says whether the field is recognized. -/
def setField (name value : List UInt8) (frame : Event) : Event × Bool :=
  if name = Utf8.encode "data".toList then
    ({ frame with data := some (frame.dataBytes ++ value ++ [lineFeed]), hasData := true }, true)
  else if name = Utf8.encode "event".toList then
    ({ frame with type := value, hasType := true }, true)
  else if name = Utf8.encode "id".toList then
    if 0 ∈ value then (frame, false) else ({ frame with id := value, hasID := true }, true)
  else if name = Utf8.encode "retry".toList then
    match parseRetry value with
    | some retry => ({ frame with retry := retry, hasRetry := true }, true)
    | none => (frame, false)
  else (frame, false)

/-- The frame after a line, and whether the line is recognized. -/
def applyLine (line : List UInt8) (frame : Event) : Event × Bool :=
  if line.head? = some 0x3A then
    ({ frame with comments := frame.comments ++ [fieldValue line.tail] }, true)
  else
    setField (line.takeWhile (· != 0x3A)) (fieldValue (line.dropWhile (· != 0x3A)).tail) frame

namespace Decoder

def consumeLine (decoder : Decoder) (line : List UInt8) : Decoder :=
  let applied := applyLine line decoder.frame
  { decoder with frame := applied.1, recognized := decoder.recognized || applied.2 }

/-- The event that `finishFrame` returns: every data field left a line feed at
the end. -/
def finishedEvent (decoder : Decoder) : Event :=
  if decoder.frame.hasData = true then
    { decoder.frame with data := some decoder.frame.dataBytes.dropLast }
  else decoder.frame

/-- What `finishFrame` leaves. -/
def startFrame (decoder : Decoder) : Decoder :=
  { decoder with frame := .zero, recognized := false, blockStarted := false, frameBytes := 0 }

/-! ### Lines -/

@[simp] theorem completeLine_input (decoder : Decoder) (line : List UInt8) (lineStart : Nat) :
    (decoder.completeLine line lineStart).2.input = decoder.input := rfl

/-- Every line takes at least its ending off the input. -/
theorem readBytes_input {input : List UInt8} {lineStart : Nat}
    (h : (readBytes input lineStart line decoder).1 = .ok result) :
    (readBytes input lineStart line decoder).2.input.length < input.length := by
  induction input generalizing lineStart line decoder with
  | nil => cases h
  | cons b rest ih =>
    rw [readBytes] at h ⊢
    dsimp only at h ⊢
    split at h
    · next hskip =>
      rw [if_pos hskip]
      exact (ih h).trans (Nat.lt_succ_self _)
    next hskip =>
    rw [if_neg hskip]
    split at h
    · next hreturn =>
      rw [if_pos hreturn]
      exact Nat.lt_succ_self _
    next hreturn =>
    rw [if_neg hreturn]
    split at h
    · next hfeed =>
      rw [if_pos hfeed]
      exact Nat.lt_succ_self _
    next hfeed =>
    rw [if_neg hfeed]
    split at h
    · cases h
    · next hlarge =>
      rw [if_neg hlarge]
      exact (ih h).trans (Nat.lt_succ_self _)

theorem readLine_input (h : decoder.readLine.1 = .ok line) :
    decoder.readLine.2.input.length < decoder.input.length :=
  readBytes_input h

end Decoder

/-- `Decode`. -/
def decode (decoder : Decoder) : Except DecodeError Event × Decoder :=
  match _hread : decoder.readLine.1 with
  | .error e => (.error e, decoder.readLine.2)
  | .ok [] =>
    if decoder.readLine.2.recognized = true then
      (.ok decoder.readLine.2.finishedEvent, decoder.readLine.2.startFrame)
    else decode decoder.readLine.2.startFrame
  | .ok (b :: line) =>
    decode ({ decoder.readLine.2 with blockStarted := true }.consumeLine (b :: line))
termination_by decoder.input.length
decreasing_by
  · exact Decoder.readLine_input _hread
  · exact Decoder.readLine_input _hread

/-! ## Lines -/

namespace Decoder

theorem completeLine_eq_ok {lineStart : Nat} (hreturn : carriageReturn ∉ line)
    (hfeed : lineFeed ∉ line) (h : (decoder.completeLine line lineStart).1 = .ok result) :
    SingleLine result := by
  unfold completeLine at h
  dsimp only at h
  split at h
  · next hvalid =>
    cases h
    have hmem : ∀ b ∈ decoder.stripInitialBOM line, b ∈ line := by
      unfold stripInitialBOM
      intro b hb
      split at hb
      · exact List.mem_of_mem_drop hb
      · exact hb
    exact ⟨hvalid, fun hb => hreturn (hmem _ hb), fun hb => hfeed (hmem _ hb)⟩
  · cases h

theorem readBytes_singleLine {input : List UInt8} {lineStart : Nat}
    (hreturn : carriageReturn ∉ line) (hfeed : lineFeed ∉ line)
    (h : (readBytes input lineStart line decoder).1 = .ok result) : SingleLine result := by
  induction input generalizing lineStart line decoder with
  | nil => cases h
  | cons b rest ih =>
    rw [readBytes] at h
    dsimp only at h
    split at h
    · exact ih hreturn hfeed h
    split at h
    · exact completeLine_eq_ok hreturn hfeed h
    split at h
    · exact completeLine_eq_ok hreturn hfeed h
    split at h
    · cases h
    · next hr hf _ =>
      refine ih ?_ ?_ h
      · rw [List.mem_append, List.mem_singleton, not_or]
        exact ⟨hreturn, fun heq => hr heq.symm⟩
      · rw [List.mem_append, List.mem_singleton, not_or]
        exact ⟨hfeed, fun heq => hf heq.symm⟩

theorem readLine_singleLine (h : decoder.readLine.1 = .ok line) : SingleLine line :=
  readBytes_singleLine List.not_mem_nil List.not_mem_nil h

theorem readBytes_frame (input : List UInt8) (lineStart : Nat) (line : List UInt8)
    (decoder : Decoder) :
    (readBytes input lineStart line decoder).2.frame = decoder.frame ∧
      (readBytes input lineStart line decoder).2.recognized = decoder.recognized := by
  induction input generalizing lineStart line decoder with
  | nil => exact ⟨rfl, rfl⟩
  | cons b rest ih =>
    rw [readBytes]
    dsimp only
    split
    · exact ih ..
    split
    · exact ⟨rfl, rfl⟩
    split
    · exact ⟨rfl, rfl⟩
    split
    · exact ⟨rfl, rfl⟩
    · exact ih ..

theorem readLine_frame (decoder : Decoder) :
    decoder.readLine.2.frame = decoder.frame ∧
      decoder.readLine.2.recognized = decoder.recognized :=
  readBytes_frame ..

end Decoder

/-! ## Frames -/

/-- Both sides of an ASCII byte of a line are lines. -/
theorem SingleLine.cut {a b : List UInt8} {c : Char} (hc : c.toNat < 0x80)
    (h : SingleLine (a ++ UInt8.ofNat c.toNat :: b)) : SingleLine a ∧ SingleLine b := by
  obtain ⟨text, htext, hr, hn⟩ := singleLine_iff.mp h
  obtain ⟨front, back, rfl, rfl, rfl⟩ := Utf8.encode_split hc htext
  rw [List.mem_append, List.mem_cons, not_or, not_or] at hr hn
  exact ⟨singleLine_iff.mpr ⟨front, rfl, hr.1, hn.1⟩,
    singleLine_iff.mpr ⟨back, rfl, hr.2.2, hn.2.2⟩⟩

theorem SingleLine.fieldValue {value : List UInt8} (h : SingleLine value) :
    SingleLine (fieldValue value) := by
  unfold Sse.fieldValue
  split
  · next hhead =>
    obtain ⟨rest, rfl⟩ := List.head?_eq_some_iff.mp hhead
    exact (SingleLine.cut (by decide : ' '.toNat < 0x80) (a := []) h).2
  · exact h

/-- The value of a field is on the line. -/
theorem SingleLine.value (h : SingleLine line) :
    SingleLine (Sse.fieldValue (line.dropWhile (· != 0x3A)).tail) := by
  refine SingleLine.fieldValue ?_
  cases hdrop : line.dropWhile (· != 0x3A) with
  | nil => exact .nil
  | cons b rest =>
    have hb : b = 0x3A := by
      have hne : line.dropWhile (· != 0x3A) ≠ [] := by simp [hdrop]
      have := List.head_dropWhile_not (· != 0x3A) hne
      simpa [hdrop] using this
    have hline : line.takeWhile (· != 0x3A) ++ 0x3A :: rest = line := by
      conv_rhs => rw [← List.takeWhile_append_dropWhile (p := (· != 0x3A)) (l := line), hdrop, hb]
    rw [← hline] at h
    exact (SingleLine.cut (by decide : ':'.toNat < 0x80) h).2

/-- What the decoder has collected of a frame. -/
structure FrameInv (frame : Event) : Prop where
  noData : frame.hasData = false → frame.data = none
  data : frame.hasData = true →
    ∃ text, frame.data = some (Utf8.encode text ++ [lineFeed]) ∧ '\r' ∉ text
  noType : frame.hasType = false → frame.type = []
  type : SingleLine frame.type
  noID : frame.hasID = false → frame.id = []
  id : SingleLine frame.id ∧ 0 ∉ frame.id
  noRetry : frame.hasRetry = false → frame.retry = 0
  retry : ∃ n : Nat, frame.retry = n * millisecond ∧ n ≤ maxRetryMillis
  comments : ∀ comment ∈ frame.comments, SingleLine comment

/-- The frame has a field or a comment. -/
def Event.Recognized (frame : Event) : Prop :=
  frame.hasData = true ∨ frame.hasType = true ∨ frame.hasID = true ∨ frame.hasRetry = true ∨
    frame.comments ≠ []

theorem frameInv_zero : FrameInv .zero where
  noData _ := rfl
  data := nofun
  noType _ := rfl
  type := .nil
  noID _ := rfl
  id := ⟨.nil, List.not_mem_nil⟩
  noRetry _ := rfl
  retry := ⟨0, rfl, by decide⟩
  comments := List.forall_mem_nil _

theorem parseRetry_eq_some {value : List UInt8} {retry : Int} (h : parseRetry value = some retry) :
    ∃ n : Nat, retry = n * millisecond ∧ n ≤ maxRetryMillis := by
  unfold parseRetry at h
  split at h
  · cases h
  · obtain ⟨n, -, h⟩ := Option.bind_eq_some_iff.mp h
    split at h
    · next hle =>
      cases h
      exact ⟨n, rfl, hle⟩
    · cases h

/-- One field. -/
theorem FrameInv.setField {frame : Event} (h : FrameInv frame) (name : List UInt8)
    {value : List UInt8} (hvalue : SingleLine value) :
    FrameInv (setField name value frame).1 ∧
      ((setField name value frame).2 = true → (setField name value frame).1.Recognized) ∧
      (frame.Recognized → (setField name value frame).1.Recognized) := by
  obtain ⟨text, htext, hr, -⟩ := singleLine_iff.mp hvalue
  have hsame : FrameInv (frame, false).1 ∧ ((frame, false).2 = true → (frame, false).1.Recognized) ∧
      (frame.Recognized → (frame, false).1.Recognized) := ⟨h, nofun, fun hrec => hrec⟩
  unfold Sse.setField
  split
  · refine ⟨{ h with noData := nofun, data := fun _ => ?_ }, fun _ => Or.inl rfl,
      fun _ => Or.inl rfl⟩
    have hcollected : ∃ front, frame.dataBytes = Utf8.encode front ∧ '\r' ∉ front := by
      cases hdata : frame.hasData with
      | false =>
        refine ⟨[], ?_, List.not_mem_nil⟩
        rw [Event.dataBytes, h.noData hdata]
        rfl
      | true =>
        obtain ⟨front, hfront, hnone⟩ := h.data hdata
        refine ⟨front ++ ['\n'], ?_, ?_⟩
        · rw [Event.dataBytes, hfront, Utf8.encode_append]
          rfl
        · rw [List.mem_append, not_or]
          exact ⟨hnone, by decide⟩
    obtain ⟨front, hfront, hnone⟩ := hcollected
    refine ⟨front ++ text, ?_, ?_⟩
    · show some (frame.dataBytes ++ value ++ [lineFeed]) = _
      rw [hfront, ← htext, Utf8.encode_append]
    · rw [List.mem_append, not_or]
      exact ⟨hnone, hr⟩
  split
  · exact ⟨{ h with noType := nofun, type := hvalue }, fun _ => Or.inr (Or.inl rfl),
      fun _ => Or.inr (Or.inl rfl)⟩
  split
  · split
    · exact hsame
    · next hnul =>
      exact ⟨{ h with noID := nofun, id := ⟨hvalue, hnul⟩ },
        fun _ => Or.inr (Or.inr (Or.inl rfl)), fun _ => Or.inr (Or.inr (Or.inl rfl))⟩
  split
  · cases hretry : parseRetry value with
    | none => exact hsame
    | some retry =>
      exact ⟨{ h with noRetry := nofun, retry := parseRetry_eq_some hretry },
        fun _ => Or.inr (Or.inr (Or.inr (Or.inl rfl))),
        fun _ => Or.inr (Or.inr (Or.inr (Or.inl rfl)))⟩
  · exact hsame

/-- One line. -/
theorem FrameInv.applyLine {frame : Event} (h : FrameInv frame) (hline : SingleLine line) :
    FrameInv (applyLine line frame).1 ∧
      ((applyLine line frame).2 = true → (applyLine line frame).1.Recognized) ∧
      (frame.Recognized → (applyLine line frame).1.Recognized) := by
  unfold Sse.applyLine
  split
  · next hhead =>
    obtain ⟨rest, rfl⟩ := List.head?_eq_some_iff.mp hhead
    have hrest : SingleLine rest := (SingleLine.cut (by decide : ':'.toNat < 0x80) (a := []) hline).2
    have hne : frame.comments ++ [Sse.fieldValue rest] ≠ [] := by simp
    refine ⟨{ h with comments := ?_ }, fun _ => ?_, fun _ => ?_⟩
    · exact List.forall_mem_append.mpr
        ⟨h.comments, List.forall_mem_singleton.mpr hrest.fieldValue⟩
    · exact Or.inr (Or.inr (Or.inr (Or.inr hne)))
    · exact Or.inr (Or.inr (Or.inr (Or.inr hne)))
  · exact h.setField _ hline.value

/-- What a decoder keeps from line to line. -/
structure Decoder.Inv (decoder : Decoder) : Prop where
  frame : FrameInv decoder.frame
  recognized : decoder.recognized = true → decoder.frame.Recognized

theorem inv_newDecoder (input : List UInt8) (readError : ReadError) (maxEventBytes : Nat) :
    (newDecoder input readError maxEventBytes).Inv := ⟨frameInv_zero, nofun⟩

theorem Decoder.Inv.readLine (h : decoder.Inv) : decoder.readLine.2.Inv := by
  obtain ⟨hframe, hrecognized⟩ := decoder.readLine_frame
  refine ⟨hframe ▸ h.frame, fun hrec => ?_⟩
  rw [hrecognized] at hrec
  exact hframe ▸ h.recognized hrec

theorem Decoder.Inv.startFrame (decoder : Decoder) : decoder.startFrame.Inv :=
  ⟨frameInv_zero, nofun⟩

theorem Decoder.Inv.consumeLine (h : decoder.Inv) (hline : SingleLine line) :
    (decoder.consumeLine line).Inv := by
  obtain ⟨hframe, hnew, hold⟩ := h.frame.applyLine hline
  refine ⟨hframe, fun hrec => ?_⟩
  obtain hrec | hrec := Bool.or_eq_true_iff.mp hrec
  · exact hold (h.recognized hrec)
  · exact hnew hrec

/-- What `Decode` returns: the flags are exact and the values can be sent. -/
structure Event.Received (event : Event) : Prop where
  data : event.data.isSome = event.hasData
  bytes : Utf8.valid event.dataBytes = true ∧ carriageReturn ∉ event.dataBytes
  noType : event.hasType = false → event.type = []
  type : SingleLine event.type
  noID : event.hasID = false → event.id = []
  id : SingleLine event.id ∧ 0 ∉ event.id
  noRetry : event.hasRetry = false → event.retry = 0
  retry : ∃ n : Nat, event.retry = n * millisecond ∧ n ≤ maxRetryMillis
  comments : ∀ comment ∈ event.comments, SingleLine comment
  recognized : event.Recognized

namespace Event.Received

variable {event : Event} (h : event.Received)
include h

theorem dataPresent : event.dataPresent = event.hasData := by
  rw [Event.dataPresent, h.data, Bool.or_self]

theorem typePresent : event.typePresent = event.hasType := by
  unfold Event.typePresent
  cases hflag : event.hasType with
  | false => simp [h.noType hflag]
  | true => rfl

theorem idPresent : event.idPresent = event.hasID := by
  unfold Event.idPresent
  cases hflag : event.hasID with
  | false => simp [h.noID hflag]
  | true => rfl

theorem retryPresent : event.retryPresent = event.hasRetry := by
  unfold Event.retryPresent
  cases hflag : event.hasRetry with
  | false => simp [h.noRetry hflag]
  | true => rfl

theorem millis : 0 ≤ event.retry ∧ event.retry % millisecond = 0 := by
  obtain ⟨n, hn, -⟩ := h.retry
  rw [hn]
  exact ⟨Int.mul_nonneg (Int.natCast_nonneg n) (by decide), Int.mul_emod_left ..⟩

theorem encodable : event.Encodable where
  nonempty := by
    rw [h.dataPresent, h.typePresent, h.idPresent, h.retryPresent]
    rintro ⟨hdata, htype, hid, hretry, hcomments⟩
    obtain hrec | hrec | hrec | hrec | hrec := h.recognized
    · rw [hdata] at hrec; cases hrec
    · rw [htype] at hrec; cases hrec
    · rw [hid] at hrec; cases hrec
    · rw [hretry] at hrec; cases hrec
    · exact hrec hcomments
  data _ := h.bytes
  type _ := h.type
  id _ := h.id
  retry _ := h.millis
  comments := h.comments

end Event.Received

theorem Decoder.Inv.received (h : decoder.Inv) (hrecognized : decoder.recognized = true) :
    decoder.finishedEvent.Received := by
  obtain ⟨noData, data, noType, type, noID, id, noRetry, retry, comments⟩ := h.frame
  have hrec := h.recognized hrecognized
  unfold Decoder.finishedEvent
  cases hdata : decoder.frame.hasData with
  | false =>
    rw [if_neg (by decide)]
    have hnone := noData hdata
    refine ⟨by rw [hnone, hdata]; rfl, ?_, noType, type, noID, id, noRetry, retry, comments, hrec⟩
    rw [Event.dataBytes, hnone]
    exact ⟨Utf8.valid_encode [], List.not_mem_nil⟩
  | true =>
    rw [if_pos rfl]
    obtain ⟨text, htext, hreturn⟩ := data hdata
    have hbytes : decoder.frame.dataBytes.dropLast = Utf8.encode text := by
      rw [Event.dataBytes, htext, Option.getD_some, List.dropLast_concat]
    refine ⟨hdata.symm, ?_, noType, type, noID, id, noRetry, retry, comments, Or.inl hdata⟩
    show Utf8.valid decoder.frame.dataBytes.dropLast = true ∧
      carriageReturn ∉ decoder.frame.dataBytes.dropLast
    rw [hbytes]
    exact ⟨Utf8.valid_encode text,
      fun hmem => hreturn ((Utf8.mem_encode (by decide : '\r'.toNat < 0x80)).mp hmem)⟩

/-- Whatever `Decode` returns can be sent. -/
theorem decode_received (hinv : decoder.Inv) {event : Event} (h : (decode decoder).1 = .ok event) :
    event.Received ∧ (decode decoder).2.Inv := by
  fun_induction decode decoder with
  | case1 decoder e hread => cases h
  | case2 decoder hread hrecognized =>
    cases h
    exact ⟨hinv.readLine.received hrecognized, .startFrame _⟩
  | case3 decoder hread hrecognized ih => exact ih (.startFrame _) h
  | case4 decoder b line hread ih =>
    have hline := Decoder.readLine_singleLine hread
    have hstarted : ({ decoder.readLine.2 with blockStarted := true } : Decoder).Inv :=
      ⟨hinv.readLine.frame, hinv.readLine.recognized⟩
    exact ih (hstarted.consumeLine hline) h

/-- A decoder after some calls of `Decode` that returned events. -/
inductive Decoder.Reached (start : Decoder) : Decoder → Prop
  | start : Reached start start
  | next {decoder : Decoder} {event : Event} (reached : Reached start decoder)
      (returned : (decode decoder).1 = .ok event) : Reached start (decode decoder).2

/-- An event that a decoder with the given limit returns for some input. -/
def Accepted (maxEventBytes : Nat) (event : Event) : Prop :=
  ∃ input readError decoder, Decoder.Reached (newDecoder input readError maxEventBytes) decoder ∧
    (decode decoder).1 = .ok event

theorem Decoder.Reached.inv {start : Decoder} (h : Reached start decoder) (hstart : start.Inv) :
    decoder.Inv := by
  induction h with
  | start => exact hstart
  | next _ returned ih => exact (decode_received ih returned).2

theorem Accepted.received {maxEventBytes : Nat} {event : Event} (h : Accepted maxEventBytes event) :
    event.Received := by
  obtain ⟨input, readError, decoder, hreached, hreturned⟩ := h
  exact (decode_received (hreached.inv (inv_newDecoder ..)) hreturned).1

end Streamweld.Sse
