import Streamweld.Lib.JsonMap
import Streamweld.Lib.Utf8Stream

/-!
# The incremental parser of the client

The parser of event streams in the TypeScript client (`packages/client/src/sse.ts`).
A string is the list of its characters: the parser looks only at ASCII
characters and cuts only there, so nothing depends on its code units.

A call that throws has no state after it, since the client drops the parser
with the connection.

`consumeLines_append` says that the lines do not depend on where the text is cut.
-/

namespace Streamweld.Client

open Streamweld.Lib

variable {consumed taken : Consumed}

/-! ## The model -/

structure ParsedSSEEvent where
  data : List Char
  event : List Char
  id : Option (List Char)
  retry : Option Nat
  deriving DecidableEq, Repr

/-- The message of a `StreamProtocolError`. -/
abbrev StreamProtocolError := String

/-- The fields of the event that is being read. -/
structure EventBuffer where
  eventBytes : Nat
  data : List (List Char)
  eventType : List Char
  eventId : Option (List Char)
  retry : Option Nat
  deriving DecidableEq, Repr

def EventBuffer.empty : EventBuffer :=
  { eventBytes := 0, data := [], eventType := [], eventId := none, retry := none }

structure IncrementalSSEParser where
  decoder : Utf8.TextDecoder
  maxEventBytes : Nat
  pending : List Char
  started : Bool
  finished : Bool
  buffer : EventBuffer
  deriving DecidableEq, Repr

/-- `Number.MAX_SAFE_INTEGER`. -/
def maxSafeInteger : Nat := 2 ^ 53 - 1

namespace IncrementalSSEParser

/-- The constructor. -/
def new (maxEventBytes : Int) : Except StreamProtocolError IncrementalSSEParser :=
  if maxEventBytes < 1 ∨ (maxSafeInteger : Int) < maxEventBytes then
    .error "maxEventBytes must be a positive safe integer"
  else
    .ok { decoder := .new, maxEventBytes := maxEventBytes.toNat, pending := []
          started := false, finished := false, buffer := .empty }

end IncrementalSSEParser

/-- `/^[0-9]+$/` and `Number`, when the number is a safe integer.  A decimal
above the safe integers is never rounded to one of them. -/
def parseRetry (value : List Char) : Option Nat :=
  if value = [] then none else (Json.parseDigits value 0).filter (· ≤ maxSafeInteger)

/-- The name and the value of a field. -/
def splitField (line : List Char) : List Char × List Char :=
  let value := (line.dropWhile (· != ':')).tail
  (line.takeWhile (· != ':'), if value.head? = some ' ' then value.tail else value)

/-- The `switch` of `processLine`. -/
def setField (field value : List Char) (buffer : EventBuffer) : EventBuffer :=
  if field = "data".toList then { buffer with data := buffer.data ++ [value] }
  else if field = "event".toList then { buffer with eventType := value }
  else if field = "id".toList then
    if Char.ofNat 0 ∈ value then buffer else { buffer with eventId := some value }
  else if field = "retry".toList then
    match parseRetry value with
    | some retry => { buffer with retry := some retry }
    | none => buffer
  else buffer

/-- The event that `dispatch` returns; the buffer starts afresh. -/
def dispatch (buffer : EventBuffer) : Option ParsedSSEEvent :=
  if buffer.data = [] then none
  else some
    { data := ['\n'].intercalate buffer.data
      event := if buffer.eventType = [] then "message".toList else buffer.eventType
      id := buffer.eventId
      retry := buffer.retry }

def processLine (line : List Char) (buffer : EventBuffer) : EventBuffer × Option ParsedSSEEvent :=
  if line = [] then (.empty, dispatch buffer)
  else if line.head? = some ':' then (buffer, none)
  else
    let (field, value) := splitField line
    (setField field value buffer, none)

def tooLarge (maxEventBytes : Nat) : StreamProtocolError :=
  "SSE event exceeds " ++ toString maxEventBytes ++ " bytes"

def account (maxEventBytes : Nat) (line : List Char) (buffer : EventBuffer) :
    Except StreamProtocolError EventBuffer :=
  let eventBytes := buffer.eventBytes + (Utf8.encode line).length
  if eventBytes > maxEventBytes then .error (tooLarge maxEventBytes)
  else .ok { buffer with eventBytes := eventBytes }

/-- What is left of the text, the open event and the events that were read. -/
structure Consumed where
  pending : List Char
  buffer : EventBuffer
  events : List ParsedSSEEvent
  deriving DecidableEq, Repr

/-- More text after the events that were read. -/
def Consumed.after (taken more : Consumed) : Consumed :=
  { more with events := taken.events ++ more.events }

/-- Goes on with what is left and with the open event. -/
def continueWith (first : Except StreamProtocolError Consumed)
    (next : List Char → EventBuffer → Except StreamProtocolError Consumed) :
    Except StreamProtocolError Consumed :=
  first.bind fun taken => (next taken.pending taken.buffer).map taken.after

/-- What the loop of `consumeLines` does with a line. -/
def takeLine (maxEventBytes : Nat) (line : List Char) (buffer : EventBuffer) :
    Except StreamProtocolError Consumed :=
  (account maxEventBytes line buffer).map fun buffer =>
    let processed := processLine line buffer
    { pending := [], buffer := processed.1, events := processed.2.toList }

/-- A character that does not end a line. -/
def Plain (c : Char) : Prop := c ≠ '\r' ∧ c ≠ '\n'

instance (c : Char) : Decidable (Plain c) := inferInstanceAs (Decidable (_ ∧ _))

/-- The loop of `consumeLines`; `line` is what it has passed since `start`.  A
carriage return at the end of the text waits for the character after it, unless
the text is `final`. -/
def consumeLines (maxEventBytes : Nat) (final : Bool) :
    List Char → List Char → EventBuffer → Except StreamProtocolError Consumed
  | line, [], buffer => .ok { pending := line, buffer := buffer, events := [] }
  | line, [c], buffer =>
    if Plain c ∨ (c = '\r' ∧ final = false) then
      .ok { pending := line ++ [c], buffer := buffer, events := [] }
    else takeLine maxEventBytes line buffer
  | line, c :: d :: rest, buffer =>
    if Plain c then
      consumeLines maxEventBytes final (line ++ [c]) (d :: rest) buffer
    else
      continueWith (takeLine maxEventBytes line buffer) fun line buffer =>
        if c = '\r' ∧ d = '\n' then consumeLines maxEventBytes final line rest buffer
        else consumeLines maxEventBytes final line (d :: rest) buffer

/-- `boundPendingLine`. -/
def boundPendingLine (maxEventBytes : Nat) (pending : List Char) (buffer : EventBuffer) :
    Except StreamProtocolError Unit :=
  let incompleteLine := if pending.getLast? = some '\r' then pending.dropLast else pending
  if buffer.eventBytes + (Utf8.encode incompleteLine).length > maxEventBytes then
    .error (tooLarge maxEventBytes)
  else .ok ()

namespace IncrementalSSEParser

/-- The text without a byte order mark, at the first call. -/
def dropMark (parser : IncrementalSSEParser) (decoded : List Char) : List Char :=
  if parser.started = false ∧ decoded.head? = some Utf8.TextDecoder.bom then decoded.tail
  else decoded

def push (parser : IncrementalSSEParser) (chunk : List UInt8) :
    Except StreamProtocolError (IncrementalSSEParser × List ParsedSSEEvent) :=
  if parser.finished = true then
    .error "cannot push bytes after the SSE parser reached EOF"
  else
    match parser.decoder.decode chunk with
    | none => .error "SSE response contains invalid UTF-8"
    | some (decoder, decoded) =>
      (consumeLines parser.maxEventBytes false [] (parser.pending ++ parser.dropMark decoded)
        parser.buffer).bind fun consumed =>
      (boundPendingLine parser.maxEventBytes consumed.pending consumed.buffer).map fun _ =>
        ({ parser with
            decoder := decoder, started := true
            pending := consumed.pending, buffer := consumed.buffer }, consumed.events)

def finish (parser : IncrementalSSEParser) :
    Except StreamProtocolError (IncrementalSSEParser × List ParsedSSEEvent) :=
  if parser.finished = true then .ok (parser, [])
  else
    match parser.decoder.flush with
    | none => .error "SSE response ends with incomplete UTF-8"
    | some decoded =>
      (consumeLines parser.maxEventBytes true [] (parser.pending ++ parser.dropMark decoded)
        parser.buffer).map fun consumed =>
          ({ parser with
              decoder := .new, started := true, finished := true
              pending := [], buffer := .empty }, consumed.events)

/-- The chunks of a response in order. -/
def pushAll (parser : IncrementalSSEParser) :
    List (List UInt8) → Except StreamProtocolError (IncrementalSSEParser × List ParsedSSEEvent)
  | [] => .ok (parser, [])
  | chunk :: chunks =>
    (parser.push chunk).bind fun pushed =>
      (pushed.1.pushAll chunks).map fun more => (more.1, pushed.2 ++ more.2)

/-- The chunks of a response and its end. -/
def parse (parser : IncrementalSSEParser) (chunks : List (List UInt8)) :
    Except StreamProtocolError (List ParsedSSEEvent) :=
  (parser.pushAll chunks).bind fun pushed =>
    pushed.1.finish.map fun finished => pushed.2 ++ finished.2

end IncrementalSSEParser

/-! ## Lines -/

section Lines

variable {max : Nat} {final : Bool} {line w : List Char} {buffer : EventBuffer}

@[simp] theorem Consumed.after_pending (taken more : Consumed) :
    (taken.after more).pending = more.pending := rfl

@[simp] theorem Consumed.after_buffer (taken more : Consumed) :
    (taken.after more).buffer = more.buffer := rfl

@[simp] theorem Consumed.after_events (taken more : Consumed) :
    (taken.after more).events = taken.events ++ more.events := rfl

theorem continueWith_ok (taken : Consumed)
    (next : List Char → EventBuffer → Except StreamProtocolError Consumed) :
    continueWith (.ok taken) next = (next taken.pending taken.buffer).map taken.after := rfl

theorem continueWith_eq_ok {first : Except StreamProtocolError Consumed}
    {next : List Char → EventBuffer → Except StreamProtocolError Consumed}
    (h : continueWith first next = .ok consumed) :
    ∃ taken more, first = .ok taken ∧ next taken.pending taken.buffer = .ok more ∧
      consumed = taken.after more := by
  cases first with
  | error e => cases h
  | ok taken =>
    rw [continueWith_ok] at h
    cases hnext : next taken.pending taken.buffer with
    | error e =>
      rw [hnext] at h
      cases h
    | ok more =>
      rw [hnext] at h
      cases h
      exact ⟨taken, more, rfl, hnext, rfl⟩

/-- Nothing was read yet. -/
theorem continueWith_start (pending : List Char) (buffer : EventBuffer)
    (next : List Char → EventBuffer → Except StreamProtocolError Consumed) :
    continueWith (.ok { pending := pending, buffer := buffer, events := [] }) next =
      next pending buffer := by
  rw [continueWith_ok]
  cases next pending buffer with
  | error e => rfl
  | ok more => rfl

theorem continueWith_assoc (first : Except StreamProtocolError Consumed)
    (next more : List Char → EventBuffer → Except StreamProtocolError Consumed) :
    continueWith (continueWith first next) more =
      continueWith first fun pending buffer => continueWith (next pending buffer) more := by
  cases first with
  | error e => rfl
  | ok a =>
    rw [continueWith_ok, continueWith_ok]
    cases next a.pending a.buffer with
    | error e => rfl
    | ok b =>
      show Except.map _ (more b.pending b.buffer) = Except.map _ (Except.map _ _)
      cases more b.pending b.buffer with
      | error e => rfl
      | ok c =>
        show Except.ok ((a.after b).after c) = .ok (a.after (b.after c))
        simp only [Consumed.after, List.append_assoc]

theorem takeLine_eq_ok (h : takeLine max line buffer = .ok taken) :
    buffer.eventBytes + (Utf8.encode line).length ≤ max ∧
      let processed := processLine line
        { buffer with eventBytes := buffer.eventBytes + (Utf8.encode line).length }
      taken = { pending := [], buffer := processed.1, events := processed.2.toList } := by
  unfold takeLine account at h
  by_cases hlarge : buffer.eventBytes + (Utf8.encode line).length > max
  · simp only [if_pos hlarge] at h
    cases h
  · simp only [if_neg hlarge] at h
    cases h
    exact ⟨not_lt.mp hlarge, rfl⟩

theorem takeLine_of_le (h : buffer.eventBytes + (Utf8.encode line).length ≤ max) :
    takeLine max line buffer =
      let processed := processLine line
        { buffer with eventBytes := buffer.eventBytes + (Utf8.encode line).length }
      .ok { pending := [], buffer := processed.1, events := processed.2.toList } := by
  unfold takeLine account
  simp only [if_neg (not_lt.mpr h)]
  rfl

theorem consumeLines_plain_cons {c : Char} (hc : Plain c) (rest : List Char) :
    consumeLines max final line (c :: rest) buffer =
      consumeLines max final (line ++ [c]) rest buffer := by
  cases rest with
  | nil =>
    show (if _ then _ else _) = _
    rw [if_pos (Or.inl hc), consumeLines]
  | cons d rest => rw [consumeLines, if_pos hc]

/-- The text up to a line ending is the line. -/
theorem consumeLines_plain (hw : ∀ c ∈ w, Plain c) (rest : List Char) :
    consumeLines max final line (w ++ rest) buffer =
      consumeLines max final (line ++ w) rest buffer := by
  induction w generalizing line with
  | nil => rw [List.nil_append, List.append_nil]
  | cons c w ih =>
    rw [List.forall_mem_cons] at hw
    rw [List.cons_append, consumeLines_plain_cons hw.1, ih hw.2, List.append_assoc,
      List.singleton_append]

theorem takeLine_pending (h : takeLine max line buffer = .ok taken) : taken.pending = [] := by
  rw [(takeLine_eq_ok h).2]

/-- A line that was taken leaves nothing. -/
theorem continueWith_takeLine
    {next next' : List Char → EventBuffer → Except StreamProtocolError Consumed}
    (h : ∀ buffer, next [] buffer = next' [] buffer) :
    continueWith (takeLine max line buffer) next = continueWith (takeLine max line buffer) next' := by
  cases htake : takeLine max line buffer with
  | error e => rfl
  | ok taken => rw [continueWith_ok, continueWith_ok, takeLine_pending htake, h]

/-- A line feed ends the line. -/
theorem consumeLines_feed (rest : List Char) :
    consumeLines max final line ('\n' :: rest) buffer =
      continueWith (takeLine max line buffer) fun line buffer =>
        consumeLines max final line rest buffer := by
  cases rest with
  | nil =>
    rw [consumeLines, if_neg (by simp [Plain])]
    cases htake : takeLine max line buffer with
    | error e => rfl
    | ok taken =>
      show _ = Except.ok (taken.after _)
      rw [Consumed.after, List.append_nil]
  | cons d rest =>
    rw [consumeLines, if_neg (by decide)]
    simp only [show ¬ ('\n' = '\r' ∧ d = '\n') from fun h => absurd h.1 (by decide), if_false]

/-- A carriage return ends the line when the character after it is there. -/
theorem consumeLines_return (d : Char) (rest : List Char) :
    consumeLines max final line ('\r' :: d :: rest) buffer =
      continueWith (takeLine max line buffer) fun line buffer =>
        if d = '\n' then consumeLines max final line rest buffer
        else consumeLines max final line (d :: rest) buffer := by
  rw [consumeLines, if_neg (by decide)]
  simp only [true_and]

theorem consumeLines_return_nil :
    consumeLines max false line ['\r'] buffer =
      .ok { pending := line ++ ['\r'], buffer := buffer, events := [] } := by
  rw [consumeLines, if_pos (Or.inr ⟨rfl, rfl⟩)]

theorem plain_nil : ∀ c ∈ ([] : List Char), Plain c := List.forall_mem_nil _

theorem plain_concat {c : Char} (hline : ∀ c ∈ line, Plain c) (hc : Plain c) :
    ∀ x ∈ line ++ [c], Plain x :=
  List.forall_mem_append.mpr ⟨hline, List.forall_mem_singleton.mpr hc⟩

/-- The text may be cut anywhere: what is left of the first piece stands in
front of the second. -/
theorem consumeLines_append (hline : ∀ c ∈ line, Plain c) (a b : List Char) :
    consumeLines max false line (a ++ b) buffer =
      continueWith (consumeLines max false line a buffer) fun pending buffer =>
        consumeLines max false [] (pending ++ b) buffer := by
  induction hlen : a.length using Nat.strong_induction_on generalizing a line buffer with
  | _ n ih =>
    cases a with
    | nil =>
      rw [List.nil_append, consumeLines, continueWith_start, consumeLines_plain hline,
        List.nil_append]
    | cons c a =>
      rw [List.length_cons] at hlen
      by_cases hc : Plain c
      · rw [List.cons_append, consumeLines_plain_cons hc, consumeLines_plain_cons hc]
        exact ih a.length (by omega) (plain_concat hline hc) a rfl
      by_cases hreturn : c = '\r'
      · subst hreturn
        cases a with
        | nil =>
          -- the carriage return waits, and meets the second piece
          rw [consumeLines_return_nil, continueWith_start, List.append_assoc,
            consumeLines_plain hline, List.nil_append]
        | cons d a =>
          rw [List.length_cons] at hlen
          rw [List.cons_append, List.cons_append, consumeLines_return, consumeLines_return,
            continueWith_assoc]
          refine continueWith_takeLine fun buffer => ?_
          by_cases hd : d = '\n'
          · rw [if_pos hd, if_pos hd]
            exact ih a.length (by omega) plain_nil a rfl
          · rw [if_neg hd, if_neg hd]
            exact ih (d :: a).length (by rw [List.length_cons]; omega) plain_nil (d :: a) rfl
      · have hfeed : c = '\n' := by
          by_contra hne
          exact hc ⟨hreturn, hne⟩
        subst hfeed
        rw [List.cons_append, consumeLines_feed, consumeLines_feed, continueWith_assoc]
        exact continueWith_takeLine fun buffer => ih a.length (by omega) plain_nil a rfl

/-- The lines are taken one after another. -/
def takeLines (max : Nat) : List (List Char) → EventBuffer → Except StreamProtocolError Consumed
  | [], buffer => .ok { pending := [], buffer := buffer, events := [] }
  | line :: lines, buffer =>
    continueWith (takeLine max line buffer) fun _ buffer => takeLines max lines buffer

/-- Complete lines. -/
def unlines (lines : List (List Char)) : List Char := lines.flatMap (· ++ ['\n'])

end Lines

end Streamweld.Client
