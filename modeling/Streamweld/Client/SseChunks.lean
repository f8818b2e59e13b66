import Streamweld.Client.SseReading

/-!
# Chunks of a response

What a run of the client's parser returns before its first error
(`observe`), against the reading of all bytes at once.  The parser drops the
events of a call that throws, and it drops a second byte order mark only when
that mark is decoded by the first call.

* `push_clean`, `push_fault`: a chunk is accepted exactly when all bytes so far are
  a text whose blocks fit;
* `observe_clean`, `observe_fault`: runs of a parser that has started;
* `push_two_marks`, `push_fresh`: what the first call does besides;
* `parse_lines_iff`: a text of complete lines is accepted when its lines are;
* `reading_mark_iff`: when the second mark makes no difference.
-/

namespace Streamweld.Client

open Streamweld.Lib Streamweld.Lib.Utf8

variable {chunk bytes : List UInt8} {chunks : List (List UInt8)} {max : Nat}

/-! ## Runs -/

/-- The events that `push` and `finish` return before the first error, and whether
there was one. -/
def observe (parser : IncrementalSSEParser) : List (List UInt8) → List ParsedSSEEvent × Bool
  | [] =>
    match parser.finish with
    | .error _ => ([], true)
    | .ok (_, events) => (events, false)
  | chunk :: chunks =>
    match parser.push chunk with
    | .error _ => ([], true)
    | .ok (parser', events) =>
      (events ++ (observe parser' chunks).1, (observe parser' chunks).2)

/-! ## Reading all bytes -/

/-- The text that the decoder gives for the bytes. -/
def content (bytes : List UInt8) : Option (List Char) :=
  (TextDecoder.new.decode bytes).map Prod.snd

/-- The bytes begin a UTF-8 text, and no block of it exceeds the limit. -/
def Clean (max : Nat) (bytes : List UInt8) : Prop :=
  ∃ text, content bytes = some text ∧ Fits max text

/-- The events that end in the bytes. -/
def eventsBefore (bytes : List UInt8) : List ParsedSSEEvent :=
  ((content bytes).map eventsIn).getD []

/-- No event ends before a fault. -/
def Steady (max : Nat) (bytes : List UInt8) : Prop :=
  Clean max bytes ∨
    ∀ front rest, bytes = front ++ rest → Clean max front → eventsBefore front = []

/-- The events of all bytes and whether they have a fault.  The stream must not end
inside a character; a carriage return at its end ends a line. -/
def reading (max : Nat) (bytes : List UInt8) : List ParsedSSEEvent × Bool :=
  match TextDecoder.new.decode bytes with
  | none => ([], true)
  | some (decoder, text) =>
    if Fits max text then
      if decoder.pending = [] then (lineEvents (textLines text).1, false)
      else (eventsIn text, true)
    else ([], true)

theorem clean_of_append {a b : List UInt8} (h : Clean max (a ++ b)) : Clean max a := by
  obtain ⟨text, htext, hfits⟩ := h
  unfold content at htext
  rw [TextDecoder.decode_append] at htext
  cases ha : TextDecoder.new.decode a with
  | none =>
    rw [ha] at htext
    cases htext
  | some first =>
    rw [ha, Option.bind_some] at htext
    cases hb : first.1.decode b with
    | none =>
      rw [hb] at htext
      cases htext
    | some more =>
      rw [hb] at htext
      cases htext
      exact ⟨first.2, by rw [content, ha]; rfl, fits_of_append hfits⟩

/-! ## One call -/

/-- What a call does with the text of its chunk. -/
def pushText (parser : IncrementalSSEParser) (decoder : TextDecoder) (text : List Char) :
    Except StreamProtocolError (IncrementalSSEParser × List ParsedSSEEvent) :=
  (consumeLines parser.maxEventBytes false [] (parser.pending ++ text) parser.buffer).bind
    fun consumed =>
      (boundPendingLine parser.maxEventBytes consumed.pending consumed.buffer).map fun _ =>
        ({ parser with
            decoder := decoder, started := true
            pending := consumed.pending, buffer := consumed.buffer }, consumed.events)

theorem push_of_none {parser : IncrementalSSEParser} (hopen : parser.finished = false)
    (h : parser.decoder.decode chunk = none) :
    parser.push chunk = .error "SSE response contains invalid UTF-8" := by
  unfold IncrementalSSEParser.push
  rw [if_neg (by rw [hopen]; decide), h]

theorem push_of_some {parser : IncrementalSSEParser} {decoder : TextDecoder} {text : List Char}
    (hopen : parser.finished = false) (h : parser.decoder.decode chunk = some (decoder, text)) :
    parser.push chunk = pushText parser decoder (parser.dropMark text) := by
  unfold IncrementalSSEParser.push
  rw [if_neg (by rw [hopen]; decide), h]
  rfl

/-! ## A parser that has started -/

/-- A parser that has read the bytes `front`, which are the text `text`. -/
structure After (max : Nat) (front : List UInt8) (text : List Char)
    (parser : IncrementalSSEParser) : Prop where
  limit : parser.maxEventBytes = max
  unfinished : parser.finished = false
  started : parser.started = true
  decoded : TextDecoder.new.decode front = some (parser.decoder, text)
  fits : Fits max text
  pending : parser.pending = (stateAfter text).pending
  buffer : parser.buffer = (stateAfter text).buffer

section After

variable {front : List UInt8} {text : List Char} {parser : IncrementalSSEParser}

theorem After.clean (h : After max front text parser) : Clean max front :=
  ⟨text, by rw [content, h.decoded]; rfl, h.fits⟩

theorem After.eventsBefore_eq (h : After max front text parser) :
    eventsBefore front = eventsIn text := by
  rw [eventsBefore, content, h.decoded]
  rfl

theorem After.dropMark (h : After max front text parser) (decoded : List Char) :
    parser.dropMark decoded = decoded := by
  unfold IncrementalSSEParser.dropMark
  rw [h.started]
  exact if_neg fun hbad => Bool.true_eq_false_eq_False hbad.1

/-- A chunk that keeps the bytes clean. -/
theorem push_clean (h : After max front text parser) (hclean : Clean max (front ++ chunk)) :
    ∃ parser' text' more, parser.push chunk = .ok (parser', more) ∧
      After max (front ++ chunk) text' parser' ∧ eventsIn text' = eventsIn text ++ more := by
  obtain ⟨text', htext', hfits⟩ := hclean
  unfold content at htext'
  rw [TextDecoder.decode_append, h.decoded, Option.bind_some] at htext'
  cases hdecode : parser.decoder.decode chunk with
  | none =>
    rw [hdecode] at htext'
    cases htext'
  | some read =>
    rw [hdecode] at htext'
    cases htext'
    have haccept := accept_more h.fits read.2
    rw [if_pos hfits] at haccept
    obtain ⟨more, hconsume, hbound, hevents⟩ := haccept
    refine ⟨{ parser with
      decoder := read.1, started := true, pending := (stateAfter (text ++ read.2)).pending
      buffer := (stateAfter (text ++ read.2)).buffer }, text ++ read.2, more, ?_, ?_, hevents⟩
    · rw [push_of_some h.unfinished hdecode, h.dropMark]
      unfold pushText
      rw [h.limit, h.pending, h.buffer, hconsume]
      show Except.map _ (boundPendingLine max _ _) = _
      rw [hbound]
      rfl
    · refine ⟨h.limit, h.unfinished, rfl, ?_, hfits, rfl, rfl⟩
      rw [TextDecoder.decode_append, h.decoded, Option.bind_some, hdecode]
      rfl

/-- A chunk with a fault. -/
theorem push_fault (h : After max front text parser) (hfault : ¬ Clean max (front ++ chunk)) :
    ∃ e, parser.push chunk = .error e := by
  cases hdecode : parser.decoder.decode chunk with
  | none => exact ⟨_, push_of_none h.unfinished hdecode⟩
  | some read =>
    have hfits : ¬ Fits max (text ++ read.2) := by
      intro hfits
      refine hfault ⟨text ++ read.2, ?_, hfits⟩
      rw [content, TextDecoder.decode_append, h.decoded, Option.bind_some, hdecode]
      rfl
    have haccept := accept_more h.fits read.2
    rw [if_neg hfits] at haccept
    rw [push_of_some h.unfinished hdecode, h.dropMark]
    unfold pushText
    rw [h.limit, h.pending, h.buffer]
    cases hconsume : consumeLines max false [] ((stateAfter text).pending ++ read.2)
        (stateAfter text).buffer with
    | error e => exact ⟨e, rfl⟩
    | ok consumed =>
      obtain ⟨e, hbound⟩ := haccept consumed hconsume
      refine ⟨e, ?_⟩
      show Except.map _ (boundPendingLine max _ _) = _
      rw [hbound]
      rfl

/-- The end of the response. -/
theorem finish_after (h : After max front text parser) :
    if parser.decoder.pending = [] then
      ∃ parser' more, parser.finish = .ok (parser', more) ∧
        eventsIn text ++ more = lineEvents (textLines text).1
    else ∃ e, parser.finish = .error e := by
  have hopen : ¬ parser.finished = true := by rw [h.unfinished]; decide
  unfold IncrementalSSEParser.finish
  by_cases hpending : parser.decoder.pending = []
  · have hflush : parser.decoder.flush = some [] := if_pos hpending
    obtain ⟨consumed, hconsume, hevents⟩ := consumeLines_final h.fits
    rw [if_pos hpending, if_neg hopen, hflush]
    dsimp only
    rw [h.dropMark, h.limit, h.pending, h.buffer, List.append_nil, hconsume]
    exact ⟨_, consumed.events, rfl, hevents⟩
  · have hflush : parser.decoder.flush = none := if_neg hpending
    rw [if_neg hpending, if_neg hopen, hflush]
    exact ⟨_, rfl⟩

/-- A run on clean bytes returns what reading them at once gives. -/
theorem observe_clean (h : After max front text parser)
    (hclean : Clean max (front ++ chunks.flatten)) :
    (eventsIn text ++ (observe parser chunks).1, (observe parser chunks).2) =
      reading max (front ++ chunks.flatten) := by
  induction chunks generalizing front text parser with
  | nil =>
    have hfinish := finish_after h
    rw [List.flatten_nil, List.append_nil]
    unfold reading
    rw [h.decoded]
    dsimp only
    rw [if_pos h.fits]
    by_cases hpending : parser.decoder.pending = []
    · rw [if_pos hpending] at hfinish ⊢
      obtain ⟨parser', more, hok, hevents⟩ := hfinish
      rw [observe, hok]
      dsimp only
      rw [hevents]
    · rw [if_neg hpending] at hfinish ⊢
      obtain ⟨e, herror⟩ := hfinish
      rw [observe, herror]
      dsimp only
      rw [List.append_nil]
  | cons chunk chunks ih =>
    rw [List.flatten_cons, ← List.append_assoc] at hclean ⊢
    obtain ⟨parser', text', more, hpush, hafter, hevents⟩ := push_clean h (clean_of_append hclean)
    rw [← ih hafter hclean, observe, hpush]
    dsimp only
    rw [hevents, List.append_assoc]

/-- A run on bytes with a fault fails, after the events of some of the bytes before
the fault. -/
theorem observe_fault (h : After max front text parser)
    (hfault : ¬ Clean max (front ++ chunks.flatten)) :
    (observe parser chunks).2 = true ∧
      ∃ a b, front ++ chunks.flatten = a ++ b ∧ Clean max a ∧
        eventsIn text ++ (observe parser chunks).1 = eventsBefore a := by
  induction chunks generalizing front text parser with
  | nil =>
    rw [List.flatten_nil, List.append_nil] at hfault
    exact absurd h.clean hfault
  | cons chunk chunks ih =>
    rw [List.flatten_cons, ← List.append_assoc] at hfault ⊢
    by_cases hclean : Clean max (front ++ chunk)
    · obtain ⟨parser', text', more, hpush, hafter, hevents⟩ := push_clean h hclean
      obtain ⟨hfailed, a, b, hab, ha, hbefore⟩ := ih hafter hfault
      rw [observe, hpush]
      refine ⟨hfailed, a, b, hab, ha, ?_⟩
      rw [← hbefore, hevents, List.append_assoc]
    · obtain ⟨e, herror⟩ := push_fault h hclean
      rw [observe, herror]
      refine ⟨rfl, front, chunk ++ chunks.flatten, List.append_assoc .., h.clean, ?_⟩
      rw [h.eventsBefore_eq]
      exact List.append_nil _

end After

/-- A parser before its first chunk that has dealt with the byte order mark. -/
def startedParser (max : Nat) : IncrementalSSEParser :=
  { decoder := .new, maxEventBytes := max, pending := [], started := true, finished := false
    buffer := .empty }

theorem after_started (max : Nat) : After max [] [] (startedParser max) :=
  ⟨rfl, rfl, rfl, rfl, ⟨List.forall_mem_nil _, Nat.zero_le _⟩, rfl, rfl⟩

theorem reading_of_fault (h : ¬ Clean max bytes) : reading max bytes = ([], true) := by
  unfold reading
  cases hdecode : TextDecoder.new.decode bytes with
  | none => rfl
  | some read =>
    refine if_neg fun hfits => h ⟨read.2, ?_, hfits⟩
    rw [content, hdecode]
    rfl

/-- If no event ends before a fault, all runs return the same. -/
theorem observe_of_steady (h : Steady max bytes) (hchunks : chunks.flatten = bytes) :
    observe (startedParser max) chunks = reading max bytes := by
  subst hchunks
  by_cases hclean : Clean max chunks.flatten
  · exact observe_clean (after_started max) hclean
  · obtain ⟨hfailed, a, b, hab, ha, hevents⟩ := observe_fault (after_started max) hclean
    rw [reading_of_fault hclean]
    obtain hsteady | hsteady := h
    · exact absurd hsteady hclean
    · rw [hsteady a b hab ha] at hevents
      exact Prod.ext hevents hfailed

/-- Events before a fault are returned when the chunk ends before the fault. -/
theorem observe_two {front rest : List UInt8} (hclean : Clean max front)
    (hfault : ¬ Clean max (front ++ rest)) :
    observe (startedParser max) [front, rest] = (eventsBefore front, true) := by
  obtain ⟨parser', text', more, hpush, hafter, hevents⟩ := push_clean (after_started max) hclean
  obtain ⟨e, herror⟩ := push_fault hafter hfault
  rw [observe, hpush]
  dsimp only
  rw [observe, herror]
  dsimp only
  rw [List.append_nil]
  have hbefore := hafter.eventsBefore_eq
  rw [List.nil_append] at hbefore
  rw [hbefore, hevents]
  rfl

/-- They are lost when it does not. -/
theorem observe_one (hfault : ¬ Clean max bytes) :
    observe (startedParser max) [bytes] = ([], true) := by
  obtain ⟨e, herror⟩ := push_fault (after_started max) hfault
  rw [observe, herror]

/-! ## The first call -/

/-- The bytes of a byte order mark. -/
def markBytes : List UInt8 := Utf8.encode [TextDecoder.bom]

/-- A parser before its first chunk. -/
def newParser (max : Nat) : IncrementalSSEParser := { startedParser max with started := false }

theorem eq_newParser {max : Int} {parser : IncrementalSSEParser}
    (h : IncrementalSSEParser.new max = .ok parser) : parser = newParser max.toNat := by
  unfold IncrementalSSEParser.new at h
  split at h
  · cases h
  · cases h
    rfl

theorem decode_mark (bytes : List UInt8) :
    TextDecoder.new.decode (markBytes ++ bytes) =
      (feed [] bytes).map fun read => (⟨read.1, true⟩, read.2) := by
  rw [TextDecoder.decode_eq]
  show Option.map _ (feed [] (encode [TextDecoder.bom] ++ bytes)) = _
  rw [feed_encode_append, Option.map_map]
  rfl

/-- The decoder drops the first of two marks. -/
theorem decode_two_marks (bytes : List UInt8) :
    TextDecoder.new.decode (markBytes ++ (markBytes ++ bytes)) =
      (feed [] bytes).map fun read => (⟨read.1, true⟩, TextDecoder.bom :: read.2) := by
  rw [decode_mark]
  show Option.map _ (feed [] (encode [TextDecoder.bom] ++ bytes)) = _
  rw [feed_encode_append, Option.map_map]
  rfl

/-- Two marks in the first chunk are both dropped. -/
theorem push_two_marks (max : Nat) (bytes : List UInt8) :
    (newParser max).push (markBytes ++ (markBytes ++ bytes)) =
      (startedParser max).push (markBytes ++ bytes) := by
  have hone := decode_mark bytes
  have htwo := decode_two_marks bytes
  cases hfeed : feed [] bytes with
  | none =>
    rw [hfeed] at hone htwo
    rw [push_of_none rfl htwo, push_of_none rfl hone]
  | some read =>
    rw [hfeed] at hone htwo
    rw [push_of_some rfl htwo, push_of_some rfl hone]
    rfl

/-- A text that starts with a mark comes from bytes that start with two. -/
theorem two_marks_of_decode {decoder : TextDecoder} {text : List Char}
    (h : TextDecoder.new.decode chunk = some (decoder, text))
    (hmark : text.head? = some TextDecoder.bom) :
    ∃ bytes, chunk = markBytes ++ (markBytes ++ bytes) := by
  rw [TextDecoder.decode_eq] at h
  obtain ⟨⟨pending, read⟩, hfeed, heq⟩ := Option.map_eq_some_iff.mp h
  obtain ⟨hchunk, -⟩ := feed_sound (by decide) hfeed
  have htext : TextDecoder.dropMark false read = text := congrArg Prod.snd heq
  unfold TextDecoder.dropMark at htext
  by_cases hfirst : read.head? = some TextDecoder.bom
  · rw [if_pos ⟨rfl, hfirst⟩] at htext
    obtain ⟨tail, rfl⟩ := List.head?_eq_some_iff.mp hfirst
    rw [List.tail_cons] at htext
    subst htext
    obtain ⟨tail, rfl⟩ := List.head?_eq_some_iff.mp hmark
    refine ⟨encode tail ++ pending, ?_⟩
    have hbytes : chunk = encode (TextDecoder.bom :: TextDecoder.bom :: tail) ++ pending := hchunk
    rw [hbytes]
    show encode ([TextDecoder.bom] ++ ([TextDecoder.bom] ++ tail)) ++ pending = _
    rw [encode_append, encode_append, List.append_assoc, List.append_assoc]
    rfl
  · rw [if_neg fun hbad => hfirst hbad.2] at htext
    exact absurd (htext ▸ hmark) hfirst

/-- Otherwise the first call is like any other. -/
theorem push_fresh (h : ∀ bytes, chunk ≠ markBytes ++ (markBytes ++ bytes)) :
    (newParser max).push chunk = (startedParser max).push chunk := by
  cases hdecode : TextDecoder.new.decode chunk with
  | none => rw [push_of_none rfl hdecode, push_of_none rfl hdecode]
  | some read =>
    have hmark : read.2.head? ≠ some TextDecoder.bom := fun hmark => by
      obtain ⟨bytes, hbytes⟩ := two_marks_of_decode hdecode hmark
      exact h bytes hbytes
    have hdrop : (newParser max).dropMark read.2 = read.2 := if_neg fun hbad => hmark hbad.2
    rw [push_of_some rfl hdecode, push_of_some rfl hdecode, hdrop]
    rfl

theorem observe_congr {a b : IncrementalSSEParser} {chunk' : List UInt8}
    (h : a.push chunk = b.push chunk') (chunks : List (List UInt8)) :
    observe a (chunk :: chunks) = observe b (chunk' :: chunks) := by
  rw [observe, observe, h]

/-- With an empty chunk in front, a second mark stays. -/
theorem observe_nil_cons (max : Nat) (chunks : List (List UInt8)) :
    observe (newParser max) ([] :: chunks) = observe (startedParser max) chunks := by
  rfl

/-- A run is one of a parser that has started, on the same bytes or without the
second mark. -/
theorem observe_fresh (max : Nat) (chunks : List (List UInt8)) :
    (∃ chunks', chunks'.flatten = chunks.flatten ∧
        observe (newParser max) chunks = observe (startedParser max) chunks') ∨
      ∃ bytes chunks', chunks.flatten = markBytes ++ (markBytes ++ bytes) ∧
        chunks'.flatten = markBytes ++ bytes ∧
        observe (newParser max) chunks = observe (startedParser max) chunks' := by
  cases chunks with
  | nil => exact Or.inl ⟨[], rfl, rfl⟩
  | cons chunk chunks =>
    by_cases hmarks : ∃ bytes, chunk = markBytes ++ (markBytes ++ bytes)
    · obtain ⟨bytes, rfl⟩ := hmarks
      refine Or.inr ⟨bytes ++ chunks.flatten, (markBytes ++ bytes) :: chunks, ?_, ?_, ?_⟩
      · rw [List.flatten_cons]
        simp only [List.append_assoc]
      · rw [List.flatten_cons, List.append_assoc]
      · exact observe_congr (push_two_marks max bytes) chunks
    · refine Or.inl ⟨chunk :: chunks, rfl, observe_congr (push_fresh ?_) chunks⟩
      exact fun bytes hbytes => hmarks ⟨bytes, hbytes⟩

/-- Where an event has ended, the mark is complete. -/
theorem mark_of_events {front rest : List UInt8} (h : markBytes ++ bytes = front ++ rest)
    (hevents : eventsBefore front ≠ []) : ∃ more, front = markBytes ++ more := by
  by_cases hlong : markBytes.length ≤ front.length
  · obtain ⟨more, hmore⟩ := List.prefix_of_prefix_length_le (List.prefix_append markBytes bytes)
      (h ▸ List.prefix_append front rest) hlong
    exact ⟨more, hmore.symm⟩
  · exfalso
    have hprefix : front <+: markBytes := List.prefix_of_prefix_length_le
      (h ▸ List.prefix_append front rest) (List.prefix_append markBytes bytes) (by omega)
    have hall : ∀ front ∈ markBytes.inits, front.length < 3 → eventsBefore front = [] := by
      decide +kernel
    exact hevents (hall front ((List.mem_inits _ _).mpr hprefix) (not_le.mp hlong))

/-! ## Complete lines -/

section Lines

variable {lines : List (List Char)} {events : List ParsedSSEEvent}

theorem parse_eq_ok_iff {parser : IncrementalSSEParser} :
    parser.parse chunks = .ok events ↔ observe parser chunks = (events, false) := by
  induction chunks generalizing parser events with
  | nil =>
    show parser.finish.map (fun finished => [] ++ finished.2) = _ ↔ _
    rw [observe]
    cases parser.finish with
    | error e => simp [Except.map]
    | ok finished => simp [Except.map]
  | cons chunk chunks ih =>
    have hparse {parser' : IncrementalSSEParser} {more : List ParsedSSEEvent}
        (hpush : parser.push chunk = .ok (parser', more)) :
        parser.parse (chunk :: chunks) = (parser'.parse chunks).map (more ++ ·) := by
      unfold IncrementalSSEParser.parse
      rw [IncrementalSSEParser.pushAll, hpush]
      show Except.bind (Except.map _ (parser'.pushAll chunks)) _ = _
      cases parser'.pushAll chunks with
      | error e => rfl
      | ok pushed =>
        show pushed.1.finish.map _ = Except.map _ (pushed.1.finish.map _)
        cases pushed.1.finish with
        | error e => rfl
        | ok finished => exact congrArg Except.ok (List.append_assoc ..)
    rw [observe]
    cases hpush : parser.push chunk with
    | error e =>
      rw [IncrementalSSEParser.parse, IncrementalSSEParser.pushAll, hpush]
      exact ⟨fun h => (by cases h), fun h => (by cases h)⟩
    | ok pushed =>
      rw [hparse hpush]
      constructor
      · intro h
        cases hrest : pushed.1.parse chunks with
        | error e =>
          rw [hrest] at h
          cases h
        | ok rest =>
          rw [hrest] at h
          cases h
          dsimp only
          rw [ih.mp hrest]
      · intro h
        obtain ⟨hevents, hfailed⟩ := Prod.mk.inj h
        rw [ih.mpr (Prod.ext rfl hfailed)]
        exact congrArg Except.ok hevents

theorem textLines_unlines (hlines : ∀ line ∈ lines, ∀ c ∈ line, Plain c) :
    textLines (unlines lines) = (lines, []) := by
  induction lines with
  | nil => rfl
  | cons line lines ih =>
    rw [List.forall_mem_cons] at hlines
    have htext := Lines.split_line_feed (show '\r' ≠ '\n' by decide)
      (plain_iff.mpr hlines.1) (unlines lines)
    rw [unlines, List.flatMap_cons, List.append_assoc, List.singleton_append, textLines]
    exact htext.trans (by rw [← textLines, ih hlines.2])

theorem held_unlines (lines : List (List Char)) : held (unlines lines) = unlines lines := by
  refine if_neg fun hlast => ?_
  obtain rfl | ⟨init, last, rfl⟩ := List.eq_nil_or_concat' lines
  · cases hlast
  · rw [unlines, List.flatMap_append, List.flatMap_singleton, ← List.append_assoc,
      List.getLast?_concat] at hlast
    cases hlast

theorem fits_unlines (hlines : ∀ line ∈ lines, ∀ c ∈ line, Plain c) :
    Fits max (unlines lines) ↔
      (∀ block ∈ (lineBlocks [] lines).1, blockBytes block ≤ max) ∧
        blockBytes (lineBlocks [] lines).2 ≤ max := by
  unfold Fits
  rw [held_unlines, textLines_unlines hlines, blockBytes_append]
  rfl

/-- A text of complete lines without a mark in front is accepted in any pieces, with the
events of its blocks, exactly when these fit. -/
theorem parse_lines_iff {max : Int} {parser : IncrementalSSEParser}
    (hnew : IncrementalSSEParser.new max = .ok parser)
    (hlines : ∀ line ∈ lines, ∀ c ∈ line, Plain c)
    (hmark : (unlines lines).head? ≠ some TextDecoder.bom)
    (hchunks : chunks.flatten = encode (unlines lines)) :
    parser.parse chunks = .ok events ↔
      Fits max.toNat (unlines lines) ∧ lineEvents lines = events := by
  have hdecode : TextDecoder.new.decode (encode (unlines lines)) =
      some (⟨[], !(unlines lines).isEmpty⟩, unlines lines) := by
    rw [TextDecoder.decode_eq]
    show Option.map _ (feed [] _) = _
    rw [feed_encode, Option.map_some, TextDecoder.dropMark, if_neg fun hfirst => hmark hfirst.2]
    rfl
  rw [eq_newParser hnew, parse_eq_ok_iff]
  generalize max.toNat = max
  obtain ⟨chunks', hflat, hobserve⟩ | ⟨rest, chunks', hbytes, hflat, hobserve⟩ :=
    observe_fresh max chunks
  · rw [hchunks] at hflat
    rw [hobserve]
    by_cases hfits : Fits max (unlines lines)
    · have hclean : Clean max (encode (unlines lines)) := ⟨_, by rw [content, hdecode]; rfl, hfits⟩
      rw [observe_of_steady (Or.inl hclean) hflat, reading, hdecode]
      dsimp only
      rw [if_pos hfits, if_pos rfl, textLines_unlines hlines]
      simp [hfits]
    · have hfault : ¬ Clean max ([] ++ chunks'.flatten) := by
        rintro ⟨text, htext, hfits'⟩
        rw [List.nil_append, hflat, content, hdecode] at htext
        cases htext
        exact hfits hfits'
      have hfailed := (observe_fault (after_started max) hfault).1
      refine ⟨fun h => ?_, fun h => absurd h.1 hfits⟩
      rw [h] at hfailed
      cases hfailed
  · -- two marks would leave one in the text
    have htwo := decode_two_marks rest
    rw [← hbytes, hchunks, hdecode] at htwo
    obtain ⟨read, -, hread⟩ := Option.map_eq_some_iff.mp htwo.symm
    have htext : TextDecoder.bom :: read.2 = unlines lines := congrArg Prod.snd hread
    exact absurd (by rw [← htext]; rfl) hmark

end Lines

/-! ## A second mark -/

/-- The lines of a text; a carriage return at its end ends one only if no bytes of a
character follow. -/
def endedLines (complete : Bool) (text : List Char) : List (List Char) :=
  (textLines (if complete then text else held text)).1

/-- A mark in front of the text makes no difference: its three bytes do not make a
block too large, unless the response fails anyway and nothing is lost, and the events
do not need the first line, which becomes an unknown field. -/
def MarkIdle (max : Nat) (complete : Bool) (text : List Char) : Prop :=
  (complete = true → (Fits max (TextDecoder.bom :: text) ↔ Fits max text)) ∧
    (if Fits max (TextDecoder.bom :: text) then lineEvents (endedLines complete text).tail
      else []) = if Fits max text then lineEvents (endedLines complete text) else []

theorem blockEvent_mark (line : List Char) (block : List (List Char)) :
    blockEvent ((TextDecoder.bom :: line) :: block) = blockEvent block := by
  have hother {name : String} (h : name.toList.head? ≠ some TextDecoder.bom) :
      fieldValues name ((TextDecoder.bom :: line) :: block) = fieldValues name block := by
    refine List.filterMap_cons_none (if_neg fun hname => h ?_)
    rw [← hname]
    rfl
  unfold blockEvent lastId lastRetry
  rw [hother (by decide), hother (by decide), hother (by decide), hother (by decide)]

theorem lineBlocks_mark (line : List Char) (lines block : List (List Char)) :
    (lineBlocks ((TextDecoder.bom :: line) :: block) lines).1.filterMap blockEvent =
      (lineBlocks block lines).1.filterMap blockEvent := by
  unfold lineBlocks
  induction lines generalizing block with
  | nil => rfl
  | cons next lines ih =>
    rw [Lines.blocks, Lines.blocks, List.cons_append]
    by_cases hnext : next = []
    · rw [if_pos hnext, if_pos hnext, List.filterMap_cons, List.filterMap_cons, blockEvent_mark]
    · rw [if_neg hnext, if_neg hnext]
      exact ih _

/-- The mark makes the first line an unknown field. -/
theorem lineEvents_mark (complete : Bool) (text : List Char) :
    lineEvents (endedLines complete (TextDecoder.bom :: text)) =
      lineEvents (endedLines complete text).tail := by
  have hheld : held (TextDecoder.bom :: text) = TextDecoder.bom :: held text := by
    by_cases htext : text = []
    · rw [htext]
      decide
    · exact held_append htext [TextDecoder.bom]
  have hlines (text : List Char) : textLines (TextDecoder.bom :: text) =
      Lines.consLetter TextDecoder.bom (textLines text) :=
    Lines.split_letter (by decide) (by decide) text
  unfold endedLines
  rw [hheld, ← apply_ite (List.cons TextDecoder.bom), hlines]
  generalize textLines _ = split
  obtain ⟨lines, rest⟩ := split
  cases lines with
  | nil => rfl
  | cons line lines => exact lineBlocks_mark line lines []

theorem reading_eq {decoder : TextDecoder} {text : List Char}
    (h : TextDecoder.new.decode bytes = some (decoder, text)) :
    reading max bytes =
      (if Fits max text then lineEvents (endedLines (decide (decoder.pending = [])) text) else [],
        decide (Fits max text → decoder.pending ≠ [])) := by
  unfold reading endedLines eventsIn
  rw [h]
  by_cases hfits : Fits max text
  · by_cases hpending : decoder.pending = []
    · simp [hfits, hpending]
    · simp [hfits, hpending]
  · simp [hfits]

/-- With the second mark the response is read as without it exactly when the mark is
idle. -/
theorem reading_mark_iff (rest : List UInt8) :
    reading max (markBytes ++ (markBytes ++ rest)) = reading max (markBytes ++ rest) ↔
      ∀ decoder text, TextDecoder.new.decode (markBytes ++ rest) = some (decoder, text) →
        MarkIdle max (decide (decoder.pending = [])) text := by
  have hone := decode_mark rest
  have htwo := decode_two_marks rest
  cases hfeed : feed [] rest with
  | none =>
    rw [hfeed, Option.map_none] at hone htwo
    unfold reading
    rw [hone, htwo]
    exact ⟨fun _ _ _ hsome => (by cases hsome), fun _ => rfl⟩
  | some read =>
    rw [hfeed, Option.map_some] at hone htwo
    rw [reading_eq hone, reading_eq htwo, hone, lineEvents_mark, Prod.mk.injEq, and_comm]
    unfold MarkIdle
    have hfaults : (decide (Fits max (TextDecoder.bom :: read.2) → read.1 ≠ []) =
          decide (Fits max read.2 → read.1 ≠ [])) ↔
        (decide (read.1 = []) = true → (Fits max (TextDecoder.bom :: read.2) ↔ Fits max read.2)) := by
      by_cases hpending : read.1 = []
      · simp [hpending]
      · simp [hpending]
    rw [hfaults]
    constructor
    · intro hidle decoder text hsome
      cases hsome
      exact hidle
    · intro hidle
      exact hidle _ _ rfl

/-! ## Independence of the chunks -/

/-- All ways of cutting the bytes into chunks give the same events before the first
error and agree on whether there is one, exactly when no event ends before a fault
and a second byte order mark makes no difference. -/
theorem chunks_independent_iff {max : Int} {parser : IncrementalSSEParser}
    (hnew : IncrementalSSEParser.new max = .ok parser) (bytes : List UInt8) :
    (∀ chunks chunks' : List (List UInt8), chunks.flatten = bytes → chunks'.flatten = bytes →
        observe parser chunks = observe parser chunks') ↔
      Steady max.toNat bytes ∧
        ∀ rest, bytes = markBytes ++ (markBytes ++ rest) →
          Steady max.toNat (markBytes ++ rest) ∧
            ∀ decoder text, TextDecoder.new.decode (markBytes ++ rest) = some (decoder, text) →
              MarkIdle max.toNat (decide (decoder.pending = [])) text := by
  rw [eq_newParser hnew]
  generalize max.toNat = max
  constructor
  · intro hsame
    -- every run of a started parser on the bytes is one of a new parser
    have hstarted {chunks chunks' : List (List UInt8)} (h : chunks.flatten = bytes)
        (h' : chunks'.flatten = bytes) :
        observe (startedParser max) chunks = observe (startedParser max) chunks' := by
      rw [← observe_nil_cons, ← observe_nil_cons]
      exact hsame _ _ h h'
    have hsteady : Steady max bytes := by
      by_cases hclean : Clean max bytes
      · exact Or.inl hclean
      · refine Or.inr fun front rest heq hfront => ?_
        subst heq
        have htwo := observe_two hfront hclean
        rw [hstarted (by simp) (List.flatten_singleton), observe_one hclean] at htwo
        exact (congrArg Prod.fst htwo).symm
    refine ⟨hsteady, fun rest heq => ?_⟩
    subst heq
    have hone : observe (newParser max) [markBytes ++ (markBytes ++ rest)] =
        observe (startedParser max) [markBytes ++ rest] :=
      observe_congr (push_two_marks max rest) []
    have hsteady' : Steady max (markBytes ++ rest) := by
      by_cases hclean : Clean max (markBytes ++ rest)
      · exact Or.inl hclean
      · refine Or.inr fun front more heq hfront => ?_
        by_contra hevents
        obtain ⟨tail, rfl⟩ := mark_of_events heq hevents
        rw [List.append_assoc, List.append_cancel_left_eq] at heq
        subst heq
        rw [← List.append_assoc] at hclean
        have htwo := observe_two hfront hclean
        rw [← observe_congr (push_two_marks max tail),
          hsame _ [markBytes ++ (markBytes ++ (tail ++ more))] (by simp) (by simp), hone,
          ← List.append_assoc, observe_one hclean] at htwo
        exact hevents (congrArg Prod.fst htwo).symm
    refine ⟨hsteady', (reading_mark_iff rest).mp ?_⟩
    rw [← observe_of_steady hsteady List.flatten_singleton,
      ← observe_of_steady hsteady' List.flatten_singleton, ← hone, ← observe_nil_cons]
    exact hsame _ _ (by simp) (by simp)
  · intro ⟨hsteady, hmarks⟩
    have hall {chunks : List (List UInt8)} (h : chunks.flatten = bytes) :
        observe (newParser max) chunks = reading max bytes := by
      obtain ⟨chunks', hflat, hobserve⟩ | ⟨rest, chunks', hbytes, hflat, hobserve⟩ :=
        observe_fresh max chunks
      · rw [hobserve, observe_of_steady hsteady (hflat.trans h)]
      · have hbytes' := h.symm.trans hbytes
        obtain ⟨hsteady', hidle⟩ := hmarks rest hbytes'
        rw [hobserve, observe_of_steady hsteady' hflat, hbytes', (reading_mark_iff rest).mpr hidle]
    intro chunks chunks' h h'
    rw [hall h, hall h']

/-- An event before an invalid byte is returned or lost, and one after two byte order
marks is read or not. -/
theorem chunks_dependent :
    IncrementalSSEParser.new 64 = .ok (newParser 64) ∧
      observe (newParser 64) [encode "data: a\n\n".toList, [0xFF]] =
        ([⟨['a'], "message".toList, none, none⟩], true) ∧
      observe (newParser 64) [encode "data: a\n\n".toList ++ [0xFF]] = ([], true) ∧
      observe (newParser 64) [markBytes ++ (markBytes ++ encode "data: a\n\n".toList)] =
        ([⟨['a'], "message".toList, none, none⟩], false) ∧
      observe (newParser 64) [markBytes, markBytes ++ encode "data: a\n\n".toList] =
        ([], false) := by
  decide +kernel

/-- A character of two bytes whose bytes arrive apart, and a line ending whose
carriage return does. -/
theorem chunks_independent_cut :
    observe (newParser 64) [encode "data: ".toList ++ [0xC3], [0xA9, 0x0D], [], [0x0A, 0x0A]] =
      observe (newParser 64) [encode "data: é\r\n\n".toList] := by
  refine (chunks_independent_iff
    (show IncrementalSSEParser.new 64 = .ok (newParser 64) by decide +kernel)
    (encode "data: é\r\n\n".toList)).mpr ⟨Or.inl ⟨"data: é\r\n\n".toList, ?_, ?_⟩, ?_⟩ _ _ ?_ ?_
  · decide +kernel
  · decide +kernel
  · intro rest hmarks
    have hhead := congrArg List.head? hmarks
    have hmark : markBytes.head? = some 0xEF := by decide +kernel
    rw [List.head?_append, hmark, Option.some_or] at hhead
    exact absurd hhead (by decide +kernel)
  · decide +kernel
  · decide +kernel

end Streamweld.Client
