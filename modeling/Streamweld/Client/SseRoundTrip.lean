import Streamweld.Client.SseChunks
import Streamweld.Sse.Encoder

/-!
# From the encoder of the proxy to the parser of the client

What the proxy encodes is what the client parses.  `Event.parsed` is the event
that the client is to see: the bytes of the proxy's event as text, `message`
for the empty type, the identifier if there is one and the retry delay in
milliseconds if it is a safe integer.

* `text_lines`: the lines of a frame are fields with a name and a value;
* `blockEvent_frame`: the block of the frame is the event, if it has data;
* `parse_frames_iff`: a list of frames gives the events that have data, however the
  bytes are cut, if each of them fits.
-/

namespace Streamweld.Client

open Streamweld.Lib

/-! ## Fields as text -/

/-- The text of a field of the encoder. -/
def fieldText (name value : List Char) : List Char :=
  name ++ ':' :: if value = [] then [] else ' ' :: value

theorem encode_fieldText (name value : List Char) :
    Utf8.encode (fieldText name value) =
      Sse.fieldLine (Utf8.encode name) (Utf8.encode value) := by
  unfold fieldText Sse.fieldLine
  rw [Utf8.encode_append, Utf8.encode_cons]
  by_cases hvalue : value = []
  · rw [if_pos hvalue, if_pos (Utf8.encode_eq_nil.mpr hvalue)]
    rfl
  · rw [if_neg hvalue, if_neg (mt Utf8.encode_eq_nil.mp hvalue)]
    rfl

theorem text_fieldLine {name : List Char} {value : List UInt8} (h : Utf8.valid value = true) :
    Utf8.text (Sse.fieldLine (Utf8.encode name) value) = fieldText name (Utf8.text value) := by
  obtain ⟨text, rfl⟩ := Utf8.valid_iff.mp h
  rw [← encode_fieldText, Utf8.text_encode, Utf8.text_encode]

/-- The client reads back the name and the value. -/
theorem splitField_fieldText {name : List Char} (hname : ':' ∉ name) (value : List Char) :
    splitField (fieldText name value) = (name, value) := by
  have hbefore : ∀ c ∈ name, (c != ':') = true := by
    intro c hc
    rw [bne_iff_ne]
    exact fun heq => hname (heq ▸ hc)
  unfold splitField fieldText
  rw [List.takeWhile_append_of_pos hbefore, List.dropWhile_append_of_pos hbefore]
  cases value with
  | nil => simp
  | cons c value => simp

theorem fieldValues_fieldText {name : List Char} (hname : ':' ∉ name) (field : String)
    (values : List (List Char)) :
    fieldValues field (values.map (fieldText name)) =
      if name = field.toList then values else [] := by
  unfold fieldValues
  simp only [List.filterMap_map, Function.comp_def, splitField_fieldText hname]
  split
  · exact List.filterMap_some
  · exact List.filterMap_none values

/-! ## One frame -/

end Streamweld.Client

namespace Streamweld.Sse.Event

open Streamweld.Lib Streamweld.Client

/-- The retry delay in milliseconds. -/
def retryMillis (event : Event) : Nat := (event.retry / millisecond).toNat

/-- The event that a client is to see. -/
def parsed (event : Event) : ParsedSSEEvent where
  data := Utf8.text event.dataBytes
  event := if event.type = [] then "message".toList else Utf8.text event.type
  id := if event.idPresent then some (Utf8.text event.id) else none
  retry :=
    if event.retryPresent = true ∧ event.retryMillis ≤ maxSafeInteger then some event.retryMillis
    else none

/-- The lines of the frame as text, with the empty one. -/
def lineTexts (event : Event) : List (List Char) := event.lines.map Utf8.text ++ [[]]

end Streamweld.Sse.Event

namespace Streamweld.Client

open Streamweld.Lib

variable {max : Nat} {event : Sse.Event} {events : List Sse.Event}

theorem encode_unlines {lines : List (List UInt8)} (h : ∀ l ∈ lines, Utf8.valid l = true) :
    Utf8.encode (unlines (lines.map Utf8.text)) = lines.flatMap (· ++ [Sse.lineFeed]) := by
  induction lines with
  | nil => rfl
  | cons line lines ih =>
    rw [List.forall_mem_cons] at h
    rw [List.map_cons, unlines, List.flatMap_cons, Utf8.encode_append, Utf8.encode_append,
      Utf8.encode_text h.1, List.flatMap_cons]
    exact congrArg (line ++ [Sse.lineFeed] ++ ·) (ih h.2)

theorem unlines_append (lines more : List (List Char)) :
    unlines (lines ++ more) = unlines lines ++ unlines more := List.flatMap_append

/-- The bytes of the frame are its lines. -/
theorem encode_lineTexts (h : event.Encodable) :
    Utf8.encode (unlines event.lineTexts) = event.frame := by
  rw [Sse.Event.lineTexts, unlines_append, Utf8.encode_append,
    encode_unlines fun l hl => (h.lines_singleLine l hl).valid, Sse.frame_eq_lines]
  rfl

theorem lineTexts_plain (h : event.Encodable) : ∀ l ∈ event.lineTexts, ∀ c ∈ l, Plain c := by
  intro l hl
  obtain hl | hl := List.mem_append.mp hl
  · obtain ⟨line, hline, rfl⟩ := List.mem_map.mp hl
    obtain ⟨text, rfl, hr, hn⟩ := Sse.singleLine_iff.mp (h.lines_singleLine line hline)
    rw [Utf8.text_encode]
    exact fun c hc => ⟨fun heq => hr (heq ▸ hc), fun heq => hn (heq ▸ hc)⟩
  · rw [List.mem_singleton.mp hl]
    exact plain_nil

/-- The lines of the frame are its fields. -/
theorem text_lines (h : event.Encodable) :
    event.lines.map Utf8.text =
      event.fields.flatMap fun field => (field.2.map Utf8.text).map (fieldText field.1) := by
  rw [Sse.Event.lines, List.map_flatMap]
  refine List.flatMap_congr fun field hfield => ?_
  rw [List.map_map, List.map_map]
  exact List.map_congr_left fun value hvalue =>
    text_fieldLine (h.values_singleLine field hfield value hvalue).valid

/-- A line of the frame is not empty and has no mark in front. -/
theorem text_lines_start (h : event.Encodable) :
    ∀ l ∈ event.lines.map Utf8.text, l ≠ [] ∧ l.head? ≠ some Utf8.TextDecoder.bom := by
  intro l hl
  rw [text_lines h] at hl
  obtain ⟨field, hfield, hl⟩ := List.mem_flatMap.mp hl
  obtain ⟨value, -, rfl⟩ := List.mem_map.mp hl
  have hnames : ∀ name ∈ [[], "event".toList, "id".toList, "retry".toList, "data".toList],
      (name ++ [':']).head? ≠ some Utf8.TextDecoder.bom := by decide
  have hhead : (fieldText field.1 value).head? = (field.1 ++ [':']).head? := by
    rw [fieldText]
    cases field.1 <;> rfl
  rw [hhead]
  exact ⟨List.append_ne_nil_of_right_ne_nil _ (List.cons_ne_nil _ _),
    hnames field.1 (event.fields_names field hfield)⟩

/-- The values of a field in the block of the frame. -/
theorem fieldValues_frame (h : event.Encodable) (name : String) :
    fieldValues name (event.lines.map Utf8.text) =
      event.fields.flatMap fun field =>
        if field.1 = name.toList then field.2.map Utf8.text else [] := by
  have hnames : ∀ name ∈ [[], "event".toList, "id".toList, "retry".toList, "data".toList],
      ':' ∉ name := by decide
  rw [text_lines h, fieldValues, List.filterMap_flatMap]
  exact List.flatMap_congr fun field hfield =>
    fieldValues_fieldText (hnames field.1 (event.fields_names field hfield)) name _

/-- The lines of the frame weigh what the frame does. -/
theorem blockBytes_frame (h : event.Encodable) :
    blockBytes event.lineTexts = Sse.frameBytes event.frame := by
  rw [Sse.Event.lineTexts, blockBytes_append, blockBytes, List.map_map, Sse.frameBytes_frame h]
  refine congrArg List.sum (List.map_congr_left fun line hline => ?_)
  exact congrArg List.length (Utf8.encode_text (h.lines_singleLine line hline).valid)

theorem lastId_frame (h : event.Encodable) :
    lastId (event.lines.map Utf8.text) = event.parsed.id := by
  have hid : fieldValues "id" (event.lines.map Utf8.text) =
      if event.idPresent then [Utf8.text event.id] else [] := by
    rw [fieldValues_frame h]
    simp [Sse.Event.fields, apply_ite]
  unfold lastId Sse.Event.parsed
  rw [hid]
  cases hpresent : event.idPresent with
  | false => rfl
  | true =>
    obtain ⟨hline, hnul⟩ := h.id hpresent
    have hnul' : Char.ofNat 0 ∉ Utf8.text event.id := by
      intro hmem
      have := (Utf8.mem_encode (by decide : (Char.ofNat 0).toNat < 0x80)).mpr hmem
      rw [Utf8.encode_text hline.valid] at this
      exact hnul this
    simp [hnul']

theorem lastRetry_frame (h : event.Encodable) :
    lastRetry (event.lines.map Utf8.text) = event.parsed.retry := by
  have hretry : fieldValues "retry" (event.lines.map Utf8.text) =
      if event.retryPresent then [Nat.toDigits 10 event.retryMillis] else [] := by
    rw [fieldValues_frame h]
    cases hpresent : event.retryPresent with
    | false => simp [Sse.Event.fields, hpresent]
    | true =>
      obtain ⟨k, hk⟩ := Int.eq_ofNat_of_zero_le
        (Int.ediv_nonneg (h.retry hpresent).1 (by decide : 0 ≤ Sse.millisecond))
      have hdigits : Utf8.text (Sse.appendInt k) = Nat.toDigits 10 k := by
        rw [Sse.appendInt, Utf8.text_encode]
        exact Nat.toList_repr
      simp [Sse.Event.fields, hpresent, Sse.Event.retryMillis, hk, hdigits]
  have hparse : parseRetry (Nat.toDigits 10 event.retryMillis) =
      if event.retryMillis ≤ maxSafeInteger then some event.retryMillis else none := by
    rw [parseRetry, if_neg Nat.toDigits_ne_nil, Json.parseDigits_toDigits]
    simp [Option.filter_some]
  unfold lastRetry Sse.Event.parsed
  rw [hretry]
  cases event.retryPresent with
  | false => rfl
  | true =>
    by_cases hsafe : event.retryMillis ≤ maxSafeInteger
    · simp [hparse, hsafe]
    · simp [hparse, hsafe]

/-- The last type of the block; the empty one stands for `message`. -/
theorem type_frame (h : event.Encodable) :
    (let type := (fieldValues "event" (event.lines.map Utf8.text)).getLast?.getD []
      if type = [] then "message".toList else type) = event.parsed.event := by
  have hevent : fieldValues "event" (event.lines.map Utf8.text) =
      if event.typePresent then [Utf8.text event.type] else [] := by
    rw [fieldValues_frame h]
    simp [Sse.Event.fields, apply_ite]
  unfold Sse.Event.parsed
  rw [hevent]
  cases htype : event.typePresent with
  | false =>
    have hnil : event.type = [] := by
      simpa using (Bool.or_eq_false_iff.mp htype).2
    rw [hnil]
    rfl
  | true =>
    have hnil : Utf8.text event.type = [] ↔ event.type = [] := by
      conv_rhs => rw [← Utf8.encode_text (h.type htype).valid, Utf8.encode_eq_nil]
    simp only [if_true, List.getLast?_singleton, Option.getD_some, hnil]

/-- The block of the frame is the event, if it has data. -/
theorem blockEvent_frame (h : event.Encodable) :
    blockEvent event.lineTexts = if event.dataPresent then some event.parsed else none := by
  have hdata : fieldValues "data" (event.lines.map Utf8.text) =
      if event.dataPresent then (Utf8.text event.dataBytes).splitOn '\n' else [] := by
    rw [fieldValues_frame h]
    cases hpresent : event.dataPresent with
    | false => simp [Sse.Event.fields, hpresent]
    | true =>
      obtain ⟨text, htext⟩ := Utf8.valid_iff.mp (h.data hpresent).1
      have hsplit : (Utf8.encode text).splitOn Sse.lineFeed =
          (text.splitOn '\n').map Utf8.encode :=
        Utf8.splitOn_encode (by decide : '\n'.toNat < 0x80) text
      simp [Sse.Event.fields, hpresent, ← htext, hsplit, Utf8.text_encode, Function.comp_def]
  rw [Sse.Event.lineTexts, blockEvent_concat_nil, blockEvent, hdata, lastId_frame h,
    lastRetry_frame h]
  rw [type_frame h]
  cases event.dataPresent with
  | false => rfl
  | true =>
    have hsplit : (Utf8.text event.dataBytes).splitOn '\n' ≠ [] := List.splitOnP_ne_nil _ _
    simp only [if_true]
    rw [if_neg hsplit, List.intercalate_splitOn]
    rfl

/-! ## Lists of frames -/

/-- The lines of a list of events. -/
def eventLines (events : List Sse.Event) : List (List Char) := events.flatMap Sse.Event.lineTexts

theorem encode_eventLines (h : ∀ e ∈ events, e.Encodable) :
    Utf8.encode (unlines (eventLines events)) = (events.map Sse.Event.frame).flatten := by
  induction events with
  | nil => rfl
  | cons event events ih =>
    rw [List.forall_mem_cons] at h
    rw [eventLines, List.flatMap_cons, unlines_append, Utf8.encode_append, encode_lineTexts h.1,
      List.map_cons, List.flatten_cons]
    exact congrArg (event.frame ++ ·) (ih h.2)

theorem eventLines_plain (h : ∀ e ∈ events, e.Encodable) :
    ∀ l ∈ eventLines events, ∀ c ∈ l, Plain c := by
  intro l hl
  obtain ⟨event, hevent, hl⟩ := List.mem_flatMap.mp hl
  exact lineTexts_plain (h event hevent) l hl

/-- A frame does not start with a byte order mark: it starts with the name of a
field, a colon or the line feed of the empty line. -/
theorem eventLines_noMark (h : ∀ e ∈ events, e.Encodable) :
    (unlines (eventLines events)).head? ≠ some Utf8.TextDecoder.bom := by
  cases events with
  | nil => exact nofun
  | cons event events =>
    have hevent := h event List.mem_cons_self
    rw [eventLines, List.flatMap_cons, Sse.Event.lineTexts]
    cases hlines : event.lines.map Utf8.text with
    | nil => exact fun hhead => absurd (Option.some.inj hhead) (by decide)
    | cons l lines =>
      obtain ⟨hne, hmark⟩ := text_lines_start hevent l (hlines ▸ List.mem_cons_self)
      obtain ⟨c, rest, rfl⟩ := List.exists_cons_of_ne_nil hne
      exact hmark

/-- The blocks of the lines are the frames. -/
theorem lineBlocks_eventLines (h : ∀ e ∈ events, e.Encodable) :
    lineBlocks [] (eventLines events) = (events.map Sse.Event.lineTexts, []) := by
  induction events with
  | nil => rfl
  | cons event events ih =>
    rw [List.forall_mem_cons] at h
    rw [eventLines, List.flatMap_cons, Sse.Event.lineTexts, List.append_assoc,
      List.singleton_append, lineBlocks_block fun l hl => (text_lines_start h.1 l hl).1]
    show (_ :: (lineBlocks [] (eventLines events)).1, (lineBlocks [] (eventLines events)).2) = _
    rw [ih h.2]
    rfl

/-- Frames give the events that have data, however their bytes are cut, if each of
them fits. -/
theorem parse_frames_iff {max : Int} {parser : IncrementalSSEParser}
    (hnew : IncrementalSSEParser.new max = .ok parser) (h : ∀ e ∈ events, e.Encodable)
    {chunks : List (List UInt8)} (hchunks : chunks.flatten = (events.map Sse.Event.frame).flatten)
    {parsed : List ParsedSSEEvent} :
    parser.parse chunks = .ok parsed ↔
      (∀ e ∈ events, (Sse.frameBytes e.frame : Int) ≤ max) ∧
        (events.filter Sse.Event.dataPresent).map Sse.Event.parsed = parsed := by
  have hmax : 0 ≤ max := by
    unfold IncrementalSSEParser.new at hnew
    split at hnew
    · cases hnew
    · omega
  have hevents : lineEvents (eventLines events) =
      (events.filter Sse.Event.dataPresent).map Sse.Event.parsed := by
    unfold lineEvents
    rw [lineBlocks_eventLines h, List.filterMap_map, ← List.filterMap_eq_map,
      List.filterMap_filter]
    refine List.filterMap_congr fun event hevent => ?_
    exact blockEvent_frame (h event hevent)
  rw [← encode_eventLines h] at hchunks
  rw [parse_lines_iff hnew (eventLines_plain h) (eventLines_noMark h) hchunks, hevents,
    fits_unlines (eventLines_plain h), lineBlocks_eventLines h, List.forall_mem_map]
  refine and_congr_left fun _ => ⟨fun hfit e he => ?_, fun hfit => ⟨fun e he => ?_, Nat.zero_le _⟩⟩
  · have := hfit.1 e he
    rw [blockBytes_frame (h e he)] at this
    omega
  · have := hfit e he
    rw [blockBytes_frame (h e he)]
    omega

/-- Whatever the proxy encodes within the limit of the client, the client
parses as the events that have data, in order, however the bytes are cut. -/
theorem parse_encode {max : Int} {parser : IncrementalSSEParser}
    (hnew : IncrementalSSEParser.new max = .ok parser)
    {events : List Sse.Event} {frames : List (List UInt8)}
    (hencode : List.Forall₂ (fun event frame => Sse.encode event = .ok frame) events frames)
    (hfit : ∀ frame ∈ frames, (Sse.frameBytes frame : Int) ≤ max)
    {chunks : List (List UInt8)} (hchunks : chunks.flatten = frames.flatten) :
    parser.parse chunks =
      .ok ((events.filter Sse.Event.dataPresent).map Sse.Event.parsed) := by
  obtain ⟨hencodable, rfl⟩ := Sse.encodable_of_encode hencode
  exact (parse_frames_iff hnew hencodable hchunks).mpr
    ⟨fun e he => hfit e.frame (List.mem_map_of_mem he), rfl⟩

/-- An event with an identifier and one character of two bytes, which arrive
apart. -/
theorem parse_encode_cut_rune :
    (⟨.new, 64, [], false, false, .empty⟩ : IncrementalSSEParser).parse
        [[0x69, 0x64, 0x3A, 0x20, 0x37, 0x0A, 0x64, 0x61, 0x74, 0x61, 0x3A, 0x20, 0xC3],
          [], [0xA9, 0x0A, 0x0A]] =
      .ok [⟨['é'], "message".toList, some ['7'], none⟩] := by
  have hencode : Sse.encode { Sse.Event.zero with data := some [0xC3, 0xA9], id := [0x37] } =
      .ok [0x69, 0x64, 0x3A, 0x20, 0x37, 0x0A, 0x64, 0x61, 0x74, 0x61, 0x3A, 0x20, 0xC3, 0xA9,
        0x0A, 0x0A] := by decide +kernel
  have hnew : IncrementalSSEParser.new 64 = .ok ⟨.new, 64, [], false, false, .empty⟩ := by decide
  rw [parse_encode hnew (.cons hencode .nil) (by decide +kernel) (by decide +kernel)]
  decide +kernel

end Streamweld.Client
