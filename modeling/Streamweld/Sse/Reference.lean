import Streamweld.Lib.Lines
import Streamweld.Sse.Decoder

/-!
# What the decoder decodes

The event-stream grammar without the decoder's state: the bytes are cut into
lines, the lines into blocks that an empty line ends, and a block is an event
(`reference`).  The decoder gives the same events and ends with the same error
on every input.

* `collected_applyLine`, `eventOf_recognized`: what the decoder collects line by
  line is the event of the block;
* `readLine_ended`, `readLine_rest`, `readLine_large`: the loop of `readLine` on a
  whole line;
* `observed_simulates`: from line to line the decoder keeps to the blocks.
-/

namespace Streamweld.Sse

open Streamweld.Lib

variable {decoder : Decoder} {line text : List UInt8}

/-! ## Events of blocks -/

/-- A line: what it weighs on the wire, and its text. -/
structure Line where
  size : Nat
  text : List UInt8
  deriving DecidableEq, Repr

/-- A line of the stream; the first one loses a byte order mark. -/
def Line.ofWire (first : Bool) (wire : List UInt8) : Line :=
  { size := wire.length
    text := if first = true ∧ utf8BOM <+: wire then wire.drop utf8BOM.length else wire }

@[simp] theorem Line.size_ofWire (first : Bool) (wire : List UInt8) :
    (Line.ofWire first wire).size = wire.length := rfl

/-- The values of the fields with a name. -/
def values (name : String) (texts : List (List UInt8)) : List (List UInt8) :=
  texts.filterMap fun text =>
    if text.takeWhile (· != 0x3A) = Utf8.encode name.toList then
      some (fieldValue (text.dropWhile (· != 0x3A)).tail)
    else none

def commentsOf (texts : List (List UInt8)) : List (List UInt8) :=
  texts.filterMap fun text => if text.head? = some 0x3A then some (fieldValue text.tail) else none

/-- The identifiers that are not ignored. -/
def idsOf (texts : List (List UInt8)) : List (List UInt8) :=
  (values "id" texts).filter fun value => 0 ∉ value

/-- The retry delays that are valid. -/
def retriesOf (texts : List (List UInt8)) : List Int := (values "retry" texts).filterMap parseRetry

/-- The event of a block, with the given data. -/
def eventWith (data : Option (List UInt8)) (texts : List (List UInt8)) : Event where
  data := data
  type := (values "event" texts).getLast?.getD []
  id := (idsOf texts).getLast?.getD []
  retry := (retriesOf texts).getLast?.getD 0
  comments := commentsOf texts
  hasData := !(values "data" texts).isEmpty
  hasType := !(values "event" texts).isEmpty
  hasID := !(idsOf texts).isEmpty
  hasRetry := !(retriesOf texts).isEmpty

/-- The event of a block; there is none if no field is recognized. -/
def eventOf (texts : List (List UInt8)) : Option Event :=
  let data := values "data" texts
  if data = [] ∧ values "event" texts = [] ∧ idsOf texts = [] ∧ retriesOf texts = [] ∧
      commentsOf texts = [] then none
  else some (eventWith (if data = [] then none else some ([lineFeed].intercalate data)) texts)

/-! ## The reference -/

/-- How decoding ends. -/
inductive Outcome where
  | endOfInput
  | incompleteEvent
  | eventTooLarge
  | invalidUTF8
  deriving DecidableEq, Repr

/-- The blocks that an empty line ends, and the lines after the last of them;
`block` has begun. -/
def blocks (block lines : List Line) : List (List Line) × List Line :=
  Lines.blocks (fun line => line.text = []) block lines

/-- What is wrong with the first line that has something wrong: with it the block
has more than `limit` bytes, or it is not UTF-8. -/
def blockFault (limit : Nat) : Nat → List Line → Option Outcome
  | _, [] => none
  | used, line :: lines =>
    if limit < used + line.size then some .eventTooLarge
    else if Utf8.valid line.text = false then some .invalidUTF8
    else blockFault limit (used + line.size) lines

/-- The events of the blocks up to the first with a fault.  `last` has no empty
line at its end. -/
def readBlocks (limit : Nat) : List (List Line) → List Line → List Event × Outcome
  | [], last =>
    ([], (blockFault limit 0 last).getD
      (if last.all fun line => line.text.isEmpty then .endOfInput else .incompleteEvent))
  | block :: rest, last =>
    match blockFault limit 0 block with
    | some fault => ([], fault)
    | none =>
      ((eventOf (block.map Line.text)).toList ++ (readBlocks limit rest last).1,
        (readBlocks limit rest last).2)

/-- The lines of the stream and what follows their last ending. -/
def wireLines (first : Bool) (bytes : List UInt8) : List Line × Line :=
  match Lines.split carriageReturn lineFeed bytes with
  | ([], rest) => ([], .ofWire first rest)
  | (line :: lines, rest) => (.ofWire first line :: lines.map (.ofWire false), .ofWire false rest)

/-- The rest of a stream of which a block has begun. -/
def referenceFrom (limit : Nat) (block lines : List Line) (rest : Line) : List Event × Outcome :=
  readBlocks limit (blocks block lines).1 ((blocks block lines).2 ++ [rest])

/-- The events of a stream, and how it ends. -/
def reference (limit : Nat) (bytes : List UInt8) : List Event × Outcome :=
  referenceFrom limit [] (wireLines true bytes).1 (wireLines true bytes).2

/-! ## Calling the decoder until it fails -/

theorem decode_input {event : Event} (h : (decode decoder).1 = .ok event) :
    (decode decoder).2.input.length < decoder.input.length := by
  fun_induction decode decoder with
  | case1 decoder e hread => cases h
  | case2 decoder hread hrecognized => exact Decoder.readLine_input hread
  | case3 decoder hread hrecognized ih => exact (ih h).trans (Decoder.readLine_input hread)
  | case4 decoder b line hread ih => exact (ih h).trans (Decoder.readLine_input hread)

/-- The events that `Decode` returns one after the other, and its first error. -/
def decodeAll (decoder : Decoder) : List Event × DecodeError :=
  match _hdecode : (decode decoder).1 with
  | .error e => ([], e)
  | .ok event =>
    (event :: (decodeAll (decode decoder).2).1, (decodeAll (decode decoder).2).2)
termination_by decoder.input.length
decreasing_by
  all_goals exact decode_input _hdecode

/-- The kind of an error. -/
def DecodeError.outcome : DecodeError → Outcome
  | .read _ => .endOfInput
  | .invalidUTF8 .. => .invalidUTF8
  | .incompleteEvent .. => .incompleteEvent
  | .eventTooLarge .. => .eventTooLarge

/-- The events and the kind of the error. -/
def observed (decoder : Decoder) : List Event × Outcome :=
  ((decodeAll decoder).1, (decodeAll decoder).2.outcome)

theorem decodeAll_of_error {e : DecodeError} (h : (decode decoder).1 = .error e) :
    decodeAll decoder = ([], e) := by
  rw [decodeAll]
  split
  · next e' h' =>
    rw [h] at h'
    cases h'
    rfl
  · next event h' =>
    rw [h] at h'
    cases h'

theorem decodeAll_of_event {event : Event} (h : (decode decoder).1 = .ok event) :
    decodeAll decoder =
      (event :: (decodeAll (decode decoder).2).1, (decodeAll (decode decoder).2).2) := by
  conv_lhs => rw [decodeAll]
  split
  · next e' h' =>
    rw [h] at h'
    cases h'
  · next event' h' =>
    rw [h] at h'
    cases h'
    rfl

/-- Two decoders that answer the next call alike. -/
theorem decodeAll_congr {a b : Decoder} (h : decode a = decode b) : decodeAll a = decodeAll b := by
  cases hb : (decode b).1 with
  | error e => rw [decodeAll_of_error hb, decodeAll_of_error (h ▸ hb)]
  | ok event => rw [decodeAll_of_event hb, decodeAll_of_event (h ▸ hb), h]

theorem decode_of_error {e : DecodeError} (h : decoder.readLine.1 = .error e) :
    decode decoder = (.error e, decoder.readLine.2) := by
  rw [decode]
  split
  · next e' h' =>
    rw [h] at h'
    cases h'
    rfl
  · next h' =>
    rw [h] at h'
    cases h'
  · next h' =>
    rw [h] at h'
    cases h'

theorem decode_of_empty (h : decoder.readLine.1 = .ok []) :
    decode decoder =
      if decoder.readLine.2.recognized = true then
        (.ok decoder.readLine.2.finishedEvent, decoder.readLine.2.startFrame)
      else decode decoder.readLine.2.startFrame := by
  conv_lhs => rw [decode]
  split
  · next h' =>
    rw [h] at h'
    cases h'
  · rfl
  · next h' =>
    rw [h] at h'
    cases h'

theorem decode_of_line (hne : line ≠ []) (h : decoder.readLine.1 = .ok line) :
    decode decoder =
      decode ({ decoder.readLine.2 with blockStarted := true }.consumeLine line) := by
  conv_lhs => rw [decode]
  split
  · next h' =>
    rw [h] at h'
    cases h'
  · next h' =>
    rw [h] at h'
    cases h'
    exact absurd rfl hne
  · next h' =>
    rw [h] at h'
    cases h'
    rfl

/-- The next call depends on the next line only. -/
theorem decode_congr {a b : Decoder} (h : a.readLine = b.readLine) : decode a = decode b := by
  cases hb : b.readLine.1 with
  | error e => rw [decode_of_error hb, decode_of_error (h ▸ hb), h]
  | ok line =>
    by_cases hne : line = []
    · subst hne
      rw [decode_of_empty hb, decode_of_empty (h ▸ hb), h]
    · rw [decode_of_line hne hb, decode_of_line hne (h ▸ hb), h]

/-- What all calls together make of the next line. -/
theorem observed_of_error {e : DecodeError} (h : decoder.readLine.1 = .error e) :
    observed decoder = ([], e.outcome) := by
  rw [observed, decodeAll_of_error (congrArg Prod.fst (decode_of_error h))]

theorem observed_of_empty (h : decoder.readLine.1 = .ok []) :
    observed decoder =
      ((if decoder.readLine.2.recognized = true then [decoder.readLine.2.finishedEvent] else []) ++
          (observed decoder.readLine.2.startFrame).1,
        (observed decoder.readLine.2.startFrame).2) := by
  have hdecode := decode_of_empty h
  by_cases hrecognized : decoder.readLine.2.recognized = true
  · rw [if_pos hrecognized] at hdecode ⊢
    rw [observed, decodeAll_of_event (by rw [hdecode]), hdecode]
    rfl
  · rw [if_neg hrecognized] at hdecode ⊢
    rw [observed, decodeAll_congr hdecode]
    rfl

theorem observed_of_line (hne : line ≠ []) (h : decoder.readLine.1 = .ok line) :
    observed decoder =
      observed ({ decoder.readLine.2 with blockStarted := true }.consumeLine line) := by
  rw [observed, decodeAll_congr (decode_of_line hne h)]
  rfl

/-! ## Collecting a block -/

/-- What the decoder has collected after the lines of a block: every data field
has left its line feed. -/
def collected (texts : List (List UInt8)) : Event :=
  eventWith (if values "data" texts = [] then none
    else some ((values "data" texts).flatMap fun value => value ++ [lineFeed])) texts

theorem values_of_name {name : String} (h : text.takeWhile (· != 0x3A) = Utf8.encode name.toList)
    (texts : List (List UInt8)) :
    values name (texts ++ [text]) =
      values name texts ++ [fieldValue (text.dropWhile (· != 0x3A)).tail] := by
  simp [values, h]

theorem values_of_other {name : String} (h : text.takeWhile (· != 0x3A) ≠ Utf8.encode name.toList)
    (texts : List (List UInt8)) : values name (texts ++ [text]) = values name texts := by
  simp [values, h]

theorem commentsOf_comment (h : text.head? = some 0x3A) (texts : List (List UInt8)) :
    commentsOf (texts ++ [text]) = commentsOf texts ++ [fieldValue text.tail] := by
  simp [commentsOf, h]

theorem commentsOf_field (h : text.head? ≠ some 0x3A) (texts : List (List UInt8)) :
    commentsOf (texts ++ [text]) = commentsOf texts := by
  simp [commentsOf, h]

theorem names_ne :
    Utf8.encode "data".toList ≠ [] ∧ Utf8.encode "event".toList ≠ [] ∧
      Utf8.encode "id".toList ≠ [] ∧ Utf8.encode "retry".toList ≠ [] := by
  decide +kernel

theorem names_distinct :
    Utf8.encode "data".toList ≠ Utf8.encode "event".toList ∧
      Utf8.encode "data".toList ≠ Utf8.encode "id".toList ∧
      Utf8.encode "data".toList ≠ Utf8.encode "retry".toList ∧
      Utf8.encode "event".toList ≠ Utf8.encode "id".toList ∧
      Utf8.encode "event".toList ≠ Utf8.encode "retry".toList ∧
      Utf8.encode "id".toList ≠ Utf8.encode "retry".toList := by
  decide +kernel

/-- One more line. -/
theorem collected_applyLine (texts : List (List UInt8)) (text : List UInt8) :
    (applyLine text (collected texts)).1 = collected (texts ++ [text]) := by
  obtain ⟨hde, hdi, hdr, hei, her, hir⟩ := names_distinct
  unfold applyLine
  by_cases hcomment : text.head? = some 0x3A
  · have hname : text.takeWhile (· != 0x3A) = [] := by
      obtain ⟨rest, rfl⟩ := List.head?_eq_some_iff.mp hcomment
      rfl
    obtain ⟨hd, he, hi, hr⟩ := names_ne
    rw [← hname] at hd he hi hr
    rw [if_pos hcomment]
    unfold collected eventWith idsOf retriesOf
    rw [values_of_other hd.symm, values_of_other he.symm, values_of_other hi.symm,
      values_of_other hr.symm, commentsOf_comment hcomment]
  rw [if_neg hcomment]
  unfold setField
  by_cases hdata : text.takeWhile (· != 0x3A) = Utf8.encode "data".toList
  · rw [if_pos hdata]
    unfold collected eventWith idsOf retriesOf
    rw [values_of_name hdata, values_of_other (hdata ▸ hde), values_of_other (hdata ▸ hdi),
      values_of_other (hdata ▸ hdr), commentsOf_field hcomment]
    unfold Event.dataBytes
    by_cases hnone : values "data" texts = []
    · simp [hnone]
    · simp [hnone]
  rw [if_neg hdata]
  by_cases hevent : text.takeWhile (· != 0x3A) = Utf8.encode "event".toList
  · rw [if_pos hevent]
    unfold collected eventWith idsOf retriesOf
    rw [values_of_other hdata, values_of_name hevent, values_of_other (hevent ▸ hei),
      values_of_other (hevent ▸ her), commentsOf_field hcomment]
    simp
  rw [if_neg hevent]
  by_cases hid : text.takeWhile (· != 0x3A) = Utf8.encode "id".toList
  · rw [if_pos hid]
    unfold collected eventWith idsOf retriesOf
    rw [values_of_other hdata, values_of_other hevent, values_of_name hid,
      values_of_other (hid ▸ hir), commentsOf_field hcomment]
    split
    · next hnul => simp [hnul]
    · next hnul => simp [hnul]
  rw [if_neg hid]
  by_cases hretry : text.takeWhile (· != 0x3A) = Utf8.encode "retry".toList
  · rw [if_pos hretry]
    unfold collected eventWith idsOf retriesOf
    rw [values_of_other hdata, values_of_other hevent, values_of_other hid,
      values_of_name hretry, commentsOf_field hcomment]
    cases hparse : parseRetry (fieldValue (text.dropWhile (· != 0x3A)).tail) with
    | some retry => simp [hparse]
    | none => simp [hparse]
  rw [if_neg hretry]
  unfold collected eventWith idsOf retriesOf
  rw [values_of_other hdata, values_of_other hevent, values_of_other hid, values_of_other hretry,
    commentsOf_field hcomment]

/-- A line that is not recognized changes nothing. -/
theorem applyLine_unrecognized {frame : Event} (h : (applyLine text frame).2 = false) :
    (applyLine text frame).1 = frame := by
  unfold applyLine setField at h ⊢
  split at h
  · cases h
  split at h
  · cases h
  split at h
  · cases h
  split at h
  · split at h
    · next hcomment hdata hevent hid hnul =>
      rw [if_neg hcomment, if_neg hdata, if_neg hevent, if_pos hid, if_pos hnul]
    · cases h
  split at h
  · next hcomment hdata hevent hid hretry =>
    rw [if_neg hcomment, if_neg hdata, if_neg hevent, if_neg hid, if_pos hretry]
    cases hparse : parseRetry (fieldValue (text.dropWhile (· != 0x3A)).tail) with
    | some retry => simp [hparse] at h
    | none => rfl
  · next hcomment hdata hevent hid hretry =>
    rw [if_neg hcomment, if_neg hdata, if_neg hevent, if_neg hid, if_neg hretry]

/-- The line feeds between the lines of the data, and the last one. -/
theorem flatMap_lines (lines : List (List UInt8)) (h : lines ≠ []) :
    (lines.flatMap fun line => line ++ [lineFeed]) =
      [lineFeed].intercalate lines ++ [lineFeed] := by
  induction lines with
  | nil => exact absurd rfl h
  | cons line lines ih =>
    by_cases hne : lines = []
    · simp [hne]
    · rw [List.flatMap_cons, ih hne, List.intercalate_cons_of_ne_nil hne]
      simp

theorem recognized_collected (texts : List (List UInt8)) :
    (collected texts).Recognized ↔
      ¬ (values "data" texts = [] ∧ values "event" texts = [] ∧ idsOf texts = [] ∧
        retriesOf texts = [] ∧ commentsOf texts = []) := by
  unfold Event.Recognized collected eventWith
  simp only [Bool.not_eq_true', List.isEmpty_eq_false_iff]
  tauto

theorem eventOf_unrecognized {texts : List (List UInt8)} (h : ¬ (collected texts).Recognized) :
    eventOf texts = none :=
  if_pos (not_not.mp (mt (recognized_collected texts).mpr h))

/-- The event that is returned for a block. -/
theorem eventOf_recognized {texts : List (List UInt8)} (h : (collected texts).Recognized)
    (hframe : decoder.frame = collected texts) : eventOf texts = some decoder.finishedEvent := by
  have hsome := (recognized_collected texts).mp h
  unfold eventOf
  dsimp only
  rw [if_neg hsome, Decoder.finishedEvent, hframe]
  by_cases hdata : values "data" texts = []
  · simp [collected, eventWith, hdata]
  · have hlines := flatMap_lines (values "data" texts) hdata
    simp [collected, eventWith, hdata, Event.dataBytes, hlines]

/-- The empty line at the end of a block adds nothing. -/
theorem eventOf_concat_nil (texts : List (List UInt8)) : eventOf (texts ++ [[]]) = eventOf texts := by
  obtain ⟨hd, he, hi, hr⟩ := names_ne
  have hother {name : String} (h : Utf8.encode name.toList ≠ []) :
      values name (texts ++ [[]]) = values name texts := @values_of_other [] name h.symm texts
  unfold eventOf eventWith idsOf retriesOf
  rw [hother hd, hother he, hother hi, hother hr, commentsOf_field (by simp)]

/-! ## Faults -/

theorem blockFault_append (limit used : Nat) (a b : List Line) :
    blockFault limit used (a ++ b) =
      (blockFault limit used a).or (blockFault limit (used + (a.map Line.size).sum) b) := by
  induction a generalizing used with
  | nil => rfl
  | cons line a ih =>
    rw [List.cons_append, blockFault, blockFault]
    split
    · rfl
    split
    · rfl
    · rw [ih, List.map_cons, List.sum_cons, Nat.add_assoc]

theorem blockFault_singleton (limit used : Nat) (line : Line) :
    blockFault limit used [line] =
      if limit < used + line.size then some .eventTooLarge
      else if Utf8.valid line.text = false then some .invalidUTF8 else none := rfl

/-- A block without a fault fits the limit and is UTF-8. -/
theorem blockFault_eq_none_iff {limit used : Nat} {lines : List Line} (hused : used ≤ limit) :
    blockFault limit used lines = none ↔
      used + (lines.map Line.size).sum ≤ limit ∧ ∀ line ∈ lines, Utf8.valid line.text = true := by
  induction lines generalizing used with
  | nil => simp [blockFault, hused]
  | cons line lines ih =>
    unfold blockFault
    rw [List.map_cons, List.sum_cons, List.forall_mem_cons]
    by_cases hlarge : limit < used + line.size
    · rw [if_pos hlarge]
      constructor
      · intro h
        cases h
      · intro h
        omega
    rw [if_neg hlarge]
    cases hvalid : Utf8.valid line.text with
    | false => simp
    | true =>
      rw [if_neg Bool.true_eq_false_eq_False, ih (by omega), Nat.add_assoc]
      simp

/-! ## Blocks that have begun -/

section ReferenceFrom

variable {limit : Nat} {block lines : List Line} {line rest : Line}

theorem referenceFrom_line (h : line.text ≠ []) :
    referenceFrom limit block (line :: lines) rest =
      referenceFrom limit (block ++ [line]) lines rest := by
  unfold referenceFrom
  rw [blocks, Lines.blocks, if_neg h]
  rfl

theorem referenceFrom_empty (htext : line.text = [])
    (hclean : blockFault limit 0 (block ++ [line]) = none) :
    referenceFrom limit block (line :: lines) rest =
      ((eventOf (block.map Line.text)).toList ++ (referenceFrom limit [] lines rest).1,
        (referenceFrom limit [] lines rest).2) := by
  have hevent : eventOf ((block ++ [line]).map Line.text) = eventOf (block.map Line.text) := by
    rw [List.map_append, List.map_singleton, htext, eventOf_concat_nil]
  unfold referenceFrom
  rw [blocks, Lines.blocks, if_pos htext]
  dsimp only
  rw [readBlocks, hclean, hevent]
  rfl

theorem referenceFrom_nil :
    referenceFrom limit block [] rest =
      ([], (blockFault limit 0 (block ++ [rest])).getD
        (if (block ++ [rest]).all fun line => line.text.isEmpty then .endOfInput
          else .incompleteEvent)) := rfl

/-- Nothing comes after a fault. -/
theorem referenceFrom_fault {fault : Outcome} (h : blockFault limit 0 block = some fault) :
    referenceFrom limit block lines rest = ([], fault) := by
  have hlonger (more : List Line) : blockFault limit 0 (block ++ more) = some fault := by
    rw [blockFault_append, h, Option.some_or]
  induction lines generalizing block with
  | nil => rw [referenceFrom_nil, hlonger, Option.getD_some]
  | cons line lines ih =>
    by_cases htext : line.text = []
    · unfold referenceFrom
      rw [blocks, Lines.blocks, if_pos htext]
      dsimp only
      rw [readBlocks, hlonger]
    · rw [referenceFrom_line htext]
      refine ih (hlonger _) fun more => ?_
      rw [List.append_assoc]
      exact hlonger _

theorem referenceFrom_cons_fault {fault : Outcome}
    (h : blockFault limit 0 (block ++ [line]) = some fault) :
    referenceFrom limit block (line :: lines) rest = ([], fault) := by
  by_cases htext : line.text = []
  · unfold referenceFrom
    rw [blocks, Lines.blocks, if_pos htext]
    dsimp only
    rw [readBlocks, h]
  · rw [referenceFrom_line htext]
    exact referenceFrom_fault h

/-- The events stay when more lines follow. -/
theorem referenceFrom_prefix (more : List Line) (rest' : Line) :
    (referenceFrom limit block lines rest).1 <+:
      (referenceFrom limit block (lines ++ more) rest').1 := by
  induction lines generalizing block with
  | nil =>
    rw [referenceFrom_nil]
    exact List.nil_prefix
  | cons line lines ih =>
    rw [List.cons_append]
    by_cases htext : line.text = []
    · cases hfault : blockFault limit 0 (block ++ [line]) with
      | none =>
        rw [referenceFrom_empty htext hfault, referenceFrom_empty htext hfault]
        exact (List.prefix_append_right_inj _).mpr ih
      | some fault =>
        rw [referenceFrom_cons_fault hfault]
        exact List.nil_prefix
    · rw [referenceFrom_line htext, referenceFrom_line htext]
      exact ih

end ReferenceFrom

/-! ## Reading whole lines -/

namespace Decoder

/-- The decoder after the line feed that a carriage return has announced. -/
def settle (decoder : Decoder) : Decoder :=
  if decoder.skipLF = true ∧ decoder.input.head? = some lineFeed then
    { decoder with
      input := decoder.input.tail, offset := decoder.offset + 1, skipLF := false }
  else { decoder with skipLF := false }

theorem readLine_settle (h : decoder.input ≠ []) :
    decoder.settle.readLine = decoder.readLine := by
  obtain ⟨input, readError, frame, recognized, blockStarted, firstLine, skipLF, offset, frameBytes,
    maxEventBytes⟩ := decoder
  cases input with
  | nil => exact absurd rfl h
  | cons b rest =>
    cases skipLF with
    | false => rfl
    | true =>
      by_cases hb : b = lineFeed
      · subst hb
        rfl
      · unfold settle
        rw [if_neg (by simpa using hb)]
        show readBytes (b :: rest) offset [] _ = readBytes (b :: rest) offset [] _
        rw [readBytes, readBytes]
        simp [hb]

theorem readLine_settle_nil (h : decoder.input = []) :
    decoder.settle.readLine.1 = decoder.readLine.1 := by
  unfold settle
  rw [if_neg (by simp [h])]
  show (readBytes decoder.input _ _ _).1 = (readBytes decoder.input _ _ _).1
  rw [h]
  rfl

variable {tail : List UInt8}

/-- The bytes of a line that fits are collected. -/
theorem readBytes_plain (hline : Lines.Plain carriageReturn lineFeed line)
    (hskip : decoder.skipLF = false) (hinput : decoder.input = line ++ tail)
    (hfit : decoder.frameBytes + line.length ≤ decoder.maxEventBytes) (start : Nat)
    (front : List UInt8) :
    readBytes (line ++ tail) start front decoder =
      readBytes tail start (front ++ line)
        { decoder with
          input := tail, offset := decoder.offset + line.length
          frameBytes := decoder.frameBytes + line.length } := by
  induction line generalizing decoder front with
  | nil =>
    rw [List.nil_append] at hinput
    rw [List.append_nil, ← hinput]
    rfl
  | cons b line ih =>
    obtain ⟨hreturn, hfeed, hplain⟩ := Lines.plain_cons.mp hline
    rw [List.length_cons] at hfit
    rw [List.cons_append, readBytes]
    dsimp only
    rw [if_neg (fun h => hfeed h.2), if_neg hreturn, if_neg hfeed, if_neg (by omega), hskip]
    have hless : decoder.frameBytes + 1 + line.length ≤ decoder.maxEventBytes := by omega
    show readBytes (line ++ tail) start (front ++ [b]) _ = _
    refine (ih hplain rfl rfl hless _).trans ?_
    simp [Nat.add_assoc, Nat.add_comm 1]

/-- A line that does not fit is refused. -/
theorem readBytes_large (hline : Lines.Plain carriageReturn lineFeed line)
    (hskip : decoder.skipLF = false) (hused : decoder.frameBytes ≤ decoder.maxEventBytes)
    (hlarge : decoder.maxEventBytes < decoder.frameBytes + line.length) (start : Nat)
    (front : List UInt8) :
    ∃ position, (readBytes (line ++ tail) start front decoder).1 =
      .error (.eventTooLarge decoder.maxEventBytes position) := by
  induction line generalizing decoder front with
  | nil =>
    rw [List.length_nil] at hlarge
    omega
  | cons b line ih =>
    obtain ⟨hreturn, hfeed, hplain⟩ := Lines.plain_cons.mp hline
    rw [List.length_cons] at hlarge
    rw [List.cons_append, readBytes]
    dsimp only
    rw [if_neg (fun h => hfeed h.2), if_neg hreturn, if_neg hfeed, hskip]
    by_cases hfull : decoder.frameBytes ≥ decoder.maxEventBytes
    · rw [if_pos hfull]
      exact ⟨_, rfl⟩
    · rw [if_neg hfull]
      exact ih hplain rfl (by dsimp only; omega) (by dsimp only; omega) _

theorem readLine_large (hline : Lines.Plain carriageReturn lineFeed line)
    (hskip : decoder.skipLF = false) (hinput : decoder.input = line ++ tail)
    (hused : decoder.frameBytes ≤ decoder.maxEventBytes)
    (hlarge : decoder.maxEventBytes < decoder.frameBytes + line.length) :
    ∃ position, decoder.readLine.1 =
      .error (.eventTooLarge decoder.maxEventBytes position) := by
  unfold readLine
  rw [hinput]
  exact readBytes_large hline hskip hused hlarge _ _

theorem readLine_rest (hline : Lines.Plain carriageReturn lineFeed decoder.input)
    (hskip : decoder.skipLF = false)
    (hfit : decoder.frameBytes + decoder.input.length ≤ decoder.maxEventBytes) :
    ∃ position, decoder.readLine.1 = .error (decoder.endOfInput decoder.input position) := by
  have hread := readBytes_plain hline hskip (List.append_nil _).symm hfit decoder.offset []
  rw [List.append_nil, List.nil_append] at hread
  refine ⟨decoder.offset, ?_⟩
  unfold readLine
  rw [hread]
  rfl

/-- A line and its ending. -/
theorem readLine_ended (hline : Lines.Plain carriageReturn lineFeed line)
    (hskip : decoder.skipLF = false) {ending : UInt8} {returned : Bool}
    (hending : (ending = carriageReturn ∧ returned = true) ∨
      (ending = lineFeed ∧ returned = false))
    (hinput : decoder.input = line ++ ending :: tail)
    (hfit : decoder.frameBytes + line.length ≤ decoder.maxEventBytes) :
    ∃ position offset, decoder.readLine =
      ((if Utf8.valid (Line.ofWire decoder.firstLine line).text then
          .ok (Line.ofWire decoder.firstLine line).text
        else .error (.invalidUTF8 position none)),
        { decoder with
          input := tail, offset := offset, frameBytes := decoder.frameBytes + line.length
          skipLF := returned, firstLine := false }) := by
  refine ⟨decoder.offset, decoder.offset + line.length + 1, ?_⟩
  unfold readLine
  rw [hinput, readBytes_plain hline hskip hinput hfit, List.nil_append, readBytes]
  dsimp only
  obtain ⟨rfl, rfl⟩ | ⟨rfl, rfl⟩ := hending
  · rw [if_neg (fun h => absurd h.2 (by decide)), if_pos rfl, hskip]
    rfl
  · rw [hskip, if_neg (fun h => Bool.false_ne_true h.1), if_neg (by decide), if_pos rfl]
    rfl

end Decoder

theorem observed_settle (decoder : Decoder) : observed decoder.settle = observed decoder := by
  by_cases h : decoder.input = []
  · obtain ⟨e, he⟩ : ∃ e, decoder.readLine.1 = .error e := by
      unfold Decoder.readLine
      rw [h]
      exact ⟨_, rfl⟩
    rw [observed_of_error he,
      observed_of_error ((Decoder.readLine_settle_nil h).trans he)]
  · rw [observed, decodeAll_congr (decode_congr (Decoder.readLine_settle h))]
    rfl

/-! ## The lines of the stream -/

theorem carriageReturn_ne_lineFeed : carriageReturn ≠ lineFeed := by decide

theorem wireLines_false (bytes : List UInt8) :
    wireLines false bytes =
      ((Lines.split carriageReturn lineFeed bytes).1.map (.ofWire false),
        .ofWire false (Lines.split carriageReturn lineFeed bytes).2) := by
  unfold wireLines
  split
  · next hsplit => rw [hsplit]; rfl
  · next hsplit => rw [hsplit]; rfl

theorem wireLines_plain (h : Lines.Plain carriageReturn lineFeed line) (first : Bool) :
    wireLines first line = ([], .ofWire first line) := by
  unfold wireLines
  rw [Lines.split_plain h]

theorem wireLines_feed (h : Lines.Plain carriageReturn lineFeed line) (first : Bool)
    (tail : List UInt8) :
    wireLines first (line ++ lineFeed :: tail) =
      (.ofWire first line :: (wireLines false tail).1, (wireLines false tail).2) := by
  rw [wireLines_false]
  unfold wireLines
  rw [Lines.split_line_feed carriageReturn_ne_lineFeed h]

theorem wireLines_return (h : Lines.Plain carriageReturn lineFeed line) (first : Bool)
    (tail : List UInt8) :
    wireLines first (line ++ carriageReturn :: tail) =
      (.ofWire first line :: (wireLines false (Lines.skip lineFeed tail)).1,
        (wireLines false (Lines.skip lineFeed tail)).2) := by
  rw [wireLines_false]
  unfold wireLines
  rw [Lines.split_line_return h]

/-- The error at the end of the input. -/
theorem endOfInput_outcome (decoder : Decoder) (wire : List UInt8) (position : Nat) :
    (decoder.endOfInput wire position).outcome =
      if Utf8.valid (Line.ofWire decoder.firstLine wire).text = false then .invalidUTF8
      else if (Line.ofWire decoder.firstLine wire).text ≠ [] ∨ decoder.blockStarted = true then
        .incompleteEvent
      else .endOfInput := by
  have hstrip : decoder.stripInitialBOM wire = (Line.ofWire decoder.firstLine wire).text := rfl
  unfold Decoder.endOfInput
  dsimp only
  rw [hstrip]
  generalize (Line.ofWire decoder.firstLine wire).text = text
  cases hvalid : Utf8.valid text with
  | false =>
    have hne : text ≠ [] := by
      intro hnil
      rw [hnil] at hvalid
      exact absurd hvalid (by decide)
    rw [if_pos ⟨hne, rfl⟩, if_pos rfl]
    rfl
  | true =>
    rw [if_neg (fun hbad => Bool.true_eq_false_eq_False hbad.2),
      if_neg Bool.true_eq_false_eq_False]
    split <;> rfl

/-! ## The simulation -/

/-- The decoder in the middle of a block: it has collected the lines of the block
and none of them has a fault. -/
structure Decoder.Sim (decoder : Decoder) (block : List Line) : Prop where
  inv : decoder.Inv
  frame : decoder.frame = collected (block.map Line.text)
  recognized : decoder.frame.Recognized → decoder.recognized = true
  started : decoder.blockStarted = true ↔ block ≠ []
  bytes : decoder.frameBytes = (block.map Line.size).sum
  clean : blockFault decoder.maxEventBytes 0 block = none
  texts : ∀ line ∈ block, line.text ≠ []
  eof : decoder.readError = .eof

theorem sim_newDecoder (bytes : List UInt8) (limit : Nat) :
    (newDecoder bytes .eof limit).Sim [] where
  inv := inv_newDecoder ..
  frame := rfl
  recognized h := by
    obtain h | h | h | h | h := h
    · cases h
    · cases h
    · cases h
    · cases h
    · exact absurd rfl h
  started := by simp [newDecoder]
  bytes := rfl
  clean := rfl
  texts := List.forall_mem_nil _
  eof := rfl

namespace Decoder.Sim

variable {block : List Line} (h : decoder.Sim block)
include h

/-- Only the position in the stream differs. -/
theorem move {decoder' : Decoder} (hframe : decoder'.frame = decoder.frame)
    (hrecognized : decoder'.recognized = decoder.recognized)
    (hstarted : decoder'.blockStarted = decoder.blockStarted)
    (hbytes : decoder'.frameBytes = decoder.frameBytes)
    (hmax : decoder'.maxEventBytes = decoder.maxEventBytes)
    (hread : decoder'.readError = decoder.readError) : decoder'.Sim block where
  inv := ⟨hframe ▸ h.inv.frame, by rw [hframe, hrecognized]; exact h.inv.recognized⟩
  frame := hframe.trans h.frame
  recognized := by rw [hframe, hrecognized]; exact h.recognized
  started := by rw [hstarted]; exact h.started
  bytes := hbytes.trans h.bytes
  clean := by rw [hmax]; exact h.clean
  texts := h.texts
  eof := hread.trans h.eof

theorem settle : decoder.settle.Sim block := by
  unfold Decoder.settle
  split
  · exact h.move rfl rfl rfl rfl rfl rfl
  · exact h.move rfl rfl rfl rfl rfl rfl

theorem fits : decoder.frameBytes ≤ decoder.maxEventBytes := by
  have := ((blockFault_eq_none_iff (Nat.zero_le _)).mp h.clean).1
  rw [Nat.zero_add] at this
  rw [h.bytes]
  exact this

/-- The faults of the block with one more line are those of the line. -/
theorem fault_concat (line : Line) :
    blockFault decoder.maxEventBytes 0 (block ++ [line]) =
      if decoder.maxEventBytes < decoder.frameBytes + line.size then some .eventTooLarge
      else if Utf8.valid line.text = false then some .invalidUTF8 else none := by
  rw [blockFault_append, h.clean, Option.none_or, blockFault_singleton, Nat.zero_add, h.bytes]

/-- The event of the block. -/
theorem event :
    (if decoder.recognized = true then [decoder.finishedEvent] else []) =
      (eventOf (block.map Line.text)).toList := by
  by_cases hrecognized : decoder.recognized = true
  · have hrec := h.inv.recognized hrecognized
    rw [if_pos hrecognized, eventOf_recognized (h.frame ▸ hrec) h.frame]
    rfl
  · rw [if_neg hrecognized,
      eventOf_unrecognized (h.frame ▸ mt h.recognized hrecognized)]
    rfl

theorem startFrame : decoder.startFrame.Sim [] where
  inv := .startFrame _
  frame := rfl
  recognized hrec := (sim_newDecoder [] 0).recognized hrec
  started := by simp [Decoder.startFrame]
  bytes := rfl
  clean := rfl
  texts := List.forall_mem_nil _
  eof := h.eof

/-- One more line. -/
theorem consumeLine {line : Line} (hne : line.text ≠ []) (hline : SingleLine line.text)
    {decoder' : Decoder} (hframe : decoder'.frame = decoder.frame)
    (hrecognized : decoder'.recognized = decoder.recognized)
    (hbytes : decoder'.frameBytes = decoder.frameBytes + line.size)
    (hmax : decoder'.maxEventBytes = decoder.maxEventBytes)
    (hread : decoder'.readError = decoder.readError)
    (hclean : blockFault decoder.maxEventBytes 0 (block ++ [line]) = none) :
    ({ decoder' with blockStarted := true }.consumeLine line.text).Sim (block ++ [line]) := by
  have hinv : ({ decoder' with blockStarted := true } : Decoder).Inv :=
    ⟨hframe ▸ h.inv.frame, by
      show decoder'.recognized = true → decoder'.frame.Recognized
      rw [hframe, hrecognized]
      exact h.inv.recognized⟩
  refine ⟨hinv.consumeLine hline, ?_, ?_, by simp [Decoder.consumeLine], ?_, ?_, ?_, ?_⟩
  · show (applyLine line.text decoder'.frame).1 = _
    rw [hframe, h.frame, collected_applyLine, List.map_append]
    rfl
  · show (applyLine line.text decoder'.frame).1.Recognized →
      (decoder'.recognized || (applyLine line.text decoder'.frame).2) = true
    rw [hframe, hrecognized]
    intro hrec
    cases hnew : (applyLine line.text decoder.frame).2 with
    | true => exact Bool.or_true _
    | false =>
      rw [applyLine_unrecognized hnew] at hrec
      rw [h.recognized hrec]
      rfl
  · show decoder'.frameBytes = _
    rw [hbytes, h.bytes, List.map_append, List.sum_append]
    simp
  · show blockFault decoder'.maxEventBytes 0 _ = none
    rw [hmax]
    exact hclean
  · exact List.forall_mem_append.mpr ⟨h.texts, List.forall_mem_singleton.mpr hne⟩
  · exact hread.trans h.eof

/-- The end of the input. -/
theorem observed_rest (hskip : decoder.skipLF = false)
    (hline : Lines.Plain carriageReturn lineFeed decoder.input) :
    observed decoder =
      referenceFrom decoder.maxEventBytes block [] (.ofWire decoder.firstLine decoder.input) := by
  rw [referenceFrom_nil, h.fault_concat, Line.size_ofWire]
  by_cases hlarge : decoder.maxEventBytes < decoder.frameBytes + decoder.input.length
  · obtain ⟨position, hread⟩ :=
      Decoder.readLine_large hline hskip (List.append_nil _).symm h.fits hlarge
    rw [observed_of_error hread, if_pos hlarge]
    rfl
  obtain ⟨position, hread⟩ := Decoder.readLine_rest hline hskip (by omega)
  rw [observed_of_error hread, if_neg hlarge, endOfInput_outcome]
  generalize Line.ofWire decoder.firstLine decoder.input = line
  cases hvalid : Utf8.valid line.text with
  | false =>
    rw [if_pos rfl, if_pos rfl]
    rfl
  | true =>
    rw [if_neg Bool.true_eq_false_eq_False, if_neg Bool.true_eq_false_eq_False,
      Option.getD_none]
    by_cases hopen : line.text ≠ [] ∨ decoder.blockStarted = true
    · rw [if_pos hopen, if_neg]
      intro hall
      rw [List.all_append, Bool.and_eq_true, List.all_eq_true] at hall
      obtain hne | hstarted := hopen
      · simp [hne] at hall
      · obtain ⟨l, hl⟩ := List.exists_mem_of_ne_nil _ (h.started.mp hstarted)
        exact h.texts l hl (by simpa using hall.1 l hl)
    · rw [if_neg hopen]
      rw [not_or, not_not] at hopen
      have hblock : block = [] := not_not.mp (mt h.started.mpr hopen.2)
      simp [hblock, hopen.1]

/-- A line and its ending, if the rest is read as it should be. -/
theorem observed_ended {tail : List UInt8} (hskip : decoder.skipLF = false)
    (hline : Lines.Plain carriageReturn lineFeed line) {ending : UInt8} {returned : Bool}
    (hending : (ending = carriageReturn ∧ returned = true) ∨
      (ending = lineFeed ∧ returned = false)) (hinput : decoder.input = line ++ ending :: tail)
    {lines : List Line} {rest : Line}
    (hrest : ∀ (decoder' : Decoder) (block' : List Line), decoder'.Sim block' →
      decoder'.input = tail → decoder'.skipLF = returned → decoder'.firstLine = false →
      decoder'.maxEventBytes = decoder.maxEventBytes →
      observed decoder' = referenceFrom decoder.maxEventBytes block' lines rest) :
    observed decoder =
      referenceFrom decoder.maxEventBytes block (.ofWire decoder.firstLine line :: lines) rest := by
  have hfault := h.fault_concat (.ofWire decoder.firstLine line)
  rw [Line.size_ofWire] at hfault
  by_cases hlarge : decoder.maxEventBytes < decoder.frameBytes + line.length
  · rw [if_pos hlarge] at hfault
    obtain ⟨position, hread⟩ := Decoder.readLine_large hline hskip hinput h.fits hlarge
    rw [observed_of_error hread, referenceFrom_cons_fault hfault]
    rfl
  rw [if_neg hlarge] at hfault
  obtain ⟨position, offset, hread⟩ :=
    Decoder.readLine_ended hline hskip hending hinput (by omega)
  cases hvalid : Utf8.valid (Line.ofWire decoder.firstLine line).text with
  | false =>
    rw [hvalid, if_pos rfl] at hfault
    rw [hvalid, if_neg Bool.false_ne_true] at hread
    rw [observed_of_error (congrArg Prod.fst hread), referenceFrom_cons_fault hfault]
    rfl
  | true =>
    rw [hvalid, if_neg Bool.true_eq_false_eq_False] at hfault
    rw [hvalid, if_pos rfl] at hread
    have hok : decoder.readLine.1 = .ok (Line.ofWire decoder.firstLine line).text := by rw [hread]
    by_cases htext : (Line.ofWire decoder.firstLine line).text = []
    · have hstate := congrArg Prod.snd hread
      have hmax : decoder.readLine.2.maxEventBytes = decoder.maxEventBytes := by rw [hstate]
      have heof : decoder.readLine.2.readError = decoder.readError := by rw [hstate]
      have hstart : decoder.readLine.2.startFrame.Sim [] :=
        h.startFrame.move rfl rfl rfl rfl hmax heof
      have hevent : (if decoder.readLine.2.recognized = true then
          [decoder.readLine.2.finishedEvent] else []) = (eventOf (block.map Line.text)).toList := by
        rw [hstate]
        exact h.event
      rw [referenceFrom_empty htext hfault, observed_of_empty (htext ▸ hok), hevent,
        hrest _ [] hstart (congrArg Decoder.input hstate) (congrArg Decoder.skipLF hstate)
          (congrArg Decoder.firstLine hstate) hmax]
    · rw [referenceFrom_line htext, observed_of_line htext hok]
      have hsingle := Decoder.readLine_singleLine hok
      rw [hread]
      exact hrest _ _ (h.consumeLine htext hsingle rfl rfl rfl rfl rfl hfault) rfl rfl rfl rfl

end Decoder.Sim

/-- From line to line the decoder keeps to the blocks. -/
theorem observed_simulates {block : List Line} (h : decoder.Sim block) :
    observed decoder = referenceFrom decoder.maxEventBytes block
      (wireLines decoder.firstLine decoder.settle.input).1
      (wireLines decoder.firstLine decoder.settle.input).2 := by
  induction hlen : decoder.settle.input.length using Nat.strongRecOn
    generalizing decoder block with
  | ind n ih =>
  obtain ⟨hskip, hfirst, hmax⟩ : decoder.settle.skipLF = false ∧
      decoder.settle.firstLine = decoder.firstLine ∧
      decoder.settle.maxEventBytes = decoder.maxEventBytes := by
    unfold Decoder.settle
    split <;> exact ⟨rfl, rfl, rfl⟩
  rw [← observed_settle, ← hfirst, ← hmax]
  have hsettled := h.settle
  obtain hplain | ⟨line, tail, hline, hinput⟩ | ⟨line, tail, hline, hinput⟩ :=
    Lines.cut carriageReturn lineFeed decoder.settle.input
  · rw [wireLines_plain hplain]
    exact hsettled.observed_rest hskip hplain
  · rw [hinput, wireLines_feed hline]
    refine hsettled.observed_ended hskip hline (Or.inr ⟨rfl, rfl⟩) hinput ?_
    intro decoder' block' hsim hinput' hskip' hfirst' hmax'
    have hsame : decoder'.settle.input = tail := by
      unfold Decoder.settle
      rw [if_neg (by rw [hskip']; exact fun hbad => Bool.false_ne_true hbad.1)]
      exact hinput'
    have hshort : decoder'.settle.input.length < n := by
      rw [hsame, ← hlen, hinput, List.length_append, List.length_cons]
      omega
    rw [ih _ hshort hsim rfl, hsame, hfirst', hmax']
  · rw [hinput, wireLines_return hline]
    refine hsettled.observed_ended hskip hline (Or.inl ⟨rfl, rfl⟩) hinput ?_
    intro decoder' block' hsim hinput' hskip' hfirst' hmax'
    have hsame : decoder'.settle.input = Lines.skip lineFeed tail := by
      unfold Decoder.settle Lines.skip
      rw [hinput', hskip']
      by_cases hhead : tail.head? = some lineFeed
      · rw [if_pos ⟨rfl, hhead⟩, if_pos hhead]
      · rw [if_neg (fun hbad => hhead hbad.2), if_neg hhead]
    have hskipped := Lines.skip_length lineFeed tail
    have hshort : decoder'.settle.input.length < n := by
      rw [hsame, ← hlen, hinput, List.length_append, List.length_cons]
      omega
    rw [ih _ hshort hsim rfl, hsame, hfirst', hmax']

/-- Decoding gives the events of the reference and ends as it does. -/
theorem observed_eq_reference (bytes : List UInt8) (limit : Nat) :
    observed (newDecoder bytes .eof limit) = reference limit bytes :=
  observed_simulates (sim_newDecoder bytes limit)

/-- The lines of the beginning of a stream are its first lines. -/
theorem wireLines_prefix (front rest : List UInt8) :
    ∃ more, (wireLines true (front ++ rest)).1 = (wireLines true front).1 ++ more := by
  obtain ⟨more, hmore⟩ := Lines.split_append carriageReturn_ne_lineFeed front rest
  unfold wireLines
  generalize Lines.split carriageReturn lineFeed (front ++ rest) = whole at hmore
  generalize Lines.split carriageReturn lineFeed front = part at hmore
  obtain ⟨lines, last⟩ := part
  obtain ⟨lines', last'⟩ := whole
  dsimp only at hmore
  subst hmore
  cases lines with
  | nil => exact ⟨_, rfl⟩
  | cons line lines => exact ⟨more.map (.ofWire false), by simp⟩

/-- The decoder implements the grammar: it returns the events of the reference
and ends with its error, and the events of a beginning of the stream are a
beginning of the events. -/
theorem decoder_implements_grammar (limit : Nat) (bytes : List UInt8) :
    ((decodeAll (newDecoder bytes .eof limit)).1,
        (decodeAll (newDecoder bytes .eof limit)).2.outcome) = reference limit bytes ∧
      ∀ front rest : List UInt8, (decodeAll (newDecoder front .eof limit)).1 <+:
        (decodeAll (newDecoder (front ++ rest) .eof limit)).1 := by
  refine ⟨observed_eq_reference bytes limit, fun front rest => ?_⟩
  show (observed _).1 <+: (observed _).1
  rw [observed_eq_reference, observed_eq_reference]
  obtain ⟨more, hmore⟩ := wireLines_prefix front rest
  unfold reference
  rw [hmore]
  exact referenceFrom_prefix more _

end Streamweld.Sse
