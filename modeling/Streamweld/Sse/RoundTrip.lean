import Streamweld.Sse.Reference

/-!
# Encoding and decoding

Frames of the encoder read back by the decoder.  `values_lines` and `commentsOf_lines`
give the fields of the lines that the encoder writes;
`referenceFrom_frame` reads one frame with anything after it.
-/

namespace Streamweld.Sse

open Streamweld.Lib

variable {name line : List UInt8}

/-- The event with the flags of the fields it has.  A nil slice that is flagged as
data is the empty data. -/
def Event.normalized (event : Event) : Event :=
  { event with
    data := if event.dataPresent then some event.dataBytes else none
    hasData := event.dataPresent
    hasType := event.typePresent
    hasID := event.idPresent
    hasRetry := event.retryPresent }

/-- A duration is a 64-bit integer. -/
def Event.DurationInRange (event : Event) : Prop := event.retry < 2 ^ 63

/-! ## The fields of a line -/

/-- The name and the value are read back: a space is written in front of the value and one is
dropped. -/
theorem read_fieldLine {name : List Char} (hname : ':' ∉ name) (value : List UInt8) :
    (fieldLine (Utf8.encode name) value).takeWhile (· != 0x3A) = Utf8.encode name ∧
      fieldValue ((fieldLine (Utf8.encode name) value).dropWhile (· != 0x3A)).tail = value := by
  have hbefore : ∀ b ∈ Utf8.encode name, (b != 0x3A) = true := by
    intro b hb
    rw [bne_iff_ne]
    rintro rfl
    exact hname ((Utf8.mem_encode (by decide : ':'.toNat < 0x80)).mp hb)
  unfold fieldLine
  rw [List.takeWhile_append_of_pos hbefore, List.dropWhile_append_of_pos hbefore,
    List.takeWhile_cons_of_neg (by decide), List.dropWhile_cons_of_neg (by decide),
    List.append_nil, List.tail_cons]
  by_cases hvalue : value = []
  · rw [if_pos hvalue, hvalue]
    exact ⟨rfl, rfl⟩
  · rw [if_neg hvalue]
    exact ⟨rfl, rfl⟩

theorem values_fieldLine {name : List Char} (hname : ':' ∉ name) (field : String)
    (vs : List (List UInt8)) :
    values field (vs.map (fieldLine (Utf8.encode name))) =
      if name = field.toList then vs else [] := by
  have hiff : Utf8.encode name = Utf8.encode field.toList ↔ name = field.toList :=
    ⟨Utf8.encode_injective, congrArg Utf8.encode⟩
  unfold values
  simp only [List.filterMap_map, Function.comp_def, read_fieldLine hname, hiff]
  split
  · exact List.filterMap_some
  · exact List.filterMap_none vs

/-- A line without a name is a comment. -/
theorem commentsOf_fieldLine {name : List Char} (hname : ':' ∉ name) (vs : List (List UInt8)) :
    commentsOf (vs.map (fieldLine (Utf8.encode name))) = if name = [] then vs else [] := by
  unfold commentsOf
  rw [List.filterMap_map]
  by_cases hnil : name = []
  · rw [if_pos hnil, hnil]
    conv_rhs => rw [← List.filterMap_some (l := vs)]
    exact List.filterMap_congr fun value _ => congrArg some (read_fieldLine List.not_mem_nil value).2
  · rw [if_neg hnil, List.filterMap_eq_nil_iff]
    intro value _
    obtain ⟨b, rest, hencode⟩ := List.exists_cons_of_ne_nil (mt Utf8.encode_eq_nil.mp hnil)
    refine if_neg fun hhead => hname ?_
    rw [fieldLine, hencode] at hhead
    refine (Utf8.mem_encode (by decide : ':'.toNat < 0x80)).mp ?_
    rw [hencode, Option.some.inj hhead]
    exact List.mem_cons_self

/-! ## The fields of a frame -/

variable {event : Event}

theorem fields_plain : ∀ field ∈ event.fields, ':' ∉ field.1 := by
  have hnames : ∀ name ∈ [[], "event".toList, "id".toList, "retry".toList, "data".toList],
      ':' ∉ name := by decide
  exact fun field hfield => hnames field.1 (event.fields_names field hfield)

theorem values_lines (event : Event) (name : String) :
    values name event.lines =
      event.fields.flatMap fun field => if field.1 = name.toList then field.2 else [] := by
  rw [Event.lines, values, List.filterMap_flatMap]
  exact List.flatMap_congr fun field hfield =>
    values_fieldLine (fields_plain field hfield) name field.2

theorem commentsOf_lines (event : Event) : commentsOf event.lines = event.comments := by
  have hlines : commentsOf event.lines =
      event.fields.flatMap fun field => if field.1 = [] then field.2 else [] := by
    rw [Event.lines, commentsOf, List.filterMap_flatMap]
    exact List.flatMap_congr fun field hfield =>
      commentsOf_fieldLine (fields_plain field hfield) field.2
  rw [hlines]
  simp [Event.fields]

/-- The delay in milliseconds is read back. -/
theorem parseRetry_appendInt {retry : Int} (hpos : 0 ≤ retry) (hmillis : retry % millisecond = 0)
    (hrange : retry < 2 ^ 63) : parseRetry (appendInt (retry / millisecond)) = some retry := by
  obtain ⟨k, hk⟩ := Int.eq_ofNat_of_zero_le
    (Int.ediv_nonneg hpos (by decide : (0 : Int) ≤ millisecond))
  have hdigits : (toString (k : Int)).toList = Nat.toDigits 10 k := Nat.toList_repr
  have hretry : retry = k * millisecond := by
    rw [← hk, Int.ediv_mul_cancel_of_emod_eq_zero hmillis]
  have hmax : k ≤ maxRetryMillis := by
    unfold maxRetryMillis
    unfold millisecond at hretry
    omega
  have hbytes : (appendInt k).map (fun b => Char.ofNat b.toNat) = Nat.toDigits 10 k := by
    unfold appendInt
    rw [hdigits]
    refine Utf8.map_encode_ascii fun c hc => ?_
    have hdigit := Nat.isDigit_of_mem_toDigits (by decide) (by decide) hc
    simp only [Char.isDigit, Bool.and_eq_true, decide_eq_true_eq] at hdigit
    exact lt_of_le_of_lt (UInt32.le_iff_toNat_le.mp hdigit.2) (by decide)
  have hne : appendInt k ≠ [] := by
    intro hnil
    rw [hnil] at hbytes
    exact Nat.toDigits_ne_nil hbytes.symm
  rw [hk]
  unfold parseRetry
  rw [if_neg hne, hbytes, Json.parseDigits_toDigits, Option.bind_some, if_pos hmax, hretry]

theorem typePresent_eq_false :
    event.typePresent = false ↔ event.hasType = false ∧ event.type = [] := by
  simp [Event.typePresent]

theorem idPresent_eq_false :
    event.idPresent = false ↔ event.hasID = false ∧ event.id = [] := by
  simp [Event.idPresent]

theorem retryPresent_eq_false :
    event.retryPresent = false ↔ event.hasRetry = false ∧ event.retry = 0 := by
  simp [Event.retryPresent]

/-- The event of a frame. -/
theorem eventOf_lines (h : event.Encodable) (hrange : event.DurationInRange) :
    eventOf event.lines = some event.normalized := by
  have hdata : values "data" event.lines =
      if event.dataPresent then event.dataBytes.splitOn lineFeed else [] := by
    rw [values_lines]
    simp [Event.fields]
  have htype : values "event" event.lines = if event.typePresent then [event.type] else [] := by
    rw [values_lines]
    simp [Event.fields]
  have hids : idsOf event.lines = if event.idPresent then [event.id] else [] := by
    have hid : values "id" event.lines = if event.idPresent then [event.id] else [] := by
      rw [values_lines]
      simp [Event.fields]
    unfold idsOf
    rw [hid]
    cases hpresent : event.idPresent with
    | false => rfl
    | true => simp [(h.id hpresent).2]
  have hretries : retriesOf event.lines = if event.retryPresent then [event.retry] else [] := by
    have hretry : values "retry" event.lines =
        if event.retryPresent then [appendInt (event.retry / millisecond)] else [] := by
      rw [values_lines]
      simp [Event.fields]
    unfold retriesOf
    rw [hretry]
    cases hpresent : event.retryPresent with
    | false => rfl
    | true =>
      obtain ⟨hpos, hmillis⟩ := h.retry hpresent
      simp [parseRetry_appendInt hpos hmillis hrange]
  have hlast {α : Type} {present : Bool} {value default : α} (habsent : present = false →
      value = default) : (if present then [value] else []).getLast?.getD default = value := by
    cases present with
    | false => exact (habsent rfl).symm
    | true => rfl
  have hflag {α : Type} (present : Bool) (value : α) :
      (!(if present then [value] else []).isEmpty) = present := by
    cases present <;> rfl
  have hsplit : event.dataBytes.splitOn lineFeed ≠ [] := List.splitOnP_ne_nil _ _
  have hjoin : [lineFeed].intercalate (event.dataBytes.splitOn lineFeed) = event.dataBytes :=
    List.intercalate_splitOn _
  have hnone : ¬ ((if event.dataPresent then event.dataBytes.splitOn lineFeed else []) = [] ∧
      (if event.typePresent then [event.type] else []) = [] ∧
      (if event.idPresent then [event.id] else []) = [] ∧
      (if event.retryPresent then [event.retry] else []) = [] ∧ event.comments = []) := by
    intro hall
    refine h.nonempty ?_
    simpa [hsplit] using hall
  unfold eventOf eventWith
  rw [hdata, htype, hids, hretries, commentsOf_lines]
  dsimp only
  rw [if_neg hnone, hflag, hflag, hflag, hlast, hlast, hlast]
  · unfold Event.normalized
    cases hpresent : event.dataPresent with
    | false => simp
    | true => simp [hsplit, hjoin]
  · exact fun habsent => (retryPresent_eq_false.mp habsent).2
  · exact fun habsent => (idPresent_eq_false.mp habsent).2
  · exact fun habsent => (typePresent_eq_false.mp habsent).2

/-! ## Frames one after the other -/

theorem SingleLine.plain (h : SingleLine line) :
    Lines.Plain carriageReturn lineFeed line := ⟨h.noReturn, h.noFeed⟩

/-- A field line starts with an ASCII byte, so it is not empty and has no byte
order mark. -/
theorem fieldLine_start (hname : ∀ b ∈ name, b < 0x80) (value : List UInt8) :
    ∃ b rest, fieldLine name value = b :: rest ∧ b < 0x80 := by
  cases name with
  | nil => exact ⟨0x3A, _, rfl, by decide⟩
  | cons b name => exact ⟨b, _, rfl, hname b List.mem_cons_self⟩

theorem lines_start (h : line ∈ event.lines) : ∃ b rest, line = b :: rest ∧ b < 0x80 := by
  have hnames : ∀ name ∈ [[], "event".toList, "id".toList, "retry".toList, "data".toList],
      ∀ b ∈ Utf8.encode name, b < 0x80 := by decide +kernel
  obtain ⟨field, hfield, value, -, rfl⟩ := mem_lines.mp h
  exact fieldLine_start (hnames field.1 (event.fields_names field hfield)) value

/-- The first line of a stream is like any other if it does not start with a byte
order mark. -/
theorem ofWire_first (h : ¬ utf8BOM <+: line) (first : Bool) :
    Line.ofWire first line = Line.ofWire false line := by
  unfold Line.ofWire
  rw [if_neg (fun hbad => h hbad.2), if_neg (fun hbad => h hbad.2)]

theorem no_mark (h : line ∈ event.lines) : ¬ utf8BOM <+: line := by
  obtain ⟨b, rest, rfl, hb⟩ := lines_start h
  intro hmark
  obtain ⟨heq, -⟩ := List.cons_prefix_cons.mp hmark
  rw [← heq] at hb
  exact absurd hb (by decide)

/-- The lines of a stream that starts with some lines and an empty one. -/
theorem wireLines_lines {lines : List (List UInt8)}
    (hplain : ∀ line ∈ lines, Lines.Plain carriageReturn lineFeed line)
    (hmark : ∀ line ∈ lines, ¬ utf8BOM <+: line) (first : Bool) (tail : List UInt8) :
    wireLines first (lines.flatMap (· ++ [lineFeed]) ++ lineFeed :: tail) =
      (lines.map (.ofWire false) ++ .ofWire false [] :: (wireLines false tail).1,
        (wireLines false tail).2) := by
  induction lines generalizing first with
  | nil =>
    have hempty := wireLines_feed Lines.plain_nil first tail
    rw [ofWire_first (by decide)] at hempty
    exact hempty
  | cons line lines ih =>
    rw [List.forall_mem_cons] at hplain hmark
    rw [List.flatMap_cons, List.append_assoc, List.append_assoc, List.singleton_append,
      wireLines_feed hplain.1, ih hplain.2 hmark.2, ofWire_first hmark.1]
    rfl

theorem referenceFrom_lines {limit : Nat} {lines : List Line} (h : ∀ line ∈ lines, line.text ≠ [])
    (block more : List Line) (rest : Line) :
    referenceFrom limit block (lines ++ more) rest =
      referenceFrom limit (block ++ lines) more rest := by
  induction lines generalizing block with
  | nil => rw [List.append_nil, List.nil_append]
  | cons line lines ih =>
    rw [List.forall_mem_cons] at h
    rw [List.cons_append, referenceFrom_line h.1, ih h.2, List.append_assoc, List.singleton_append]

/-- A frame with anything after it. -/
theorem referenceFrom_frame {limit : Nat} (h : event.Encodable) (hrange : event.DurationInRange)
    (hfit : frameBytes event.frame ≤ limit) (more : List Line) (rest : Line) :
    referenceFrom limit [] (event.lines.map (.ofWire false) ++ .ofWire false [] :: more) rest =
      (event.normalized :: (referenceFrom limit [] more rest).1,
        (referenceFrom limit [] more rest).2) := by
  have htext : (event.lines.map (Line.ofWire false)).map Line.text = event.lines := by
    rw [List.map_map]
    exact List.map_id _
  have hsize : (event.lines.map (Line.ofWire false)).map Line.size =
      event.lines.map List.length := List.map_map
  have hne : ∀ line ∈ event.lines.map (Line.ofWire false), line.text ≠ [] := by
    intro line hline
    obtain ⟨wire, hwire, rfl⟩ := List.mem_map.mp hline
    obtain ⟨b, rest, rfl, -⟩ := lines_start hwire
    exact List.cons_ne_nil b rest
  have hclean : blockFault limit 0 ([] ++ event.lines.map (Line.ofWire false) ++
      [Line.ofWire false []]) = none := by
    rw [blockFault_eq_none_iff (Nat.zero_le _)]
    constructor
    · rw [List.nil_append, List.map_append, List.sum_append, hsize, ← frameBytes_frame h]
      simpa using hfit
    · exact List.forall_mem_append.mpr ⟨List.forall_mem_map.mpr fun wire hwire =>
        (h.lines_singleLine wire hwire).valid, List.forall_mem_singleton.mpr (by decide)⟩
  rw [referenceFrom_lines hne, referenceFrom_empty rfl hclean, List.nil_append, htext,
    eventOf_lines h hrange]
  rfl

/-- The frames of events, read one after the other. -/
theorem observed_frames {limit : Nat} {events : List Event} (h : ∀ event ∈ events, event.Encodable)
    (hrange : ∀ event ∈ events, event.DurationInRange)
    (hfit : ∀ event ∈ events, frameBytes event.frame ≤ limit) :
    observed (newDecoder (events.map Event.frame).flatten .eof limit) =
      (events.map Event.normalized, .endOfInput) := by
  rw [observed_eq_reference]
  unfold reference
  generalize true = first
  induction events generalizing first with
  | nil =>
    cases first <;> rfl
  | cons event events ih =>
    rw [List.forall_mem_cons] at h hrange hfit
    have hplain : ∀ line ∈ event.lines, Lines.Plain carriageReturn lineFeed line :=
      fun line hline => (h.1.lines_singleLine line hline).plain
    rw [List.map_cons, List.flatten_cons, frame_eq_lines, List.append_assoc,
      List.singleton_append, wireLines_lines hplain (fun line hline => no_mark hline),
      referenceFrom_frame h.1 hrange.1 hfit.1, ih h.2 hrange.2 hfit.2]
    rfl

theorem Event.Received.normalized_eq (h : event.Received) : event.normalized = event := by
  unfold Event.normalized
  rw [h.dataPresent, h.typePresent, h.idPresent, h.retryPresent]
  have hdata : (if event.hasData then some event.dataBytes else none) = event.data := by
    rw [← h.data]
    unfold Event.dataBytes
    cases event.data <;> rfl
  rw [hdata]

theorem Event.Received.durationInRange (h : event.Received) : event.DurationInRange := by
  obtain ⟨n, hn, hle⟩ := h.retry
  unfold maxRetryMillis at hle
  unfold Event.DurationInRange
  rw [hn]
  unfold millisecond
  omega

/-- Encoding and decoding are inverse to each other. -/
theorem encode_decode_inverse (limit : Nat) :
    (∀ (events : List Event) (frames : List (List UInt8)),
      List.Forall₂ (fun event frame => encode event = .ok frame) events frames →
      (∀ event ∈ events, event.DurationInRange) →
      (∀ frame ∈ frames, frameBytes frame ≤ limit) →
      (decodeAll (newDecoder frames.flatten .eof limit)).1 = events.map Event.normalized ∧
        (decodeAll (newDecoder frames.flatten .eof limit)).2.outcome = .endOfInput) ∧
    ∀ (limit' : Nat) (event : Event), Accepted limit' event →
      ∃ frame, encode event = .ok frame ∧
        (frameBytes frame ≤ limit →
          (decodeAll (newDecoder frame .eof limit)).1 = [event] ∧
            (decodeAll (newDecoder frame .eof limit)).2.outcome = .endOfInput) := by
  constructor
  · intro events frames hencode hrange hfit
    obtain ⟨hencodable, rfl⟩ := encodable_of_encode hencode
    have hframes := observed_frames hencodable hrange
      (fun event hevent => hfit event.frame (List.mem_map_of_mem hevent))
    exact ⟨congrArg Prod.fst hframes, congrArg Prod.snd hframes⟩
  · intro limit' event haccepted
    have hreceived := haccepted.received
    refine ⟨event.frame, encode_eq_ok_iff.mpr ⟨hreceived.encodable, rfl⟩, fun hfit => ?_⟩
    have hframes := observed_frames (List.forall_mem_singleton.mpr hreceived.encodable)
      (List.forall_mem_singleton.mpr hreceived.durationInRange)
      (List.forall_mem_singleton.mpr hfit)
    rw [List.map_singleton, List.map_singleton, List.flatten_singleton,
      hreceived.normalized_eq] at hframes
    exact ⟨congrArg Prod.fst hframes, congrArg Prod.snd hframes⟩

/-- A comment and two lines of data, the second one empty; the flag is set on the
way. -/
theorem encode_decode_inverse_two_lines :
    (decodeAll (newDecoder (Utf8.encode ": k\ndata: a\ndata:\n\n".toList) .eof 64)).1 =
      [{ Event.zero with data := some [0x61, 0x0A], comments := [[0x6B]], hasData := true }] := by
  have hencode : encode { Event.zero with data := some [0x61, 0x0A], comments := [[0x6B]] } =
      .ok (Utf8.encode ": k\ndata: a\ndata:\n\n".toList) := by decide +kernel
  have hdecode := (encode_decode_inverse 64).1 _ _ (.cons hencode .nil)
    (List.forall_mem_singleton.mpr (show (0 : Int) < 2 ^ 63 by decide))
    (List.forall_mem_singleton.mpr (by decide +kernel))
  rw [List.flatten_singleton] at hdecode
  exact hdecode.1

end Streamweld.Sse
