import Streamweld.Lib.Utf8Stream

/-!
# The encoder of server-sent events

Events and their encoder (`internal/proxy/sse/event.go` and `encoder.go`).
Strings and byte slices are lists of bytes, so that text that is not UTF-8 can
be refused.  `Encode` answers the bytes of the frame; a writer that fails is
not modelled.

* `encode_eq_ok_iff`: the events that are accepted, and the frame they give;
* `frame_eq_lines`: a frame is its lines, each ended by a line feed, and an
  empty line;
* `frameBytes_frame`: what a frame weighs without its line feeds.
-/

namespace Streamweld.Sse

open Streamweld.Lib

variable {value : List UInt8} {event : Event}

/-! ## Events -/

/-- `Event`.  A nil `Data` slice is `none`; `retry` is in nanoseconds. -/
structure Event where
  data : Option (List UInt8)
  type : List UInt8
  id : List UInt8
  retry : Int
  comments : List (List UInt8)
  hasData : Bool
  hasType : Bool
  hasID : Bool
  hasRetry : Bool
  deriving DecidableEq, Repr

namespace Event

def zero : Event :=
  { data := none, type := [], id := [], retry := 0, comments := []
    hasData := false, hasType := false, hasID := false, hasRetry := false }

/-- The bytes of the data; a nil slice has none. -/
def dataBytes (event : Event) : List UInt8 := event.data.getD []

-- `Encode` takes a field for present when its flag or its value says so

def dataPresent (event : Event) : Bool := event.hasData || event.data.isSome

def typePresent (event : Event) : Bool := event.hasType || event.type != []

def idPresent (event : Event) : Bool := event.hasID || event.id != []

def retryPresent (event : Event) : Bool := event.hasRetry || event.retry != 0

end Event

/-! ## Validation -/

def lineFeed : UInt8 := 0x0A

def carriageReturn : UInt8 := 0x0D

/-- `time.Millisecond`. -/
def millisecond : Int := 1000000

def errInvalidEvent : String := "sse: invalid event"

def errInvalidUTF8 : String := "sse: invalid UTF-8"

def validateSingleLine (field : String) (value : List UInt8) (rejectNUL : Bool) :
    Except String Unit :=
  if Utf8.valid value = false then
    .error (errInvalidEvent ++ ": " ++ field ++ ": " ++ errInvalidUTF8)
  else if carriageReturn ∈ value ∨ lineFeed ∈ value then
    .error (errInvalidEvent ++ ": " ++ field ++ " contains a line ending")
  else if rejectNUL = true ∧ 0 ∈ value then
    .error (errInvalidEvent ++ ": " ++ field ++ " contains NUL")
  else .ok ()

def validateData (data : List UInt8) : Except String Unit :=
  if Utf8.valid data = false then .error (errInvalidEvent ++ ": data: " ++ errInvalidUTF8)
  else if carriageReturn ∈ data then
    .error (errInvalidEvent ++ ": data contains a carriage return")
  else .ok ()

def validateRetry (retry : Int) : Except String Unit :=
  if retry < 0 then .error (errInvalidEvent ++ ": retry duration is negative")
  else if retry % millisecond ≠ 0 then
    .error (errInvalidEvent ++ ": retry duration is not a whole millisecond")
  else .ok ()

/-- A check that is made only where a field is present. -/
def whenPresent (present : Bool) (check : Except String Unit) : Except String Unit :=
  if present then check else .ok ()

def validateEvent (event : Event) : Except String Unit := do
  whenPresent event.dataPresent (validateData event.dataBytes)
  whenPresent event.typePresent (validateSingleLine "event" event.type false)
  whenPresent event.idPresent (validateSingleLine "id" event.id true)
  whenPresent event.retryPresent (validateRetry event.retry)
  event.comments.forM (validateSingleLine "comment" · false)

/-! ## Encoding -/

def writeField (name value : List UInt8) : List UInt8 :=
  name ++ [0x3A] ++ (if value = [] then [] else 0x20 :: value) ++ [lineFeed]

/-- The decimal digits that `strconv.AppendInt` writes. -/
def appendInt (n : Int) : List UInt8 := Utf8.encode (toString n).toList

/-- The buffer that `Encode` fills. -/
def Event.frame (event : Event) : List UInt8 :=
  event.comments.flatMap (writeField []) ++
  (if event.typePresent then writeField (Utf8.encode "event".toList) event.type else []) ++
  (if event.idPresent then writeField (Utf8.encode "id".toList) event.id else []) ++
  (if event.retryPresent then
    writeField (Utf8.encode "retry".toList) (appendInt (event.retry / millisecond)) else []) ++
  (if event.dataPresent then
    (event.dataBytes.splitOn lineFeed).flatMap (writeField (Utf8.encode "data".toList))
    else []) ++
  [lineFeed]

/-- `Encode`. -/
def encode (event : Event) : Except String (List UInt8) :=
  if event.dataPresent = false ∧ event.typePresent = false ∧ event.idPresent = false ∧
      event.retryPresent = false ∧ event.comments = [] then
    .error (errInvalidEvent ++ ": frame has no recognized fields")
  else (validateEvent event).map fun _ => event.frame

/-! ## The events that are accepted -/

/-- A value that fits on one line. -/
structure SingleLine (value : List UInt8) : Prop where
  valid : Utf8.valid value = true
  noReturn : carriageReturn ∉ value
  noFeed : lineFeed ∉ value

/-- What `Encode` asks of an event. -/
structure Event.Encodable (event : Event) : Prop where
  nonempty : ¬ (event.dataPresent = false ∧ event.typePresent = false ∧
    event.idPresent = false ∧ event.retryPresent = false ∧ event.comments = [])
  data : event.dataPresent = true →
    Utf8.valid event.dataBytes = true ∧ carriageReturn ∉ event.dataBytes
  type : event.typePresent = true → SingleLine event.type
  id : event.idPresent = true → SingleLine event.id ∧ 0 ∉ event.id
  retry : event.retryPresent = true → 0 ≤ event.retry ∧ event.retry % millisecond = 0
  comments : ∀ comment ∈ event.comments, SingleLine comment

theorem validateSingleLine_eq_ok_iff {field : String} {rejectNUL : Bool} :
    validateSingleLine field value rejectNUL = .ok () ↔
      SingleLine value ∧ (rejectNUL = true → 0 ∉ value) := by
  unfold validateSingleLine
  by_cases hvalid : Utf8.valid value = false
  · rw [if_pos hvalid]
    exact ⟨nofun, fun h => absurd h.1.valid (by rw [hvalid]; decide)⟩
  rw [if_neg hvalid]
  by_cases hline : carriageReturn ∈ value ∨ lineFeed ∈ value
  · rw [if_pos hline]
    exact ⟨nofun, fun h => (hline.elim h.1.noReturn h.1.noFeed).elim⟩
  rw [if_neg hline]
  rw [not_or] at hline
  by_cases hnul : rejectNUL = true ∧ 0 ∈ value
  · rw [if_pos hnul]
    exact ⟨nofun, fun h => absurd hnul.2 (h.2 hnul.1)⟩
  · rw [if_neg hnul]
    rw [Bool.not_eq_false] at hvalid
    exact ⟨fun _ => ⟨⟨hvalid, hline.1, hline.2⟩, fun hreject hmem => hnul ⟨hreject, hmem⟩⟩,
      fun _ => rfl⟩

theorem validateData_eq_ok_iff {data : List UInt8} :
    validateData data = .ok () ↔ Utf8.valid data = true ∧ carriageReturn ∉ data := by
  unfold validateData
  by_cases hvalid : Utf8.valid data = false
  · simp [hvalid]
  · by_cases hreturn : carriageReturn ∈ data <;> simp [hvalid, hreturn]

theorem validateRetry_eq_ok_iff {retry : Int} :
    validateRetry retry = .ok () ↔ 0 ≤ retry ∧ retry % millisecond = 0 := by
  unfold validateRetry
  by_cases hneg : retry < 0
  · simp [hneg, not_le.mpr hneg]
  · by_cases hmod : retry % millisecond = 0 <;> simp [hneg, hmod, not_lt.mp hneg]

theorem whenPresent_eq_ok_iff {present : Bool} {check : Except String Unit} :
    whenPresent present check = .ok () ↔ (present = true → check = .ok ()) := by
  cases present <;> simp [whenPresent]

theorem seq_eq_ok_iff {check rest : Except String Unit} :
    (do check; rest) = .ok () ↔ check = .ok () ∧ rest = .ok () := by
  cases check <;> simp [bind, Except.bind]

theorem forM_eq_ok_iff {α : Type} {check : α → Except String Unit} {l : List α} :
    l.forM check = .ok () ↔ ∀ x ∈ l, check x = .ok () := by
  induction l with
  | nil => simp [pure, Except.pure]
  | cons x l ih =>
    rw [List.forall_mem_cons, ← ih]
    exact seq_eq_ok_iff

theorem validateEvent_eq_ok_iff :
    validateEvent event = .ok () ↔
      (event.dataPresent = true →
        Utf8.valid event.dataBytes = true ∧ carriageReturn ∉ event.dataBytes) ∧
      (event.typePresent = true → SingleLine event.type) ∧
      (event.idPresent = true → SingleLine event.id ∧ 0 ∉ event.id) ∧
      (event.retryPresent = true → 0 ≤ event.retry ∧ event.retry % millisecond = 0) ∧
      ∀ comment ∈ event.comments, SingleLine comment := by
  unfold validateEvent
  rw [seq_eq_ok_iff, seq_eq_ok_iff, seq_eq_ok_iff, seq_eq_ok_iff, forM_eq_ok_iff]
  simp only [whenPresent_eq_ok_iff, validateData_eq_ok_iff, validateSingleLine_eq_ok_iff, validateRetry_eq_ok_iff,
    Bool.false_eq_true, false_implies, true_implies, and_true]

theorem encode_eq_ok_iff {frame : List UInt8} :
    encode event = .ok frame ↔ event.Encodable ∧ event.frame = frame := by
  unfold encode
  by_cases hempty : event.dataPresent = false ∧ event.typePresent = false ∧
      event.idPresent = false ∧ event.retryPresent = false ∧ event.comments = []
  · rw [if_pos hempty]
    exact ⟨nofun, fun h => absurd hempty h.1.nonempty⟩
  rw [if_neg hempty]
  cases hvalidate : validateEvent event with
  | error e =>
    refine ⟨nofun, fun h => ?_⟩
    have hok := validateEvent_eq_ok_iff.mpr
      ⟨h.1.data, h.1.type, h.1.id, h.1.retry, h.1.comments⟩
    rw [hvalidate] at hok
    cases hok
  | ok u =>
    obtain ⟨hdata, htype, hid, hretry, hcomments⟩ := validateEvent_eq_ok_iff.mp hvalidate
    constructor
    · intro h
      cases h
      exact ⟨⟨hempty, hdata, htype, hid, hretry, hcomments⟩, rfl⟩
    · rintro ⟨-, rfl⟩
      rfl

/-- The frames of events that are all accepted. -/
theorem encodable_of_encode {events : List Event} {frames : List (List UInt8)}
    (h : List.Forall₂ (fun event frame => encode event = .ok frame) events frames) :
    (∀ event ∈ events, event.Encodable) ∧ events.map Event.frame = frames := by
  induction h with
  | nil => exact ⟨List.forall_mem_nil _, rfl⟩
  | cons hevent _ ih =>
    obtain ⟨hencodable, hframe⟩ := encode_eq_ok_iff.mp hevent
    exact ⟨List.forall_mem_cons.mpr ⟨hencodable, ih.1⟩, by rw [List.map_cons, hframe, ih.2]⟩

/-! ## The lines of a frame -/

/-- A field without its line feed. -/
def fieldLine (name value : List UInt8) : List UInt8 :=
  name ++ 0x3A :: if value = [] then [] else 0x20 :: value

/-- The fields of a frame in its order: a name, which is empty for a comment, and the values
of its lines. -/
def Event.fields (event : Event) : List (List Char × List (List UInt8)) :=
  [([], event.comments),
    ("event".toList, if event.typePresent then [event.type] else []),
    ("id".toList, if event.idPresent then [event.id] else []),
    ("retry".toList, if event.retryPresent then [appendInt (event.retry / millisecond)] else []),
    ("data".toList, if event.dataPresent then event.dataBytes.splitOn lineFeed else [])]

/-- The lines of a frame before the empty one. -/
def Event.lines (event : Event) : List (List UInt8) :=
  event.fields.flatMap fun field => field.2.map (fieldLine (Utf8.encode field.1))

theorem Event.fields_names (event : Event) :
    ∀ field ∈ event.fields, field.1 ∈
      [[], "event".toList, "id".toList, "retry".toList, "data".toList] :=
  fun _ hfield => List.mem_map_of_mem hfield (f := Prod.fst)

theorem mem_lines {line : List UInt8} :
    line ∈ event.lines ↔
      ∃ field ∈ event.fields, ∃ value ∈ field.2, fieldLine (Utf8.encode field.1) value = line := by
  simp only [Event.lines, List.mem_flatMap, List.mem_map]

theorem writeField_eq (name value : List UInt8) :
    writeField name value = fieldLine name value ++ [lineFeed] := by
  unfold writeField fieldLine
  rw [List.append_assoc name, List.singleton_append]

theorem frame_eq_lines (event : Event) :
    event.frame = event.lines.flatMap (· ++ [lineFeed]) ++ [lineFeed] := by
  have hfields (name : List UInt8) (values : List (List UInt8)) :
      (values.map (fieldLine name)).flatMap (· ++ [lineFeed]) =
        values.flatMap (writeField name) := by
    rw [List.flatMap_map]
    exact congrArg (values.flatMap ·) (funext fun value => (writeField_eq name value).symm)
  have hfield (present : Bool) (name : List UInt8) (values : List (List UInt8)) :
      (if present then values else []).flatMap (writeField name) =
        if present then values.flatMap (writeField name) else [] := by
    cases present <;> rfl
  unfold Event.frame Event.lines Event.fields
  simp only [List.flatMap_cons, List.flatMap_nil, List.append_nil, List.flatMap_append, hfields,
    hfield, List.append_assoc]
  rfl

/-- The bytes of a frame that are not line feeds. -/
def frameBytes (frame : List UInt8) : Nat := frame.countP (· != lineFeed)

theorem frameBytes_of_noFeed {line : List UInt8} (h : lineFeed ∉ line) :
    frameBytes line = line.length := by
  rw [frameBytes, List.countP_eq_length]
  intro b hb
  rw [bne_iff_ne]
  exact fun heq => h (heq ▸ hb)

theorem frameBytes_lines {lines : List (List UInt8)} (h : ∀ line ∈ lines, lineFeed ∉ line) :
    frameBytes (lines.flatMap (· ++ [lineFeed])) = (lines.map List.length).sum := by
  induction lines with
  | nil => rfl
  | cons line lines ih =>
    rw [List.forall_mem_cons] at h
    have hline := frameBytes_of_noFeed h.1
    have hrest := ih h.2
    unfold frameBytes at hline hrest ⊢
    rw [List.flatMap_cons, List.countP_append, List.countP_append, hline, hrest]
    rfl

/-- A line is the encoding of a text without line endings. -/
theorem singleLine_iff :
    SingleLine value ↔ ∃ text, Utf8.encode text = value ∧ '\r' ∉ text ∧ '\n' ∉ text := by
  have hreturn (text : List Char) : carriageReturn ∈ Utf8.encode text ↔ '\r' ∈ text :=
    Utf8.mem_encode (by decide : '\r'.toNat < 0x80)
  have hfeed (text : List Char) : lineFeed ∈ Utf8.encode text ↔ '\n' ∈ text :=
    Utf8.mem_encode (by decide : '\n'.toNat < 0x80)
  constructor
  · intro h
    obtain ⟨text, rfl⟩ := Utf8.valid_iff.mp h.valid
    exact ⟨text, rfl, mt (hreturn text).mpr h.noReturn, mt (hfeed text).mpr h.noFeed⟩
  · rintro ⟨text, rfl, hr, hn⟩
    exact ⟨Utf8.valid_encode text, mt (hreturn text).mp hr, mt (hfeed text).mp hn⟩

theorem SingleLine.nil : SingleLine [] :=
  singleLine_iff.mpr ⟨[], rfl, List.not_mem_nil, List.not_mem_nil⟩

theorem SingleLine.append {a b : List UInt8} (ha : SingleLine a) (hb : SingleLine b) :
    SingleLine (a ++ b) := by
  obtain ⟨text, rfl, hr, hn⟩ := singleLine_iff.mp ha
  obtain ⟨more, rfl, hr', hn'⟩ := singleLine_iff.mp hb
  refine singleLine_iff.mpr ⟨text ++ more, Utf8.encode_append text more, ?_, ?_⟩
  · exact fun h => (List.mem_append.mp h).elim hr hr'
  · exact fun h => (List.mem_append.mp h).elim hn hn'

theorem SingleLine.fieldLine {name : List UInt8} (hname : SingleLine name)
    (hvalue : SingleLine value) : SingleLine (fieldLine name value) := by
  have hcolon : SingleLine [0x3A] := ⟨by decide, by decide, by decide⟩
  have hspace : SingleLine [0x20] := ⟨by decide, by decide, by decide⟩
  unfold Sse.fieldLine
  split
  · exact hname.append hcolon
  · exact hname.append (hcolon.append (hspace.append hvalue))

theorem digit_of_mem_toString {n : Int} (hn : 0 ≤ n) {c : Char} (hc : c ∈ (toString n).toList) :
    c.isDigit = true := by
  obtain ⟨k, rfl⟩ := Int.eq_ofNat_of_zero_le hn
  have hdigits : (toString (k : Int)).toList = Nat.toDigits 10 k := Nat.toList_repr
  rw [hdigits] at hc
  exact Nat.isDigit_of_mem_toDigits (by decide) (by decide) hc

theorem SingleLine.appendInt {n : Int} (hn : 0 ≤ n) : SingleLine (appendInt n) := by
  refine singleLine_iff.mpr ⟨_, rfl, ?_, ?_⟩
  · exact fun h => absurd (digit_of_mem_toString hn h) (by decide)
  · exact fun h => absurd (digit_of_mem_toString hn h) (by decide)

/-- A piece of a list that was cut at an element is a part of it without the
element. -/
theorem of_mem_splitOn {data piece : List Char} {x : Char} (h : piece ∈ data.splitOn x) :
    x ∉ piece ∧ ∀ c ∈ piece, c ∈ data := by
  induction data generalizing piece with
  | nil =>
    rw [show List.splitOn x [] = [[]] from rfl, List.mem_singleton] at h
    subst h
    exact ⟨List.not_mem_nil, List.forall_mem_nil _⟩
  | cons d data ih =>
    rw [List.splitOn, List.splitOnP_cons_eq_if_modifyHead] at h
    change piece ∈ if (d == x) = true then [] :: data.splitOn x
      else List.modifyHead (List.cons d) (data.splitOn x) at h
    have hrest {piece : List Char} (hpiece : piece ∈ data.splitOn x) :
        x ∉ piece ∧ ∀ c ∈ piece, c ∈ d :: data :=
      ⟨(ih hpiece).1, fun c hc => List.mem_cons_of_mem d ((ih hpiece).2 c hc)⟩
    by_cases hd : (d == x) = true
    · rw [if_pos hd, List.mem_cons] at h
      obtain rfl | h := h
      · exact ⟨List.not_mem_nil, List.forall_mem_nil _⟩
      · exact hrest h
    · rw [if_neg hd] at h
      cases hsplit : data.splitOn x with
      | nil => simp [hsplit] at h
      | cons first pieces =>
        rw [hsplit, List.modifyHead_cons, List.mem_cons] at h
        rw [hsplit] at hrest
        obtain rfl | h := h
        · obtain ⟨hfirst, hmem⟩ := hrest (List.mem_cons_self (a := first))
          refine ⟨?_, List.forall_mem_cons.mpr ⟨List.mem_cons_self, hmem⟩⟩
          rw [List.mem_cons, not_or]
          exact ⟨fun heq => hd (beq_iff_eq.mpr heq.symm), hfirst⟩
        · exact hrest (List.mem_cons_of_mem _ h)

theorem SingleLine.of_mem_split {data piece : List UInt8} (hvalid : Utf8.valid data = true)
    (hreturn : carriageReturn ∉ data) (h : piece ∈ data.splitOn lineFeed) : SingleLine piece := by
  obtain ⟨text, rfl⟩ := Utf8.valid_iff.mp hvalid
  have hsplit : (Utf8.encode text).splitOn lineFeed = (text.splitOn '\n').map Utf8.encode :=
    Utf8.splitOn_encode (by decide : '\n'.toNat < 0x80) text
  rw [hsplit] at h
  obtain ⟨part, hpart, rfl⟩ := List.mem_map.mp h
  obtain ⟨hfeed, hmem⟩ := of_mem_splitOn hpart
  refine singleLine_iff.mpr ⟨part, rfl, fun hr => hreturn ?_, hfeed⟩
  exact (Utf8.mem_encode (by decide : '\r'.toNat < 0x80)).mpr (hmem _ hr)

theorem Event.Encodable.values_singleLine (h : event.Encodable) :
    ∀ field ∈ event.fields, ∀ value ∈ field.2, SingleLine value := by
  have hone {present : Bool} {values : List (List UInt8)}
      (hvalues : present = true → ∀ value ∈ values, SingleLine value) :
      ∀ value ∈ if present then values else [], SingleLine value := by
    cases present with
    | false => exact List.forall_mem_nil _
    | true => exact hvalues rfl
  unfold Event.fields
  simp only [List.forall_mem_cons]
  refine ⟨h.comments, hone fun hpresent => ?_, hone fun hpresent => ?_, hone fun hpresent => ?_,
    hone fun hpresent piece hpiece => ?_, List.forall_mem_nil _⟩
  · exact List.forall_mem_singleton.mpr (h.type hpresent)
  · exact List.forall_mem_singleton.mpr (h.id hpresent).1
  · exact List.forall_mem_singleton.mpr
      (.appendInt (Int.ediv_nonneg (h.retry hpresent).1 (by decide)))
  · exact .of_mem_split (h.data hpresent).1 (h.data hpresent).2 hpiece

theorem Event.Encodable.lines_singleLine (h : event.Encodable) :
    ∀ line ∈ event.lines, SingleLine line := by
  have hnames : ∀ name ∈ [[], "event".toList, "id".toList, "retry".toList, "data".toList],
      '\r' ∉ name ∧ '\n' ∉ name := by decide
  intro line hline
  obtain ⟨field, hfield, value, hvalue, rfl⟩ := mem_lines.mp hline
  obtain ⟨hreturn, hfeed⟩ := hnames field.1 (event.fields_names field hfield)
  exact (singleLine_iff.mpr ⟨field.1, rfl, hreturn, hfeed⟩).fieldLine
    (h.values_singleLine field hfield value hvalue)

/-- The lines of a frame that stand in its bytes. -/
theorem splitOn_lines {lines : List (List UInt8)} (h : ∀ line ∈ lines, lineFeed ∉ line)
    (rest : List UInt8) :
    (lines.flatMap (· ++ [lineFeed]) ++ rest).splitOn lineFeed =
      lines ++ rest.splitOn lineFeed := by
  induction lines with
  | nil => rfl
  | cons line lines ih =>
    rw [List.forall_mem_cons] at h
    have hline : line.splitOn lineFeed = [line] := by
      refine List.splitOnP_eq_singleton fun b hb => ?_
      rw [beq_eq_false_iff_ne]
      exact fun heq => h.1 (heq ▸ hb)
    have hcut (more : List UInt8) : (line ++ lineFeed :: more).splitOn lineFeed =
        line.splitOn lineFeed ++ more.splitOn lineFeed :=
      List.splitOnP_append_cons _ _ (by simp)
    rw [List.flatMap_cons, List.append_assoc, List.append_assoc, List.singleton_append, hcut,
      hline, ih h.2]
    rfl

theorem splitOn_frame (h : event.Encodable) :
    event.frame.splitOn lineFeed = event.lines ++ [[], []] := by
  rw [frame_eq_lines, splitOn_lines fun line hline => (h.lines_singleLine line hline).noFeed]
  rfl

/-- A frame weighs what its lines do. -/
theorem frameBytes_frame (h : event.Encodable) :
    frameBytes event.frame = (event.lines.map List.length).sum := by
  have hlines := frameBytes_lines fun line hline => (h.lines_singleLine line hline).noFeed
  unfold frameBytes at hlines ⊢
  rw [frame_eq_lines, List.countP_append, hlines]
  rfl

end Streamweld.Sse
