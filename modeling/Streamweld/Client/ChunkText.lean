import Streamweld.Proxy.ChunkReading

/-!
# The text that the clients show of a chunk

`extractTextDelta` of the TypeScript client (`packages/client/src/protocol.ts`) and
`parseOpenAIChunk` of the AI SDK adapter (`packages/ai-sdk/src/index.ts`), and how they agree
with the proxy's `observeOpenAIChunk`.

The data of a chunk is what `JSON.parse` makes of it: a property is the last member of
exactly that name.  A number is its literal; the readers only ask whether it is zero.

The proxy reads names without regard to case and puts the choices of a payload together from
all members of that name, so payloads are compared whose names are `Spelled` as the clients
look for them.  Of these the proxy takes more for a chunk with text than the adapter: it skips
an error, a choice or a delta that is `null`, it does without `choices`, and it takes an empty
list of tool calls for none.  `Readable` says which ones all three read alike
(`chunk_readers_agree_iff`).
-/

namespace Streamweld.Client

open Streamweld.Lib Streamweld.Lib.Json Streamweld.Migrate Streamweld.Proxy

variable {choice : List (String × Json)}

/-! ## The client -/

/-- `asRecord` of `protocol.ts`. -/
def asRecord : Json → Option (List (String × Json))
  | .obj members => some members
  | _ => none

/-- `value === 0`. -/
def isZero : Option Json → Bool
  | some (.num literal) => literalIsZero literal
  | _ => false

/-- The choice that `extractTextDelta` reads: the first one with the index zero, and otherwise
the first one if it has no index. -/
def candidateChoice (choices : List Json) : Option Json :=
  match choices.find? fun choice => isZero ((asRecord choice).bind (property "index")) with
  | some choice => some choice
  | none =>
    if ((choices.head?.bind asRecord).bind (property "index")).isNone then choices.head? else none

/-- The content of the delta of a choice. -/
def deltaContent (choice : List (String × Json)) : Option String :=
  (((property "delta" choice).bind asRecord).bind (property "content")).bind stringOf

/-- The text of a choice for the client: its `text`, and otherwise the content of its delta. -/
def choiceDelta (choice : List (String × Json)) : Option String :=
  ((property "text" choice).bind stringOf).or (deltaContent choice)

def extractTextDelta (data : Json) : Option String :=
  match (asRecord data).bind (property "choices") with
  | some (.arr choices) => ((candidateChoice choices).bind asRecord).bind choiceDelta
  | _ => none

/-! ## The adapter -/

/-- `UIMessageFinishReason`. -/
inductive UIMessageFinishReason where
  | stop | length | contentFilter | toolCalls | error | other | unknown
  deriving DecidableEq, Repr

/-- `normalizeFinishReason`. -/
def normalizeFinishReason : Option Json → Option UIMessageFinishReason
  | some (.str s) =>
    if s = "content_filter" then some .contentFilter
    else if s = "tool_calls" ∨ s = "function_call" then some .toolCalls
    else if s = "stop" then some .stop
    else if s = "length" then some .length
    else if s = "content-filter" then some .contentFilter
    else if s = "tool-calls" then some .toolCalls
    else if s = "error" then some .error
    else if s = "other" then some .other
    else some .unknown
  | some .null => none
  | none => none
  | some _ => some .unknown

structure ParsedChunk where
  deltas : List String
  finishReason : Option UIMessageFinishReason
  deriving DecidableEq, Repr

/-- What `parseOpenAIChunk` throws. -/
inductive ChunkError where
  | typeError (message : String)
  | unsupportedStreamPayload (message : String)
  deriving DecidableEq, Repr

/-- `asRecord` of the adapter: a member that is absent reads as an empty object. -/
def asObject (label : String) : Option Json → Except ChunkError (List (String × Json))
  | none => .ok []
  | some (.obj members) => .ok members
  | some _ => .error (.typeError (label ++ " must be an object"))

/-- The number of a choice: its index, and otherwise its position. -/
def choiceIndex (position : Nat) : Option Json → String
  | some (.num literal) => literal
  | _ => toString position

/-- The deltas that the content of a choice adds. -/
def contentDeltas (first : Bool) : Option Json → Except ChunkError (List String)
  | none => .ok []
  | some .null => .ok []
  | some (.str content) =>
    if content = "" then .ok []
    else if first then .ok [content]
    else .error (.unsupportedStreamPayload
      "StreamweldChatTransport supports only the first OpenAI completion choice")
  | some _ =>
    if first then
      .error (.unsupportedStreamPayload "OpenAI streamed delta.content must be a string")
    else .error (.unsupportedStreamPayload
      "StreamweldChatTransport supports only the first OpenAI completion choice")

/-- The rest of a turn of the loop of `parseOpenAIChunk`, when the choice and its delta are
known. -/
def addChoice (first : Bool) (choice delta : List (String × Json)) (parsed : ParsedChunk) :
    Except ChunkError ParsedChunk := do
  let deltas ← contentDeltas first (property "content" delta)
  if first then
    if (property "tool_calls" delta).isSome ∨ (property "function_call" delta).isSome then
      throw (.unsupportedStreamPayload
        "Streaming tool calls are not supported by StreamweldChatTransport")
    else
      return { deltas := parsed.deltas ++ deltas
               finishReason :=
                (normalizeFinishReason (property "finish_reason" choice)).or parsed.finishReason }
  else
    return { parsed with deltas := parsed.deltas ++ deltas }

/-- One turn of the loop of `parseOpenAIChunk`. -/
def parseChoice (position : Nat) (value : Json) (parsed : ParsedChunk) :
    Except ChunkError ParsedChunk := do
  let choice ← asObject ("OpenAI stream choice " ++ toString position) (some value)
  let index := choiceIndex position (property "index" choice)
  let delta ← asObject ("OpenAI stream choice " ++ index ++ " delta") (property "delta" choice)
  addChoice (literalIsZero index) choice delta parsed

/-- The loop of `parseOpenAIChunk`, from a position on. -/
def parseChoices (position : Nat) : List Json → ParsedChunk → Except ChunkError ParsedChunk
  | [], parsed => .ok parsed
  | value :: rest, parsed => (parseChoice position value parsed).bind (parseChoices (position + 1) rest)

def parseOpenAIChunk (value : Json) : Except ChunkError ParsedChunk := do
  let record ← asObject "OpenAI stream chunk" (some value)
  if (property "error" record).isSome then
    throw (.unsupportedStreamPayload "OpenAI stream chunk contained an error object")
  match property "choices" record with
  | some (.arr choices) => parseChoices 0 choices { deltas := [], finishReason := none }
  | _ =>
    throw (.unsupportedStreamPayload "OpenAI stream chunk is missing a choices array")

/-! ## Payloads that all read alike -/

/-- The adapter takes a content that is a string, `null` or absent. -/
def ReadableContent : Option Json → Prop
  | none | some .null | some (.str _) => True
  | some _ => False

/-- The adapter takes a delta that is absent, or an object without calls. -/
def ReadableDelta : Option Json → Prop
  | none => True
  | some (.obj delta) =>
    property "tool_calls" delta = none ∧ property "function_call" delta = none ∧
      ReadableContent (property "content" delta)
  | some _ => False

/-- A choice is an object with such a delta, and its `text` is no string, or it is empty like
the content of the delta. -/
def ReadableChoice : Json → Prop
  | .obj choice =>
    ReadableDelta (property "delta" choice) ∧
      ∀ text, property "text" choice = some (.str text) →
        text = "" ∧ (deltaContent choice).getD "" = ""
  | _ => False

/-- A payload is an object without an error and with an array of readable choices. -/
def Readable : Json → Prop
  | .obj members =>
    property "error" members = none ∧
      ∃ choices, property "choices" members = some (.arr choices) ∧
        ∀ choice ∈ choices, ReadableChoice choice
  | _ => False

/-- The names that lead to the text of a payload are spelled exactly, and `choices` occurs once
at most. -/
structure Spelled (payload : Json) : Prop where
  choices : Sole "choices" (membersOf payload)
  choice : ∀ choice ∈ choiceElements (membersOf payload), SpelledChoice (membersOf choice)

/-- Both clients take a text from a payload. -/
def ReadAs (payload : Json) (text : Text) : Prop :=
  textOf (extractTextDelta payload) = text ∧
    ∃ parsed, parseOpenAIChunk payload = .ok parsed ∧ parsed.deltas.flatMap String.toList = text

/-! ## The first choice -/

/-- A choice whose indices are zero is the first one for the adapter. -/
theorem choiceIndex_zero (h : ∀ value ∈ membersWith (folds "index") choice, IndexZero value) :
    literalIsZero (choiceIndex 0 (property "index" choice)) = true := by
  cases hindex : property "index" choice with
  | none => decide
  | some value =>
    obtain ⟨literal, rfl, hliteral⟩ := h value (property_mem hindex)
    exact literalIsZero_of_parseInt hliteral

/-- Such a choice is the one that the client reads. -/
theorem candidateChoice_single (h : ∀ value ∈ membersWith (folds "index") choice, IndexZero value) :
    candidateChoice [.obj choice] = some (.obj choice) := by
  unfold candidateChoice
  cases hindex : property "index" choice with
  | none => simp [asRecord, hindex, isZero]
  | some value =>
    obtain ⟨literal, rfl, hliteral⟩ := h value (property_mem hindex)
    simp [asRecord, hindex, isZero, literalIsZero_of_parseInt hliteral]

/-! ## What the adapter takes -/

theorem contentDeltas_ok_iff {content : Option Json} {deltas : List String} :
    contentDeltas true content = .ok deltas ↔
      ReadableContent content ∧ deltas = ((content.bind stringOf).filter (· ≠ "")).toList := by
  cases content with
  | none => simp [contentDeltas, ReadableContent, eq_comm]
  | some value =>
    cases value with
    | str s => by_cases hs : s = "" <;> simp [contentDeltas, ReadableContent, stringOf, hs, eq_comm, Option.filter_some]
    | null => simp [contentDeltas, ReadableContent, stringOf, eq_comm]
    | _ => simp [contentDeltas, ReadableContent]

/-- The deltas of a content are its text. -/
theorem deltas_text (content : Option String) :
    ((content.filter (· ≠ "")).toList).flatMap String.toList = textOf content := by
  cases content with
  | none => rfl
  | some s => by_cases hs : s = "" <;> simp [textOf, hs, Option.filter_some]

theorem addChoice_ok_iff {delta : List (String × Json)} {parsed parsed' : ParsedChunk} :
    addChoice true choice delta parsed = .ok parsed' ↔
      property "tool_calls" delta = none ∧ property "function_call" delta = none ∧
        ReadableContent (property "content" delta) ∧
        parsed' =
          { deltas := parsed.deltas ++
              (((property "content" delta).bind stringOf).filter (· ≠ "")).toList
            finishReason :=
              (normalizeFinishReason (property "finish_reason" choice)).or parsed.finishReason } := by
  unfold addChoice
  cases hdeltas : contentDeltas true (property "content" delta) with
  | error e =>
    have hnot : ¬ ReadableContent (property "content" delta) := fun hcontent => by
      have hok := contentDeltas_ok_iff.mpr ⟨hcontent, rfl⟩
      rw [hdeltas] at hok
      cases hok
    simp [bind, Except.bind, hnot]
  | ok deltas =>
    obtain ⟨hcontent, rfl⟩ := contentDeltas_ok_iff.mp hdeltas
    cases htools : property "tool_calls" delta <;>
      cases hfunction : property "function_call" delta <;>
      simp [bind, Except.bind, pure, Except.pure, throw, throwThe, MonadExceptOf.throw, hcontent,
        eq_comm]

/-- What the adapter takes from a first choice. -/
theorem parseChoice_ok_iff {text : Text}
    (hzero : literalIsZero (choiceIndex 0 (property "index" choice)) = true) :
    (∃ parsed, parseChoice 0 (.obj choice) ⟨[], none⟩ = .ok parsed ∧
      parsed.deltas.flatMap String.toList = text) ↔
      ReadableDelta (property "delta" choice) ∧ textOf (deltaContent choice) = text := by
  have hparse : ∀ delta, (∃ parsed, addChoice true choice delta ⟨[], none⟩ = .ok parsed ∧
      parsed.deltas.flatMap String.toList = text) ↔
      (property "tool_calls" delta = none ∧ property "function_call" delta = none ∧
        ReadableContent (property "content" delta)) ∧
        textOf ((property "content" delta).bind stringOf) = text := by
    intro delta
    constructor
    · rintro ⟨parsed, hparsed, htext⟩
      obtain ⟨htools, hfunction, hcontent, rfl⟩ := addChoice_ok_iff.mp hparsed
      exact ⟨⟨htools, hfunction, hcontent⟩, (deltas_text _).symm.trans htext⟩
    · rintro ⟨⟨htools, hfunction, hcontent⟩, htext⟩
      exact ⟨_, addChoice_ok_iff.mpr ⟨htools, hfunction, hcontent, rfl⟩,
        (deltas_text _).trans htext⟩
  unfold parseChoice deltaContent
  simp only [asObject, hzero, bind, Except.bind]
  cases property "delta" choice with
  | none =>
    rw [hparse]
    simp [ReadableDelta, ReadableContent, property, membersWith]
  | some value =>
    cases value with
    | obj delta =>
      rw [hparse]
      simp [ReadableDelta, asRecord]
    | _ => simp [ReadableDelta]

theorem parseOpenAIChunk_ok_iff {members : List (String × Json)} {parsed : ParsedChunk} :
    parseOpenAIChunk (.obj members) = .ok parsed ↔
      property "error" members = none ∧ ∃ choices, property "choices" members = some (.arr choices) ∧
        parseChoices 0 choices ⟨[], none⟩ = .ok parsed := by
  unfold parseOpenAIChunk
  simp only [asObject, bind, Except.bind]
  cases property "error" members with
  | some _ => simp [throw, throwThe, MonadExceptOf.throw]
  | none =>
    cases property "choices" members with
    | none => simp [throw, throwThe, MonadExceptOf.throw]
    | some value => cases value <;> simp [throw, throwThe, MonadExceptOf.throw]

/-! ## Agreement -/

theorem exactContent_delta (choice : List (String × Json)) :
    exactContent (property "delta" choice) = deltaContent choice := by
  rw [exactContent, deltaContent]
  cases property "delta" choice with
  | none => rfl
  | some delta => cases delta <;> rfl

theorem textOf_eq_nil_iff {s : Option String} : textOf s = [] ↔ s.getD "" = "" := by
  rw [textOf, ← String.toList_inj]
  rfl

/-- Both clients take the proxy's text from the only choice of an array exactly when the choice
is readable. -/
theorem choice_read (hzero : ∀ value ∈ membersWith (folds "index") choice, IndexZero value)
    (hspelled : SpelledChoice choice) :
    (textOf (choiceDelta choice) = choiceText choice ∧
      ∃ parsed, parseChoices 0 [.obj choice] ⟨[], none⟩ = .ok parsed ∧
        parsed.deltas.flatMap String.toList = choiceText choice) ↔
      ReadableChoice (.obj choice) := by
  have hloop : parseChoices 0 [.obj choice] ⟨[], none⟩ = parseChoice 0 (.obj choice) ⟨[], none⟩ := by
    simp only [parseChoices]
    cases parseChoice 0 (.obj choice) ⟨[], none⟩ <;> rfl
  rw [hloop, parseChoice_ok_iff (choiceIndex_zero hzero), choiceText_spelled hspelled,
    exactContent_delta]
  unfold ReadableChoice choiceDelta
  have hlegacy (text : String) : property "text" choice = some (.str text) ↔
      (property "text" choice).bind stringOf = some text := by
    cases property "text" choice with
    | none => simp
    | some value => cases value <;> simp [stringOf]
  simp only [hlegacy]
  cases (property "text" choice).bind stringOf with
  | none => simp [textOf]
  | some legacy =>
    -- what the client shows has no content, and what the adapter shows has no legacy text
    rw [Option.some_or, List.self_eq_append_right, List.self_eq_append_left, textOf_eq_nil_iff,
      textOf_eq_nil_iff]
    simp only [Option.getD_some, Option.some.injEq, forall_eq']
    exact ⟨fun h => ⟨h.2.1, h.2.2, h.1⟩, fun h => ⟨h.2.2, h.1, h.2.1⟩⟩

/-- A chat chunk for the proxy: a payload with one choice at most, whose index is zero or
absent, that `observeOpenAIChunk` accepts without an error and without a tool call. -/
structure ChatChunk (payload : Json) (observation : ChunkObservation) : Prop where
  accepted : observeOpenAIChunk payload = some observation
  noError : observation.errorPayload = none
  noToolCall : observation.toolCall = false
  sole : SingleChoice (membersOf payload)

/-- Both clients take the proxy's text from a chunk exactly when the payload is readable. -/
theorem readAs_observed_iff {payload : Json} {observation : ChunkObservation}
    (h : ChatChunk payload observation) (hspelled : Spelled payload) :
    ReadAs payload observation.textDelta ↔ Readable payload := by
  cases payload with
  | obj members =>
    have hsole : SingleChoice members := h.sole
    have htext := observe_text hspelled.choices h.accepted
    change _ = (choiceElements members).flatMap elementText at htext
    have hchoice : ∀ choice ∈ choiceElements members, SpelledChoice (membersOf choice) :=
      hspelled.choice
    unfold choiceElements at htext hchoice
    have hread : ∀ choices, property "choices" members = some (.arr choices) →
        ((textOf (extractTextDelta (.obj members)) = observation.textDelta ∧
          ∃ parsed, parseChoices 0 choices ⟨[], none⟩ = .ok parsed ∧
            parsed.deltas.flatMap String.toList = observation.textDelta) ↔
          ∀ choice ∈ choices, ReadableChoice choice) := by
      intro choices hchoices
      have hsingle := hsole.single _ (property_mem hchoices)
      have hindex := hsole.index _ (property_mem hchoices)
      rw [hchoices] at htext hchoice
      change _ = choices.flatMap elementText at htext
      have hextract : extractTextDelta (.obj members) =
          ((candidateChoice choices).bind asRecord).bind choiceDelta := by
        simp only [extractTextDelta, asRecord, Option.bind_some, hchoices]
      rw [hextract, htext]
      cases choices with
      | nil => simp [candidateChoice, parseChoices, textOf]
      | cons value rest =>
        obtain rfl : rest = [] :=
          List.eq_nil_of_length_eq_zero (by simpa [elementsOf] using hsingle)
        cases value with
        | obj choice =>
          have hzero : ∀ value ∈ membersWith (folds "index") choice, IndexZero value :=
            hindex (.obj choice) List.mem_cons_self
          have hobserved : [Json.obj choice].flatMap elementText = choiceText choice := by
            simp [elementText, membersOf,
              observedIndex_zero fun value hvalue => .inr (hzero value hvalue)]
          rw [candidateChoice_single hzero, hobserved]
          simpa [asRecord] using choice_read hzero (hchoice _ List.mem_cons_self)
        | _ => simp [parseChoices, parseChoice, asObject, bind, Except.bind, ReadableChoice]
    constructor
    · rintro ⟨hextract, parsed, hparse, hdeltas⟩
      obtain ⟨herror, choices, hchoices, hloop⟩ := parseOpenAIChunk_ok_iff.mp hparse
      exact ⟨herror, choices, hchoices,
        (hread choices hchoices).mp ⟨hextract, parsed, hloop, hdeltas⟩⟩
    · rintro ⟨herror, choices, hchoices, hreadable⟩
      obtain ⟨hextract, parsed, hloop, hdeltas⟩ := (hread choices hchoices).mpr hreadable
      exact ⟨hextract, parsed, parseOpenAIChunk_ok_iff.mpr ⟨herror, choices, hchoices, hloop⟩,
        hdeltas⟩
  | null =>
    refine iff_of_false ?_ id
    rintro ⟨_, parsed, hparse, _⟩
    exact absurd hparse (by simp [parseOpenAIChunk, asObject, bind, Except.bind])
  | _ => exact absurd h.accepted (by simp [observeOpenAIChunk, decodeStruct])

/-! ## Journals -/

/-- The text that the client's `text` iterable yields for the chunks of a journal. -/
def shownText (journal : List Json) : Text :=
  ((journal.filterMap extractTextDelta).filter (· ≠ "")).flatMap String.toList

/-- The text deltas that the adapter yields for the chunks of a journal. -/
def adaptedText : List Json → Except ChunkError Text
  | [] => .ok []
  | payload :: rest => do
    let parsed ← parseOpenAIChunk payload
    let text ← adaptedText rest
    return parsed.deltas.flatMap String.toList ++ text

/-- The text that the proxy has accumulated. -/
def accumulatedText (journal : List Json) : Text :=
  ((journal.filterMap (observeOpenAIChunk ·)).foldl StreamProgress.apply .zero).text

theorem apply_foldl_text (observations : List ChunkObservation) (p : StreamProgress) :
    (observations.foldl StreamProgress.apply p).text =
      p.text ++ observations.flatMap ChunkObservation.textDelta := by
  induction observations generalizing p with
  | nil => exact (List.append_nil _).symm
  | cons observation observations ih =>
    rw [List.foldl_cons, ih, StreamProgress.apply_text, List.flatMap_cons, List.append_assoc]

/-- A journal of readable chunks has the proxy's text for both clients. -/
theorem journal_text {journal : List Json}
    (h : ∀ payload ∈ journal, Spelled payload ∧ Readable payload ∧
      ∃ observation, ChatChunk payload observation) :
    shownText journal = accumulatedText journal ∧
      adaptedText journal = .ok (accumulatedText journal) := by
  have haccumulated : accumulatedText journal =
      (journal.filterMap (observeOpenAIChunk ·)).flatMap ChunkObservation.textDelta := by
    rw [accumulatedText, apply_foldl_text]
    rfl
  rw [haccumulated]
  clear haccumulated
  induction journal with
  | nil => exact ⟨rfl, rfl⟩
  | cons payload journal ih =>
    obtain ⟨⟨hspelled, hreadable, observation, hchunk⟩, hjournal⟩ := List.forall_mem_cons.mp h
    obtain ⟨hshown, hadapted⟩ := ih hjournal
    obtain ⟨hextract, parsed, hparse, hdeltas⟩ :=
      (readAs_observed_iff hchunk hspelled).mpr hreadable
    rw [List.filterMap_cons, hchunk.accepted, List.flatMap_cons]
    constructor
    · -- a delta that is empty or absent is not yielded, and adds nothing
      rw [← hextract, ← hshown]
      unfold shownText
      rw [List.filterMap_cons]
      cases extractTextDelta payload with
      | none => rfl
      | some delta =>
        by_cases hempty : delta = ""
        · subst hempty
          rfl
        · rw [List.filter_cons_of_pos (by simpa using hempty)]
          rfl
    · rw [adaptedText, hparse, hadapted, ← hdeltas]
      rfl

/-! ## The result -/

/-- A chunk of a chat with one choice. -/
def chatPayload (delta : Json) (more : List (String × Json)) : Json :=
  .obj (("choices", .arr [.obj [("index", .num "0"), ("delta", delta)]]) :: more)

theorem chatPayload_sole (delta : Json) {more : List (String × Json)}
    (hmore : membersWith (folds "choices") more = []) :
    SingleChoice (membersOf (chatPayload delta more)) := by
  have hchoices : membersWith (folds "choices") (membersOf (chatPayload delta more)) =
      [.arr [.obj [("index", .num "0"), ("delta", delta)]]] := by
    have hname : folds "choices" "choices" = true := by decide
    simp only [chatPayload, membersOf, membersWith_cons, hname, hmore, if_true]
  have hindex : membersWith (folds "index") [("index", .num "0"), ("delta", delta)] =
      [.num "0"] := by
    have hname : folds "index" "index" = true := by decide
    have hother : ¬ folds "index" "delta" = true := by decide
    rw [membersWith_cons, if_pos hname, membersWith_cons, if_neg hother]
    rfl
  have hzero : IndexZero (.num "0") := ⟨"0", rfl, by decide⟩
  constructor <;> rw [hchoices]
  · simp [elementsOf]
  · simp [elementsOf, membersOf, hindex, hzero]

/-- Of the chunks whose names are spelled exactly, those that the proxy takes for text and the
clients read alike are the readable ones, and the text of a journal of them is the same for all
three. -/
theorem chunk_readers_agree_iff (payload : Json) (observation : ChunkObservation)
    (journal : List Json) :
    (ChatChunk payload observation → Spelled payload →
      (ReadAs payload observation.textDelta ↔ Readable payload)) ∧
    ((∀ payload ∈ journal, Spelled payload ∧ Readable payload ∧
        ∃ observation, ChatChunk payload observation) →
      shownText journal = accumulatedText journal ∧
        adaptedText journal = .ok (accumulatedText journal)) :=
  ⟨readAs_observed_iff, journal_text⟩

/-- An error that is `null` and an empty list of tool calls are nothing to the proxy, and the
adapter throws for them. -/
theorem chunk_readers_differ :
    let errorNull := chatPayload (.obj [("content", .str "a")]) [("error", .null)]
    let noCalls := chatPayload (.obj [("content", .str "a"), ("tool_calls", .arr [])]) []
    (∀ payload ∈ [errorNull, noCalls], ChatChunk payload ⟨['a'], none, "", none, false⟩ ∧
      extractTextDelta payload = some "a" ∧ ¬ ReadAs payload ['a']) ∧
    parseOpenAIChunk errorNull = .error
      (.unsupportedStreamPayload "OpenAI stream chunk contained an error object") ∧
    parseOpenAIChunk noCalls = .error (.unsupportedStreamPayload
      "Streaming tool calls are not supported by StreamweldChatTransport") := by
  intro errorNull noCalls
  have herror : parseOpenAIChunk errorNull = .error
      (.unsupportedStreamPayload "OpenAI stream chunk contained an error object") := by
    decide +kernel
  have hcalls : parseOpenAIChunk noCalls = .error (.unsupportedStreamPayload
      "Streaming tool calls are not supported by StreamweldChatTransport") := by
    decide +kernel
  refine ⟨List.forall_mem_cons.mpr ⟨⟨⟨by decide +kernel, rfl, rfl, ?_⟩, by decide +kernel, ?_⟩,
    List.forall_mem_singleton.mpr ⟨⟨by decide +kernel, rfl, rfl, ?_⟩, by decide +kernel, ?_⟩⟩,
    herror, hcalls⟩
  · exact chatPayload_sole _ (by decide +kernel)
  · rintro ⟨_, parsed, hparse, _⟩
    exact absurd (herror.symm.trans hparse) (by simp)
  · exact chatPayload_sole _ rfl
  · rintro ⟨_, parsed, hparse, _⟩
    exact absurd (hcalls.symm.trans hparse) (by simp)

/-- A chunk of plain text is readable, and so is a journal of it. -/
theorem chunk_readers_agree_plain :
    let payload := chatPayload (.obj [("content", .str "a")]) []
    ReadAs payload ['a'] ∧ shownText [payload, payload] = ['a', 'a'] ∧
      adaptedText [payload, payload] = .ok ['a', 'a'] := by
  intro payload
  have hchunk : ChatChunk payload ⟨['a'], none, "", none, false⟩ :=
    ⟨by decide +kernel, rfl, rfl, chatPayload_sole _ rfl⟩
  have hspelled : Spelled payload :=
    { choices := by decide +kernel
      choice := List.forall_mem_singleton.mpr
        { text := by decide +kernel
          delta := by decide +kernel
          content := fun delta hdelta => by
            obtain rfl := Option.some.inj hdelta
            decide +kernel } }
  have hreadable : Readable payload := by
    refine ⟨rfl, _, rfl, List.forall_mem_singleton.mpr ⟨⟨rfl, rfl, trivial⟩, ?_⟩⟩
    exact fun text htext => absurd htext.symm (Option.some_ne_none _)
  have haccumulated : accumulatedText [payload, payload] = ['a', 'a'] := by decide +kernel
  obtain ⟨hread, hjournal⟩ :=
    chunk_readers_agree_iff payload ⟨['a'], none, "", none, false⟩ [payload, payload]
  have hboth := hjournal (by simpa using ⟨hspelled, hreadable, _, hchunk⟩)
  rw [haccumulated] at hboth
  exact ⟨(hread hchunk hspelled).mpr hreadable, hboth⟩

end Streamweld.Client
