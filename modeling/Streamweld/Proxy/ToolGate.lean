import Streamweld.Migrate.ToolCall
import Streamweld.Proxy.ChunkReading
import Streamweld.Proxy.Producer

/-!
# The gate on tool calls

Whether a stream is inside a tool call is asked twice.  `observeOpenAIChunk` recognises a call
in the deltas of choice 0, as `tool_calls` or in the older form `function_call`; the
`ToolCallTracker` that `appendChunk` feeds reads the chunk with a decoder of its own, and what
it tracks decides in `prepareMigration` whether the stream may be continued.

* `parsed_entries`: the two decoders read the same choices;
* `recognised_cases`: what the first of them recognises;
* `Closed.appendChunk`: while the gate is closed for choice 0, a chunk without a boundary of
  that choice leaves it closed;
* `refuses_of_failures`: `prepareMigration` refuses when a correctness gate has failed.

The tracker ignores `function_call`, so a call in that form does not close the gate.  Nor does
an empty array with a blank in it, which `observeOpenAIChunk` takes for a call.
-/

namespace Streamweld.Proxy

open Streamweld.Lib Streamweld.Lib.Json Streamweld.Migrate
open Streamweld.Migrate.ToolCall (JsonScanner ToolCallTracker ToolChoice ParsedToolChoice Declared)

variable {observation : ChunkObservation} {data : Json} {entries : List ParsedToolChoice}
  {tracking : CallTracking} {value : Json} {t t' : ToolChoice}

/-! ## Two decoders of one chunk -/

/-- An index as `observeOpenAIChunk` reads it, for which a missing one is zero, and as the
tracker does. -/
def SameIndex (i : Int) (p : Option Int) : Prop := ∀ n, p = some n → i = n

/-- A choice as both read it. -/
structure SameChoice (c : OpenAIChoice) (t : ToolChoice) : Prop where
  delta : c.delta = t.delta
  finishReason : c.finishReason = t.finishReason
  index : SameIndex c.index t.index

theorem choiceFields_finishReason :
    Through choiceFields (·.finishReason) "finish_reason" fun _ value => stringPointer value := by
  simp +decide [Through, choiceFields]

theorem toolChoiceFields_index :
    Through ToolCall.toolChoiceFields (·.index) "index" fun _ value => intPointer value := by
  simp +decide [Through, ToolCall.toolChoiceFields]

theorem toolChoiceFields_delta :
    Through ToolCall.toolChoiceFields (·.delta) "delta" fun _ value => some (some value) := by
  simp +decide [Through, ToolCall.toolChoiceFields]

theorem toolChoiceFields_finishReason :
    Through ToolCall.toolChoiceFields (·.finishReason) "finish_reason"
      fun _ value => stringPointer value := by
  simp +decide [Through, ToolCall.toolChoiceFields]

/-- A member that sets the pointer of the tracker sets the index too. -/
theorem sameIndex_of_decode {i i' : Int} {p : Option Int}
    (hi : decodeInt (fun n _ => n) value i = some i') (hp : intPointer value = some p) :
    SameIndex i' p := by
  cases value with
  | num literal =>
    obtain ⟨m, hm, rfl⟩ := Option.map_eq_some_iff.mp hi
    obtain ⟨m', hm', rfl⟩ := Option.map_eq_some_iff.mp hp
    rw [hm] at hm'
    intro n hn
    rw [Option.some.inj hm', Option.some.inj hn]
  | null =>
    obtain rfl := Option.some.inj hp
    exact fun n hn => absurd hn (by simp)
  | _ => exact absurd hp (by simp [intPointer])

theorem SameChoice.decode {c c' : OpenAIChoice} (hsame : SameChoice c t)
    (h : decodeStruct choiceFields value c = some c')
    (h' : decodeStruct ToolCall.toolChoiceFields value t = some t') : SameChoice c' t' := by
  cases value with
  | null =>
    obtain rfl := Option.some.inj h
    obtain rfl := Option.some.inj h'
    exact hsame
  | obj members =>
    have hdelta := decodeStruct_project choiceFields_delta h
    have hreason := decodeStruct_project choiceFields_finishReason h
    rw [hsame.delta, decodeStruct_project toolChoiceFields_delta h'] at hdelta
    rw [hsame.finishReason, decodeStruct_project toolChoiceFields_finishReason h'] at hreason
    refine ⟨(Option.some.inj hdelta).symm, (Option.some.inj hreason).symm, ?_⟩
    refine foldlM_related (R := SameIndex) ?_ hsame.index
      (decodeStruct_project choiceFields_index h) (decodeStruct_project toolChoiceFields_index h')
    exact fun _ _ _ _ _ _ hi hp => sameIndex_of_decode hi hp
  | _ => exact absurd h (by simp [decodeStruct])

theorem toolChunkFields_choices :
    Through ToolCall.toolChunkFields (·.choices) "choices" fun slice value =>
      decodeSlice ToolCall.toolChoiceFields .zero id (fun s _ => s) value slice := by
  simp +decide [Through, ToolCall.toolChunkFields]

/-- The choices of a chunk, read by both. -/
theorem choices_same {members : List (String × Json)} {chunk : OpenAIChunk}
    {tool : ToolCall.ToolChunk} (h : decodeStruct chunkFields (.obj members) .zero = some chunk)
    (h' : decodeStruct ToolCall.toolChunkFields (.obj members) ⟨.nil⟩ = some tool) :
    List.Forall₂ SameChoice chunk.choices.elements tool.choices.elements := by
  have hzero : SameChoice .zero .zero :=
    ⟨rfl, rfl, fun n hn => absurd hn (by simp [ToolChoice.zero])⟩
  have hrelated : Slice.Related SameChoice chunk.choices tool.choices := by
    refine foldlM_related (R := Slice.Related SameChoice) ?_ ⟨.nil, rfl⟩
      (decodeStruct_project chunkFields_choices h) (decodeStruct_project toolChunkFields_choices h')
    exact fun _ _ _ _ _ hR hs ht =>
      decodeSlice_related hzero (fun _ _ _ _ _ hsame h h' => hsame.decode h h') hR hs ht
  exact hrelated.elements

/-! ## What is recognised -/

/-- The choices of a chunk. -/
def choicesOf (data : Json) : List OpenAIChoice :=
  ((decodeStruct chunkFields data .zero).map (·.choices.elements)).getD []

/-- A delta carries a call in one of the two fields: neither `null` nor an empty array. -/
def deltaCarries (field : ChatDelta → Option Json) : Option Json → Bool
  | none => false
  | some .null => false
  | some raw => (decodeStruct deltaFields raw .zero).any fun delta => isPresentJSON false (field delta)

/-- A delta of choice 0 carries a call in one of the two fields. -/
def carries (field : ChatDelta → Option Json) (data : Json) : Bool :=
  (choicesOf data).any fun choice => choice.index = 0 && deltaCarries field choice.delta

/-- Choice 0 declares the boundary of its calls. -/
def declaresBoundary (data : Json) : Bool :=
  (choicesOf data).any fun choice => choice.index = 0 && choice.finishReason == some "tool_calls"

theorem observeDelta_toolCall {observation' : ChunkObservation} {delta : Option Json}
    (h : observeDelta false observation delta = some observation') :
    observation'.toolCall = (observation.toolCall || deltaCarries (·.toolCalls) delta ||
      deltaCarries (·.functionCall) delta) := by
  unfold observeDelta at h
  split at h
  · obtain rfl := Option.some.inj h
    simp [deltaCarries]
  · obtain rfl := Option.some.inj h
    simp [deltaCarries]
  · rename_i raw hnull
    obtain ⟨delta, hdelta, rfl⟩ := Option.map_eq_some_iff.mp h
    have hcarries (field : ChatDelta → Option Json) :
        deltaCarries field (some raw) = isPresentJSON false (field delta) := by
      unfold deltaCarries
      split
      · rename_i heq
        exact absurd heq (by simp)
      · rename_i heq
        exact absurd (Option.some.inj heq) hnull
      · rename_i heq
        rw [← Option.some.inj heq, hdelta, Option.any_some]
    rw [hcarries, hcarries]

theorem observeChoices_toolCall {choices : List OpenAIChoice} {observation' : ChunkObservation}
    (h : choices.foldlM (observeChoice false) observation = some observation') :
    observation'.toolCall = (observation.toolCall || choices.any fun choice =>
      choice.index = 0 && (deltaCarries (·.toolCalls) choice.delta ||
        deltaCarries (·.functionCall) choice.delta)) := by
  induction choices generalizing observation with
  | nil =>
    obtain rfl := Option.some.inj h
    simp
  | cons choice choices ih =>
    rw [List.foldlM_cons] at h
    obtain ⟨mid, hmid, hrest⟩ := Option.bind_eq_some_iff.mp h
    rw [ih hrest, List.any_cons]
    unfold observeChoice at hmid
    split at hmid
    · rename_i hindex
      obtain rfl := Option.some.inj hmid
      simp [hindex]
    · rename_i hindex
      rw [observeDelta_toolCall hmid]
      simp [not_not.mp hindex, Bool.or_assoc]

/-- A recognised call is in `tool_calls` or in `function_call`. -/
theorem recognised_cases (h : observeOpenAIChunk data = some observation)
    (hcall : observation.toolCall = true) :
    carries (·.toolCalls) data = true ∨ carries (·.functionCall) data = true := by
  obtain ⟨chunk, hchunk, hloop⟩ := Option.bind_eq_some_iff.mp h
  have hchoices : choicesOf data = chunk.choices.elements := by rw [choicesOf, hchunk]; rfl
  rw [observeChoices_toolCall hloop, Bool.false_or, List.any_eq_true] at hcall
  obtain ⟨choice, hmem, hchoice⟩ := hcall
  rw [Bool.and_eq_true, Bool.or_eq_true] at hchoice
  rw [carries, carries, hchoices, List.any_eq_true, List.any_eq_true]
  exact hchoice.2.imp (fun h => ⟨choice, hmem, by simp [hchoice.1, h]⟩)
    fun h => ⟨choice, hmem, by simp [hchoice.1, h]⟩

/-! ## What is tracked -/

/-- A choice and the entry that the tracker parses it to. -/
structure EntryOf (choice : OpenAIChoice) (entry : ParsedToolChoice) : Prop where
  index : entry.index = choice.index
  boundary : entry.boundaryDeclared = decide (choice.finishReason = some "tool_calls")
  calls : deltaCarries (·.toolCalls) choice.delta = true → entry.calls ≠ []

theorem deltaFields_toolCalls :
    Through deltaFields (·.toolCalls) "tool_calls" fun _ value => some (some value) := by
  simp +decide [Through, deltaFields]

theorem toolDeltaFields_toolCalls :
    Through ToolCall.toolDeltaFields (·.toolCalls) "tool_calls"
      fun _ value => some (some value) := by
  simp +decide [Through, ToolCall.toolDeltaFields]

/-- Tool calls that are there are parsed to calls. -/
theorem parseCalls_ne_nil {index : Int} {raw : Option Json} {calls : List ToolCall.ParsedToolCall}
    (hpresent : isPresentJSON false raw = true) (h : ToolCall.parseCalls index raw = .ok calls) :
    calls ≠ [] := by
  unfold ToolCall.parseCalls at h
  split at h
  · exact absurd hpresent (by simp [isPresentJSON])
  · exact absurd hpresent (by simp [isPresentJSON])
  · rename_i elements
    have hne : elements ≠ [] := by
      rintro rfl
      exact absurd hpresent (by simp [isPresentJSON])
    split at h
    · exact absurd h (by simp)
    · rename_i cells hcells
      have hlength := (forall₂_of_mapM h).length_eq
      rw [decodeElements_length hcells] at hlength
      rintro rfl
      exact hne (List.eq_nil_of_length_eq_zero hlength)
  · exact absurd h (by simp)

theorem parseDelta_ne_nil {index : Int} {delta : Option Json} {calls : List ToolCall.ParsedToolCall}
    (hcarries : deltaCarries (·.toolCalls) delta = true)
    (h : ToolCall.parseDelta index delta = .ok calls) : calls ≠ [] := by
  cases delta with
  | none => exact absurd hcarries (by simp [deltaCarries])
  | some raw =>
    cases raw with
    | obj members =>
      obtain ⟨d, hd, hpresent⟩ := (Option.any_eq_true _ _).mp hcarries
      simp only [ToolCall.parseDelta] at h
      split at h
      · exact absurd h (by simp)
      · rename_i d' hd'
        -- both decoders take the last member of that name
        have hsame : d'.toolCalls = d.toolCalls := by
          rw [decodeStruct_raw toolDeltaFields_toolCalls rfl hd',
            decodeStruct_raw deltaFields_toolCalls rfl hd]
        exact parseCalls_ne_nil (hsame ▸ hpresent) h
    | _ => exact absurd hcarries (by simp [deltaCarries, decodeStruct])

theorem SameChoice.entryOf {choice : OpenAIChoice} {entry : ParsedToolChoice}
    (hsame : SameChoice choice t) (h : ToolCall.parseChoice t = .ok entry) :
    EntryOf choice entry := by
  unfold ToolCall.parseChoice at h
  split at h
  · exact absurd h (by simp)
  · rename_i index hindex
    split at h
    · exact absurd h (by simp)
    · cases hparse : ToolCall.parseDelta index t.delta with
      | error err =>
        rw [hparse] at h
        exact absurd h (by simp [Except.map])
      | ok calls =>
        rw [hparse] at h
        obtain rfl := Except.ok.inj h
        exact {
          index := (hsame.index index hindex).symm
          boundary := by rw [hsame.finishReason]
          calls := fun hcarries => parseDelta_ne_nil (hsame.delta ▸ hcarries) hparse }

/-- The tracker has an entry for every choice that `observeOpenAIChunk` reads. -/
theorem parsed_entries {blank : Bool} (haccepted : (observeOpenAIChunk data blank).isSome = true)
    (h : ToolCall.parseToolCallChunk (some data) = .ok entries) :
    List.Forall₂ EntryOf (choicesOf data) entries := by
  obtain ⟨observation, hobservation⟩ := Option.isSome_iff_exists.mp haccepted
  obtain ⟨chunk, hchunk, _⟩ := Option.bind_eq_some_iff.mp hobservation
  cases data with
  | obj members =>
    simp only [ToolCall.parseToolCallChunk] at h
    split at h
    · exact absurd h (by simp)
    · rename_i tool htool
      rw [choicesOf, hchunk]
      exact forall₂_trans (fun _ _ _ hsame hparse => hsame.entryOf hparse)
        (choices_same hchunk htool) (forall₂_of_mapM h)
  | _ => exact absurd h (by simp [ToolCall.parseToolCallChunk])

/-- The entries for choice 0. -/
def zeroEntries (entries : List ParsedToolChoice) : List ParsedToolChoice :=
  Keyed.labelsOf ParsedToolChoice.index 0 entries

/-- Without a boundary in the chunk no entry for choice 0 declares one. -/
theorem zeroEntries_boundary (hentries : List.Forall₂ EntryOf (choicesOf data) entries)
    (hboundary : declaresBoundary data = false) :
    ∀ entry ∈ zeroEntries entries, entry.boundaryDeclared = false := by
  intro entry hentry
  obtain ⟨hmem, hindex⟩ := List.mem_filter.mp hentry
  obtain ⟨choice, hchoice, hof⟩ := forall₂_mem_left (List.Forall₂.flip hentries) hmem
  have hno := List.any_eq_false.mp hboundary choice hchoice
  have hzero : choice.index = 0 := by rw [← hof.index]; simpa using hindex
  rw [hof.boundary, decide_eq_false_iff_not]
  intro hreason
  exact hno (by simp [hzero, hreason])

/-- A chunk with tool calls for choice 0 has an entry with calls for it. -/
theorem zeroEntries_calls (hentries : List.Forall₂ EntryOf (choicesOf data) entries)
    (hcarries : carries (·.toolCalls) data = true) :
    ∃ entry ∈ zeroEntries entries, entry.calls ≠ [] := by
  obtain ⟨choice, hchoice, hcarries⟩ := List.any_eq_true.mp hcarries
  rw [Bool.and_eq_true, decide_eq_true_eq] at hcarries
  obtain ⟨entry, hmem, hof⟩ := forall₂_mem_left hentries hchoice
  refine ⟨entry, List.mem_filter.mpr ⟨hmem, ?_⟩, hof.calls hcarries.2⟩
  rw [decide_eq_true_eq, hof.index, hcarries.1]

/-! ## The gate -/

/-- The fields `toolCalls` and `toolTrackFailed` of `streamRuntime`. -/
structure CallTracking where
  toolCalls : ToolCallTracker
  toolTrackFailed : Bool

namespace CallTracking

def zero : CallTracking := ⟨.zero, false⟩

/-- The first block of `appendChunk`. -/
def appendChunk (json : JsonScanner) (kind : RequestKind) (tracking : CallTracking) (data : Json) :
    CallTracking :=
  if kind = .requestChatCompletion then
    let (toolCalls, err) := tracking.toolCalls.observeChunk json (some data)
    ⟨toolCalls, tracking.toolTrackFailed || err.isSome⟩
  else tracking

/-- What `prepareMigration` takes from it. -/
def insideToolCall (tracking : CallTracking) : Bool :=
  tracking.toolCalls.insideToolCall || tracking.toolTrackFailed

/-- The progress of choice 0. -/
def choiceZero (tracking : CallTracking) : Option ToolCall.ToolChoiceProgress :=
  tracking.toolCalls.choices.lookup 0

/-- The gate is closed until choice 0 declares a boundary. -/
def Closed (tracking : CallTracking) : Prop :=
  tracking.toolTrackFailed = true ∨
    (tracking.choiceZero.isSome = true ∧ ¬ Declared tracking.choiceZero)

theorem Closed.insideToolCall (h : tracking.Closed) : tracking.insideToolCall = true := by
  rw [CallTracking.insideToolCall, Bool.or_eq_true]
  refine h.symm.imp (fun hopen => ?_) id
  rw [ToolCallTracker.insideToolCall, decide_eq_true_eq, ToolCall.keys_ne_empty_iff]
  exact ⟨0, hopen.1⟩

/-- What a chunk does to the tracking of a chat stream: it fails, or the entries for choice 0
are added to its progress. -/
theorem appendChunk_cases (json : JsonScanner) (tracking : CallTracking) (data : Json) :
    (tracking.appendChunk json .requestChatCompletion data).toolTrackFailed = true ∨
    ∃ entries, ToolCall.parseToolCallChunk (some data) = .ok entries ∧
      (tracking.appendChunk json .requestChatCompletion data).choiceZero =
        (zeroEntries entries).foldl (ToolCall.advance json) tracking.choiceZero := by
  rw [appendChunk, if_pos rfl]
  unfold ToolCallTracker.observeChunk
  cases hparse : ToolCall.parseToolCallChunk (some data) with
  | error err => exact .inl (by simp)
  | ok entries => exact .inr ⟨entries, rfl, ToolCall.lookup_observeChoice json _ entries 0⟩

theorem appendChunk_failed (json : JsonScanner) (kind : RequestKind)
    (h : tracking.toolTrackFailed = true) (data : Json) :
    (tracking.appendChunk json kind data).toolTrackFailed = true := by
  unfold appendChunk
  split
  · simp [h]
  · exact h

/-- A chunk without a boundary of choice 0 leaves the gate closed, and it closes it when it
has tool calls for that choice. -/
theorem Closed.appendChunk {json : JsonScanner} {blank : Bool}
    (haccepted : (observeOpenAIChunk data blank).isSome = true)
    (hboundary : declaresBoundary data = false)
    (h : tracking.Closed ∨ (carries (·.toolCalls) data = true ∧ ¬ Declared tracking.choiceZero)) :
    (tracking.appendChunk json .requestChatCompletion data).Closed := by
  rcases appendChunk_cases json tracking data with hfailed | ⟨entries, hparse, hzero⟩
  · exact .inl hfailed
  · have hentries := parsed_entries haccepted hparse
    by_cases hfailed : tracking.toolTrackFailed = true
    · exact .inl (appendChunk_failed json _ hfailed data)
    · have hopen : ¬ Declared tracking.choiceZero :=
        h.elim (fun hclosed => (hclosed.resolve_left hfailed).2) (·.2)
      obtain ⟨hundeclared, hsome⟩ := ToolCall.advance_run_undeclared json hopen
        (zeroEntries_boundary hentries hboundary)
      refine .inr ?_
      rw [hzero]
      refine ⟨hsome ?_, hundeclared⟩
      exact h.imp (fun hclosed => (hclosed.resolve_left hfailed).1)
        fun hcalls => zeroEntries_calls hentries hcalls.1

/-- Any number of chunks without a boundary leave the gate closed. -/
theorem Closed.run {json : JsonScanner} (h : tracking.Closed) {chunks : List Json}
    (hchunks : ∀ data ∈ chunks,
      (observeOpenAIChunk data).isSome = true ∧ declaresBoundary data = false) :
    (chunks.foldl (CallTracking.appendChunk json .requestChatCompletion) tracking).Closed := by
  induction chunks generalizing tracking with
  | nil => exact h
  | cons data chunks ih =>
    obtain ⟨hdata, hrest⟩ := List.forall_mem_cons.mp hchunks
    exact ih (Closed.appendChunk hdata.1 hdata.2 (.inl h)) hrest

end CallTracking

/-! ## The migration -/

/-- What `prepareMigration` reads in the runtime of a stream. -/
structure Snapshot where
  failedLease : Option LeaseID
  failedBackend : String
  progress : StreamProgress
  tracking : CallTracking
  migrationsUsed : Nat
  estimateWarned : Bool
  finishReason : String

/-- The first part of `prepareMigration`, up to `RewriteContinuation`. -/
def Snapshot.plan (setup : Setup) (reason : String) (s : Snapshot) : Plan :=
  let (accumulated, usage) := s.progress.snapshot
  { reason := reason
    failedLease := s.failedLease
    failedBackend := s.failedBackend
    accumulated := accumulated
    usage := usage
    migrationsUsed := s.migrationsUsed
    estimateWarning := usage.estimated && !s.estimateWarned
    correctness := evaluateCorrectness s.tracking.insideToolCall setup.structured
      (JsonPrefix.isValidJSONPrefix (Utf8.encode accumulated))
      (requestHasMultipleChoices setup.requestBody)
    rewritten := rewriteContinuation setup.requestKind setup.requestBody accumulated
      usage.completionTokens }

/-- What `acquireMigrationTarget` returns. -/
inductive Acquired where
  /-- the proxy is shut down while it waits -/
  | canceled
  | target (lease : Option LeaseID) (backend : Backend)

/-- `prepareMigration` from `acquireMigrationTarget` on, if it gets there. -/
def acquirePc (setup : Setup) (acquired : Acquired) (elapsed : Int) : ProducerPc → ProducerPc
  | .acquiring plan =>
    match acquired with
    | .canceled => .canceled
    | .target lease backend => admitPc setup plan lease backend elapsed
  | pc => pc

/-- `prepareMigration`.  `closing` is its first condition, and the two times are those of the
two evaluations of the policy. -/
def prepareMigration (setup : Setup) (reason : String) (s : Snapshot) (closing : Bool)
    (acquired : Acquired) (elapsed elapsed' : Int) : ProducerPc :=
  if closing then .returned
  else
    acquirePc setup acquired elapsed'
      (preparePc setup (s.plan setup reason) s.finishReason elapsed)

/-- The producer goes on with a continuation: it reserves a target. -/
def ProducerPc.continues : ProducerPc → Bool
  | .reserving _ _ _ _ => true
  | _ => false

/-- A call that ends the stream with `migration_refused`, whatever its result. -/
def EndsRefused (request : Request) (after : After) : Prop :=
  (∃ message reason, request = .finishError "migration_refused" message reason) ∨
    ∃ message reason, after.pc = .call (.finishError "migration_refused" message reason) .leave

/-- The producer ends the stream with `migration_refused`, after it has given back a lease. -/
def ProducerPc.Refuses : ProducerPc → Prop
  | .call request after => EndsRefused request after
  | .releasing _ request after => EndsRefused request after
  | _ => False

theorem ProducerPc.Refuses.not_continues {pc : ProducerPc} (h : pc.Refuses) :
    pc.continues = false := by
  unfold ProducerPc.Refuses at h
  split at h
  · rfl
  · rfl
  · exact absurd h id

theorem endsRefused_refuseMigration (estimateWarning : Bool) (predicates : List Predicate)
    (correctness : List CorrectnessFailure) :
    EndsRefused (refuseMigration estimateWarning predicates correctness).1
      (refuseMigration estimateWarning predicates correctness).2 :=
  .inr ⟨_, _, rfl⟩

theorem endsRefused_invalidPolicy : EndsRefused invalidPolicy.1 invalidPolicy.2 :=
  .inl ⟨_, _, rfl⟩

/-- Up to the acquisition of a target. -/
theorem preparePc_failures (setup : Setup) {plan : Plan} (h : plan.correctness ≠ [])
    (finishReason : String) (elapsed : Int) :
    (preparePc setup plan finishReason elapsed).Refuses ∨
      preparePc setup plan finishReason elapsed = .acquiring plan := by
  have hnone : completedGenerationReason finishReason plan.usage plan.correctness plan.rewritten =
      none := if_pos (.inl h)
  unfold preparePc
  rw [hnone]
  dsimp only
  split
  · exact .inl (endsRefused_refuseMigration _ _ _)
  split
  · split
    · exact .inl endsRefused_invalidPolicy
    · rw [if_pos (.inr h)]
      exact .inl (endsRefused_refuseMigration _ _ _)
  · exact .inr rfl

/-- With or without a target. -/
theorem admitPc_failures (setup : Setup) {plan : Plan} (h : plan.correctness ≠ [])
    (lease : Option LeaseID) (target : Backend) (elapsed : Int) :
    (admitPc setup plan lease target elapsed).Refuses := by
  unfold admitPc
  dsimp only
  split
  · exact endsRefused_invalidPolicy
  · rw [if_pos (.inr h)]
    exact endsRefused_refuseMigration _ _ _

theorem acquirePc_refuses {pc : ProducerPc} (h : pc.Refuses) (setup : Setup) (acquired : Acquired)
    (elapsed : Int) : acquirePc setup acquired elapsed pc = pc := by
  unfold acquirePc
  split
  · exact absurd h id
  · rfl

/-- A failed correctness gate ends the stream with `migration_refused`, unless it is closed
already or the proxy is shut down; it is not continued in any case. -/
theorem refuses_of_failures {setup : Setup} {reason : String} {s : Snapshot}
    (h : (s.plan setup reason).correctness ≠ []) (closing : Bool) (acquired : Acquired)
    (elapsed elapsed' : Int) :
    (prepareMigration setup reason s closing acquired elapsed elapsed').continues = false ∧
      (closing = false → acquired ≠ .canceled →
        (prepareMigration setup reason s closing acquired elapsed elapsed').Refuses) := by
  unfold prepareMigration
  cases closing with
  | true => exact ⟨rfl, fun hclosing => absurd hclosing (by simp)⟩
  | false =>
    rw [if_neg (by simp)]
    rcases preparePc_failures setup h s.finishReason elapsed with hrefuses | hacquiring
    · rw [acquirePc_refuses hrefuses]
      exact ⟨hrefuses.not_continues, fun _ _ => hrefuses⟩
    · rw [hacquiring]
      cases acquired with
      | canceled => exact ⟨rfl, fun _ hne => absurd rfl hne⟩
      | target lease backend =>
        have hrefuses := admitPc_failures setup h lease backend elapsed'
        exact ⟨hrefuses.not_continues, fun _ _ => hrefuses⟩

/-! ## Recognised calls -/

/-- The tracking of a chat stream after its chunks. -/
def trackingAfter (json : JsonScanner) (setup : Setup) (chunks : List Json) : CallTracking :=
  chunks.foldl (CallTracking.appendChunk json setup.requestKind) .zero

/-- Inside a call that `observeOpenAIChunk` has recognised for choice 0, and whose boundary the
choice has not declared since, a failed stream is not continued but refused, unless the call
came as `function_call` alone or as an empty array with a blank in it, or the boundary of the
calls in progress had been declared before it. -/
theorem recognised_call_refused (json : JsonScanner) (setup : Setup)
    (hchat : setup.requestKind = .requestChatCompletion) (before : List Json) (chunk : Json)
    (blank : Bool) (after : List Json)
    (haccepted : ∀ data ∈ after, (observeOpenAIChunk data).isSome = true)
    (hrecognised : (observeOpenAIChunk chunk blank).any (·.toolCall) = true)
    (hboundary : ∀ data ∈ chunk :: after, declaresBoundary data = false)
    (hform : carries (·.functionCall) chunk = true → carries (·.toolCalls) chunk = true)
    (hblank : blank = true → carries (·.toolCalls) chunk = true)
    (hopen : ¬ Declared (trackingAfter json setup before).choiceZero)
    (s : Snapshot) (hs : s.tracking = trackingAfter json setup (before ++ chunk :: after))
    (reason : String) (closing : Bool) (acquired : Acquired) (elapsed elapsed' : Int) :
    (prepareMigration setup reason s closing acquired elapsed elapsed').continues = false ∧
      (closing = false → acquired ≠ .canceled →
        (prepareMigration setup reason s closing acquired elapsed elapsed').Refuses) := by
  refine refuses_of_failures ?_ closing acquired elapsed elapsed'
  obtain ⟨observation, hobservation, hcall⟩ := (Option.any_eq_true _ _).mp hrecognised
  have hcalls : carries (·.toolCalls) chunk = true := by
    cases blank with
    | false => exact (recognised_cases hobservation hcall).elim id hform
    | true => exact hblank rfl
  -- the chunk closes the gate, and those after it leave it closed
  have hclosed : (trackingAfter json setup (before ++ chunk :: after)).Closed := by
    rw [trackingAfter, hchat] at hopen ⊢
    rw [List.foldl_append, List.foldl_cons]
    obtain ⟨hchunk, hafter⟩ := List.forall_mem_cons.mp hboundary
    have hsome : (observeOpenAIChunk chunk blank).isSome = true := by rw [hobservation]; rfl
    exact (CallTracking.Closed.appendChunk hsome hchunk (.inr ⟨hcalls, hopen⟩)).run
      fun data hdata => ⟨haccepted data hdata, hafter data hdata⟩
  show evaluateCorrectness s.tracking.insideToolCall _ _ _ ≠ []
  rw [hs, hclosed.insideToolCall]
  simp [evaluateCorrectness]

/-- A chat stream. -/
def chatSetup : Setup :=
  { requestKind := .requestChatCompletion
    requestBody := .obj [("model", .str "m"), ("messages", .arr []), ("stream", .bool true)]
    structured := false
    policy := ⟨3, 1000, 60, false, false, 64, .templateStrict⟩
    originModelVersion := "v1" }

/-- It has failed after chunks. -/
def chatSnapshot (chunks : List Json) : Snapshot :=
  { failedLease := some 1
    failedBackend := "a"
    progress := .zero
    tracking := trackingAfter ToolCall.prefixScanner chatSetup chunks
    migrationsUsed := 0
    estimateWarned := false
    finishReason := "" }

/-- The chunk of choice 0 with a delta. -/
def deltaChunk (delta : List (String × Json)) : Json :=
  .obj [("choices", .arr [.obj [("index", .num "0"), ("delta", .obj delta)]])]

/-- The beginning of a call, as an element of `tool_calls`. -/
def toolCallChunk : Json :=
  deltaChunk [("tool_calls", .arr [.obj [("index", .num "0"),
    ("function", .obj [("name", .str "f"), ("arguments", .str "\x7b")])]])]

/-- The beginning of the same call in the older form. -/
def functionCallChunk : Json :=
  deltaChunk [("function_call", .obj [("name", .str "f"), ("arguments", .str "\x7b")])]

/-- A target that a stream may go to. -/
def safeTarget : Acquired := .target (some 2) ⟨"b", "v1", .verdictSafe⟩

theorem recognised_call_refused_tool_calls :
    (prepareMigration chatSetup "tcp_reset" (chatSnapshot [toolCallChunk]) false safeTarget 1 1
      ).Refuses :=
  (recognised_call_refused ToolCall.prefixScanner chatSetup rfl [] toolCallChunk false []
    (by decide) (by decide +kernel) (by decide +kernel) (by decide +kernel) (by decide) (by decide)
    (chatSnapshot [toolCallChunk]) rfl "tcp_reset" false safeTarget 1 1).2 rfl
      (fun h => Acquired.noConfusion h)

/-- Tool calls without an element. -/
def noCallsChunk : Json := deltaChunk [("tool_calls", .arr [])]

/-- A stream that fails inside a `function_call` is continued, and so is one whose tool calls are
written as an array with nothing but a blank in it. -/
theorem function_call_continued :
    (observeOpenAIChunk functionCallChunk).any (·.toolCall) = true ∧
    declaresBoundary functionCallChunk = false ∧
    (prepareMigration chatSetup "tcp_reset" (chatSnapshot [functionCallChunk]) false safeTarget
      1 1).continues = true ∧
    (observeOpenAIChunk noCallsChunk true).any (·.toolCall) = true ∧
    declaresBoundary noCallsChunk = false ∧
    (prepareMigration chatSetup "tcp_reset" (chatSnapshot [noCallsChunk]) false safeTarget
      1 1).continues = true := by
  decide +kernel

end Streamweld.Proxy
