import Streamweld.Lib.JsonFields
import Streamweld.Lib.Keyed
import Streamweld.Lib.Utf8Stream
import Streamweld.Migrate.JsonPrefix
import Streamweld.Migrate.Seam

/-!
# Tool calls in progress

`ToolCallTracker` (`internal/migrate/toolcall.go`) follows the tool calls of a chat stream by
choice and by tool index.  A choice is tracked from its first delta until all of its calls have
complete arguments and the choice has declared the boundary; then it is forgotten, and a later
delta starts it anew.

A payload is the JSON value that it parses to, and `none` when it is no JSON text.  The texts
that `encoding/json` adds to an error are left out.  `json.Valid` is a parameter, of which only
one thing is used: it refuses a blank text.

`sinceCompleted` says what the tracker is for.  It has the entries of one choice since the
choice was last completed, and `advance_run` shows that the state of the tracker is what can
be read off these entries.
-/

namespace Streamweld.Migrate.ToolCall

open Streamweld.Lib

variable {tracked : Option ToolChoiceProgress} {entries : List ParsedToolChoice}

/-! ## Parsing -/

structure ParsedToolCall where
  index : Int
  name : Text
  arguments : Text
  deriving DecidableEq, Repr

structure ParsedToolChoice where
  index : Int
  calls : List ParsedToolCall
  boundaryDeclared : Bool
  deriving DecidableEq, Repr

/-- `ErrInvalidToolCallChunk` with a detail. -/
def errInvalidToolCallChunk (detail : String) : String :=
  "migrate: invalid tool-call chunk: " ++ detail

/-- An element of `chunk.Choices`. -/
structure ToolChoice where
  index : Option Int
  delta : Option Json
  finishReason : Option String
  deriving DecidableEq, Repr

def ToolChoice.zero : ToolChoice := { index := none, delta := none, finishReason := none }

def toolChoiceFields : Json.Fields ToolChoice := [
  ("index", Json.decodeIntPointer fun n c => { c with index := n }),
  ("delta", Json.decodeRaw fun v c => { c with delta := some v }),
  ("finish_reason", Json.decodeStringPointer fun s c => { c with finishReason := s })]

/-- The struct that a chunk is decoded into, which has one field. -/
structure ToolChunk where
  choices : Json.Slice ToolChoice
  deriving DecidableEq, Repr

def toolChunkFields : Json.Fields ToolChunk := [
  ("choices", Json.decodeSlice toolChoiceFields .zero (·.choices) fun s _ => ⟨s⟩)]

/-- The struct that a delta is decoded into, which has one field. -/
structure ToolDelta where
  toolCalls : Option Json
  deriving DecidableEq, Repr

def toolDeltaFields : Json.Fields ToolDelta := [
  ("tool_calls", Json.decodeRaw fun v _ => ⟨some v⟩)]

/-- `call.Function`. -/
structure ToolFunction where
  name : Option String
  arguments : Option String
  deriving DecidableEq, Repr

def toolFunctionFields : Json.Fields ToolFunction := [
  ("name", Json.decodeStringPointer fun s f => { f with name := s }),
  ("arguments", Json.decodeStringPointer fun s f => { f with arguments := s })]

/-- An element of `calls`. -/
structure ToolCallDelta where
  index : Option Int
  function : Option ToolFunction
  deriving DecidableEq, Repr

def toolCallFields : Json.Fields ToolCallDelta := [
  ("index", Json.decodeIntPointer fun n c => { c with index := n }),
  ("function", Json.decodePointer toolFunctionFields ⟨none, none⟩ (·.function)
    fun f c => { c with function := f })]

/-- The string behind a pointer, if there is one. -/
def fragment (s : Option String) : Text := (s.getD "").toList

def parseCall (call : ToolCallDelta) : Except String ParsedToolCall :=
  match call.index with
  | none => .error (errInvalidToolCallChunk "tool call requires a non-negative index")
  | some index =>
    if index < 0 then
      .error (errInvalidToolCallChunk "tool call requires a non-negative index")
    else
      .ok
        { index := index
          name := fragment (call.function.bind (·.name))
          arguments := fragment (call.function.bind (·.arguments)) }

def parseCalls (index : Int) : Option Json → Except String (List ParsedToolCall)
  | none => .ok []
  | some .null => .ok []
  | some (.arr elements) =>
    match Json.decodeElements toolCallFields ⟨none, none⟩ elements [] with
    | none => .error (errInvalidToolCallChunk s!"choice {index} tool_calls")
    | some calls => calls.mapM parseCall
  | some _ => .error (errInvalidToolCallChunk s!"choice {index} tool_calls")

def parseDelta (index : Int) : Option Json → Except String (List ParsedToolCall)
  | none => .ok []
  | some .null => .ok []
  | some raw =>
    match Json.decodeStruct toolDeltaFields raw ⟨none⟩ with
    | none => .error (errInvalidToolCallChunk s!"choice {index} delta")
    | some delta => parseCalls index delta.toolCalls

def parseChoice (choice : ToolChoice) : Except String ParsedToolChoice :=
  match choice.index with
  | none => .error (errInvalidToolCallChunk "each choice requires a non-negative index")
  | some index =>
    if index < 0 then
      .error (errInvalidToolCallChunk "each choice requires a non-negative index")
    else
      (parseDelta index choice.delta).map fun calls =>
        { index := index
          calls := calls
          boundaryDeclared := choice.finishReason = some "tool_calls" }

def parseToolCallChunk : Option Json → Except String (List ParsedToolChoice)
  | some (.obj members) =>
    match Json.decodeStruct toolChunkFields (.obj members) ⟨.nil⟩ with
    | none => .error (errInvalidToolCallChunk "decode choices")
    | some chunk => chunk.choices.elements.mapM parseChoice
  | _ => .error (errInvalidToolCallChunk "payload is not a valid JSON object")

/-! ## The tracker -/

structure ToolCallProgress where
  name : Text
  arguments : Text
  deriving DecidableEq, Repr

/-- `toolChoiceProgress`. -/
structure ToolChoiceProgress where
  calls : Finmap fun _ : Int => ToolCallProgress
  boundaryDeclared : Bool
  deriving DecidableEq

def ToolChoiceProgress.empty : ToolChoiceProgress := ⟨∅, false⟩

structure ToolCallTracker where
  choices : Finmap fun _ : Int => ToolChoiceProgress
  deriving DecidableEq

/-- The zero value, which is ready for use. -/
def ToolCallTracker.zero : ToolCallTracker := ⟨∅⟩

/-- `json.Valid`. -/
structure JsonScanner where
  valid : Text → Bool
  blank : ∀ text, trimSpace text = [] → valid text = false

variable (json : JsonScanner)

def toolChoiceComplete (choice : ToolChoiceProgress) : Bool :=
  choice.boundaryDeclared && decide (choice.calls ≠ ∅) &&
    decide (∀ index ∈ choice.calls.keys, ∀ call ∈ choice.calls.lookup index,
      ¬ (trimSpace call.arguments = [] ∨ json.valid call.arguments = false))

/-- One turn of the loop over the calls of a choice. -/
def observeCall (calls : Finmap fun _ : Int => ToolCallProgress) (call : ParsedToolCall) :
    Finmap fun _ : Int => ToolCallProgress :=
  let progress := (calls.lookup call.index).getD ⟨[], []⟩
  calls.insert call.index ⟨progress.name ++ call.name, progress.arguments ++ call.arguments⟩

/-- The calls and the boundary of a choice are added to its progress. -/
def ToolChoiceProgress.observe (progress : ToolChoiceProgress) (choice : ParsedToolChoice) :
    ToolChoiceProgress :=
  { calls := choice.calls.foldl observeCall progress.calls
    boundaryDeclared := progress.boundaryDeclared || choice.boundaryDeclared }

/-- One turn of the loop over the choices of a chunk. -/
def observeChoice (choices : Finmap fun _ : Int => ToolChoiceProgress)
    (choice : ParsedToolChoice) : Finmap fun _ : Int => ToolChoiceProgress :=
  let tracked := choices.lookup choice.index
  -- `progress == nil`
  if tracked.isNone ∧ choice.calls = [] then choices
  else
    let progress := (tracked.getD .empty).observe choice
    if toolChoiceComplete json progress then choices.erase choice.index
    else choices.insert choice.index progress

/-- `ObserveChunk`: the tracker afterwards, and the error. -/
def ToolCallTracker.observeChunk (tracker : ToolCallTracker) (payload : Option Json) :
    ToolCallTracker × Option String :=
  match parseToolCallChunk payload with
  | .error err => (tracker, some err)
  | .ok parsed => (⟨parsed.foldl (observeChoice json) tracker.choices⟩, none)

def ToolCallTracker.insideToolCall (tracker : ToolCallTracker) : Bool :=
  decide (tracker.choices.keys ≠ ∅)

/-- The tracker after a sequence of calls of `ObserveChunk`. -/
def observeAll (payloads : List (Option Json)) : ToolCallTracker :=
  payloads.foldl (fun tracker payload => (tracker.observeChunk json payload).1) .zero

/-! ## One choice -/

/-- What an entry makes of the progress of its choice. -/
def advance (tracked : Option ToolChoiceProgress) (choice : ParsedToolChoice) :
    Option ToolChoiceProgress :=
  if tracked.isNone ∧ choice.calls = [] then none
  else
    let progress := (tracked.getD .empty).observe choice
    if toolChoiceComplete json progress then none else some progress

/-- What a delta makes of the progress of its call. -/
def extend (tracked : Option ToolCallProgress) (call : ParsedToolCall) : Option ToolCallProgress :=
  let progress := tracked.getD ⟨[], []⟩
  some ⟨progress.name ++ call.name, progress.arguments ++ call.arguments⟩

/-- An entry of a choice that is tracked, or that it starts. -/
theorem advance_started {entry : ParsedToolChoice} (h : tracked.isSome = true ∨ entry.calls ≠ []) :
    advance json tracked entry =
      if toolChoiceComplete json ((tracked.getD .empty).observe entry) then none
      else some ((tracked.getD .empty).observe entry) := by
  refine if_neg fun hskip => ?_
  rcases h with hsome | hcalls
  · rw [Option.isNone_iff_eq_none.mp hskip.1] at hsome
    exact absurd hsome (by simp)
  · exact hcalls hskip.2

theorem observeCall_eq : observeCall = Keyed.step ParsedToolCall.index extend := rfl

theorem observeChoice_eq :
    observeChoice json = Keyed.step ParsedToolChoice.index (advance json) := by
  funext choices choice
  unfold observeChoice Keyed.step advance
  dsimp only
  split
  · rename_i h
    -- there was no entry, and there is none
    rw [← Option.isNone_iff_eq_none.mp h.1, Keyed.update_lookup]
  · split <;> rfl

/-- The tracker after entries, seen at one choice. -/
theorem lookup_observeChoice (choices : Finmap fun _ : Int => ToolChoiceProgress)
    (entries : List ParsedToolChoice) (index : Int) :
    (entries.foldl (observeChoice json) choices).lookup index =
      (Keyed.labelsOf ParsedToolChoice.index index entries).foldl (advance json)
        (choices.lookup index) := by
  rw [observeChoice_eq]
  exact Keyed.lookup_steps _ _ choices entries index

theorem foldl_extend_some (progress : ToolCallProgress) (calls : List ParsedToolCall) :
    calls.foldl extend (some progress) =
      some ⟨progress.name ++ calls.flatMap (·.name),
        progress.arguments ++ calls.flatMap (·.arguments)⟩ := by
  induction calls generalizing progress with
  | nil => simp
  | cons call calls ih =>
    show calls.foldl extend (some _) = _
    rw [ih]
    simp

/-- The fragments of a call are put together. -/
theorem foldl_extend (calls : List ParsedToolCall) :
    calls.foldl extend none =
      if calls = [] then none
      else some ⟨calls.flatMap (·.name), calls.flatMap (·.arguments)⟩ := by
  cases calls with
  | nil => rfl
  | cons call calls =>
    show calls.foldl extend (some _) = _
    rw [foldl_extend_some]
    simp

/-! ## What the tracker is for -/

def callsOf (entries : List ParsedToolChoice) : List ParsedToolCall := entries.flatMap (·.calls)

/-- The arguments of a tool index, put together from their fragments. -/
def argumentsOf (entries : List ParsedToolChoice) (index : Int) : Text :=
  (Keyed.labelsOf ParsedToolCall.index index (callsOf entries)).flatMap (·.arguments)

/-- A boundary was declared in or after the entry with the first deltas. -/
def boundarySeen (entries : List ParsedToolChoice) : Bool :=
  (entries.dropWhile (·.calls.isEmpty)).any (·.boundaryDeclared)

/-- The arguments of every call are one complete JSON value. -/
def ArgumentsComplete (entries : List ParsedToolChoice) : Prop :=
  ∀ call ∈ callsOf entries, json.valid (argumentsOf entries call.index) = true

instance (entries : List ParsedToolChoice) : Decidable (ArgumentsComplete json entries) :=
  inferInstanceAs (Decidable (∀ call ∈ callsOf entries, _))

/-- The entries complete a choice that had no progress before them. -/
def Completed (entries : List ParsedToolChoice) : Prop :=
  callsOf entries ≠ [] ∧ boundarySeen entries = true ∧ ArgumentsComplete json entries

instance (entries : List ParsedToolChoice) : Decidable (Completed json entries) :=
  inferInstanceAs (Decidable (_ ∧ _ ∧ _))

/-- There are deltas, and no boundary or arguments that are not complete. -/
def Unfinished (entries : List ParsedToolChoice) : Prop :=
  callsOf entries ≠ [] ∧ (boundarySeen entries = false ∨ ¬ ArgumentsComplete json entries)

instance (entries : List ParsedToolChoice) : Decidable (Unfinished json entries) :=
  inferInstanceAs (Decidable (_ ∧ (_ ∨ _)))

/-- The entries of a choice since it was last completed. -/
def sinceCompleted (entries : List ParsedToolChoice) : List ParsedToolChoice :=
  entries.foldl
    (fun current entry => if Completed json (current ++ [entry]) then [] else current ++ [entry]) []

/-! ## The state of the tracker -/

/-- The progress that entries amount to. -/
def progressOf (entries : List ParsedToolChoice) : ToolChoiceProgress :=
  ⟨(callsOf entries).foldl observeCall ∅, boundarySeen entries⟩

/-- What is tracked after entries that have not completed the choice. -/
def reflected (entries : List ParsedToolChoice) : Option ToolChoiceProgress :=
  if callsOf entries = [] then none else some (progressOf entries)

theorem callsOf_append (entries more : List ParsedToolChoice) :
    callsOf (entries ++ more) = callsOf entries ++ callsOf more :=
  List.flatMap_append

theorem callsOf_singleton (entry : ParsedToolChoice) : callsOf [entry] = entry.calls := by
  simp [callsOf]

theorem lookup_progressOf (entries : List ParsedToolChoice) (index : Int) :
    (progressOf entries).calls.lookup index =
      if Keyed.labelsOf ParsedToolCall.index index (callsOf entries) = [] then none
      else some
        ⟨(Keyed.labelsOf ParsedToolCall.index index (callsOf entries)).flatMap (·.name),
          argumentsOf entries index⟩ := by
  show ((callsOf entries).foldl observeCall ∅).lookup index = _
  rw [observeCall_eq, ← Keyed.steps, Keyed.lookup_steps, Finmap.lookup_empty, foldl_extend]
  rfl

theorem labelsOf_ne_nil_iff {calls : List ParsedToolCall} {index : Int} :
    Keyed.labelsOf ParsedToolCall.index index calls ≠ [] ↔ ∃ call ∈ calls, call.index = index := by
  simp [Keyed.labelsOf, List.filter_eq_nil_iff]

/-- The keys of the calls are the indices of the deltas. -/
theorem mem_progressOf {index : Int} :
    index ∈ (progressOf entries).calls ↔ ∃ call ∈ callsOf entries, call.index = index := by
  rw [← labelsOf_ne_nil_iff, ← Finmap.lookup_isSome, lookup_progressOf]
  split <;> simp [*]

/-- `toolChoiceComplete` reads the completion off the progress. -/
theorem toolChoiceComplete_progressOf (hcalls : callsOf entries ≠ []) :
    toolChoiceComplete json (progressOf entries) = true ↔ Completed json entries := by
  have hne : (progressOf entries).calls ≠ ∅ := by
    obtain ⟨call, hcall⟩ := List.exists_mem_of_ne_nil _ hcalls
    intro hempty
    have hmem := mem_progressOf.mpr ⟨call, hcall, rfl⟩
    rw [hempty] at hmem
    exact Finmap.notMem_empty hmem
  have harguments : (∀ index ∈ (progressOf entries).calls.keys,
      ∀ call ∈ (progressOf entries).calls.lookup index,
        ¬ (trimSpace call.arguments = [] ∨ json.valid call.arguments = false)) ↔
      ArgumentsComplete json entries := by
    constructor
    · intro h call hcall
      have hlabels := labelsOf_ne_nil_iff.mpr ⟨call, hcall, rfl⟩
      have hlookup := lookup_progressOf entries call.index
      rw [if_neg hlabels] at hlookup
      have := h call.index (Finmap.mem_keys.mpr (mem_progressOf.mpr ⟨call, hcall, rfl⟩)) _ hlookup
      simpa using (not_or.mp this).2
    · intro h index hindex progress hprogress
      obtain ⟨call, hcall, rfl⟩ := mem_progressOf.mp (Finmap.mem_keys.mp hindex)
      have hlabels := labelsOf_ne_nil_iff.mpr ⟨call, hcall, rfl⟩
      have hlookup := lookup_progressOf entries call.index
      rw [if_neg hlabels, Option.mem_def.mp hprogress] at hlookup
      have hvalid := h call hcall
      rw [Option.some.inj hlookup]
      rintro (hblank | hinvalid)
      · exact absurd (json.blank _ hblank) (by simp [hvalid])
      · exact absurd hinvalid (by simp [hvalid])
  unfold toolChoiceComplete Completed
  rw [Bool.and_eq_true, Bool.and_eq_true, decide_eq_true_eq, decide_eq_true_eq, harguments]
  exact ⟨fun h => ⟨hcalls, h.1.1, h.2⟩, fun h => ⟨⟨h.2.1, hne⟩, h.2.2⟩⟩

/-- An entry is added to the progress, which starts with the first deltas. -/
theorem observe_reflected {current : List ParsedToolChoice} {entry : ParsedToolChoice}
    (hcalls : callsOf (current ++ [entry]) ≠ []) :
    ((reflected current).getD .empty).observe entry = progressOf (current ++ [entry]) := by
  rw [callsOf_append, callsOf_singleton] at hcalls
  by_cases hcurrent : callsOf current = []
  · have hall : ∀ e ∈ current, e.calls.isEmpty = true := fun e he =>
      List.isEmpty_iff.mpr (List.flatMap_eq_nil_iff.mp hcurrent e he)
    have hentry : entry.calls.isEmpty = false := by
      rw [hcurrent, List.nil_append] at hcalls
      exact List.isEmpty_eq_false_iff.mpr hcalls
    have hseen : boundarySeen (current ++ [entry]) = entry.boundaryDeclared := by
      rw [boundarySeen, List.dropWhile_append_of_pos hall,
        List.dropWhile_cons_of_neg (by simp [hentry])]
      simp
    rw [reflected, if_pos hcurrent, progressOf, callsOf_append, hcurrent, callsOf_singleton, hseen]
    rfl
  · have hdrop : (current ++ [entry]).dropWhile (·.calls.isEmpty) =
        current.dropWhile (·.calls.isEmpty) ++ [entry] := by
      rw [List.dropWhile_append, if_neg]
      rw [List.isEmpty_iff, List.dropWhile_eq_nil_iff]
      exact fun hall => hcurrent (List.flatMap_eq_nil_iff.mpr fun e he =>
        List.isEmpty_iff.mp (hall e he))
    have hseen : boundarySeen (current ++ [entry]) =
        (boundarySeen current || entry.boundaryDeclared) := by
      rw [boundarySeen, hdrop, List.any_append]
      simp [boundarySeen]
    rw [reflected, if_neg hcurrent, progressOf.eq_1 (current ++ [entry]), callsOf_append,
      callsOf_singleton, hseen, List.foldl_append]
    rfl

/-- One entry: the choice is completed and forgotten, or the entry is added to what the
tracker reflects. -/
theorem advance_reflected (current : List ParsedToolChoice) (entry : ParsedToolChoice) :
    advance json (reflected current) entry =
      reflected (if Completed json (current ++ [entry]) then [] else current ++ [entry]) := by
  by_cases hcalls : callsOf (current ++ [entry]) = []
  · obtain ⟨hcurrent, hentry⟩ : callsOf current = [] ∧ entry.calls = [] := by
      rwa [callsOf_append, callsOf_singleton, List.append_eq_nil_iff] at hcalls
    rw [if_neg fun h => h.1 hcalls, reflected, if_pos hcurrent, reflected, if_pos hcalls]
    exact if_pos ⟨rfl, hentry⟩
  · have hstarted : ¬ ((reflected current).isNone ∧ entry.calls = []) := by
      rintro ⟨hnone, hentry⟩
      refine hcalls ?_
      rw [callsOf_append, callsOf_singleton, hentry, List.append_nil]
      by_contra hcurrent
      rw [reflected, if_neg hcurrent] at hnone
      exact absurd hnone (by simp)
    rw [advance, if_neg hstarted, observe_reflected hcalls]
    dsimp only
    by_cases hcompleted : Completed json (current ++ [entry])
    · rw [if_pos ((toolChoiceComplete_progressOf json hcalls).mpr hcompleted), if_pos hcompleted]
      rfl
    · rw [if_neg fun h => hcompleted ((toolChoiceComplete_progressOf json hcalls).mp h),
        if_neg hcompleted, reflected, if_neg hcalls]

/-- A whole run of entries of one choice. -/
theorem advance_run (entries : List ParsedToolChoice) :
    entries.foldl (advance json) none = reflected (sinceCompleted json entries) := by
  -- from any point of the run on, not only from its start
  have hfrom : ∀ current : List ParsedToolChoice,
      entries.foldl (advance json) (reflected current) =
        reflected (entries.foldl (fun current entry =>
          if Completed json (current ++ [entry]) then [] else current ++ [entry]) current) := by
    induction entries with
    | nil => exact fun _ => rfl
    | cons entry entries ih =>
      intro current
      rw [List.foldl_cons, List.foldl_cons, advance_reflected]
      exact ih _
  exact hfrom []

/-- What is left since the last completion is not complete. -/
theorem not_completed_sinceCompleted (entries : List ParsedToolChoice) :
    ¬ Completed json (sinceCompleted json entries) := by
  induction entries using List.reverseRecOn with
  | nil => exact fun h => h.1 rfl
  | append_singleton entries entry _ =>
    rw [sinceCompleted, List.foldl_append]
    show ¬ Completed json (if Completed json (sinceCompleted json entries ++ [entry]) then []
      else sinceCompleted json entries ++ [entry])
    split
    · exact fun h => h.1 rfl
    · assumption

/-- A choice is tracked when its entries since the last completion are unfinished. -/
theorem reflected_isSome_iff (entries : List ParsedToolChoice) :
    (reflected (sinceCompleted json entries)).isSome = true ↔
      Unfinished json (sinceCompleted json entries) := by
  have hopen := not_completed_sinceCompleted json entries
  unfold reflected Unfinished
  by_cases hcalls : callsOf (sinceCompleted json entries) = []
  · simp [hcalls]
  · rw [if_neg hcalls]
    refine iff_of_true rfl ⟨hcalls, ?_⟩
    by_contra hboth
    obtain ⟨hseen, hcomplete⟩ := not_or.mp hboth
    exact hopen ⟨hcalls, by simpa using hseen, not_not.mp hcomplete⟩

/-! ## Chunks -/

/-- The entries of the chunks that could be parsed. -/
def entriesOf (payloads : List (Option Json)) : List ParsedToolChoice :=
  payloads.flatMap fun payload => (parseToolCallChunk payload).toOption.getD []

/-- The entries for one choice. -/
def choiceEntries (index : Int) (payloads : List (Option Json)) : List ParsedToolChoice :=
  Keyed.labelsOf ParsedToolChoice.index index (entriesOf payloads)

theorem entriesOf_append (payloads more : List (Option Json)) :
    entriesOf (payloads ++ more) = entriesOf payloads ++ entriesOf more :=
  List.flatMap_append

theorem observeChunk_choices (tracker : ToolCallTracker) (payload : Option Json) :
    (tracker.observeChunk json payload).1.choices =
      ((parseToolCallChunk payload).toOption.getD []).foldl (observeChoice json)
        tracker.choices := by
  unfold ToolCallTracker.observeChunk
  split
  · rename_i hparse
    rw [hparse]
    rfl
  · rename_i hparse
    rw [hparse]
    rfl

/-- The tracker after chunks has seen their entries. -/
theorem observeAll_choices (payloads : List (Option Json)) :
    (observeAll json payloads).choices = (entriesOf payloads).foldl (observeChoice json) ∅ := by
  induction payloads using List.reverseRecOn with
  | nil => rfl
  | append_singleton payloads payload ih =>
    rw [observeAll, List.foldl_append]
    show ((observeAll json payloads).observeChunk json payload).1.choices = _
    rw [observeChunk_choices, ih, entriesOf_append, List.foldl_append]
    simp [entriesOf]

theorem observeAll_congr {payloads payloads' : List (Option Json)}
    (h : (entriesOf payloads).foldl (observeChoice json) ∅ =
      (entriesOf payloads').foldl (observeChoice json) ∅) :
    observeAll json payloads = observeAll json payloads' := by
  have hchoices : (observeAll json payloads).choices = (observeAll json payloads').choices := by
    rw [observeAll_choices, observeAll_choices, h]
  exact congrArg ToolCallTracker.mk hchoices

theorem lookup_observeAll (payloads : List (Option Json)) (index : Int) :
    (observeAll json payloads).choices.lookup index =
      reflected (sinceCompleted json (choiceEntries index payloads)) := by
  rw [observeAll_choices, lookup_observeChoice, Finmap.lookup_empty, ← advance_run]
  rfl

/-! ## Fragmentation -/

/-- A fragment of a call, and the chunk it stands in. -/
structure Fragment where
  /-- the choice -/
  index : Int
  /-- the entries before the one of the choice -/
  before : List ParsedToolChoice
  /-- the calls of that entry before this one -/
  earlier : List ParsedToolCall
  call : Int
  name : Text
  arguments : Text
  later : List ParsedToolCall
  boundaryDeclared : Bool
  after : List ParsedToolChoice

/-- The entries of the chunk. -/
def Fragment.chunk (f : Fragment) : List ParsedToolChoice :=
  f.before ++
    ⟨f.index, f.earlier ++ ⟨f.call, f.name, f.arguments⟩ :: f.later, f.boundaryDeclared⟩ :: f.after

/-- The chunk with a first piece of the fragment, and everything before it. -/
def Fragment.first (f : Fragment) (name arguments : Text) : List ParsedToolChoice :=
  f.before ++ [⟨f.index, f.earlier ++ [⟨f.call, name, arguments⟩], false⟩]

/-- What follows the first piece. -/
def Fragment.rest (f : Fragment) (name arguments : Text) : Fragment :=
  { f with before := [], earlier := [], name := name, arguments := arguments }

/-- Chunks that a chunk is split into at a fragment.  The finish reason stays on the last. -/
inductive Split : Fragment → List (List ParsedToolChoice) → Prop
  | last (f : Fragment) : Split f [f.chunk]
  | piece {f : Fragment} {name name' arguments arguments' : Text}
      {chunks : List (List ParsedToolChoice)} (hname : f.name = name ++ name')
      (harguments : f.arguments = arguments ++ arguments')
      (hrest : Split (f.rest name' arguments') chunks) :
      Split f (f.first name arguments :: chunks)

/-- A boundary was declared for the progress of a choice. -/
def Declared (tracked : Option ToolChoiceProgress) : Prop :=
  ∃ progress, tracked = some progress ∧ progress.boundaryDeclared = true

instance (tracked : Option ToolChoiceProgress) : Decidable (Declared tracked) :=
  decidable_of_iff (tracked.any (·.boundaryDeclared) = true) (by simp [Declared, Option.any_eq_true])

theorem not_declared_some {progress : ToolChoiceProgress} (h : progress.boundaryDeclared = false) :
    ¬ Declared (some progress) := by
  rintro ⟨_, hprogress, hdeclared⟩
  rw [← Option.some.inj hprogress, h] at hdeclared
  exact absurd hdeclared (by simp)

theorem observeCall_twice (calls : Finmap fun _ : Int => ToolCallProgress) (index : Int)
    (name name' arguments arguments' : Text) :
    observeCall (observeCall calls ⟨index, name, arguments⟩) ⟨index, name', arguments'⟩ =
      observeCall calls ⟨index, name ++ name', arguments ++ arguments'⟩ := by
  simp [observeCall, Finmap.lookup_insert, Finmap.insert_insert]

/-- Without a boundary nothing is complete. -/
theorem advance_undeclared (h : ¬ Declared tracked) (entry : ParsedToolChoice)
    (hstarted : tracked.isSome = true ∨ entry.calls ≠ [])
    (hboundary : entry.boundaryDeclared = false) :
    advance json tracked entry = some ((tracked.getD .empty).observe entry) ∧
      ((tracked.getD .empty).observe entry).boundaryDeclared = false := by
  have hnone : (tracked.getD .empty).boundaryDeclared = false := by
    cases tracked with
    | none => rfl
    | some progress =>
      exact Bool.not_eq_true _ ▸ fun hdeclared => h ⟨progress, rfl, hdeclared⟩
  have hopen : ((tracked.getD .empty).observe entry).boundaryDeclared = false := by
    simp [ToolChoiceProgress.observe, hnone, hboundary]
  refine ⟨?_, hopen⟩
  rw [advance_started json hstarted, if_neg]
  simp [toolChoiceComplete, hopen]

/-- Entries without a boundary leave the choice undeclared, and it is tracked when it was, or
when one of them has calls. -/
theorem advance_run_undeclared (h : ¬ Declared tracked)
    (hboundary : ∀ e ∈ entries, e.boundaryDeclared = false) :
    ¬ Declared (entries.foldl (advance json) tracked) ∧
      (tracked.isSome = true ∨ (∃ e ∈ entries, e.calls ≠ []) →
        (entries.foldl (advance json) tracked).isSome = true) := by
  induction entries generalizing tracked with
  | nil => exact ⟨h, fun hor => hor.elim id fun ⟨_, hmem, _⟩ => absurd hmem List.not_mem_nil⟩
  | cons entry entries ih =>
    obtain ⟨hentry, hentries⟩ := List.forall_mem_cons.mp hboundary
    rw [List.foldl_cons]
    by_cases hstarted : tracked.isSome = true ∨ entry.calls ≠ []
    · obtain ⟨hnext, hopen⟩ := advance_undeclared json h entry hstarted hentry
      have hundeclared : ¬ Declared (advance json tracked entry) := by
        rw [hnext]
        exact not_declared_some hopen
      obtain ⟨hrun, hsome⟩ := ih hundeclared hentries
      exact ⟨hrun, fun _ => hsome (.inl (by rw [hnext]; rfl))⟩
    · -- the entry is skipped
      obtain ⟨hnone, hcalls⟩ := not_or.mp hstarted
      have hskip : advance json tracked entry = tracked := by
        rw [Option.not_isSome_iff_eq_none.mp hnone]
        exact if_pos ⟨rfl, not_not.mp hcalls⟩
      rw [hskip]
      obtain ⟨hrun, hsome⟩ := ih h hentries
      refine ⟨hrun, fun hor => hsome (hor.imp id ?_)⟩
      rintro ⟨e, he, hne⟩
      rcases List.mem_cons.mp he with rfl | he
      · exact absurd hne hcalls
      · exact ⟨e, he, hne⟩

/-- An entry and the two that it is split into at a fragment. -/
theorem advance_split (h : ¬ Declared tracked) (index call : Int)
    (earlier later : List ParsedToolCall) (name name' arguments arguments' : Text)
    (boundary : Bool) :
    advance json (advance json tracked ⟨index, earlier ++ [⟨call, name, arguments⟩], false⟩)
        ⟨index, ⟨call, name', arguments'⟩ :: later, boundary⟩ =
      advance json tracked
        ⟨index, earlier ++ ⟨call, name ++ name', arguments ++ arguments'⟩ :: later, boundary⟩ := by
  obtain ⟨hfirst, _⟩ := advance_undeclared json h
    ⟨index, earlier ++ [⟨call, name, arguments⟩], false⟩ (.inr (by simp)) rfl
  rw [hfirst, advance_started json (.inl rfl), advance_started json (.inr (by simp))]
  have hobserve : (((tracked.getD .empty).observe
        ⟨index, earlier ++ [⟨call, name, arguments⟩], false⟩).observe
        ⟨index, ⟨call, name', arguments'⟩ :: later, boundary⟩) =
      (tracked.getD .empty).observe
        ⟨index, earlier ++ ⟨call, name ++ name', arguments ++ arguments'⟩ :: later, boundary⟩ := by
    simp [ToolChoiceProgress.observe, observeCall_twice]
  rw [Option.getD_some, hobserve]

/-- A chunk and the chunks that it is split into at a fragment. -/
theorem split_run {f : Fragment} {chunks : List (List ParsedToolChoice)} (hsplit : Split f chunks)
    (choices : Finmap fun _ : Int => ToolChoiceProgress)
    (h : ¬ Declared ((f.before.foldl (observeChoice json) choices).lookup f.index)) :
    chunks.flatten.foldl (observeChoice json) choices =
      f.chunk.foldl (observeChoice json) choices := by
  induction hsplit generalizing choices with
  | last f => rw [List.flatten_singleton]
  | @piece f name name' arguments arguments' chunks hname harguments hrest ih =>
    rw [List.flatten_cons, List.foldl_append, Fragment.first, List.foldl_append, Fragment.chunk,
      List.foldl_append, hname, harguments]
    -- from here on, the state after the entries before that of the choice
    generalize f.before.foldl (observeChoice json) choices = choices at h ⊢
    obtain ⟨hfirst, hopen⟩ := advance_undeclared json h
      ⟨f.index, f.earlier ++ [⟨f.call, name, arguments⟩], false⟩ (.inr (by simp)) rfl
    rw [List.foldl_cons, List.foldl_nil, ih]
    · show (f.rest name' arguments').chunk.foldl _ _ = _
      rw [Fragment.chunk]
      show List.foldl _ _ (_ :: f.after) = _
      rw [List.foldl_cons, List.foldl_cons]
      congr 1
      refine Finmap.ext_lookup fun index => ?_
      rw [observeChoice_eq, Keyed.lookup_step, Keyed.lookup_step, Keyed.lookup_step]
      dsimp only [Fragment.rest]
      split
      · rename_i hindex
        rw [← hindex, List.nil_append]
        exact advance_split json h f.index f.call f.earlier f.later name name' arguments arguments'
          f.boundaryDeclared
      · rfl
    · show ¬ Declared ((observeChoice json choices _).lookup f.index)
      rw [observeChoice_eq, Keyed.lookup_step, if_pos rfl, hfirst]
      exact not_declared_some hopen

/-! ## A scanner -/

/-- The parser of `internal/migrate/jsonprefix.go` as a scanner. -/
def prefixScanner : JsonScanner where
  valid text :=
    let scan := (JsonPrefix.parseValue (JsonPrefix.maxJSONPrefixDepth + 1)).run (Utf8.encode text)
    decide (trimSpace text ≠ []) && decide (scan.status = .complete) &&
      decide (JsonPrefix.skipWhitespace scan.rest = [])
  blank text h := by simp [h]

/-! ## The tracker is exact -/

/-- The entries of a choice chunk by chunk: what a chunk has for the choice, as one entry. -/
def chunkEntries (index : Int) (payloads : List (Option Json)) : List ParsedToolChoice :=
  payloads.map fun payload =>
    let entries := Keyed.labelsOf ParsedToolChoice.index index
      ((parseToolCallChunk payload).toOption.getD [])
    ⟨index, callsOf entries, entries.any (·.boundaryDeclared)⟩

/-- A chunk that only concerns one choice. -/
def Concerns (index : Int) (payload : Option Json) : Prop :=
  ∀ entry ∈ entriesOf [payload], entry.index = index

theorem keys_ne_empty_iff (choices : Finmap fun _ : Int => ToolChoiceProgress) :
    choices.keys ≠ ∅ ↔ ∃ index, (choices.lookup index).isSome = true := by
  rw [← Finset.nonempty_iff_ne_empty]
  exact exists_congr fun index => by rw [Finmap.mem_keys, Finmap.lookup_isSome]

theorem entriesOf_map {payloads : List (Option Json)} {chunks : List (List ParsedToolChoice)}
    (h : payloads.map parseToolCallChunk = chunks.map Except.ok) :
    entriesOf payloads = chunks.flatten := by
  have hdata : payloads.map (fun payload => (parseToolCallChunk payload).toOption.getD []) =
      chunks := by
    have := congrArg (List.map fun parsed => parsed.toOption.getD []) h
    simpa [Function.comp_def, Except.toOption] using this
  rw [entriesOf, List.flatMap_def, hdata]

/-- The tracker follows each choice exactly, whatever the chunks its calls come in: a choice
is tracked when it has deltas since it was last completed and either no boundary was declared
in or after the entry with the first of them, or some arguments are not complete; a migration
point is inside a tool call when some choice is tracked; a fragment may be split over several
chunks; chunks of different choices may be exchanged; and a chunk with an error changes
nothing. -/
theorem tracker_exact :
    (∀ payloads index,
      ((observeAll json payloads).choices.lookup index).isSome = true ↔
        Unfinished json (sinceCompleted json (choiceEntries index payloads))) ∧
    (∀ payloads, (observeAll json payloads).insideToolCall = true ↔
      ∃ index, ((observeAll json payloads).choices.lookup index).isSome = true) ∧
    (∀ history rest whole pieces f chunks, parseToolCallChunk whole = .ok f.chunk →
      Split f chunks → pieces.map parseToolCallChunk = chunks.map Except.ok →
      ¬ Declared ((f.before.foldl (observeChoice json)
        (observeAll json history).choices).lookup f.index) →
      observeAll json (history ++ pieces ++ rest) = observeAll json (history ++ whole :: rest)) ∧
    (∀ history rest index index' payload payload', index ≠ index' → Concerns index payload →
      Concerns index' payload' →
      observeAll json (history ++ payload :: payload' :: rest) =
        observeAll json (history ++ payload' :: payload :: rest)) ∧
    (∀ payloads payload,
      ((observeAll json payloads).observeChunk json payload).2.isSome = true →
        ((observeAll json payloads).observeChunk json payload).1 = observeAll json payloads) := by
  refine ⟨fun payloads index => ?_, fun payloads => ?_,
    fun history rest whole pieces f chunks hwhole hsplit hpieces hopen => ?_,
    fun history rest index index' payload payload' hne h h' => ?_, fun payloads payload h => ?_⟩
  · rw [lookup_observeAll, reflected_isSome_iff]
  · rw [ToolCallTracker.insideToolCall, decide_eq_true_eq, keys_ne_empty_iff]
  · refine observeAll_congr json ?_
    have hone : entriesOf [whole] = f.chunk := by simp [entriesOf, hwhole, Except.toOption]
    rw [List.append_cons history whole rest, entriesOf_append, entriesOf_append, entriesOf_append,
      entriesOf_append, hone, entriesOf_map hpieces, List.foldl_append, List.foldl_append,
      List.foldl_append, List.foldl_append]
    rw [observeAll_choices] at hopen
    rw [split_run json hsplit _ hopen]
  · refine observeAll_congr json ?_
    have hpair : ∀ p q : Option Json,
        (entriesOf (history ++ p :: q :: rest)).foldl (observeChoice json) ∅ =
          (entriesOf rest).foldl (observeChoice json)
            (Keyed.steps ParsedToolChoice.index (advance json)
              ((entriesOf history).foldl (observeChoice json) ∅)
              (entriesOf [p] ++ entriesOf [q])) := by
      intro p q
      rw [Keyed.steps, ← observeChoice_eq, ← List.foldl_append, ← List.foldl_append]
      simp [entriesOf]
    rw [hpair, hpair, Keyed.steps_comm _ _ _ hne h h']
  · unfold ToolCallTracker.observeChunk at h ⊢
    split
    · rfl
    · rename_i hparse
      rw [hparse] at h
      exact absurd h (by simp)

/-- The payload of a chunk. -/
def chunkPayload (choices : List Json) : Option Json := some (.obj [("choices", .arr choices)])

/-- An entry of choice 0 with one call. -/
def callChoice (arguments : String) (more : List (String × Json)) : Json :=
  .obj ([("index", .num "0"), ("delta", .obj [("tool_calls", .arr [.obj [("index", .num "0"),
    ("function", .obj [("arguments", .str arguments)])]])])] ++ more)

/-- An argument that comes in two chunks, the second with the finish reason. -/
theorem tracker_exact_pieces :
    observeAll prefixScanner
        [chunkPayload [callChoice "\x7b" []],
          chunkPayload [callChoice "\x7d" [("finish_reason", .str "tool_calls")]]] =
      observeAll prefixScanner
        [chunkPayload [callChoice "\x7b\x7d" [("finish_reason", .str "tool_calls")]]] :=
  (tracker_exact prefixScanner).2.2.1 [] []
    (chunkPayload [callChoice "\x7b\x7d" [("finish_reason", .str "tool_calls")]])
    [chunkPayload [callChoice "\x7b" []],
      chunkPayload [callChoice "\x7d" [("finish_reason", .str "tool_calls")]]]
    ⟨0, [], [], 0, [], "\x7b\x7d".toList, [], true, []⟩ _ (by decide)
    (@Split.piece _ [] [] "\x7b".toList "\x7d".toList _ rfl (by decide) (.last _)) (by decide)
    (by decide)

/-- Within one chunk the order of its entries matters: a boundary that stands before the first
delta of its choice is not seen. -/
theorem boundary_before_deltas_unseen :
    let payloads := [chunkPayload [
      .obj [("index", .num "0"), ("finish_reason", .str "tool_calls")],
      callChoice "\x7b\x7d" []]]
    ¬ (((observeAll prefixScanner payloads).choices.lookup 0).isSome = true ↔
      Unfinished prefixScanner (sinceCompleted prefixScanner (chunkEntries 0 payloads))) := by
  decide +kernel

end Streamweld.Migrate.ToolCall
