import Streamweld.Journal.Types
import Streamweld.Lib.JsonMap
import Streamweld.Migrate.Seam

/-!
# Upstream chunks and the progress of a stream

`observeOpenAIChunk` and `streamProgress` (`internal/proxy/chunk.go`).  The data of a
frame is represented by the JSON value that it parses to.  Blanks in it are not, except
those that the code can see: `isPresentJSON` takes `[ ]` for something and `[]` for nothing.
Token counts are natural numbers: a sum that does not fit into 64 bits is out of scope.
-/

namespace Streamweld.Proxy

open Streamweld.Journal Streamweld.Lib Streamweld.Migrate

/-! ## Chunks -/

/-- An element of `openAIChunk.Choices`. -/
structure OpenAIChoice where
  index : Int
  text : Option String
  finishReason : Option String
  delta : Option Json
  deriving DecidableEq, Repr

def OpenAIChoice.zero : OpenAIChoice :=
  { index := 0, text := none, finishReason := none, delta := none }

def choiceFields : Json.Fields OpenAIChoice := [
  ("index", Json.decodeInt fun n c => { c with index := n }),
  ("text", Json.decodeStringPointer fun s c => { c with text := s }),
  ("finish_reason", Json.decodeStringPointer fun s c => { c with finishReason := s }),
  ("delta", Json.decodeRaw fun v c => { c with delta := some v })]

/-- `openAIChunk`. -/
structure OpenAIChunk where
  choices : Json.Slice OpenAIChoice
  usage : Option Usage
  error : Option Json
  deriving DecidableEq, Repr

def OpenAIChunk.zero : OpenAIChunk := { choices := .nil, usage := none, error := none }

def chunkFields : Json.Fields OpenAIChunk := [
  ("choices", Json.decodeSlice choiceFields .zero (·.choices) fun s c => { c with choices := s }),
  ("usage", Json.decodePointer usageFields ⟨0, 0, 0, false⟩ (·.usage)
    fun u c => { c with usage := u }),
  ("error", Json.decodeRaw fun v c => { c with error := some v })]

/-- `chatDelta`. -/
structure ChatDelta where
  content : Option String
  toolCalls : Option Json
  functionCall : Option Json
  deriving DecidableEq, Repr

def ChatDelta.zero : ChatDelta := { content := none, toolCalls := none, functionCall := none }

def deltaFields : Json.Fields ChatDelta := [
  ("content", Json.decodeStringPointer fun s d => { d with content := s }),
  ("tool_calls", Json.decodeRaw fun v d => { d with toolCalls := some v }),
  ("function_call", Json.decodeRaw fun v d => { d with functionCall := some v })]

/-- `chunkObservation`. -/
structure ChunkObservation where
  textDelta : Text
  usage : Option Usage
  finishReason : String
  errorPayload : Option Json
  toolCall : Bool
  deriving DecidableEq, Repr

/-- `isPresentJSON`.  It compares the bytes of a raw message: an empty array that is written
with a blank between its brackets, as `blank` says, is present. -/
def isPresentJSON (blank : Bool) (value : Option Json) : Bool :=
  value.any fun v => decide (v ≠ .null ∧ (v ≠ .arr [] ∨ blank = true))

/-- The string that a pointer refers to, if any. -/
def textOf (s : Option String) : Text := (s.getD "").toList

/-- The part of `observeOpenAIChunk` about the delta of a choice. -/
def observeDelta (blank : Bool) (observation : ChunkObservation) :
    Option Json → Option ChunkObservation
  | none => some observation
  | some .null => some observation
  | some raw =>
    (Json.decodeStruct deltaFields raw .zero).map fun delta =>
      { observation with
        textDelta := observation.textDelta ++ textOf delta.content
        toolCall := observation.toolCall || isPresentJSON blank delta.toolCalls ||
          isPresentJSON blank delta.functionCall }

/-- One turn of the loop of `observeOpenAIChunk`. -/
def observeChoice (blank : Bool) (observation : ChunkObservation) (choice : OpenAIChoice) :
    Option ChunkObservation :=
  if choice.index ≠ 0 then some observation
  else
    observeDelta blank
      { observation with
        textDelta := observation.textDelta ++ textOf choice.text
        finishReason := choice.finishReason.getD observation.finishReason }
      choice.delta

/-- `observeOpenAIChunk`.  `blank` says that an empty array which a delta of choice 0 has for
its calls is written with a blank in it; nothing but `toolCall` depends on that. -/
def observeOpenAIChunk (data : Json) (blank : Bool := false) : Option ChunkObservation :=
  (Json.decodeStruct chunkFields data .zero).bind fun chunk =>
    chunk.choices.elements.foldlM (observeChoice blank)
      { textDelta := []
        usage := chunk.usage
        finishReason := ""
        errorPayload := chunk.error.filter (· ≠ .null)
        toolCall := false }

/-! ## Progress -/

/-- `streamProgress`. -/
structure StreamProgress where
  text : Text
  usage : Usage
  exactUsage : Bool
  toolCall : Bool
  attemptCompletionBase : Nat
  attemptPromptBase : Nat
  attemptBaseEstimated : Bool
  textBytesAtUsage : Nat
  deriving DecidableEq, Repr

def StreamProgress.zero : StreamProgress :=
  { text := []
    usage := ⟨0, 0, 0, false⟩
    exactUsage := false
    toolCall := false
    attemptCompletionBase := 0
    attemptPromptBase := 0
    attemptBaseEstimated := false
    textBytesAtUsage := 0 }

namespace StreamProgress

variable (p : StreamProgress)

/-- `Apply` of a usage, after the text has been added. -/
def applyUsage (usage : Usage) : StreamProgress :=
  let completion := max p.usage.completionTokens (p.attemptCompletionBase + usage.completionTokens)
  let prompt := max p.usage.promptTokens (p.attemptPromptBase + usage.promptTokens)
  { p with
    usage :=
      { promptTokens := prompt
        completionTokens := completion
        totalTokens := prompt + completion
        estimated := p.attemptBaseEstimated || usage.estimated }
    exactUsage := true
    textBytesAtUsage := byteLength p.text }

def apply (observation : ChunkObservation) : StreamProgress :=
  let p := { p with text := p.text ++ observation.textDelta }
  let p :=
    match observation.usage with
    | some usage => p.applyUsage usage
    | none => p
  { p with toolCall := p.toolCall || observation.toolCall }

def snapshot : Text × Usage :=
  let extraBytes := byteLength p.text - p.textBytesAtUsage
  if p.exactUsage = false ∨ extraBytes ≠ 0 then
    let completion := p.usage.completionTokens + extraBytes
    (p.text,
      { p.usage with
        completionTokens := completion
        totalTokens := p.usage.promptTokens + completion
        estimated := true })
  else (p.text, p.usage)

/-- `BeginAttempt`. -/
def beginAttempt : StreamProgress :=
  let usage := p.snapshot.2
  { p with
    usage := usage
    attemptCompletionBase := usage.completionTokens
    attemptPromptBase := usage.promptTokens
    attemptBaseEstimated := usage.estimated
    textBytesAtUsage := byteLength p.text
    exactUsage := !usage.estimated }

@[simp] theorem apply_text (observation : ChunkObservation) :
    (p.apply observation).text = p.text ++ observation.textDelta := by
  unfold apply
  cases observation.usage <;> rfl

@[simp] theorem snapshot_fst : p.snapshot.1 = p.text := by
  unfold snapshot
  dsimp only
  split <;> rfl

@[simp] theorem beginAttempt_text : p.beginAttempt.text = p.text := rfl

end StreamProgress

end Streamweld.Proxy
