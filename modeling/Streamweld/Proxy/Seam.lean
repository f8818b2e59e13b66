import Streamweld.Proxy.Chunk

/-!
# Removing the overlap from buffered frames

`flushSeam` and what it calls (`internal/proxy/producer.go`).  The overlap is computed
from the text that `observeOpenAIChunk` reads in the frames, and removed by
`rewriteLeadingAssistantText`, which edits the frames as maps of raw messages.  The two
do not read a frame alike: the first one matches keys without regard to case and takes
a missing index for zero, the second one looks for exact keys.

`flushSeam` here is the function on a journal that accepts every append: the chunks it
appends, and how it ends.
-/

namespace Streamweld.Proxy

open Streamweld.Lib Streamweld.Migrate

/-! ## Rewriting a frame -/

/-- How the rewriting of a frame fails. -/
inductive RewriteError where
  /-- a part of the frame has an unexpected type -/
  | decode
  /-- "seam overlap ended inside a UTF-8 rune" -/
  | insideRune
  /-- an assignment to a nil map -/
  | panic
  deriving DecidableEq, Repr

/-- `stripTextPrefix`: the rest of the text and what remains to be removed. -/
def stripTextPrefix (text : Text) (remaining : Nat) : Except RewriteError (Text × Nat) :=
  if remaining = 0 then .ok (text, 0)
  else
    let remove := min (byteLength text) remaining
    match splitBytes remove text with
    | none => .error .insideRune
    | some (_, rest) => .ok (rest, remaining - remove)

/-- When `n` bytes are removed from the front of the text, or all of it if it is shorter,
`rest` is left of it and `n'` bytes remain to be removed. -/
def Strips (n : Nat) (text rest : Text) (n' : Nat) : Prop :=
  ∃ removed, removed ++ rest = text ∧ byteLength removed = min (byteLength text) n ∧
    n' = n - byteLength removed

/-- Rewrite the string under a key of a map, unless it is `null`. -/
def rewriteString (m : Json.RawMap) (key : String) (remaining : Nat) :
    Except RewriteError (Json.RawMap × Nat) :=
  match m.get key with
  | none => .ok (m, remaining)
  | some .null => .ok (m, remaining)
  | some (.str text) =>
    match stripTextPrefix text.toList remaining with
    | .ok (rest, remaining) => .ok (m.insert key (.str (String.ofList rest)), remaining)
    | .error err => .error err
  | some _ => .error .decode

/-- The part of a choice under "delta". -/
def rewriteDelta (choice : Json.RawMap) (remaining : Nat) :
    Except RewriteError (Json.RawMap × Nat) :=
  match choice.get "delta" with
  | none => .ok (choice, remaining)
  | some .null => .ok (choice, remaining)
  | some (.obj members) =>
    match rewriteString (.ofMembers members) "content" remaining with
    | .ok (delta, remaining) => .ok (choice.insert "delta" (.obj delta.entries), remaining)
    | .error err => .error err
  | some _ => .error .decode

/-- The index of a choice is there and is zero. -/
def hasIndexZero (choice : Json.RawMap) : Bool :=
  match choice.get "index" with
  | some .null => true
  | some (.num literal) => decide (Json.parseInt literal = some 0)
  | _ => false

/-- One turn of the loop of `rewriteLeadingAssistantText`; `none` is a nil map. -/
def rewriteChoice (choice : Option Json.RawMap) (remaining : Nat) :
    Except RewriteError (Option Json.RawMap × Nat) :=
  match choice with
  | none => .ok (none, remaining)
  | some choice =>
    if hasIndexZero choice then
      match rewriteString choice "text" remaining with
      | .error err => .error err
      | .ok (choice, remaining) =>
        match rewriteDelta choice remaining with
        | .error err => .error err
        | .ok (choice, remaining) => .ok (some choice, remaining)
    else .ok (some choice, remaining)

def rewriteChoices : List (Option Json.RawMap) → Nat →
    Except RewriteError (List (Option Json.RawMap) × Nat)
  | [], remaining => .ok ([], remaining)
  | choice :: rest, remaining =>
    match rewriteChoice choice remaining with
    | .error err => .error err
    | .ok (choice, remaining) =>
      match rewriteChoices rest remaining with
      | .error err => .error err
      | .ok (rest, remaining) => .ok (choice :: rest, remaining)

/-- `choices` as `rewriteLeadingAssistantText` decodes them; `none` is a nil slice. -/
def rawChoices (root : Option Json.RawMap) :
    Except RewriteError (Option (List (Option Json.RawMap))) :=
  match root.bind (·.get "choices") with
  | none => .ok none
  | some raw =>
    match Json.decodeMaps raw with
    | some choices => .ok choices
    | none => .error .decode

/-- `rewriteLeadingAssistantText`. -/
def rewriteLeadingAssistantText (data : Json) (remaining : Nat) :
    Except RewriteError (Json × Nat) :=
  match Json.decodeMap data with
  | none => .error .decode
  | some root =>
    match rawChoices root with
    | .error err => .error err
    | .ok choices =>
      match rewriteChoices (choices.getD []) remaining with
      | .error err => .error err
      | .ok (rewritten, remaining) =>
        match root with
        | none => .error .panic
        | some root =>
          .ok (.obj (root.insert "choices"
            (Json.encodeMaps (choices.map fun _ => rewritten))).entries, remaining)

/-! ## Flushing -/

/-- How `flushSeam` ends. -/
inductive FlushEnd where
  | returned
  | failed
  | panicked
  deriving DecidableEq, Repr

/-- What `flushSeam` does: whether it first appends a warning, the data of the chunks that
it appends, and how it ends. -/
structure Flush where
  warning : Bool
  chunks : List Json
  ending : FlushEnd
  deriving DecidableEq, Repr

def RewriteError.ending : RewriteError → FlushEnd
  | .panic => .panicked
  | _ => .failed

/-- The data of a frame as `flushSeam` appends it, and what remains to be removed. -/
def flushFrame (data : Json) (remaining : Nat) : Except FlushEnd (Json × Nat) :=
  match if remaining = 0 then .ok (data, 0) else rewriteLeadingAssistantText data remaining with
  | .error err => .error err.ending
  | .ok (data, remaining) =>
    if (observeOpenAIChunk data).isNone then .error .failed else .ok (data, remaining)

/-- The loop of `flushSeam` over the frames. -/
def flushFrames : List Json → Nat → List Json × FlushEnd
  | [], remaining => ([], if remaining = 0 then .returned else .failed)
  | data :: rest, remaining =>
    match flushFrame data remaining with
    | .error ending => ([], ending)
    | .ok (data, remaining) =>
      let (chunks, ending) := flushFrames rest remaining
      (data :: chunks, ending)

/-- `flushSeam`, on a journal that accepts every append. -/
def flushSeam (isUpper : Char → Bool) (window : Int) (accumulated : Text) (frames : List Json)
    (continuation : Text) : Flush :=
  match reconcileSeam isUpper accumulated continuation window with
  | .error _ => { warning := false, chunks := [], ending := .failed }
  | .ok result =>
    let (chunks, ending) := flushFrames frames result.overlapBytes
    { warning := result.anomaly, chunks := chunks, ending := ending }

/-- The text that `observeOpenAIChunk` reads in a frame. -/
def frameText (data : Json) : Text :=
  match observeOpenAIChunk data with
  | some observation => observation.textDelta
  | none => []

def framesText (frames : List Json) : Text := frames.flatMap frameText

/-- Without an overlap the frames are appended as they are. -/
theorem flushFrames_zero {frames : List Json}
    (haccepted : ∀ data ∈ frames, (observeOpenAIChunk data).isSome = true) :
    flushFrames frames 0 = (frames, .returned) := by
  induction frames with
  | nil => rfl
  | cons data rest ih =>
    obtain ⟨hdata, hrest⟩ := List.forall_mem_cons.mp haccepted
    have hframe : flushFrame data 0 = .ok (data, 0) := by
      simp [flushFrame, Option.isSome_iff_ne_none.mp hdata]
    rw [flushFrames, hframe]
    dsimp only
    rw [ih hrest]

section Flush

variable (isUpper : Char → Bool) {window : Int} (hwindow : 0 < window)
  {accumulated : Text} (frames : List Json) {continuation overlap : Text}

include hwindow in
/-- `flushSeam` runs its loop with the size of the longest overlap. -/
theorem flushSeam_eq
    (hoverlap : LongestOverlap accumulated continuation window.toNat overlap) :
    (flushSeam isUpper window accumulated frames continuation).chunks =
        (flushFrames frames (byteLength overlap)).1 ∧
      (flushSeam isUpper window accumulated frames continuation).ending =
        (flushFrames frames (byteLength overlap)).2 := by
  obtain ⟨p, rest, anomaly, _, hlongest, hresult⟩ :=
    reconcileSeam_spec isUpper accumulated continuation hwindow
  cases hlongest.unique hoverlap
  rw [flushSeam, hresult]
  exact ⟨rfl, rfl⟩

end Flush

end Streamweld.Proxy
