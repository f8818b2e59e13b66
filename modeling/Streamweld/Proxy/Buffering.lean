import Streamweld.Proxy.PlainFrames

/-!
# Buffering the start of a continuation

The loop of `runAttempt` (`internal/proxy/producer.go`) over the frames of a continuation.
It holds frames back until they have as much text as the seam window, or the attempt ends,
then flushes them and appends the further ones as they come.  As in
`Streamweld.Proxy.Seam` the journal accepts every append.

`framing_independence`: how the text of a continuation is spread over frames and how the
attempt ends does not matter, when the frames that the overlap reaches are plain.
-/

namespace Streamweld.Proxy

open Streamweld.Lib Streamweld.Migrate

/-! ## The loop -/

/-- A frame of the upstream.  `retained` is what it counts against the buffering limit: its
data, type, identifier, text and comments and an allowance. -/
structure UpstreamFrame where
  data : Json
  retained : Nat
  deriving DecidableEq, Repr

/-- What the loop reads: the text that was accumulated before the attempt, the window, and
the buffering limit. -/
structure SeamPolicy where
  isUpper : Char → Bool
  seamBase : Text
  seamWindowBytes : Int
  maxBufferBytes : Nat

/-- Why an attempt ends within the loop. -/
inductive Halt where
  /-- `flushSeam` has failed -/
  | refused
  | panicked
  /-- the buffering limit was exceeded -/
  | overflowed
  deriving DecidableEq, Repr

/-- The variables of the loop, and the chunks that were appended. -/
structure AttemptLoop where
  continuation : Bool
  frames : List Json
  continuationText : Text
  bufferedBytes : Nat
  appended : List Json
  halted : Option Halt
  deriving DecidableEq, Repr

def AttemptLoop.start : AttemptLoop :=
  { continuation := true, frames := [], continuationText := [], bufferedBytes := 0
    appended := [], halted := none }

def FlushEnd.halt : FlushEnd → Option Halt
  | .returned => none
  | .failed => some .refused
  | .panicked => some .panicked

/-- How an attempt ends. -/
inductive AttemptEnd where
  /-- the sentinel `[DONE]` -/
  | done
  /-- the end of the stream, also within a frame, or a read error -/
  | readFailure
  | errorChunk
  | invalidChunk
  /-- it has not ended -/
  | streaming
  deriving DecidableEq, Repr

namespace AttemptLoop

variable (policy : SeamPolicy) (s : AttemptLoop)

/-- `flushContinuation`. -/
def flushContinuation : AttemptLoop :=
  if s.continuation = false ∨ s.frames = [] then s
  else
    let flush := flushSeam policy.isUpper policy.seamWindowBytes policy.seamBase s.frames
      s.continuationText
    match flush.ending.halt with
    | none =>
      { s with
        continuation := false, frames := [], continuationText := []
        appended := s.appended ++ flush.chunks }
    | some halt => { s with appended := s.appended ++ flush.chunks, halted := some halt }

/-- A frame that `observeOpenAIChunk` accepts. -/
def frame (next : UpstreamFrame) : AttemptLoop :=
  if s.halted.isSome then s
  else if s.continuation = true then
    let s :=
      { s with
        frames := s.frames ++ [next.data]
        continuationText := s.continuationText ++ frameText next.data }
    if (byteLength s.continuationText : Int) < policy.seamWindowBytes then
      let bufferedBytes := s.bufferedBytes + next.retained
      if bufferedBytes > policy.maxBufferBytes then { s with halted := some .overflowed }
      else { s with bufferedBytes := bufferedBytes }
    else s.flushContinuation policy
  else { s with appended := s.appended ++ [next.data] }

/-- The end of the attempt. -/
def finish : AttemptEnd → AttemptLoop
  | .streaming => s
  | _ => if s.halted.isSome then s else s.flushContinuation policy

end AttemptLoop

/-- The attempt after its frames and its end. -/
def runFrames (policy : SeamPolicy) (frames : List UpstreamFrame) (ending : AttemptEnd) :
    AttemptLoop :=
  (frames.foldl (AttemptLoop.frame policy) .start).finish policy ending

/-- The accumulated text of the stream. -/
def AttemptLoop.text (policy : SeamPolicy) (s : AttemptLoop) : Text :=
  policy.seamBase ++ framesText s.appended

/-! ## The frames that are held back -/

/-- The frames up to the first one with which they have as much text as the window. -/
def heldFrames (window : Nat) : Text → List Json → List Json
  | _, [] => []
  | text, data :: rest =>
    data :: if byteLength (text ++ frameText data) < window then
      heldFrames window (text ++ frameText data) rest else []

theorem framesText_append (left right : List Json) :
    framesText (left ++ right) = framesText left ++ framesText right :=
  List.flatMap_append

@[simp] theorem framesText_cons (data : Json) (rest : List Json) :
    framesText (data :: rest) = frameText data ++ framesText rest := rfl

@[simp] theorem framesText_nil : framesText [] = [] := rfl

/-! ## The run of the loop -/

section Run

variable {policy : SeamPolicy} {s : AttemptLoop}

/-- What `flushContinuation` appends, and how it ends, with an overlap of `n` bytes; the
further frames are appended when it succeeds. -/
def flushOutcome (n : Nat) (held later : List Json) : List Json × Option Halt :=
  let (chunks, ending) := flushFrames held n
  (if ending = .returned then chunks ++ later else chunks, ending.halt)

theorem foldl_halted (hhalted : s.halted.isSome = true) (frames : List UpstreamFrame) :
    frames.foldl (AttemptLoop.frame policy) s = s := by
  induction frames with
  | nil => rfl
  | cons next frames ih => rw [List.foldl_cons, AttemptLoop.frame, if_pos hhalted, ih]

theorem finish_halted (hhalted : s.halted.isSome = true) (ending : AttemptEnd) :
    s.finish policy ending = s := by
  cases ending <;> simp [AttemptLoop.finish, hhalted]

/-- After the flush, frames are appended as they come. -/
theorem foldl_flushed (hcontinuation : s.continuation = false) (hhalted : s.halted = none)
    (frames : List UpstreamFrame) (ending : AttemptEnd) :
    ((frames.foldl (AttemptLoop.frame policy) s).finish policy ending).appended =
        s.appended ++ frames.map (·.data) ∧
      ((frames.foldl (AttemptLoop.frame policy) s).finish policy ending).halted = none := by
  induction frames generalizing s with
  | nil =>
    have hflush : s.flushContinuation policy = s := by
      rw [AttemptLoop.flushContinuation, if_pos (.inl hcontinuation)]
    have hfinish : s.finish policy ending = s := by
      cases ending <;> simp [AttemptLoop.finish, hflush]
    rw [List.foldl_nil, hfinish]
    exact ⟨(List.append_nil _).symm, hhalted⟩
  | cons next frames ih =>
    have hframe : s.frame policy next = { s with appended := s.appended ++ [next.data] } := by
      simp [AttemptLoop.frame, hhalted, hcontinuation]
    rw [List.foldl_cons, hframe]
    obtain ⟨happended, hhalted'⟩ := ih (s := { s with appended := s.appended ++ [next.data] })
      hcontinuation hhalted
    exact ⟨by rw [happended]; simp, hhalted'⟩

/-- The flush of the frames that are held back, and what follows it. -/
theorem flushContinuation_spec (hwindow : 0 < policy.seamWindowBytes) {overlap : Text}
    (hoverlap : LongestOverlap policy.seamBase s.continuationText policy.seamWindowBytes.toNat overlap)
    (hcontinuation : s.continuation = true) (hframes : s.frames ≠ []) (hhalted : s.halted = none)
    (happended : s.appended = []) (later : List UpstreamFrame) (ending : AttemptEnd) :
    let r := (later.foldl (AttemptLoop.frame policy) (s.flushContinuation policy)).finish policy
      ending
    (r.appended, r.halted) = flushOutcome (byteLength overlap) s.frames (later.map (·.data)) := by
  intro r
  obtain ⟨hchunks, hending⟩ := flushSeam_eq policy.isUpper hwindow s.frames hoverlap
  have hguard : ¬ (s.continuation = false ∨ s.frames = []) := by
    rw [hcontinuation]
    simp [hframes]
  unfold flushOutcome
  cases hresult : (flushFrames s.frames (byteLength overlap)).2 with
  | returned =>
    rw [hresult] at hending
    have hflush : s.flushContinuation policy =
        { s with
          continuation := false, frames := [], continuationText := []
          appended := s.appended ++ (flushFrames s.frames (byteLength overlap)).1 } := by
      simp only [AttemptLoop.flushContinuation, if_neg hguard, hending, FlushEnd.halt, hchunks]
    obtain ⟨hr, hr'⟩ : r.appended = _ ∧ r.halted = none :=
      foldl_flushed (by rw [hflush]) (by rw [hflush]; exact hhalted) later ending
    rw [hr, hr', hflush, happended]
    simp [hresult, FlushEnd.halt]
  | failed | panicked =>
    rw [hresult] at hending
    -- The attempt is over.
    have hflush : s.flushContinuation policy =
        { s with
          appended := s.appended ++ (flushFrames s.frames (byteLength overlap)).1
          halted := (flushFrames s.frames (byteLength overlap)).2.halt } := by
      simp only [AttemptLoop.flushContinuation, if_neg hguard, hending, hresult, FlushEnd.halt,
        hchunks]
    have hover : (s.flushContinuation policy).halted.isSome = true := by
      rw [hflush, hresult]
      rfl
    have hr : r = s.flushContinuation policy := by
      rw [← finish_halted hover ending, ← foldl_halted hover later]
    rw [hr, hflush, happended]
    simp [hresult, FlushEnd.halt]

/-- The run of the loop from a state that holds frames back. -/
theorem runFrames_buffering (hwindow : 0 < policy.seamWindowBytes) {overlap : Text}
    (frames : List UpstreamFrame) (ending : AttemptEnd) (hcontinuation : s.continuation = true)
    (hhalted : s.halted = none) (happended : s.appended = [])
    (htext : s.continuationText = framesText s.frames)
    (hshort : (byteLength s.continuationText : Int) < policy.seamWindowBytes)
    (hoverlap : LongestOverlap policy.seamBase
      (framesText (s.frames ++ frames.map (·.data))) policy.seamWindowBytes.toNat overlap)
    (hpast : ending = .streaming →
      policy.seamWindowBytes ≤ byteLength (framesText (s.frames ++ frames.map (·.data)))) :
    let r := (frames.foldl (AttemptLoop.frame policy) s).finish policy ending
    r.halted ≠ some .overflowed →
      ∃ later, heldFrames policy.seamWindowBytes.toNat s.continuationText (frames.map (·.data)) ++
          later = frames.map (·.data) ∧
        overlap <+: framesText (s.frames ++
          heldFrames policy.seamWindowBytes.toNat s.continuationText (frames.map (·.data))) ∧
        (r.appended, r.halted) = flushOutcome (byteLength overlap)
          (s.frames ++
            heldFrames policy.seamWindowBytes.toNat s.continuationText (frames.map (·.data)))
          later := by
  induction frames generalizing s with
  | nil =>
    intro r hlimit
    simp only [List.map_nil, heldFrames, List.append_nil] at hoverlap hpast ⊢
    refine ⟨[], rfl, hoverlap.overlap.starts, ?_⟩
    have hended : ending ≠ .streaming := by
      intro hstreaming
      have := hpast hstreaming
      rw [← htext] at this
      omega
    have hr : r = s.flushContinuation policy := by
      cases ending with
      | streaming => exact absurd rfl hended
      | _ => simp [r, AttemptLoop.finish, hhalted]
    by_cases hframes : s.frames = []
    · have hempty : overlap = [] := by
        have := hoverlap.overlap.starts
        rw [hframes] at this
        exact List.prefix_nil.mp this
      have hsame : s.flushContinuation policy = s := by
        rw [AttemptLoop.flushContinuation, if_pos (.inr hframes)]
      rw [hr, hsame, happended, hhalted, hframes, hempty]
      rfl
    · rw [← htext] at hoverlap
      have h := flushContinuation_spec hwindow hoverlap hcontinuation hframes hhalted happended []
        .streaming
      rw [hr]
      exact h
  | cons next frames ih =>
    intro r hlimit
    let s₁ : AttemptLoop :=
      { s with
        frames := s.frames ++ [next.data]
        continuationText := s.continuationText ++ frameText next.data }
    have htext₁ : s₁.continuationText = framesText s₁.frames := by
      simp [s₁, htext, framesText_append]
    have happend : s.frames ++ (next :: frames).map (·.data) =
        s₁.frames ++ frames.map (·.data) := by
      simp [s₁]
    rw [happend] at hoverlap hpast
    have hframe : s.frame policy next =
        if (byteLength s₁.continuationText : Int) < policy.seamWindowBytes then
          if s₁.bufferedBytes + next.retained > policy.maxBufferBytes then
            { s₁ with halted := some .overflowed }
          else { s₁ with bufferedBytes := s₁.bufferedBytes + next.retained }
        else s₁.flushContinuation policy := by
      simp [AttemptLoop.frame, hhalted, hcontinuation, s₁]
    have hr : r = (frames.foldl (AttemptLoop.frame policy) (s.frame policy next)).finish policy
        ending := rfl
    rw [List.map_cons, heldFrames]
    by_cases hshort₁ : (byteLength s₁.continuationText : Int) < policy.seamWindowBytes
    · rw [if_pos hshort₁] at hframe
      have hheld : byteLength (s.continuationText ++ frameText next.data) <
          policy.seamWindowBytes.toNat := by
        change byteLength s₁.continuationText < _
        omega
      rw [if_pos hheld]
      split at hframe
      · -- The limit is exceeded, and the attempt is over.
        rw [hframe, foldl_halted rfl, finish_halted rfl] at hr
        exact absurd (by rw [hr]) hlimit
      · rw [hframe] at hr
        obtain ⟨later, hlater, hstarts, hresult⟩ :=
          ih (s := { s₁ with bufferedBytes := s₁.bufferedBytes + next.retained }) hcontinuation
            hhalted happended htext₁ hshort₁ hoverlap hpast (by rw [← hr]; exact hlimit)
        refine ⟨later, by rw [List.cons_append]; exact congrArg _ hlater, ?_, ?_⟩
        · simpa [s₁] using hstarts
        · rw [hr, hresult]
          simp [s₁]
    · rw [if_neg hshort₁] at hframe
      have hheld : ¬ byteLength (s.continuationText ++ frameText next.data) <
          policy.seamWindowBytes.toNat := by
        change ¬ byteLength s₁.continuationText < _
        omega
      rw [if_neg hheld]
      rw [framesText_append, ← htext₁] at hoverlap
      have hoverlap₁ := hoverlap.held fun _ => by omega
      refine ⟨frames.map (·.data), rfl, htext₁ ▸ hoverlap₁.overlap.starts, ?_⟩
      rw [hr, hframe]
      exact flushContinuation_spec hwindow hoverlap₁ hcontinuation (by simp [s₁]) hhalted happended
        frames ending

end Run

/-! ## The result -/

/-- When the attempt has ended or its text has passed the window, and the buffering limit was
not exceeded: the accumulated text of the stream is the text from before the attempt and
the continuation without its longest overlap, whatever the frames are, when those that the
overlap reaches are plain. -/
theorem framing_independence (policy : SeamPolicy) (hwindow : 0 < policy.seamWindowBytes)
    (frames : List UpstreamFrame) (ending : AttemptEnd)
    (haccepted : ∀ frame ∈ frames, (observeOpenAIChunk frame.data).isSome = true)
    (overlap rest : Text) (hcontinuation : framesText (frames.map (·.data)) = overlap ++ rest)
    (hoverlap : LongestOverlap policy.seamBase (overlap ++ rest) policy.seamWindowBytes.toNat
      overlap)
    (hpast : ending = .streaming → policy.seamWindowBytes ≤ byteLength (overlap ++ rest))
    (hlimit : (runFrames policy frames ending).halted ≠ some .overflowed)
    (hplain : ReachedPlain (byteLength overlap) (frames.map (·.data))) :
    (runFrames policy frames ending).halted = none ∧
      (runFrames policy frames ending).text policy = policy.seamBase ++ rest := by
  have hnil : AttemptLoop.start.frames ++ frames.map (·.data) = frames.map (·.data) := rfl
  obtain ⟨later, hlater, hstarts, hresult⟩ := runFrames_buffering (s := .start) hwindow frames
    ending rfl rfl rfl rfl hwindow (by rwa [hnil, hcontinuation]) (by rwa [hnil, hcontinuation])
    hlimit
  change heldFrames _ [] _ ++ later = _ at hlater
  change overlap <+: framesText (heldFrames _ [] _) at hstarts
  change ((runFrames policy frames ending).appended, (runFrames policy frames ending).halted) =
    flushOutcome _ (heldFrames _ [] _) later at hresult
  generalize heldFrames policy.seamWindowBytes.toNat [] (frames.map (·.data)) = held at *
  have hheld : ∀ data ∈ held, (observeOpenAIChunk data).isSome = true := by
    intro data hdata
    have hmem : data ∈ frames.map (·.data) := hlater ▸ List.mem_append_left later hdata
    obtain ⟨frame, hframe, rfl⟩ := List.mem_map.mp hmem
    exact haccepted frame hframe
  have hreached : ReachedPlain (byteLength overlap) held := by
    intro before data after hsplit hless
    refine hplain before data (after ++ later) ?_ hless
    rw [← hlater, hsplit, List.append_assoc, List.cons_append]
  obtain ⟨left, hleft⟩ := hstarts
  have hlength := congrArg byteLength hleft
  rw [byteLength_append] at hlength
  obtain ⟨chunks, hflush, rfl⟩ := flushFrames_strips hheld hreached
    ⟨overlap, hleft, by omega, by omega⟩
  rw [flushOutcome, hflush] at hresult
  obtain ⟨happended, hhalted⟩ := Prod.mk.inj hresult
  refine ⟨hhalted, ?_⟩
  -- the text of the held frames without the overlap, and the further frames
  have hrest : framesText chunks ++ framesText later = rest := by
    rw [← List.append_right_inj overlap, ← List.append_assoc, hleft, ← hcontinuation, ← hlater,
      framesText_append]
  rw [AttemptLoop.text, happended, if_pos rfl, framesText_append, hrest]

/-- A window of eight bytes after the text "xab". -/
def samplePolicy : SeamPolicy :=
  { isUpper := Char.isUpper, seamBase := "xab".toList, seamWindowBytes := 8
    maxBufferBytes := 65536 }

/-- "abc" in two frames. -/
def splitFrames (second : Json) : List UpstreamFrame :=
  [⟨indexedFrame "a", 300⟩, ⟨second, 300⟩]

theorem framing_independence_of_split :
    (runFrames samplePolicy (splitFrames (indexedFrame "bc")) .done).text samplePolicy =
      "xab".toList ++ "c".toList := by
  have hoverlap : LongestOverlap "xab".toList ("ab".toList ++ "c".toList) 8 "ab".toList :=
    .of_reconcileSeam Char.isUpper "xab".toList "ab".toList "c".toList 8 (by decide)
      (by decide +kernel)
  have hplain : ∀ data ∈ (splitFrames (indexedFrame "bc")).map (·.data), PlainFrame data :=
    List.forall_mem_cons.mpr ⟨indexedFrame_plain "a",
      List.forall_mem_singleton.mpr (indexedFrame_plain "bc")⟩
  exact (framing_independence samplePolicy (by decide) (splitFrames (indexedFrame "bc")) .done
    (by decide +kernel) "ab".toList "c".toList (by decide +kernel) hoverlap (by decide)
    (by decide +kernel) (reachedPlain_of_forall hplain _)).2

/-- A choice with an explicit index whose text is under a key in another case. -/
def capitalFrame (text : String) : Json :=
  .obj [("choices", .arr [.obj [("index", .num "0"), ("Text", .str text)]])]

/-- The continuation "abc" in three framings.  Behind a frame that is `null` the process
panics; with the second part under "Text" the "b" stays in the stream and the attempt is
refused; in one frame only "c" is added. -/
theorem framing_changes_text :
    framesText [.null, indexedFrame "abc"] = "abc".toList ∧
      (runFrames samplePolicy [⟨.null, 300⟩, ⟨indexedFrame "abc", 300⟩] .done).halted =
        some .panicked ∧
      framesText [indexedFrame "a", capitalFrame "bc"] = "abc".toList ∧
      (runFrames samplePolicy (splitFrames (capitalFrame "bc")) .done).halted = some .refused ∧
      (runFrames samplePolicy (splitFrames (capitalFrame "bc")) .done).text samplePolicy =
        "xab".toList ++ "bc".toList ∧
      (runFrames samplePolicy [⟨indexedFrame "abc", 300⟩] .done).text samplePolicy =
        "xab".toList ++ "c".toList := by
  decide +kernel

end Streamweld.Proxy
