import Streamweld.Lib.Transition
import Streamweld.Journal.Delivery
import Streamweld.Journal.MemoryInvariant

/-!
# Tail delivery of the memory journal

The goroutine that `Memory.Tail` starts for a reader (`runTail`, `finishTail`),
its one-slot channel, and the calls that stop it (`stopTailLocked`), as a
transition system over a store with any number of readers.

A label of the system is one atomic step: a call of an exported method, a step
of one reader's goroutine or of its consumer, or a step of `stopTailLocked`.
`stopTailLocked` runs under `m.mu`.  Its assignments belong to the step that
calls it; closing `done` and draining the slot are steps of their own, because
the goroutine of the stopped reader can run between them.  While `stopping` or
`draining` names a reader, `m.mu` is held.

The select statement of `runTail` is the three labels `send`, `seeDone` and
`seeCanceled`: a closed `done` channel enables `seeDone` and does not disable
`send`.  The context of a reader may be canceled at any time.

The results are at the end.  `tail_gap_after_discard` is a run in which a
consumer misses an entry: the slot is drained while the goroutine holds the next
entry, and the select then sends that one.  `tail_delivery_gap_free` says that
this is the only way: in a run in which no reader sends after its slot was
drained, every consumer sees the sequences after its cursor in order, and then
at most one error.
-/

namespace Streamweld.Journal

open Streamweld.Lib

variable {r : TailReader} {d : Delivery}

/-! ## The system -/

/-- Where the goroutine of a reader is. -/
inductive TailPc where
  /-- at the head of the loop, before `m.mu.Lock()` -/
  | top
  /-- holds the next entry, before `deliveryMu.Lock()` -/
  | holding (entry : Entry)
  /-- at the select, with `deliveryMu` held -/
  | selecting (entry : Entry)
  /-- sent the entry, before the cursor update -/
  | sent (entry : Entry)
  /-- at the select that waits for a wake-up -/
  | waiting
  /-- saw its context canceled -/
  | canceled
  /-- in `finishTail`, before `m.mu.Lock()` -/
  | finishing
  /-- in `finishTail`, after `m.mu.Unlock()` -/
  | dropping (reason : Option JournalError) (discard : Bool)
  | reporting (reason : Option JournalError)
  /-- before `close(reader.out)` -/
  | closing
  | exited
  deriving DecidableEq, Repr

/-- The channels of a reader and its goroutine.  `start` is the cursor that the
reader was attached with, `received` what its consumer took from `out`, and
`discarded` what was drained from `out`; these three are history. -/
structure Delivery where
  pc : TailPc
  out : List Entry
  outClosed : Bool
  doneClosed : Bool
  start : Nat
  received : List Entry
  discarded : List Entry
  deriving DecidableEq, Repr

/-- The delivery of a reader that `Memory.Tail` just attached. -/
def Delivery.fresh (reader : TailReader) : Delivery :=
  { pc := .top
    out := []
    outClosed := false
    doneClosed := false
    start := reader.cursor
    received := []
    discarded := [] }

/-- The store with its readers' goroutines. -/
structure TailSystem where
  store : Memory
  deliveries : List Delivery
  stopping : List Nat
  draining : Option Nat

/-- `m.mu` is not held across steps. -/
def TailSystem.unlocked (s : TailSystem) : Bool :=
  s.stopping.isEmpty && s.draining.isNone

def TailSystem.start (store : Memory) : TailSystem :=
  { store := store, deliveries := [], stopping := [], draining := none }

/-- A step of one reader's goroutine, of its consumer or of its cancel function. -/
inductive ReaderEvent where
  | cancel
  | pick
  | lockDelivery
  | send
  | seeDone
  | seeCanceled
  | update
  | wakeUp
  | waitDone
  | waitCanceled
  | stopCanceled
  | finish
  | drop
  | report
  | closeOut
  | receive
  deriving DecidableEq, Repr

/-- A step of the system. -/
inductive TailEvent where
  | call (call : Call)
  | reader (ref : Nat) (event : ReaderEvent)
  | closeDone (ref : Nat)
  | drain
  deriving DecidableEq, Repr

/-- What a reader's own step does: the reader, its delivery, and whether the step
called `stopTailLocked` with a drain still to do. -/
structure ReaderOutcome where
  reader : TailReader
  delivery : Delivery
  stops : Bool

/-- `stopTailLocked(reader, reason, true)` as a part of the reader's own step. -/
def stopDiscarding (r : TailReader) (d : Delivery) (reason : Option JournalError) :
    ReaderOutcome :=
  ⟨r.stop reason true, d, !r.stopped⟩

/-- `stopTailLocked(reader, reason, false)`, which closes `done` and drains nothing. -/
def stopKeeping (r : TailReader) (d : Delivery) (reason : Option JournalError) :
    ReaderOutcome :=
  ⟨r.stop reason false, { d with doneClosed := true }, false⟩

/-- The critical section at the head of the loop of `runTail`. -/
def pickNext (stream : MemoryStream) (r : TailReader) (d : Delivery) : ReaderOutcome :=
  if stream.earliestSeq > 1 ∧ r.cursor < stream.earliestSeq - 1 then
    stopDiscarding r { d with pc := .finishing } (some readerLagged)
  else if r.cursor < stream.lastSeq then
    match stream.entries[r.cursor + 1 - stream.earliestSeq]? with
    | none => stopDiscarding r { d with pc := .finishing } (some readerLagged)
    | some stored =>
      ⟨{ r with inFlightSeq := stored.entry.seq, inFlightSize := stored.size },
        { d with pc := .holding stored.entry }, false⟩
  else if stream.status ≠ .statusOpen then
    stopKeeping r { d with pc := .finishing } none
  else if stream.degraded then
    stopKeeping r { d with pc := .finishing } (some { sentinel := .errOffsetExpired })
  else ⟨r, { d with pc := .waiting }, false⟩

/-- The critical section after a send. -/
def updateCursor (entry : Entry) (r : TailReader) (d : Delivery) : ReaderOutcome :=
  if r.stopped then ⟨r, { d with pc := .finishing }, false⟩
  else
    let lag := r.liveLag - r.inFlightSize
    let r' :=
      { r with
        cursor := entry.seq
        liveLag :=
          if entry.seq > r.liveAfter then (if lag < 0 then 0 else lag) else r.liveLag
        inFlightSeq := 0
        inFlightSize := 0 }
    if entry.kind.terminal then stopKeeping r' { d with pc := .finishing } none
    else ⟨r', { d with pc := .top }, false⟩

/-- A reader's own step.  `unlocked` says that `m.mu` is free and `stream` is the
reader's stream in the store. -/
def readerStep (stream : Option MemoryStream) (unlocked : Bool) (r : TailReader)
    (d : Delivery) : ReaderEvent → Option ReaderOutcome
  | .cancel => if unlocked then some (stopDiscarding r d none) else none
  | .pick =>
    if d.pc = .top ∧ unlocked = true then
      if r.stopped then some ⟨r, { d with pc := .finishing }, false⟩
      else stream.map fun stream => pickNext stream r d
    else none
  | .lockDelivery =>
    match d.pc with
    | .holding entry => some ⟨r, { d with pc := .selecting entry }, false⟩
    | _ => none
  | .send =>
    match d.pc, d.out with
    | .selecting entry, [] => some ⟨r, { d with out := [entry], pc := .sent entry }, false⟩
    | _, _ => none
  | .seeDone =>
    match d.pc with
    | .selecting _ =>
      if d.doneClosed then some ⟨r, { d with pc := .finishing }, false⟩ else none
    | _ => none
  | .seeCanceled =>
    match d.pc with
    | .selecting _ => some ⟨r, { d with pc := .canceled }, false⟩
    | _ => none
  | .update =>
    match d.pc with
    | .sent entry => if unlocked then some (updateCursor entry r d) else none
    | _ => none
  | .wakeUp =>
    if d.pc = .waiting ∧ r.wake = true then
      some ⟨{ r with wake := false }, { d with pc := .top }, false⟩
    else none
  | .waitDone =>
    if d.pc = .waiting ∧ d.doneClosed = true then
      some ⟨r, { d with pc := .finishing }, false⟩
    else none
  | .waitCanceled =>
    if d.pc = .waiting then some ⟨r, { d with pc := .canceled }, false⟩ else none
  | .stopCanceled =>
    if d.pc = .canceled ∧ unlocked = true then
      some (stopDiscarding r { d with pc := .finishing } none)
    else none
  | .finish =>
    if d.pc = .finishing ∧ unlocked = true then
      -- An unstopped reader is stopped first; `m.mu` is held until that is done.
      if r.stopped then some ⟨r, { d with pc := .dropping r.stopErr r.discard }, false⟩
      else some (stopDiscarding r d none)
    else none
  | .drop =>
    match d.pc with
    | .dropping reason discard =>
      if discard then
        some ⟨r, { d with
          pc := .reporting reason, out := [], discarded := d.discarded ++ d.out }, false⟩
      else some ⟨r, { d with pc := .reporting reason }, false⟩
    | _ => none
  | .report =>
    match d.pc, d.out with
    | .reporting none, _ => some ⟨r, { d with pc := .closing }, false⟩
    | .reporting (some reason), [] =>
      some ⟨r, { d with out := [errorEntry reason], pc := .closing }, false⟩
    | _, _ => none
  | .closeOut =>
    if d.pc = .closing then some ⟨r, { d with outClosed := true, pc := .exited }, false⟩
    else none
  | .receive =>
    match d.out with
    | entry :: rest =>
      some ⟨r, { d with out := rest, received := d.received ++ [entry] }, false⟩
    | [] => none

/-- The readers that a call stopped. -/
def newlyStopped (before after : List TailReader) : List Nat :=
  (List.range before.length).filter fun i =>
    (before[i]?.any fun r => !r.stopped) && (after[i]?.any fun r => r.stopped)

/-- `deliveryMu` of the reader is held by its goroutine. -/
def TailPc.holdsDelivery : TailPc → Bool
  | .selecting _ => true
  | _ => false

/-- One step of the system. -/
def TailSystem.step (envelopeLen : Entry → Option Nat) (s : TailSystem) :
    TailEvent → Option TailSystem
  | .call call =>
    if s.unlocked then
      let store := (s.store.exec envelopeLen call).1
      let attached := store.readers.drop s.store.readers.length
      some {
        store := store
        deliveries := s.deliveries ++ attached.map Delivery.fresh
        stopping := newlyStopped s.store.readers store.readers
        draining := none }
    else none
  | .reader ref event =>
    match s.store.readers[ref]?, s.deliveries[ref]? with
    | some r, some d =>
      (readerStep (s.store.streams.lookup r.stream) s.unlocked r d event).map fun outcome =>
        { s with
          store := { s.store with readers := s.store.readers.set ref outcome.reader }
          deliveries := s.deliveries.set ref outcome.delivery
          stopping := if outcome.stops then [ref] else s.stopping }
    | _, _ => none
  | .closeDone ref =>
    match s.deliveries[ref]? with
    | some d =>
      if ref ∈ s.stopping ∧ s.draining = none then
        some { s with
          deliveries := s.deliveries.set ref { d with doneClosed := true }
          stopping := s.stopping.erase ref
          draining := some ref }
      else none
    | none => none
  | .drain =>
    match s.draining with
    | none => none
    | some ref =>
      match s.store.readers[ref]?, s.deliveries[ref]? with
      | some r, some d =>
        if d.pc.holdsDelivery then none
        else
          some { s with
            store := { s.store with
              readers := s.store.readers.set ref { r with discard := false } }
            deliveries := s.deliveries.set ref
              { d with out := [], discarded := d.discarded ++ d.out }
            draining := none }
      | _, _ => none

/-! ## The invariant -/

/-- What the consumer saw or will see next. -/
def Delivery.flow (d : Delivery) : List Entry := d.received ++ d.out

/-- The sequence of the last entry that was sent, counting the discarded ones. -/
def Delivery.position (d : Delivery) : Nat := d.start + d.flow.length + d.discarded.length

/-- The invariant of one reader, by where its goroutine is. -/
def DeliveryInv (r : TailReader) (d : Delivery) : Prop :=
  match d.pc with
  | .top | .waiting => Sequenced d.start d.flow ∧ r.cursor = d.position
  | .holding entry | .selecting entry =>
    Sequenced d.start d.flow ∧ r.cursor = d.position ∧
      entry.seq = r.cursor + 1 ∧ entry.err = none
  | .sent entry => Sequenced d.start d.flow ∧ entry.seq = d.position
  | .canceled | .finishing | .dropping _ _ | .reporting _ => Sequenced d.start d.flow
  | .closing | .exited => GapFree d.start d.flow

/-- In every place what the consumer sees is gap-free. -/
theorem DeliveryInv.gapFree (h : DeliveryInv r d) : GapFree d.start d.flow := by
  unfold DeliveryInv at h
  split at h
  · exact h.1.gapFree
  · exact h.1.gapFree
  · exact h.1.gapFree
  · exact h.1.gapFree
  · exact h.1.gapFree
  · exact h.gapFree
  · exact h.gapFree
  · exact h.gapFree
  · exact h.gapFree
  · exact h
  · exact h

/-- Before its error was reported a reader has only sequenced entries in flight. -/
theorem DeliveryInv.sequenced (h : DeliveryInv r d) (hclosing : d.pc ≠ .closing)
    (hexited : d.pc ≠ .exited) : Sequenced d.start d.flow := by
  unfold DeliveryInv at h
  split at h
  · exact h.1
  · exact h.1
  · exact h.1
  · exact h.1
  · exact h.1
  · exact h
  · exact h
  · exact h
  · exact h
  · rename_i hpc
    exact absurd hpc hclosing
  · rename_i hpc
    exact absurd hpc hexited

/-- The invariant reads the cursor of the reader only. -/
theorem DeliveryInv.of_cursor {r' : TailReader} (h : DeliveryInv r d)
    (hcursor : r'.cursor = r.cursor) : DeliveryInv r' d := by
  unfold DeliveryInv at h ⊢
  rw [hcursor]
  exact h

theorem DeliveryInv.fresh (r : TailReader) : DeliveryInv r (Delivery.fresh r) :=
  ⟨Sequenced.nil _, by simp [Delivery.fresh, Delivery.position, Delivery.flow]⟩

/-- The slot and the history may change as long as the goroutine stays where it is,
the position is the same, and the consumer sees no more than before. -/
theorem DeliveryInv.of_prefix {d' : Delivery} (h : DeliveryInv r d) (hpc : d'.pc = d.pc)
    (hstart : d'.start = d.start) (hposition : d'.position = d.position) (rest : List Entry)
    (hflow : d.flow = d'.flow ++ rest) : DeliveryInv r d' := by
  have hsequenced : Sequenced d.start d.flow → Sequenced d'.start d'.flow := by
    rw [hflow, hstart]
    exact Sequenced.left
  have hgapFree : GapFree d.start d.flow → GapFree d'.start d'.flow := by
    rw [hflow, hstart]
    exact GapFree.left
  unfold DeliveryInv at h ⊢
  rw [hpc, hposition]
  split at h
  · exact ⟨hsequenced h.1, h.2⟩
  · exact ⟨hsequenced h.1, h.2⟩
  · exact ⟨hsequenced h.1, h.2⟩
  · exact ⟨hsequenced h.1, h.2⟩
  · exact ⟨hsequenced h.1, h.2⟩
  · exact hsequenced h
  · exact hsequenced h
  · exact hsequenced h
  · exact hsequenced h
  · exact hgapFree h
  · exact hgapFree h

/-- Draining the slot moves its entry from what the consumer will see to what was
discarded. -/
theorem DeliveryInv.drain (h : DeliveryInv r d) :
    DeliveryInv r { d with out := [], discarded := d.discarded ++ d.out } := by
  refine h.of_prefix rfl rfl ?_ d.out ?_
  · simp only [Delivery.position, Delivery.flow, List.length_append, List.length_nil]
    omega
  · simp [Delivery.flow]

/-- Receiving moves the entry of the slot to what the consumer saw. -/
theorem DeliveryInv.receive {entry : Entry} {rest : List Entry} (h : DeliveryInv r d)
    (hout : d.out = entry :: rest) :
    DeliveryInv r { d with out := rest, received := d.received ++ [entry] } := by
  refine h.of_prefix rfl rfl ?_ [] ?_
  · simp only [Delivery.position, Delivery.flow, hout, List.length_append, List.length_cons,
      List.length_nil]
    omega
  · simp [Delivery.flow, hout]

@[simp] theorem TailReader.stop_cursor (r : TailReader) (reason : Option JournalError)
    (discard : Bool) : (r.stop reason discard).cursor = r.cursor :=
  (r.moved_stop reason discard).cursor

/-- The pick takes the entry right after the cursor, because the ring of the stream
is consecutive. -/
theorem pickNext_inv {config : Config} {key : StreamID} {stream : MemoryStream}
    (hstream : StreamInv config key stream) (hseq : Sequenced d.start d.flow)
    (hcursor : r.cursor = d.position) :
    DeliveryInv (pickNext stream r d).reader (pickNext stream r d).delivery := by
  unfold pickNext
  split
  · exact hseq
  · rename_i hring
    split
    · rename_i hbehind
      split
      · exact hseq
      · rename_i stored hstored
        have hpos := hstream.earliest_pos
        obtain ⟨hindex, _⟩ := List.getElem?_eq_some_iff.mp hstored
        have hnumber := hstream.consecutive.getElem? (by simpa using hindex)
        rw [List.getElem?_map, hstored] at hnumber
        have hnext : stored.entry.seq = r.cursor + 1 := by
          simp only [Option.map_some, Option.some.injEq] at hnumber
          omega
        exact ⟨hseq, hcursor, hnext, hstream.no_err stored (List.mem_of_getElem? hstored)⟩
    · split
      · exact hseq
      · split
        · exact hseq
        · exact ⟨hseq, hcursor⟩

theorem updateCursor_inv {entry : Entry} (hseq : Sequenced d.start d.flow)
    (hposition : entry.seq = d.position) :
    DeliveryInv (updateCursor entry r d).reader (updateCursor entry r d).delivery := by
  unfold updateCursor
  split
  · exact hseq
  · dsimp only
    split
    · exact hseq
    · exact ⟨hseq, hposition⟩

/-- The step lemma of one reader.  A send needs that nothing was discarded. -/
theorem readerStep_inv {config : Config} {key : StreamID} {stream : Option MemoryStream}
    (hstream : ∀ s, stream = some s → StreamInv config key s) {unlocked : Bool}
    (h : DeliveryInv r d) {event : ReaderEvent} (hclean : event = .send → d.discarded = [])
    {outcome : ReaderOutcome} (hstep : readerStep stream unlocked r d event = some outcome) :
    DeliveryInv outcome.reader outcome.delivery := by
  cases event with
  | cancel =>
    obtain ⟨-, ⟨⟩⟩ := Option.ite_none_right_eq_some.mp hstep
    exact h.of_cursor (TailReader.stop_cursor ..)
  | pick =>
    obtain ⟨⟨hpc, -⟩, hstep⟩ := Option.ite_none_right_eq_some.mp hstep
    rw [DeliveryInv, hpc] at h
    split at hstep
    · cases hstep
      exact h.1
    · obtain ⟨s, hs, rfl⟩ := Option.map_eq_some_iff.mp hstep
      exact pickNext_inv (hstream s hs) h.1 h.2
  | lockDelivery =>
    simp only [readerStep] at hstep
    split at hstep
    · rename_i hpc
      cases hstep
      rw [DeliveryInv, hpc] at h
      exact h
    · cases hstep
  | send =>
    simp only [readerStep] at hstep
    split at hstep
    · rename_i entry hpc hout
      cases hstep
      rw [DeliveryInv, hpc] at h
      obtain ⟨hseq, hcursor, hnext, herr⟩ := h
      have hdiscarded := hclean rfl
      have hflow : d.flow = d.received := by simp [Delivery.flow, hout]
      rw [hflow] at hseq
      simp only [Delivery.position, hflow, hdiscarded, List.length_nil] at hcursor
      refine ⟨hseq.concat herr (by omega), ?_⟩
      simp only [Delivery.position, Delivery.flow, hdiscarded, List.length_append,
        List.length_cons, List.length_nil]
      omega
    · cases hstep
  | seeDone =>
    simp only [readerStep] at hstep
    split at hstep
    · rename_i hpc
      obtain ⟨-, ⟨⟩⟩ := Option.ite_none_right_eq_some.mp hstep
      exact h.sequenced (by simp [hpc]) (by simp [hpc])
    · cases hstep
  | seeCanceled =>
    simp only [readerStep] at hstep
    split at hstep
    · rename_i hpc
      cases hstep
      exact h.sequenced (by simp [hpc]) (by simp [hpc])
    · cases hstep
  | update =>
    simp only [readerStep] at hstep
    split at hstep
    · rename_i hpc
      rw [DeliveryInv, hpc] at h
      obtain ⟨-, ⟨⟩⟩ := Option.ite_none_right_eq_some.mp hstep
      exact updateCursor_inv h.1 h.2
    · cases hstep
  | wakeUp =>
    obtain ⟨⟨hpc, -⟩, ⟨⟩⟩ := Option.ite_none_right_eq_some.mp hstep
    rw [DeliveryInv, hpc] at h
    exact h
  | waitDone =>
    obtain ⟨⟨hpc, -⟩, ⟨⟩⟩ := Option.ite_none_right_eq_some.mp hstep
    exact h.sequenced (by simp [hpc]) (by simp [hpc])
  | waitCanceled =>
    obtain ⟨hpc, ⟨⟩⟩ := Option.ite_none_right_eq_some.mp hstep
    exact h.sequenced (by simp [hpc]) (by simp [hpc])
  | stopCanceled =>
    obtain ⟨⟨hpc, -⟩, ⟨⟩⟩ := Option.ite_none_right_eq_some.mp hstep
    exact h.sequenced (by simp [hpc]) (by simp [hpc])
  | finish =>
    obtain ⟨⟨hpc, -⟩, hstep⟩ := Option.ite_none_right_eq_some.mp hstep
    split at hstep
    · cases hstep
      exact h.sequenced (by simp [hpc]) (by simp [hpc])
    · cases hstep
      exact h.of_cursor (TailReader.stop_cursor ..)
  | drop =>
    simp only [readerStep] at hstep
    split at hstep
    · rename_i hpc
      split at hstep
      · cases hstep
        have hdrained := h.drain
        rw [DeliveryInv, hpc] at hdrained
        exact hdrained
      · cases hstep
        rw [DeliveryInv, hpc] at h
        exact h
    · cases hstep
  | report =>
    simp only [readerStep] at hstep
    split at hstep
    · rename_i hpc
      cases hstep
      rw [DeliveryInv, hpc] at h
      exact h.gapFree
    · rename_i reason hpc hout
      cases hstep
      rw [DeliveryInv, hpc] at h
      have hflow : d.flow = d.received := by simp [Delivery.flow, hout]
      rw [hflow] at h
      exact h.concat_error reason
    · cases hstep
  | closeOut =>
    obtain ⟨hpc, ⟨⟩⟩ := Option.ite_none_right_eq_some.mp hstep
    rw [DeliveryInv, hpc] at h
    exact h
  | receive =>
    simp only [readerStep] at hstep
    split at hstep
    · rename_i hout
      cases hstep
      exact h.receive hout
    · cases hstep

/-- A reader's own step never restarts it and never moves it to another stream or start. -/
theorem readerStep_running {stream : Option MemoryStream} {unlocked : Bool} {event : ReaderEvent}
    {outcome : ReaderOutcome} (hstep : readerStep stream unlocked r d event = some outcome) :
    outcome.reader.stream = r.stream ∧ outcome.delivery.start = d.start ∧
      (outcome.reader.stopped = false → r.stopped = false) := by
  have hstop (r : TailReader) (reason : Option JournalError) (discard : Bool) :
      (r.stop reason discard).stream = r.stream ∧
        ((r.stop reason discard).stopped = false → r.stopped = false) :=
    ⟨(r.moved_stop reason discard).stream, (r.moved_stop reason discard).running⟩
  cases stream <;> cases event <;>
    grind [readerStep, stopDiscarding, stopKeeping, pickNext, updateCursor]

/-- The invariant of the system. -/
structure TailSystem.Inv (s : TailSystem) : Prop where
  store : StoreInv s.store
  attached : Attached s.store
  length : s.deliveries.length = s.store.readers.length
  delivery : ∀ (i : Nat) r d, s.store.readers[i]? = some r → s.deliveries[i]? = some d →
    DeliveryInv r d

theorem TailSystem.Inv.start {config : Config} {initial : Memory}
    (h : newMemory config = .ok initial) : (TailSystem.start initial).Inv := by
  have hreaders : initial.readers = [] := by
    rw [newMemory] at h
    split at h
    · cases h
    · cases h
      rfl
  refine ⟨StoreInv.newMemory h, ?_, ?_, ?_⟩
  · intro r hr
    simp [TailSystem.start, hreaders] at hr
  · simp [TailSystem.start, hreaders]
  · intro i r d hr
    simp [TailSystem.start, hreaders] at hr

/-- One reader and its delivery change. -/
theorem TailSystem.Inv.set {s : TailSystem} (h : s.Inv) {i : Nat} {r' : TailReader}
    {d' : Delivery} (hr : s.store.readers[i]? = some r) (hdelivery : DeliveryInv r' d')
    (hstream : r'.stream = r.stream) (hrunning : r'.stopped = false → r.stopped = false)
    (stopping : List Nat) (draining : Option Nat) :
    TailSystem.Inv {
      store := { s.store with readers := s.store.readers.set i r' }
      deliveries := s.deliveries.set i d'
      stopping := stopping
      draining := draining } := by
  refine ⟨h.store.of_fields rfl rfl rfl rfl rfl, ?_, by simpa using h.length, ?_⟩
  · intro r₀ hr₀ hrun
    rcases List.mem_or_eq_of_mem_set hr₀ with hmem | rfl
    · exact h.attached r₀ hmem hrun
    · rw [hstream]
      exact h.attached r (List.mem_of_getElem? hr) (hrunning hrun)
  · intro j r₀ d₀ hr₀ hd₀
    rw [List.getElem?_set] at hr₀ hd₀
    by_cases hij : i = j
    · subst hij
      obtain ⟨hlt, _⟩ := List.getElem?_eq_some_iff.mp hr
      have hlt' : i < s.deliveries.length := by
        rw [h.length]
        exact hlt
      simp only [if_pos, hlt, hlt', Option.some.injEq] at hr₀ hd₀
      rw [← hr₀, ← hd₀]
      exact hdelivery
    · rw [if_neg hij] at hr₀ hd₀
      exact h.delivery j r₀ d₀ hr₀ hd₀

theorem ReadersMoved.getElem? {rs rs' : List TailReader} (h : ReadersMoved rs rs') {i : Nat}
    {r' : TailReader} (hr' : rs'[i]? = some r') : ∃ r, rs[i]? = some r ∧ r.Moved r' := by
  induction h generalizing i with
  | nil => simp at hr'
  | @cons r _ _ _ hr _ ih =>
    cases i with
    | zero =>
      simp only [List.getElem?_cons_zero, Option.some.injEq] at hr'
      exact ⟨r, by simp, hr' ▸ hr⟩
    | succ i =>
      simp only [List.getElem?_cons_succ] at hr' ⊢
      exact ih hr'

/-- A call of an exported method keeps the deliveries of the readers and starts the
one of a reader it attaches. -/
theorem TailSystem.Inv.call {s : TailSystem} (h : s.Inv) (envelopeLen : Entry → Option Nat)
    (call : Call) (stopping : List Nat) :
    let store := (s.store.exec envelopeLen call).1
    TailSystem.Inv {
      store := store
      deliveries := s.deliveries ++
        (store.readers.drop s.store.readers.length).map Delivery.fresh
      stopping := stopping
      draining := none } := by
  intro store
  have hspec := exec_spec envelopeLen h.store call
  obtain ⟨moved, new, heq, hmoved, _⟩ := hspec.readers
  have hlen : s.store.readers.length = moved.length := List.Forall₂.length_eq hmoved
  have hdeliveries : s.deliveries.length = moved.length := h.length.trans hlen
  have hdrop : store.readers.drop s.store.readers.length = new := by
    rw [heq, hlen, List.drop_left]
  refine ⟨hspec.inv, hspec.attached h.attached, ?_, ?_⟩
  · dsimp only
    rw [hdrop, List.length_append, List.length_map, h.length, heq, List.length_append, hlen]
  · intro i r d hr hd
    dsimp only at hr hd
    rw [hdrop] at hd
    rw [heq] at hr
    by_cases hi : i < moved.length
    · rw [List.getElem?_append_left hi] at hr
      rw [List.getElem?_append_left (by omega)] at hd
      obtain ⟨r₀, hr₀, hfrom⟩ := hmoved.getElem? hr
      exact (h.delivery i r₀ d hr₀ hd).of_cursor hfrom.cursor
    · rw [List.getElem?_append_right (by omega)] at hr
      rw [List.getElem?_append_right (by omega), List.getElem?_map, hdeliveries, hr] at hd
      cases hd
      exact DeliveryInv.fresh r

/-- No reader sends an entry after one was drained from its slot. -/
def SendsBeforeDiscard (s : TailSystem) (event : TailEvent) : Prop :=
  ∀ (ref : Nat) d, event = .reader ref .send → s.deliveries[ref]? = some d → d.discarded = []

instance (s : TailSystem) (event : TailEvent) : Decidable (SendsBeforeDiscard s event) :=
  match event with
  | .reader ref .send =>
    decidable_of_iff (∀ d ∈ s.deliveries[ref]?, d.discarded = []) (by
      unfold SendsBeforeDiscard
      constructor
      · rintro h _ d ⟨⟩ hd
        exact h d hd
      · exact fun h d hd => h ref d rfl hd)
  | .call _ | .closeDone _ | .drain => .isTrue (by simp [SendsBeforeDiscard])
  | .reader _ .cancel | .reader _ .pick | .reader _ .lockDelivery | .reader _ .seeDone
  | .reader _ .seeCanceled | .reader _ .update | .reader _ .wakeUp | .reader _ .waitDone
  | .reader _ .waitCanceled | .reader _ .stopCanceled | .reader _ .finish | .reader _ .drop
  | .reader _ .report | .reader _ .closeOut | .reader _ .receive =>
    .isTrue (by simp [SendsBeforeDiscard])

/-- The step lemma of the system. -/
theorem TailSystem.Inv.step {envelopeLen : Entry → Option Nat} {s s' : TailSystem}
    {event : TailEvent} (h : s.Inv) (hclean : SendsBeforeDiscard s event)
    (hstep : s.step envelopeLen event = some s') : s'.Inv := by
  cases event with
  | call call =>
    obtain ⟨-, ⟨⟩⟩ := Option.ite_none_right_eq_some.mp hstep
    exact h.call envelopeLen call _
  | reader ref event =>
    simp only [TailSystem.step] at hstep
    split at hstep
    · rename_i r d hr hd
      obtain ⟨outcome, hreader, rfl⟩ := Option.map_eq_some_iff.mp hstep
      obtain ⟨hstream, -, hrunning⟩ := readerStep_running hreader
      have hdelivery := readerStep_inv (h.store.stream _) (h.delivery ref r d hr hd)
        (fun hsend => hclean ref d (by rw [hsend]) hd) hreader
      exact h.set hr hdelivery hstream hrunning _ _
    · cases hstep
  | closeDone ref =>
    simp only [TailSystem.step] at hstep
    split at hstep
    · rename_i d hd
      obtain ⟨-, ⟨⟩⟩ := Option.ite_none_right_eq_some.mp hstep
      refine ⟨h.store, h.attached, by simpa using h.length, ?_⟩
      intro i r d' hr hd'
      rw [List.getElem?_set] at hd'
      split at hd'
      · rename_i href
        subst href
        obtain ⟨-, ⟨⟩⟩ := Option.ite_none_right_eq_some.mp hd'
        exact h.delivery ref r d hr hd
      · exact h.delivery i r d' hr hd'
    · cases hstep
  | drain =>
    simp only [TailSystem.step] at hstep
    split at hstep
    · cases hstep
    · rename_i ref _
      split at hstep
      · rename_i r d hr hd
        obtain ⟨-, ⟨⟩⟩ := Option.ite_none_left_eq_some.mp hstep
        have hdrained : DeliveryInv { r with discard := false } _ :=
          (h.delivery ref r d hr hd).drain.of_cursor rfl
        exact h.set hr hdrained rfl (fun hrun => hrun) _ _
      · cases hstep

/-! ## The start of a delivery -/

/-- The answer of `Tail`: if it accepts the call, a reader with the cursor of the call was
added to the ones before it. -/
def Attaches (count fromSeq : Nat) (result : Memory × Reply) : Prop :=
  ∀ ref, result.2 = .reader ref →
    ref = count ∧ ∃ r, result.1.readers[ref]? = some r ∧ r.cursor = fromSeq

theorem tail_attaches {m : Memory} (h : StoreInv m) (ctx : Context) (id : StreamID)
    (fromSeq : Nat) (now : Int) :
    Attaches m.readers.length fromSeq (m.tail ctx id fromSeq now) := by
  have herror (m' : Memory) (err : JournalError) :
      Attaches m.readers.length fromSeq (m', .error err) := fun _ h => by cases h
  obtain ⟨-, hshrinks⟩ := cleanupExpiredLocked_spec h now
  have hlength := List.Forall₂.length_eq hshrinks.readers
  simp only [Memory.tail, withLock, withStream]
  split
  · exact herror _ _
  split
  · exact herror _ _
  split
  · exact herror _ _
  split
  · exact herror _ _
  split
  · exact herror _ _
  split
  · exact herror _ _
  split
  · exact herror _ _
  · intro ref href
    simp only [Reply.reader.injEq, List.length_append, List.length_singleton,
      Nat.add_sub_cancel] at href
    refine ⟨by omega, ?_⟩
    unfold touchTerminalLocked
    split <;> exact ⟨_, by rw [← href]; exact List.getElem?_concat_length, rfl⟩

/-- The delivery of a reader has a start. -/
def TailSystem.StartsAt (ref fromSeq : Nat) (s : TailSystem) : Prop :=
  ∃ d, s.deliveries[ref]? = some d ∧ d.start = fromSeq

theorem TailSystem.StartsAt.of_tail {envelopeLen : Entry → Option Nat} {s s' : TailSystem}
    (h : s.Inv) {ctx : Context} {id : StreamID} {fromSeq ref : Nat} {now : Int}
    (haccepted : (s.store.tail ctx id fromSeq now).2 = .reader ref)
    (hstep : s.step envelopeLen (.call (.tail ctx id fromSeq now)) = some s') :
    s'.StartsAt ref fromSeq := by
  obtain ⟨rfl, r, hr, hcursor⟩ := tail_attaches h.store ctx id fromSeq now ref haccepted
  obtain ⟨-, ⟨⟩⟩ := Option.ite_none_right_eq_some.mp hstep
  refine ⟨.fresh r, ?_, hcursor⟩
  rw [List.getElem?_append_right h.length.le, List.getElem?_map, List.getElem?_drop, h.length,
    Nat.sub_self, Nat.add_zero]
  exact congrArg (Option.map Delivery.fresh) hr

/-- No step moves the start of a delivery. -/
theorem TailSystem.StartsAt.step {envelopeLen : Entry → Option Nat} {s s' : TailSystem}
    {event : TailEvent} {ref fromSeq : Nat} (h : s.StartsAt ref fromSeq)
    (hstep : s.step envelopeLen event = some s') : s'.StartsAt ref fromSeq := by
  obtain ⟨d, hd, hstart⟩ := h
  -- a step that replaces one delivery by another with the same start
  have hset {i : Nat} {d₀ d' : Delivery} (hd₀ : s.deliveries[i]? = some d₀)
      (hsame : d'.start = d₀.start) : ∃ d, (s.deliveries.set i d')[ref]? = some d ∧
        d.start = fromSeq := by
    grind
  cases event with
  | call call =>
    obtain ⟨-, ⟨⟩⟩ := Option.ite_none_right_eq_some.mp hstep
    exact ⟨d, by rw [List.getElem?_append_left (List.getElem?_eq_some_iff.mp hd).1, hd], hstart⟩
  | reader i event =>
    simp only [TailSystem.step] at hstep
    split at hstep
    · rename_i r d₀ hr hd₀
      obtain ⟨outcome, hreader, rfl⟩ := Option.map_eq_some_iff.mp hstep
      exact hset hd₀ (readerStep_running hreader).2.1
    · cases hstep
  | closeDone i =>
    simp only [TailSystem.step] at hstep
    split at hstep
    · rename_i d₀ hd₀
      obtain ⟨-, ⟨⟩⟩ := Option.ite_none_right_eq_some.mp hstep
      exact hset hd₀ rfl
    · cases hstep
  | drain =>
    simp only [TailSystem.step] at hstep
    split at hstep
    · cases hstep
    · split at hstep
      · rename_i r d₀ hr hd₀
        obtain ⟨-, ⟨⟩⟩ := Option.ite_none_left_eq_some.mp hstep
        exact hset hd₀ rfl
      · cases hstep

/-! ## The results -/

/-- For every accepted call of `Tail`, in every run in which no reader sends after its slot
was drained, the consumer receives the sequences after the cursor of the call in order, and
then at most one error. -/
theorem tail_delivery_gap_free (envelopeLen : Entry → Option Nat) (config : Config)
    (initial : Memory) (hnew : newMemory config = .ok initial) (before after : List TailEvent)
    (ctx : Context) (id : StreamID) (fromSeq : Nat) (now : Int) (attaching s : TailSystem)
    (hbefore : run (TailSystem.step envelopeLen) (TailSystem.start initial) before =
      some attaching)
    (ref : Nat) (haccepted : (attaching.store.tail ctx id fromSeq now).2 = .reader ref)
    (hafter : run (TailSystem.step envelopeLen) attaching
      (.call (.tail ctx id fromSeq now) :: after) = some s)
    (hclean : Along (TailSystem.step envelopeLen) SendsBeforeDiscard (TailSystem.start initial)
      (before ++ .call (.tail ctx id fromSeq now) :: after)) :
    ∃ d, s.deliveries[ref]? = some d ∧ GapFree fromSeq d.received := by
  obtain ⟨hcleanBefore, hcleanAfter⟩ := hclean.append hbefore
  have hinv : attaching.Inv :=
    inv_of_run_along (fun _ _ _ h hgood hstep => h.step hgood hstep)
      (TailSystem.Inv.start hnew) hcleanBefore hbefore
  have hinv' : s.Inv :=
    inv_of_run_along (fun _ _ _ h hgood hstep => h.step hgood hstep) hinv hcleanAfter hafter
  obtain ⟨attached, hattached, hrest⟩ := run_cons hafter
  obtain ⟨d, hd, rfl⟩ : s.StartsAt ref fromSeq :=
    inv_of_run (fun _ _ _ h hstep => h.step hstep) (.of_tail hinv haccepted hattached) hrest
  obtain ⟨r, hr⟩ : ∃ r, s.store.readers[ref]? = some r := by
    have hlt := (List.getElem?_eq_some_iff.mp hd).1
    rw [hinv'.length] at hlt
    exact ⟨_, List.getElem?_eq_getElem hlt⟩
  exact ⟨d, hd, (hinv'.delivery ref r d hr hd).gapFree.left⟩

def openSample : TailEvent := .call (.open {} sampleID sampleMeta 0)

/-- A reader is attached at the cursor 0, and its consumer takes the open entry. -/
def openEntryEvents : List TailEvent :=
  [.call (.tail {} sampleID 0 0), .reader 0 .pick, .reader 0 .lockDelivery, .reader 0 .send,
    .reader 0 .receive]

theorem tail_delivery_gap_free_of_open_entry :
    ∃ attaching s d,
      run (TailSystem.step fun _ => some 40) (TailSystem.start smallStore) [openSample] =
        some attaching ∧
      run (TailSystem.step fun _ => some 40) attaching openEntryEvents = some s ∧
      s.deliveries[0]? = some d ∧ GapFree 0 d.received := by
  have hrun : (run (TailSystem.step fun _ => some 40) (TailSystem.start smallStore)
      [openSample]).any (fun attaching => (attaching.store.tail {} sampleID 0 0).2 = .reader 0 ∧
        (run (TailSystem.step fun _ => some 40) attaching openEntryEvents).isSome) = true := by
    decide +kernel
  obtain ⟨attaching, hbefore, hattaching⟩ := (Option.any_eq_true _ _).mp hrun
  obtain ⟨haccepted, hsome⟩ := of_decide_eq_true hattaching
  obtain ⟨s, hafter⟩ := Option.isSome_iff_exists.mp hsome
  obtain ⟨d, hd, hgapFree⟩ := tail_delivery_gap_free _ smallConfig smallStore rfl [openSample] _
    {} sampleID 0 0 attaching s hbefore 0 haccepted hafter (by decide +kernel)
  exact ⟨attaching, s, d, hbefore, hafter, hd, hgapFree⟩

/-- A store whose readers may lag by one entry of ten bytes. -/
def laggingConfig : Config :=
  { ttl := 600, maxBytesPerStream := 1000, maxTotalBytes := 1000, readerMaxLagBytes := 15 }

/-- The empty store under `laggingConfig`. -/
def laggingStore : Memory :=
  { config := laggingConfig
    streams := ∅
    tombstones := ∅
    terminalLRU := []
    totalBytes := 0
    readers := [] }

/-- Entry 1 waits in the slot and the goroutine holds entry 2 when two more commits
evict the reader.  The drain takes entry 1; the select then sends entry 2. -/
def gapEvents : List TailEvent :=
  [.call (.open {} sampleID sampleMeta 0), .call (.tail {} sampleID 0 0),
    .reader 0 .pick, .reader 0 .lockDelivery, .reader 0 .send, .reader 0 .update,
    .call (.append {} sampleID warningEntry 1), .reader 0 .pick,
    .call (.append {} sampleID warningEntry 2), .call (.append {} sampleID warningEntry 3),
    .closeDone 0, .drain, .reader 0 .lockDelivery, .reader 0 .send, .reader 0 .receive]

theorem tail_gap_after_discard :
    ∃ s d, newMemory laggingConfig = .ok laggingStore ∧
      run (TailSystem.step fun _ => some 10) (TailSystem.start laggingStore) gapEvents = some s ∧
      s.deliveries[0]? = some d ∧ d.start = 0 ∧ d.received.map (·.seq) = [2] ∧
      ¬ GapFree d.start d.received := by
  have hrun : ((run (TailSystem.step fun _ => some 10) (TailSystem.start laggingStore)
      gapEvents).bind fun s => s.deliveries[0]?).map
        (fun d => (d.start, d.received.map fun e => (e.seq, e.err))) = some (0, [(2, none)]) := by
    decide +kernel
  obtain ⟨d, hd, heq⟩ := Option.map_eq_some_iff.mp hrun
  obtain ⟨s, hs, hdelivery⟩ := Option.bind_eq_some_iff.mp hd
  simp only [Prod.mk.injEq] at heq
  obtain ⟨hstart, hreceived⟩ := heq
  obtain ⟨entry, hentry⟩ : ∃ entry, d.received = [entry] := by
    rw [← List.length_eq_one_iff, ← List.length_map (fun e : Entry => (e.seq, e.err)),
      hreceived]
    rfl
  rw [hentry] at hreceived
  simp only [List.map_cons, List.map_nil, List.cons.injEq, Prod.mk.injEq, and_true] at hreceived
  refine ⟨s, d, rfl, hs, hdelivery, hstart, by simp [hentry, hreceived.1], ?_⟩
  intro hgap
  rw [hentry] at hgap
  have hseq := hgap.head_seq hreceived.2
  rw [hstart, hreceived.1] at hseq
  cases hseq

end Streamweld.Journal
