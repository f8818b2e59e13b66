import Streamweld.Proxy.Runtime

/-!
# The readers of a stream

What the handlers do for a reader (`internal/proxy/durable_http.go`): the reader of
the request that created the stream (`handleCompletion`, `serveInitialJournal`), and
the readers that resume it on the same replica (`serveLocalJournal`).  Both end in
`serveJournalTail` and `serveDegradedFeed`.

`Tail` is the journal's: it delivers the committed entries after its cursor one by
one, as long as it likes, and then ends.  A reader can leave at any point: its client
goes away, a write or a flush fails, or it is evicted.
-/

namespace Streamweld.Proxy

open Streamweld.Journal Streamweld.Lib

variable {r : Runtime} {reader : Reader}

/-! ## Writing -/

structure SSEWriteResult where
  visible : Bool
  terminal : Bool
  deriving DecidableEq, Repr

/-- `JournalSSEWriter.WriteEntry`. -/
def writeEntry (verbose : Bool) (entry : Item) : SSEWriteResult :=
  let mapping := journalSSEMappings entry.kind
  if mapping.verboseOnly = true ∧ verbose = false then ⟨false, false⟩
  else ⟨true, mapping.terminal⟩

/-- `JournalSSEWriter.WriteDegradedFrame`. -/
def writeDegradedFrame (verbose : Bool) (frame : DegradedFrame) : SSEWriteResult :=
  if frame.verboseOnly = true ∧ verbose = false then ⟨false, false⟩ else ⟨true, frame.terminal⟩

/-! ## Readers -/

/-- Where a reader is.  `relayStart`, `degraded` and `gap` are the variables
`relayStartSeq`, `degraded` and `localGapBoundary` of `serveJournalTail`. -/
inductive ReaderPc where
  /-- `handleCompletion` -/
  | attachInitial
  | subscribeInitial
  /-- `serveInitialJournal` -/
  | writeOpen
  | ackOpen
  | awaitFirst
  | writeFirst (entry : Item)
  | ackFirst (entry : Item)
  | tailFirst
  /-- `serveLocalJournal` -/
  | attach
  | status
  | subscribe
  | statusAgain
  | state (gap : Option Nat)
  | tail (relayStart : Nat) (gap : Option Nat)
  /-- `serveJournalTail` -/
  | loop (relayStart : Nat) (degraded : Bool) (gap : Option Nat)
  | select (relayStart : Nat) (degraded : Bool) (gap : Option Nat)
  | acknowledge (relayStart : Nat) (degraded : Bool) (gap : Option Nat) (entry : Item)
  /-- `serveDegradedFeed` -/
  | next
  | writeFrame (frame : DegradedFrame)
  | leaving
  | left
  deriving DecidableEq, Repr

/-- A reader.  `lastSeq` is the sequence of the last entry that was given to
`WriteEntry`, or the cursor.

`base` is not in the code: the sequence up to which the entries had been broadcast
when the reader subscribed. -/
structure Reader where
  initial : Bool
  cursor : Nat
  verbose : Bool
  pc : ReaderPc
  attached : Bool
  subscription : Option Nat
  lastSeq : Nat
  written : List Item
  base : Nat
  deriving DecidableEq, Repr

def Reader.new (initial : Bool) (cursor : Nat) (verbose : Bool) : Reader :=
  { initial := initial
    cursor := cursor
    verbose := verbose
    pc := if initial then .attachInitial else .attach
    attached := false
    subscription := none
    lastSeq := cursor
    written := []
    base := 0 }

/-- What happens to a reader. -/
inductive ReaderEvent where
  /-- its next step, when the step does not depend on others -/
  | advance
  /-- it takes the first entry -/
  | first
  /-- it sees that the feed was activated -/
  | activated
  /-- its journal call fails -/
  | fail
  /-- its tail delivers an entry -/
  | deliver
  /-- its tail delivers an error or is closed -/
  | tailEnd
  | leave
  deriving DecidableEq, Repr

/-- `attachReader`. -/
def Runtime.attachReader (r : Runtime) : Option Runtime :=
  if r.terminating = true ∨ (r.orphanClaim.isSome = true ∧ r.terminal = none) then none
  else some { r with readers := r.readers + 1 }

/-- The choice that `serveLocalJournal` makes from the status of the feed. -/
def gapPc (cursor : Nat) (status : Nat × Bool) (inactive : ReaderPc) : ReaderPc :=
  if status.2 = false then inactive
  else if cursor = status.1 then .leaving
  else if cursor < status.1 then .state (some status.1)
  else .state none

/-- The head of the loop of `serveJournalTail`. -/
def loopPc (lastSeq relayStart : Nat) (degraded : Bool) (gap : Option Nat) : ReaderPc :=
  if gap.any (fun boundary => decide (lastSeq ≥ boundary)) = true then .leaving
  else if degraded = true ∧ lastSeq ≥ relayStart then .next
  else .select relayStart degraded gap

namespace Reader

variable (r : Runtime) (reader : Reader)

/-- The reader writes an entry. -/
def write (entry : Item) (pc : ReaderPc) : Reader :=
  { reader with written := reader.written ++ [entry], lastSeq := entry.seq, pc := pc }

/-- The feed after the reader has acknowledged a sequence. -/
def acknowledged (seq : Nat) : Runtime :=
  match reader.subscription with
  | some id => { r with feed := r.feed.acknowledge id seq }
  | none => r

/-- The reader detaches and unsubscribes. -/
def depart : Runtime × Reader :=
  let r :=
    match reader.subscription with
    | some id => { r with feed := r.feed.unsubscribe id }
    | none => r
  let r := if reader.attached then { r with readers := r.readers - 1 } else r
  (r, { reader with pc := .left })

/-- `feed.subscribe` and what the reader remembers of it. -/
def subscribed (required : Bool) (pc : ReaderPc) : Option (Runtime × Reader) :=
  (r.feed.subscribe required).map fun (feed, id) =>
    ({ r with feed := feed },
      { reader with subscription := some id, base := r.broadcastSeq, pc := pc })

/-- The next step, when it does not depend on others. -/
def advance : Option (Runtime × Reader) :=
  match reader.pc with
  | .attachInitial | .attach =>
    match r.attachReader with
    | none => some (r, { reader with pc := .left })
    | some r =>
      some (r, { reader with
        attached := true
        pc := if reader.initial then .subscribeInitial else .status })
  | .subscribeInitial =>
    match reader.subscribed r true .writeOpen with
    | some result => some result
    | none => some (r, { reader with pc := .leaving })
  | .writeOpen => some (r, reader.write ⟨1, .kindOpen, r.journal.opening⟩ .ackOpen)
  | .ackOpen => some (reader.acknowledged r 1, { reader with pc := .awaitFirst })
  | .writeFirst entry => some (r, reader.write entry (.ackFirst entry))
  | .ackFirst entry =>
    some (reader.acknowledged r entry.seq,
      { reader with
        pc := if (writeEntry reader.verbose entry).terminal then .leaving else .tailFirst })
  | .tailFirst =>
    if reader.lastSeq ≤ r.journal.lastSeq then
      some (r, { reader with pc := .loop reader.lastSeq false none })
    else none
  | .status => some (r, { reader with pc := gapPc reader.cursor r.feed.status .subscribe })
  | .subscribe =>
    match reader.subscribed r false (.state none) with
    | some result => some result
    | none => some (r, { reader with pc := .statusAgain })
  | .statusAgain =>
    some (r, { reader with pc := gapPc reader.cursor r.feed.status (.state none) })
  | .state gap => some (r, { reader with pc := .tail r.journal.lastSeq gap })
  | .tail relayStart gap =>
    if reader.cursor ≤ r.journal.lastSeq then
      some (r, { reader with pc := .loop relayStart false gap })
    else none
  | .loop relayStart degraded gap =>
    some (r, { reader with pc := loopPc reader.lastSeq relayStart degraded gap })
  | .acknowledge relayStart degraded gap entry =>
    some (reader.acknowledged r entry.seq,
      { reader with
        pc :=
          if (writeEntry reader.verbose entry).terminal then .leaving
          else .loop relayStart degraded gap })
  | .next =>
    match reader.subscription with
    | none => some (r, { reader with pc := .leaving })
    | some id =>
      match r.feed.next id with
      | none => none
      | some (feed, .frame frame) =>
        some ({ r with feed := feed }, { reader with pc := .writeFrame frame })
      | some (feed, _) => some ({ r with feed := feed }, { reader with pc := .leaving })
  | .writeFrame frame =>
    match frame.entry with
    | some entry =>
      some (r, reader.write entry
        (if (writeEntry reader.verbose entry).terminal then .leaving else .next))
    | none =>
      some (r, { reader with
        pc := if (writeDegradedFrame reader.verbose frame).terminal then .leaving else .next })
  | .awaitFirst | .select _ _ _ | .leaving | .left => none

/-- One step of a reader. -/
def step : ReaderEvent → Option (Runtime × Reader)
  | .advance => reader.advance r
  | .first =>
    match reader.pc, r.firstEntry with
    | .awaitFirst, some entry =>
      some ({ r with firstEntry := none }, { reader with pc := .writeFirst entry })
    | _, _ => none
  | .activated =>
    match reader.pc with
    | .awaitFirst => if r.feed.active then some (r, { reader with pc := .next }) else none
    | .select relayStart false gap =>
      if r.feed.active = true ∧ reader.subscription.isSome = true then
        some (r, { reader with pc := .loop relayStart true gap })
      else none
    | _ => none
  | .fail =>
    match reader.pc with
    | .tailFirst => some (r, { reader with pc := .next })
    | .state _ | .tail _ _ => some (r, { reader with pc := .leaving })
    | _ => none
  | .deliver =>
    match reader.pc with
    | .select relayStart degraded gap =>
      match r.journal.items[reader.lastSeq]? with
      | some entry => some (r, reader.write entry (.acknowledge relayStart degraded gap entry))
      | none => none
    | _ => none
  | .tailEnd =>
    match reader.pc with
    | .select relayStart _ _ =>
      some (r, { reader with
        pc :=
          if reader.subscription.isSome = true ∧ reader.lastSeq ≥ relayStart then .next
          else .leaving })
    | _ => none
  | .leave => if reader.pc = .left then none else some (reader.depart r)

/-! ## What a reader leaves alone -/

end Reader

/-- The runtime differs in what readers change: their number, their subscriptions and
the slot of the first entry. -/
structure ReadersOnly (r r' : Runtime) : Prop where
  feed : r.feed.Same r'.feed
  rest : r' = { r with readers := r'.readers, firstEntry := r'.firstEntry, feed := r'.feed }

namespace ReadersOnly

theorem refl (r : Runtime) : ReadersOnly r r := ⟨⟨rfl, rfl, rfl, rfl⟩, rfl⟩

theorem of_feed {feed : DegradedFeed} (h : r.feed.Same feed) :
    ReadersOnly r { r with feed := feed } := ⟨h, rfl⟩

theorem acknowledged (r : Runtime) (reader : Reader) (seq : Nat) :
    ReadersOnly r (reader.acknowledged r seq) := by
  unfold Reader.acknowledged
  split
  · exact of_feed (r.feed.same_modify ..)
  · exact refl r

theorem depart (r : Runtime) (reader : Reader) : ReadersOnly r (reader.depart r).1 := by
  unfold Reader.depart
  cases reader.subscription with
  | none =>
    cases reader.attached <;> exact ⟨⟨rfl, rfl, rfl, rfl⟩, rfl⟩
  | some id =>
    cases reader.attached <;> exact ⟨r.feed.same_unsubscribe id, rfl⟩

theorem subscribed {r' : Runtime} {reader' : Reader} {required : Bool} {pc : ReaderPc}
    (h : reader.subscribed r required pc = some (r', reader')) : ReadersOnly r r' := by
  unfold Reader.subscribed at h
  obtain ⟨⟨feed, id⟩, hsubscribe, hpair⟩ := Option.map_eq_some_iff.mp h
  cases hpair
  exact of_feed (r.feed.same_subscribe id hsubscribe)

theorem attachReader {r' : Runtime} (h : r.attachReader = some r') : ReadersOnly r r' := by
  unfold Runtime.attachReader at h
  split at h
  · cases h
  · cases h
    exact ⟨⟨rfl, rfl, rfl, rfl⟩, rfl⟩

theorem advance {r' : Runtime} {reader' : Reader} (h : reader.advance r = some (r', reader')) :
    ReadersOnly r r' := by
  unfold Reader.advance at h
  cases hpc : reader.pc with
  | writeOpen | writeFirst | status | statusAgain | state | loop =>
    simp only [hpc] at h
    cases h
    exact refl r
  | ackOpen | ackFirst | acknowledge =>
    simp only [hpc] at h
    cases h
    exact acknowledged r reader _
  | attachInitial | attach =>
    simp only [hpc] at h
    split at h
    · cases h
      exact refl r
    · cases h
      exact attachReader ‹_›
  | subscribeInitial | subscribe =>
    simp only [hpc] at h
    split at h
    · cases h
      exact subscribed ‹_›
    · cases h
      exact refl r
  | tailFirst | tail =>
    simp only [hpc] at h
    split at h
    · cases h
      exact refl r
    · cases h
  | next =>
    simp only [hpc] at h
    split at h
    · cases h
      exact refl r
    · split at h
      · cases h
      · cases h
        exact of_feed (r.feed.same_next _ ‹_›)
      · cases h
        exact of_feed (r.feed.same_next _ ‹_›)
  | writeFrame =>
    simp only [hpc] at h
    split at h <;> cases h <;> exact refl r
  | awaitFirst | select | leaving | left =>
    simp only [hpc] at h
    cases h

/-- What a step of a reader leaves alone. -/
theorem step {r' : Runtime} {reader' : Reader} {event : ReaderEvent}
    (h : reader.step r event = some (r', reader')) : ReadersOnly r r' := by
  cases event with
  | advance => exact advance h
  | first =>
    simp only [Reader.step] at h
    split at h
    · cases h
      exact ⟨⟨rfl, rfl, rfl, rfl⟩, rfl⟩
    · cases h
  | activated =>
    simp only [Reader.step] at h
    split at h
    · split at h <;> cases h
      exact refl r
    · split at h <;> cases h
      exact refl r
    · cases h
  | fail =>
    simp only [Reader.step] at h
    split at h <;> cases h <;> exact refl r
  | deliver =>
    simp only [Reader.step] at h
    split at h
    · split at h <;> cases h
      exact refl r
    · cases h
  | tailEnd =>
    simp only [Reader.step] at h
    split at h <;> cases h
    exact refl r
  | leave =>
    simp only [Reader.step] at h
    split at h
    · cases h
    · cases h
      exact depart r reader

end ReadersOnly

end Streamweld.Proxy
