import Streamweld.Redis.Tail

/-!
# What a reader of the Redis journal sees

The invariant of the system of `Streamweld.Redis.Tail` (`TailInv`) says that what
`runTail` handed to the pump is the committed entries up to its cursor, followed
by an error in the end.  Writers extend the committed entries and leave an ended
stream alone (`Extends`), so what `runTail` learned about an ended stream is never
stale.

`redis_tail_gap_free` is the result.  Only its part about the offset-expired error
needs that Redis answers: `runTail` reports every failure of its fallback command
as such an error, also where the context has ended (`offset_expired_before_entry`).
-/

namespace Streamweld.Redis

open Streamweld.Journal Streamweld.Lib

variable {message : XMessage} {rest : List Entry} {entry : Entry} {err : JournalError}
  {maxLagBytes : Int} {keys : StreamKeys} {log : LogStream} {hash : StateHash}
  {fromSeq cursor : Nat} {pc : SourcePc} {s : RedisTail} {args : TailArgs}
  {callerErr : Option CtxErr} {envelopeLen : Entry → Option Nat} {Answered : Prop}
  {events : List XMessage}

/-! ## Events -/

section Events

namespace StreamKeys.Holds

theorem consecutive (h : keys.Holds log hash events) :
    Consecutive 1 (events.map XMessage.seq) :=
  h.replayable.consecutive

theorem seq_of_getElem? (h : keys.Holds log hash events) {index : Nat}
    (hmessage : events[index]? = some message) : message.seq = index + 1 := by
  obtain ⟨hindex, -⟩ := List.getElem?_eq_some_iff.mp hmessage
  have hseq := h.consecutive.getElem? (show index < (events.map XMessage.seq).length by
    rw [List.length_map]; exact hindex)
  rw [List.getElem?_map, hmessage, Option.map_some, Option.some.injEq] at hseq
  omega

/-- A committed event decodes. -/
theorem decodesTo_getElem? (h : keys.Holds log hash events) {index : Nat}
    (hmessage : events[index]? = some message) :
    decodesTo message (index + 1) = some message.entry ∧
      decodeRedisEntry message = .ok message.entry := by
  have hseq := h.seq_of_getElem? hmessage
  have hvalid := log.valid_of_mem (h.item_mem (List.mem_of_getElem? hmessage))
  refine ⟨hseq ▸ decodesTo_of_valid hvalid (by omega), ?_⟩
  have hpos : message.seq ≠ 0 := by omega
  change validatePayload message.payload = .ok () at hvalid
  simp [decodeRedisEntry, hpos, hvalid, XMessage.entry]

/-- The first event after a cursor. -/
theorem find?_after (h : keys.Holds log hash events) (cursor : Nat) :
    (events.find? fun message => decide (cursor + 1 ≤ message.seq)) = events[cursor]? := by
  have hdrop := Consecutive.filter_eq_drop XMessage.seq h.consecutive cursor
  rw [Nat.add_comm 1 cursor] at hdrop
  rw [← List.head?_filter, hdrop, List.head?_drop]

/-- A terminal event is the last one of a closed stream. -/
theorem terminal_event (h : keys.Holds log hash events) (hmem : message ∈ events)
    (hterminal : message.kind.terminal = true) :
    message.seq = events.length ∧ ∃ record, log.ending = .closed record := by
  obtain ⟨hseq, record, hending, -⟩ := log.terminal_item (h.item_mem hmem) hterminal
  exact ⟨hseq.trans h.length.symm, record, hending⟩

/-- The last event of a closed stream is terminal. -/
theorem closed_last (h : keys.Holds log hash events) {record : FinalRecord}
    (hending : log.ending = .closed record) :
    ∃ last, events.getLast? = some last ∧ last.kind.terminal = true := by
  obtain ⟨last, hlast, -, hkind⟩ := h.getLast
  rw [hending] at hkind
  exact ⟨last, hlast, hkind.1 ▸ record.terminal⟩

end StreamKeys.Holds

/-- What writers do to a stream: an ended stream stays as it is, and a live one may
get new events. -/
structure Extends (log log' : LogStream) (events events' : List XMessage) : Prop where
  ended : log.ending ≠ .live → log'.ending = log.ending ∧ events' = events
  grown : ∃ new, events' = events ++ new ∧ ∀ message ∈ new, events.length < message.seq
  bounded : events.length < 10 ^ 14 → events'.length < 10 ^ 14

theorem Extends.refl (log : LogStream) (events : List XMessage) : Extends log log events events :=
  ⟨fun _ => ⟨rfl, rfl⟩, ⟨[], by simp, by simp⟩, id⟩

/-- Keys that describe the same state and events keep the same log. -/
theorem StreamKeys.Holds.congr {keys' : StreamKeys} (h : keys.Holds log hash events)
    (hstate : keys'.state = keys.state) (hevents : keys'.events = keys.events) :
    keys'.Holds log hash events :=
  ⟨hstate.trans h.state_eq, hevents.trans h.events_eq, h.hash_holds, h.items⟩

/-- A script either leaves the state and the events alone or commits its body. -/
theorem mutationScript_cases (h : keys.Holds log hash events) (operation : Mutation)
    (nonce : Nonce)
    (body : StateHash → List XMessage → Except ScriptError (StateHash × List XMessage × Nat)) :
    ((mutationScript operation nonce body keys).1.state = keys.state ∧
      (mutationScript operation nonce body keys).1.events = keys.events) ∨
    ∃ hash' events' result, body hash events = .ok (hash', events', result) ∧
      (mutationScript operation nonce body keys).1.state = some hash' ∧
      (mutationScript operation nonce body keys).1.events = some events' := by
  unfold mutationScript
  cases keys.receipts nonce with
  | some receipt =>
    left
    by_cases hoperation : receipt.operation ≠ operation
    · simp [hoperation]
    · simp [hoperation]
  | none =>
    simp only [h.state_eq, h.events_eq]
    cases hbody : body hash events with
    | error err => simp [h.state_eq, h.events_eq]
    | ok committed =>
      obtain ⟨hash', events', result⟩ := committed
      exact .inr ⟨hash', events', result, rfl, rfl, rfl⟩

/-- The commit of an entry, when it succeeds. -/
theorem commitEntry_holds (h : keys.Holds log hash events) {now : Int} {kind : EntryKind}
    {payload : RawMessage} {hash' : StateHash} {events' : List XMessage} {seq : Nat}
    (hcommit : commitEntry now kind payload hash events = .ok (hash', events', seq)) :
    log.ending = .live ∧ log.lastSeq + 1 < 10 ^ 14 ∧
      hash' = { hash with lastSeq := log.lastSeq + 1, updatedAt := now } ∧
      events' = events ++
        [{ seq := log.lastSeq + 1, kind := kind, payload := payload, ts := now }] := by
  by_cases hlive : log.ending = .live
  · by_cases hbound : log.lastSeq + 1 < 10 ^ 14
    · rw [commitEntry_live h hlive hbound] at hcommit
      cases hcommit
      exact ⟨hlive, hbound, rfl, rfl⟩
    · have hdegraded : hash.degraded = false := by rw [h.hash_holds.degraded, hlive]; rfl
      have hstatus : hash.status = .statusOpen := by rw [h.hash_holds.status, hlive]; rfl
      have htostring : luaTostring (log.lastSeq + 1) = none := if_neg hbound
      simp [commitEntry, hdegraded, hstatus, h.hash_holds.last, htostring] at hcommit
  · rw [commitEntry_ended h hlive] at hcommit
    cases hcommit

/-- The stream after a commit. -/
theorem Extends.commit (h : keys.Holds log hash events) {log' : LogStream} {kind : EntryKind}
    {payload : RawMessage} (hlive : log.ending = .live) (hbound : log.lastSeq + 1 < 10 ^ 14)
    (now : Int) :
    Extends log log' events (events ++
      [{ seq := log.lastSeq + 1, kind := kind, payload := payload, ts := now }]) := by
  have hlength := h.length
  refine ⟨fun hended => absurd hlive hended, ⟨_, rfl, ?_⟩, fun _ => ?_⟩
  · intro message hmessage
    rw [List.mem_singleton.mp hmessage, hlength]
    exact Nat.lt_succ_self _
  · rw [List.length_append, List.length_singleton, hlength]
    exact hbound

/-- A mutation keeps the keys of a stream well formed and only extends the stream. -/
theorem Write.run_holds (h : keys.Holds log hash events) (mutation : Write) :
    ∃ log' hash' events', (mutation.run keys).Holds log' hash' events' ∧
      Extends log log' events events' := by
  have hsame : ∀ keys' : StreamKeys, keys'.state = keys.state → keys'.events = keys.events →
      ∃ log' hash' events', keys'.Holds log' hash' events' ∧ Extends log log' events events' :=
    fun keys' hstate hevents => ⟨log, hash, events, h.congr hstate hevents, .refl log events⟩
  cases mutation with
  | append record nonce now =>
    rcases mutationScript_cases h .append nonce (commitEntry now record.kind record.payload) with
      ⟨hstate, hevents⟩ | ⟨hash', events', result, hbody, hstate, hevents⟩
    · exact hsame _ hstate hevents
    · obtain ⟨hlive, hbound, rfl, rfl⟩ := commitEntry_holds h hbody
      exact ⟨log.push record, _, _, ⟨hstate, hevents, h.hash_holds.push hlive record now,
        h.items_concat (log.records_push hlive record) now⟩, .commit h hlive hbound now⟩
  | close record nonce now =>
    refine (mutationScript_cases h .close nonce _).elim (fun hkept => hsame _ hkept.1 hkept.2) ?_
    rintro ⟨hash', events', result, hbody, hstate, hevents⟩
    · cases hcommit : commitEntry now record.kind record.payload hash events with
      | error err => simp [hcommit] at hbody
      | ok committed =>
        obtain ⟨hash₁, events₁, seq⟩ := committed
        obtain ⟨hlive, hbound, rfl, rfl⟩ := commitEntry_holds h hcommit
        simp only [hcommit, Except.ok.injEq, Prod.mk.injEq] at hbody
        obtain ⟨rfl, rfl, -⟩ := hbody
        exact ⟨log.finish (.closed record), _, _, ⟨hstate, hevents,
          h.hash_holds.close hlive record now, h.items_concat (log.records_close hlive record) now⟩,
          .commit h hlive hbound now⟩
  | degrade nonce now =>
    rcases mutationScript_cases h .degrade nonce (fun state events =>
        if state.status ≠ .statusOpen then .error .terminal
        else if state.degraded then .ok (state, events, 0)
        else .ok ({ state with degraded := true, updatedAt := now }, events, 1)) with
      ⟨hstate, hevents⟩ | ⟨hash', events', result, hbody, hstate, hevents⟩
    · exact hsame _ hstate hevents
    · by_cases hopen : hash.status ≠ .statusOpen
      · simp [hopen] at hbody
      · have hnotClosed : ∀ record, log.ending ≠ .closed record := by
          intro record hending
          have hstatus := h.hash_holds.status
          rw [hending] at hstatus
          exact hopen (hstatus ▸ statusForTerminal_ne_open record.terminal)
        simp only [if_neg hopen] at hbody
        by_cases hdegraded : hash.degraded = true
        · simp only [if_pos hdegraded, Except.ok.injEq, Prod.mk.injEq] at hbody
          obtain ⟨rfl, rfl, -⟩ := hbody
          exact hsame _ (hstate.trans h.state_eq.symm) (hevents.trans h.events_eq.symm)
        · simp only [if_neg hdegraded, Except.ok.injEq, Prod.mk.injEq] at hbody
          obtain ⟨rfl, rfl, -⟩ := hbody
          have hlive : log.ending = .live := by
            have hending := h.hash_holds.degraded
            cases hcases : log.ending with
            | live => rfl
            | degraded => simp [hcases, Ending.isDegraded, hending] at hdegraded
            | closed record => exact absurd hcases (hnotClosed record)
          refine ⟨log.finish .degraded, _, _,
            ⟨hstate, hevents, h.hash_holds.degrade hnotClosed now, ?_⟩,
            fun hended => absurd hlive hended, ⟨[], by simp, by simp⟩, id⟩
          rw [LogStream.items, log.records_degrade hnotClosed]
          exact h.items

end Events

/-! ## The invariant -/

/-- The entries are the committed ones from `fromSeq` up to the cursor. -/
def Tracks (events : List XMessage) (fromSeq cursor : Nat) (flow : List Entry) : Prop :=
  cursor = fromSeq + flow.length ∧ flow <+: (events.drop fromSeq).map XMessage.entry

namespace Tracks

variable {flow : List Entry}

theorem start (events : List XMessage) (fromSeq : Nat) : Tracks events fromSeq fromSeq [] :=
  ⟨by simp, List.nil_prefix⟩

theorem cursor_le (h : Tracks events fromSeq cursor flow) (hfrom : fromSeq ≤ events.length) :
    cursor ≤ events.length := by
  have hlength := h.2.length_le
  rw [List.length_map, List.length_drop] at hlength
  have := h.1
  omega

/-- New events come after the committed ones. -/
theorem extend (h : Tracks events fromSeq cursor flow) (hfrom : fromSeq ≤ events.length)
    (new : List XMessage) : Tracks (events ++ new) fromSeq cursor flow := by
  refine ⟨h.1, h.2.trans ?_⟩
  rw [List.drop_append_of_le_length hfrom, List.map_append]
  exact List.prefix_append ..

/-- What was delivered before is tracked as well. -/
theorem left (h : Tracks events fromSeq cursor (flow ++ rest)) :
    Tracks events fromSeq (fromSeq + flow.length) flow :=
  ⟨rfl, (List.prefix_append flow rest).trans h.2⟩

/-- The next committed entry. -/
theorem push (h : Tracks events fromSeq cursor flow) (hmessage : events[cursor]? = some message) :
    Tracks events fromSeq (cursor + 1) (flow ++ [message.entry]) := by
  obtain ⟨hcursor, rest, hrest⟩ := h
  refine ⟨by rw [List.length_append, List.length_singleton]; omega, ?_⟩
  have hnext : ((events.drop fromSeq).map XMessage.entry)[flow.length]? = some message.entry := by
    rw [List.getElem?_map, List.getElem?_drop, ← hcursor, hmessage, Option.map_some]
  rw [← hrest, List.getElem?_append_right (Nat.le_refl _), Nat.sub_self] at hnext
  obtain ⟨tail, rfl⟩ : ∃ tail, rest = message.entry :: tail := by
    cases rest with
    | nil => simp at hnext
    | cons first tail =>
      simp only [List.getElem?_cons_zero, Option.some.injEq] at hnext
      exact ⟨tail, by rw [hnext]⟩
  rw [← hrest]
  exact ⟨tail, by simp⟩

/-- At the last event everything was tracked. -/
theorem complete (h : Tracks events fromSeq cursor flow) (hcursor : events.length ≤ cursor) :
    flow = (events.drop fromSeq).map XMessage.entry := by
  refine h.2.eq_of_length_le ?_
  rw [List.length_map, List.length_drop]
  have := h.1
  omega

/-- Committed entries are sequenced. -/
theorem sequenced (h : Tracks events fromSeq cursor flow) (hkeys : keys.Holds log hash events) :
    Sequenced fromSeq flow := by
  obtain ⟨rest, hrest⟩ := h.2
  have hall : Sequenced fromSeq ((events.drop fromSeq).map XMessage.entry) := by
    refine ⟨?_, ?_⟩
    · intro entry hentry
      obtain ⟨message, -, rfl⟩ := List.mem_map.mp hentry
      rfl
    · have hdrop := hkeys.consecutive.drop fromSeq
      rw [Nat.add_comm 1 fromSeq, ← List.map_drop] at hdrop
      rw [List.map_map]
      exact hdrop
  rw [← hrest] at hall
  exact hall.left

theorem notMem_of_err (h : Tracks events fromSeq cursor flow) (hkeys : keys.Holds log hash events)
    (herr : entry.err = some err) : entry ∉ flow := by
  intro hmem
  have hnone := (h.sequenced hkeys).1 entry hmem
  rw [herr] at hnone
  cases hnone

end Tracks

/-- What a snapshot of the header says about the stream, now and later: an ended
stream does not change. -/
def Snapshot (log : LogStream) (events : List XMessage) (state : StreamState) (degraded : Bool) :
    Prop :=
  (state.status ≠ .statusOpen →
    state.lastSeq = events.length ∧ ∃ record, log.ending = .closed record) ∧
  (degraded = true → state.lastSeq = events.length ∧ log.ending = .degraded)

/-- No event up to the cursor is terminal. -/
def LiveUpTo (events : List XMessage) (cursor : Nat) : Prop :=
  ∀ message ∈ events, message.seq ≤ cursor → message.kind.terminal = false

/-- An offset-expired error comes after everything that a degraded stream holds.
`Answered` is the assumption that Redis answers. -/
def Explained (Answered : Prop) (log : LogStream) (events : List XMessage) (fromSeq : Nat)
    (data : List Entry) (err : JournalError) : Prop :=
  Answered → err.sentinel = .errOffsetExpired →
    log.ending = .degraded ∧ data = (events.drop fromSeq).map XMessage.entry

/-- Why a delivery is over. -/
def Finished (Answered : Prop) (args : TailArgs) (log : LogStream) (events : List XMessage)
    (callerErr : Option CtxErr) (flow : List Entry) : Prop :=
  (∃ cursor, Tracks events args.fromSeq cursor flow ∧
    ((∃ last, flow.getLast? = some last ∧ last.kind.terminal = true) ∨
      (args.initial.status ≠ .statusOpen ∧ args.initial.lastSeq = args.fromSeq) ∨
      callerErr.isSome = true)) ∨
  ∃ data cursor err, flow = data ++ [errorEntry err] ∧
    Tracks events args.fromSeq cursor data ∧
    Explained Answered log events args.fromSeq data err

/-- The loop of `runTail`. -/
structure LoopInv (args : TailArgs) (log : LogStream) (events : List XMessage)
    (flow : List Entry) (cursor : Nat) (state : StreamState) (degraded : Bool) : Prop where
  tracks : Tracks events args.fromSeq cursor flow
  live : LiveUpTo events cursor
  snapshot : Snapshot log events state degraded

/-- The invariant of `runTail`, by where it is; `flow` is what it handed over. -/
def SourceInv (Answered : Prop) (args : TailArgs) (log : LogStream) (events : List XMessage)
    (callerErr : Option CtxErr) (flow : List Entry) : SourcePc → Prop
  | .replayCheck cursor =>
    Tracks events args.fromSeq cursor flow ∧ cursor ≤ args.initial.lastSeq
  | .replayRange cursor =>
    Tracks events args.fromSeq cursor flow ∧ cursor < args.initial.lastSeq
  | .replayMessage cursor message =>
    Tracks events args.fromSeq cursor flow ∧ cursor < args.initial.lastSeq ∧
      events[cursor]? = some message
  | .replaySend cursor entry =>
    Tracks events args.fromSeq cursor flow ∧ cursor < args.initial.lastSeq ∧
      ∃ message, events[cursor]? = some message ∧ entry = message.entry
  | .loop cursor state degraded | .reading cursor state degraded =>
    LoopInv args log events flow cursor state degraded
  | .received cursor state degraded message =>
    LoopInv args log events flow cursor state degraded ∧ events[cursor]? = some message
  | .sending cursor state degraded entry =>
    LoopInv args log events flow cursor state degraded ∧
      ∃ message, events[cursor]? = some message ∧ entry = message.entry
  | .heading cursor => Tracks events args.fromSeq cursor flow ∧ LiveUpTo events cursor
  | .fallback cursor state degraded =>
    LoopInv args log events flow cursor state degraded ∧ cursor < events.length
  | .reporting err =>
    ∃ cursor, Tracks events args.fromSeq cursor flow ∧
      Explained Answered log events args.fromSeq flow err
  | .closed => Finished Answered args log events callerErr flow

/-- The boundary of the snapshot that `Tail` took. -/
structure ArgsInv (args : TailArgs) (log : LogStream) (events : List XMessage) : Prop where
  from_le : args.fromSeq ≤ args.initial.lastSeq
  initial_le : args.initial.lastSeq ≤ events.length
  snapshot : Snapshot log events args.initial args.degraded
  live : args.initial.status = .statusOpen → LiveUpTo events args.initial.lastSeq
  bounded : events.length < 10 ^ 14

/-- What was handed to the pump and not dropped by it. -/
def RedisTail.flow (s : RedisTail) : List Entry :=
  s.delivered ++ s.pump.pending.map (·.entry)

/-- The invariant of the system, by where the pump is. -/
def DeliveryInv (Answered : Prop) (s : RedisTail) (log : LogStream) (events : List XMessage) :
    Prop :=
  match s.pump.pc with
  | .polling | .waiting =>
    SourceInv Answered s.args log events s.callerErr s.flow s.source ∧
      (s.pump.sourceOpen = false → s.source = .closed)
  | .lagging => ∃ cursor, Tracks events s.args.fromSeq cursor s.delivered
  | .closed => Finished Answered s.args log events s.callerErr s.delivered

/-- The invariant. -/
structure TailInv (Answered : Prop) (s : RedisTail) (log : LogStream) (hash : StateHash)
    (events : List XMessage) : Prop where
  keys : s.keys.Holds log hash events
  args : ArgsInv s.args log events
  delivery : DeliveryInv Answered s log events

/-! ## Writers keep the invariant -/

section Extension

variable {log' : LogStream} {events' : List XMessage} {flow : List Entry}

theorem Extends.tracks (h : Extends log log' events events') (hfrom : fromSeq ≤ events.length)
    (htracks : Tracks events fromSeq cursor flow) : Tracks events' fromSeq cursor flow := by
  obtain ⟨new, rfl, -⟩ := h.grown
  exact htracks.extend hfrom new

theorem Extends.live (h : Extends log log' events events') (hcursor : cursor ≤ events.length)
    (hlive : LiveUpTo events cursor) : LiveUpTo events' cursor := by
  obtain ⟨new, rfl, hnew⟩ := h.grown
  intro message hmessage hseq
  rcases List.mem_append.mp hmessage with hold | hnewMessage
  · exact hlive message hold hseq
  · have := hnew message hnewMessage
    omega

theorem Extends.snapshot (h : Extends log log' events events') {state : StreamState}
    {degraded : Bool} (hsnapshot : Snapshot log events state degraded) :
    Snapshot log' events' state degraded := by
  refine ⟨fun hstatus => ?_, fun hdegraded => ?_⟩
  · obtain ⟨hlast, record, hending⟩ := hsnapshot.1 hstatus
    obtain ⟨hsame, rfl⟩ := h.ended (by rw [hending]; exact Ending.noConfusion)
    exact ⟨hlast, record, hsame.trans hending⟩
  · obtain ⟨hlast, hending⟩ := hsnapshot.2 hdegraded
    obtain ⟨hsame, rfl⟩ := h.ended (by rw [hending]; exact Ending.noConfusion)
    exact ⟨hlast, hsame.trans hending⟩

theorem Extends.explained (h : Extends log log' events events')
    (hexplained : Explained Answered log events fromSeq flow err) :
    Explained Answered log' events' fromSeq flow err := by
  intro hanswered hsentinel
  obtain ⟨hending, hflow⟩ := hexplained hanswered hsentinel
  obtain ⟨hsame, rfl⟩ := h.ended (by rw [hending]; exact Ending.noConfusion)
  exact ⟨hsame.trans hending, hflow⟩

theorem Extends.getElem? (h : Extends log log' events events') {index : Nat}
    (hmessage : events[index]? = some message) : events'[index]? = some message := by
  obtain ⟨new, rfl, -⟩ := h.grown
  obtain ⟨hindex, -⟩ := List.getElem?_eq_some_iff.mp hmessage
  rw [List.getElem?_append_left hindex]
  exact hmessage

theorem Extends.length_le (h : Extends log log' events events') :
    events.length ≤ events'.length := by
  obtain ⟨new, rfl, -⟩ := h.grown
  rw [List.length_append]
  omega

theorem Extends.finished (h : Extends log log' events events')
    (hfrom : args.fromSeq ≤ events.length)
    (hfinished : Finished Answered args log events callerErr flow) :
    Finished Answered args log' events' callerErr flow := by
  rcases hfinished with ⟨cursor, htracks, hreason⟩ | ⟨data, cursor, err, hflow, htracks, herr⟩
  · exact .inl ⟨cursor, h.tracks hfrom htracks, hreason⟩
  · exact .inr ⟨data, cursor, err, hflow, h.tracks hfrom htracks, h.explained herr⟩

theorem Extends.loop (h : Extends log log' events events') (hfrom : args.fromSeq ≤ events.length)
    {state : StreamState} {degraded : Bool}
    (hloop : LoopInv args log events flow cursor state degraded) :
    LoopInv args log' events' flow cursor state degraded :=
  ⟨h.tracks hfrom hloop.tracks, h.live (hloop.tracks.cursor_le hfrom) hloop.live,
    h.snapshot hloop.snapshot⟩

theorem Extends.source (h : Extends log log' events events')
    (hfrom : args.fromSeq ≤ events.length)
    (hpc : SourceInv Answered args log events callerErr flow pc) :
    SourceInv Answered args log' events' callerErr flow pc := by
  cases pc with
  | replayCheck cursor | replayRange cursor => exact ⟨h.tracks hfrom hpc.1, hpc.2⟩
  | replayMessage cursor message =>
    exact ⟨h.tracks hfrom hpc.1, hpc.2.1, h.getElem? hpc.2.2⟩
  | replaySend cursor entry =>
    obtain ⟨htracks, hcursor, message, hmessage, hentry⟩ := hpc
    exact ⟨h.tracks hfrom htracks, hcursor, message, h.getElem? hmessage, hentry⟩
  | loop cursor state degraded | reading cursor state degraded => exact h.loop hfrom hpc
  | received cursor state degraded message =>
    exact ⟨h.loop hfrom hpc.1, h.getElem? hpc.2⟩
  | sending cursor state degraded entry =>
    obtain ⟨hloop, message, hmessage, hentry⟩ := hpc
    exact ⟨h.loop hfrom hloop, message, h.getElem? hmessage, hentry⟩
  | heading cursor =>
    exact ⟨h.tracks hfrom hpc.1, h.live (hpc.1.cursor_le hfrom) hpc.2⟩
  | fallback cursor state degraded =>
    exact ⟨h.loop hfrom hpc.1, Nat.lt_of_lt_of_le hpc.2 h.length_le⟩
  | reporting err =>
    obtain ⟨cursor, htracks, herr⟩ := hpc
    exact ⟨cursor, h.tracks hfrom htracks, h.explained herr⟩
  | closed => exact h.finished hfrom hpc

theorem Extends.argsInv (h : Extends log log' events events') (hargs : ArgsInv args log events) :
    ArgsInv args log' events' :=
  { from_le := hargs.from_le
    initial_le := Nat.le_trans hargs.initial_le h.length_le
    snapshot := h.snapshot hargs.snapshot
    live := fun hopen => h.live hargs.initial_le (hargs.live hopen)
    bounded := h.bounded hargs.bounded }

end Extension

theorem TailInv.write {Answered : Prop} {events : List XMessage}
    (h : TailInv Answered s log hash events) (mutation : Write) :
    ∃ log' hash' events',
      TailInv Answered { s with keys := mutation.run s.keys } log' hash' events' := by
  obtain ⟨log', hash', events', hkeys, hextends⟩ := mutation.run_holds h.keys
  have hfrom : s.args.fromSeq ≤ events.length := Nat.le_trans h.args.from_le h.args.initial_le
  refine ⟨log', hash', events', hkeys, hextends.argsInv h.args, ?_⟩
  have hdelivery := h.delivery
  unfold DeliveryInv at hdelivery ⊢
  cases hpc : s.pump.pc with
  | polling | waiting =>
    simp only [hpc] at hdelivery ⊢
    exact ⟨hextends.source hfrom hdelivery.1, hdelivery.2⟩
  | lagging =>
    simp only [hpc] at hdelivery ⊢
    obtain ⟨cursor, htracks⟩ := hdelivery
    exact ⟨cursor, hextends.tracks hfrom htracks⟩
  | closed =>
    simp only [hpc] at hdelivery ⊢
    exact hextends.finished hfrom hdelivery

/-! ## The source keeps the invariant -/

section Source

variable {ctxErr : Option CtxErr} {flow : List Entry} {pc' : SourcePc}

theorem Explained.of_ctxErr (err : CtxErr) (fromSeq : Nat) (data : List Entry) :
    Explained Answered log events fromSeq data err.error := by
  intro _ hsentinel
  cases err <;> cases hsentinel

theorem Explained.of_not_answered (h : ¬ Answered) (fromSeq : Nat) (data : List Entry)
    (err : JournalError) : Explained Answered log events fromSeq data err :=
  fun hanswered => absurd hanswered h

/-- Until it is closed, the source has handed over the committed entries up to some
cursor. -/
theorem SourceInv.exists_tracks (h : SourceInv Answered args log events callerErr flow pc)
    (hpc : pc ≠ .closed) : ∃ cursor, Tracks events args.fromSeq cursor flow := by
  cases pc with
  | replayCheck cursor | replayRange cursor | replayMessage cursor | replaySend cursor
  | heading cursor => exact ⟨cursor, h.1⟩
  | loop cursor state degraded | reading cursor state degraded => exact ⟨cursor, h.tracks⟩
  | received cursor state degraded message => exact ⟨cursor, h.1.tracks⟩
  | sending cursor state degraded entry => exact ⟨cursor, h.1.tracks⟩
  | fallback cursor state degraded => exact ⟨cursor, h.1.tracks⟩
  | reporting err => exact ⟨h.choose, h.choose_spec.1⟩
  | closed => exact absurd rfl hpc

/-- The replay of a closed stream ends with its terminal entry, unless there was
nothing to replay. -/
theorem finished_of_closed (hkeys : keys.Holds log hash events)
    (htracks : Tracks events args.fromSeq cursor flow) (hcursor : events.length ≤ cursor)
    (hfrom : args.fromSeq < events.length) {record : FinalRecord}
    (hending : log.ending = .closed record) :
    ∃ last, flow.getLast? = some last ∧ last.kind.terminal = true := by
  obtain ⟨last, hlast, hterminal⟩ := hkeys.closed_last hending
  refine ⟨last.entry, ?_, hterminal⟩
  rw [htracks.complete hcursor, List.getLast?_map, List.getLast?_drop, if_neg (by omega), hlast]
  rfl

theorem SourceInv.advance (hkeys : keys.Holds log hash events) (hargs : ArgsInv args log events)
    (h : SourceInv Answered args log events callerErr flow pc)
    (hstep : pc.advance args ctxErr = some pc') :
    SourceInv Answered args log events callerErr flow pc' := by
  have hfrom : args.fromSeq ≤ events.length := Nat.le_trans hargs.from_le hargs.initial_le
  cases pc with
  | replayCheck cursor =>
    obtain ⟨htracks, hcursor⟩ := h
    simp only [SourcePc.advance] at hstep
    by_cases hlt : cursor < args.initial.lastSeq
    · rw [if_pos hlt] at hstep
      cases ctxErr with
      | some err =>
        cases hstep
        exact ⟨cursor, htracks, .of_ctxErr err _ _⟩
      | none =>
        cases hstep
        exact ⟨htracks, hlt⟩
    · rw [if_neg hlt] at hstep
      have hcursorEq : cursor = args.initial.lastSeq := by omega
      by_cases hdegraded : args.degraded = true
      · rw [if_pos hdegraded] at hstep
        cases hstep
        obtain ⟨hlast, hending⟩ := hargs.snapshot.2 hdegraded
        exact ⟨cursor, htracks, fun _ _ => ⟨hending, htracks.complete (by omega)⟩⟩
      · rw [if_neg hdegraded] at hstep
        by_cases hclosed : args.initial.status ≠ .statusOpen
        · rw [if_pos hclosed] at hstep
          cases hstep
          obtain ⟨hlast, record, hending⟩ := hargs.snapshot.1 hclosed
          refine .inl ⟨cursor, htracks, ?_⟩
          by_cases hempty : args.initial.lastSeq = args.fromSeq
          · exact .inr (.inl ⟨hclosed, hempty⟩)
          · have := hargs.from_le
            exact .inl (finished_of_closed hkeys htracks (by omega) (by omega) hending)
        · rw [if_neg hclosed] at hstep
          cases hstep
          exact ⟨htracks, hcursorEq ▸ hargs.live (by simpa using hclosed), hargs.snapshot⟩
  | replayMessage cursor message =>
    obtain ⟨htracks, hcursor, hmessage⟩ := h
    cases ctxErr with
    | some err =>
      cases hstep
      exact ⟨cursor, htracks, .of_ctxErr err _ _⟩
    | none =>
      have hboundary : ¬ (message.entry.kind.terminal = true ∧
          message.entry.seq ≠ args.initial.lastSeq) := by
        rintro ⟨hterminal, hne⟩
        have hlast := (hkeys.terminal_event (List.mem_of_getElem? hmessage) hterminal).1
        have hseq := hkeys.seq_of_getElem? hmessage
        have := hargs.initial_le
        exact hne (show message.seq = args.initial.lastSeq by omega)
      simp only [SourcePc.advance, (hkeys.decodesTo_getElem? hmessage).1, if_neg hboundary,
        Option.some.injEq] at hstep
      subst hstep
      exact ⟨htracks, hcursor, message, hmessage, rfl⟩
  | loop cursor state degraded =>
    simp only [SourcePc.advance] at hstep
    by_cases hgap : degraded = true ∧ cursor ≥ state.lastSeq
    · rw [if_pos hgap] at hstep
      cases hstep
      obtain ⟨hlast, hending⟩ := h.snapshot.2 hgap.1
      exact ⟨cursor, h.tracks, fun _ _ => ⟨hending, h.tracks.complete (hlast ▸ hgap.2)⟩⟩
    · rw [if_neg hgap] at hstep
      by_cases hclosed : state.status ≠ .statusOpen ∧ cursor ≥ state.lastSeq
      · -- The terminal event of a closed stream would be behind the cursor.
        obtain ⟨hlast, record, hending⟩ := h.snapshot.1 hclosed.1
        obtain ⟨last, hgetLast, hterminal⟩ := hkeys.closed_last hending
        have hmem := List.mem_of_mem_getLast? hgetLast
        have hseq := (hkeys.terminal_event hmem hterminal).1
        have := h.live last hmem (by omega)
        rw [hterminal] at this
        cases this
      · rw [if_neg hclosed] at hstep
        cases hstep
        exact h
  | received cursor state degraded message =>
    obtain ⟨hloop, hmessage⟩ := h
    have hseq : message.entry.seq = cursor + 1 := hkeys.seq_of_getElem? hmessage
    obtain ⟨hindex, -⟩ := List.getElem?_eq_some_iff.mp hmessage
    have hmax : ¬ (cursor = maxUint64 ∨ message.entry.seq ≠ cursor + 1) := by
      have hbounded := hargs.bounded
      have hvalue : maxUint64 = 2 ^ 64 - 1 := rfl
      omega
    simp only [SourcePc.advance, (hkeys.decodesTo_getElem? hmessage).2] at hstep
    rw [if_neg (by omega), if_neg hmax] at hstep
    cases hstep
    exact ⟨hloop, message, hmessage, rfl⟩
  | _ => cases hstep

/-- The header of the stream is a snapshot of it. -/
theorem snapshot_header (hkeys : keys.Holds log hash events) (id : StreamID) :
    Snapshot log events (headerState id hash) hash.degraded := by
  have hlast : (headerState id hash).lastSeq = events.length :=
    hkeys.hash_holds.last.trans hkeys.length.symm
  refine ⟨fun hstatus => ⟨hlast, ?_⟩, fun hdegraded => ⟨hlast, ?_⟩⟩
  · have hending : log.ending.status ≠ .statusOpen := hkeys.hash_holds.status ▸ hstatus
    cases hcases : log.ending with
    | closed record => exact ⟨record, rfl⟩
    | live | degraded => exact absurd (by rw [hcases]; rfl) hending
  · rw [hkeys.hash_holds.degraded] at hdegraded
    cases hcases : log.ending with
    | degraded => rfl
    | live | closed => simp [hcases, Ending.isDegraded] at hdegraded

theorem SourceInv.answer (hkeys : keys.Holds log hash events) (hargs : ArgsInv args log events)
    (h : SourceInv Answered args log events callerErr flow pc)
    (hstep : pc.answer args keys = some pc') :
    SourceInv Answered args log events callerErr flow pc' := by
  have hevents : keys.events.getD [] = events := by rw [hkeys.events_eq, Option.getD_some]
  cases pc with
  | replayRange cursor =>
    obtain ⟨htracks, hcursor⟩ := h
    have hle := hargs.initial_le
    have hlt : cursor < events.length := by omega
    have hmessage := List.getElem?_eq_getElem hlt
    have hpage : xrange events (cursor + 1) args.initial.lastSeq 1 = [events[cursor]] := by
      rw [xrange_eq hkeys.consecutive, List.take_one, List.head?_drop,
        List.getElem?_take_of_lt hcursor, hmessage]
      rfl
    simp only [SourcePc.answer, hevents, hpage, Option.some.injEq] at hstep
    subst hstep
    exact ⟨htracks, hcursor, hmessage⟩
  | reading cursor state degraded =>
    have hfind : (events.find? fun message => decide (cursor < message.seq)) = events[cursor]? :=
      hkeys.find?_after cursor
    simp only [SourcePc.answer, hevents, hfind] at hstep
    cases hmessage : events[cursor]? with
    | none =>
      rw [hmessage] at hstep
      cases hstep
      exact ⟨h.tracks, h.live⟩
    | some message =>
      rw [hmessage] at hstep
      cases hstep
      exact ⟨h, hmessage⟩
  | heading cursor =>
    obtain ⟨htracks, hlive⟩ := h
    have hloop : LoopInv args log events flow cursor (headerState args.id hash) hash.degraded :=
      ⟨htracks, hlive, snapshot_header hkeys args.id⟩
    have hlast : (headerState args.id hash).lastSeq = events.length :=
      hkeys.hash_holds.last.trans hkeys.length.symm
    have hdecode : decodeState args.id keys.state keys.tombstone keys.events.isSome =
        .ok (headerState args.id hash, hash.degraded) := by
      simp [decodeState, hkeys.state_eq, hkeys.events_eq]
    simp only [SourcePc.answer, hdecode] at hstep
    by_cases hbehind : (headerState args.id hash).lastSeq > cursor
    · have hmax : ¬ cursor = maxUint64 := by
        have hbounded := hargs.bounded
        have hvalue : maxUint64 = 2 ^ 64 - 1 := rfl
        omega
      rw [if_pos hbehind, if_neg hmax] at hstep
      cases hstep
      exact ⟨hloop, hlast ▸ hbehind⟩
    · rw [if_neg hbehind] at hstep
      cases hstep
      exact hloop
  | fallback cursor state degraded =>
    obtain ⟨hloop, hcursor⟩ := h
    have hmessage := List.getElem?_eq_getElem hcursor
    simp only [SourcePc.answer, hevents, hkeys.find?_after cursor, hmessage,
      (hkeys.decodesTo_getElem? hmessage).1, Option.some.injEq] at hstep
    subst hstep
    exact ⟨hloop, _, hmessage, rfl⟩
  | _ => cases hstep

theorem SourceInv.fail (h : SourceInv Answered args log events callerErr flow pc)
    (hctx : ctxErr.isSome = true → callerErr.isSome = true)
    (hanswered : Answered → ctxErr.isSome = true ∧
      ∀ cursor state degraded, pc ≠ .fallback cursor state degraded)
    (hstep : pc.fail args ctxErr err = some pc') :
    SourceInv Answered args log events callerErr flow pc' := by
  have hopen : pc ≠ .closed := by
    rintro rfl
    cases hstep
  obtain ⟨cursor, htracks⟩ := h.exists_tracks hopen
  have hunanswered (hno : ¬ Answered) (err : JournalError) :
      SourceInv Answered args log events callerErr flow (.reporting err) :=
    ⟨cursor, htracks, .of_not_answered hno _ _ _⟩
  cases ctxErr with
  | some ended =>
    -- A command that is aborted by the end of the context ends the tail without an error.
    have hclosed : SourceInv Answered args log events callerErr flow .closed :=
      .inl ⟨cursor, htracks, .inr (.inr (hctx rfl))⟩
    cases pc with
    | replayRange =>
      cases hstep
      exact ⟨cursor, htracks, .of_ctxErr ended _ _⟩
    | reading | heading =>
      cases hstep
      exact hclosed
    | fallback =>
      cases hstep
      exact hunanswered (fun ha => (hanswered ha).2 _ _ _ rfl) _
    | _ => cases hstep
  | none =>
    have hno : ¬ Answered := fun ha => absurd (hanswered ha).1 (by simp)
    cases pc with
    | replayRange | reading | heading | fallback =>
      cases hstep
      exact hunanswered hno _
    | _ => cases hstep

/-- An entry that is handed over is the next committed one, or the last error. -/
theorem SourceInv.offer (hkeys : keys.Holds log hash events)
    (h : SourceInv Answered args log events callerErr flow pc)
    (hoffer : pc.offer = some (entry, pc')) :
    SourceInv Answered args log events callerErr (flow ++ [entry]) pc' := by
  cases pc with
  | replaySend cursor entry =>
    obtain ⟨htracks, hcursor, message, hmessage, rfl⟩ := h
    cases hoffer
    have hseq : message.entry.seq = cursor + 1 := hkeys.seq_of_getElem? hmessage
    show Tracks events args.fromSeq message.entry.seq _ ∧ message.entry.seq ≤ _
    rw [hseq]
    exact ⟨htracks.push hmessage, hcursor⟩
  | sending cursor state degraded entry =>
    obtain ⟨hloop, message, hmessage, rfl⟩ := h
    cases hoffer
    have hseq : message.entry.seq = cursor + 1 := hkeys.seq_of_getElem? hmessage
    have hpush := hloop.tracks.push hmessage
    by_cases hterminal : message.entry.kind.terminal = true
    · rw [if_pos hterminal]
      exact .inl ⟨cursor + 1, hpush, .inl ⟨message.entry, by simp, hterminal⟩⟩
    · rw [if_neg hterminal, hseq]
      refine ⟨hpush, ?_, hloop.snapshot⟩
      intro other hother hle
      obtain ⟨index, hindex⟩ := List.getElem?_of_mem hother
      have hotherSeq := hkeys.seq_of_getElem? hindex
      by_cases hsame : index = cursor
      · rw [hsame, hmessage, Option.some.injEq] at hindex
        rw [← hindex]
        exact Bool.eq_false_iff.mpr hterminal
      · exact hloop.live other hother (by omega)
  | reporting err =>
    obtain ⟨cursor, htracks, hexplained⟩ := h
    cases hoffer
    exact .inr ⟨flow, cursor, err, rfl, htracks, hexplained⟩
  | _ => cases hoffer

end Source

/-! ## The system keeps the invariant -/

section Step

variable {s' : RedisTail}

/-- The context of a running pump was ended by the caller. -/
theorem RedisTail.callerErr_of_ctxErr (hpump : s.pump.pc ≠ .closed)
    (h : s.ctxErr.isSome = true) : s.callerErr.isSome = true := by
  unfold RedisTail.ctxErr at h
  cases hcaller : s.callerErr with
  | some err => rfl
  | none =>
    rw [hcaller] at h
    simp [hpump] at h

/-- What was delivered when the context ends. -/
theorem finished_of_canceled {delivered : List Entry}
    (h : SourceInv Answered args log events callerErr (delivered ++ rest) pc)
    (hcanceled : callerErr.isSome = true) :
    Finished Answered args log events callerErr delivered := by
  have hleft : ∀ cursor data, Tracks events args.fromSeq cursor data → delivered <+: data →
      Finished Answered args log events callerErr delivered := by
    rintro cursor data htracks ⟨tail, rfl⟩
    exact .inl ⟨_, htracks.left, .inr (.inr hcanceled)⟩
  by_cases hpc : pc = .closed
  · subst hpc
    rcases h with ⟨cursor, htracks, -⟩ | ⟨data, cursor, err, hflow, htracks, herr⟩
    · exact hleft cursor _ htracks (List.prefix_append ..)
    · -- Either the error was delivered as well, or only data entries were.
      rcases List.prefix_concat_iff.mp (hflow ▸ List.prefix_append delivered rest) with
        hall | hdata
      · exact .inr ⟨data, cursor, err, hall, htracks, herr⟩
      · exact hleft cursor data htracks hdata
  · obtain ⟨cursor, htracks⟩ := h.exists_tracks hpc
    exact hleft cursor _ htracks (List.prefix_append ..)

/-- A step of the source alone. -/
theorem TailInv.source (h : TailInv Answered s log hash events) (hopen : s.source ≠ .closed)
    (hpc : s.pump.pc ≠ .closed →
      SourceInv Answered s.args log events s.callerErr s.flow s.source →
        SourceInv Answered s.args log events s.callerErr s.flow pc) :
    TailInv Answered { s with source := pc } log hash events := by
  refine ⟨h.keys, h.args, ?_⟩
  have hdelivery := h.delivery
  unfold DeliveryInv at hdelivery ⊢
  cases hpump : s.pump.pc with
  | polling | waiting =>
    simp only [hpump] at hdelivery ⊢
    exact ⟨hpc (by rw [hpump]; simp) hdelivery.1,
      fun hnil => absurd (hdelivery.2 hnil) hopen⟩
  | lagging | closed =>
    simp only [hpump] at hdelivery ⊢
    exact hdelivery

/-- The handoff of an entry to the pump. -/
theorem TailInv.send (h : TailInv Answered s log hash events) (hwaiting : s.pump.pc = .waiting)
    (hoffer : s.source.offer = some (entry, pc)) :
    TailInv Answered
      { s with source := pc, pump := s.pump.accept envelopeLen s.args entry } log hash events := by
  have hdelivery := h.delivery
  unfold DeliveryInv at hdelivery
  simp only [hwaiting] at hdelivery
  refine ⟨h.keys, h.args, ?_⟩
  have hnotClosed : s.source ≠ .closed := by
    intro hclosed
    rw [hclosed] at hoffer
    cases hoffer
  have hsourceOpen : s.pump.sourceOpen ≠ false := fun hnil => hnotClosed (hdelivery.2 hnil)
  rcases s.pump.accept_cases envelopeLen s.args entry with ⟨-, heq⟩ | ⟨-, heq⟩
  · -- The reader is evicted; what it has is a part of what was handed over.
    rw [heq]
    obtain ⟨cursor, htracks⟩ := hdelivery.1.exists_tracks hnotClosed
    exact ⟨_, htracks.left⟩
  · have hflow : s.delivered ++ (s.pump.pending ++
        [RedisTailPendingEntry.mk entry (redisTailEntrySize envelopeLen entry)]).map
          (·.entry) =
        s.flow ++ [entry] := by
      simp [RedisTail.flow]
    have hnext := hdelivery.1.offer h.keys hoffer
    rw [← hflow] at hnext
    rw [heq]
    exact ⟨hnext, fun hnil => absurd hnil hsourceOpen⟩

/-- The handoff of an entry to the consumer. -/
theorem TailInv.deliver (h : TailInv Answered s log hash events)
    (hstep : s.step envelopeLen .deliver = some s') : TailInv Answered s' log hash events := by
  have hdelivery := h.delivery
  unfold DeliveryInv at hdelivery
  have htake : ∀ head rest, s.pump.pending = head :: rest →
      SourceInv Answered s.args log events s.callerErr s.flow s.source ∧
        (s.pump.sourceOpen = false → s.source = .closed) →
      TailInv Answered { s with
        delivered := s.delivered ++ [head.entry]
        pump := { s.pump with
          pc := .polling
          pending := rest
          pendingBytes := s.pump.pendingBytes - head.bytes } } log hash events := by
    intro head rest hpending hsource
    have hflow : s.flow = s.delivered ++ [head.entry] ++ rest.map (·.entry) := by
      simp [RedisTail.flow, hpending]
    rw [hflow] at hsource
    exact ⟨h.keys, h.args, hsource⟩
  cases hpump : s.pump.pc with
  | polling | waiting =>
    simp only [hpump] at hdelivery
    cases hpending : s.pump.pending with
    | nil => simp [RedisTail.step, hpump, hpending] at hstep
    | cons head rest =>
      simp only [RedisTail.step, hpump, hpending, Option.some.injEq] at hstep
      subst hstep
      exact htake head rest hpending hdelivery
  | lagging =>
    simp only [hpump] at hdelivery
    obtain ⟨cursor, htracks⟩ := hdelivery
    simp only [RedisTail.step, hpump, Option.some.injEq] at hstep
    subst hstep
    refine ⟨h.keys, h.args, .inr ⟨s.delivered, cursor, lagError s.args, rfl, htracks, ?_⟩⟩
    intro _ hsentinel
    cases hsentinel
  | closed => simp [RedisTail.step, hpump] at hstep

/-- The caller ends the context. -/
theorem TailInv.cancel (h : TailInv Answered s log hash events) (err : CtxErr) :
    TailInv Answered { s with callerErr := some (s.callerErr.getD err) } log hash events := by
  refine ⟨h.keys, h.args, ?_⟩
  have hfinished : ∀ flow, Finished Answered s.args log events s.callerErr flow →
      Finished Answered s.args log events (some (s.callerErr.getD err)) flow := by
    rintro flow (⟨cursor, htracks, -⟩ | hright)
    · exact .inl ⟨cursor, htracks, .inr (.inr rfl)⟩
    · exact .inr hright
  have hdelivery := h.delivery
  unfold DeliveryInv at hdelivery ⊢
  cases hpump : s.pump.pc with
  | polling | waiting =>
    simp only [hpump] at hdelivery ⊢
    refine ⟨?_, hdelivery.2⟩
    have hsource := hdelivery.1
    revert hsource
    generalize s.source = pc
    cases pc with
    | closed => exact hfinished _
    | _ => exact fun hsource => hsource
  | lagging =>
    simp only [hpump] at hdelivery ⊢
    exact hdelivery
  | closed =>
    simp only [hpump] at hdelivery ⊢
    exact hfinished _ hdelivery

/-- One step. -/
theorem TailInv.step (h : TailInv Answered s log hash events) {event : TailEvent}
    (hanswered : Answered → Faithful s event) (hstep : s.step envelopeLen event = some s') :
    ∃ log' hash' events', TailInv Answered s' log' hash' events' := by
  -- A source that is closed takes no step.
  have hopen {f : SourcePc → Option SourcePc} {pc : SourcePc} (hpc : f s.source = some pc)
      (hnone : f .closed = none) : s.source ≠ .closed := by
    intro hclosed
    rw [hclosed, hnone] at hpc
    cases hpc
  cases event with
  | write mutation =>
    cases hstep
    exact h.write mutation
  | advance =>
    obtain ⟨pc, hadvance, rfl⟩ := Option.map_eq_some_iff.mp hstep
    exact ⟨log, hash, events, h.source (hopen hadvance rfl)
      fun _ hsource => hsource.advance h.keys h.args hadvance⟩
  | answer =>
    obtain ⟨pc, hanswer, rfl⟩ := Option.map_eq_some_iff.mp hstep
    exact ⟨log, hash, events, h.source (hopen hanswer rfl)
      fun _ hsource => hsource.answer h.keys h.args hanswer⟩
  | fail err =>
    obtain ⟨pc, hfail, rfl⟩ := Option.map_eq_some_iff.mp hstep
    exact ⟨log, hash, events, h.source (hopen hfail rfl) fun hpump hsource =>
      hsource.fail (RedisTail.callerErr_of_ctxErr hpump) hanswered hfail⟩
  | send =>
    simp only [RedisTail.step] at hstep
    split at hstep
    · rename_i hready
      obtain ⟨⟨entry, pc⟩, hoffer, rfl⟩ := Option.map_eq_some_iff.mp hstep
      exact ⟨log, hash, events, h.send hready.1 hoffer⟩
    · cases hstep
  | abandon =>
    simp only [RedisTail.step] at hstep
    split at hstep
    · rename_i hready
      cases hstep
      have hopen : s.source ≠ .closed := by
        intro hclosed
        rw [hclosed] at hready
        exact absurd hready.2 (by simp [SourcePc.offer])
      refine ⟨log, hash, events, h.source hopen fun hpump hsource => ?_⟩
      obtain ⟨cursor, htracks⟩ := hsource.exists_tracks hopen
      exact .inl ⟨cursor, htracks,
        .inr (.inr (RedisTail.callerErr_of_ctxErr hpump hready.1))⟩
    · cases hstep
  | poll =>
    have hdelivery := h.delivery
    unfold DeliveryInv at hdelivery
    simp only [RedisTail.step] at hstep
    split at hstep
    · rename_i hpolling
      simp only [hpolling] at hdelivery
      split at hstep
      · rename_i hdone
        cases hstep
        refine ⟨log, hash, events, h.keys, h.args, ?_⟩
        have hsource := hdelivery.1
        rw [hdelivery.2 hdone.1] at hsource
        have hflow : s.flow = s.delivered := by simp [RedisTail.flow, hdone.2]
        rw [hflow] at hsource
        exact hsource
      · cases hstep
        exact ⟨log, hash, events, h.keys, h.args, hdelivery⟩
    · cases hstep
  | deliver => exact ⟨log, hash, events, h.deliver hstep⟩
  | sourceClosed =>
    have hdelivery := h.delivery
    unfold DeliveryInv at hdelivery
    simp only [RedisTail.step] at hstep
    split at hstep
    · rename_i hready
      cases hstep
      simp only [hready.1] at hdelivery
      exact ⟨log, hash, events, h.keys, h.args, hdelivery.1, fun _ => hready.2.2⟩
    · cases hstep
  | pumpDone =>
    have hdelivery := h.delivery
    unfold DeliveryInv at hdelivery
    simp only [RedisTail.step] at hstep
    split at hstep
    · rename_i hready
      cases hstep
      have hcaller := RedisTail.callerErr_of_ctxErr
        (show s.pump.pc ≠ .closed by rcases hready.1 with hpc | hpc <;> rw [hpc] <;> simp)
        hready.2
      refine ⟨log, hash, events, h.keys, h.args, ?_⟩
      rcases hready.1 with hwaiting | hlagging
      · simp only [hwaiting] at hdelivery
        exact finished_of_canceled hdelivery.1 hcaller
      · simp only [hlagging] at hdelivery
        obtain ⟨cursor, htracks⟩ := hdelivery
        exact .inl ⟨cursor, htracks, .inr (.inr hcaller)⟩
    · cases hstep
  | cancel err =>
    cases hstep
    exact ⟨log, hash, events, h.cancel err⟩

end Step

/-! ## The byte budget -/

/-- The number of data entries in a queue. -/
def dataEntries (pending : List RedisTailPendingEntry) : Nat :=
  (pending.filter fun queued => queued.entry.err.isNone).length

/-- The accounting of the pump. -/
structure Pump.BytesInv (maxLagBytes : Int) (pump : Pump) : Prop where
  sum_eq : pump.pendingBytes = (pump.pending.map (·.bytes)).sum
  nonneg : ∀ queued ∈ pump.pending, 0 ≤ queued.bytes
  error_zero : ∀ queued ∈ pump.pending, queued.entry.err ≠ none → queued.bytes = 0
  bounded : pump.pendingBytes ≤ maxLagBytes ∨ dataEntries pump.pending = 1

theorem redisTailEntrySize_nonneg (envelopeLen : Entry → Option Nat) (entry : Entry) :
    0 ≤ redisTailEntrySize envelopeLen entry := by
  unfold redisTailEntrySize
  split
  · exact Int.le_refl 0
  · split
    · omega
    · decide

theorem redisTailEntrySize_error (h : entry.err ≠ none) :
    redisTailEntrySize envelopeLen entry = 0 := by
  unfold redisTailEntrySize
  cases herr : entry.err with
  | none => exact absurd herr h
  | some err => rfl

theorem Pump.BytesInv.accept {pump : Pump} (h : pump.BytesInv maxLagBytes)
    (envelopeLen : Entry → Option Nat) (hargs : args.maxLagBytes = maxLagBytes) (entry : Entry) :
    (pump.accept envelopeLen args entry).BytesInv maxLagBytes := by
  rcases pump.accept_cases envelopeLen args entry with ⟨-, heq⟩ | ⟨hroom, heq⟩
  · rw [heq]
    exact ⟨h.sum_eq, h.nonneg, h.error_zero, h.bounded⟩
  · rw [heq]
    refine ⟨?_, ?_, ?_, ?_⟩
    · simp [h.sum_eq]
    · intro queued hqueued
      rcases List.mem_append.mp hqueued with hold | hnew
      · exact h.nonneg queued hold
      · rw [List.mem_singleton.mp hnew]
        exact redisTailEntrySize_nonneg envelopeLen entry
    · intro queued hqueued herr
      rcases List.mem_append.mp hqueued with hold | hnew
      · exact h.error_zero queued hold herr
      · rw [List.mem_singleton.mp hnew] at herr ⊢
        exact redisTailEntrySize_error herr
    · by_cases herr : entry.err = none
      · rcases hroom with hne | hempty | hfits
        · exact absurd herr hne
        · -- The only entry may be larger than the budget.
          right
          simp [dataEntries, hempty, herr]
        · exact .inl (hargs ▸ hfits)
      · simp only [redisTailEntrySize_error herr, Int.add_zero]
        refine h.bounded.imp id fun hcount => ?_
        cases hcases : entry.err with
        | none => exact absurd hcases herr
        | some err =>
          unfold dataEntries at hcount ⊢
          simp [hcases, hcount]

theorem Pump.BytesInv.pop {pump : Pump} (h : pump.BytesInv maxLagBytes) (hlag : 0 < maxLagBytes)
    {head : RedisTailPendingEntry} {rest : List RedisTailPendingEntry}
    (hpending : pump.pending = head :: rest) :
    ({ pump with
        pc := .polling
        pending := rest
        pendingBytes := pump.pendingBytes - head.bytes } : Pump).BytesInv maxLagBytes := by
  have hsum : pump.pendingBytes - head.bytes = (rest.map (·.bytes)).sum := by
    rw [h.sum_eq, hpending, List.map_cons, List.sum_cons]
    omega
  have hmem : ∀ queued ∈ rest, queued ∈ pump.pending := fun queued hqueued => by
    rw [hpending]
    exact List.mem_cons_of_mem _ hqueued
  have hhead : head ∈ pump.pending := by rw [hpending]; exact List.mem_cons_self
  refine ⟨hsum, fun queued hqueued => h.nonneg queued (hmem queued hqueued),
    fun queued hqueued => h.error_zero queued (hmem queued hqueued), ?_⟩
  have hheadNonneg := h.nonneg head hhead
  rcases h.bounded with hle | hcount
  · exact .inl (show pump.pendingBytes - head.bytes ≤ maxLagBytes by omega)
  · rw [hpending] at hcount
    cases herr : head.entry.err with
    | some err =>
      right
      unfold dataEntries at hcount ⊢
      simpa [herr] using hcount
    | none =>
      -- The one data entry left, so only error entries remain, of size zero.
      left
      have hnone : rest.filter (fun queued => queued.entry.err.isNone) = [] := by
        unfold dataEntries at hcount
        simpa [herr] using hcount
      have hzero : rest.map (·.bytes) = rest.map fun _ => 0 := by
        refine List.map_congr_left fun queued hqueued => ?_
        refine h.error_zero queued (hmem queued hqueued) fun hdata => ?_
        have := List.filter_eq_nil_iff.mp hnone queued hqueued
        simp [hdata] at this
      show pump.pendingBytes - head.bytes ≤ maxLagBytes
      rw [hsum, hzero, List.map_const', List.sum_replicate_int, Int.mul_zero]
      exact Int.le_of_lt hlag

/-- One step keeps the accounting, and the arguments. -/
theorem RedisTail.step_bytes {s' : RedisTail} {event : TailEvent} (hlag : 0 < s.args.maxLagBytes)
    (h : s.pump.BytesInv s.args.maxLagBytes) (hstep : s.step envelopeLen event = some s') :
    s'.args = s.args ∧ s'.pump.BytesInv s.args.maxLagBytes := by
  cases event with
  | write mutation | cancel err =>
    cases hstep
    exact ⟨rfl, h⟩
  | advance | answer | fail err =>
    obtain ⟨pc, -, rfl⟩ := Option.map_eq_some_iff.mp hstep
    exact ⟨rfl, h⟩
  | send =>
    simp only [RedisTail.step] at hstep
    split at hstep
    · obtain ⟨⟨entry, pc⟩, -, rfl⟩ := Option.map_eq_some_iff.mp hstep
      exact ⟨rfl, h.accept envelopeLen rfl entry⟩
    · cases hstep
  | abandon =>
    simp only [RedisTail.step] at hstep
    split at hstep <;> cases hstep
    exact ⟨rfl, h⟩
  | poll =>
    simp only [RedisTail.step] at hstep
    split at hstep
    · split at hstep <;> cases hstep <;>
        exact ⟨rfl, h.sum_eq, h.nonneg, h.error_zero, h.bounded⟩
    · cases hstep
  | deliver =>
    cases hpump : s.pump.pc with
    | polling | waiting =>
      cases hpending : s.pump.pending with
      | nil => simp [RedisTail.step, hpump, hpending] at hstep
      | cons head rest =>
        simp only [RedisTail.step, hpump, hpending, Option.some.injEq] at hstep
        subst hstep
        exact ⟨rfl, h.pop hlag hpending⟩
    | lagging =>
      simp only [RedisTail.step, hpump, Option.some.injEq] at hstep
      subst hstep
      exact ⟨rfl, h.sum_eq, h.nonneg, h.error_zero, h.bounded⟩
    | closed => simp [RedisTail.step, hpump] at hstep
  | sourceClosed | pumpDone =>
    simp only [RedisTail.step] at hstep
    split at hstep <;> cases hstep
    exact ⟨rfl, h.sum_eq, h.nonneg, h.error_zero, h.bounded⟩

/-! ## The result -/

section Result

/-- The stream that the open script has created. -/
theorem openedKeys_holds (args : OpenArgs)
    (hpayload : args.payload = openPayload args.id args.metadata) (idempotency : Option String) :
    (openedKeys args idempotency).Holds (.create args.id args.metadata)
      (newStateHash args idempotency)
      [{ seq := 1, kind := .kindOpen, payload := args.payload, ts := args.now }] := by
  refine ⟨rfl, rfl, ⟨rfl, rfl, rfl, rfl, rfl, rfl, rfl, rfl⟩, ?_⟩
  rw [hpayload]
  rfl

/-- Writers keep a stream well formed. -/
theorem writes_hold (writes : List Write) (h : keys.Holds log hash events)
    (hbounded : events.length < 10 ^ 14) :
    ∃ log' hash' events', (writes.foldl Write.run keys).Holds log' hash' events' ∧
      events'.length < 10 ^ 14 := by
  induction writes generalizing keys log hash events with
  | nil => exact ⟨log, hash, events, h, hbounded⟩
  | cons write rest ih =>
    obtain ⟨log', hash', events', hkeys, hextends⟩ := write.run_holds h
    exact ih hkeys (hextends.bounded hbounded)

/-- The reader that `Tail` starts. -/
theorem redisTail_start {id : StreamID} (hkeys : keys.Holds log hash events)
    (hbounded : events.length < 10 ^ 14) (hlag : 0 < maxLagBytes)
    (h : redisTail maxLagBytes keys id fromSeq = .ok s) :
    TailInv Answered s log hash events ∧ s.args.fromSeq = fromSeq ∧
      s.args.maxLagBytes = maxLagBytes ∧ s.pump.BytesInv s.args.maxLagBytes := by
  have hvalid : validateStreamID id = true := by
    by_contra hinvalid
    rw [Bool.not_eq_true] at hinvalid
    simp [redisTail, boundedRedisSnapshot, hinvalid] at h
  have hlast : (headerState id hash).lastSeq = events.length :=
    hkeys.hash_holds.last.trans hkeys.length.symm
  unfold redisTail at h
  rw [hkeys.boundedRedisSnapshot_eq ⟨id, hvalid⟩] at h
  simp only at h
  split at h
  · cases h
  · cases hcursor : validateRedisCursor (headerState id hash) fromSeq with
    | error err =>
      rw [hcursor] at h
      cases h
    | ok =>
      rw [hcursor] at h
      simp only at h
      split at h
      · cases h
      · cases h
        have hfrom : fromSeq ≤ (headerState id hash).lastSeq := by
          unfold validateRedisCursor at hcursor
          split at hcursor
          · cases hcursor
          · omega
        have hargs : ArgsInv ⟨id, fromSeq, headerState id hash, hash.degraded, maxLagBytes⟩ log
            events := by
          refine ⟨hfrom, Nat.le_of_eq hlast, snapshot_header hkeys id, ?_, hbounded⟩
          intro hopen message hmessage _
          by_contra hterminal
          obtain ⟨-, record, hending⟩ :=
            hkeys.terminal_event hmessage (by simpa using hterminal)
          have hstatus : hash.status = .statusOpen := hopen
          rw [hkeys.hash_holds.status, hending] at hstatus
          exact statusForTerminal_ne_open record.terminal hstatus
        exact ⟨⟨hkeys, hargs, ⟨.start events fromSeq, hfrom⟩, fun hnil => by cases hnil⟩, rfl, rfl,
          rfl, by simp, by simp, .inl (Int.le_of_lt hlag)⟩

/-- A finished delivery is gap-free. -/
theorem Finished.gapFree {flow : List Entry} (hkeys : s.keys.Holds log hash events)
    (h : Finished Answered args log events callerErr flow) : GapFree args.fromSeq flow := by
  rcases h with ⟨cursor, htracks, -⟩ | ⟨data, cursor, err, rfl, htracks, -⟩
  · exact (htracks.sequenced hkeys).gapFree
  · exact (htracks.sequenced hkeys).concat_error err

/-- An error entry among what was delivered is the last entry of a finished delivery,
and it was explained. -/
theorem Finished.error_last {delivered : List Entry} (hkeys : s.keys.Holds log hash events)
    (h : Finished Answered args log events callerErr (delivered ++ rest))
    (hentry : entry ∈ delivered) (herr : entry.err = some err) :
    ∃ data, delivered = data ++ [entry] ∧
      Explained Answered log events args.fromSeq data err := by
  rcases h with ⟨cursor, htracks, -⟩ | ⟨data, cursor, reason, hflow, htracks, hexplained⟩
  · exact absurd (List.mem_append_left _ hentry) (htracks.notMem_of_err hkeys herr)
  · rcases List.prefix_concat_iff.mp (hflow ▸ List.prefix_append delivered rest) with hall | hshorter
    · rw [hall] at hentry
      rcases List.mem_append.mp hentry with hmem | hlast
      · exact absurd hmem (htracks.notMem_of_err hkeys herr)
      · have heq : entry = errorEntry reason := List.mem_singleton.mp hlast
        rw [heq] at herr
        cases herr
        exact ⟨data, by rw [hall, heq], hexplained⟩
    · exact absurd (hshorter.subset hentry) (htracks.notMem_of_err hkeys herr)

/-- What the consumer has received is a part of a finished delivery, or the committed entries
up to some cursor. -/
theorem TailInv.delivered_cases (h : TailInv Answered s log hash events) :
    (∃ rest, Finished Answered s.args log events s.callerErr (s.delivered ++ rest)) ∨
      ∃ cursor, Tracks events s.args.fromSeq cursor s.delivered := by
  have hdelivery := h.delivery
  unfold DeliveryInv at hdelivery
  cases hpump : s.pump.pc with
  | polling | waiting =>
    simp only [hpump] at hdelivery
    have hsource := hdelivery.1
    by_cases hclosed : s.source = .closed
    · rw [hclosed] at hsource
      exact .inl ⟨_, hsource⟩
    · obtain ⟨cursor, htracks⟩ := hsource.exists_tracks hclosed
      exact .inr ⟨_, htracks.left⟩
  | lagging =>
    simp only [hpump] at hdelivery
    exact .inr hdelivery
  | closed =>
    simp only [hpump] at hdelivery
    exact .inl ⟨[], by rwa [List.append_nil]⟩

/-- What the consumer has received is gap-free. -/
theorem TailInv.gapFree (h : TailInv Answered s log hash events) :
    GapFree s.args.fromSeq s.delivered := by
  obtain ⟨rest, hfinished⟩ | ⟨cursor, htracks⟩ := h.delivered_cases
  · exact (Finished.gapFree h.keys hfinished).left
  · exact (htracks.sequenced h.keys).gapFree

/-- An offset-expired error comes after everything that a degraded stream holds. -/
theorem TailInv.offsetExpired (h : TailInv True s log hash events) (hentry : entry ∈ s.delivered)
    (herr : entry.err = some err) (hsentinel : err.sentinel = .errOffsetExpired) :
    hash.degraded = true ∧
      s.delivered = (events.drop s.args.fromSeq).map XMessage.entry ++ [entry] := by
  have hexplained : ∃ data, s.delivered = data ++ [entry] ∧
      Explained True log events s.args.fromSeq data err := by
    obtain ⟨rest, hfinished⟩ | ⟨cursor, htracks⟩ := h.delivered_cases
    · exact Finished.error_last h.keys hfinished hentry herr
    · exact absurd hentry (htracks.notMem_of_err h.keys herr)
  obtain ⟨data, hdelivered, hexplained⟩ := hexplained
  obtain ⟨hending, hdata⟩ := hexplained trivial hsentinel
  refine ⟨?_, hdata ▸ hdelivered⟩
  rw [h.keys.hash_holds.degraded, hending]
  rfl

/-- The reasons for a channel that was closed without an error. -/
theorem TailInv.closed_reason (h : TailInv Answered s log hash events)
    (hclosed : s.pump.pc = .closed) (hnoError : ∀ entry ∈ s.delivered, entry.err = none) :
    (∃ last, s.delivered.getLast? = some last ∧ last.kind.terminal = true) ∨
      (s.args.initial.status ≠ .statusOpen ∧ s.args.initial.lastSeq = s.args.fromSeq) ∨
      s.callerErr.isSome = true := by
  have hdelivery := h.delivery
  unfold DeliveryInv at hdelivery
  simp only [hclosed] at hdelivery
  rcases hdelivery with ⟨cursor, -, hreason⟩ | ⟨data, cursor, err, hflow, -, -⟩
  · exact hreason
  · have hnone := hnoError (errorEntry err) (by rw [hflow]; simp)
    cases hnone

end Result

/-! ## Runs -/

/-- The system satisfies the invariant at some journal. -/
def RedisTail.Invariant (Answered : Prop) (s : RedisTail) : Prop :=
  ∃ log hash events, TailInv Answered s log hash events

/-- The invariant along a run in which, when `Answered` is claimed, Redis answers. -/
theorem RedisTail.Invariant.of_run {Answered : Prop} {start : RedisTail} {labels : List TailEvent}
    (h : start.Invariant Answered)
    (hanswered : Along (RedisTail.step envelopeLen) (fun t event => Answered → Faithful t event)
      start labels) (hrun : run (RedisTail.step envelopeLen) start labels = some s) :
    s.Invariant Answered :=
  inv_of_run_along
    (fun _ _ _ ⟨_, _, _, ht⟩ hfaithful hstep => ht.step hfaithful hstep) h hanswered hrun

/-- The tail was called with `args`, and its pump is within the budget. -/
def RedisTail.Accounted (args : TailArgs) (s : RedisTail) : Prop :=
  s.args = args ∧ s.pump.BytesInv args.maxLagBytes

/-- The accounting along a run. -/
theorem RedisTail.Accounted.of_run (hlag : 0 < args.maxLagBytes) {start : RedisTail}
    {labels : List TailEvent} (h : start.Accounted args)
    (hrun : run (RedisTail.step envelopeLen) start labels = some s) : s.Accounted args := by
  refine inv_of_run ?_ h hrun
  rintro t event t' ⟨rfl, hbytes⟩ hstep
  exact RedisTail.step_bytes hlag hbytes hstep

/-- What a reader of a stream sees, for every stream, every accepted cursor and every
interleaving.  The consumer receives the entries after its cursor without a gap, and
then at most one error.  Its channel is closed without an error only after the
terminal entry, when the stream had ended at the cursor, or after a cancellation.
When Redis answers, an offset-expired error follows everything that the degraded
stream holds.  The queue is within its budget, or it holds one data entry. -/
theorem redis_tail_gap_free (envelopeLen : Entry → Option Nat) (maxLagBytes : Int)
    (hlag : 0 < maxLagBytes) (args : OpenArgs)
    (hpayload : args.payload = openPayload args.id args.metadata) (idempotency : Option String)
    (before : List Write) (fromSeq : Nat) (start : RedisTail)
    (hstart : redisTail maxLagBytes (before.foldl Write.run (openedKeys args idempotency))
      args.id fromSeq = .ok start)
    (labels : List TailEvent) (s : RedisTail)
    (hrun : run (RedisTail.step envelopeLen) start labels = some s) :
    GapFree fromSeq s.delivered ∧
      (s.pump.pc = .closed → (∀ entry ∈ s.delivered, entry.err = none) →
        (∃ last, s.delivered.getLast? = some last ∧ last.kind.terminal = true) ∨
          (start.args.initial.status ≠ .statusOpen ∧ start.args.initial.lastSeq = fromSeq) ∨
          s.callerErr.isSome = true) ∧
      (Along (RedisTail.step envelopeLen) Faithful start labels →
        ∀ entry ∈ s.delivered, ∀ err, entry.err = some err →
          err.sentinel = .errOffsetExpired →
            s.keys.state.map (·.degraded) = some true ∧
              s.delivered =
                ((s.keys.events.getD []).drop fromSeq).map XMessage.entry ++ [entry]) ∧
      (s.pump.pendingBytes ≤ maxLagBytes ∨ dataEntries s.pump.pending = 1) := by
  obtain ⟨log, hash, events, hkeys, hbounded⟩ := writes_hold before
    (openedKeys_holds args hpayload idempotency) (by simp)
  have hinv (Answered : Prop) : TailInv Answered start log hash events :=
    (redisTail_start hkeys hbounded hlag hstart).1
  obtain ⟨-, hfrom, hmax, hbytes⟩ : TailInv True start log hash events ∧ _ :=
    redisTail_start hkeys hbounded hlag hstart
  have hrunInv (Answered : Prop) (hanswered : Along (RedisTail.step envelopeLen)
      (fun t event => Answered → Faithful t event) start labels) : s.Invariant Answered :=
    RedisTail.Invariant.of_run ⟨log, hash, events, hinv Answered⟩ hanswered hrun
  obtain ⟨hargs, hpump⟩ : s.Accounted start.args :=
    RedisTail.Accounted.of_run (by rw [hmax]; exact hlag) ⟨rfl, hbytes⟩ hrun
  obtain ⟨log₁, hash₁, events₁, hany⟩ := hrunInv False (Along.of_forall (fun _ _ => False.elim) _ _)
  rw [← hfrom, ← hmax, ← hargs]
  refine ⟨hany.gapFree, hany.closed_reason, fun halong entry hentry err herr hsentinel => ?_,
    hargs ▸ hpump.bounded⟩
  obtain ⟨log₂, hash₂, events₂, htrue⟩ :=
    hrunInv True (halong.imp fun _ _ hfaithful _ => hfaithful)
  rw [htrue.keys.state_eq, htrue.keys.events_eq]
  obtain ⟨hdegraded, hdelivered⟩ := htrue.offsetExpired hentry herr hsentinel
  exact ⟨congrArg some hdegraded, hdelivered⟩

/-- The reader receives the open entry and waits; then the stream is degraded, and the
reader is told. -/
def degradedLabels : List TailEvent :=
  [.advance, .answer, .advance, .poll, .send, .deliver, .advance, .advance,
    .write (.degrade "2" 0), .answer, .answer, .advance, .poll, .send, .deliver]

theorem redis_tail_gap_free_of_degraded :
    ∃ start s, redisTail 64 (openedKeys sampleOpen none) sampleID 0 = .ok start ∧
      run (RedisTail.step fun _ => some 40) start degradedLabels = some s ∧
      GapFree 0 s.delivered ∧ s.delivered.length = 2 := by
  refine ⟨_, _, rfl, rfl, ?_, rfl⟩
  exact (redis_tail_gap_free (fun _ => some 40) 64 (by decide) sampleOpen rfl none [] 0 _ rfl
    degradedLabels _ rfl).1

/-- The reader receives the open entry, and its `XREAD` finds nothing.  Then an entry is
appended and the stream degraded, the header is read, and the deadline of the reader passes
during the fallback. -/
def expiredLabels : List TailEvent :=
  [.advance, .answer, .advance, .poll, .send, .deliver, .advance, .advance, .answer,
    .write (.append sampleRecord "2" 0), .write (.degrade "3" 0), .answer,
    .cancel .deadlineExceeded, .fail CtxErr.deadlineExceeded.error, .poll, .send, .deliver]

/-- The degraded stream holds two entries, and the reader is told that its offset has
expired after the first one. -/
theorem offset_expired_before_entry :
    ∃ start s, redisTail 64 (openedKeys sampleOpen none) sampleID 0 = .ok start ∧
      run (RedisTail.step fun _ => some 40) start expiredLabels = some s ∧
      s.keys.state.map (·.degraded) = some true ∧
      (s.keys.events.getD []).map XMessage.seq = [1, 2] ∧
      s.delivered.map (fun entry => (entry.seq, entry.err.map (·.sentinel))) =
        [(1, none), (0, some .errOffsetExpired)] :=
  ⟨_, _, rfl, rfl, rfl, rfl, rfl⟩

end Streamweld.Redis
