import Streamweld.Proxy.System

/-!
# What the steps do

`Exec` lists what an action can do, and `Step` what a step of the system can do; they
are what `Action.exec` and `System.step` compute (`exec_spec`, `System.step_spec`).
Every invariant of the system is proved by cases on them.

`WellFormed` says which actions a script can still have after an action, so that a
proof about the action at the head knows the rest.
-/

namespace Streamweld.Proxy

open Streamweld.Journal Streamweld.Lib

variable {choice : Choice} {r r' : Runtime}

/-! ## What an action does -/

/-- The entries that a call appends. -/
def Call.outgoing : Call → Option (List Outgoing)
  | .appendChunk event => some [.chunk event]
  | .appendNonTerminal entries => some (entries.map .control)
  | .closeTerminal _ _ => none

/-- The effects of an action. -/
inductive Exec (choice : Choice) (r : Runtime) : Action → Runtime → Next → Prop where
  | refused {call} (h : r.terminal.isSome = true ∨ r.terminating = true) :
    Exec choice r (.check call) r (.leave .errTerminalState)
  | checkRelay {call entries} (hcall : call.outgoing = some entries)
      (hterminal : r.terminal = none) (hterminating : r.terminating = false)
      (h : r.degraded = true) :
    Exec choice r (.check call) r (.go [.relay (entries.map (·.frame))])
  | checkAppend {call entries} (hcall : call.outgoing = some entries)
      (hterminal : r.terminal = none) (hterminating : r.terminating = false)
      (h : r.degraded = false) :
    Exec choice r (.check call) r (.go [.append entries])
  | checkClose {record guard} (hterminal : r.terminal = none)
      (hterminating : r.terminating = false) (h : guard.holds r = true) :
    Exec choice r (.check (.closeTerminal record guard))
      { r with terminating := true, canceled := true } (.go [.build record])
  | checkGuard {record guard} (hterminal : r.terminal = none)
      (hterminating : r.terminating = false) (h : guard.holds r = false) :
    Exec choice r (.check (.closeTerminal record guard)) r (.leave .returned)
  | appendNil : Exec choice r (.append []) r (.go [])
  | appendOk {out rest r'} (h : r.mutate (·.push out.record) choice.outcome = some (r', true)) :
    Exec choice r (.append (out :: rest)) r'
      (.go [.mirror r'.journal.lastSeq,
        .broadcast (shadowFrame (out.record.item r'.journal.lastSeq)),
        .offer (out.record.item r'.journal.lastSeq), .append rest])
  | appendFail {out rest r'} (h : r.mutate (·.push out.record) choice.outcome = some (r', false)) :
    Exec choice r (.append (out :: rest)) r' (.go [.degrade ((out :: rest).map (·.frame))])
  | mirror {seq} : Exec choice r (.mirror seq) { r with lastSeq := seq } (.go [])
  | broadcast {frame} (h : choice.order.Perm r.feed.broadcastReaders) :
    Exec choice r (.broadcast frame)
      { r with broadcastSeq := (frame.entry.map (·.seq)).getD r.broadcastSeq }
      (.go (choice.order.map fun reader => .enqueue reader frame.sized))
  | enqueue {reader frame} :
    Exec choice r (.enqueue reader frame)
      { r with feed := r.feed.enqueueSecondary reader frame } (.go [])
  | offer {entry} : Exec choice r (.offer entry) (r.publishFirst entry) (.go [])
  | degradeAgain {frames} (h : r.degraded = true) :
    Exec choice r (.degrade frames) r (.go [.relay frames])
  | degrade {frames} (h : r.degraded = false) :
    Exec choice r (.degrade frames) { r with degraded := true }
      (.go [.activate r.lastSeq (warningFrame :: frames)])
  | activate {boundary frames} :
    Exec choice r (.activate boundary frames)
      { r with feed := (r.feed.activate boundary (frames.map Subtype.val)).1 }
      (.go ((r.feed.activate boundary (frames.map Subtype.val)).2.map .broadcast))
  | relay {frames} :
    Exec choice r (.relay frames) r
      (.go ((r.feed.append (frames.map Subtype.val)).map .broadcast))
  | buildDegraded {record} (h : r.degraded = true) :
    Exec choice r (.build record) r (.go [.finishDegraded record])
  | build {record} (h : r.degraded = false) :
    Exec choice r (.build record) r (.go [.close record])
  | closeOk {record r'}
      (h : r.mutate (·.finish (.closed record)) choice.outcome = some (r', true)) :
    Exec choice r (.close record) r' (.go [.finish record])
  | closeFail {record r'}
      (h : r.mutate (·.finish (.closed record)) choice.outcome = some (r', false)) :
    Exec choice r (.close record) r' (.go [.degrade [], .finishDegraded record])
  | finish {record} :
    Exec choice r (.finish record)
      { r.setTerminal record.kind with lastSeq := r.lastSeq + 1 }
      (.go (releases r.currentLease ++
        [.broadcast (shadowFrame (record.item (r.lastSeq + 1))), .closeFeed,
          .offer (record.item (r.lastSeq + 1))]))
  | finishDegraded {record} :
    Exec choice r (.finishDegraded record) (r.setTerminal record.kind)
      (.go (releases r.currentLease ++ [.relay [terminalFrame record], .closeFeed]))
  | release {lease} :
    Exec choice r (.release lease) { r with leases := r.leases.erase lease } (.go [])
  | closeFeed : Exec choice r .closeFeed { r with feed := r.feed.close } (.go [])
  | warnNil {committed record} :
    Exec choice r (.warn committed [] record) r (.go [.closeRefused committed record])
  | warnOk {committed warning warnings record r'}
      (h : r.mutate (·.push warning) choice.outcome = some (r', true)) :
    Exec choice r (.warn committed (warning :: warnings) record) r'
      (.go [.mirror r'.journal.lastSeq,
        .broadcast (shadowFrame (warning.item r'.journal.lastSeq)),
        .warn (committed ++ [warning.item r'.journal.lastSeq]) warnings record])
  | warnFail {committed warning warnings record r'}
      (h : r.mutate (·.push warning) choice.outcome = some (r', false)) :
    Exec choice r (.warn committed (warning :: warnings) record) r'
      (.leave (.abandoned committed))
  | closeRefusedOk {committed record r'}
      (h : r.mutate (·.finish (.closed record)) choice.outcome = some (r', true)) :
    Exec choice r (.closeRefused committed record) r' (.go [.finishRefused committed record])
  | closeRefusedFail {committed record r'}
      (h : r.mutate (·.finish (.closed record)) choice.outcome = some (r', false)) :
    Exec choice r (.closeRefused committed record) r' (.leave (.abandoned committed))
  | finishRefused {committed record} :
    Exec choice r (.finishRefused committed record)
      { r.setTerminal record.kind with lastSeq := r.lastSeq + 1 }
      (.go [.broadcast (shadowFrame (record.item (r.lastSeq + 1))), .closeFeed,
        .depart r.currentLease committed (record.item (r.lastSeq + 1))])
  | depart {lease committed terminal} :
    Exec choice r (.depart lease committed terminal) r
      (.leave (.departed (.cancel :: (releases lease ++
        (committed ++ [terminal]).map .offer))))
  | cancel : Exec choice r .cancel { r with canceled := true } (.go [])

theorem exec_check {call : Call} {next : Next}
    (h : (Action.check call).exec choice r = some (r', next)) :
    Exec choice r (.check call) r' next := by
  simp only [Action.exec] at h
  split at h
  · rename_i hclosed
    cases h
    exact .refused hclosed
  · rename_i hopen
    have hterminal : r.terminal = none := by
      rw [← Option.not_isSome_iff_eq_none]
      exact fun hsome => hopen (.inl hsome)
    have hterminating : r.terminating = false := by
      rw [← Bool.not_eq_true]
      exact fun htrue => hopen (.inr htrue)
    cases call with
    | appendChunk event =>
      have hcall : (Call.appendChunk event).outgoing = some [.chunk event] := rfl
      cases h
      cases hdegraded : r.degraded with
      | true => exact .checkRelay hcall hterminal hterminating hdegraded
      | false => exact .checkAppend hcall hterminal hterminating hdegraded
    | appendNonTerminal entries =>
      have hcall : (Call.appendNonTerminal entries).outgoing = some (entries.map .control) := rfl
      cases h
      cases hdegraded : r.degraded with
      | true => exact .checkRelay hcall hterminal hterminating hdegraded
      | false => exact .checkAppend hcall hterminal hterminating hdegraded
    | closeTerminal record guard =>
      cases hguard : guard.holds r with
      | true =>
        simp only [Call.enter, hguard, if_true] at h
        cases h
        exact .checkClose hterminal hterminating hguard
      | false =>
        simp only [Call.enter, hguard, Bool.false_eq_true, if_false] at h
        cases h
        exact .checkGuard hterminal hterminating hguard

/-- What `Action.exec` computes. -/
theorem exec_spec {action : Action} {next : Next} (h : action.exec choice r = some (r', next)) :
    Exec choice r action r' next := by
  cases action with
  | check call => exact exec_check h
  | append entries =>
    cases entries with
    | nil => cases h; exact .appendNil
    | cons out rest =>
      simp only [Action.exec] at h
      split at h
      · cases h
      · cases h; exact .appendOk ‹_›
      · cases h; exact .appendFail ‹_›
  | mirror seq => cases h; exact .mirror
  | broadcast frame =>
    simp only [Action.exec] at h
    split at h
    · cases h; exact .broadcast (List.isPerm_iff.mp ‹_›)
    · cases h
  | enqueue reader frame => cases h; exact .enqueue
  | offer entry => cases h; exact .offer
  | degrade frames =>
    simp only [Action.exec] at h
    split at h
    · cases h; exact .degradeAgain ‹_›
    · rename_i hdegraded
      cases h
      exact .degrade (by simpa using hdegraded)
  | activate boundary frames => cases h; exact .activate
  | relay frames => cases h; exact .relay
  | build record =>
    cases h
    cases hdegraded : r.degraded with
    | true => exact .buildDegraded hdegraded
    | false => exact .build hdegraded
  | close record =>
    simp only [Action.exec] at h
    split at h
    · cases h
    · cases h; exact .closeOk ‹_›
    · cases h; exact .closeFail ‹_›
  | finish record => cases h; exact .finish
  | finishDegraded record => cases h; exact .finishDegraded
  | release lease => cases h; exact .release
  | closeFeed => cases h; exact .closeFeed
  | warn committed warnings record =>
    cases warnings with
    | nil => cases h; exact .warnNil
    | cons warning warnings =>
      simp only [Action.exec] at h
      split at h
      · cases h
      · cases h; exact .warnOk ‹_›
      · cases h; exact .warnFail ‹_›
  | closeRefused committed record =>
    simp only [Action.exec] at h
    split at h
    · cases h
    · cases h; exact .closeRefusedOk ‹_›
    · cases h; exact .closeRefusedFail ‹_›
  | finishRefused committed record => cases h; exact .finishRefused
  | depart lease committed terminal => cases h; exact .depart
  | cancel => cases h; exact .cancel

/-- What a journal call does. -/
theorem Runtime.mutate_spec {f : LogStream → LogStream} {outcome : Outcome} {ok : Bool}
    (h : r.mutate f outcome = some (r', ok)) :
    (ok = true ∧ outcome = .ok ∧ r.journal.ending = .live ∧
      r' = { r with
        journal := f r.journal
        lateCommits := if r.degraded then r.lateCommits + 1 else r.lateCommits }) ∨
    (ok = false ∧ outcome = .fail ∧ r' = r) ∨
    (ok = false ∧ outcome = .failCommitted ∧ r.journal.ending = .live ∧
      r' = { r with journal := f r.journal }) := by
  cases outcome with
  | fail => cases h; exact .inr (.inl ⟨rfl, rfl, rfl⟩)
  | ok =>
    simp only [Runtime.mutate] at h
    split at h
    · cases h; exact .inl ⟨rfl, rfl, ‹_›, rfl⟩
    · cases h
  | failCommitted =>
    simp only [Runtime.mutate] at h
    split at h
    · cases h; exact .inr (.inr ⟨rfl, rfl, ‹_›, rfl⟩)
    · cases h

/-! ## Scripts -/

/-- The actions that can be left when the feed is closed. -/
def Action.quiet : Action → Bool
  | .check _ | .offer _ | .depart _ _ _ => true
  | _ => false

/-- What can come after an action in a script. -/
def Action.Before : Action → List Action → Prop
  | .mirror _, _ | .broadcast _, _ | .enqueue _ _, _ | .offer _, _ | .activate _ _, _
  | .relay _, _ | .release _, _ => True
  | .degrade _, rest => rest = [] ∨ ∃ record, rest = [.finishDegraded record]
  | .closeFeed, rest => ∀ action ∈ rest, action.quiet = true
  | .cancel, _ => False
  | _, rest => rest = []

/-- Every action is followed by what can come after it. -/
def WellFormed : List Action → Prop
  | [] => True
  | action :: rest => action.Before rest ∧ WellFormed rest

theorem WellFormed.append {actions rest : List Action}
    (hactions : ∀ action ∈ actions, ∀ rest, action.Before rest) (hrest : WellFormed rest) :
    WellFormed (actions ++ rest) := by
  induction actions with
  | nil => exact hrest
  | cons action actions ih =>
    exact ⟨hactions action List.mem_cons_self _,
      ih fun action haction => hactions action (List.mem_cons_of_mem _ haction)⟩

theorem before_broadcast (frames : List DegradedFrame) :
    ∀ action ∈ frames.map Action.broadcast, ∀ rest, action.Before rest :=
  List.forall_mem_map.mpr fun _ _ _ => trivial

theorem before_enqueue (order : List Nat) (frame : DegradedFrame) :
    ∀ action ∈ order.map fun reader => Action.enqueue reader frame,
      ∀ rest, action.Before rest :=
  List.forall_mem_map.mpr fun _ _ _ => trivial

theorem before_releases (lease : Option LeaseID) :
    ∀ action ∈ releases lease, ∀ rest, action.Before rest :=
  List.forall_mem_map.mpr fun _ _ _ => trivial

/-- A well-formed script stays well formed. -/
theorem Exec.wellFormed {action : Action} {actions rest : List Action}
    (h : Exec choice r action r' (.go actions)) (hscript : WellFormed (action :: rest)) :
    WellFormed (actions ++ rest) := by
  obtain ⟨hbefore, hrest⟩ := hscript
  cases h with
  | checkRelay | checkAppend | checkClose | appendNil | appendOk | appendFail | buildDegraded
  | build | closeOk | warnNil | warnOk | closeRefusedOk
  | closeFail =>
    obtain rfl : rest = [] := hbefore
    simp [WellFormed, Action.Before]
  | finishDegraded | finish =>
    obtain rfl : rest = [] := hbefore
    rw [List.append_nil]
    exact .append (before_releases _) (by simp [WellFormed, Action.Before, Action.quiet])
  | finishRefused =>
    obtain rfl : rest = [] := hbefore
    simp [WellFormed, Action.Before, Action.quiet]
  | mirror | enqueue | offer | release | closeFeed => exact hrest
  | broadcast => exact .append (before_enqueue _ _) hrest
  | activate | relay => exact .append (before_broadcast _) hrest
  | degradeAgain | degrade => exact ⟨trivial, hrest⟩
  | cancel => exact hbefore.elim

/-! ## What a step of the system does -/

/-- The effects of a step. -/
inductive Step (s : System) : StreamEvent → System → Prop where
  | lock {owner call} (hwriter : s.writer = none) (howner : owner ≠ .refusal) :
    Step s (.lock owner call) { s with writer := some ⟨owner, [.check call]⟩ }
  | unlock {choice owner} (hwriter : s.writer = some ⟨owner, []⟩) :
    Step s (.write choice) { s with writer := none }
  | go {choice owner action rest runtime actions}
      (hwriter : s.writer = some ⟨owner, action :: rest⟩)
      (hexec : Exec choice s.runtime action runtime (.go actions)) :
    Step s (.write choice)
      { s with runtime := runtime, writer := some ⟨owner, actions ++ rest⟩ }
  | leave {choice owner action rest runtime exit}
      (hwriter : s.writer = some ⟨owner, action :: rest⟩)
      (hexec : Exec choice s.runtime action runtime (.leave exit)) :
    Step s (.write choice)
      { s with runtime := runtime, writer := none, refusal := s.refusal.after exit }
  | refuse {backend warnings record} (hterminal : s.runtime.terminal = none)
      (hterminating : s.runtime.terminating = false) :
    Step s (.refuse backend warnings record)
      { s with
        runtime := { s.runtime with terminating := true }
        refusal := .waiting warnings record }
  | refusalLock {warnings record} (hwriter : s.writer = none)
      (hrefusal : s.refusal = .waiting warnings record) :
    Step s .refusalLock
      { s with writer := some ⟨.refusal, [.warn [] warnings record]⟩, refusal := .inside }
  | rollback {committed} (hrefusal : s.refusal = .rollingBack committed) :
    Step s .rollback
      { s with runtime := { s.runtime with terminating := false }, refusal := .idle }
  | refusalStep {choice action rest runtime} (hrefusal : s.refusal = .leaving (action :: rest))
      (hexec : Exec choice s.runtime action runtime (.go [])) :
    Step s (.refusalStep choice) { s with runtime := runtime, refusal := .leaving rest }
  | markClosed {record} (hending : s.runtime.journal.ending = .closed record) :
    Step s .markDegraded s
  | markDegraded (hdegraded : s.runtime.degraded = true)
      (hending : ∀ record, s.runtime.journal.ending ≠ .closed record) :
    Step s .markDegraded
      { s with runtime := { s.runtime with journal := s.runtime.journal.finish .degraded } }
  | claim {event orphanClaim} :
    Step s event { s with runtime := { s.runtime with orphanClaim := orphanClaim } }
  | leases {event leases} : Step s event { s with runtime := { s.runtime with leases := leases } }
  | reserve {failedLease targetLease target} (hterminal : s.runtime.terminal = none) :
    Step s (.reserve failedLease targetLease target)
      { s with
        runtime := { s.runtime with
          currentLease := some targetLease
          currentBackend := target } }
  | resume {cursor verbose} :
    Step s (.resume cursor verbose)
      { s with readers := s.readers ++ [Reader.new false cursor verbose] }
  | reader {index event reader runtime reader'} (hreader : s.readers[index]? = some reader)
      (hstep : reader.step s.runtime event = some (runtime, reader')) :
    Step s (.reader index event)
      { s with runtime := runtime, readers := s.readers.set index reader' }

/-- What the holder of `writeMu` does. -/
theorem System.writeStep_spec {s s' : System} {left : Option (Owner × Exit)}
    (h : s.writeStep choice = some (s', left)) : Step s (.write choice) s' := by
  unfold System.writeStep at h
  split at h
  · cases h
  · rename_i writer hwriter
    obtain ⟨owner, script⟩ := writer
    split at h
    · rename_i hscript
      cases h
      cases hscript
      exact .unlock hwriter
    · rename_i action rest hscript
      cases hscript
      split at h
      · cases h
      · cases h
        exact .go hwriter (exec_spec ‹_›)
      · cases h
        exact .leave hwriter (exec_spec ‹_›)

/-- What `System.step` computes. -/
theorem System.step_spec {s s' : System} {event : StreamEvent} (h : s.step event = some s') :
    Step s event s' := by
  cases event with
  | lock owner call =>
    simp only [System.step] at h
    split at h
    · rename_i hlock
      cases h
      exact .lock (Option.isNone_iff_eq_none.mp hlock.1) hlock.2.2
    · cases h
  | write choice =>
    obtain ⟨⟨s'', left⟩, hwrite, rfl⟩ := Option.map_eq_some_iff.mp h
    exact System.writeStep_spec hwrite
  | refuse backend warnings record =>
    simp only [System.step] at h
    split at h
    · rename_i hopen
      cases h
      exact .refuse hopen.1 hopen.2.1
    · cases h
  | refusalLock =>
    simp only [System.step] at h
    split at h
    · cases h
      exact .refusalLock ‹_› ‹_›
    · cases h
  | rollback =>
    simp only [System.step] at h
    split at h
    · cases h
      exact .rollback ‹_›
    · cases h
  | refusalStep choice =>
    simp only [System.step] at h
    split at h
    · split at h
      · cases h
        exact .refusalStep ‹_› (exec_spec ‹_›)
      · cases h
    · cases h
  | markDegraded =>
    simp only [System.step] at h
    split at h
    · rename_i hdegraded
      split at h
      · cases h
        exact .markClosed ‹_›
      · rename_i hending
        cases h
        exact .markDegraded hdegraded hending
    · cases h
  | claimOrphan claimID =>
    simp only [System.step] at h
    split at h
    · cases h
      exact .claim
    · cases h
  | dropClaim claimID =>
    simp only [System.step] at h
    split at h
    · cases h
      exact .claim
    · cases h
  | acquire lease | release lease =>
    cases h
    exact .leases
  | reserve failedLease targetLease target =>
    simp only [System.step] at h
    split at h
    · rename_i hopen
      cases h
      exact .reserve hopen.1
    · cases h
  | resume cursor verbose =>
    cases h
    exact .resume
  | reader index event =>
    simp only [System.step] at h
    split at h
    · cases h
    · obtain ⟨⟨runtime, reader'⟩, hstep, rfl⟩ := Option.map_eq_some_iff.mp h
      exact .reader ‹_› hstep

theorem System.script_none {s : System} (h : s.writer = none) : s.script = [] := by
  unfold System.script
  rw [h]

theorem System.script_some {s : System} {owner : Owner} {script : List Action}
    (h : s.writer = some ⟨owner, script⟩) : s.script = script := by
  unfold System.script
  rw [h]

end Streamweld.Proxy
