import Streamweld.Proxy.Steps

/-!
# The flags of a stream

Which function is closing the stream, and what `terminal`, `terminating` and the
cancellation of the producer say about it.  `Action.Sound` says what the flags are
while an action is pending.  `ControlInv` is the invariant of the flags, the script of
the holder of `writeMu` and the refusal, and `System.Control.step` shows that every
step keeps it.

In particular nobody is closing a stream whose flags are down, so that a refusal
starts only when no other one is under way.
-/

namespace Streamweld.Proxy

open Streamweld.Journal Streamweld.Lib

variable {r r' : Runtime} {action : Action} {choice : Choice}

/-! ## The flags -/

/-- The fields that terminal transitions change. -/
structure Flags where
  terminating : Bool
  terminal : Option EntryKind
  canceled : Bool
  done : Bool
  activeDone : Bool
  currentLease : Option LeaseID

def Runtime.flags (r : Runtime) : Flags :=
  ⟨r.terminating, r.terminal, r.canceled, r.done, r.activeDone, r.currentLease⟩

theorem Runtime.mutate_flags {f : LogStream → LogStream} {outcome : Outcome} {ok : Bool}
    (h : r.mutate f outcome = some (r', ok)) : r'.flags = r.flags ∧ r'.feed = r.feed := by
  rcases mutate_spec h with ⟨-, -, -, rfl⟩ | ⟨-, -, rfl⟩ | ⟨-, -, -, rfl⟩ <;> exact ⟨rfl, rfl⟩

theorem Runtime.publishFirst_flags (r : Runtime) (entry : Item) :
    (r.publishFirst entry).flags = r.flags ∧ (r.publishFirst entry).feed = r.feed := by
  unfold publishFirst
  split <;> exact ⟨rfl, rfl⟩

theorem DegradedFeed.activate_closed (feed : DegradedFeed) (boundary : Nat)
    (frames : List DegradedFrame) : (feed.activate boundary frames).1.closed = feed.closed := by
  unfold activate
  split
  · rfl
  · split <;> rfl

/-- The refusal is outside `writeMu`, and may still fail. -/
def Refusal.outside : Refusal → Bool
  | waiting _ _ | rollingBack _ => true
  | _ => false

def Refusal.departed : Refusal → Bool
  | leaving _ => true
  | _ => false

/-- The action belongs to a terminal transition of `closeTerminalUntil`. -/
def Action.closing : Action → Bool
  | .build _ | .close _ | .finish _ | .finishDegraded _ => true
  | _ => false

/-- What the flags are while an action is pending. -/
def Action.Sound (r : Runtime) (refusal : Refusal) : Action → Prop
  | .append _ | .mirror _ | .degrade _ | .activate _ _ => r.terminal = none
  | .build _ | .close _ | .finish _ | .finishDegraded _ =>
    r.terminal = none ∧ r.terminating = true ∧ refusal.active = false
  | .warn _ _ _ | .closeRefused _ _ | .finishRefused _ _ =>
    r.terminal = none ∧ r.terminating = true ∧ refusal = .inside
  | .closeFeed | .depart _ _ _ => r.terminal.isSome = true
  | _ => True

/-- The flags of a stream, the script of the holder of `writeMu`, and the refusal. -/
structure ControlInv (r : Runtime) (script : List Action) (refusal : Refusal) : Prop where
  wellFormed : WellFormed script
  sound : ∀ action ∈ script, action.Sound r refusal
  raised : refusal.active = true → r.terminal = none → r.terminating = true
  outside : refusal.outside = true → r.terminal = none
  departed : refusal.departed = true → r.terminal.isSome = true
  lowered : r.terminal.isSome = true → r.terminating = false
  closing : r.terminating = true →
    refusal.active = true ∨ ∃ action ∈ script, action.closing = true
  canceled : r.canceled = true →
    r.terminal.isSome = true ∨ ∃ action ∈ script, action.closing = true
  closed : r.feed.closed = true →
    r.terminal.isSome = true ∧ ∀ action ∈ script, action.quiet = true
  ended : r.terminal.isSome = true →
    r.done = true ∧ r.activeDone = true ∧ r.currentLease = none

theorem Action.Sound.congr {refusal : Refusal} (hterminal : r'.terminal = r.terminal)
    (hterminating : r'.terminating = r.terminating) (h : action.Sound r refusal) :
    action.Sound r' refusal := by
  cases action <;> simp only [Action.Sound, hterminal, hterminating] at h ⊢ <;> exact h

namespace ControlInv

variable {call : Call} {actions rest script : List Action} {refusal : Refusal}

/-- The invariant depends on the flags and on the feed being closed. -/
theorem congr (h : ControlInv r script refusal) (hflags : r'.flags = r.flags)
    (hclosed : r'.feed.closed = r.feed.closed) : ControlInv r' script refusal := by
  have hterminal : r'.terminal = r.terminal := congrArg Flags.terminal hflags
  have hterminating : r'.terminating = r.terminating := congrArg Flags.terminating hflags
  have hcanceled : r'.canceled = r.canceled := congrArg Flags.canceled hflags
  have hdone : r'.done = r.done := congrArg Flags.done hflags
  have hactiveDone : r'.activeDone = r.activeDone := congrArg Flags.activeDone hflags
  have hlease : r'.currentLease = r.currentLease := congrArg Flags.currentLease hflags
  refine ⟨h.wellFormed, fun b hb => (h.sound b hb).congr hterminal hterminating,
    ?_, ?_, ?_, ?_, ?_, ?_, ?_, ?_⟩
  · rw [hterminal, hterminating]
    exact h.raised
  · rw [hterminal]
    exact h.outside
  · rw [hterminal]
    exact h.departed
  · rw [hterminal, hterminating]
    exact h.lowered
  · rw [hterminating]
    exact h.closing
  · rw [hcanceled, hterminal]
    exact h.canceled
  · rw [hclosed, hterminal]
    exact h.closed
  · rw [hterminal, hdone, hactiveDone, hlease]
    exact h.ended

/-- The feed is open while an action is pending that uses it. -/
theorem feed_open (h : ControlInv r (action :: rest) refusal) (hquiet : action.quiet = false) :
    r.feed.closed = false := by
  rw [← Bool.not_eq_true]
  intro hclosed
  have := (h.closed hclosed).2 action List.mem_cons_self
  rw [hquiet] at this
  cases this

/-- An action that changes no flag. -/
theorem replace (h : ControlInv r (action :: rest) refusal) (hflags : r'.flags = r.flags)
    (hclosed : r'.feed.closed = r.feed.closed) (hwellFormed : WellFormed (actions ++ rest))
    (hsound : ∀ b ∈ actions, b.Sound r refusal)
    (hclosing : action.closing = true → ∃ b ∈ actions, b.closing = true)
    (hquiet : r.feed.closed = true → ∀ b ∈ actions, b.quiet = true) :
    ControlInv r' (actions ++ rest) refusal := by
  have hpending : (∃ b ∈ action :: rest, b.closing = true) →
      ∃ b ∈ actions ++ rest, b.closing = true := by
    rintro ⟨b, hb, hbclosing⟩
    rcases List.mem_cons.mp hb with rfl | hrest
    · obtain ⟨b', hb', hclosing'⟩ := hclosing hbclosing
      exact ⟨b', List.mem_append_left _ hb', hclosing'⟩
    · exact ⟨b, List.mem_append_right _ hrest, hbclosing⟩
  refine ControlInv.congr ?_ hflags hclosed
  refine { h with wellFormed := hwellFormed, sound := ?_, closing := ?_, canceled := ?_, closed := ?_ }
  · exact List.forall_mem_append.mpr ⟨hsound, (List.forall_mem_cons.mp h.sound).2⟩
  · exact fun htrue => (h.closing htrue).imp_right hpending
  · exact fun htrue => (h.canceled htrue).imp_right hpending
  · intro htrue
    obtain ⟨hsome, hall⟩ := h.closed htrue
    exact ⟨hsome, List.forall_mem_append.mpr ⟨hquiet htrue, (List.forall_mem_cons.mp hall).2⟩⟩

/-- The head of the script is sound. -/
theorem head (h : ControlInv r (action :: rest) refusal) : action.Sound r refusal :=
  h.sound action List.mem_cons_self

/-- A check that passed: nothing is closing the stream. -/
theorem passed (h : ControlInv r (.check call :: rest) refusal) (hterminal : r.terminal = none)
    (hterminating : r.terminating = false) : r.feed.closed = false ∧ refusal.active = false := by
  constructor
  · rw [← Bool.not_eq_true]
    intro hclosed
    have hsome := (h.closed hclosed).1
    rw [hterminal] at hsome
    cases hsome
  · rw [← Bool.not_eq_true]
    intro hactive
    rw [h.raised hactive hterminal] at hterminating
    cases hterminating

/-- The flags after a block that sets `terminal`. -/
theorem terminated (hwellFormed : WellFormed actions) (hterminal : r'.terminal.isSome = true)
    (hterminating : r'.terminating = false)
    (hended : r'.done = true ∧ r'.activeDone = true ∧ r'.currentLease = none)
    (hclosed : r'.feed.closed = false) (houtside : refusal.outside = false)
    (hsound : ∀ b ∈ actions, b.Sound r' refusal) : ControlInv r' actions refusal := by
  refine ⟨hwellFormed, hsound, ?_, ?_, fun _ => hterminal, fun _ => hterminating, ?_,
    fun _ => .inl hterminal, ?_, fun _ => hended⟩
  · intro _ hnone
    rw [hnone] at hterminal
    cases hterminal
  · intro htrue
    rw [houtside] at htrue
    cases htrue
  · intro htrue
    rw [hterminating] at htrue
    cases htrue
  · intro htrue
    rw [hclosed] at htrue
    cases htrue

theorem sound_releases (lease : Option LeaseID) :
    ∀ b ∈ releases lease, b.Sound r refusal :=
  List.forall_mem_map.mpr fun _ _ => trivial

theorem outside_of_not_active (h : refusal.active = false) : refusal.outside = false := by
  cases refusal <;> first | rfl | cases h

/-- The holder of `writeMu` executes an action. -/
theorem exec_go (h : ControlInv r (action :: rest) refusal)
    (hexec : Exec choice r action r' (.go actions)) :
    ControlInv r' (actions ++ rest) refusal := by
  have hwellFormed := hexec.wellFormed h.wellFormed
  have hhead := h.head
  cases hexec with
  | checkRelay _ hterminal hterminating | checkAppend _ hterminal hterminating =>
    obtain ⟨hopen, -⟩ := h.passed hterminal hterminating
    refine h.replace rfl rfl hwellFormed ?_ (by simp [Action.closing]) (by simp [hopen])
    simp [Action.Sound, hterminal]
  | checkClose hterminal hterminating =>
    obtain ⟨hopen, hactive⟩ := h.passed hterminal hterminating
    obtain rfl : rest = [] := h.wellFormed.1
    refine ⟨hwellFormed, ?_, fun _ _ => rfl, ?_, ?_, ?_, fun _ => .inr ?_, fun _ => .inr ?_, ?_, ?_⟩
    · simp [Action.Sound, hterminal, hactive]
    · exact fun _ => hterminal
    · exact fun hdeparted => absurd (h.departed hdeparted) (by simp [hterminal])
    · exact fun hsome => absurd hsome (by simp [hterminal])
    · simp [Action.closing]
    · simp [Action.closing]
    · exact fun hclosed => absurd hclosed (by simp [hopen])
    · exact fun hsome => absurd hsome (by simp [hterminal])
  | appendNil | mirror | release =>
    exact h.replace rfl rfl hwellFormed (by simp) (by simp [Action.closing]) (by simp)
  | enqueue =>
    exact h.replace rfl (DegradedFeed.enqueueSecondary_closed ..) hwellFormed (by simp)
      (by simp [Action.closing]) (by simp)
  | offer =>
    obtain ⟨hflags, hfeed⟩ := r.publishFirst_flags _
    exact h.replace hflags (by rw [hfeed]) hwellFormed (by simp) (by simp [Action.closing])
      (by simp)
  | broadcast =>
    have hopen := h.feed_open rfl
    refine h.replace rfl rfl hwellFormed ?_ (by simp [Action.closing]) (by simp [hopen])
    simp [Action.Sound]
  | activate =>
    have hopen := h.feed_open rfl
    refine h.replace rfl (DegradedFeed.activate_closed ..) hwellFormed ?_
      (by simp [Action.closing]) (by simp [hopen])
    simp [Action.Sound]
  | relay =>
    have hopen := h.feed_open rfl
    refine h.replace rfl rfl hwellFormed ?_ (by simp [Action.closing]) (by simp [hopen])
    simp [Action.Sound]
  | degradeAgain | degrade | buildDegraded | build | warnNil =>
    have hopen := h.feed_open rfl
    refine h.replace rfl rfl hwellFormed ?_ (by simp [Action.closing]) (by simp [hopen])
    simp only [Action.Sound] at hhead
    simp [Action.Sound, hhead]
  | appendOk hmutate | appendFail hmutate | closeOk hmutate | closeFail hmutate
  | warnOk hmutate | closeRefusedOk hmutate =>
    have hopen := h.feed_open rfl
    obtain ⟨hflags, hfeed⟩ := Runtime.mutate_flags hmutate
    refine h.replace hflags (by rw [hfeed]) hwellFormed ?_ (by simp [Action.closing])
      (by simp [hopen])
    simp only [Action.Sound] at hhead
    simp [Action.Sound, hhead]
  | finish | finishDegraded =>
    obtain rfl : rest = [] := h.wellFormed.1
    rw [List.append_nil] at hwellFormed ⊢
    refine terminated hwellFormed rfl rfl ⟨rfl, rfl, rfl⟩ (h.feed_open rfl)
      (outside_of_not_active hhead.2.2) ?_
    refine List.forall_mem_append.mpr ⟨sound_releases _, ?_⟩
    simp [Action.Sound, Runtime.setTerminal]
  | finishRefused =>
    obtain rfl : rest = [] := h.wellFormed.1
    obtain ⟨-, -, rfl⟩ := hhead
    refine terminated hwellFormed rfl rfl ⟨rfl, rfl, rfl⟩ (h.feed_open rfl) rfl ?_
    simp [Action.Sound, Runtime.setTerminal]
  | closeFeed =>
    have hterminal : r.terminal.isSome = true := hhead
    exact { h with
      wellFormed := hwellFormed
      sound := fun b hb => h.sound b (List.mem_cons_of_mem _ hb)
      closing := fun htrue => absurd (h.lowered hterminal) (by simp_all)
      canceled := fun _ => .inl hterminal
      closed := fun _ => ⟨hterminal, h.wellFormed.1⟩ }
  | cancel => exact h.wellFormed.1.elim

/-- `writeMu` is given back by a function that is not closing the stream. -/
theorem dropScript (h : ControlInv r script refusal)
    (hclosing : ∀ action ∈ script, action.closing = false) : ControlInv r [] refusal := by
  have hpending : ¬ ∃ action ∈ script, action.closing = true := by
    rintro ⟨action, haction, htrue⟩
    rw [hclosing action haction] at htrue
    cases htrue
  exact { h with
    wellFormed := trivial
    sound := fun _ hmem => absurd hmem List.not_mem_nil
    closing := fun htrue => (h.closing htrue).imp_right fun hex => absurd hex hpending
    canceled := fun htrue => (h.canceled htrue).imp_right fun hex => absurd hex hpending
    closed := fun htrue => ⟨(h.closed htrue).1, fun _ hmem => absurd hmem List.not_mem_nil⟩ }

/-- A refusal gives `writeMu` back without having closed the stream. -/
theorem abandon (h : ControlInv r (action :: rest) .inside) (hbefore : rest = [])
    (hflags : r'.flags = r.flags) (hfeed : r'.feed = r.feed) (hterminal : r.terminal = none)
    (hterminating : r.terminating = true) (hclosing : action.closing = false)
    (committed : List Item) : ControlInv r' [] (.rollingBack committed) := by
  have hterminal' : r'.terminal = none := (congrArg Flags.terminal hflags).trans hterminal
  have hterminating' : r'.terminating = true :=
    (congrArg Flags.terminating hflags).trans hterminating
  refine ⟨trivial, by simp, fun _ _ => hterminating', fun _ => hterminal', by simp [Refusal.departed],
    by simp [hterminal'], fun _ => .inl rfl, ?_, ?_, by simp [hterminal']⟩
  · intro hcanceled
    have hcanceled : r.canceled = true := (congrArg Flags.canceled hflags).symm.trans hcanceled
    rcases h.canceled hcanceled with hsome | ⟨b, hb, hbclosing⟩
    · rw [hterminal] at hsome
      cases hsome
    · rw [hbefore, List.mem_singleton] at hb
      rw [hb, hclosing] at hbclosing
      cases hbclosing
  · intro hclosed
    rw [hfeed] at hclosed
    have hsome := (h.closed hclosed).1
    rw [hterminal] at hsome
    cases hsome

/-- The holder of `writeMu` leaves. -/
theorem exec_leave {exit : Exit} (h : ControlInv r (action :: rest) refusal)
    (hexec : Exec choice r action r' (.leave exit)) : ControlInv r' [] (refusal.after exit) := by
  have hhead := h.head
  cases hexec with
  | refused | checkGuard =>
    obtain rfl : rest = [] := h.wellFormed.1
    exact h.dropScript (by simp [Action.closing])
  | warnFail hmutate | closeRefusedFail hmutate =>
    obtain ⟨hflags, hfeed⟩ := Runtime.mutate_flags hmutate
    obtain ⟨hterminal, hterminating, rfl⟩ := hhead
    exact h.abandon h.wellFormed.1 hflags hfeed hterminal hterminating rfl _
  | depart =>
    have hterminal : r.terminal.isSome = true := hhead
    have hlowered := h.lowered hterminal
    exact {
      wellFormed := trivial
      sound := fun _ hmem => absurd hmem List.not_mem_nil
      raised := fun hactive => by cases hactive
      outside := fun houtside => by cases houtside
      departed := fun _ => hterminal
      lowered := fun _ => hlowered
      closing := fun htrue => by rw [hlowered] at htrue; cases htrue
      canceled := fun _ => .inl hterminal
      closed := fun _ => ⟨hterminal, fun _ hmem => absurd hmem List.not_mem_nil⟩
      ended := h.ended }

/-- A function takes `writeMu`. -/
theorem lock (h : ControlInv r [] refusal) (call : Call) :
    ControlInv r [.check call] refusal :=
  { h with
    wellFormed := ⟨rfl, trivial⟩
    sound := by simp [Action.Sound]
    closing := fun htrue => (h.closing htrue).imp_right fun ⟨_, hmem, _⟩ =>
      absurd hmem List.not_mem_nil
    canceled := fun htrue => (h.canceled htrue).imp_right fun ⟨_, hmem, _⟩ =>
      absurd hmem List.not_mem_nil
    closed := fun htrue => ⟨(h.closed htrue).1, by simp [Action.quiet]⟩ }

/-- The producer gets another backend only before the end. -/
theorem reserve (h : ControlInv r script refusal) (hterminal : r.terminal = none)
    (lease : LeaseID) (target : String) :
    ControlInv { r with currentLease := some lease, currentBackend := target } script refusal :=
  { h with
    sound := fun b hb => (h.sound b hb).congr rfl rfl
    ended := fun hsome => absurd hsome (by simp [hterminal]) }

/-- No function is closing a stream on which a refusal starts. -/
theorem refuse (h : ControlInv r script refusal) (hterminal : r.terminal = none)
    (hterminating : r.terminating = false) (warnings : List BodyRecord) (record : FinalRecord) :
    ControlInv { r with terminating := true } script (.waiting warnings record) := by
  have hsound : ∀ action ∈ script,
      action.Sound { r with terminating := true } (.waiting warnings record) := by
    intro action haction
    have hbefore := h.sound action haction
    cases action <;> simp only [Action.Sound, hterminating] at hbefore ⊢ <;> simp_all
  have hpending : ¬ ∃ action ∈ script, action.closing = true := by
    rintro ⟨action, haction, hclosing⟩
    have hbefore := h.sound action haction
    cases action <;> simp only [Action.closing, Bool.false_eq_true] at hclosing <;>
      simp [Action.Sound, hterminating] at hbefore
  exact {
    wellFormed := h.wellFormed
    sound := hsound
    raised := fun _ _ => rfl
    outside := fun _ => hterminal
    departed := fun hdeparted => by cases hdeparted
    lowered := fun hsome => absurd hsome (by simp [hterminal])
    closing := fun _ => .inl rfl
    canceled := fun htrue => (h.canceled htrue).imp_right fun hex => absurd hex hpending
    closed := h.closed
    ended := h.ended }

/-- A refusal takes `writeMu`. -/
theorem refusalLock {warnings : List BodyRecord} {record : FinalRecord}
    (h : ControlInv r [] (.waiting warnings record)) :
    ControlInv r [.warn [] warnings record] .inside := by
  have hterminal := h.outside rfl
  have hterminating := h.raised rfl hterminal
  exact {
    wellFormed := ⟨rfl, trivial⟩
    sound := by simp [Action.Sound, hterminal, hterminating]
    raised := fun _ _ => hterminating
    outside := fun houtside => by cases houtside
    departed := fun hdeparted => by cases hdeparted
    lowered := h.lowered
    closing := fun _ => .inl rfl
    canceled := fun htrue => (h.canceled htrue).imp_right fun ⟨_, hmem, _⟩ =>
      absurd hmem List.not_mem_nil
    closed := fun htrue => absurd (h.closed htrue).1 (by simp [hterminal])
    ended := h.ended }

/-- A refusal rolls back. -/
theorem rollback {committed : List Item} (h : ControlInv r script (.rollingBack committed)) :
    ControlInv { r with terminating := false } script .idle := by
  have hterminal := h.outside rfl
  have hsound : ∀ action ∈ script, action.Sound { r with terminating := false } .idle := by
    intro action haction
    have hbefore := h.sound action haction
    cases action <;> simp_all [Action.Sound, Refusal.active]
  exact {
    wellFormed := h.wellFormed
    sound := hsound
    raised := fun hactive => by cases hactive
    outside := fun _ => hterminal
    departed := fun hdeparted => by cases hdeparted
    lowered := fun _ => rfl
    closing := fun htrue => by cases htrue
    canceled := h.canceled
    closed := h.closed
    ended := h.ended }

end ControlInv

/-! ## The invariant of the system -/

/-- What a refusal does after it has closed the stream. -/
def Action.trailing : Action → Bool
  | .cancel | .release _ | .offer _ => true
  | _ => false

/-- The rest of the runtime is not touched by it. -/
theorem Exec.trailing (h : Exec choice r action r' (.go [])) (htrailing : action.trailing = true) :
    r' = { r with
      canceled := r'.canceled, leases := r'.leases, firstOnce := r'.firstOnce
      firstEntry := r'.firstEntry } := by
  cases action with
  | cancel => cases h; rfl
  | release lease => cases h; rfl
  | offer entry =>
    cases h
    unfold Runtime.publishFirst
    split <;> rfl
  | _ => cases htrailing

/-- A refusal that has closed the stream goes on. -/
theorem ControlInv.trail {script rest : List Action}
    (h : ControlInv r script (.leaving (action :: rest))) (htrailing : action.trailing = true)
    (hexec : Exec choice r action r' (.go [])) : ControlInv r' script (.leaving rest) := by
  have hrest : ControlInv r script (.leaving rest) :=
    { h with
      sound := fun b hb => by
        have hsound := h.sound b hb
        cases b <;> simp_all [Action.Sound, Refusal.active]
      departed := fun _ => h.departed rfl }
  cases action with
  | cancel =>
    cases hexec
    exact { hrest with
      sound := hrest.sound
      canceled := fun _ => .inl (hrest.departed rfl) }
  | release lease =>
    cases hexec
    exact hrest.congr rfl rfl
  | offer entry =>
    cases hexec
    obtain ⟨hflags, hfeed⟩ := r.publishFirst_flags entry
    exact hrest.congr hflags (by rw [hfeed])
  | _ => cases htrailing

/-- The invariant of the flags in a system. -/
structure System.Control (s : System) : Prop where
  inv : ControlInv s.runtime s.script s.refusal
  epilogue : ∀ epilogue, s.refusal = .leaving epilogue →
    ∀ action ∈ epilogue, action.trailing = true

theorem Reader.step_flags {reader reader' : Reader} {event : ReaderEvent}
    (h : reader.step r event = some (r', reader')) :
    r'.flags = r.flags ∧ r'.feed.closed = r.feed.closed := by
  obtain ⟨hfeed, hrest⟩ := ReadersOnly.step h
  refine ⟨?_, hfeed.2.2.2⟩
  rw [hrest]
  rfl

/-- The exit of a function that leaves `writeMu` and what the refusal does next. -/
theorem Exec.epilogue {exit : Exit} (h : Exec choice r action r' (.leave exit))
    {refusal : Refusal} {epilogue : List Action}
    (hrefusal : refusal.after exit = .leaving epilogue) :
    refusal = .leaving epilogue ∨ ∀ action ∈ epilogue, action.trailing = true := by
  cases h with
  | refused | checkGuard => exact .inl hrefusal
  | warnFail | closeRefusedFail => cases hrefusal
  | depart =>
    cases hrefusal
    exact .inr (List.forall_mem_cons.mpr ⟨rfl, List.forall_mem_append.mpr
      ⟨List.forall_mem_map.mpr fun _ _ => rfl, List.forall_mem_map.mpr fun _ _ => rfl⟩⟩)

/-- Every step keeps the invariant of the flags. -/
theorem System.Control.step {s s' : System} {event : StreamEvent} (h : s.Control)
    (hstep : Step s event s') : s'.Control := by
  have hinv := h.inv
  cases hstep with
  | lock hwriter =>
    rw [System.script_none hwriter] at hinv
    exact ⟨hinv.lock _, h.epilogue⟩
  | unlock hwriter =>
    rw [System.script_some hwriter] at hinv
    exact ⟨hinv, h.epilogue⟩
  | go hwriter hexec =>
    rw [System.script_some hwriter] at hinv
    exact ⟨hinv.exec_go hexec, h.epilogue⟩
  | leave hwriter hexec =>
    rw [System.script_some hwriter] at hinv
    refine ⟨hinv.exec_leave hexec, fun epilogue hrefusal => ?_⟩
    rcases hexec.epilogue hrefusal with hsame | hall
    · exact h.epilogue epilogue hsame
    · exact hall
  | refuse hterminal hterminating =>
    exact ⟨hinv.refuse hterminal hterminating _ _, fun _ hrefusal => by cases hrefusal⟩
  | refusalLock hwriter hrefusal =>
    rw [System.script_none hwriter, hrefusal] at hinv
    exact ⟨hinv.refusalLock, fun _ hrefusal => by cases hrefusal⟩
  | rollback hrefusal =>
    rw [hrefusal] at hinv
    exact ⟨hinv.rollback, fun _ hrefusal => by cases hrefusal⟩
  | refusalStep hrefusal hexec =>
    rw [hrefusal] at hinv
    have hall := h.epilogue _ hrefusal
    refine ⟨hinv.trail (hall _ List.mem_cons_self) hexec, fun epilogue hleaving => ?_⟩
    cases hleaving
    exact fun action haction => hall action (List.mem_cons_of_mem _ haction)
  | markClosed => exact h
  | markDegraded | claim | leases | resume => exact ⟨hinv.congr rfl rfl, h.epilogue⟩
  | reserve hterminal => exact ⟨hinv.reserve hterminal _ _, h.epilogue⟩
  | reader hreader hstep =>
    obtain ⟨hflags, hclosed⟩ := Reader.step_flags hstep
    exact ⟨hinv.congr hflags hclosed, h.epilogue⟩

theorem System.Control.start (id : StreamID) (metadata : Meta) (lease : LeaseID)
    (maxLagBytes : Int) (verbose : Bool) :
    (System.start id metadata lease maxLagBytes verbose).Control := by
  refine ⟨⟨trivial, ?_, ?_, ?_, ?_, ?_, ?_, ?_, ?_, ?_⟩, ?_⟩
  all_goals simp [System.start, newRuntime, newDegradedFeed, System.script, Refusal.active,
    Refusal.departed]

end Streamweld.Proxy
