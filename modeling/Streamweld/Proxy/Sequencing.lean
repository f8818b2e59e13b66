import Streamweld.Proxy.Control

/-!
# No sequence after a gap

Once a stream is degraded, its journal must not get another entry.  All writers but
one look at `r.degraded` before they call the journal; the one that does not is
`closeExternalMigrationRefusal`.  `state_after_gap` is a run in which a refusal commits
a warning behind the boundary, and `no_sequence_after_gap` says that nothing else can
go wrong: in every run in which a refusal takes `writeMu` only while the stream is not
degraded, no journal call succeeds afterwards.

`LateInv` is the invariant of that result.  `TrackInv` relates `r.lastSeq` and the entries
that are published with the journal; it needs that a call which reports an error has not
committed, and `mirror_tracks_journal` is what follows from it.  `Runtime.Bounded` adds the
boundary of the feed.
-/

namespace Streamweld.Proxy

open Streamweld.Journal Streamweld.Lib

variable {f : LogStream → LogStream} {outcome : Outcome} {r r' : Runtime} {s s' : System}
  {event : StreamEvent} {action : Action} {choice : Choice} {actions rest script : List Action}
  {next : Next}

/-- A refusal takes `writeMu` only while the stream is not degraded. -/
def RefusalUndegraded (s : System) : StreamEvent → Prop
  | .refusalLock => s.runtime.degraded = false
  | _ => True

instance (s : System) (event : StreamEvent) : Decidable (RefusalUndegraded s event) := by
  cases event <;> unfold RefusalUndegraded <;> infer_instance

/-- A journal call that reports an error has not committed. -/
def HonestJournal (_ : System) : StreamEvent → Prop
  | .write choice => choice.outcome ≠ .failCommitted
  | _ => True

instance (s : System) (event : StreamEvent) : Decidable (HonestJournal s event) := by
  cases event <;> unfold HonestJournal <;> infer_instance

/-! ## No late commits -/

/-- Whether the stream may be degraded while an action is pending. -/
def Action.Timely (r : Runtime) : Action → Prop
  | .append _ | .close _ | .finish _ | .warn _ _ _ | .closeRefused _ _ | .finishRefused _ _
  | .mirror _ => r.degraded = false
  | .activate _ _ => r.degraded = true
  | .broadcast frame | .enqueue _ frame => frame.entry.isSome = true → r.degraded = false
  | _ => True

/-- No journal call has succeeded on the degraded stream, and none is pending. -/
structure LateInv (r : Runtime) (script : List Action) : Prop where
  none_late : r.lateCommits = 0
  timely : ∀ action ∈ script, action.Timely r

theorem Action.Timely.congr (hdegraded : r'.degraded = r.degraded) (h : action.Timely r) :
    action.Timely r' := by
  cases action <;> simp only [Action.Timely, hdegraded] at h ⊢ <;> exact h

/-- The frames that a degraded stream relays have no sequence. -/
theorem timely_local {frames : List LocalFrame} {sent : List DegradedFrame}
    (hsent : sent ⊆ frames.map Subtype.val) : ∀ b ∈ sent.map Action.broadcast, b.Timely r := by
  intro b hb
  obtain ⟨frame, hframe, rfl⟩ := List.mem_map.mp hb
  obtain ⟨⟨frame, hnone⟩, -, rfl⟩ := List.mem_map.mp (hsent hframe)
  intro hsome
  rw [hnone] at hsome
  cases hsome

theorem DegradedFeed.append_subset (feed : DegradedFeed) (frames : List DegradedFrame) :
    feed.append frames ⊆ frames := by
  unfold append
  split
  · exact fun _ h => h
  · exact List.nil_subset _

theorem DegradedFeed.activate_subset (feed : DegradedFeed) (boundary : Nat)
    (frames : List DegradedFrame) : (feed.activate boundary frames).2 ⊆ frames := by
  unfold activate
  split
  · exact List.nil_subset _
  · split <;> exact fun _ h => h

theorem timely_releases {lease : Option LeaseID} {actions : List Action}
    (h : ∀ b ∈ actions, b.Timely r) : ∀ b ∈ releases lease ++ actions, b.Timely r :=
  List.forall_mem_append.mpr ⟨List.forall_mem_map.mpr fun _ _ => trivial, h⟩

/-- The boundary of an activated feed. -/
theorem DegradedFeed.activate_boundary (feed : DegradedFeed) (boundary : Nat)
    (frames : List DegradedFrame) (h : (feed.activate boundary frames).1.active = true) :
    (feed.active = true ∧ (feed.activate boundary frames).1.boundary = feed.boundary) ∨
      (feed.activate boundary frames).1.boundary = boundary := by
  unfold activate at h ⊢
  by_cases hclosed : feed.closed = true
  · rw [if_pos hclosed] at h ⊢
    exact .inl ⟨h, rfl⟩
  · rw [if_neg hclosed] at h ⊢
    by_cases hactive : feed.active = true
    · rw [if_pos hactive]
      exact .inl ⟨hactive, rfl⟩
    · rw [if_neg hactive]
      exact .inr rfl

namespace LateInv

theorem congr (h : LateInv r script) (hlate : r'.lateCommits = r.lateCommits)
    (hdegraded : r'.degraded = r.degraded) : LateInv r' script :=
  ⟨hlate.trans h.none_late, fun b hb => (h.timely b hb).congr hdegraded⟩

/-- An action that does not degrade the stream. -/
theorem replace (h : LateInv r (action :: rest)) (hlate : r'.lateCommits = r.lateCommits)
    (hdegraded : r'.degraded = r.degraded) (hactions : ∀ b ∈ actions, b.Timely r) :
    LateInv r' (actions ++ rest) := by
  refine ⟨hlate.trans h.none_late, fun b hb => Action.Timely.congr hdegraded ?_⟩
  rcases List.mem_append.mp hb with hnew | hrest
  · exact hactions b hnew
  · exact h.timely b (List.mem_cons_of_mem _ hrest)

/-- A journal call on a stream that is not degraded is not late. -/
theorem mutate {ok : Bool} (hdegraded : r.degraded = false)
    (h : r.mutate f outcome = some (r', ok)) :
    r'.lateCommits = r.lateCommits ∧ r'.degraded = r.degraded := by
  rcases Runtime.mutate_spec h with ⟨-, -, -, rfl⟩ | ⟨-, -, rfl⟩ | ⟨-, -, -, rfl⟩
  · simp [hdegraded]
  · exact ⟨rfl, rfl⟩
  · exact ⟨rfl, rfl⟩

theorem exec_go (hwellFormed : WellFormed (action :: rest)) (h : LateInv r (action :: rest))
    (hexec : Exec choice r action r' (.go actions)) : LateInv r' (actions ++ rest) := by
  have hhead := h.timely action List.mem_cons_self
  cases hexec with
  | checkRelay | checkClose | appendNil | mirror | enqueue | release | degradeAgain
  | buildDegraded | closeFeed | cancel => exact h.replace rfl rfl (by simp [Action.Timely])
  | checkAppend _ _ _ hdegraded | build hdegraded =>
    exact h.replace rfl rfl (by simp [Action.Timely, hdegraded])
  | appendOk hmutate | warnOk hmutate | closeOk hmutate | closeRefusedOk hmutate
  | appendFail hmutate | closeFail hmutate =>
    have hdegraded : r.degraded = false := hhead
    obtain ⟨hlate, hsame⟩ := mutate hdegraded hmutate
    exact h.replace hlate hsame (by simp [Action.Timely, hdegraded])
  | broadcast =>
    refine h.replace rfl rfl fun b hb => ?_
    obtain ⟨reader, -, rfl⟩ := List.mem_map.mp hb
    simpa [Action.Timely] using hhead
  | offer =>
    refine h.replace ?_ ?_ (by simp) <;> (unfold Runtime.publishFirst; split <;> rfl)
  | degrade =>
    refine ⟨h.none_late, ?_⟩
    rcases hwellFormed.1 with rfl | ⟨record, rfl⟩ <;> simp [Action.Timely]
  | activate => exact h.replace rfl rfl (timely_local (DegradedFeed.activate_subset ..))
  | relay => exact h.replace rfl rfl (timely_local (DegradedFeed.append_subset ..))
  | finish =>
    have hdegraded : r.degraded = false := hhead
    refine h.replace rfl rfl (timely_releases ?_)
    simp [Action.Timely, hdegraded]
  | finishDegraded => exact h.replace rfl rfl (timely_releases (by simp [Action.Timely]))
  | warnNil => exact h.replace rfl rfl (by simpa [Action.Timely] using hhead)
  | finishRefused =>
    have hdegraded : r.degraded = false := hhead
    exact h.replace rfl rfl (by simp [Action.Timely, hdegraded])

theorem exec_leave {exit : Exit} (h : LateInv r (action :: rest))
    (hexec : Exec choice r action r' (.leave exit)) : LateInv r' [] := by
  have hhead := h.timely action List.mem_cons_self
  have hempty : LateInv r [] := ⟨h.none_late, by simp⟩
  cases hexec with
  | refused | checkGuard | depart => exact hempty
  | warnFail hmutate | closeRefusedFail hmutate =>
    obtain ⟨hlate, hsame⟩ := mutate hhead hmutate
    exact hempty.congr hlate hsame

/-- Every step keeps the invariant, when a refusal takes `writeMu` only while the stream
is not degraded. -/
theorem step (hcontrol : s.Control) (h : LateInv s.runtime s.script)
    (hgood : RefusalUndegraded s event) (hstep : Step s event s') :
    LateInv s'.runtime s'.script := by
  have hwellFormed := hcontrol.inv.wellFormed
  cases hstep with
  | lock => exact ⟨h.none_late, by simp [System.script, Action.Timely]⟩
  | unlock => exact ⟨h.none_late, by simp [System.script]⟩
  | go hwriter hexec =>
    rw [System.script_some hwriter] at h hwellFormed
    exact h.exec_go hwellFormed hexec
  | leave hwriter hexec =>
    rw [System.script_some hwriter] at h
    exact h.exec_leave hexec
  | refusalLock =>
    have hdegraded : s.runtime.degraded = false := hgood
    exact ⟨h.none_late, by simp [System.script, Action.Timely, hdegraded]⟩
  | refusalStep hrefusal hexec =>
    have hrest := hexec.trailing (hcontrol.epilogue _ hrefusal _ List.mem_cons_self)
    exact h.congr (by rw [hrest]) (by rw [hrest])
  | refuse | rollback | markDegraded | claim | leases | reserve | resume =>
    exact h.congr rfl rfl
  | markClosed => exact h
  | reader hreader hstep =>
    obtain ⟨-, hrest⟩ := ReadersOnly.step hstep
    exact h.congr (by rw [hrest]) (by rw [hrest])

end LateInv

/-! ## The mirror of the journal -/

/-- The action brings `r.lastSeq` up to date. -/
def Action.mirrors : Action → Nat
  | .mirror _ | .finish _ | .finishRefused _ _ => 1
  | _ => 0

def mirrors (script : List Action) : Nat := (script.map Action.mirrors).sum

@[simp] theorem mirrors_nil : mirrors [] = 0 := rfl

@[simp] theorem mirrors_cons (action : Action) (script : List Action) :
    mirrors (action :: script) = action.mirrors + mirrors script := rfl

@[simp] theorem mirrors_append (script script' : List Action) :
    mirrors (script ++ script') = mirrors script + mirrors script' := by
  simp [mirrors]

theorem mirrors_eq_zero {script : List Action} (h : ∀ action ∈ script, action.mirrors = 0) :
    mirrors script = 0 := by
  induction script with
  | nil => rfl
  | cons action script ih =>
    rw [mirrors_cons, h action List.mem_cons_self,
      ih fun other hother => h other (List.mem_cons_of_mem _ hother)]

/-- What a pending action carries is the last entry of the journal. -/
def Action.Assigned (journal : LogStream) : Action → Prop
  | .mirror seq => seq = journal.lastSeq
  | .activate boundary _ => boundary = journal.lastSeq
  | .broadcast frame | .enqueue _ frame =>
    ∀ entry, frame.entry = some entry → journal.items.getLast? = some entry
  | .finish record | .finishRefused _ record =>
    journal.items.getLast? = some (record.item journal.lastSeq)
  | _ => True

/-- How `r.lastSeq` and what is about to be published follow the journal. -/
structure TrackInv (r : Runtime) (script : List Action) : Prop where
  mirror : r.lastSeq + mirrors script = r.journal.lastSeq
  single : mirrors script ≤ 1
  assigned : ∀ action ∈ script, action.Assigned r.journal

theorem assigned_local {journal : LogStream} {frames : List LocalFrame}
    {sent : List DegradedFrame} (hsent : sent ⊆ frames.map Subtype.val) :
    ∀ b ∈ sent.map Action.broadcast, b.Assigned journal := by
  intro b hb
  obtain ⟨frame, hframe, rfl⟩ := List.mem_map.mp hb
  obtain ⟨⟨frame, hnone⟩, -, rfl⟩ := List.mem_map.mp (hsent hframe)
  intro entry hentry
  rw [hnone] at hentry
  cases hentry

theorem assigned_releases {journal : LogStream} {lease : Option LeaseID} {actions : List Action}
    (h : ∀ b ∈ actions, b.Assigned journal) : ∀ b ∈ releases lease ++ actions, b.Assigned journal :=
  List.forall_mem_append.mpr ⟨List.forall_mem_map.mpr fun _ _ => trivial, h⟩

@[simp] theorem mirrors_broadcast (frames : List DegradedFrame) :
    mirrors (frames.map .broadcast) = 0 :=
  mirrors_eq_zero (List.forall_mem_map.mpr fun _ _ => rfl)

@[simp] theorem mirrors_enqueue (order : List Nat) (frame : DegradedFrame) :
    mirrors (order.map fun reader => .enqueue reader frame) = 0 :=
  mirrors_eq_zero (List.forall_mem_map.mpr fun _ _ => rfl)

@[simp] theorem mirrors_releases (lease : Option LeaseID) : mirrors (releases lease) = 0 :=
  mirrors_eq_zero (List.forall_mem_map.mpr fun _ _ => rfl)

namespace TrackInv

/-- An action that leaves the journal alone. -/
theorem replace (h : TrackInv r (action :: rest)) (hjournal : r'.journal = r.journal)
    (hmirror : r'.lastSeq + mirrors actions = r.lastSeq + action.mirrors)
    (hsingle : mirrors actions ≤ action.mirrors)
    (hassigned : ∀ b ∈ actions, b.Assigned r.journal) : TrackInv r' (actions ++ rest) := by
  have hbefore := h.mirror
  have hone := h.single
  rw [mirrors_cons] at hbefore hone
  refine ⟨?_, ?_, fun b hb => ?_⟩
  · rw [mirrors_append, hjournal]
    omega
  · rw [mirrors_append]
    omega
  · rw [hjournal]
    rcases List.mem_append.mp hb with hnew | hrest
    · exact hassigned b hnew
    · exact h.assigned b (List.mem_cons_of_mem _ hrest)

/-- A successful journal call, which is the last action of its script. -/
theorem commit {kind : EntryKind} {payload : RawMessage} (h : TrackInv r [action])
    (haction : action.mirrors = 0) (hf : r.journal.ending = .live →
      (f r.journal).records = r.journal.records ++ [(kind, payload)])
    (hmutate : r.mutate f outcome = some (r', true)) (hactions : mirrors actions = 1)
    (hassigned : r'.journal.items.getLast? = some ⟨r'.journal.lastSeq, kind, payload⟩ →
      ∀ b ∈ actions, b.Assigned r'.journal) : TrackInv r' actions := by
  rcases Runtime.mutate_spec hmutate with ⟨-, -, hlive, rfl⟩ | ⟨hfalse, -⟩ | ⟨hfalse, -⟩
  · have hbefore := h.mirror
    rw [mirrors_cons, haction, mirrors_nil] at hbefore
    have hrecords := hf hlive
    have hlast := LogStream.lastSeq_concat hrecords
    refine ⟨?_, Nat.le_of_eq hactions, hassigned ?_⟩
    · rw [hactions]
      exact (congrArg (· + 1) hbefore).trans hlast.symm
    · rw [LogStream.items_concat hrecords, hlast, List.getLast?_concat]
  · cases hfalse
  · cases hfalse

/-- A call that reports an error has changed nothing. -/
theorem honest (hhonest : choice.outcome ≠ .failCommitted)
    (h : r.mutate f choice.outcome = some (r', false)) : r' = r := by
  rcases Runtime.mutate_spec h with ⟨hfalse, -⟩ | ⟨-, -, rfl⟩ | ⟨-, hhidden, -⟩
  · cases hfalse
  · rfl
  · exact absurd hhidden hhonest

theorem exec_go (hwellFormed : WellFormed (action :: rest)) (h : TrackInv r (action :: rest))
    (hhonest : choice.outcome ≠ .failCommitted)
    (hexec : Exec choice r action r' (.go actions)) : TrackInv r' (actions ++ rest) := by
  have hassigned := h.assigned action List.mem_cons_self
  cases hexec with
  | checkRelay | checkAppend | checkClose | appendNil | release | degradeAgain | buildDegraded
  | build | closeFeed | cancel | warnNil | enqueue =>
    exact h.replace rfl rfl (Nat.le_refl _) (by simp [Action.Assigned])
  | appendOk hmutate | warnOk hmutate =>
    obtain rfl : rest = [] := hwellFormed.1
    exact h.commit rfl (fun hlive => LogStream.records_push _ hlive _) hmutate rfl
      (by simp +contextual [Action.Assigned, shadowFrame, BodyRecord.item])
  | closeOk hmutate | closeRefusedOk hmutate =>
    obtain rfl : rest = [] := hwellFormed.1
    exact h.commit rfl (fun hlive => LogStream.records_close _ hlive _) hmutate rfl
      (by simp [Action.Assigned, FinalRecord.item])
  | appendFail hmutate | closeFail hmutate =>
    obtain rfl := honest hhonest hmutate
    exact h.replace rfl rfl (Nat.le_refl _) (by simp [Action.Assigned])
  | @mirror seq =>
    have hseq : seq = r.journal.lastSeq := hassigned
    have hmirror := h.mirror
    have hsingle := h.single
    simp only [mirrors_cons, Action.mirrors] at hmirror hsingle
    refine h.replace rfl ?_ (Nat.zero_le _) (by simp)
    simp only [mirrors_nil, Action.mirrors]
    omega
  | broadcast =>
    refine h.replace rfl (by simp [Action.mirrors]) (by simp) ?_
    intro b hb
    obtain ⟨reader, -, rfl⟩ := List.mem_map.mp hb
    simpa [Action.Assigned] using hassigned
  | offer =>
    unfold Runtime.publishFirst
    split <;> exact h.replace rfl rfl (Nat.le_refl _) (by simp)
  | degrade =>
    have hmirror := h.mirror
    have hnone : mirrors rest = 0 := by
      rcases hwellFormed.1 with rfl | ⟨record, rfl⟩ <;> rfl
    simp only [mirrors_cons, hnone, Action.mirrors] at hmirror
    refine h.replace rfl rfl (Nat.le_refl _) ?_
    simpa [Action.Assigned] using hmirror
  | activate =>
    exact h.replace rfl (by simp [Action.mirrors]) (by simp)
      (assigned_local (DegradedFeed.activate_subset ..))
  | relay =>
    exact h.replace rfl (by simp [Action.mirrors]) (by simp)
      (assigned_local (DegradedFeed.append_subset ..))
  | finish =>
    obtain rfl : rest = [] := hwellFormed.1
    have hmirror : r.lastSeq + 1 = r.journal.lastSeq := h.mirror
    refine h.replace rfl (by simp [Action.mirrors]) (by simp [Action.mirrors])
      (assigned_releases ?_)
    rw [hmirror]
    simpa [Action.Assigned, shadowFrame] using hassigned
  | finishDegraded =>
    exact h.replace rfl (by simp [Action.mirrors, Runtime.setTerminal]) (by simp [Action.mirrors])
      (assigned_releases (by simp [Action.Assigned]))
  | finishRefused =>
    obtain rfl : rest = [] := hwellFormed.1
    have hmirror : r.lastSeq + 1 = r.journal.lastSeq := h.mirror
    refine h.replace rfl (by simp [Action.mirrors]) (by simp [Action.mirrors]) ?_
    rw [hmirror]
    simpa [Action.Assigned, shadowFrame] using hassigned

theorem congr (h : TrackInv r script) (hjournal : r'.journal.records = r.journal.records)
    (hlastSeq : r'.lastSeq = r.lastSeq) : TrackInv r' script := by
  have hlast : r'.journal.lastSeq = r.journal.lastSeq := congrArg List.length hjournal
  have hitems : r'.journal.items = r.journal.items := by
    rw [LogStream.items, hjournal, LogStream.items]
  refine ⟨?_, h.single, fun action haction => ?_⟩
  · rw [hlast, hlastSeq]
    exact h.mirror
  · have hassigned := h.assigned action haction
    cases action <;> simp only [Action.Assigned, hlast, hitems] at hassigned ⊢ <;> exact hassigned

/-- `writeMu` is free, and the mirror is up to date. -/
theorem dropScript (h : TrackInv r script) (hscript : mirrors script = 0) : TrackInv r [] :=
  ⟨by simpa [hscript] using h.mirror, Nat.zero_le _, by simp⟩

theorem exec_leave {exit : Exit} (hwellFormed : WellFormed (action :: rest))
    (h : TrackInv r (action :: rest)) (hhonest : choice.outcome ≠ .failCommitted)
    (hexec : Exec choice r action r' (.leave exit)) : TrackInv r' [] := by
  cases hexec with
  | refused | checkGuard | depart =>
    obtain rfl : rest = [] := hwellFormed.1
    exact h.dropScript rfl
  | warnFail hmutate | closeRefusedFail hmutate =>
    obtain rfl : rest = [] := hwellFormed.1
    obtain rfl := honest hhonest hmutate
    exact h.dropScript rfl

/-- Every step keeps the mirror, when failed calls have not committed. -/
theorem step (hcontrol : s.Control) (h : TrackInv s.runtime s.script)
    (hhonest : HonestJournal s event) (hstep : Step s event s') :
    TrackInv s'.runtime s'.script := by
  have hwellFormed := hcontrol.inv.wellFormed
  cases hstep with
  | lock hwriter | refusalLock hwriter =>
    rw [System.script_none hwriter] at h
    exact ⟨h.mirror, h.single, by simp [System.script, Action.Assigned]⟩
  | unlock hwriter =>
    rw [System.script_some hwriter] at h
    exact h
  | go hwriter hexec =>
    rw [System.script_some hwriter] at h hwellFormed
    exact h.exec_go hwellFormed hhonest hexec
  | leave hwriter hexec =>
    rw [System.script_some hwriter] at h hwellFormed
    exact h.exec_leave hwellFormed hhonest hexec
  | refusalStep hrefusal hexec =>
    have hrest := hexec.trailing (hcontrol.epilogue _ hrefusal _ List.mem_cons_self)
    exact h.congr (by rw [hrest]) (by rw [hrest])
  | refuse | rollback | claim | leases | reserve | resume => exact h.congr rfl rfl
  | markClosed => exact h
  | markDegraded hdegraded hending => exact h.congr (LogStream.records_degrade _ hending) rfl
  | reader hreader hstep =>
    obtain ⟨-, hrest⟩ := ReadersOnly.step hstep
    exact h.congr (by rw [hrest]) (by rw [hrest])

end TrackInv

/-- The boundary of an active feed is the last sequence of the journal. -/
def Runtime.Bounded (r : Runtime) : Prop :=
  r.feed.active = true → r.degraded = true ∧ r.feed.boundary = r.journal.lastSeq

namespace Runtime.Bounded

/-- A journal call that succeeds finds the feed inactive. -/
theorem commit (h : r.Bounded) (hdegraded : r.degraded = false)
    (hmutate : r.mutate f outcome = some (r', true)) : r'.Bounded := by
  rcases Runtime.mutate_spec hmutate with ⟨-, -, -, rfl⟩ | ⟨hfalse, -⟩ | ⟨hfalse, -⟩
  · intro hactive
    have htrue := (h hactive).1
    rw [hdegraded] at htrue
    cases htrue
  · cases hfalse
  · cases hfalse

theorem exec (h : r.Bounded) (hlate : LateInv r (action :: rest))
    (htrack : TrackInv r (action :: rest)) (hhonest : choice.outcome ≠ .failCommitted)
    (hexec : Exec choice r action r' next) : r'.Bounded := by
  have htimely := hlate.timely action List.mem_cons_self
  have hassigned := htrack.assigned action List.mem_cons_self
  cases hexec with
  | appendOk hmutate | warnOk hmutate | closeOk hmutate | closeRefusedOk hmutate =>
    exact h.commit htimely hmutate
  | appendFail hmutate | warnFail hmutate | closeFail hmutate | closeRefusedFail hmutate =>
    rwa [TrackInv.honest hhonest hmutate]
  | enqueue =>
    unfold Runtime.Bounded
    rw [DegradedFeed.enqueueSecondary_active, DegradedFeed.enqueueSecondary_boundary]
    exact h
  | offer =>
    unfold Runtime.publishFirst
    split <;> exact h
  | degrade => exact fun hactive => ⟨rfl, (h hactive).2⟩
  | @activate boundary frames =>
    intro hactive
    refine ⟨htimely, ?_⟩
    rcases r.feed.activate_boundary boundary _ hactive with ⟨hbefore, hsame⟩ | hnew
    · exact hsame.trans (h hbefore).2
    · exact hnew.trans hassigned
  | _ => exact h

theorem step (h : s.runtime.Bounded) (hcontrol : s.Control) (hlate : LateInv s.runtime s.script)
    (htrack : TrackInv s.runtime s.script) (hhonest : HonestJournal s event)
    (hstep : Step s event s') : s'.runtime.Bounded := by
  cases hstep with
  | go hwriter hexec | leave hwriter hexec =>
    rw [System.script_some hwriter] at hlate htrack
    exact h.exec hlate htrack hhonest hexec
  | refusalStep hrefusal hexec =>
    have hrest := hexec.trailing (hcontrol.epilogue _ hrefusal _ List.mem_cons_self)
    unfold Runtime.Bounded
    rw [hrest]
    exact h
  | markDegraded hdegraded hending =>
    intro hactive
    exact ⟨(h hactive).1,
      (h hactive).2.trans (congrArg List.length (LogStream.records_degrade _ hending)).symm⟩
  | reader hreader hstep =>
    obtain ⟨hfeed, hrest⟩ := ReadersOnly.step hstep
    unfold Runtime.Bounded
    rw [hfeed.2.1, hfeed.2.2.1, hrest]
    exact h
  | _ => exact h

end Runtime.Bounded

/-! ## Runs -/

/-- The invariant of a stream whose refusals keep out of the degraded stream. -/
structure System.Timely (s : System) : Prop where
  control : s.Control
  late : LateInv s.runtime s.script

/-- The invariant of a stream whose failed calls have not committed. -/
structure System.Tracked (s : System) : Prop where
  control : s.Control
  track : TrackInv s.runtime s.script

/-- The invariant of a stream that is both. -/
structure System.Aligned (s : System) : Prop where
  timely : s.Timely
  track : TrackInv s.runtime s.script
  bounded : s.runtime.Bounded

namespace System

theorem Timely.step (h : s.Timely) (hrefusal : RefusalUndegraded s event)
    (hstep : Step s event s') : s'.Timely :=
  ⟨h.control.step hstep, h.late.step h.control hrefusal hstep⟩

theorem Tracked.step (h : s.Tracked) (hhonest : HonestJournal s event)
    (hstep : Step s event s') : s'.Tracked :=
  ⟨h.control.step hstep, h.track.step h.control hhonest hstep⟩

theorem Aligned.step (h : s.Aligned) (hrefusal : RefusalUndegraded s event)
    (hhonest : HonestJournal s event) (hstep : Step s event s') : s'.Aligned :=
  ⟨h.timely.step hrefusal hstep, h.track.step h.timely.control hhonest hstep,
    h.bounded.step h.timely.control h.timely.late h.track hhonest hstep⟩

/-- On a degraded stream the mirror is up to date. -/
theorem Aligned.lastSeq (h : s.Aligned) (hdegraded : s.runtime.degraded = true) :
    s.runtime.lastSeq = s.runtime.journal.lastSeq := by
  have hnone : mirrors s.script = 0 := by
    refine mirrors_eq_zero fun action haction => ?_
    have htimely := h.timely.late.timely action haction
    cases action <;> simp_all [Action.Timely, Action.mirrors]
  rw [← h.track.mirror, hnone, Nat.add_zero]

section Start

variable (id : StreamID) (metadata : Meta) (lease : LeaseID) (maxLagBytes : Int) (verbose : Bool)

theorem Timely.start : (System.start id metadata lease maxLagBytes verbose).Timely :=
  ⟨Control.start .., rfl, by simp [System.start, System.script]⟩

theorem Tracked.start : (System.start id metadata lease maxLagBytes verbose).Tracked :=
  ⟨Control.start .., rfl, Nat.zero_le _, by simp [System.start, System.script]⟩

theorem Aligned.start : (System.start id metadata lease maxLagBytes verbose).Aligned :=
  ⟨Timely.start .., (Tracked.start ..).track, fun hactive => by cases hactive⟩

end Start

end System

/-! ## The result -/

/-- In every run in which a refusal takes `writeMu` only while the stream is not
degraded, no journal call succeeds on the degraded stream.  When moreover no failed call
has committed, the last committed sequence stays the one at which the stream was
degraded, which is the boundary of its feed. -/
theorem no_sequence_after_gap (id : StreamID) (metadata : Meta) (lease : LeaseID)
    (maxLagBytes : Int) (verbose : Bool) (events : List StreamEvent) (s : System)
    (hrefusal : Along System.step RefusalUndegraded
      (System.start id metadata lease maxLagBytes verbose) events)
    (hrun : run System.step (System.start id metadata lease maxLagBytes verbose) events = some s) :
    s.runtime.lateCommits = 0 ∧
      (Along System.step HonestJournal
          (System.start id metadata lease maxLagBytes verbose) events →
        s.runtime.degraded = true →
          s.runtime.journal.lastSeq = s.runtime.lastSeq ∧
            (s.runtime.feed.active = true →
              s.runtime.journal.lastSeq = s.runtime.feed.boundary)) := by
  constructor
  · have htimely : s.Timely :=
      inv_of_run_along (fun _ _ _ h hgood hstep => h.step hgood (System.step_spec hstep))
        (System.Timely.start id metadata lease maxLagBytes verbose) hrefusal hrun
    exact htimely.late.none_late
  · intro hhonest hdegraded
    have haligned : s.Aligned :=
      inv_of_run_along (fun _ _ _ h hgood hstep => h.step hgood.1 hgood.2 (System.step_spec hstep))
        (System.Aligned.start id metadata lease maxLagBytes verbose) (hrefusal.and hhonest) hrun
    exact ⟨(haligned.lastSeq hdegraded).symm, fun hactive => (haligned.bounded hactive).2.symm⟩

/-- The journal refuses a chunk, and the stream is degraded. -/
def degradedRun : List StreamEvent :=
  [.lock .producer (.appendChunk sampleEvent), .write {}, .write { outcome := .fail },
    .write {}, .write {}, .write {}, .write {}, .write {}]

/-- A refusal fails and is rolled back, then the stream is degraded, and a further chunk is
relayed. -/
def refusedRun : List StreamEvent :=
  [.refuse "b" [sampleWarning] sampleRefusal, .refusalLock, .write { outcome := .fail },
    .rollback] ++ degradedRun ++
    [.lock .producer (.appendChunk sampleEvent), .write {}, .write {}, .write {}, .write {}]

theorem no_sequence_after_gap_of_degraded :
    ∃ s, run System.step sampleStream refusedRun = some s ∧ s.runtime.degraded = true ∧
      s.runtime.feed.active = true ∧ s.runtime.lateCommits = 0 ∧
      s.runtime.journal.lastSeq = s.runtime.feed.boundary := by
  have hrefusal : Along System.step RefusalUndegraded sampleStream refusedRun := by decide
  refine ⟨_, rfl, rfl, rfl, ?_, ?_⟩
  · exact (no_sequence_after_gap sampleID sampleMeta 7 1000 true refusedRun _ hrefusal rfl).1
  · exact ((no_sequence_after_gap sampleID sampleMeta 7 1000 true refusedRun _ hrefusal rfl).2
      (by decide) rfl).2 rfl

/-- The journal recovers, and a refusal commits its warning behind the boundary. -/
theorem state_after_gap :
    ∃ s, run System.step sampleStream
        (degradedRun ++ [.refuse "b" [sampleWarning] sampleRefusal, .refusalLock, .write {}]) =
          some s ∧
      s.runtime.degraded = true ∧ s.runtime.lateCommits = 1 ∧
      s.runtime.feed.boundary = 1 ∧ s.runtime.journal.lastSeq = 2 :=
  ⟨_, rfl, rfl, rfl, rfl, rfl⟩

/-- When no failed call has committed, the mirror follows the journal through every interleaving
of the writers.  While `writeMu` is free and the stream is not degraded, `r.lastSeq` is the last
sequence of the journal.  An entry that is about to be published, the terminal one included, is
the last entry of the journal, and the boundary that a degraded feed is about to get is its last
sequence. -/
theorem mirror_tracks_journal (id : StreamID) (metadata : Meta) (lease : LeaseID)
    (maxLagBytes : Int) (verbose : Bool) (events : List StreamEvent) (s : System)
    (hhonest : Along System.step HonestJournal
      (System.start id metadata lease maxLagBytes verbose) events)
    (hrun : run System.step (System.start id metadata lease maxLagBytes verbose) events = some s) :
    (s.writer = none → s.runtime.degraded = false →
      s.runtime.lastSeq = s.runtime.journal.lastSeq) ∧
    (∀ writer frame rest entry, s.writer = some writer →
      writer.script = .broadcast frame :: rest → frame.entry = some entry →
        s.runtime.journal.items.getLast? = some entry) ∧
    ∀ writer boundary frames rest, s.writer = some writer →
      writer.script = .activate boundary frames :: rest →
        boundary = s.runtime.journal.lastSeq := by
  have htracked : s.Tracked :=
    inv_of_run_along (fun _ _ _ h hgood hstep => h.step hgood (System.step_spec hstep))
      (System.Tracked.start id metadata lease maxLagBytes verbose) hhonest hrun
  have hassigned {writer : Writer} {action : Action} {rest : List Action}
      (hwriter : s.writer = some writer) (hscript : writer.script = action :: rest) :
      action.Assigned s.runtime.journal := by
    have hpending : s.script = action :: rest := by
      rw [System.script, hwriter]
      exact hscript
    exact htracked.track.assigned action (hpending ▸ List.mem_cons_self)
  refine ⟨fun hfree _ => ?_, fun writer frame rest entry hwriter hscript hentry => ?_,
    fun writer boundary frames rest hwriter hscript => ?_⟩
  · have hmirror := htracked.track.mirror
    rwa [System.script_none hfree, mirrors_nil, Nat.add_zero] at hmirror
  · exact hassigned hwriter hscript entry hentry
  · exact hassigned hwriter hscript

/-- A chunk is committed, and its entry is about to be published. -/
def publishingRun : List StreamEvent :=
  [.lock .producer (.appendChunk sampleEvent), .write {}, .write {}, .write {}]

theorem mirror_tracks_journal_of_chunk :
    ∃ s frame entry rest, run System.step sampleStream publishingRun = some s ∧
      s.script = .broadcast frame :: rest ∧ frame.entry = some entry ∧ entry.seq = 2 ∧
      s.runtime.journal.items.getLast? = some entry := by
  refine ⟨_, _, _, _, rfl, rfl, rfl, rfl, ?_⟩
  exact (mirror_tracks_journal sampleID sampleMeta 7 1000 true publishingRun _ (by decide) rfl).2.1
    _ _ _ _ rfl rfl rfl

end Streamweld.Proxy
