import Streamweld.Backends.Steps

/-!
# Runs of the pool

What holds in every run of the pool and its callers, from `NewPool` on and for arbitrary
readings of the clock.

* `pool_invariant`: leases and records agree, the flags of the records are consistent, leases
  are granted as the callers ask, marks and deadlines are kept, and `Wait` returns only when
  the record is drained.
* `exclusions_kept`: a drained or quarantined backend gets no lease, as long as its record is
  not deleted with a mark on it.  `exclusion_forgotten` has the two runs in which it is.
-/

namespace Streamweld.Backends

open Streamweld.Lib

variable {config : Config} {initial : List Backend} {system : System} {event : Event}

/-! ## The invariant in every run -/

/-- A backend at a host. -/
def sampleBackend (id host : String) : Backend :=
  ⟨id, some ⟨"http", none, host, "", "", ""⟩, none, "", "", .verdictSafe, "", ""⟩

/-- A quarantine of five nanoseconds. -/
def sampleConfig : Config := { quarantineWindow := 5 }

def admitSample : Event := .controller (.replace [sampleBackend "b" "host"] true fun _ => 0)

def dropAll : Event := .controller (.replace [] true fun _ => 0)

theorem emptyPool_inv (quarantineWindow : Int) : (emptyPool quarantineWindow).Inv [] fun _ => 0 where
  named := fun id ref h => by simp [emptyPool] at h
  flags := fun ref h => by simp [emptyPool] at h
  normal := fun ref h => by simp [emptyPool] at h
  stored := fun ref h => by simp [emptyPool] at h
  bound := fun lease h => by simp at h
  distinct := by simp
  fresh := fun ref h => by simp [emptyPool] at h
  count := rfl
  pinned := fun ref h => by simp [emptyPool] at h
  pinsAllocated := fun ref h => absurd rfl h

/-- A new pool is an empty one in which the initial backends are installed. -/
theorem newPool_block {pool : Pool} (h : newPool config initial = .ok pool) :
    ∃ window, (emptyPool window).Block [] (fun _ => 0) (fun _ => False) (fun _ => True) pool := by
  simp only [newPool] at h
  generalize (configWithDefaults config).quarantineWindow = window at h
  split at h
  · cases h
  · have hblock : (emptyPool window).Block [] (fun _ => 0) (fun _ => False) _ _ :=
      Pool.controller_block (emptyPool_inv window) (.replace initial false fun _ => 0)
    cases hresult : ((emptyPool window).replace initial false fun _ => 0).2 with
    | error problem =>
      rw [hresult] at h
      cases h
    | ok value =>
      rw [hresult] at h
      cases h
      exact ⟨window, hblock.inv, hblock.evolves.imp (fun _ hu => hu) fun _ _ _ _ => trivial,
        hblock.calm⟩

theorem newPool_inv {pool : Pool} (h : newPool config initial = .ok pool) :
    (System.start pool).Inv := by
  obtain ⟨window, hblock⟩ := newPool_block h
  exact hblock.inv

theorem System.step_inv {system' : System} (h : system.Inv)
    (hstep : system.step event = some system') : system'.Inv := by
  obtain ⟨⟨next, reply⟩, hexec, rfl⟩ := Option.map_eq_some_iff.mp hstep
  exact (System.exec_spec h hexec).inv

theorem System.run_inv {pool : Pool} (hpool : newPool config initial = .ok pool)
    {events : List Event} (hrun : run System.step (.start pool) events = some system) :
    system.Inv :=
  inv_of_run (fun _ _ _ h hstep => System.step_inv h hstep) (newPool_inv hpool) hrun

/-- `ListRetained` counts every lease of the records in the map. -/
theorem Pool.listRetained_inFlight (pool : Pool) (now : Int) :
    (((pool.listRetained now).map State.inFlight).sum : Int) = pool.inFlightTotal := by
  have hperm : ((pool.listRetained now).map State.inFlight).Perm
      (pool.records.entries.map fun entry => (pool.heap entry.2).inFlight) := by
    refine ((List.perm_insertionSort _ _).map _).trans ?_
    rw [List.map_map]
    exact .refl _
  rw [hperm.sum_eq, Pool.inFlightTotal, AList.total]
  induction pool.records.entries with
  | nil => rfl
  | cons entry rest ih => simp [ih]

/-- In every reachable state of the pool:

* the map holds every record under its own identifier, the record of an unreleased lease is
  the one that is stored under its identifier, and the counts of `ListRetained` sum to the
  unreleased leases;
* a retired record is draining, and a record with a drain of the retirement is retired;
* a lease is granted only on a record that the caller may have;
* an explicit drain is kept by every step but `Undrain`, and the deadline of the quarantine
  never moves to an earlier time;
* a wait returns without an error only where its record is draining and has no lease. -/
theorem pool_invariant {config : Config} {initial : List Backend} {pool : Pool}
    (hpool : newPool config initial = .ok pool) {events : List Event} {system : System}
    (hrun : run System.step (.start pool) events = some system) :
    (∀ id ref, system.pool.records.lookup id = some ref → (system.pool.heap ref).backend.id = id) ∧
    (∀ lease ∈ system.unreleased,
      system.pool.records.lookup (system.pool.heap lease.record).backend.id = some lease.record) ∧
    (∀ now, ((system.pool.listRetained now).map State.inFlight).sum = system.unreleased.length) ∧
    (∀ id ref, system.pool.records.lookup id = some ref →
      ((system.pool.heap ref).retired = true → (system.pool.heap ref).draining = true) ∧
      ((system.pool.heap ref).retirementDrain = true →
        (system.pool.heap ref).retired = true ∧ (system.pool.heap ref).draining = true)) ∧
    ∀ event system' reply, system.exec event = some (system', reply) →
      (∀ lease, reply = .granted lease → ∃ model excluded now,
        system.request event = some (model, excluded, now) ∧
        (system.pool.heap lease.record).Grantable model excluded now ∧
        lease.backend.backend = (system.pool.heap lease.record).backend) ∧
      (∀ id ref, system.pool.records.lookup id = some ref →
        system'.pool.records.lookup id = some ref →
        ((system.pool.heap ref).explicitDrain = true →
          (system'.pool.heap ref).explicitDrain = true ∨
            ∃ now state, event = .observe id .undrain now ∧ reply = .state state) ∧
        (system.pool.heap ref).quarantinedUntil ≤ (system'.pool.heap ref).quarantinedUntil) ∧
      (∀ state, reply = .drained state → ∃ call now waiting, event = .waitTurn call now ∧
        system.waiting.lookup call = some waiting ∧
        (system.pool.heap waiting.record).draining = true ∧
        (system.pool.heap waiting.record).inFlight = 0) := by
  have hinv := System.run_inv hpool hrun
  refine ⟨fun id ref h => (hinv.named id ref h).2, fun lease hlease => ?_, fun now => ?_, ?_, ?_⟩
  · obtain ⟨href, hbound⟩ := hinv.bound lease hlease
    refine hinv.stored lease.record href (.inr (.inl fun hzero => ?_))
    have hlength := length_erase hbound
    rw [Record.inFlight] at hzero
    omega
  · have hsum := (system.pool.listRetained_inFlight now).trans hinv.count
    exact_mod_cast hsum
  · intro id ref hlookup
    have hflags := hinv.flags ref (hinv.named id ref hlookup).1
    exact ⟨hflags.draining, fun h => ⟨hflags.retired h, hflags.draining (hflags.retired h)⟩⟩
  · intro event system' reply hexec
    have hstep := System.exec_spec hinv hexec
    refine ⟨?_, ?_, ?_⟩
    · rintro lease rfl
      obtain ⟨-, ⟨model, excluded, now, hrequest, hgrantable⟩, hbackend⟩ := hstep.answered
      exact ⟨model, excluded, now, hrequest, hgrantable, hbackend⟩
    · intro id ref hlookup _
      obtain ⟨href, hname⟩ := hinv.named id ref hlookup
      have hrecord := hstep.evolves.record ref href
      exact ⟨fun h => (hrecord.explicit h).imp_right fun hundrained => hname ▸ hundrained,
        hrecord.deadline⟩
    · rintro state rfl
      exact hstep.answered

/-- The invariant of a pool with one leased backend. -/
theorem pool_invariant_leased :
    ∃ pool system, newPool sampleConfig [sampleBackend "b" "host"] = .ok pool ∧
      run System.step (.start pool) [.observe "b" (.setHealth .healthHealthy) 0,
        .acquireID "b" "s" 0] = some system ∧
      ((system.pool.listRetained 0).map State.inFlight).sum = system.unreleased.length := by
  have hruns : ((newPool sampleConfig [sampleBackend "b" "host"]).toOption.any fun pool =>
      (run System.step (.start pool) [.observe "b" (.setHealth .healthHealthy) 0,
        .acquireID "b" "s" 0]).isSome) = true := by decide +kernel
  cases hpool : newPool sampleConfig [sampleBackend "b" "host"] with
  | error problem => simp [hpool, Except.toOption] at hruns
  | ok pool =>
    simp only [hpool, Except.toOption, Option.any_some] at hruns
    obtain ⟨system, hrun⟩ := Option.isSome_iff_exists.mp hruns
    exact ⟨pool, system, rfl, hrun, (pool_invariant hpool hrun).2.2.1 0⟩

/-! ## Exclusions -/

/-- The pool with the exclusions that its callers rely on: the identifiers that have been
drained and not undrained, and the passive failures with their times. -/
structure Tracked where
  system : System
  drained : List ID
  failed : List (ID × Int)

def Tracked.start (pool : Pool) : Tracked := ⟨.start pool, [], []⟩

/-- The drains after a step: `MarkDraining` and `BeginRetainedDrain` that succeed add the
identifier, `Undrain` that succeeds takes it off. -/
def noteDrained (drained : List ID) : Event → Reply → List ID
  | .observe id .markDraining _, .draining _ => id :: drained
  | .beginRetainedDrain id _, .draining _ => id :: drained
  | .observe id .undrain _, .state _ => drained.filter (· ≠ id)
  | _, _ => drained

/-- The failures after a step. -/
def noteFailed (failed : List (ID × Int)) : Event → Reply → List (ID × Int)
  | .observe id .markPassiveFailure now, .transition _ => (id, now) :: failed
  | _, _ => failed

def Tracked.step (tracked : Tracked) (event : Event) : Option Tracked :=
  (tracked.system.exec event).map fun result =>
    { system := result.1
      drained := noteDrained tracked.drained event result.2
      failed := noteFailed tracked.failed event result.2 }

/-- The step does not delete the record of the identifier while it carries an explicit drain
or a deadline of a quarantine. -/
def KeepsMarks (id : ID) (tracked : Tracked) (event : Event) : Prop :=
  ∀ ref ∈ tracked.system.pool.records.lookup id, tracked.system.deletes event ref = true →
    (tracked.system.pool.heap ref).explicitDrain = false ∧
      (tracked.system.pool.heap ref).quarantinedUntil = 0

instance (id : ID) (tracked : Tracked) (event : Event) : Decidable (KeepsMarks id tracked event) :=
  inferInstanceAs (Decidable (∀ ref ∈ tracked.system.pool.records.lookup id, _))

/-- The record of the identifier carries its exclusions. -/
structure Tracked.Inv (id : ID) (tracked : Tracked) : Prop where
  system : tracked.system.Inv
  drained : id ∈ tracked.drained → ∃ ref, tracked.system.pool.records.lookup id = some ref ∧
    (tracked.system.pool.heap ref).explicitDrain = true
  /-- a deadline that is not after the zero time needs no record -/
  failed : ∀ time, (id, time) ∈ tracked.failed →
    time + tracked.system.pool.quarantineWindow ≤ 0 ∨
      ∃ ref, tracked.system.pool.records.lookup id = some ref ∧
        time + tracked.system.pool.quarantineWindow ≤
          (tracked.system.pool.heap ref).quarantinedUntil
  /-- no deadline is before the zero time -/
  deadlines : ∀ ref < tracked.system.pool.allocated,
    0 ≤ (tracked.system.pool.heap ref).quarantinedUntil

/-- Where a drained identifier comes from. -/
theorem mem_noteDrained {drained : List ID} {reply : Reply} {id : ID}
    (h : id ∈ noteDrained drained event reply) :
    (id ∈ drained ∧ ¬Undrained event reply id) ∨
      (∃ now snapshot, event = .observe id .markDraining now ∧ reply = .draining snapshot) ∨
      (∃ now snapshot, event = .beginRetainedDrain id now ∧ reply = .draining snapshot) := by
  unfold noteDrained at h
  split at h
  · rcases List.mem_cons.mp h with rfl | h
    · exact .inr (.inl ⟨_, _, rfl, rfl⟩)
    · exact .inl ⟨h, fun ⟨_, _, hevent, _⟩ => by cases hevent⟩
  · rcases List.mem_cons.mp h with rfl | h
    · exact .inr (.inr ⟨_, _, rfl, rfl⟩)
    · exact .inl ⟨h, fun ⟨_, _, hevent, _⟩ => by cases hevent⟩
  · obtain ⟨h, hne⟩ := List.mem_filter.mp h
    refine .inl ⟨h, fun ⟨_, _, hevent, _⟩ => ?_⟩
    cases hevent
    simp at hne
  · rename_i hother
    refine .inl ⟨h, fun ⟨now, state, hevent, hreply⟩ => ?_⟩
    exact hother _ _ _ hevent hreply

theorem mem_noteFailed {failed : List (ID × Int)} {reply : Reply} {failure : ID × Int}
    (h : failure ∈ noteFailed failed event reply) :
    failure ∈ failed ∨ ∃ transition, event = .observe failure.1 .markPassiveFailure failure.2 ∧
      reply = .transition transition := by
  unfold noteFailed at h
  split at h
  · rcases List.mem_cons.mp h with rfl | h
    · exact .inr ⟨_, rfl, rfl⟩
    · exact .inl h
  · exact .inl h

/-- A drain that succeeds leaves an explicit mark on the record of the identifier. -/
theorem System.exec_drains {system' : System} {id : ID} {now : Int} {snapshot : DrainSnapshot}
    (h : system.Inv)
    (hevent : event = .observe id .markDraining now ∨ event = .beginRetainedDrain id now)
    (hexec : system.exec event = some (system', .draining snapshot)) :
    ∃ ref, system'.pool.records.lookup id = some ref ∧
      (system'.pool.heap ref).explicitDrain = true := by
  rcases hevent with rfl | rfl
  · simp only [System.exec, Pool.observe, Option.some.injEq, Prod.mk.injEq] at hexec
    obtain ⟨rfl, hreply⟩ := hexec
    cases hresult : (system.pool.markDraining id now).2 with
    | error problem =>
      rw [hresult] at hreply
      cases hreply
    | ok value => exact Pool.markDraining_ok h hresult
  · simp only [System.exec, System.beginRetainedDrain] at hexec
    cases hvalid : ID.validate id with
    | some problem => simp [hvalid] at hexec
    | none =>
      cases hlookup : system.pool.records.lookup id with
      | none => simp [hvalid, hlookup] at hexec
      | some ref =>
        simp only [hvalid, hlookup, Option.some.injEq, Prod.mk.injEq] at hexec
        obtain ⟨rfl, -⟩ := hexec
        obtain ⟨-, -, hrecords, hexplicit, -⟩ : _ ∧ system.pool.Evolves (fun _ => False)
            (fun _ => False) _ ∧ _ := Pool.beginRetainedDrainLocked_spec h now
          ((h.named id ref hlookup).2.symm ▸ hlookup)
        exact ⟨ref, by simpa only [hrecords] using hlookup, hexplicit⟩

theorem Tracked.step_inv {id : ID} {tracked tracked' : Tracked} (h : tracked.Inv id)
    (hkeeps : KeepsMarks id tracked event) (hstep : tracked.step event = some tracked') :
    tracked'.Inv id := by
  obtain ⟨⟨system', reply⟩, hexec, rfl⟩ := Option.map_eq_some_iff.mp hstep
  have hspec := System.exec_spec h.system hexec
  -- a record that is in the map and marked stays there
  have hkept : ∀ ref, tracked.system.pool.records.lookup id = some ref →
      (tracked.system.pool.heap ref).explicitDrain = true ∨
        0 < (tracked.system.pool.heap ref).quarantinedUntil →
      system'.pool.records.lookup id = some ref := by
    intro ref hlookup hmarked
    refine (hspec.evolves.kept id ref hlookup).resolve_right fun hdeleted => ?_
    obtain ⟨hexplicit, hdeadline⟩ := hkeeps ref hlookup hdeleted
    rw [hexplicit, hdeadline] at hmarked
    simp at hmarked
  refine ⟨hspec.inv, ?_, ?_, ?_⟩
  · intro hid
    rcases mem_noteDrained hid with ⟨hold, hnot⟩ | ⟨now, snapshot, rfl, rfl⟩ |
      ⟨now, snapshot, rfl, rfl⟩
    · obtain ⟨ref, hlookup, hexplicit⟩ := h.drained hold
      obtain ⟨href, hname⟩ := h.system.named id ref hlookup
      refine ⟨ref, hkept ref hlookup (.inl hexplicit), ?_⟩
      refine ((hspec.evolves.record ref href).explicit hexplicit).resolve_right fun hundrained => ?_
      exact hnot (hname ▸ hundrained)
    · exact System.exec_drains h.system (.inl rfl) hexec
    · exact System.exec_drains h.system (.inr rfl) hexec
  · intro time hfailure
    simp only [hspec.evolves.window]
    rcases mem_noteFailed hfailure with hold | ⟨transition, rfl, rfl⟩
    · rcases h.failed time hold with hzero | ⟨ref, hlookup, hdeadline⟩
      · exact .inl hzero
      · by_cases hzero : time + tracked.system.pool.quarantineWindow ≤ 0
        · exact .inl hzero
        · obtain ⟨href, -⟩ := h.system.named id ref hlookup
          exact .inr ⟨ref, hkept ref hlookup (.inr (by omega)),
            hdeadline.trans (hspec.evolves.record ref href).deadline⟩
    · simp only [System.exec, Pool.observe, Option.some.injEq, Prod.mk.injEq] at hexec
      obtain ⟨rfl, hreply⟩ := hexec
      cases hresult : (tracked.system.pool.markPassiveFailure id time).2 with
      | error problem =>
        rw [hresult] at hreply
        cases hreply
      | ok value => exact .inr (Pool.markPassiveFailure_ok hresult)
  · intro ref href
    by_cases hold : ref < tracked.system.pool.allocated
    · exact (h.deadlines ref hold).trans (hspec.evolves.record ref hold).deadline
    · exact hspec.evolves.fresh ref href (Nat.not_lt.mp hold)

/-- In every run that does not delete the record of the backend with an explicit drain or a
deadline on it, a lease is granted on the backend neither while it is drained nor before the
end of its quarantine. -/
theorem exclusions_kept {config : Config} {initial : List Backend} {pool : Pool}
    (hpool : newPool config initial = .ok pool) {events : List Event}
    {tracked : Tracked} (hrun : run Tracked.step (.start pool) events = some tracked)
    {event : Event} {system' : System} {lease : Lease}
    (hkeeps : Along Tracked.step (KeepsMarks lease.backend.backend.id) (.start pool) events)
    (hgrant : tracked.system.exec event = some (system', .granted lease)) :
    lease.backend.backend.id ∉ tracked.drained ∧
    ∃ model excluded now, tracked.system.request event = some (model, excluded, now) ∧
      ∀ failure ∈ tracked.failed, failure.1 = lease.backend.backend.id →
        failure.2 + tracked.system.pool.quarantineWindow ≤ now := by
  obtain ⟨window, hblock⟩ := newPool_block hpool
  have hstart : (Tracked.start pool).Inv lease.backend.backend.id :=
    ⟨newPool_inv hpool, by simp [Tracked.start], by simp [Tracked.start],
      fun ref href => hblock.evolves.fresh ref href (Nat.zero_le _)⟩
  have hinv : tracked.Inv lease.backend.backend.id :=
    inv_of_run_along (fun _ _ _ h hgood hstep => Tracked.step_inv h hgood hstep) hstart hkeeps hrun
  obtain ⟨hstored, ⟨model, excluded, now, hrequest, hgrantable⟩, hbackend⟩ :=
    (System.exec_spec hinv.system hgrant).answered
  rw [← hbackend] at hstored
  refine ⟨fun hdrained => ?_, model, excluded, now, hrequest, fun failure hfailure hid => ?_⟩
  · obtain ⟨ref, hlookup, hexplicit⟩ := hinv.drained hdrained
    rw [hstored] at hlookup
    cases hlookup
    simp [Record.explicitDrain, hgrantable.draining] at hexplicit
  · rcases hinv.failed failure.2 (hid ▸ hfailure) with hzero | ⟨ref, hlookup, hdeadline⟩
    · have := hinv.deadlines lease.record (hinv.system.named _ _ hstored).1
      have := hgrantable.quarantine
      omega
    · rw [hstored] at hlookup
      cases hlookup
      exact hdeadline.trans hgrantable.quarantine

/-- The event grants a lease with the property. -/
def System.grants (system : System) (event : Event) (p : Lease → Bool) : Bool :=
  match system.exec event with
  | some (_, .granted lease) => p lease
  | _ => false

theorem System.grants_spec {p : Lease → Bool} (h : system.grants event p = true) :
    ∃ system' lease, system.exec event = some (system', .granted lease) ∧ p lease = true := by
  unfold System.grants at h
  split at h
  · rename_i system' lease hexec
    exact ⟨system', lease, hexec, h⟩
  · cases h

/-- A run from an empty pool and a grant after it, as one computation. -/
def grantsAfter (events : List Event) (event : Event) (p : Pool → Tracked → Lease → Bool) : Bool :=
  match newPool sampleConfig [] with
  | .error _ => false
  | .ok pool =>
    (run Tracked.step (.start pool) events).any fun tracked =>
      tracked.system.grants event (p pool tracked)

theorem grantsAfter_spec {events : List Event} {p : Pool → Tracked → Lease → Bool}
    (h : grantsAfter events event p = true) :
    ∃ pool tracked system' lease, newPool sampleConfig [] = .ok pool ∧
      run Tracked.step (.start pool) events = some tracked ∧
      tracked.system.exec event = some (system', .granted lease) ∧ p pool tracked lease = true := by
  unfold grantsAfter at h
  split at h
  · cases h
  · rename_i pool hpool
    cases hrun : run Tracked.step (.start pool) events with
    | none =>
      rw [hrun] at h
      cases h
    | some tracked =>
      rw [hrun] at h
      obtain ⟨system', lease, hexec, hp⟩ := System.grants_spec h
      exact ⟨pool, tracked, system', lease, hpool, hrun, hexec, hp⟩

/-- A backend with a lease is drained, dropped and added again: it keeps its record, and is
leased again after it is undrained. -/
def undrainedRun : List Event :=
  [admitSample, .acquireID "b" "r" 0, .observe "b" .markDraining 0, dropAll, admitSample,
    .observe "b" .undrain 0]

theorem exclusions_kept_undrain :
    ∃ pool tracked system' lease, newPool sampleConfig [] = .ok pool ∧
      run Tracked.step (.start pool) undrainedRun = some tracked ∧
      tracked.system.exec (.acquireID "b" "s" 0) = some (system', .granted lease) ∧
      lease.backend.backend.id ∉ tracked.drained := by
  have hgrants : grantsAfter undrainedRun (.acquireID "b" "s" 0) (fun pool _ lease =>
      decide (Along Tracked.step (KeepsMarks lease.backend.backend.id) (.start pool)
        undrainedRun)) = true := by
    decide +kernel
  obtain ⟨pool, tracked, system', lease, hpool, hrun, hexec, halong⟩ := grantsAfter_spec hgrants
  exact ⟨pool, tracked, system', lease, hpool, hrun, hexec,
    (exclusions_kept hpool hrun (of_decide_eq_true halong) hexec).1⟩

/-- The controller drops a drained backend that nothing holds and adds it again, and a lease
is granted on it; and the same with a backend that is in quarantine until time 5, at time 1. -/
theorem exclusion_forgotten :
    (∃ pool tracked system' lease, newPool sampleConfig [] = .ok pool ∧
      run Tracked.step (.start pool)
        [admitSample, .observe "b" .markDraining 0, dropAll, admitSample] = some tracked ∧
      tracked.system.exec (.acquireID "b" "s" 0) = some (system', .granted lease) ∧
      lease.backend.backend.id ∈ tracked.drained) ∧
    (∃ pool tracked system' lease, newPool sampleConfig [] = .ok pool ∧
      run Tracked.step (.start pool)
        [admitSample, .observe "b" .markPassiveFailure 0, dropAll, admitSample] = some tracked ∧
      tracked.system.exec (.acquireID "b" "s" 1) = some (system', .granted lease) ∧
      ∃ failure ∈ tracked.failed, failure.1 = lease.backend.backend.id ∧
        1 < failure.2 + tracked.system.pool.quarantineWindow) := by
  have hdrain : grantsAfter [admitSample, .observe "b" .markDraining 0, dropAll, admitSample]
      (.acquireID "b" "s" 0)
      (fun _ tracked lease => lease.backend.backend.id ∈ tracked.drained) = true := by decide +kernel
  have hfail : grantsAfter [admitSample, .observe "b" .markPassiveFailure 0, dropAll, admitSample]
      (.acquireID "b" "s" 1)
      (fun _ tracked lease => ∃ failure ∈ tracked.failed, failure.1 = lease.backend.backend.id ∧
        1 < failure.2 + tracked.system.pool.quarantineWindow) = true := by decide +kernel
  constructor
  · simpa using grantsAfter_spec hdrain
  · simpa using grantsAfter_spec hfail

end Streamweld.Backends
