import Streamweld.Backends.Safety

/-!
# Probes and the endpoints they are for

`ProbeAll` copies the backends with the revisions of their records, probes them without the
lock and applies each result to the record that the map holds then under the identifier, if
its revision is the copied one.  The revision counts the changes of the address and the
revivals of one record, modulo `2 ^ 64`.  It starts again where a record is deleted and the
identifier comes back.

`probe_applied_to_probed`: as long as no record is deleted that a probe is under way for,
and none is revised `2 ^ 64` times during one, a result is applied only to the record that
was copied, with the address that was probed, and only if the record has not been retired
meanwhile.  `probe_applied_to_other` has the run in which the record was deleted.
-/

namespace Streamweld.Backends

open Streamweld.Lib

/-- A probe under way, with the address of the record that was copied and its revisions so
far.  `lapsed` says whether the record was retired, or was not in the map, at some time
since. -/
structure Flight where
  target : ProbeTarget
  record : Nat
  revisions : Nat
  lapsed : Bool

/-- The pool with what is known about the probes under way. -/
structure Probing where
  system : System
  flights : List Flight

def Probing.start (pool : Pool) : Probing := ⟨.start pool, []⟩

def Pool.flights (pool : Pool) : List Flight :=
  pool.probeTargets.map fun target =>
    let ref := (pool.records.lookup target.backend.id).getD 0
    ⟨target, ref, (pool.heap ref).revisions, false⟩

/-- The probe in the state after a step. -/
def Flight.observe (pool : Pool) (flight : Flight) : Flight :=
  { flight with
    lapsed := flight.lapsed || (pool.heap flight.record).retired ||
      pool.records.lookup flight.target.backend.id ≠ some flight.record }

def Probing.flightsAfter (probing : Probing) : Event → List Flight
  | .probeTargets => probing.flights ++ probing.system.pool.flights
  | .probeOne probe _ _ _ => probing.flights.eraseIdx probe
  | _ => probing.flights

def Probing.step (probing : Probing) (event : Event) : Option Probing :=
  (probing.system.exec event).map fun result =>
    { system := result.1
      flights := (probing.flightsAfter event).map (Flight.observe result.1.pool) }

/-- The step deletes no record that a probe is under way for. -/
def KeepsProbed (probing : Probing) (event : Event) : Prop :=
  ∀ flight ∈ probing.flights, probing.system.deletes event flight.record = false

instance (probing : Probing) (event : Event) : Decidable (KeepsProbed probing event) :=
  inferInstanceAs (Decidable (∀ flight ∈ probing.flights, _))

/-- The record of the probe has been revised fewer than `2 ^ 64` times since the probe
started. -/
def Flight.Unwrapped (pool : Pool) (flight : Flight) : Prop :=
  (pool.heap flight.record).revisions < flight.revisions + 2 ^ 64

instance (pool : Pool) (flight : Flight) : Decidable (flight.Unwrapped pool) :=
  inferInstanceAs (Decidable (_ < _))

/-- What a probe under way knows: the record is in the map, and while it is not revised it
has the copied address and has been retired only if it is. -/
structure Flight.Ok (pool : Pool) (flight : Flight) : Prop where
  stored : pool.records.lookup flight.target.backend.id = some flight.record
  copied : flight.target.revision = flight.revisions % 2 ^ 64
  revisions : flight.revisions ≤ (pool.heap flight.record).revisions
  same : (pool.heap flight.record).revisions = flight.revisions →
    backendAddressChanged flight.target.backend (pool.heap flight.record).backend = false ∧
      (flight.lapsed = true → (pool.heap flight.record).retired = true)

structure Probing.Inv (probing : Probing) : Prop where
  system : probing.system.Inv
  aligned : probing.flights.map Flight.target = probing.system.probes
  flights : ∀ flight ∈ probing.flights, flight.Ok probing.system.pool

/-- A probe that is started knows its record. -/
theorem Pool.flights_ok {held : List Lease} {pins : Nat → Int} {pool : Pool}
    (h : pool.Inv held pins) : ∀ flight ∈ pool.flights, flight.Ok pool := by
  intro flight hflight
  obtain ⟨target, htarget, rfl⟩ := List.mem_map.mp hflight
  have hmem := (List.perm_insertionSort _ _).mem_iff.mp htarget
  obtain ⟨ref, href, rfl⟩ := List.mem_map.mp hmem
  obtain ⟨entry, hentry, rfl⟩ := List.mem_map.mp (List.mem_of_mem_filter href)
  have hlookup := AList.mem_lookup_iff.mpr hentry
  have hname := (h.named entry.1 entry.2 hlookup).2
  have hstored : pool.records.lookup (pool.heap entry.2).backend.id = some entry.2 := by
    rw [hname]
    exact hlookup
  simp only [hstored, Option.getD_some]
  exact ⟨hstored, rfl, le_rfl, fun _ => ⟨backendAddressChanged_self _, fun h => by cases h⟩⟩

/-- A probe under way still knows its record after a step that does not delete it. -/
theorem Flight.Ok.observe {undrained : ID → Prop} {deleted : Nat → Prop} {pool pool' : Pool}
    {flight : Flight} (h : flight.Ok pool) (hallocated : flight.record < pool.allocated)
    (hevolves : pool.Evolves undrained deleted pool') (hkept : ¬deleted flight.record) :
    (flight.observe pool').Ok pool' := by
  have hrecord := hevolves.record flight.record hallocated
  have hstored := (hevolves.kept _ _ h.stored).resolve_right hkept
  refine ⟨hstored, h.copied, h.revisions.trans hrecord.revision, fun hsame => ?_⟩
  have hmid : (pool.heap flight.record).revisions = flight.revisions :=
    le_antisymm (hsame ▸ hrecord.revision) h.revisions
  obtain ⟨haddress, hlapsed⟩ := h.same hmid
  obtain ⟨haddress', hretired⟩ := hrecord.address (hsame.trans hmid.symm)
  refine ⟨backendAddressChanged_trans haddress haddress', fun hobserved => ?_⟩
  simp only [Flight.observe, hstored, ne_eq, not_true_eq_false, decide_false, Bool.or_false,
    Bool.or_eq_true] at hobserved
  exact hobserved.elim (fun h => hretired (hlapsed h)) fun h => h

theorem Probing.step_inv {probing probing' : Probing} {event : Event} (h : probing.Inv)
    (hkeeps : KeepsProbed probing event) (hstep : probing.step event = some probing') :
    probing'.Inv := by
  obtain ⟨⟨system', reply⟩, hexec, rfl⟩ := Option.map_eq_some_iff.mp hstep
  have hspec := System.exec_spec h.system hexec
  refine ⟨hspec.inv, ?_, ?_⟩
  · rw [hspec.frame.probes, List.map_map]
    show List.map Flight.target (probing.flightsAfter event) = _
    cases event with
    | probeTargets =>
      simp only [Probing.flightsAfter, System.probesAfter, List.map_append, h.aligned, Pool.flights,
        List.map_map]
      congr 1
      exact List.map_id _
    | probeOne probe canceled err now =>
      simp only [Probing.flightsAfter, System.probesAfter, ← h.aligned, List.eraseIdx_map]
    | _ => exact h.aligned
  · intro observed hobserved
    obtain ⟨flight, hflight, rfl⟩ := List.mem_map.mp hobserved
    have hcases : (flight ∈ probing.flights ∨
        event = .probeTargets ∧ flight ∈ probing.system.pool.flights) := by
      cases event with
      | probeTargets => exact (List.mem_append.mp hflight).imp_right fun h => ⟨rfl, h⟩
      | probeOne probe canceled err now => exact .inl (List.mem_of_mem_eraseIdx hflight)
      | _ => exact .inl hflight
    have hok : flight.Ok probing.system.pool := by
      rcases hcases with hold | ⟨-, hnew⟩
      · exact h.flights flight hold
      · exact Pool.flights_ok h.system flight hnew
    refine hok.observe (h.system.named _ _ hok.stored).1 hspec.evolves ?_
    rcases hcases with hold | ⟨rfl, -⟩
    · simp [hkeeps flight hold]
    · simp [System.deletes]

/-- A probe whose record still has the copied revision: the record was not revised. -/
theorem Flight.Ok.revisions_eq {pool : Pool} {flight : Flight} (h : flight.Ok pool)
    (hunwrapped : flight.Unwrapped pool)
    (hrevision : (pool.heap flight.record).revision = flight.target.revision) :
    (pool.heap flight.record).revisions = flight.revisions := by
  have hle := h.revisions
  rw [h.copied, Record.revision] at hrevision
  unfold Flight.Unwrapped at hunwrapped
  omega

/-- In every run that deletes no record that a probe is under way for, a result is applied
only to the record that was copied when the probe started, at the address that was probed,
and only if the record was in the map and not retired ever since, unless the record was
revised `2 ^ 64` times during the probe. -/
theorem probe_applied_to_probed {config : Config} {initial : List Backend} {pool : Pool}
    (hpool : newPool config initial = .ok pool) {events : List Event}
    {probing : Probing} (hrun : run Probing.step (.start pool) events = some probing)
    (hkeeps : Along Probing.step KeepsProbed (.start pool) events)
    (hunwrapped : ∀ flight ∈ probing.flights, flight.Unwrapped probing.system.pool)
    {probe : Nat} {err : Option String} {now : Int} {system' : System} {result : ProbeResult}
    {transition : Transition}
    (hexec : probing.system.exec (.probeOne probe false err now) = some (system', .probed result))
    (happlied : result.applied = some transition) :
    ∃ flight ref, probing.flights[probe]? = some flight ∧
      probing.system.probes[probe]? = some flight.target ∧
      probing.system.pool.probed flight.target = some ref ∧
      ref = flight.record ∧ flight.lapsed = false ∧
      (probing.system.pool.heap ref).backend.url.map URL.string =
        flight.target.backend.url.map URL.string ∧
      (probing.system.pool.heap ref).backend.healthURL.map URL.string =
        flight.target.backend.healthURL.map URL.string := by
  have hstart : (Probing.start pool).Inv := ⟨newPool_inv hpool, rfl, by simp [Probing.start]⟩
  have hinv : probing.Inv :=
    inv_of_run_along (fun _ _ _ h hgood hstep => Probing.step_inv h hgood hstep) hstart hkeeps hrun
  obtain ⟨target, htarget, hresult⟩ := Option.map_eq_some_iff.mp hexec
  have hflight : ∃ flight, probing.flights[probe]? = some flight ∧ flight.target = target := by
    rw [← hinv.aligned, List.getElem?_map] at htarget
    exact Option.map_eq_some_iff.mp htarget
  obtain ⟨flight, hflight, rfl⟩ := hflight
  have hok := hinv.flights flight (List.mem_of_getElem? hflight)
  simp only [Bool.false_eq_true, if_false, Prod.mk.injEq, Reply.probed.injEq] at hresult
  obtain ⟨-, rfl⟩ := hresult
  cases hprobed : probing.system.pool.probed flight.target with
  | none =>
    simp [Pool.probeOne, hprobed] at happlied
  | some ref =>
    obtain ⟨hcurrent, hrevision⟩ := Option.filter_eq_some_iff.mp hprobed
    obtain ⟨hlookup, hretired⟩ := Pool.current_eq_some.mp hcurrent
    rw [hok.stored] at hlookup
    cases hlookup
    have hunrevised := hok.revisions_eq (hunwrapped flight (List.mem_of_getElem? hflight))
      (of_decide_eq_true hrevision)
    obtain ⟨haddress, hlapsed⟩ := hok.same hunrevised
    simp only [backendAddressChanged, Bool.or_eq_false_iff, decide_eq_false_iff_not,
      not_not] at haddress
    refine ⟨flight, flight.record, hflight, htarget, hprobed, rfl, ?_, haddress.1.symm,
      haddress.2.symm⟩
    by_contra hne
    rw [hlapsed (by simpa using hne)] at hretired
    cases hretired

/-- A run from an empty pool, and the record that the first probe under way is applied to, as
one computation. -/
def appliesAfter (events : List Event) (p : Pool → Probing → ProbeTarget → Record → Bool) : Bool :=
  match newPool sampleConfig [] with
  | .error _ => false
  | .ok pool =>
    (run Probing.step (.start pool) events).any fun probing =>
      (probing.system.probes[0]?).any fun target =>
        (probing.system.pool.probed target).any fun ref =>
          p pool probing target (probing.system.pool.heap ref)

theorem appliesAfter_spec {events : List Event}
    {p : Pool → Probing → ProbeTarget → Record → Bool} (h : appliesAfter events p = true) :
    ∃ pool probing target ref system' result transition, newPool sampleConfig [] = .ok pool ∧
      run Probing.step (.start pool) events = some probing ∧
      probing.system.probes[0]? = some target ∧ probing.system.pool.probed target = some ref ∧
      probing.system.exec (.probeOne 0 false none 0) = some (system', .probed result) ∧
      result.applied = some transition ∧
      p pool probing target (probing.system.pool.heap ref) = true := by
  unfold appliesAfter at h
  split at h
  · cases h
  · rename_i pool hpool
    obtain ⟨probing, hrun, h⟩ := (Option.any_eq_true _ _).mp h
    obtain ⟨target, htarget, h⟩ := (Option.any_eq_true _ _).mp h
    obtain ⟨ref, hprobed, h⟩ := (Option.any_eq_true _ _).mp h
    refine ⟨pool, probing, target, ref,
      { probing.system with
        probes := probing.system.probes.eraseIdx 0
        pool := (probing.system.pool.probeOne target none 0).1 },
      (probing.system.pool.probeOne target none 0).2,
      (probing.system.pool.applyProbe ref .healthHealthy none 0).2, hpool, hrun, htarget, hprobed,
      ?_, ?_, h⟩
    · simp only [System.exec, htarget, Option.map_some]
      rfl
    · simp [Pool.probeOne, hprobed]

/-- A probe of a backend that stays in the pool is applied to it. -/
theorem probe_applied_to_probed_kept :
    ∃ pool probing flight ref, newPool sampleConfig [] = .ok pool ∧
      run Probing.step (.start pool)
        [.controller (.upsert (sampleBackend "b" "host") 0), .probeTargets] = some probing ∧
      probing.flights[0]? = some flight ∧ probing.system.pool.probed flight.target = some ref ∧
      flight.lapsed = false := by
  have happlies : appliesAfter [.controller (.upsert (sampleBackend "b" "host") 0), .probeTargets]
      (fun pool probing _ _ => decide (Along Probing.step KeepsProbed (.start pool)
        [.controller (.upsert (sampleBackend "b" "host") 0), .probeTargets] ∧
        ∀ flight ∈ probing.flights, flight.Unwrapped probing.system.pool)) = true := by
    decide +kernel
  obtain ⟨pool, probing, target, ref, system', result, transition, hpool, hrun, -, -, hexec,
    happlied, hguards⟩ := appliesAfter_spec happlies
  obtain ⟨halong, hunwrapped⟩ := of_decide_eq_true hguards
  obtain ⟨flight, ref', hflight, -, hprobed, -, hlapsed, -⟩ :=
    probe_applied_to_probed hpool hrun halong hunwrapped hexec happlied
  exact ⟨pool, probing, flight, ref', hpool, hrun, hflight, hprobed, hlapsed⟩

/-- A backend is removed and comes back with another address while it is probed: the result
is applied to the new address. -/
theorem probe_applied_to_other :
    ∃ pool probing target ref system' result transition, newPool sampleConfig [] = .ok pool ∧
      run Probing.step (.start pool)
        [.controller (.upsert (sampleBackend "b" "old") 0), .probeTargets,
          .controller (.remove "b"), .controller (.upsert (sampleBackend "b" "new") 0)] =
        some probing ∧
      probing.system.probes[0]? = some target ∧ probing.system.pool.probed target = some ref ∧
      probing.system.exec (.probeOne 0 false none 0) = some (system', .probed result) ∧
      result.applied = some transition ∧
      (probing.system.pool.heap ref).backend.url.map URL.string ≠
        target.backend.url.map URL.string := by
  have happlies : appliesAfter
      [.controller (.upsert (sampleBackend "b" "old") 0), .probeTargets,
        .controller (.remove "b"), .controller (.upsert (sampleBackend "b" "new") 0)]
      (fun _ _ target record => record.backend.url.map URL.string ≠
        target.backend.url.map URL.string) = true := by decide +kernel
  simpa using appliesAfter_spec happlies

end Streamweld.Backends
