import Streamweld.Backends.Blocks

/-!
# Steps of the pool

`System.exec_spec` is the inversion of a step: it keeps the invariant for the leases and the
pins of the system, and it changes the records as `Pool.Evolves` allows.  A record leaves the
map only where `System.deletes` says so, in terms of the state before the step.
-/

namespace Streamweld.Backends

open Streamweld.Lib

variable {ref index call : Nat} {lease : Lease} {drain : RetainedDrain} {waiting : Waiting}
  {acquiring : Acquiring} {system system' : System} {event : Event} {owner : String} {now : Int}
  {model : Option String} {excluded : List ID}

/-! ## Leases and pins -/

section Pool

variable {held : List Lease} {pins : Nat → Int} {undrained : ID → Prop} {deleted : Nat → Prop}
  {pool : Pool}

/-- A block that changes leases or pins of one record, and nothing else of any record. -/
theorem Pool.Evolves.of_fields {f : Record → Record}
    (hf : ∀ record, (f record).backend = record.backend ∧ (f record).draining = record.draining ∧
      (f record).retirementDrain = record.retirementDrain ∧ (f record).retired = record.retired ∧
      (f record).quarantinedUntil = record.quarantinedUntil ∧
      (f record).revisions = record.revisions) :
    pool.Evolves undrained deleted (pool.modify ref f) := by
  refine .modify fun _ => ?_
  obtain ⟨hbackend, hdraining, hdrain, hretired, hdeadline, hrevision⟩ := hf (pool.heap ref)
  refine ⟨by rw [hbackend], fun hexplicit => .inl ?_, hdeadline.ge, hrevision.ge, fun _ => ?_⟩
  · rw [Record.explicitDrain, hdraining, hdrain]
    exact hexplicit
  · rw [hbackend, hretired]
    exact ⟨backendAddressChanged_self _, fun hr => hr⟩

theorem length_insert_new {leases : AList fun _ : Nat => String} {id : Nat} (owner : String)
    (h : id ∉ leases) : (leases.insert id owner).entries.length = leases.entries.length + 1 := by
  rw [AList.entries_insert, List.length_cons, List.kerase_of_notMem_keys h]

theorem length_erase {leases : AList fun _ : Nat => String} {id : Nat}
    (h : leases.lookup id = some owner) :
    (leases.erase id).entries.length + 1 = leases.entries.length := by
  have htotal := AList.total_erase (fun _ => 1) h
  simp only [AList.total, List.map_const', List.sum_replicate, nsmul_eq_mul, mul_one] at htotal
  omega

/-- A granted lease is new, and it is on the record and on the list. -/
theorem Pool.acquireLocked_ok (h : pool.Inv held pins) {pool' : Pool}
    (hlookup : pool.records.lookup (pool.heap ref).backend.id = some ref)
    (hok : pool.acquireLocked ref owner now = (pool', .ok lease)) :
    pool'.Inv (held ++ [lease]) pins ∧ pool.Evolves undrained deleted pool' ∧
      lease.record = ref ∧ lease.owner = owner ∧
      lease.backend.backend = (pool.heap ref).backend ∧
      ∀ id, pool'.serving id = pool.serving id := by
  unfold Pool.acquireLocked at hok
  split at hok
  · cases hok
  · simp only [Prod.mk.injEq, Except.ok.injEq] at hok
    obtain ⟨rfl, rfl⟩ := hok
    have href := (h.named _ _ hlookup).1
    have hnew : pool.nextLeaseID + 1 ∉ (pool.heap ref).leases := fun hmem =>
      absurd (h.fresh ref href _ hmem) (by omega)
    have hgrant : ({ pool with nextLeaseID := pool.nextLeaseID + 1 } : Pool).modify ref (fun record =>
          { record with leases := record.leases.insert (pool.nextLeaseID + 1) owner }) =
        ({ pool.modify ref fun record =>
            { record with leases := record.leases.insert (pool.nextLeaseID + 1) owner } with
          nextLeaseID := pool.nextLeaseID + 1 } : Pool) := rfl
    have hevolves : pool.Evolves undrained deleted
        (({ pool with nextLeaseID := pool.nextLeaseID + 1 } : Pool).modify ref fun record =>
          { record with leases := record.leases.insert (pool.nextLeaseID + 1) owner }) :=
      have hsame : pool.Evolves undrained deleted (pool.modify ref fun record =>
          { record with leases := record.leases.insert (pool.nextLeaseID + 1) owner }) :=
        .of_fields fun _ => ⟨rfl, rfl, rfl, rfl, rfl, rfl⟩
      ⟨hsame.window, hsame.allocated, hsame.record, hsame.kept, hsame.fresh⟩
    refine ⟨?_, hevolves.trans (.notifyLocked ref) (fun _ hgone => hgone)
      (fun _ _ _ hgone => hgone), rfl, rfl, ?_, ?_⟩
    · refine Pool.Inv.notifyLocked ?_ href
      rw [hgrant]
      refine h.overwrite _ (pool.nextLeaseID + 1) href rfl
        ⟨(h.flags ref href).1, (h.flags ref href).2⟩ (h.normal ref href) (fun _ => hlookup) ?_ ?_
        (Nat.le_succ _) ?_ ?_ (h.pinned ref href) fun _ _ => rfl
      · intro lease hlease
        rcases List.mem_append.mp hlease with hlease | hlease
        · obtain ⟨hallocated, hbound⟩ := h.bound lease hlease
          refine ⟨hallocated, ?_⟩
          by_cases hne : lease.record = ref
          · rw [hne, Pool.modify_heap_self]
            rw [hne] at hbound
            have hid : lease.id ≠ pool.nextLeaseID + 1 := by
              rintro hid
              exact hnew (hid ▸ AList.lookup_isSome.mp (by rw [hbound]; rfl))
            exact (AList.lookup_insert_ne hid).trans hbound
          · rw [Pool.modify_heap_of_ne pool _ hne, hbound]
        · rw [List.mem_singleton] at hlease
          subst hlease
          refine ⟨href, ?_⟩
          rw [Pool.modify_heap_self]
          exact AList.lookup_insert _
      · rw [List.map_append, List.nodup_append]
        refine ⟨h.distinct, by simp, fun a ha b hb => ?_⟩
        obtain ⟨lease, hlease, rfl⟩ := List.mem_map.mp ha
        rw [List.map_singleton, List.mem_singleton] at hb
        subst hb
        obtain ⟨hallocated, hbound⟩ := h.bound lease hlease
        have hle := h.fresh _ hallocated lease.id (AList.lookup_isSome.mp (by rw [hbound]; rfl))
        exact Nat.ne_of_lt (Nat.lt_succ_of_le hle)
      · intro id hid
        rcases (AList.mem_insert _).mp hid with rfl | hid
        · exact le_rfl
        · exact (h.fresh ref href id hid).trans (Nat.le_succ _)
      · have hlength := length_insert_new owner hnew
        simp only [Record.inFlight, List.length_append, List.length_singleton]
        omega
    · rw [Record.state, Pool.notifyLocked_heap, Pool.modify_heap_self]
    · intro id
      rw [Pool.serving_notifyLocked]
      exact Pool.serving_modify_same rfl rfl id

/-- A released lease leaves its record, and the record leaves the map if this was all that
held it. -/
theorem Pool.releaseLocked_spec (h : pool.Inv (lease :: held) pins)
    (hdeleted : (pool.heap lease.record).retired = true → (pool.heap lease.record).inFlight = 1 →
      (pool.heap lease.record).waiters = 0 → deleted lease.record) :
    (pool.releaseLocked lease).Inv held pins ∧
      pool.Evolves undrained deleted (pool.releaseLocked lease) ∧
      ∀ id, (pool.releaseLocked lease).serving id = pool.serving id := by
  obtain ⟨href, hbound⟩ := h.bound lease List.mem_cons_self
  have hlength := length_erase hbound
  have hmem : lease.id ∈ (pool.heap lease.record).leases :=
    AList.lookup_isSome.mp (by rw [hbound]; rfl)
  have hstored := h.stored lease.record href (.inr (.inl (by rw [Record.inFlight]; omega)))
  have hdistinct := h.distinct
  rw [List.map_cons, List.nodup_cons] at hdistinct
  have hinv : (pool.modify lease.record fun record =>
      { record with leases := record.leases.erase lease.id }).Inv held pins := by
    refine h.overwrite (fun record => { record with leases := record.leases.erase lease.id })
      pool.nextLeaseID href rfl ⟨(h.flags _ href).1, (h.flags _ href).2⟩ (h.normal _ href)
      (fun _ => hstored) ?_ hdistinct.2 le_rfl ?_ ?_ (h.pinned _ href) fun _ _ => rfl
    · intro other hother
      obtain ⟨hallocated, hbound'⟩ := h.bound other (List.mem_cons_of_mem _ hother)
      refine ⟨hallocated, ?_⟩
      by_cases hne : other.record = lease.record
      · have hid : other.id ≠ lease.id := by
          rintro hid
          exact hdistinct.1 (List.mem_map.mpr ⟨other, hother, hid⟩)
        rw [hne, Pool.modify_heap_self]
        exact (AList.lookup_erase_ne hid).trans (hne ▸ hbound')
      · rw [Pool.modify_heap_of_ne pool _ hne, hbound']
    · intro id hid
      exact h.fresh _ href id (AList.mem_erase.mp hid).2
    · simp only [Record.inFlight, List.length_cons]
      omega
  have hevolves : pool.Evolves undrained deleted (pool.modify lease.record fun record =>
      { record with leases := record.leases.erase lease.id }) :=
    .of_fields fun _ => ⟨rfl, rfl, rfl, rfl, rfl, rfl⟩
  have hnotify := hevolves.trans (.notifyLocked lease.record) (fun _ hgone => hgone)
    (fun _ _ _ hgone => hgone)
  rw [Pool.releaseLocked, if_pos hmem]
  refine ⟨(hinv.notifyLocked href).cleanupRetiredLocked _, hnotify.trans
    (.cleanupRetiredLocked lease.record ?_) (fun _ hgone => hgone) (fun _ _ _ hgone => hgone), ?_⟩
  · rw [Pool.notifyLocked_heap, Pool.modify_heap_self]
    intro hretired hinFlight hwaiters
    refine hdeleted hretired ?_ hwaiters
    simp only [Record.inFlight] at hinFlight ⊢
    omega
  · intro id
    rw [Pool.serving_cleanupRetiredLocked, Pool.serving_notifyLocked]
    exact Pool.serving_modify_same rfl rfl id

/-- A pin ends, and the record leaves the map if this was all that held it. -/
theorem Pool.unpin_spec (h : pool.Inv held pins) (hpin : pins ref ≠ 0)
    (hdeleted : (pool.heap ref).retired = true → (pool.heap ref).inFlight = 0 →
      (pool.heap ref).waiters = 1 → deleted ref) :
    (pool.unpin ref).Inv held (Function.update pins ref (pins ref - 1)) ∧
      pool.Evolves undrained deleted (pool.unpin ref) ∧
      ∀ id, (pool.unpin ref).serving id = pool.serving id := by
  have href := h.pinsAllocated ref hpin
  have hstored := h.stored ref href (.inr (.inr (by rwa [h.pinned ref href])))
  have hevolves : pool.Evolves undrained deleted
      (pool.modify ref fun record => { record with waiters := record.waiters - 1 }) :=
    .of_fields fun _ => ⟨rfl, rfl, rfl, rfl, rfl, rfl⟩
  refine ⟨(h.setWaiters (· - 1) hstored).cleanupRetiredLocked _, hevolves.trans
    (.cleanupRetiredLocked ref ?_)
    (fun _ hgone => hgone) (fun _ _ _ hgone => hgone), ?_⟩
  · rw [Pool.modify_heap_self]
    intro hretired hinFlight hwaiters
    exact hdeleted hretired hinFlight (by simpa [sub_eq_zero] using hwaiters)
  · intro id
    rw [Pool.unpin, Pool.serving_cleanupRetiredLocked]
    exact Pool.serving_modify_same rfl rfl id

/-- A retained drain marks and pins the record. -/
theorem Pool.beginRetainedDrainLocked_spec (h : pool.Inv held pins) (now : Int)
    (hlookup : pool.records.lookup (pool.heap ref).backend.id = some ref) :
    (pool.beginRetainedDrainLocked ref now).1.Inv held (Function.update pins ref (pins ref + 1)) ∧
      pool.Evolves undrained deleted (pool.beginRetainedDrainLocked ref now).1 ∧
      (pool.beginRetainedDrainLocked ref now).1.records = pool.records ∧
      ((pool.beginRetainedDrainLocked ref now).1.heap ref).explicitDrain = true ∧
      ∀ id, (pool.beginRetainedDrainLocked ref now).1.serving id = pool.serving id := by
  obtain ⟨hblock, hexplicit, hrecords, hsame⟩ : pool.Block held pins undrained deleted
      (pool.drainLocked ref) ∧ _ := Pool.drainLocked_block h (h.named _ _ hlookup).1
  have hevolves : (pool.drainLocked ref).Evolves undrained deleted
      ((pool.drainLocked ref).modify ref fun record =>
        { record with waiters := record.waiters + 1 }) :=
    .of_fields fun _ => ⟨rfl, rfl, rfl, rfl, rfl, rfl⟩
  refine ⟨hblock.inv.setWaiters (· + 1) ?_, hblock.evolves.trans hevolves (fun _ hgone => hgone)
    (fun _ _ _ hgone => hgone), hrecords, ?_, fun id => ?_⟩
  · rw [hrecords, (hsame ref).2, hlookup]
  · simp only [Pool.beginRetainedDrainLocked, Pool.modify_heap_self]
    exact hexplicit
  · simp only [Pool.beginRetainedDrainLocked]
    rw [Pool.serving_modify_same rfl rfl]
    exact Pool.serving_congr (by rw [hrecords]) fun other _ => hsame other

/-- The loop of `BeginRetainedPodDrain`. -/
theorem Pool.beginRetainedDrains_spec (now : Int) {refs : List Nat} (h : pool.Inv held pins)
    (hrefs : ∀ ref ∈ refs, pool.records.lookup (pool.heap ref).backend.id = some ref) :
    (pool.beginRetainedDrains now refs).1.Inv held (fun ref => pins ref +
        (pool.beginRetainedDrains now refs).2.countP fun drain => drain.record = ref) ∧
      pool.Evolves undrained deleted (pool.beginRetainedDrains now refs).1 ∧
      ∀ id, (pool.beginRetainedDrains now refs).1.serving id = pool.serving id := by
  induction refs generalizing pool pins with
  | nil => exact ⟨by simpa [Pool.beginRetainedDrains] using h, .refl _ _ _, fun _ => rfl⟩
  | cons ref refs ih =>
    obtain ⟨hinv, hevolves, hrecords, -, hserving⟩ : _ ∧ pool.Evolves undrained deleted _ ∧ _ :=
      Pool.beginRetainedDrainLocked_spec h now (hrefs ref List.mem_cons_self)
    obtain ⟨hinv', hevolves', hserving'⟩ := ih hinv fun other hother => by
      have hlookup := hrefs other (List.mem_cons_of_mem _ hother)
      rw [hrecords, (hevolves.record other (h.named _ _ hlookup).1).id, hlookup]
    refine ⟨hinv'.congr_pins fun other => ?_,
      hevolves.trans hevolves' (fun _ hgone => hgone) (fun _ _ _ hgone => hgone),
      fun id => (hserving' id).trans (hserving id)⟩
    simp only [Pool.beginRetainedDrains, List.countP_cons]
    by_cases hne : other = ref
    · subst hne
      simp
      omega
    · simp [hne, Ne.symm hne]

end Pool

/-! ## The leases and the pins of the system -/

/-- The invariant of the pool for the leases and the pins of its callers. -/
def System.Inv (system : System) : Prop := system.pool.Inv system.unreleased system.pins

section Lists

theorem System.unreleased_append (system : System) (pool : Pool) (lease : Lease) :
    ({ system with pool := pool, leases := system.leases ++ [(lease, .held)] } : System).unreleased =
      system.unreleased ++ [lease] := by
  simp [System.unreleased]

/-- The exchange of `Release` does not change which leases are unreleased. -/
theorem System.unreleased_releasing {hold : Hold}
    (hlease : system.leases[index]? = some (lease, hold)) (hhold : hold ≠ .released) :
    system.unreleased.Perm
      ({ system with leases := system.leases.set index (lease, .releasing) } : System).unreleased := by
  obtain ⟨hindex, hget⟩ := List.getElem?_eq_some_iff.mp hlease
  have hold' := (List.getElem_cons_eraseIdx_perm hindex).symm
  have hnew := List.set_perm_cons_eraseIdx hindex (lease, Hold.releasing)
  rw [hget] at hold'
  refine ((hold'.filter _).map _).trans (.trans ?_ ((hnew.filter _).map _).symm)
  simp [hhold]

/-- The locked block of `Release` takes the lease off. -/
theorem System.unreleased_released {hold : Hold}
    (hlease : system.leases[index]? = some (lease, hold)) (hhold : hold ≠ .released) (pool : Pool) :
    system.unreleased.Perm (lease :: ({ system with
      pool := pool
      leases := system.leases.set index (lease, .released) } : System).unreleased) := by
  obtain ⟨hindex, hget⟩ := List.getElem?_eq_some_iff.mp hlease
  have hold' := (List.getElem_cons_eraseIdx_perm hindex).symm
  have hnew := List.set_perm_cons_eraseIdx hindex (lease, Hold.released)
  rw [hget] at hold'
  refine ((hold'.filter _).map _).trans (.trans ?_ (((hnew.filter _).map _).symm.cons _))
  simp [hhold]

/-- The pins after a change of the state of one drain. -/
theorem System.pins_setDrain {pin : Pin} (hdrain : system.drains[index]? = some (drain, pin))
    (hpin : pin ≠ .closed) (pin' : Pin) (pool : Pool) :
    ({ system with pool := pool, drains := system.drains.set index (drain, pin') } : System).pins =
      if pin' = .closed then Function.update system.pins drain.record (system.pins drain.record - 1)
      else system.pins := by
  obtain ⟨hindex, hget⟩ := List.getElem?_eq_some_iff.mp hdrain
  have hcount : ∀ ref, (system.drains.set index (drain, pin')).countP
        (fun entry => entry.2 ≠ .closed ∧ entry.1.record = ref) +
        (if drain.record = ref then 1 else 0) =
      system.drains.countP (fun entry => entry.2 ≠ .closed ∧ entry.1.record = ref) +
        (if pin' ≠ .closed ∧ drain.record = ref then 1 else 0) := by
    intro ref
    have hold := (List.getElem_cons_eraseIdx_perm hindex).countP_eq
      (fun entry => decide (entry.2 ≠ Pin.closed ∧ entry.1.record = ref))
    have hnew := (List.set_perm_cons_eraseIdx hindex (drain, pin')).countP_eq
      (fun entry => decide (entry.2 ≠ Pin.closed ∧ entry.1.record = ref))
    rw [hget] at hold
    rw [hnew, ← hold, List.countP_cons, List.countP_cons]
    simp [hpin]
    omega
  funext ref
  have hthis := hcount ref
  by_cases hclosed : pin' = .closed
  · by_cases href : ref = drain.record
    · subst href
      simp [System.pins, hclosed] at hthis ⊢
      omega
    · simp [System.pins, hclosed, href, Ne.symm href] at hthis ⊢
      omega
  · by_cases href : ref = drain.record
    · subst href
      simp [System.pins, hclosed] at hthis ⊢
      omega
    · simp [System.pins, hclosed, Ne.symm href] at hthis ⊢
      omega

/-- A call of `Wait` or `WaitDrained` begins. -/
theorem System.pins_newWait (hcall : call ∉ system.waiting) (waiting : Waiting) (pool : Pool)
    (ref : Nat) :
    (({ system with pool := pool } : System).putWait call waiting).pins ref =
      system.pins ref + (if waiting.pinned ∧ waiting.record = ref then 1 else 0) := by
  have hlookup : system.waiting.lookup call = none := AList.lookup_eq_none.mpr hcall
  simp only [System.pins, System.putWait, AList.total_insert_new _ waiting hlookup]
  omega

/-- A call of `Wait` or `WaitDrained` goes on. -/
theorem System.pins_putWait (hcall : system.waiting.lookup call = some waiting) (pc : WaitPc)
    (ref : Nat) : (system.putWait call { waiting with pc := pc }).pins ref = system.pins ref := by
  simp only [System.pins, System.putWait, AList.total_insert_replace _ _ hcall]
  omega

/-- A call of `Wait` or `WaitDrained` ends. -/
theorem System.pins_eraseWait (hcall : system.waiting.lookup call = some waiting) (pool : Pool)
    (ref : Nat) :
    ({ system with pool := pool, waiting := system.waiting.erase call } : System).pins ref =
      system.pins ref - (if waiting.pinned ∧ waiting.record = ref then 1 else 0) := by
  simp only [System.pins, AList.total_erase _ hcall]
  omega

/-- A pin of a call or of a drain is counted. -/
theorem System.pins_waiting_pos (hcall : system.waiting.lookup call = some waiting)
    (hpinned : waiting.pinned = true) : system.pins waiting.record ≠ 0 := by
  have hweight := AList.weight_le_total
    (fun other : Waiting => if other.pinned ∧ other.record = waiting.record then (1 : Int) else 0)
    (fun _ _ _ => by split <;> simp) hcall
  simp only [hpinned, and_self, if_true] at hweight
  unfold System.pins
  omega

theorem System.pins_drain_pos {pin : Pin} (hdrain : system.drains[index]? = some (drain, pin))
    (hpin : pin ≠ .closed) : system.pins drain.record ≠ 0 := by
  have hcount : 0 < system.drains.countP
      (fun entry => entry.2 ≠ .closed ∧ entry.1.record = drain.record) :=
    List.countP_pos_iff.mpr ⟨(drain, pin), List.mem_of_getElem? hdrain, by simp [hpin]⟩
  have htotal : 0 ≤ system.waiting.total
      (fun other : Waiting => if other.pinned ∧ other.record = drain.record then (1 : Int) else 0) := by
    unfold AList.total
    refine List.sum_nonneg fun x hx => ?_
    obtain ⟨entry, -, rfl⟩ := List.mem_map.mp hx
    show (0 : Int) ≤ if entry.2.pinned ∧ entry.2.record = drain.record then 1 else 0
    split <;> simp
  unfold System.pins
  omega

end Lists

/-! ## Steps -/

/-- The records that leave the map in a step: those that the controller drops while nothing
holds them, and retired ones that lose their last lease or their last pin. -/
def System.deletes (system : System) : Event → Nat → Bool
  | .controller call, ref => system.pool.controllerDeletes call ref
  | .releaseLocked lease, ref =>
    system.leases[lease]?.any fun entry =>
      entry.1.record = ref && entry.2 = .releasing && (system.pool.heap ref).retired &&
        (system.pool.heap ref).inFlight = 1 && (system.pool.heap ref).waiters = 0
  | .closeLocked drain, ref =>
    system.drains[drain]?.any fun entry =>
      entry.1.record = ref && entry.2 = .closing && (system.pool.heap ref).retired &&
        (system.pool.heap ref).inFlight = 0 && (system.pool.heap ref).waiters = 1
  | .leave call, ref =>
    (system.waiting.lookup call).any fun waiting =>
      waiting.record = ref && (system.pool.heap ref).retired &&
        (system.pool.heap ref).inFlight = 0 && (system.pool.heap ref).waiters = 1
  | _, _ => false

/-- `Undrain` succeeds for the identifier. -/
def Undrained (event : Event) (reply : Reply) (id : ID) : Prop :=
  ∃ now state, event = .observe id .undrain now ∧ reply = .state state

/-- What the call behind a block that may grant a lease has asked for: the model, the
excluded backends and the reading of the clock. -/
def System.request (system : System) : Event → Option (Option String × List ID × Int)
  | .take call now =>
    (system.acquiring.lookup call).map fun acquiring => (acquiring.model, acquiring.excluded, now)
  | .acquireID _ _ now => some (none, [], now)
  | _ => none

/-- What a lease that was granted to a request says about the record before the step. -/
structure Record.Grantable (record : Record) (model : Option String) (excluded : List ID)
    (now : Int) : Prop where
  health : record.health = .healthHealthy
  retired : record.retired = false
  draining : record.draining = false
  quarantine : record.quarantinedUntil ≤ now
  excluded : record.backend.id ∉ excluded
  model : ∀ requested, model = some requested → backendServesModel record.backend requested = true

theorem Record.grantable_iff {record : Record} : record.Grantable model excluded now ↔
      record.eligible excluded now = true ∧ model.all (backendServesModel record.backend) = true := by
  constructor
  · rintro ⟨hhealth, hretired, hdraining, hquarantine, hexcluded, hmodel⟩
    refine ⟨by simp [Record.eligible, hhealth, hretired, hdraining, hquarantine, hexcluded], ?_⟩
    cases model with
    | none => rfl
    | some requested => exact hmodel requested rfl
  · rintro ⟨heligible, hmodel⟩
    simp only [Record.eligible, Bool.and_eq_true, Bool.not_eq_true', decide_eq_true_eq] at heligible
    obtain ⟨⟨⟨⟨hretired, hhealth⟩, hdraining⟩, hquarantine⟩, hexcluded⟩ := heligible
    refine ⟨hhealth, hretired, hdraining, hquarantine, hexcluded, ?_⟩
    rintro requested rfl
    exact hmodel

/-- What a granted lease says about the state before the step. -/
structure System.Granted (system : System) (event : Event) (lease : Lease) : Prop where
  stored : system.pool.records.lookup (system.pool.heap lease.record).backend.id = some lease.record
  asked : ∃ model excluded now, system.request event = some (model, excluded, now) ∧
    (system.pool.heap lease.record).Grantable model excluded now
  backend : lease.backend.backend = (system.pool.heap lease.record).backend

/-- What a wait that returns without an error says about its record. -/
def System.Drained (system : System) (event : Event) : Prop :=
  ∃ call now waiting, event = .waitTurn call now ∧ system.waiting.lookup call = some waiting ∧
    (system.pool.heap waiting.record).draining = true ∧
    (system.pool.heap waiting.record).inFlight = 0

/-- What the answers of the calls say about the state before the step. -/
def System.Answered (system : System) (event : Event) : Reply → Prop
  | .granted lease => system.Granted event lease
  | .drained _ => system.Drained event
  | _ => True

/-- The probes under way after a step. -/
def System.probesAfter (system : System) : Event → List ProbeTarget
  | .probeTargets => system.probes ++ system.pool.probeTargets
  | .probeOne probe _ _ _ => system.probes.eraseIdx probe
  | _ => system.probes

/-- What a step does to the calls under way: only its own events change the probes, and a call
of `acquire` keeps the model that it was made for. -/
structure System.Frame (system : System) (event : Event) (system' : System) : Prop where
  probes : system'.probes = system.probesAfter event
  calls : ∀ call acquiring', system'.acquiring.lookup call = some acquiring' →
    (∃ acquiring, system.acquiring.lookup call = some acquiring ∧
      acquiring.model = acquiring'.model) ∨
    ∃ owner excluded, event = .acquire call owner acquiring'.model excluded

/-- What a step does. -/
structure System.Step (system : System) (event : Event) (reply : Reply) (system' : System) :
    Prop where
  inv : system'.Inv
  evolves : system.pool.Evolves (Undrained event reply)
    (fun ref => system.deletes event ref = true) system'.pool
  serving : (∀ call, event ≠ .controller call) →
    ∀ id, system'.pool.serving id = system.pool.serving id
  answered : system.Answered event reply
  frame : system.Frame event system'

theorem System.answered_of {α : Type} {ok : α → Reply}
    (hok : ∀ value, system.Answered event (ok value)) (result : Except PoolError α) :
    system.Answered event (Reply.of ok result) := by
  cases result with
  | error problem => trivial
  | ok value => exact hok value

namespace System.Frame

/-- A step that leaves the calls of `acquire` alone. -/
theorem of_acquiring (hprobes : system'.probes = system.probesAfter event)
    (hacquiring : system'.acquiring = system.acquiring) : system.Frame event system' :=
  ⟨hprobes, fun _ acquiring' hcall => .inl ⟨acquiring', hacquiring ▸ hcall, rfl⟩⟩

theorem erase (hprobes : system'.probes = system.probesAfter event)
    (hacquiring : system'.acquiring = system.acquiring.erase call) :
    system.Frame event system' := by
  refine ⟨hprobes, fun other acquiring' hother => .inl ⟨acquiring', ?_, rfl⟩⟩
  rw [hacquiring] at hother
  by_cases heq : other = call
  · rw [heq, AList.lookup_erase] at hother
    cases hother
  · rwa [AList.lookup_erase_ne heq] at hother

theorem put (hprobes : system'.probes = system.probesAfter event) {acquiring' : Acquiring}
    (hcall : system.acquiring.lookup call = some acquiring)
    (hacquiring : system'.acquiring = system.acquiring.insert call acquiring')
    (hmodel : acquiring.model = acquiring'.model) : system.Frame event system' := by
  refine ⟨hprobes, fun other acquiring'' hother => .inl ?_⟩
  rw [hacquiring] at hother
  by_cases heq : other = call
  · rw [heq, AList.lookup_insert] at hother
    cases hother
    exact ⟨acquiring, heq ▸ hcall, hmodel⟩
  · rw [AList.lookup_insert_ne heq] at hother
    exact ⟨acquiring'', hother, rfl⟩

end System.Frame

namespace System.Step

variable {reply : Reply}

/-- A step that leaves the pool and counts the same leases and pins. -/
theorem of_pool_eq (h : system.Inv) (hpool : system'.pool = system.pool)
    (hheld : system.unreleased.Perm system'.unreleased)
    (hpins : ∀ ref, system'.pins ref = system.pins ref) (hreply : system.Answered event reply)
    (hframe : system.Frame event system') :
    system.Step event reply system' where
  inv := by
    unfold System.Inv at h ⊢
    rw [hpool]
    exact (h.perm hheld).congr_pins hpins
  evolves := by
    rw [hpool]
    exact .refl _ _ _
  serving := fun _ id => by rw [hpool]
  answered := hreply
  frame := hframe

theorem refl (h : system.Inv) (hreply : system.Answered event reply)
    (hprobes : system.probes = system.probesAfter event) : system.Step event reply system :=
  of_pool_eq h rfl (.refl _) (fun _ => rfl) hreply (.of_acquiring hprobes rfl)

/-- A step that is computed as a pair. -/
theorem of_eq {result : System × Reply} (hstep : system.Step event result.2 result.1)
    (h : some result = some (system', reply)) : system.Step event reply system' := by
  cases h
  exact hstep

theorem controller (h : system.Inv) (call : Controller) :
    system.Step (.controller call) (system.pool.controller call).2
      { system with pool := (system.pool.controller call).1 } := by
  have hblock : system.pool.Block system.unreleased system.pins
      (Undrained (.controller call) (system.pool.controller call).2)
      (fun ref => system.pool.controllerDeletes call ref = true)
      (system.pool.controller call).1 := Pool.controller_block h call
  refine ⟨hblock.inv, hblock.evolves, fun hnot => absurd rfl (hnot call), ?_,
    .of_acquiring rfl rfl⟩
  cases call <;> refine System.answered_of ?_ _ <;> exact fun _ => trivial

theorem observe (h : system.Inv) (id : ID) (observation : Observation) (now : Int) :
    system.Step (.observe id observation now) (system.pool.observe id now observation).2
      { system with pool := (system.pool.observe id now observation).1 } := by
  obtain ⟨hblock, hserving⟩ : system.pool.Block system.unreleased system.pins _ (fun _ => False) _ ∧ _ :=
    Pool.observe_block h id observation now
  refine ⟨hblock.inv, hblock.evolves.imp ?_ fun _ _ _ hgone => hgone.elim, fun _ => hserving, ?_,
    .of_acquiring rfl rfl⟩
  · rintro other ⟨rfl, rfl, ref, hfind⟩
    exact ⟨now, _, rfl, by simp only [Pool.observe, Pool.undrain, hfind]; rfl⟩
  · cases observation <;> refine System.answered_of ?_ _ <;> exact fun _ => trivial

/-- A block that grants a lease on a record that the call may have. -/
theorem grant (h : system.Inv) {ref : Nat} {acquiring : AList fun _ : Nat => Acquiring}
    (hrequest : system.request event = some (model, excluded, now))
    (hlookup : system.pool.records.lookup (system.pool.heap ref).backend.id = some ref)
    (heligible : (system.pool.heap ref).eligible excluded now = true)
    (hserves : model.all (backendServesModel (system.pool.heap ref).backend) = true)
    (hframe : system.Frame event { system with acquiring := acquiring }) :
    system.Step event
      (({ system with acquiring := acquiring } : System).grant
        (system.pool.acquireLocked ref owner now)).2
      (({ system with acquiring := acquiring } : System).grant
        (system.pool.acquireLocked ref owner now)).1 := by
  cases hacquire : system.pool.acquireLocked ref owner now with
  | mk pool result =>
    cases result with
    | error problem =>
      have hpool : pool = system.pool := by
        unfold Pool.acquireLocked at hacquire
        split at hacquire
        · cases hacquire
          rfl
        · cases hacquire
      exact of_pool_eq h hpool (.refl _) (fun _ => rfl) trivial ⟨hframe.probes, hframe.calls⟩
    | ok lease =>
      obtain ⟨hinv, hevolves, rfl, -, hbackend, hserving⟩ := Pool.acquireLocked_ok h hlookup hacquire
      refine ⟨?_, hevolves, fun _ => hserving, ?_, ⟨hframe.probes, hframe.calls⟩⟩
      · unfold System.Inv
        rw [System.grant, System.unreleased_append]
        exact hinv
      · exact ⟨hlookup, ⟨model, excluded, now, hrequest,
          Record.grantable_iff.mpr ⟨heligible, hserves⟩⟩, hbackend⟩

theorem take (h : system.Inv) {chosen : ID} (now : Int)
    (hcall : system.acquiring.lookup call = some acquiring) :
    system.Step (.take call now) (system.take call acquiring chosen now).2
      (system.take call acquiring chosen now).1 := by
  unfold System.take
  cases hchoice : system.pool.eligibleChoice chosen acquiring.model acquiring.excluded now with
  | some ref =>
    obtain ⟨hlookup, hcheck⟩ := Option.filter_eq_some_iff.mp hchoice
    rw [Bool.and_eq_true] at hcheck
    have hname := (h.named chosen ref hlookup).2
    exact grant h (by simp [System.request, hcall]) (hname.symm ▸ hlookup) hcheck.1 hcheck.2
      (.erase rfl rfl)
  | none =>
    simp only
    split
    · exact of_pool_eq h rfl (.refl _) (fun _ => rfl) trivial (.put rfl hcall rfl rfl)
    · exact of_pool_eq h rfl (.refl _) (fun _ => rfl) trivial (.erase rfl rfl)

theorem acquireID (h : system.Inv) (id : ID) (owner : String) (now : Int) :
    system.Step (.acquireID id owner now) (system.grant (system.pool.acquireID id owner now)).2
      (system.grant (system.pool.acquireID id owner now)).1 := by
  unfold Pool.acquireID
  cases hfind : system.pool.find id with
  | error problem => exact refl h trivial rfl
  | ok ref =>
    obtain ⟨hlookup, -⟩ := Pool.find_ok hfind
    have hname := (h.named id ref hlookup).2
    simp only
    split
    · rename_i heligible
      exact grant h rfl (hname.symm ▸ hlookup) heligible rfl (.of_acquiring rfl rfl)
    · exact refl h trivial rfl

theorem releaseLocked (h : system.Inv) (hlease : system.leases[index]? = some (lease, .releasing)) :
    system.Step (.releaseLocked index) .none
      { system with
        pool := system.pool.releaseLocked lease
        leases := system.leases.set index (lease, .released) } := by
  have hperm := System.unreleased_released hlease (by simp) (system.pool.releaseLocked lease)
  obtain ⟨hinv, hevolves, hserving⟩ : _ ∧ system.pool.Evolves
      (Undrained (.releaseLocked index) .none)
      (fun ref => system.deletes (.releaseLocked index) ref = true) _ ∧ _ :=
    Pool.releaseLocked_spec (h.perm hperm) fun hretired hinFlight hwaiters => by
      simp [System.deletes, hlease, hretired, hinFlight, hwaiters]
  exact ⟨hinv, hevolves, fun _ => hserving, trivial, .of_acquiring rfl rfl⟩

/-- The end of a pin of a drain or of a call. -/
theorem unpin (h : system.Inv) (hpool : system'.pool = system.pool.unpin ref)
    (hheld : system'.unreleased = system.unreleased) (hpin : system.pins ref ≠ 0)
    (hpins : ∀ other, system'.pins other =
      Function.update system.pins ref (system.pins ref - 1) other)
    (hdeleted : (system.pool.heap ref).retired = true → (system.pool.heap ref).inFlight = 0 →
      (system.pool.heap ref).waiters = 1 → system.deletes event ref = true)
    (hframe : system.Frame event system') : system.Step event .none system' := by
  obtain ⟨hinv, hevolves, hserving⟩ : _ ∧ system.pool.Evolves (Undrained event .none)
      (fun ref => system.deletes event ref = true) _ ∧ _ := Pool.unpin_spec h hpin hdeleted
  refine ⟨?_, hpool ▸ hevolves, fun _ id => hpool ▸ hserving id, trivial, hframe⟩
  unfold System.Inv
  rw [hpool, hheld]
  exact hinv.congr_pins hpins

theorem closeLocked (h : system.Inv) (hdrain : system.drains[index]? = some (drain, .closing)) :
    system.Step (.closeLocked index) .none
      { system with
        pool := system.pool.unpin drain.record
        drains := system.drains.set index (drain, .closed) } := by
  refine unpin h rfl rfl (System.pins_drain_pos hdrain (by simp)) (fun other => ?_)
    (fun hretired hinFlight hwaiters => by
      simp [System.deletes, hdrain, hretired, hinFlight, hwaiters]) (.of_acquiring rfl rfl)
  rw [System.pins_setDrain hdrain (by simp), if_pos rfl]

theorem leave (h : system.Inv) (hcall : system.waiting.lookup call = some waiting)
    (hpinned : waiting.pinned = true) :
    system.Step (.leave call) .none
      { system with
        pool := system.pool.unpin waiting.record
        waiting := system.waiting.erase call } := by
  refine unpin h rfl rfl (System.pins_waiting_pos hcall hpinned) (fun other => ?_)
    (fun hretired hinFlight hwaiters => by
      simp [System.deletes, hcall, hretired, hinFlight, hwaiters]) (.of_acquiring rfl rfl)
  rw [System.pins_eraseWait hcall]
  by_cases hother : other = waiting.record
  · subst hother
    simp [hpinned]
  · simp [hother, Ne.symm hother]

theorem beginRetainedDrain (h : system.Inv) (id : ID) (now : Int) :
    system.Step (.beginRetainedDrain id now) (system.beginRetainedDrain id now).2
      (system.beginRetainedDrain id now).1 := by
  unfold System.beginRetainedDrain
  cases ID.validate id with
  | some problem => exact refl h trivial rfl
  | none =>
    cases hlookup : system.pool.records.lookup id with
    | none => exact refl h trivial rfl
    | some ref =>
      have hname := (h.named id ref hlookup).2
      obtain ⟨hinv, hevolves, -, -, hserving⟩ :=
        Pool.beginRetainedDrainLocked_spec h now (hname.symm ▸ hlookup)
      refine ⟨hinv.congr_pins fun other => ?_, hevolves, fun _ => hserving,
        trivial, .of_acquiring rfl rfl⟩
      simp only [System.pins, List.countP_append, List.countP_singleton]
      by_cases hother : other = ref
      · subst hother
        simp
        omega
      · simp [System.pins, hother, Ne.symm hother]

theorem beginRetainedPodDrain (h : system.Inv) (podNamespace podName : String) (now : Int) :
    system.Step (.beginRetainedPodDrain podNamespace podName now)
      (system.beginRetainedPodDrain podNamespace podName now).2
      (system.beginRetainedPodDrain podNamespace podName now).1 := by
  unfold System.beginRetainedPodDrain
  split
  · exact refl h trivial rfl
  · have hstored : ∀ ref ∈ system.pool.podRecords podNamespace podName,
        system.pool.records.lookup (system.pool.heap ref).backend.id = some ref := by
      intro ref href
      obtain ⟨entry, hentry, rfl⟩ := List.mem_map.mp (List.mem_of_mem_filter href)
      have hlookup := AList.mem_lookup_iff.mpr hentry
      rw [(h.named entry.1 entry.2 hlookup).2]
      exact hlookup
    obtain ⟨hinv, hevolves, hserving⟩ := Pool.beginRetainedDrains_spec now h hstored
    refine ⟨hinv.congr_pins fun other => ?_, hevolves, fun _ => hserving,
      trivial, .of_acquiring rfl rfl⟩
    simp only [System.pins, List.countP_append, List.countP_map]
    rw [(List.perm_insertionSort _ _).countP_eq]
    have hsame : List.countP ((fun entry : RetainedDrain × Pin =>
        decide (entry.2 ≠ Pin.closed ∧ entry.1.record = other)) ∘ fun drain => (drain, Pin.pinned))
          (system.pool.beginRetainedDrains now (system.pool.podRecords podNamespace podName)).2 =
        List.countP (fun drain => decide (drain.record = other))
          (system.pool.beginRetainedDrains now (system.pool.podRecords podNamespace podName)).2 := by
      refine List.countP_congr fun drain _ => by simp
    rw [hsame]
    omega

theorem waitDrained (h : system.Inv) (hcall : call ∉ system.waiting) (id : ID) :
    system.Step (.waitDrained call id) (system.waitDrained call id).2
      (system.waitDrained call id).1 := by
  unfold System.waitDrained
  cases hfind : system.pool.find id with
  | error problem => exact refl h trivial rfl
  | ok ref =>
    simp only
    split
    · exact refl h trivial rfl
    · obtain ⟨hlookup, -⟩ := Pool.find_ok hfind
      have hname := (h.named id ref hlookup).2
      have hinv := h.setWaiters (· + 1) (hname.symm ▸ hlookup)
      have hevolves : system.pool.Evolves (Undrained (.waitDrained call id) .none)
          (fun ref => system.deletes (.waitDrained call id) ref = true)
          (system.pool.modify ref fun record => { record with waiters := record.waiters + 1 }) :=
        .of_fields fun _ => ⟨rfl, rfl, rfl, rfl, rfl, rfl⟩
      refine ⟨hinv.congr_pins fun other => ?_, hevolves,
        fun _ other => Pool.serving_modify_same rfl rfl other, trivial, .of_acquiring rfl rfl⟩
      refine (System.pins_newWait hcall ⟨ref, true, .turn⟩ _ other).trans ?_
      by_cases hother : other = ref
      · subst hother
        simp
      · simp [hother, Ne.symm hother]

/-- A call of `Wait` or `WaitDrained` ends or goes on. -/
theorem endWait (h : system.Inv) (hcall : system.waiting.lookup call = some waiting)
    (hreply : system.Answered event reply) (hprobes : system.probes = system.probesAfter event) :
    system.Step event reply (system.endWait call waiting) := by
  unfold System.endWait
  split
  · exact of_pool_eq h rfl (.refl _) (System.pins_putWait hcall .leaving) hreply
      (.of_acquiring hprobes rfl)
  · rename_i hpinned
    refine of_pool_eq h rfl (.refl _) (fun ref => ?_) hreply (.of_acquiring hprobes rfl)
    refine (System.pins_eraseWait hcall system.pool ref).trans ?_
    simp [hpinned]

theorem waitTurn (h : system.Inv) (now : Int) (hcall : system.waiting.lookup call = some waiting) :
    system.Step (.waitTurn call now) (system.waitTurn call waiting now).2
      (system.waitTurn call waiting now).1 := by
  unfold System.waitTurn
  cases hturn : system.pool.waitTurn waiting.record now with
  | notDraining state => exact endWait h hcall trivial rfl
  | drained state =>
    refine endWait h hcall ⟨call, now, waiting, rfl, hcall, ?_⟩ rfl
    simp only [Pool.waitTurn] at hturn
    split at hturn
    · cases hturn
    · rename_i hdraining
      split at hturn
      · rename_i hinFlight
        exact ⟨by simpa using hdraining, hinFlight⟩
      · cases hturn
  | blocked changed =>
    exact of_pool_eq h rfl (.refl _) (System.pins_putWait hcall (.asleep changed)) trivial
      (.of_acquiring rfl rfl)

theorem choose (h : system.Inv) (now choice : Int)
    (hcall : system.acquiring.lookup call = some acquiring) :
    system.Step (.choose call now choice) (system.choose call acquiring now choice).2
      (system.choose call acquiring now choice).1 := by
  simp only [System.choose]
  split
  · exact of_pool_eq h rfl (.refl _) (fun _ => rfl) trivial (.erase rfl rfl)
  · split
    · exact of_pool_eq h rfl (.refl _) (fun _ => rfl) trivial (.erase rfl rfl)
    · exact of_pool_eq h rfl (.refl _) (fun _ => rfl) trivial (.put rfl hcall rfl rfl)

theorem probeOne (h : system.Inv) (index : Nat) (target : ProbeTarget) (err : Option String)
    (now : Int) :
    system.Step (.probeOne index false err now) (.probed (system.pool.probeOne target err now).2)
      { system with
        probes := system.probes.eraseIdx index
        pool := (system.pool.probeOne target err now).1 } := by
  obtain ⟨hblock, hserving⟩ := Pool.probeOne_block h target err now
  exact ⟨hblock.inv, hblock.evolves, fun _ => hserving, trivial, .of_acquiring rfl rfl⟩

end System.Step

/-- Every step keeps the invariant and changes the records as it may. -/
theorem System.exec_spec {reply : Reply} (h : system.Inv)
    (hexec : system.exec event = some (system', reply)) : system.Step event reply system' := by
  cases event with
  | controller call =>
    cases hexec
    exact .controller h call
  | observe id observation now =>
    cases hexec
    exact .observe h id observation now
  | acquire call owner model excluded =>
    simp only [System.exec] at hexec
    split at hexec
    · cases hexec
    · cases hproblem : acquireProblem model excluded with
      | some problem =>
        simp only [hproblem, Option.some.injEq, Prod.mk.injEq] at hexec
        obtain ⟨rfl, rfl⟩ := hexec
        exact .refl h trivial rfl
      | none =>
        simp only [hproblem, Option.some.injEq, Prod.mk.injEq] at hexec
        obtain ⟨rfl, rfl⟩ := hexec
        refine .of_pool_eq h rfl (.refl _) (fun _ => rfl) trivial
          ⟨rfl, fun other acquiring' hother => ?_⟩
        by_cases heq : other = call
        · subst heq
          rw [System.putAcquire, AList.lookup_insert] at hother
          cases hother
          exact .inr ⟨owner, excluded, rfl⟩
        · rw [System.putAcquire, AList.lookup_insert_ne heq] at hother
          exact .inl ⟨acquiring', hother, rfl⟩
  | choose call now choice =>
    obtain ⟨acquiring, hcall, hexec⟩ := Option.bind_eq_some_iff.mp hexec
    split at hexec
    · exact .of_eq (.choose h now choice hcall) hexec
    · cases hexec
  | take call now =>
    obtain ⟨acquiring, hcall, hexec⟩ := Option.bind_eq_some_iff.mp hexec
    obtain ⟨chosen, -, hexec⟩ := Option.map_eq_some_iff.mp hexec
    exact .of_eq (.take h now hcall) (congrArg some hexec)
  | acquireID id owner now =>
    exact .of_eq (.acquireID h id owner now) hexec
  | release index =>
    obtain ⟨⟨lease, hold⟩, hlease, hexec⟩ := Option.map_eq_some_iff.mp hexec
    simp only at hexec
    split at hexec
    · rename_i hheld
      cases hexec
      exact .of_pool_eq h rfl (System.unreleased_releasing hlease (by simp [hheld])) (fun _ => rfl)
        trivial (.of_acquiring rfl rfl)
    · cases hexec
      exact .refl h trivial rfl
  | releaseLocked index =>
    obtain ⟨⟨lease, hold⟩, hlease, hexec⟩ := Option.bind_eq_some_iff.mp hexec
    simp only at hexec
    split at hexec
    · rename_i hheld
      subst hheld
      cases hexec
      exact .releaseLocked h hlease
    · cases hexec
  | beginRetainedDrain id now =>
    exact .of_eq (.beginRetainedDrain h id now) hexec
  | beginRetainedPodDrain podNamespace podName now =>
    exact .of_eq (.beginRetainedPodDrain h podNamespace podName now) hexec
  | close index =>
    obtain ⟨⟨drain, pin⟩, hdrain, hexec⟩ := Option.map_eq_some_iff.mp hexec
    simp only at hexec
    split at hexec
    · rename_i hpinned
      cases hexec
      refine .of_pool_eq h rfl (.refl _) (fun ref => ?_) trivial (.of_acquiring rfl rfl)
      rw [System.pins_setDrain hdrain (by simp [hpinned]) .closing system.pool]
      simp
    · cases hexec
      exact .refl h trivial rfl
  | closeLocked index =>
    obtain ⟨⟨drain, pin⟩, hdrain, hexec⟩ := Option.bind_eq_some_iff.mp hexec
    simp only at hexec
    split at hexec
    · rename_i hclosing
      subst hclosing
      cases hexec
      exact .closeLocked h hdrain
    · cases hexec
  | wait call index =>
    simp only [System.exec] at hexec
    split at hexec
    · cases hexec
    · rename_i hcall
      obtain ⟨⟨drain, pin⟩, hdrain, hexec⟩ := Option.map_eq_some_iff.mp hexec
      simp only at hexec
      split at hexec
      · cases hexec
        refine .of_pool_eq h rfl (.refl _) (fun ref => ?_) trivial (.of_acquiring rfl rfl)
        exact (System.pins_newWait hcall ⟨drain.record, false, .turn⟩ system.pool ref).trans (by simp)
      · cases hexec
        exact .refl h trivial rfl
  | waitDrained call id =>
    simp only [System.exec] at hexec
    split at hexec
    · cases hexec
    · rename_i hcall
      exact .of_eq (.waitDrained h hcall id) hexec
  | waitTurn call now =>
    obtain ⟨waiting, hcall, hexec⟩ := Option.bind_eq_some_iff.mp hexec
    split at hexec
    · exact .of_eq (.waitTurn h now hcall) hexec
    · split at hexec
      · cases hexec
      · exact .of_eq (.waitTurn h now hcall) hexec
    · cases hexec
  | waitCanceled call now =>
    obtain ⟨waiting, hcall, hexec⟩ := Option.bind_eq_some_iff.mp hexec
    split at hexec
    · cases hexec
      refine .endWait h hcall ?_ rfl
      trivial
    · cases hexec
  | leave call =>
    obtain ⟨waiting, hcall, hexec⟩ := Option.bind_eq_some_iff.mp hexec
    split at hexec
    · rename_i hleaving
      cases hexec
      exact .leave h hcall hleaving.1
    · cases hexec
  | probeTargets =>
    cases hexec
    exact .of_pool_eq h rfl (.refl _) (fun _ => rfl) trivial (.of_acquiring rfl rfl)
  | probeOne index canceled err now =>
    obtain ⟨target, htarget, hexec⟩ := Option.map_eq_some_iff.mp hexec
    simp only at hexec
    cases canceled
    · cases hexec
      exact .probeOne h index target err now
    · cases hexec
      exact .of_pool_eq h rfl (.refl _) (fun _ => rfl) trivial (.of_acquiring rfl rfl)

end Streamweld.Backends
