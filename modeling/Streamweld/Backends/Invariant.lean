import Streamweld.Backends.System

/-!
# The invariant of the pool

`Pool.Inv` ties the pool to the leases and the pins that its callers hold: the map has every
record under its own identifier, and a record that is leased, pinned or not retired is in it.

`Record.Evolves` and `Pool.Evolves` say what a step may do to the records: an explicit drain
and the deadline of a quarantine are kept, and so is the address of a record that is not
revised.
-/

namespace Streamweld.Backends

open Streamweld.Lib

variable {ref : Nat} {record : Record} {f : Record → Record}

/-! ## The heap after an update -/

@[simp] theorem Pool.modify_heap_self (pool : Pool) (ref : Nat) (f : Record → Record) :
    (pool.modify ref f).heap ref = f (pool.heap ref) := by
  simp [Pool.modify]

theorem Pool.modify_heap_of_ne (pool : Pool) {other : Nat} (f : Record → Record) (h : other ≠ ref) :
    (pool.modify ref f).heap other = pool.heap other := by
  simp [Pool.modify, h]

/-- A notification changes nothing but the channel. -/
theorem Pool.notifyLocked_heap (pool : Pool) (ref other : Nat) :
    (pool.notifyLocked ref).heap other =
      { pool.heap other with changed := ((pool.notifyLocked ref).heap other).changed } := by
  by_cases h : other = ref
  · subst h
    simp [Pool.notifyLocked]
  · rw [Pool.notifyLocked, Pool.modify_heap_of_ne pool _ h]

theorem Pool.notifySelectionLocked_heap (pool : Pool) (ref other : Nat) :
    (pool.notifySelectionLocked ref).heap other =
      { pool.heap other with changed := ((pool.notifySelectionLocked ref).heap other).changed } :=
  pool.notifyLocked_heap ref other

/-- A retired record without leases and pins leaves the map; every other one stays. -/
theorem Pool.cleanupRetiredLocked_cases (pool : Pool) (ref : Nat) :
    pool.cleanupRetiredLocked ref = pool ∨
      ((pool.heap ref).retired = true ∧ (pool.heap ref).inFlight = 0 ∧
        (pool.heap ref).waiters = 0 ∧
        pool.records.lookup (pool.heap ref).backend.id = some ref ∧
        pool.cleanupRetiredLocked ref =
          { pool with records := pool.records.erase (pool.heap ref).backend.id }) := by
  simp only [Pool.cleanupRetiredLocked]
  split
  · rename_i h
    exact .inr ⟨h.1, h.2.1, h.2.2.1, h.2.2.2, rfl⟩
  · exact .inl rfl

@[simp] theorem Pool.cleanupRetiredLocked_heap (pool : Pool) (ref : Nat) :
    (pool.cleanupRetiredLocked ref).heap = pool.heap := by
  rcases pool.cleanupRetiredLocked_cases ref with hsame | ⟨-, -, -, -, hclean⟩
  · rw [hsame]
  · rw [hclean]

/-! ## The invariant -/

/-- What the flags of a record say about each other. -/
structure Record.Flags (record : Record) : Prop where
  draining : record.retired = true → record.draining = true
  retired : record.retirementDrain = true → record.retired = true

/-- The leases of all the records in the map. -/
def Pool.inFlightTotal (pool : Pool) : Int :=
  pool.records.total fun ref => ((pool.heap ref).inFlight : Int)

/-- The invariant of the pool, for the leases `held` whose release has not taken effect and
the numbers `pins` of the pins on each record that have not ended. -/
structure Pool.Inv (held : List Lease) (pins : Nat → Int) (pool : Pool) : Prop where
  /-- the map holds allocated records under their own identifier -/
  named : ∀ id ref, pool.records.lookup id = some ref →
    ref < pool.allocated ∧ (pool.heap ref).backend.id = id
  flags : ∀ ref < pool.allocated, (pool.heap ref).Flags
  normal : ∀ ref < pool.allocated,
    normalizeBackend (pool.heap ref).backend = .ok (pool.heap ref).backend
  /-- a record leaves the map only when it is retired and nothing holds it -/
  stored : ∀ ref < pool.allocated,
    (pool.heap ref).retired = false ∨ (pool.heap ref).inFlight ≠ 0 ∨ (pool.heap ref).waiters ≠ 0 →
      pool.records.lookup (pool.heap ref).backend.id = some ref
  bound : ∀ lease ∈ held, lease.record < pool.allocated ∧
    (pool.heap lease.record).leases.lookup lease.id = some lease.owner
  distinct : (held.map Lease.id).Nodup
  fresh : ∀ ref < pool.allocated, ∀ id ∈ (pool.heap ref).leases, id ≤ pool.nextLeaseID
  count : pool.inFlightTotal = held.length
  pinned : ∀ ref < pool.allocated, (pool.heap ref).waiters = pins ref
  pinsAllocated : ∀ ref, pins ref ≠ 0 → ref < pool.allocated

/-- A change of a record that leaves its identifier, its leases and its pins alone. -/
structure Record.Quiet (record record' : Record) : Prop where
  id : record'.backend.id = record.backend.id
  leases : record'.leases = record.leases
  waiters : record'.waiters = record.waiters
  flags : record'.Flags
  normal : normalizeBackend record'.backend = .ok record'.backend

theorem Record.Quiet.inFlight {record' : Record} (h : record.Quiet record') :
    record'.inFlight = record.inFlight := by
  rw [Record.inFlight, h.leases, Record.inFlight]

namespace Pool.Inv

variable {held : List Lease} {pins : Nat → Int} {pool : Pool}

/-- The order of the leases does not matter. -/
theorem perm {held' : List Lease} (h : pool.Inv held pins) (hheld : held.Perm held') :
    pool.Inv held' pins where
  named := h.named
  flags := h.flags
  normal := h.normal
  stored := h.stored
  bound := fun lease hlease => h.bound lease (hheld.mem_iff.mpr hlease)
  distinct := (hheld.map Lease.id).nodup_iff.mp h.distinct
  fresh := h.fresh
  count := by rw [h.count, hheld.length_eq]
  pinned := h.pinned
  pinsAllocated := h.pinsAllocated

theorem congr_pins {pins' : Nat → Int} (h : pool.Inv held pins)
    (hpins : ∀ ref, pins' ref = pins ref) : pool.Inv held pins' :=
  (funext hpins : pins' = pins) ▸ h

/-- A record is overwritten.  It keeps its identifier, and it has to be in the map unless
the new one is retired and free; the list of the leases and the pins follow its leases and
its waiters. -/
theorem overwrite (h : pool.Inv held pins) {held' : List Lease} {pins' : Nat → Int}
    (f : Record → Record) (nextLeaseID : Nat) (href : ref < pool.allocated)
    (hid : (f (pool.heap ref)).backend.id = (pool.heap ref).backend.id)
    (hflags : (f (pool.heap ref)).Flags)
    (hnormal : normalizeBackend (f (pool.heap ref)).backend = .ok (f (pool.heap ref)).backend)
    (hstored : (f (pool.heap ref)).retired = false ∨ (f (pool.heap ref)).inFlight ≠ 0 ∨
      (f (pool.heap ref)).waiters ≠ 0 →
        pool.records.lookup (pool.heap ref).backend.id = some ref)
    (hbound : ∀ lease ∈ held', lease.record < pool.allocated ∧
      ((pool.modify ref f).heap lease.record).leases.lookup lease.id = some lease.owner)
    (hdistinct : (held'.map Lease.id).Nodup) (hnext : pool.nextLeaseID ≤ nextLeaseID)
    (hfresh : ∀ id ∈ (f (pool.heap ref)).leases, id ≤ nextLeaseID)
    (hcount : ((f (pool.heap ref)).inFlight : Int) - (pool.heap ref).inFlight =
      (held'.length : Int) - held.length) (hpinned : (f (pool.heap ref)).waiters = pins' ref)
    (hpins : ∀ other ≠ ref, pins' other = pins other) :
    ({ pool.modify ref f with nextLeaseID := nextLeaseID } : Pool).Inv held' pins' := by
  have hself : ({ pool.modify ref f with nextLeaseID := nextLeaseID } : Pool).heap ref =
      f (pool.heap ref) := pool.modify_heap_self ref f
  have hother : ∀ other ≠ ref, ({ pool.modify ref f with nextLeaseID := nextLeaseID } : Pool).heap
      other = pool.heap other := fun other hne => pool.modify_heap_of_ne f hne
  refine ⟨?_, ?_, ?_, ?_, hbound, hdistinct, ?_, ?_, ?_, ?_⟩
  · intro id other hlookup
    obtain ⟨hallocated, hname⟩ := h.named id other hlookup
    refine ⟨hallocated, ?_⟩
    by_cases hne : other = ref
    · rw [hne, hself, hid, ← hne, hname]
    · rw [hother other hne, hname]
  · intro other hallocated
    by_cases hne : other = ref
    · rwa [hne, hself]
    · rw [hother other hne]
      exact h.flags other hallocated
  · intro other hallocated
    by_cases hne : other = ref
    · rwa [hne, hself]
    · rw [hother other hne]
      exact h.normal other hallocated
  · intro other hallocated hheld
    by_cases hne : other = ref
    · rw [hne, hself] at hheld ⊢
      rw [hid]
      exact hstored hheld
    · rw [hother other hne] at hheld ⊢
      exact h.stored other hallocated hheld
  · intro other hallocated id hmem
    by_cases hne : other = ref
    · rw [hne, hself] at hmem
      exact hfresh id hmem
    · rw [hother other hne] at hmem
      exact (h.fresh other hallocated id hmem).trans hnext
  · have hold : pool.records.total (fun other => ((pool.heap other).inFlight : Int)) =
        held.length := h.count
    by_cases hlookup : pool.records.lookup (pool.heap ref).backend.id = some ref
    · have htotal := AList.total_update (fun other => ((pool.heap other).inFlight : Int))
        (fun other => (((pool.modify ref f).heap other).inFlight : Int)) hlookup
        fun id other hmem hne => by
          rw [Pool.modify_heap_of_ne]
          rintro rfl
          exact hne (h.named id other hmem).2.symm
      refine htotal.trans ?_
      rw [hold, Pool.modify_heap_self]
      omega
    · -- a record outside the map has no leases, before and after
      have hnew : (f (pool.heap ref)).inFlight = 0 := by
        by_contra hne
        exact hlookup (hstored (.inr (.inl hne)))
      have hprev : (pool.heap ref).inFlight = 0 := by
        by_contra hne
        exact hlookup (h.stored ref href (.inr (.inl hne)))
      have htotal : pool.records.total
          (fun other => (((pool.modify ref f).heap other).inFlight : Int)) = held.length := by
        rw [← hold]
        refine AList.total_congr fun id other hmem => ?_
        rw [Pool.modify_heap_of_ne]
        rintro rfl
        exact hlookup ((h.named id other hmem).2 ▸ hmem)
      refine htotal.trans ?_
      omega
  · intro other hallocated
    by_cases hne : other = ref
    · rw [hne, hself, hpinned]
    · rw [hother other hne, hpins other hne]
      exact h.pinned other hallocated
  · intro other hpin
    by_cases hne : other = ref
    · exact hne ▸ href
    · exact h.pinsAllocated other (hpins other hne ▸ hpin)

/-- The leases are still on their records after a change of other fields. -/
theorem bound_modify (h : pool.Inv held pins)
    (hleases : (f (pool.heap ref)).leases = (pool.heap ref).leases) :
    ∀ lease ∈ held, lease.record < pool.allocated ∧
      ((pool.modify ref f).heap lease.record).leases.lookup lease.id = some lease.owner := by
  intro lease hlease
  obtain ⟨hallocated, hlookup⟩ := h.bound lease hlease
  refine ⟨hallocated, ?_⟩
  by_cases hne : lease.record = ref
  · rw [hne, Pool.modify_heap_self, hleases, ← hne, hlookup]
  · rw [Pool.modify_heap_of_ne pool f hne, hlookup]

/-- A record is overwritten by one with the same leases and pins.  One that is not retired
afterwards has to be in the map. -/
theorem modify (h : pool.Inv held pins) (href : ref < pool.allocated)
    (hquiet : (pool.heap ref).Quiet (f (pool.heap ref)))
    (hstored : (f (pool.heap ref)).retired = false →
      pool.records.lookup (pool.heap ref).backend.id = some ref) :
    (pool.modify ref f).Inv held pins := by
  refine h.overwrite f pool.nextLeaseID href hquiet.id hquiet.flags hquiet.normal
    ?_ (h.bound_modify hquiet.leases) h.distinct le_rfl ?_ ?_ ?_ fun _ _ => rfl
  · rw [hquiet.inFlight, hquiet.waiters]
    exact fun hheld => hheld.elim hstored fun hheld => h.stored ref href (.inr hheld)
  · rw [hquiet.leases]
    exact h.fresh ref href
  · rw [hquiet.inFlight]
    omega
  · rw [hquiet.waiters]
    exact h.pinned ref href

/-- The number of the pins on a record changes. -/
theorem setWaiters (h : pool.Inv held pins) (g : Int → Int)
    (hlookup : pool.records.lookup (pool.heap ref).backend.id = some ref) :
    (pool.modify ref fun record => { record with waiters := g record.waiters }).Inv held
      (Function.update pins ref (g (pins ref))) := by
  have href := (h.named _ _ hlookup).1
  refine h.overwrite (fun record => { record with waiters := g record.waiters }) pool.nextLeaseID
    href rfl ⟨(h.flags _ href).1, (h.flags _ href).2⟩ (h.normal _ href) (fun _ => hlookup)
    (h.bound_modify rfl) h.distinct le_rfl (h.fresh ref href) ?_ ?_ fun other hne => ?_
  · simp [Record.inFlight]
  · simp [h.pinned ref href]
  · simp [hne]

/-- The counter of the pool does not matter. -/
theorem setChanged (h : pool.Inv held pins) (changed : Nat) :
    ({ pool with changed := changed } : Pool).Inv held pins := ⟨h.named, h.flags, h.normal,
  h.stored, h.bound, h.distinct, h.fresh, h.count, h.pinned, h.pinsAllocated⟩

theorem notifyLocked (h : pool.Inv held pins) (href : ref < pool.allocated) :
    (pool.notifyLocked ref).Inv held pins :=
  h.modify href ⟨rfl, rfl, rfl, ⟨(h.flags ref href).1, (h.flags ref href).2⟩, h.normal ref href⟩
    fun hretired => h.stored ref href (.inl hretired)

theorem notifySelectionLocked (h : pool.Inv held pins) (href : ref < pool.allocated) :
    (pool.notifySelectionLocked ref).Inv held pins :=
  (h.notifyLocked href).setChanged _

/-- A retired record without leases and pins leaves the map. -/
theorem cleanupRetiredLocked (h : pool.Inv held pins) (ref : Nat) :
    (pool.cleanupRetiredLocked ref).Inv held pins := by
  rcases pool.cleanupRetiredLocked_cases ref with
    hsame | ⟨hretired, hinFlight, hwaiters, hlookup, hclean⟩
  · rw [hsame]
    exact h
  rw [hclean]
  refine ⟨?_, h.flags, h.normal, ?_, h.bound, h.distinct, h.fresh, ?_, h.pinned, h.pinsAllocated⟩
  · intro id other hother
    by_cases hid : id = (pool.heap ref).backend.id
    · rw [hid, AList.lookup_erase] at hother
      cases hother
    · rw [AList.lookup_erase_ne hid] at hother
      exact h.named id other hother
  · intro other hother hheld
    have hstored := h.stored other hother hheld
    -- the record that leaves is retired and free, so it is another one
    have hne : other ≠ ref := by
      rintro rfl
      simp [hretired, hinFlight, hwaiters] at hheld
    have hid : (pool.heap other).backend.id ≠ (pool.heap ref).backend.id := by
      intro hid
      rw [hid, hlookup] at hstored
      exact hne (Option.some.inj hstored).symm
    exact (AList.lookup_erase_ne hid).trans hstored
  · have htotal := AList.total_erase (fun other => ((pool.heap other).inFlight : Int)) hlookup
    rw [hinFlight] at htotal
    exact htotal.trans (by simpa [Pool.inFlightTotal] using h.count)

/-- A new record without leases and pins is stored under a free identifier. -/
theorem store (h : pool.Inv held pins) (hlookup : pool.records.lookup record.backend.id = none)
    (hflags : record.Flags) (hnormal : normalizeBackend record.backend = .ok record.backend)
    (hleases : record.leases = ∅) (hwaiters : record.waiters = 0) :
    (pool.store record).Inv held pins := by
  have hself : (pool.store record).heap pool.allocated = record := by simp [Pool.store]
  have hold : ∀ ref < pool.allocated, (pool.store record).heap ref = pool.heap ref :=
    fun ref href => by simp [Pool.store, Nat.ne_of_lt href]
  have hcases : ∀ ref < (pool.store record).allocated, ref = pool.allocated ∨ ref < pool.allocated :=
    fun ref href => by
      have : ref < pool.allocated + 1 := href
      omega
  refine ⟨?_, ?_, ?_, ?_, ?_, h.distinct, ?_, ?_, ?_, ?_⟩
  · intro id ref hid
    by_cases hnew : id = record.backend.id
    · have : ref = pool.allocated := by
        have hinsert : (pool.records.insert record.backend.id pool.allocated).lookup id =
            some ref := hid
        rw [hnew, AList.lookup_insert] at hinsert
        exact (Option.some.inj hinsert).symm
      subst this
      exact ⟨Nat.lt_succ_self _, by rw [hself, hnew]⟩
    · have hinsert : (pool.records.insert record.backend.id pool.allocated).lookup id =
          some ref := hid
      rw [AList.lookup_insert_ne hnew] at hinsert
      obtain ⟨href, hname⟩ := h.named id ref hinsert
      exact ⟨Nat.lt_succ_of_lt href, by rw [hold ref href, hname]⟩
  · intro ref href
    rcases hcases ref href with rfl | href
    · rwa [hself]
    · rw [hold ref href]
      exact h.flags ref href
  · intro ref href
    rcases hcases ref href with rfl | href
    · rwa [hself]
    · rw [hold ref href]
      exact h.normal ref href
  · intro ref href hheld
    rcases hcases ref href with rfl | href
    · rw [hself]
      exact AList.lookup_insert _
    · rw [hold ref href] at hheld ⊢
      have hstored := h.stored ref href hheld
      have hne : (pool.heap ref).backend.id ≠ record.backend.id := by
        intro hid
        rw [hid, hlookup] at hstored
        cases hstored
      exact (AList.lookup_insert_ne hne).trans hstored
  · intro lease hlease
    obtain ⟨href, hbound⟩ := h.bound lease hlease
    rw [hold _ href]
    exact ⟨Nat.lt_succ_of_lt href, hbound⟩
  · intro ref href id hid
    rcases hcases ref href with rfl | href
    · rw [hself, hleases] at hid
      exact absurd hid (AList.notMem_empty id)
    · rw [hold ref href] at hid
      exact h.fresh ref href id hid
  · have hnew : ((pool.store record).heap pool.allocated).inFlight = 0 := by
      rw [hself, Record.inFlight, hleases]
      rfl
    have htotal := AList.total_insert_new
      (fun ref => (((pool.store record).heap ref).inFlight : Int)) pool.allocated hlookup
    have hothers : pool.records.total (fun ref => (((pool.store record).heap ref).inFlight : Int)) =
        pool.inFlightTotal := by
      refine AList.total_congr fun id ref hid => ?_
      rw [hold ref (h.named id ref hid).1]
    refine htotal.trans ?_
    rw [hnew, hothers, h.count]
    simp
  · intro ref href
    rcases hcases ref href with rfl | href
    · rw [hself, hwaiters]
      by_contra hpin
      exact Nat.lt_irrefl _ (h.pinsAllocated _ (Ne.symm hpin))
    · rw [hold ref href]
      exact h.pinned ref href
  · exact fun ref href => Nat.lt_succ_of_lt (h.pinsAllocated ref href)

end Pool.Inv

/-! ## What happens to a record -/

/-- How a record may change in a step.  An explicit drain ends only by `Undrain`, the
deadline of the quarantine never moves back, and the revisions count the changes of the
address and the revivals. -/
structure Record.Evolves (undrained : Prop) (record record' : Record) : Prop where
  id : record'.backend.id = record.backend.id
  explicit : record.explicitDrain = true → record'.explicitDrain = true ∨ undrained
  deadline : record.quarantinedUntil ≤ record'.quarantinedUntil
  revision : record.revisions ≤ record'.revisions
  address : record'.revisions = record.revisions →
    backendAddressChanged record.backend record'.backend = false ∧
      (record.retired = true → record'.retired = true)

theorem backendAddressChanged_self (backend : Backend) :
    backendAddressChanged backend backend = false := by
  simp [backendAddressChanged]

theorem backendAddressChanged_trans {first second third : Backend}
    (h : backendAddressChanged first second = false)
    (h' : backendAddressChanged second third = false) :
    backendAddressChanged first third = false := by
  simp only [backendAddressChanged, Bool.or_eq_false_iff, decide_eq_false_iff_not, not_not] at *
  exact ⟨h.1.trans h'.1, h.2.trans h'.2⟩

theorem Record.Evolves.refl (undrained : Prop) (record : Record) :
    record.Evolves undrained record :=
  ⟨rfl, .inl, le_rfl, le_rfl, fun _ => ⟨backendAddressChanged_self _, fun h => h⟩⟩

theorem Record.Evolves.trans {undrained : Prop} {first second third : Record}
    (h : first.Evolves undrained second) (h' : second.Evolves undrained third) :
    first.Evolves undrained third where
  id := h'.id.trans h.id
  explicit := fun hfirst => (h.explicit hfirst).elim h'.explicit .inr
  deadline := h.deadline.trans h'.deadline
  revision := h.revision.trans h'.revision
  address := fun hsame => by
    have hmid : second.revisions = first.revisions :=
      le_antisymm (hsame ▸ h'.revision) h.revision
    obtain ⟨haddress, hretired⟩ := h.address hmid
    obtain ⟨haddress', hretired'⟩ := h'.address (hsame.trans hmid.symm)
    exact ⟨backendAddressChanged_trans haddress haddress', fun hr => hretired' (hretired hr)⟩

theorem Record.Evolves.imp {undrained undrained' : Prop} {record' : Record}
    (h : record.Evolves undrained record') (himp : undrained → undrained') :
    record.Evolves undrained' record' :=
  ⟨h.id, fun hexplicit => (h.explicit hexplicit).imp_right himp, h.deadline, h.revision, h.address⟩

/-- How the pool may change in a step.  `undrained` has the identifiers that are undrained,
and `deleted` the records that may leave the map. -/
structure Pool.Evolves (undrained : ID → Prop) (deleted : Nat → Prop) (pool pool' : Pool) :
    Prop where
  window : pool'.quarantineWindow = pool.quarantineWindow
  allocated : pool.allocated ≤ pool'.allocated
  record : ∀ ref < pool.allocated,
    (pool.heap ref).Evolves (undrained (pool.heap ref).backend.id) (pool'.heap ref)
  kept : ∀ id ref, pool.records.lookup id = some ref →
    pool'.records.lookup id = some ref ∨ deleted ref
  /-- a new record has no deadline before the zero time -/
  fresh : ∀ ref < pool'.allocated, pool.allocated ≤ ref → 0 ≤ (pool'.heap ref).quarantinedUntil

namespace Pool.Evolves

variable {undrained : ID → Prop} {deleted : Nat → Prop} {pool pool' pool'' : Pool}

theorem refl (undrained : ID → Prop) (deleted : Nat → Prop) (pool : Pool) :
    pool.Evolves undrained deleted pool :=
  ⟨rfl, le_rfl, fun _ _ => .refl _ _, fun _ _ h => .inl h, fun _ h h' => absurd h' (Nat.not_le.mpr h)⟩

theorem trans {deleted' deleted'' : Nat → Prop} (h : pool.Evolves undrained deleted pool')
    (h' : pool'.Evolves undrained deleted' pool'') (hdeleted : ∀ ref, deleted ref → deleted'' ref)
    (hdeleted' : ∀ id ref, pool.records.lookup id = some ref → deleted' ref → deleted'' ref) :
    pool.Evolves undrained deleted'' pool'' where
  window := h'.window.trans h.window
  allocated := h.allocated.trans h'.allocated
  record := fun ref href => by
    have hfirst := h.record ref href
    have hsecond := h'.record ref (Nat.lt_of_lt_of_le href h.allocated)
    rw [hfirst.id] at hsecond
    exact hfirst.trans hsecond
  kept := fun id ref hlookup => by
    rcases h.kept id ref hlookup with hkept | hgone
    · exact (h'.kept id ref hkept).imp_right (hdeleted' id ref hlookup)
    · exact .inr (hdeleted ref hgone)
  fresh := fun ref href hnew => by
    by_cases hmid : ref < pool'.allocated
    · exact (h.fresh ref hmid hnew).trans (h'.record ref hmid).deadline
    · exact h'.fresh ref href (Nat.not_lt.mp hmid)

theorem imp {undrained' : ID → Prop} {deleted' : Nat → Prop}
    (h : pool.Evolves undrained deleted pool') (hundrained : ∀ id, undrained id → undrained' id)
    (hdeleted : ∀ id ref, pool.records.lookup id = some ref → deleted ref → deleted' ref) :
    pool.Evolves undrained' deleted' pool' :=
  ⟨h.window, h.allocated, fun ref href => (h.record ref href).imp (hundrained _),
    fun id ref hlookup => (h.kept id ref hlookup).imp_right (hdeleted id ref hlookup), h.fresh⟩

/-- One record is overwritten. -/
theorem modify (hf : ref < pool.allocated →
      (pool.heap ref).Evolves (undrained (pool.heap ref).backend.id) (f (pool.heap ref))) :
    pool.Evolves undrained deleted (pool.modify ref f) where
  window := rfl
  allocated := le_rfl
  record := fun other hother => by
    by_cases heq : other = ref
    · subst heq
      rw [Pool.modify_heap_self]
      exact hf hother
    · rw [Pool.modify_heap_of_ne pool f heq]
      exact .refl _ _
  kept := fun _ _ hlookup => .inl hlookup
  fresh := fun _ h h' => absurd h' (Nat.not_le.mpr h)

theorem notifyLocked (ref : Nat) : pool.Evolves undrained deleted (pool.notifyLocked ref) :=
  modify fun _ => ⟨rfl, .inl, le_rfl, le_rfl, fun _ => ⟨backendAddressChanged_self _, fun h => h⟩⟩

theorem notifySelectionLocked (ref : Nat) :
    pool.Evolves undrained deleted (pool.notifySelectionLocked ref) :=
  have h : pool.Evolves undrained deleted (pool.notifyLocked ref) := notifyLocked ref
  ⟨h.window, h.allocated, h.record, h.kept, h.fresh⟩

/-- The record leaves the map if it is retired and free. -/
theorem cleanupRetiredLocked (ref : Nat)
    (hdeleted : (pool.heap ref).retired = true → (pool.heap ref).inFlight = 0 →
      (pool.heap ref).waiters = 0 → deleted ref) :
    pool.Evolves undrained deleted (pool.cleanupRetiredLocked ref) := by
  rcases pool.cleanupRetiredLocked_cases ref with
    hsame | ⟨hretired, hinFlight, hwaiters, hlookup, hclean⟩
  · rw [hsame]
    exact refl _ _ _
  · rw [hclean]
    refine ⟨rfl, le_rfl, fun _ _ => .refl _ _, fun id other hother => ?_,
      fun _ h h' => absurd h' (Nat.not_le.mpr h)⟩
    by_cases hid : id = (pool.heap ref).backend.id
    · rw [hid, hlookup] at hother
      exact .inr (Option.some.inj hother ▸ hdeleted hretired hinFlight hwaiters)
    · exact .inl ((AList.lookup_erase_ne hid).trans hother)

/-- A new record is stored under a free identifier. -/
theorem store (hlookup : pool.records.lookup record.backend.id = none)
    (hdeadline : 0 ≤ record.quarantinedUntil) :
    pool.Evolves undrained deleted (pool.store record) where
  window := rfl
  allocated := Nat.le_succ _
  record := fun ref href => by
    have : (pool.store record).heap ref = pool.heap ref := by
      simp [Pool.store, Nat.ne_of_lt href]
    rw [this]
    exact .refl _ _
  kept := fun id ref hid => by
    have hne : id ≠ record.backend.id := by
      rintro rfl
      rw [hlookup] at hid
      cases hid
    exact .inl ((AList.lookup_insert_ne hne).trans hid)
  fresh := fun ref href hnew => by
    have hself : ref = pool.allocated := by
      have : ref < pool.allocated + 1 := href
      omega
    rw [hself]
    simpa [Pool.store] using hdeadline

end Pool.Evolves

end Streamweld.Backends
