import Streamweld.Backends.Invariant

/-!
# What the functions of the pool do

One lemma per function of `internal/backend/pool.go` that changes records.  `Pool.Block` is
what the functions for the controller and for the health and the drain of one backend have
in common: they keep the invariant for the same leases and pins, they change records only as
`Pool.Evolves` allows, and they touch no lease and no pin.

`Pool.serving` is what the pool is for the controller: a map from identifiers to backends.
`serving_replaceOne`, `serving_retireMissing` and `replace_spec` say that `replace` overwrites
this map, whatever records the pool still retains.
-/

namespace Streamweld.Backends

variable {backend : Backend} {ref : Nat} {f : Record → Record} {id : ID} {backends : List Backend}
  {seen : List ID} {entries : List (Sigma fun _ : ID => Nat)}

/-! ## Records -/

@[simp] theorem Record.retire_retired (record : Record) : record.retire.retired = true := by
  unfold Record.retire
  split <;> rfl

@[simp] theorem Record.retire_leases (record : Record) : record.retire.leases = record.leases := by
  unfold Record.retire
  split <;> rfl

@[simp] theorem Record.retire_waiters (record : Record) :
    record.retire.waiters = record.waiters := by
  unfold Record.retire
  split <;> rfl

@[simp] theorem Record.retire_backend (record : Record) :
    record.retire.backend = record.backend := by
  unfold Record.retire
  split <;> rfl

theorem Record.retire_flags (record : Record) : record.retire.Flags := by
  unfold Record.retire
  split
  · rename_i hdraining
    exact ⟨fun _ => hdraining, fun _ => rfl⟩
  · exact ⟨fun _ => rfl, fun _ => rfl⟩

theorem Record.retire_evolves (undrained : Prop) (record : Record) :
    record.Evolves undrained record.retire := by
  unfold Record.retire
  split
  · exact ⟨rfl, .inl, le_rfl, le_rfl, fun _ => ⟨backendAddressChanged_self _, fun _ => rfl⟩⟩
  · rename_i hdraining
    refine ⟨rfl, fun h => ?_, le_rfl, le_rfl, fun _ => ⟨backendAddressChanged_self _, fun _ => rfl⟩⟩
    simp [Record.explicitDrain, hdraining] at h

/-- The fields of a record that the controller supplies again. -/
theorem Record.reinstate_fields (record : Record) (backend : Backend) (admitNew : Bool) (now : Int) :
    (record.reinstate backend admitNew now).backend = backend ∧
    (record.reinstate backend admitNew now).retired = false ∧
    (record.reinstate backend admitNew now).leases = record.leases ∧
    (record.reinstate backend admitNew now).waiters = record.waiters ∧
    (record.reinstate backend admitNew now).quarantinedUntil = record.quarantinedUntil ∧
    (record.reinstate backend admitNew now).revisions = record.revisions +
      (if backendAddressChanged record.backend backend then 1 else 0) +
      (if record.retired then 1 else 0) ∧
    (record.reinstate backend admitNew now).draining =
      (record.draining && !(record.retired && record.retirementDrain)) ∧
    (record.reinstate backend admitNew now).retirementDrain =
      (record.retirementDrain && !record.retired) := by
  unfold Record.reinstate updateRecord Record.revive
  cases backendAddressChanged record.backend backend <;> cases record.retired <;>
    cases record.retirementDrain <;> cases admitNew <;> simp

theorem Record.reinstate_quiet {record : Record} (admitNew : Bool) (now : Int)
    (hflags : record.Flags) (hid : backend.id = record.backend.id)
    (hnormal : normalizeBackend backend = .ok backend) :
    record.Quiet (record.reinstate backend admitNew now) := by
  obtain ⟨hbackend, hretired, hleases, hwaiters, -, -, -, hdrain⟩ :=
    record.reinstate_fields backend admitNew now
  refine ⟨by rw [hbackend, hid], hleases, hwaiters, ⟨fun h => ?_, fun h => ?_⟩, ?_⟩
  · rw [hretired] at h
    cases h
  · rw [hdrain, Bool.and_eq_true] at h
    rw [hflags.retired h.1] at h
    simp at h
  · rwa [hbackend]

theorem Record.reinstate_evolves {record : Record} (undrained : Prop) (admitNew : Bool)
    (now : Int) (hid : backend.id = record.backend.id) :
    record.Evolves undrained (record.reinstate backend admitNew now) := by
  obtain ⟨hbackend, -, -, -, hdeadline, hrevision, hdraining, hdrain⟩ :=
    record.reinstate_fields backend admitNew now
  refine ⟨by rw [hbackend, hid], fun h => .inl ?_, hdeadline.ge, ?_, fun h => ?_⟩
  · simp only [Record.explicitDrain, Bool.and_eq_true, Bool.not_eq_true'] at h ⊢
    rw [hdraining, hdrain, h.1, h.2]
    simp
  · rw [hrevision]
    omega
  · rw [hrevision] at h
    have haddress : backendAddressChanged record.backend backend = false := by
      by_contra hne
      rw [Bool.not_eq_false] at hne
      rw [hne] at h
      simp at h
      omega
    have hlive : record.retired = false := by
      by_contra hne
      rw [Bool.not_eq_false] at hne
      rw [hne] at h
      simp at h
      omega
    rw [hbackend, hlive]
    exact ⟨haddress, fun hretired => by cases hretired⟩

/-! ## Blocks that touch no lease and no pin -/

structure Pool.Block (held : List Lease) (pins : Nat → Int) (undrained : ID → Prop)
    (deleted : Nat → Prop) (pool pool' : Pool) : Prop where
  inv : pool'.Inv held pins
  evolves : pool.Evolves undrained deleted pool'
  calm : ∀ ref < pool.allocated, (pool'.heap ref).leases = (pool.heap ref).leases ∧
    (pool'.heap ref).waiters = (pool.heap ref).waiters

namespace Pool.Block

variable {held : List Lease} {pins : Nat → Int} {undrained : ID → Prop} {deleted : Nat → Prop}
  {pool pool' pool'' : Pool}

theorem refl (h : pool.Inv held pins) : pool.Block held pins undrained deleted pool :=
  ⟨h, .refl _ _ _, fun _ _ => ⟨rfl, rfl⟩⟩

theorem inFlight (h : pool.Block held pins undrained deleted pool') (href : ref < pool.allocated) :
    (pool'.heap ref).inFlight = (pool.heap ref).inFlight := by
  rw [Record.inFlight, (h.calm ref href).1, Record.inFlight]

/-- Two blocks after each other.  What the second one deletes is expressed in the pool before
the first one. -/
theorem trans {deleted' : Nat → Prop} (h : pool.Block held pins undrained deleted pool')
    (h' : pool'.Block held pins undrained deleted' pool'')
    (hdeleted : ∀ id ref, pool.records.lookup id = some ref → deleted' ref → deleted ref) :
    pool.Block held pins undrained deleted pool'' where
  inv := h'.inv
  evolves := h.evolves.trans h'.evolves (fun _ hgone => hgone) hdeleted
  calm := fun ref href => by
    obtain ⟨hleases, hwaiters⟩ := h.calm ref href
    obtain ⟨hleases', hwaiters'⟩ := h'.calm ref (Nat.lt_of_lt_of_le href h.evolves.allocated)
    exact ⟨hleases'.trans hleases, hwaiters'.trans hwaiters⟩

theorem modify (h : pool.Inv held pins) (href : ref < pool.allocated)
    (hquiet : (pool.heap ref).Quiet (f (pool.heap ref)))
    (hevolves : (pool.heap ref).Evolves (undrained (pool.heap ref).backend.id) (f (pool.heap ref)))
    (hstored : (f (pool.heap ref)).retired = false →
      pool.records.lookup (pool.heap ref).backend.id = some ref) :
    pool.Block held pins undrained deleted (pool.modify ref f) where
  inv := h.modify href hquiet hstored
  evolves := .modify fun _ => hevolves
  calm := fun other _ => by
    by_cases heq : other = ref
    · subst heq
      rw [Pool.modify_heap_self]
      exact ⟨hquiet.leases, hquiet.waiters⟩
    · rw [Pool.modify_heap_of_ne pool f heq]
      exact ⟨rfl, rfl⟩

theorem notifyLocked (h : pool.Inv held pins) (href : ref < pool.allocated) :
    pool.Block held pins undrained deleted (pool.notifyLocked ref) where
  inv := h.notifyLocked href
  evolves := .notifyLocked ref
  calm := fun other _ => by
    rw [pool.notifyLocked_heap ref other]
    exact ⟨rfl, rfl⟩

theorem notifySelectionLocked (h : pool.Inv held pins) (href : ref < pool.allocated) :
    pool.Block held pins undrained deleted (pool.notifySelectionLocked ref) where
  inv := h.notifySelectionLocked href
  evolves := .notifySelectionLocked ref
  calm := fun other _ => by
    rw [pool.notifySelectionLocked_heap ref other]
    exact ⟨rfl, rfl⟩

/-- A record is overwritten and its waiters are told. -/
theorem modify_notify (h : pool.Inv held pins) (href : ref < pool.allocated)
    (hquiet : (pool.heap ref).Quiet (f (pool.heap ref)))
    (hevolves : (pool.heap ref).Evolves (undrained (pool.heap ref).backend.id) (f (pool.heap ref)))
    (hstored : (f (pool.heap ref)).retired = false →
      pool.records.lookup (pool.heap ref).backend.id = some ref) :
    pool.Block held pins undrained deleted ((pool.modify ref f).notifySelectionLocked ref) := by
  have hmodify : pool.Block held pins undrained deleted (pool.modify ref f) :=
    .modify h href hquiet hevolves hstored
  exact hmodify.trans (.notifySelectionLocked hmodify.inv href) fun _ _ _ hgone => hgone

end Pool.Block

/-! ## The backends that the pool serves -/

/-- The backend that the controller supplies under the identifier. -/
def Pool.serving (pool : Pool) (id : ID) : Option Backend :=
  (pool.current id).map fun ref => (pool.heap ref).backend

theorem Pool.current_eq_some {pool : Pool} :
    pool.current id = some ref ↔
      pool.records.lookup id = some ref ∧ (pool.heap ref).retired = false := by
  simp [Pool.current, Option.filter_eq_some_iff]

theorem Pool.serving_eq_some {pool : Pool} :
    pool.serving id = some backend ↔ ∃ ref, pool.records.lookup id = some ref ∧
      (pool.heap ref).retired = false ∧ (pool.heap ref).backend = backend := by
  simp [Pool.serving, Pool.current_eq_some, and_assoc]

/-- The pool serves the same backend under an identifier if the map holds the same record
there, with the same backend and the same retirement. -/
theorem Pool.serving_congr {pool pool' : Pool}
    (hlookup : pool'.records.lookup id = pool.records.lookup id)
    (hrecord : ∀ ref, pool.records.lookup id = some ref →
      (pool'.heap ref).retired = (pool.heap ref).retired ∧
        (pool'.heap ref).backend = (pool.heap ref).backend) :
    pool'.serving id = pool.serving id := by
  ext backend
  simp only [Pool.serving_eq_some, hlookup]
  constructor
  · rintro ⟨ref, hid, hretired, hbackend⟩
    obtain ⟨hsame, hsame'⟩ := hrecord ref hid
    exact ⟨ref, hid, hsame ▸ hretired, hsame' ▸ hbackend⟩
  · rintro ⟨ref, hid, hretired, hbackend⟩
    obtain ⟨hsame, hsame'⟩ := hrecord ref hid
    exact ⟨ref, hid, hsame ▸ hretired, hsame' ▸ hbackend⟩

/-- One that overwrites a record leaves the other identifiers alone. -/
theorem Pool.serving_modify_of_ne {held : List Lease} {pins : Nat → Int} {pool : Pool}
    (h : pool.Inv held pins) (hid : id ≠ (pool.heap ref).backend.id) :
    (pool.modify ref f).serving id = pool.serving id := by
  refine Pool.serving_congr rfl fun other hother => ?_
  have hne : other ≠ ref := by
    rintro rfl
    exact hid (h.named id other hother).2.symm
  rw [Pool.modify_heap_of_ne pool f hne]
  exact ⟨rfl, rfl⟩

theorem Pool.serving_notifyLocked (pool : Pool) (ref : Nat) (id : ID) :
    (pool.notifyLocked ref).serving id = pool.serving id := by
  refine Pool.serving_congr rfl fun other _ => ?_
  rw [pool.notifyLocked_heap ref other]
  exact ⟨rfl, rfl⟩

theorem Pool.serving_notifySelectionLocked (pool : Pool) (ref : Nat) (id : ID) :
    (pool.notifySelectionLocked ref).serving id = pool.serving id :=
  pool.serving_notifyLocked ref id

theorem Pool.serving_cleanupRetiredLocked (pool : Pool) (ref : Nat) (id : ID) :
    (pool.cleanupRetiredLocked ref).serving id = pool.serving id := by
  rcases pool.cleanupRetiredLocked_cases ref with hsame | ⟨hretired, -, -, hlookup, hclean⟩
  · rw [hsame]
  · rw [hclean]
    by_cases hid : id = (pool.heap ref).backend.id
    · subst hid
      have hnone : pool.serving (pool.heap ref).backend.id = none := by
        simp [Pool.serving, Pool.current, hlookup, Option.filter, hretired]
      rw [hnone]
      simp [Pool.serving, Pool.current, AList.lookup_erase]
    · exact Pool.serving_congr (AList.lookup_erase_ne hid) fun _ _ => ⟨rfl, rfl⟩

/-! ## The functions for the controller -/

section Controller

variable {held : List Lease} {pins : Nat → Int} {undrained : ID → Prop} {deleted : Nat → Prop}
  {pool : Pool}

/-- A record that the controller supplies, new or known. -/
theorem Pool.replaceOne_block (h : pool.Inv held pins) (admitNew : Bool) (now : ID → Int)
    (hnormal : normalizeBackend backend = .ok backend) :
    pool.Block held pins undrained deleted (pool.replaceOne admitNew now backend) := by
  unfold Pool.replaceOne
  cases hlookup : pool.records.lookup backend.id with
  | some ref =>
    obtain ⟨href, hid⟩ := h.named _ _ hlookup
    exact .modify_notify h href (Record.reinstate_quiet _ _ (h.flags ref href) hid.symm hnormal)
      (Record.reinstate_evolves _ _ _ hid.symm) fun _ => hid.symm ▸ hlookup
  | none =>
    have hstore : ∀ record : Record, record.backend = backend → record.Flags →
        record.leases = ∅ → record.waiters = 0 → record.quarantinedUntil = 0 →
        pool.Block held pins undrained deleted
          ((pool.store record).notifySelectionLocked pool.allocated) := by
      intro record hbackend hflags hleases hwaiters hdeadline
      have hfree : pool.records.lookup record.backend.id = none := hbackend.symm ▸ hlookup
      have hinv := h.store hfree hflags (hbackend.symm ▸ hnormal) hleases hwaiters
      have hblock : pool.Block held pins undrained deleted (pool.store record) :=
        ⟨hinv, .store hfree hdeadline.ge, fun ref href => by
          simp [Pool.store, Nat.ne_of_lt href]⟩
      exact hblock.trans (.notifySelectionLocked hinv (Nat.lt_succ_self _)) fun _ _ _ hgone => hgone
    cases admitNew
    · exact hstore _ rfl ⟨fun h => (by cases h), fun h => (by cases h)⟩ rfl rfl rfl
    · exact hstore _ rfl ⟨fun h => (by cases h), fun h => (by cases h)⟩ rfl rfl rfl

theorem Pool.replaceOne_lookup_of_ne (admitNew : Bool) (now : ID → Int) (hid : id ≠ backend.id) :
    (pool.replaceOne admitNew now backend).records.lookup id = pool.records.lookup id := by
  unfold Pool.replaceOne
  cases pool.records.lookup backend.id with
  | some ref => rfl
  | none => cases admitNew <;> exact AList.lookup_insert_ne hid

theorem Pool.serving_replaceOne (h : pool.Inv held pins) (admitNew : Bool) (now : ID → Int)
    (backend : Backend) (id : ID) :
    (pool.replaceOne admitNew now backend).serving id =
      if id = backend.id then some backend else pool.serving id := by
  by_cases hid : id = backend.id
  · subst hid
    rw [if_pos rfl]
    unfold Pool.replaceOne
    cases hlookup : pool.records.lookup backend.id with
    | some ref =>
      obtain ⟨hbackend, hretired, -⟩ :=
        (pool.heap ref).reinstate_fields backend admitNew (now backend.id)
      rw [Pool.serving_notifySelectionLocked, Pool.serving_eq_some]
      exact ⟨ref, hlookup, by rw [Pool.modify_heap_self, hretired],
        by rw [Pool.modify_heap_self, hbackend]⟩
    | none =>
      rw [Pool.serving_notifySelectionLocked, Pool.serving_eq_some]
      refine ⟨pool.allocated, ?_, ?_, ?_⟩
      · cases admitNew <;> exact AList.lookup_insert _
      · cases admitNew <;> simp [Pool.store, newRecord]
      · cases admitNew <;> simp [Pool.store, newRecord]
  · rw [if_neg hid]
    refine Pool.serving_congr (Pool.replaceOne_lookup_of_ne admitNew now hid) fun ref hlookup => ?_
    obtain ⟨href, hname⟩ := h.named id ref hlookup
    unfold Pool.replaceOne
    cases hother : pool.records.lookup backend.id with
    | some other =>
      have hne : ref ≠ other := by
        rintro rfl
        exact hid (hname.symm.trans (h.named _ _ hother).2)
      rw [Pool.notifySelectionLocked_heap, Pool.modify_heap_of_ne _ _ hne]
      exact ⟨rfl, rfl⟩
    | none =>
      rw [Pool.notifySelectionLocked_heap]
      simp [Pool.store, Nat.ne_of_lt href]

/-- The first loop under the lock of `replace`. -/
theorem Pool.replaceAll_block (admitNew : Bool) (now : ID → Int)
    (hnormal : ∀ backend ∈ backends, normalizeBackend backend = .ok backend)
    (h : pool.Inv held pins) :
    pool.Block held pins undrained deleted (backends.foldl (Pool.replaceOne admitNew now) pool) := by
  induction backends generalizing pool with
  | nil => exact .refl h
  | cons backend rest ih =>
    have hreplaced : pool.Block held pins undrained deleted (pool.replaceOne admitNew now backend) :=
      Pool.replaceOne_block h admitNew now (hnormal backend List.mem_cons_self)
    exact hreplaced.trans (ih (fun other hother => hnormal other (List.mem_cons_of_mem _ hother))
      hreplaced.inv) fun _ _ _ hgone => hgone

theorem Pool.serving_replaceAll (admitNew : Bool) (now : ID → Int)
    (hnormal : ∀ backend ∈ backends, normalizeBackend backend = .ok backend)
    (hdistinct : (backends.map Backend.id).Nodup) (h : pool.Inv held pins) (id : ID) :
    (backends.foldl (Pool.replaceOne admitNew now) pool).serving id =
      (backends.find? fun backend => backend.id = id).or (pool.serving id) := by
  induction backends generalizing pool with
  | nil => simp
  | cons backend rest ih =>
    have hreplaced : pool.Block held pins (fun _ => False) (fun _ => False)
        (pool.replaceOne admitNew now backend) :=
      Pool.replaceOne_block h admitNew now (hnormal backend List.mem_cons_self)
    rw [List.map_cons, List.nodup_cons] at hdistinct
    rw [List.foldl_cons, ih (fun other hother => hnormal other (List.mem_cons_of_mem _ hother))
      hdistinct.2 hreplaced.inv, Pool.serving_replaceOne h]
    by_cases hid : id = backend.id
    · have hrest : rest.find? (fun other => other.id = id) = none := by
        rw [List.find?_eq_none]
        intro other hother hsame
        exact hdistinct.1 (List.mem_map.mpr ⟨other, hother, by simpa [hid] using hsame⟩)
      rw [hrest, if_pos hid, List.find?_cons_of_pos (by simp [hid])]
      rfl
    · rw [if_neg hid, List.find?_cons_of_neg (by simpa using fun hsame => hid hsame.symm)]

/-- A record that the controller no longer supplies. -/
theorem Pool.retire_block (h : pool.Inv held pins) (href : ref < pool.allocated)
    (hdeleted : (pool.heap ref).inFlight = 0 → (pool.heap ref).waiters = 0 → deleted ref) :
    pool.Block held pins undrained deleted (pool.retire ref) := by
  have hmodify : pool.Block held pins undrained deleted
      ((pool.modify ref Record.retire).notifySelectionLocked ref) :=
    .modify_notify h href ⟨by simp, by simp, by simp, Record.retire_flags _,
      by simpa using h.normal ref href⟩ (Record.retire_evolves _ _) fun hretired => by
        simp at hretired
  refine ⟨hmodify.inv.cleanupRetiredLocked ref, hmodify.evolves.trans
    (.cleanupRetiredLocked ref fun _ hinFlight hwaiters => ?_) (fun _ hgone => hgone)
      (fun _ _ _ hgone => hgone), fun other hother => ?_⟩
  · rw [hmodify.inFlight href] at hinFlight
    rw [(hmodify.calm ref href).2] at hwaiters
    exact hdeleted hinFlight hwaiters
  · rw [Pool.retire, Pool.cleanupRetiredLocked_heap]
    exact hmodify.calm other hother

theorem Pool.retire_heap_self (pool : Pool) (ref : Nat) :
    ((pool.retire ref).heap ref).retired = true := by
  rw [Pool.retire, Pool.cleanupRetiredLocked_heap, Pool.notifySelectionLocked_heap]
  simp

theorem Pool.retire_heap_of_ne (pool : Pool) {other : Nat} (h : other ≠ ref) :
    ((pool.retire ref).heap other).retired = (pool.heap other).retired := by
  rw [Pool.retire, Pool.cleanupRetiredLocked_heap, Pool.notifySelectionLocked_heap,
    Pool.modify_heap_of_ne pool _ h]

theorem Pool.serving_retire_of_ne (h : pool.Inv held pins) (hid : id ≠ (pool.heap ref).backend.id) :
    (pool.retire ref).serving id = pool.serving id := by
  rw [Pool.retire, Pool.serving_cleanupRetiredLocked, Pool.serving_notifySelectionLocked,
    Pool.serving_modify_of_ne h hid]

theorem Pool.retireUnless_block (h : pool.Inv held pins) {entry : Sigma fun _ : ID => Nat}
    (hentry : entry.2 < pool.allocated)
    (hdeleted : entry.1 ∉ seen → (pool.heap entry.2).inFlight = 0 →
      (pool.heap entry.2).waiters = 0 → deleted entry.2) :
    pool.Block held pins undrained deleted (pool.retireUnless seen entry) := by
  unfold Pool.retireUnless
  split
  · exact .refl h
  · rename_i hmissing
    exact Pool.retire_block h hentry (hdeleted fun hseen => hmissing (.inl hseen))

/-- The second loop under the lock of `replace`. -/
theorem Pool.retireAll_block (h : pool.Inv held pins)
    (hentries : ∀ entry ∈ entries, entry.2 < pool.allocated)
    (hdeleted : ∀ entry ∈ entries, entry.1 ∉ seen → (pool.heap entry.2).inFlight = 0 →
      (pool.heap entry.2).waiters = 0 → deleted entry.2) :
    pool.Block held pins undrained deleted (entries.foldl (Pool.retireUnless seen) pool) := by
  induction entries generalizing pool with
  | nil => exact .refl h
  | cons entry rest ih =>
    have hfirst : pool.Block held pins undrained deleted (pool.retireUnless seen entry) :=
      Pool.retireUnless_block h (hentries entry List.mem_cons_self)
        (hdeleted entry List.mem_cons_self)
    refine hfirst.trans (ih hfirst.inv ?_ ?_) fun _ _ _ hgone => hgone
    · intro other hother
      exact Nat.lt_of_lt_of_le (hentries other (List.mem_cons_of_mem _ hother))
        hfirst.evolves.allocated
    · intro other hother
      have hallocated := hentries other (List.mem_cons_of_mem _ hother)
      rw [hfirst.inFlight hallocated, (hfirst.calm _ hallocated).2]
      exact hdeleted other (List.mem_cons_of_mem _ hother)

/-- A record stays retired in the loop. -/
theorem Pool.retireAll_retired (entries : List (Sigma fun _ : ID => Nat))
    (hretired : (pool.heap ref).retired = true) :
    ((entries.foldl (Pool.retireUnless seen) pool).heap ref).retired = true := by
  induction entries generalizing pool with
  | nil => exact hretired
  | cons entry rest ih =>
    refine ih ?_
    unfold Pool.retireUnless
    split
    · exact hretired
    · by_cases heq : ref = entry.2
      · rw [heq]
        exact pool.retire_heap_self entry.2
      · rw [pool.retire_heap_of_ne heq, hretired]

/-- After the loop every record that is missing in the new set is retired. -/
theorem Pool.retireAll_missing {entry : Sigma fun _ : ID => Nat} (hentry : entry ∈ entries)
    (hmissing : entry.1 ∉ seen) :
    ((entries.foldl (Pool.retireUnless seen) pool).heap entry.2).retired = true := by
  induction entries generalizing pool with
  | nil => cases hentry
  | cons first rest ih =>
    rcases List.mem_cons.mp hentry with rfl | hrest
    · refine Pool.retireAll_retired rest ?_
      unfold Pool.retireUnless
      split
      · rename_i hskip
        exact hskip.resolve_left hmissing
      · exact pool.retire_heap_self entry.2
    · exact ih hrest

theorem Pool.serving_retireAll (h : pool.Inv held pins)
    (hentries : ∀ entry ∈ entries, entry.2 < pool.allocated ∧
      (pool.heap entry.2).backend.id = entry.1) (hid : id ∈ seen) :
    (entries.foldl (Pool.retireUnless seen) pool).serving id = pool.serving id := by
  induction entries generalizing pool with
  | nil => rfl
  | cons entry rest ih =>
    obtain ⟨hallocated, hname⟩ := hentries entry List.mem_cons_self
    have hfirst : pool.Block held pins (fun _ => False) (fun _ => True)
        (pool.retireUnless seen entry) :=
      Pool.retireUnless_block h hallocated fun _ _ _ => trivial
    rw [List.foldl_cons, ih hfirst.inv]
    · unfold Pool.retireUnless
      split
      · rfl
      · rename_i hmissing
        refine Pool.serving_retire_of_ne h ?_
        rintro rfl
        exact hmissing (.inl (hname ▸ hid))
    · intro other hother
      obtain ⟨hother', hname'⟩ := hentries other (List.mem_cons_of_mem _ hother)
      exact ⟨Nat.lt_of_lt_of_le hother' hfirst.evolves.allocated,
        (hfirst.evolves.record _ hother').id.trans hname'⟩

/-- The loop never adds a record to the map. -/
theorem Pool.retireAll_lookup (entries : List (Sigma fun _ : ID => Nat))
    (h : (entries.foldl (Pool.retireUnless seen) pool).records.lookup id = some ref) :
    pool.records.lookup id = some ref := by
  induction entries generalizing pool with
  | nil => exact h
  | cons entry rest ih =>
    have hlookup := ih h
    unfold Pool.retireUnless at hlookup
    split at hlookup
    · exact hlookup
    · rw [Pool.retire] at hlookup
      rcases Pool.cleanupRetiredLocked_cases
        ((pool.modify entry.2 Record.retire).notifySelectionLocked entry.2) entry.2 with
        hsame | ⟨-, -, -, -, hclean⟩
      · rw [hsame] at hlookup
        exact hlookup
      · rw [hclean] at hlookup
        by_cases hid : id = (((pool.modify entry.2 Record.retire).notifySelectionLocked
            entry.2).heap entry.2).backend.id
        · rw [hid] at hlookup
          simp [AList.lookup_erase] at hlookup
        · rw [AList.lookup_erase_ne hid] at hlookup
          exact hlookup

theorem Pool.serving_retireMissing (h : pool.Inv held pins) (seen : List ID) (id : ID) :
    (pool.retireMissing seen).serving id = if id ∈ seen then pool.serving id else none := by
  have hentries : ∀ entry ∈ pool.records.entries,
      entry.2 < pool.allocated ∧ (pool.heap entry.2).backend.id = entry.1 := fun entry hentry =>
    h.named entry.1 entry.2 (pool.records.mem_lookup_iff.mpr hentry)
  by_cases hid : id ∈ seen
  · rw [if_pos hid, Pool.retireMissing, Pool.serving_retireAll h hentries hid]
  · rw [if_neg hid, Option.eq_none_iff_forall_not_mem]
    intro backend hbackend
    obtain ⟨ref, hlookup, hretired, -⟩ := Pool.serving_eq_some.mp hbackend
    have hentry := pool.records.mem_lookup_iff.mp (Pool.retireAll_lookup _ hlookup)
    have hmissing : ((pool.retireMissing seen).heap ref).retired = true :=
      Pool.retireAll_missing hentry hid
    rw [hmissing] at hretired
    cases hretired

/-- The first loop of `replace`: the normalized backends in their order, with distinct
identifiers. -/
theorem normalizeAll_ok {index : Nat} {seen result : List Backend}
    (h : normalizeAll index seen backends = .ok result) :
    ∃ values, result = seen ++ values ∧
      List.Forall₂ (fun backend value => normalizeBackend backend = .ok value) backends values ∧
      ((seen.map Backend.id).Nodup → (result.map Backend.id).Nodup) := by
  induction backends generalizing index seen with
  | nil =>
    cases h
    exact ⟨[], by simp, .nil, fun hseen => hseen⟩
  | cons backend rest ih =>
    rw [normalizeAll] at h
    cases hvalue : normalizeBackend backend with
    | error problem => simp [hvalue] at h
    | ok value =>
      simp only [hvalue] at h
      split at h
      · cases h
      · rename_i hnew
        obtain ⟨values, rfl, hvalues, hnodup⟩ := ih h
        refine ⟨value :: values, by simp, .cons hvalue hvalues, fun hseen => hnodup ?_⟩
        rw [List.map_append, List.nodup_append]
        refine ⟨hseen, by simp, fun a ha b hb => ?_⟩
        rw [List.map_singleton, List.mem_singleton] at hb
        rintro rfl
        exact hnew (hb ▸ ha)

theorem normalizeAll_ids {values : List Backend}
    (h : List.Forall₂ (fun backend value => normalizeBackend backend = .ok value) backends values) :
    values.map Backend.id = backends.map Backend.id := by
  induction h with
  | nil => rfl
  | cons hvalue _ ih => rw [List.map_cons, List.map_cons, ih, (normalizeBackend_keeps hvalue).1]

theorem normalizeAll_normal {values : List Backend}
    (h : List.Forall₂ (fun backend value => normalizeBackend backend = .ok value) backends values) :
    ∀ value ∈ values, normalizeBackend value = .ok value := by
  induction h with
  | nil => simp
  | cons hvalue _ ih =>
    rintro value (_ | ⟨_, hmem⟩)
    · exact normalizeBackend_idempotent hvalue
    · exact ih value hmem

/-- `replace` overwrites the backends that the pool serves.  The records that are missing in
the new set leave the map if nothing holds them. -/
theorem Pool.replace_spec (h : pool.Inv held pins) {normalized : List Backend} (admitNew : Bool)
    (now : ID → Int) (hnormalize : normalizeAll 0 [] backends = .ok normalized) :
    pool.Block held pins undrained (fun ref => (pool.heap ref).backend.id ∉ backends.map Backend.id ∧
        (pool.heap ref).inFlight = 0 ∧ (pool.heap ref).waiters = 0)
      (pool.replace backends admitNew now).1 ∧
    ∀ id, (pool.replace backends admitNew now).1.serving id =
      normalized.find? fun backend => backend.id = id := by
  obtain ⟨values, hresult, hvalues, hnodup⟩ := normalizeAll_ok hnormalize
  rw [List.nil_append] at hresult
  subst hresult
  have hids := normalizeAll_ids hvalues
  have hnormal := normalizeAll_normal hvalues
  have hreplace : (pool.replace backends admitNew now).1 =
      (normalized.foldl (Pool.replaceOne admitNew now) pool).retireMissing
        (normalized.map Backend.id) := by
    simp [Pool.replace, hnormalize]
  rw [hreplace]
  have hreplaced : pool.Block held pins undrained
      (fun ref => (pool.heap ref).backend.id ∉ backends.map Backend.id ∧
        (pool.heap ref).inFlight = 0 ∧ (pool.heap ref).waiters = 0)
      (normalized.foldl (Pool.replaceOne admitNew now) pool) :=
    Pool.replaceAll_block admitNew now hnormal h
  constructor
  · generalize normalized.foldl (Pool.replaceOne admitNew now) pool = admitted at hreplaced
    have hnamed : ∀ entry ∈ admitted.records.entries, entry.2 < admitted.allocated ∧
        (admitted.heap entry.2).backend.id = entry.1 := fun entry hentry =>
      hreplaced.inv.named entry.1 entry.2 (AList.mem_lookup_iff.mpr hentry)
    have hretire : admitted.Block held pins undrained
        (fun ref => (admitted.heap ref).backend.id ∉ backends.map Backend.id ∧
          (admitted.heap ref).inFlight = 0 ∧ (admitted.heap ref).waiters = 0)
        (admitted.retireMissing (normalized.map Backend.id)) :=
      Pool.retireAll_block hreplaced.inv (fun entry hentry => (hnamed entry hentry).1)
        fun entry hentry hmissing hinFlight hwaiters =>
          ⟨by rwa [(hnamed entry hentry).2, ← hids], hinFlight, hwaiters⟩
    refine hreplaced.trans hretire fun id ref hlookup hgone => ?_
    have href := (h.named id ref hlookup).1
    rwa [(hreplaced.evolves.record ref href).id, hreplaced.inFlight href,
      (hreplaced.calm ref href).2] at hgone
  · intro id
    rw [Pool.serving_retireMissing hreplaced.inv,
      Pool.serving_replaceAll admitNew now hnormal (hnodup List.nodup_nil) h]
    split
    · rename_i hid
      obtain ⟨value, hvalue, hname⟩ := List.mem_map.mp hid
      have hfound : (normalized.find? fun backend => backend.id = id).isSome := by
        rw [List.find?_isSome]
        exact ⟨value, hvalue, by simpa using hname⟩
      obtain ⟨found, hfound⟩ := Option.isSome_iff_exists.mp hfound
      rw [hfound]
      rfl
    · rename_i hid
      rw [eq_comm, List.find?_eq_none]
      intro value hvalue hname
      exact hid (List.mem_map.mpr ⟨value, hvalue, by simpa using hname⟩)

/-- The records that a call of the controller deletes from the map. -/
def Pool.controllerDeletes (pool : Pool) : Controller → Nat → Bool
  | .upsert _ _, _ => false
  | .replace backends _ _, ref =>
    (normalizeAll 0 [] backends).isOk && (pool.heap ref).backend.id ∉ backends.map Backend.id &&
      (pool.heap ref).inFlight = 0 && (pool.heap ref).waiters = 0
  | .remove id, ref =>
    (pool.heap ref).backend.id = id && (pool.heap ref).inFlight = 0 && (pool.heap ref).waiters = 0

theorem Pool.find_ok {pool : Pool} (h : pool.find id = .ok ref) :
    pool.records.lookup id = some ref ∧ (pool.heap ref).retired = false := by
  unfold Pool.find at h
  cases hvalid : ID.validate id with
  | some problem => simp [hvalid] at h
  | none =>
    cases hcurrent : pool.current id with
    | none => simp [hvalid, hcurrent] at h
    | some other =>
      simp only [hvalid, hcurrent, Except.ok.injEq] at h
      exact h ▸ Pool.current_eq_some.mp hcurrent

theorem Pool.controller_block (h : pool.Inv held pins) (call : Controller) :
    pool.Block held pins undrained (fun ref => pool.controllerDeletes call ref = true)
      (pool.controller call).1 := by
  cases call with
  | upsert backend now =>
    simp only [Pool.controller, Pool.upsert]
    cases hnormalize : normalizeBackend backend with
    | error problem => exact .refl h
    | ok normalized =>
      exact Pool.replaceOne_block h false (fun _ => now) (normalizeBackend_idempotent hnormalize)
  | replace backends admitNew now =>
    cases hnormalize : normalizeAll 0 [] backends with
    | error problem =>
      have : (pool.controller (.replace backends admitNew now)).1 = pool := by
        simp [Pool.controller, Pool.replace, hnormalize]
      rw [this]
      exact .refl h
    | ok normalized =>
      obtain ⟨hblock, -⟩ := Pool.replace_spec h admitNew now hnormalize
      refine ⟨hblock.inv, hblock.evolves.imp (fun _ hu => hu) fun _ ref _ hgone => ?_, hblock.calm⟩
      simpa [Pool.controllerDeletes, hnormalize, Except.isOk, Except.toBool, and_assoc] using hgone
  | remove id =>
    simp only [Pool.controller, Pool.remove]
    cases hvalid : ID.validate id with
    | some problem => exact .refl h
    | none =>
      cases hcurrent : pool.current id with
      | none => exact .refl h
      | some ref =>
        obtain ⟨href, hname⟩ := h.named id ref (Pool.current_eq_some.mp hcurrent).1
        exact Pool.retire_block h href fun hinFlight hwaiters => by
          simp [Pool.controllerDeletes, hname, hinFlight, hwaiters]

end Controller

/-! ## Health, quarantine and drains -/

section Observe

variable {held : List Lease} {pins : Nat → Int} {undrained : ID → Prop} {deleted : Nat → Prop}
  {pool : Pool}

/-- `drainLocked` marks the record. -/
theorem Pool.drainLocked_block (h : pool.Inv held pins) (href : ref < pool.allocated) :
    pool.Block held pins undrained deleted (pool.drainLocked ref) ∧
      ((pool.drainLocked ref).heap ref).explicitDrain = true ∧
      (pool.drainLocked ref).records = pool.records ∧
      (∀ other, ((pool.drainLocked ref).heap other).retired = (pool.heap other).retired ∧
        ((pool.drainLocked ref).heap other).backend = (pool.heap other).backend) := by
  have hflags := h.flags ref href
  have hnormal := h.normal ref href
  unfold Pool.drainLocked
  cases hdraining : (pool.heap ref).draining with
  | true =>
    simp only [if_true]
    refine ⟨.modify h href ⟨rfl, rfl, rfl, ⟨fun _ => hdraining, fun hr => by cases hr⟩, hnormal⟩
      ⟨rfl, fun _ => .inl ?_, le_rfl, le_rfl, fun _ => ⟨backendAddressChanged_self _, fun hr => hr⟩⟩
      fun hr => h.stored ref href (.inl hr), ?_, rfl, fun other => ?_⟩
    · simp [Record.explicitDrain, hdraining]
    · simp [Record.explicitDrain, hdraining]
    · by_cases heq : other = ref
      · subst heq
        simp
      · rw [Pool.modify_heap_of_ne _ _ heq]
        exact ⟨rfl, rfl⟩
  | false =>
    simp only [Bool.false_eq_true, if_false]
    have hretired : (pool.heap ref).retired = false := by
      by_contra hne
      rw [hflags.draining (by simpa using hne)] at hdraining
      cases hdraining
    have hmark : pool.Block held pins undrained deleted
        ((pool.modify ref fun record => { record with draining := true }).notifySelectionLocked ref) :=
      .modify_notify h href ⟨rfl, rfl, rfl, ⟨fun _ => rfl, hflags.retired⟩, hnormal⟩
        ⟨rfl, fun hexplicit => by simp [Record.explicitDrain, hdraining] at hexplicit, le_rfl, le_rfl,
          fun _ => ⟨backendAddressChanged_self _, fun hr => hr⟩⟩
        fun hr => h.stored ref href (.inl hr)
    have hheap := (pool.modify ref fun record => { record with draining := true })
      |>.notifySelectionLocked_heap ref
    refine ⟨hmark.trans (.modify hmark.inv href ?_ ?_ fun hr => hmark.inv.stored ref href (.inl hr))
      fun _ _ _ hgone => hgone, ?_, rfl, fun other => ?_⟩
    · rw [hheap ref]
      exact ⟨rfl, rfl, rfl, ⟨fun _ => by simp, fun hr => by cases hr⟩, by simpa using hnormal⟩
    · rw [hheap ref]
      exact ⟨rfl, fun _ => .inl (by simp [Record.explicitDrain]), le_rfl, le_rfl,
        fun _ => ⟨backendAddressChanged_self _, fun hr => hr⟩⟩
    · rw [Pool.modify_heap_self, hheap ref]
      simp [Record.explicitDrain]
    · by_cases heq : other = ref
      · subst heq
        rw [Pool.modify_heap_self, hheap other]
        simp
      · rw [Pool.modify_heap_of_ne _ _ heq, hheap other, Pool.modify_heap_of_ne _ _ heq]
        exact ⟨rfl, rfl⟩

/-- One that overwrites a record without touching its backend or its retirement leaves what
the pool serves. -/
theorem Pool.serving_modify_same
    (hretired : (f (pool.heap ref)).retired = (pool.heap ref).retired)
    (hbackend : (f (pool.heap ref)).backend = (pool.heap ref).backend) (id : ID) :
    (pool.modify ref f).serving id = pool.serving id := by
  refine Pool.serving_congr rfl fun other _ => ?_
  by_cases heq : other = ref
  · subst heq
    rw [Pool.modify_heap_self]
    exact ⟨hretired, hbackend⟩
  · rw [Pool.modify_heap_of_ne pool f heq]
    exact ⟨rfl, rfl⟩

/-- A change of the health, the quarantine or the explicit drain of one backend. -/
theorem Pool.observe_block (h : pool.Inv held pins) (id : ID) (observation : Observation)
    (now : Int) :
    pool.Block held pins
      (fun other => observation = .undrain ∧ other = id ∧ ∃ ref, pool.find id = .ok ref)
      deleted (pool.observe id now observation).1 ∧
    ∀ other, (pool.observe id now observation).1.serving other = pool.serving other := by
  cases hfind : pool.find id with
  | error problem =>
    have : (pool.observe id now observation).1 = pool := by
      cases observation <;>
        simp [Pool.observe, Pool.setHealth, Pool.markPassiveFailure, Pool.markDraining,
          Pool.undrain, hfind]
    rw [this]
    exact ⟨.refl h, fun _ => rfl⟩
  | ok ref =>
    obtain ⟨hlookup, hretired⟩ := Pool.find_ok hfind
    obtain ⟨href, hname⟩ := h.named id ref hlookup
    have hflags := h.flags ref href
    have hnormal := h.normal ref href
    have hdrain : (pool.heap ref).retirementDrain = false := by
      by_contra hne
      rw [hflags.retired (by simpa using hne)] at hretired
      cases hretired
    have hstored : pool.records.lookup (pool.heap ref).backend.id = some ref := hname.symm ▸ hlookup
    cases observation with
    | setHealth health =>
      simp only [Pool.observe, Pool.setHealth, hfind]
      split
      · refine ⟨.modify_notify h href ⟨rfl, rfl, rfl, ⟨hflags.1, hflags.2⟩, hnormal⟩
          ⟨rfl, .inl, le_rfl, le_rfl, fun _ => ⟨backendAddressChanged_self _, fun hr => hr⟩⟩
          fun _ => hstored, fun other => ?_⟩
        rw [Pool.serving_notifySelectionLocked, Pool.serving_modify_same rfl rfl]
      · exact ⟨.refl h, fun _ => rfl⟩
    | markPassiveFailure =>
      simp only [Pool.observe, Pool.markPassiveFailure, hfind]
      refine ⟨.modify_notify h href ⟨rfl, rfl, rfl, ⟨hflags.1, hflags.2⟩, hnormal⟩
        ⟨rfl, .inl, le_max_left _ _, le_rfl,
          fun _ => ⟨backendAddressChanged_self _, fun hr => hr⟩⟩ fun _ => hstored,
        fun other => ?_⟩
      rw [Pool.serving_notifySelectionLocked, Pool.serving_modify_same rfl rfl]
    | markDraining =>
      simp only [Pool.observe, Pool.markDraining, hfind]
      obtain ⟨hblock, -, hrecords, hsame⟩ := Pool.drainLocked_block h href
      exact ⟨hblock, fun other => Pool.serving_congr (by rw [hrecords]) fun ref' _ => hsame ref'⟩
    | undrain =>
      simp only [Pool.observe, Pool.undrain, hfind]
      split
      · refine ⟨.modify_notify h href
          ⟨rfl, rfl, rfl, ⟨fun hr => by simp [hretired] at hr, fun hr => by cases hr⟩, hnormal⟩
          ⟨rfl, fun _ => .inr ⟨trivial, hname, ref, rfl⟩, le_rfl, le_rfl,
            fun _ => ⟨backendAddressChanged_self _, fun hr => hr⟩⟩ fun _ => hstored, fun other => ?_⟩
        rw [Pool.serving_notifySelectionLocked, Pool.serving_modify_same rfl rfl]
      · exact ⟨.refl h, fun _ => rfl⟩

/-- A successful drain leaves an explicit mark. -/
theorem Pool.markDraining_ok (h : pool.Inv held pins) {now : Int} {snapshot : DrainSnapshot}
    (hok : (pool.markDraining id now).2 = .ok snapshot) :
    ∃ ref, (pool.markDraining id now).1.records.lookup id = some ref ∧
      ((pool.markDraining id now).1.heap ref).explicitDrain = true := by
  unfold Pool.markDraining at hok ⊢
  cases hfind : pool.find id with
  | error problem => simp [hfind] at hok
  | ok ref =>
    obtain ⟨hlookup, -⟩ := Pool.find_ok hfind
    obtain ⟨-, hexplicit, hrecords, -⟩ : pool.Block held pins (fun _ => False) (fun _ => False)
        (pool.drainLocked ref) ∧ _ := Pool.drainLocked_block h (h.named id ref hlookup).1
    exact ⟨ref, by simpa only [hrecords] using hlookup, hexplicit⟩

/-- A passive failure keeps the backend out for the window of the quarantine. -/
theorem Pool.markPassiveFailure_ok {now : Int} {transition : Transition}
    (hok : (pool.markPassiveFailure id now).2 = .ok transition) :
    ∃ ref, (pool.markPassiveFailure id now).1.records.lookup id = some ref ∧
      now + pool.quarantineWindow ≤
        ((pool.markPassiveFailure id now).1.heap ref).quarantinedUntil := by
  unfold Pool.markPassiveFailure at hok ⊢
  cases hfind : pool.find id with
  | error problem => simp [hfind] at hok
  | ok ref =>
    refine ⟨ref, (Pool.find_ok hfind).1, ?_⟩
    simp only
    rw [Pool.notifySelectionLocked_heap, Pool.modify_heap_self]
    exact le_max_right _ _

/-- A result of a probe changes the health only. -/
theorem Pool.probeOne_block (h : pool.Inv held pins) (target : ProbeTarget)
    (err : Option String) (now : Int) :
    pool.Block held pins undrained deleted (pool.probeOne target err now).1 ∧
    ∀ id, (pool.probeOne target err now).1.serving id = pool.serving id := by
  unfold Pool.probeOne
  cases hprobed : pool.probed target with
  | none => exact ⟨.refl h, fun _ => rfl⟩
  | some ref =>
    obtain ⟨hlookup, -⟩ := Pool.current_eq_some.mp (Option.eq_some_of_filter_eq_some hprobed)
    obtain ⟨href, hname⟩ := h.named _ ref hlookup
    generalize (if err = none then Health.healthHealthy else .healthUnhealthy) = newHealth
    have hmodify : pool.Block held pins undrained deleted (pool.modify ref fun record =>
        { record with health := newHealth, lastProbeAt := now, lastProbeError := err.getD "" }) :=
      .modify h href ⟨rfl, rfl, rfl, ⟨(h.flags ref href).1, (h.flags ref href).2⟩, h.normal ref href⟩
        ⟨rfl, .inl, le_rfl, le_rfl, fun _ => ⟨backendAddressChanged_self _, fun hr => hr⟩⟩
        fun _ => hname.symm ▸ hlookup
    simp only [Pool.applyProbe]
    split
    · refine ⟨hmodify.trans (.notifySelectionLocked hmodify.inv href) fun _ _ _ hgone => hgone,
        fun id => ?_⟩
      rw [Pool.serving_notifySelectionLocked, Pool.serving_modify_same rfl rfl]
    · refine ⟨hmodify.trans (.notifyLocked hmodify.inv href) fun _ _ _ hgone => hgone,
        fun id => ?_⟩
      rw [Pool.serving_notifyLocked, Pool.serving_modify_same rfl rfl]

end Observe

end Streamweld.Backends
