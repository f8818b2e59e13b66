import Streamweld.Lib.AssocSum
import Streamweld.Journal.Memory
import Streamweld.Journal.Abstract
import Streamweld.Journal.Delivery

/-!
# The store invariant of the memory journal

`StoreInv` says what every reachable store satisfies: the byte accounting of the
store and of each stream, the limits, the shape of the retained entries, the
agreement of the LRU list with the terminal streams, and the disjointness of the
live streams and the tombstones.

There are four groups.

* The pieces that only remove streams.  `Shrinks` relates a store to a later one
  that lost some streams, none of which was open and not degraded.  The cleanup
  of expired streams and the eviction of victims both shrink a store and keep
  its invariant.
* Making room.  `trimLoop_spec` shows that the trim loop stops inside the entry
  list, and `makeRoomLocked_spec` collects what the commit needs: after the trim
  and the eviction, the new entry fits both limits.
* The writes.  A write fails with an error or commits (`commitNext_spec`), and
  `Committed.spec` says what a commit leaves behind.
* The calls.  `CallSpec` is what every call keeps, `exec_spec` the step lemma and
  `execAll_spec` the run lemma.
-/

namespace Streamweld.Journal

open Streamweld.Lib

variable {config : Config} {m m' : Memory} {id key : StreamID} {now : Int} {stream : MemoryStream}
  {stored : StoredEntry} {reply : Reply} {envelopeLen : Entry → Option Nat} {fromSeq : Nat}

/-! ## The invariant -/

/-- What every live stream satisfies under its key. -/
structure StreamInv (config : Config) (key : StreamID) (stream : MemoryStream) : Prop where
  id_eq : stream.id = key
  bytes_eq : stream.bytes = storedBytes stream.entries
  bytes_le : stream.bytes ≤ config.maxBytesPerStream
  earliest_pos : 1 ≤ stream.earliestSeq
  consecutive : Consecutive stream.earliestSeq (stream.entries.map (·.entry.seq))
  last_eq : stream.lastSeq + 1 = stream.earliestSeq + stream.entries.length
  nonempty : stream.entries ≠ []
  no_err : ∀ stored ∈ stream.entries, stored.entry.err = none
  lru : stream.inLRU = true ↔ stream.status ≠ .statusOpen
  degraded_open : stream.degraded = true → stream.status = .statusOpen

/-- The invariant of the store. -/
structure StoreInv (m : Memory) : Prop where
  total_eq : m.totalBytes = m.streams.total (·.bytes)
  total_le : m.totalBytes ≤ m.config.maxTotalBytes
  stream : ∀ id s, m.streams.lookup id = some s → StreamInv m.config id s
  lru_nodup : m.terminalLRU.Nodup
  lru_mem : ∀ id, id ∈ m.terminalLRU ↔
    ∃ s, m.streams.lookup id = some s ∧ s.status ≠ .statusOpen
  disjoint : ∀ id s, m.streams.lookup id = some s → m.tombstones.lookup id = none

/-- The stream accepts entries: it is open and was not sealed. -/
def MemoryStream.Active (stream : MemoryStream) : Prop :=
  stream.status = .statusOpen ∧ stream.degraded = false

instance (stream : MemoryStream) : Decidable stream.Active :=
  inferInstanceAs (Decidable (_ ∧ _))

/-- A store without streams and tombstones satisfies the invariant. -/
theorem StoreInv.newMemory (h : newMemory config = .ok m) : StoreInv m := by
  rw [Journal.newMemory] at h
  split at h
  · cases h
  · rename_i hvalid
    cases h
    have htotal : 0 < (withDefaults config).maxTotalBytes := by
      by_contra hneg
      simp [validateConfig, configProblems, Int.not_lt.mp hneg] at hvalid
    exact {
      total_eq := by rfl
      total_le := by simpa using htotal.le
      stream := by simp
      lru_nodup := List.nodup_nil
      lru_mem := by simp
      disjoint := by simp }

theorem newMemory_config (h : newMemory config = .ok m) : m.config = withDefaults config := by
  rw [newMemory] at h
  split at h
  · cases h
  · cases h
    rfl

/-- The invariant does not read the readers. -/
theorem StoreInv.of_fields (h : StoreInv m) (hconfig : m'.config = m.config)
    (hstreams : m'.streams = m.streams) (htomb : m'.tombstones = m.tombstones)
    (hlru : m'.terminalLRU = m.terminalLRU) (htotal : m'.totalBytes = m.totalBytes) :
    StoreInv m' := by
  refine ⟨?_, ?_, ?_, ?_, ?_, ?_⟩
  · rw [htotal, hstreams]
    exact h.total_eq
  · rw [htotal, hconfig]
    exact h.total_le
  · rw [hstreams, hconfig]
    exact h.stream
  · rw [hlru]
    exact h.lru_nodup
  · rw [hlru, hstreams]
    exact h.lru_mem
  · rw [hstreams, htomb]
    exact h.disjoint

section Frame

variable (m : Memory) (id : StreamID) (f : TailReader → TailReader)

@[simp] theorem forTails_config : (m.forTails id f).config = m.config := rfl
@[simp] theorem forTails_streams : (m.forTails id f).streams = m.streams := rfl
@[simp] theorem forTails_tombstones : (m.forTails id f).tombstones = m.tombstones := rfl
@[simp] theorem forTails_terminalLRU : (m.forTails id f).terminalLRU = m.terminalLRU := rfl
@[simp] theorem forTails_totalBytes : (m.forTails id f).totalBytes = m.totalBytes := rfl

end Frame

/-! ## What the store does to a reader

The store stops readers, wakes them and counts their lag.  The fields that only
the reader's goroutine writes stay, and a stopped reader is left alone. -/

/-- What a call can do to a reader. -/
structure TailReader.Moved (r r' : TailReader) : Prop where
  stream : r'.stream = r.stream
  cursor : r'.cursor = r.cursor
  stopped : r.stopped = true → r' = r

theorem TailReader.Moved.refl (r : TailReader) : r.Moved r := ⟨rfl, rfl, fun _ => rfl⟩

theorem TailReader.Moved.trans {r₁ r₂ r₃ : TailReader} (h : r₁.Moved r₂) (h' : r₂.Moved r₃) :
    r₁.Moved r₃ := by
  refine ⟨h'.stream.trans h.stream, h'.cursor.trans h.cursor, ?_⟩
  intro hstopped
  have heq := h.stopped hstopped
  subst heq
  exact h'.stopped hstopped

/-- A reader that is not stopped was not stopped before. -/
theorem TailReader.Moved.running {r r' : TailReader} (h : r.Moved r')
    (hrunning : r'.stopped = false) : r.stopped = false := by
  by_contra hstopped
  have hstopped' : r.stopped = true := by simpa using hstopped
  rw [h.stopped hstopped', hstopped'] at hrunning
  cases hrunning

theorem TailReader.moved_stop (reason : Option JournalError) (discard : Bool) (r : TailReader) :
    r.Moved (r.stop reason discard) := by
  unfold TailReader.stop
  split
  · exact .refl r
  · rename_i hrunning
    exact ⟨rfl, rfl, fun hstopped => absurd hstopped hrunning⟩

/-- The readers of a heap, pairwise. -/
def ReadersMoved (readers readers' : List TailReader) : Prop :=
  List.Forall₂ TailReader.Moved readers readers'

theorem ReadersMoved.refl (readers : List TailReader) : ReadersMoved readers readers :=
  List.forall₂_same.mpr fun r _ => .refl r

theorem ReadersMoved.trans {rs₁ rs₂ rs₃ : List TailReader} (h : ReadersMoved rs₁ rs₂)
    (h' : ReadersMoved rs₂ rs₃) : ReadersMoved rs₁ rs₃ := by
  induction h generalizing rs₃ with
  | nil =>
    cases h'
    exact .nil
  | cons hr _ ih =>
    cases h' with
    | cons hr' hrest => exact .cons (hr.trans hr') (ih hrest)

/-- A reader of the later heap comes from one of the earlier heap. -/
theorem ReadersMoved.exists_of_mem {rs rs' : List TailReader} (h : ReadersMoved rs rs')
    {r' : TailReader} (hr' : r' ∈ rs') : ∃ r ∈ rs, r.Moved r' := by
  induction h with
  | nil => cases hr'
  | @cons r _ _ _ hr _ ih =>
    rcases List.mem_cons.mp hr' with rfl | hmem
    · exact ⟨r, List.mem_cons_self, hr⟩
    · obtain ⟨r₀, hr₀, hmoved⟩ := ih hmem
      exact ⟨r₀, List.mem_cons_of_mem _ hr₀, hmoved⟩

theorem readersMoved_forTails (m : Memory) (id : StreamID) {f : TailReader → TailReader}
    (hf : ∀ r : TailReader, r.stopped = false → r.Moved (f r)) :
    ReadersMoved m.readers (m.forTails id f).readers := by
  refine List.forall₂_map_right_iff.mpr (List.forall₂_same.mpr fun r _ => ?_)
  split
  · rename_i hattached
    exact hf r (by simp [TailReader.attached] at hattached; exact hattached.2)
  · exact .refl r

/-! ## Removing streams -/

/-- `m'` is `m` after it lost some streams, none of which was active.  The readers
of a lost stream are stopped. -/
structure Shrinks (m m' : Memory) : Prop where
  config : m'.config = m.config
  lookup : ∀ id s, m'.streams.lookup id = some s → m.streams.lookup id = some s
  active : ∀ id s, m.streams.lookup id = some s → s.Active → m'.streams.lookup id = some s
  readers : ReadersMoved m.readers m'.readers
  attached : ∀ r ∈ m'.readers, r.stopped = false →
    m'.streams.lookup r.stream = m.streams.lookup r.stream
  fresh : ∀ id, m.streams.lookup id = none → m.tombstones.lookup id = none →
    m'.tombstones.lookup id = none

theorem Shrinks.refl (m : Memory) : Shrinks m m :=
  ⟨rfl, fun _ _ h => h, fun _ _ h _ => h, .refl _, fun _ _ _ => rfl, fun _ _ h => h⟩

/-- A missing stream stays missing. -/
theorem Shrinks.lookup_none (h : Shrinks m m') (hnone : m.streams.lookup id = none) :
    m'.streams.lookup id = none := by
  by_contra hsome
  obtain ⟨s, hs⟩ := Option.ne_none_iff_exists'.mp hsome
  rw [h.lookup id s hs] at hnone
  cases hnone

theorem Shrinks.trans {m₁ m₂ m₃ : Memory} (h : Shrinks m₁ m₂) (h' : Shrinks m₂ m₃) :
    Shrinks m₁ m₃ := by
  refine ⟨h'.config.trans h.config, fun id s hs => h.lookup id s (h'.lookup id s hs),
    fun id s hs ha => h'.active id s (h.active id s hs ha) ha, h.readers.trans h'.readers, ?_,
    fun id hnone htomb => h'.fresh id (h.lookup_none hnone) (h.fresh id hnone htomb)⟩
  intro r₃ hr₃ hrunning
  obtain ⟨r₂, hr₂, hmoved⟩ := h'.readers.exists_of_mem hr₃
  rw [h'.attached r₃ hr₃ hrunning, hmoved.stream]
  exact h.attached r₂ hr₂ (hmoved.running hrunning)

section Remove

variable (now tombstoneUntil : Int)

theorem lookup_remove_ne (hne : id ≠ stream.id) :
    (removeStreamLocked m stream now tombstoneUntil).streams.lookup id =
      m.streams.lookup id :=
  AList.lookup_erase_ne hne

theorem lookup_remove_self :
    (removeStreamLocked m stream now tombstoneUntil).streams.lookup stream.id = none :=
  AList.lookup_erase _ _

theorem lookup_bury_ne {tombstones : AList fun _ : StreamID => Int} (hne : id ≠ key) :
    (bury tombstones key now tombstoneUntil).lookup id =
      tombstones.lookup id := by
  unfold bury
  split
  · split
    · split
      · exact AList.lookup_insert_ne hne
      · rfl
    · exact AList.lookup_insert_ne hne
  · rfl

theorem remove_shrinks (hlookup : m.streams.lookup stream.id = some stream)
    (hidle : ¬ stream.Active) :
    Shrinks m (removeStreamLocked m stream now tombstoneUntil) := by
  refine ⟨rfl, ?_, ?_, readersMoved_forTails m _ fun r _ => TailReader.moved_stop _ _ r, ?_,
    ?_⟩
  · intro id s hs
    by_cases hid : id = stream.id
    · subst hid
      rw [lookup_remove_self] at hs
      cases hs
    · rwa [lookup_remove_ne now tombstoneUntil hid] at hs
  · intro id s hs hactive
    have hid : id ≠ stream.id := by
      rintro rfl
      rw [hlookup] at hs
      cases hs
      exact hidle hactive
    rwa [lookup_remove_ne now tombstoneUntil hid]
  · intro r hr hrunning
    -- Every reader that was attached to the stream is now stopped.
    obtain ⟨r₀, _, rfl⟩ := List.mem_map.mp hr
    apply lookup_remove_ne
    intro hid
    by_cases hattached : r₀.attached stream.id = true
    · rw [if_pos hattached] at hrunning
      simp [TailReader.attached] at hattached
      simp [TailReader.stop, hattached.2] at hrunning
    · rw [if_neg hattached] at hid hrunning
      exact hattached (by simp [TailReader.attached, hid, hrunning])
  · intro id hnone htomb
    have hid : id ≠ stream.id := by
      rintro rfl
      rw [hlookup] at hnone
      cases hnone
    exact (lookup_bury_ne now tombstoneUntil hid).trans htomb

/-- Removing a live stream keeps the invariant. -/
theorem StoreInv.remove (h : StoreInv m) (hlookup : m.streams.lookup stream.id = some stream) :
    StoreInv (removeStreamLocked m stream now tombstoneUntil) := by
  have hstream := h.stream _ _ hlookup
  have hbytes : 0 ≤ stream.bytes := by
    rw [hstream.bytes_eq, storedBytes]
    exact List.sum_nonneg (by simp)
  have herased : (if stream.inLRU then m.terminalLRU.erase stream.id else m.terminalLRU) =
      m.terminalLRU.erase stream.id := by
    split
    · rfl
    · rename_i hout
      rw [List.erase_of_not_mem]
      intro hmem
      obtain ⟨s, hs, hstatus⟩ := (h.lru_mem _).mp hmem
      rw [hlookup] at hs
      cases hs
      exact hout (hstream.lru.mpr hstatus)
  refine ⟨?_, ?_, ?_, ?_, ?_, ?_⟩
  · simp only [removeStreamLocked, forTails_totalBytes, forTails_streams]
    rw [AList.total_erase _ hlookup, h.total_eq]
  · simp only [removeStreamLocked, forTails_totalBytes, forTails_config]
    have := h.total_le
    omega
  · intro id s hs
    by_cases hid : id = stream.id
    · subst hid
      rw [lookup_remove_self] at hs
      cases hs
    · rw [lookup_remove_ne now tombstoneUntil hid] at hs
      exact h.stream id s hs
  · simp only [removeStreamLocked, forTails_terminalLRU, herased]
    exact h.lru_nodup.erase _
  · intro id
    simp only [removeStreamLocked, forTails_terminalLRU, forTails_streams, herased]
    rw [h.lru_nodup.mem_erase_iff, h.lru_mem]
    by_cases hid : id = stream.id
    · subst hid
      simp
    · simp [hid, AList.lookup_erase_ne hid]
  · intro id s hs
    by_cases hid : id = stream.id
    · subst hid
      rw [lookup_remove_self] at hs
      cases hs
    · rw [lookup_remove_ne now tombstoneUntil hid] at hs
      have htomb := h.disjoint id s hs
      simp only [removeStreamLocked, forTails_tombstones]
      rw [lookup_bury_ne now tombstoneUntil hid, htomb]

end Remove

/-! ## Expiry -/

/-- The cleanup of the tombstones removes tombstones only. -/
theorem lookup_expireTombstones_none {tombstones : AList fun _ : StreamID => Int}
    (h : tombstones.lookup id = none) : (expireTombstones tombstones now).lookup id = none := by
  unfold expireTombstones
  -- Every turn of the loop erases at most one key, so a missing key stays missing.
  refine List.foldlRecOn _ _ (motive := fun rest => AList.lookup id rest = none) h ?_
  intro rest hrest key _
  split
  · split
    · exact hrest
    · by_cases hkey : id = key
      · rw [hkey, AList.lookup_erase]
      · rw [AList.lookup_erase_ne hkey, hrest]
  · exact hrest

/-- A stream that `cleanupExpiredLocked` removes is not active. -/
theorem MemoryStream.not_active_of_kept (h : stream.kept now = false) : ¬ stream.Active := by
  rintro ⟨hopen, hdegraded⟩
  simp [MemoryStream.kept, hopen, hdegraded] at h

private theorem expireStream_spec (now : Int) (h : StoreInv m) (id : StreamID) :
    StoreInv (expireStream now m id) ∧ Shrinks m (expireStream now m id) := by
  unfold expireStream
  split
  · exact ⟨h, Shrinks.refl m⟩
  · rename_i stream hlookup
    have hid := (h.stream _ _ hlookup).id_eq
    rw [← hid] at hlookup
    split
    · exact ⟨h, Shrinks.refl m⟩
    · rename_i hkept
      have hidle := MemoryStream.not_active_of_kept (by simpa using hkept)
      exact ⟨h.remove _ _ hlookup, remove_shrinks _ _ hlookup hidle⟩

/-- The cleanup keeps the invariant and removes no active stream. -/
theorem cleanupExpiredLocked_spec (h : StoreInv m) (now : Int) :
    StoreInv (cleanupExpiredLocked m now) ∧ Shrinks m (cleanupExpiredLocked m now) := by
  have hstart : StoreInv { m with tombstones := expireTombstones m.tombstones now } :=
    { h with
      disjoint := fun id s hs => lookup_expireTombstones_none (h.disjoint id s hs) }
  have loop : ∀ (ids : List StreamID) (m' : Memory), StoreInv m' →
      StoreInv (ids.foldl (expireStream now) m') ∧
        Shrinks m' (ids.foldl (expireStream now) m') := by
    intro ids
    induction ids with
    | nil => exact fun m' h' => ⟨h', Shrinks.refl m'⟩
    | cons id ids ih =>
      intro m' h'
      obtain ⟨hinv, hshrinks⟩ := expireStream_spec now h' id
      obtain ⟨hinv', hshrinks'⟩ := ih _ hinv
      exact ⟨hinv', hshrinks.trans hshrinks'⟩
  obtain ⟨hinv, hshrinks⟩ := loop _ _ hstart
  exact ⟨hinv, hshrinks.config, hshrinks.lookup, hshrinks.active, hshrinks.readers,
    hshrinks.attached, fun id hnone htomb =>
      hshrinks.fresh id hnone (lookup_expireTombstones_none htomb)⟩

theorem findLocked_ok (h : findLocked m id = .ok stream) : m.streams.lookup id = some stream := by
  unfold findLocked at h
  split at h
  · rename_i hlookup
    cases h
    exact hlookup
  · split at h <;> cases h

/-- A lookup that counts as a use only reorders the LRU list. -/
theorem StoreInv.touch (h : StoreInv m) (hlookup : m.streams.lookup id = some stream) :
    StoreInv (touchTerminalLocked m stream) := by
  unfold touchTerminalLocked
  split
  · rename_i hlru
    have hstream := h.stream _ _ hlookup
    have hmem : stream.id ∈ m.terminalLRU := by
      rw [hstream.id_eq]
      exact (h.lru_mem id).mpr ⟨stream, hlookup, hstream.lru.mp hlru⟩
    have hperm := (List.perm_cons_erase hmem).symm
    exact { h with
      lru_nodup := hperm.nodup_iff.mpr h.lru_nodup
      lru_mem := fun key => hperm.mem_iff.trans (h.lru_mem key) }
  · exact h

/-! ## Making room -/

@[simp] theorem storedBytes_nil : storedBytes [] = 0 := rfl

@[simp] theorem storedBytes_cons (stored : StoredEntry) (entries : List StoredEntry) :
    storedBytes (stored :: entries) = stored.size + storedBytes entries := by
  simp [storedBytes]

theorem storedBytes_append (entries entries' : List StoredEntry) :
    storedBytes (entries ++ entries') = storedBytes entries + storedBytes entries' := by
  simp [storedBytes]

theorem storedBytes_drop (entries : List StoredEntry) (count : Nat) :
    storedBytes (entries.drop count) =
      storedBytes entries - storedBytes (entries.take count) := by
  have h := storedBytes_append (entries.take count) (entries.drop count)
  rw [List.take_append_drop] at h
  omega

/-- The trim loop stops before it leaves the entry list, because the limit is not
negative and the bytes of the stream are those of its entries. -/
private theorem trimLoop_aux {bytes limit : Int} (hlimit : 0 ≤ limit) :
    ∀ (rest : List StoredEntry) (trimCount : Nat) (trimBytes : Int),
      bytes = trimBytes + storedBytes rest →
      ∃ k, k ≤ rest.length ∧
        trimLoop bytes limit rest trimCount trimBytes =
          some (trimCount + k, trimBytes + storedBytes (rest.take k)) ∧
        bytes - (trimBytes + storedBytes (rest.take k)) ≤ limit := by
  intro rest
  induction rest with
  | nil =>
    intro trimCount trimBytes hbytes
    rw [storedBytes_nil] at hbytes
    refine ⟨0, le_refl _, ?_, ?_⟩
    · rw [trimLoop, if_neg (by omega)]
      simp
    · simp only [List.take_nil, storedBytes_nil]
      omega
  | cons stored rest ih =>
    intro trimCount trimBytes hbytes
    rw [storedBytes_cons] at hbytes
    by_cases hover : bytes - trimBytes > limit
    · obtain ⟨k, hk, hloop, hle⟩ :=
        ih (trimCount + 1) (trimBytes + stored.size) (by omega)
      refine ⟨k + 1, by simpa using hk, ?_, ?_⟩
      · rw [trimLoop, if_pos hover]
        simp only [hloop, List.take_succ_cons, storedBytes_cons, Option.some.injEq,
          Prod.mk.injEq]
        omega
      · rw [List.take_succ_cons, storedBytes_cons]
        omega
    · refine ⟨0, Nat.zero_le _, ?_, ?_⟩
      · rw [trimLoop, if_neg hover]
        simp
      · simp only [List.take_zero, storedBytes_nil]
        omega

theorem trimLoop_spec (limit : Int) (hlimit : 0 ≤ limit)
    (hbytes : stream.bytes = storedBytes stream.entries) :
    ∃ count, count ≤ stream.entries.length ∧
      trimLoop stream.bytes limit stream.entries 0 0 =
        some (count, storedBytes (stream.entries.take count)) ∧
      stream.bytes - storedBytes (stream.entries.take count) ≤ limit := by
  obtain ⟨k, hk, hloop, hle⟩ := trimLoop_aux hlimit stream.entries 0 0 (by simpa using hbytes)
  exact ⟨k, hk, by simpa using hloop, by simpa using hle⟩

/-- The bytes of a list of streams. -/
def streamBytes (streams : List MemoryStream) : Int :=
  (streams.map (·.bytes)).sum

/-- The victims are distinct live streams of the LRU list, and they free what the
loop counted. -/
theorem selectVictims_spec (h : StoreInv m) (self : Option StreamID) (needFree : Int) :
    ∀ (ids : List StreamID) (freed : Int), ids.Nodup → (∀ id ∈ ids, id ∈ m.terminalLRU) →
      let result := selectVictims m.streams self needFree ids freed
      result.2 = freed + streamBytes result.1 ∧
        (result.1.map (·.id)).Nodup ∧
        ∀ victim ∈ result.1, victim.id ∈ ids ∧
          m.streams.lookup victim.id = some victim ∧ ¬ victim.Active := by
  intro ids
  induction ids with
  | nil =>
    intro freed _ _
    simp [selectVictims, streamBytes]
  | cons id ids ih =>
    intro freed hnodup hlru
    obtain ⟨hfresh, hnodup'⟩ := List.nodup_cons.mp hnodup
    have hlru' : ∀ key ∈ ids, key ∈ m.terminalLRU :=
      fun key hkey => hlru key (List.mem_cons_of_mem _ hkey)
    -- A skipped element leaves the result of the rest of the list.
    have skip := ih freed hnodup' hlru'
    simp only [selectVictims]
    by_cases hneed : freed < needFree
    · rw [if_pos hneed]
      by_cases hself : some id = self
      · rw [if_pos hself]
        exact ⟨skip.1, skip.2.1, fun v hv =>
          ⟨List.mem_cons_of_mem _ (skip.2.2 v hv).1, (skip.2.2 v hv).2⟩⟩
      · rw [if_neg hself]
        obtain ⟨candidate, hcandidate, hstatus⟩ :=
          (h.lru_mem id).mp (hlru id List.mem_cons_self)
        have hid := (h.stream _ _ hcandidate).id_eq
        obtain ⟨htotal, hdistinct, hvictims⟩ := ih (freed + candidate.bytes) hnodup' hlru'
        simp only [hcandidate]
        refine ⟨?_, ?_, ?_⟩
        · rw [htotal, streamBytes, streamBytes, List.map_cons, List.sum_cons]
          omega
        · rw [List.map_cons, List.nodup_cons]
          refine ⟨?_, hdistinct⟩
          intro hmem
          obtain ⟨v, hv, hvid⟩ := List.mem_map.mp hmem
          rw [hid] at hvid
          exact hfresh (hvid ▸ (hvictims v hv).1)
        · intro v hv
          rcases List.mem_cons.mp hv with rfl | hv
          · rw [hid]
            exact ⟨List.mem_cons_self, hcandidate, fun hactive => hstatus hactive.1⟩
          · exact ⟨List.mem_cons_of_mem _ (hvictims v hv).1, (hvictims v hv).2⟩
    · rw [if_neg hneed]
      simp [streamBytes]

/-- Evicting distinct idle streams keeps the invariant and frees their bytes. -/
theorem evict_spec (now : Int) :
    ∀ (victims : List MemoryStream) (m : Memory), StoreInv m → (victims.map (·.id)).Nodup →
      (∀ victim ∈ victims, m.streams.lookup victim.id = some victim ∧ ¬ victim.Active) →
      StoreInv (evict now m victims) ∧ Shrinks m (evict now m victims) ∧
        (evict now m victims).totalBytes = m.totalBytes - streamBytes victims := by
  intro victims
  induction victims with
  | nil =>
    intro m h _ _
    exact ⟨h, Shrinks.refl m, by simp [evict, streamBytes]⟩
  | cons victim victims ih =>
    intro m h hnodup hvictims
    rw [List.map_cons, List.nodup_cons] at hnodup
    obtain ⟨hlookup, hidle⟩ := hvictims victim List.mem_cons_self
    have hrest : ∀ v ∈ victims,
        (removeStreamLocked m victim now (now + victim.retentionTTL)).streams.lookup v.id =
          some v ∧ ¬ v.Active := by
      intro v hv
      have hne : v.id ≠ victim.id := by
        intro heq
        exact hnodup.1 (heq ▸ List.mem_map_of_mem hv)
      rw [lookup_remove_ne _ _ hne]
      exact hvictims v (List.mem_cons_of_mem _ hv)
    obtain ⟨hinv, hshrinks, htotal⟩ := ih _ (h.remove now _ hlookup) hnodup.2 hrest
    refine ⟨hinv, (remove_shrinks now _ hlookup hidle).trans hshrinks, ?_⟩
    have hone : (removeStreamLocked m victim now (now + victim.retentionTTL)).totalBytes =
        m.totalBytes - victim.bytes := rfl
    have hsum : streamBytes (victim :: victims) = victim.bytes + streamBytes victims := by
      simp [streamBytes]
    have hevict : evict now m (victim :: victims) =
        evict now (removeStreamLocked m victim now (now + victim.retentionTTL)) victims := rfl
    rw [hevict, htotal, hone, hsum]
    omega

/-- The bytes that a trim of `count` entries frees in the growing stream. -/
def trimmedBytes (stream : Option MemoryStream) (count : Nat) : Int :=
  match stream with
  | none => 0
  | some stream => storedBytes (stream.entries.take count)

/-- What `makeRoomLocked` gives to its caller. -/
structure RoomMade (m room : Memory) (stream : Option MemoryStream) (size trimCount : Nat) :
    Prop where
  inv : StoreInv room
  shrinks : Shrinks m room
  size_le : (size : Int) ≤ m.config.maxBytesPerStream
  total_le : room.totalBytes - trimmedBytes stream trimCount + size ≤ m.config.maxTotalBytes
  trim : ∀ s, stream = some s → trimCount ≤ s.entries.length ∧
    s.bytes - storedBytes (s.entries.take trimCount) + size ≤ m.config.maxBytesPerStream

private theorem trimFor_spec {stream : Option MemoryStream} {size : Nat}
    (hsize : (size : Int) ≤ m.config.maxBytesPerStream)
    (hstream : ∀ s, stream = some s → s.bytes = storedBytes s.entries) :
    ∃ count, trimFor m stream size = some (count, trimmedBytes stream count) ∧
      ∀ s, stream = some s → count ≤ s.entries.length ∧
        s.bytes - storedBytes (s.entries.take count) + size ≤ m.config.maxBytesPerStream := by
  cases stream with
  | none => exact ⟨0, rfl, by simp⟩
  | some s =>
    obtain ⟨count, hcount, hloop, hle⟩ :=
      trimLoop_spec (m.config.maxBytesPerStream - size) (by omega) (hstream s rfl)
    refine ⟨count, hloop, ?_⟩
    intro s' hs'
    cases hs'
    exact ⟨hcount, by omega⟩

/-- `makeRoomLocked` never indexes past the entry list, and when it succeeds the
new entry fits both limits once the stream is trimmed. -/
theorem makeRoomLocked_spec (h : StoreInv m) {stream : Option MemoryStream}
    (hstream : ∀ s, stream = some s → s.bytes = storedBytes s.entries) (size : Nat) (now : Int) :
    (∃ err, makeRoomLocked m stream size now = .error (.error err)) ∨
      ∃ room trimCount, makeRoomLocked m stream size now = .ok (room, trimCount) ∧
        RoomMade m room stream size trimCount := by
  unfold makeRoomLocked
  by_cases hsize : (size : Int) > m.config.maxBytesPerStream
  · rw [if_pos hsize]
    exact .inl ⟨_, rfl⟩
  · rw [if_neg hsize]
    have hsize' : (size : Int) ≤ m.config.maxBytesPerStream := by omega
    obtain ⟨count, htrim, hfits⟩ := trimFor_spec hsize' hstream
    simp only [htrim]
    generalize hneed : bytesToFree m (trimmedBytes stream count) size = needFree
    obtain ⟨hfreed, hdistinct, hvictims⟩ :=
      selectVictims_spec h (stream.map (·.id)) needFree m.terminalLRU.reverse 0
        (List.nodup_reverse.mpr h.lru_nodup) (fun id hid => List.mem_reverse.mp hid)
    by_cases hshort :
        (selectVictims m.streams (stream.map (·.id)) needFree m.terminalLRU.reverse 0).2 <
          needFree
    · rw [if_pos hshort]
      exact .inl ⟨_, rfl⟩
    · rw [if_neg hshort]
      obtain ⟨hinv, hshrinks, htotal⟩ :=
        evict_spec now _ m h hdistinct (fun v hv => (hvictims v hv).2)
      refine .inr ⟨_, count, rfl, hinv, hshrinks, hsize', ?_, hfits⟩
      rw [htotal]
      simp only [bytesToFree] at hneed
      split at hneed <;> omega

/-! ## Committing an entry -/

/-- `applyStateEntryLocked` sets the migrations, the current backend and the usage,
and nothing else. -/
theorem applyStateEntryLocked_eq (stream : MemoryStream) (entry : Entry) :
    ∃ migrations backend usage, applyStateEntryLocked stream entry =
      { stream with
        migrations := migrations, currentBackend := backend, usage := usage } := by
  unfold applyStateEntryLocked
  split
  · split
    · split <;> exact ⟨_, _, _, rfl⟩
    · split <;> exact ⟨_, _, _, rfl⟩
  · split <;> exact ⟨_, _, _, rfl⟩

/-- The stream that `installEntry` stores. -/
def commitStream (stream : MemoryStream) (trimCount : Nat) (stored : StoredEntry) (now : Int) :
    MemoryStream :=
  let trimmed := if trimCount ≠ 0 then trimStream stream trimCount else stream
  applyStateEntryLocked (pushEntry trimmed stored now) stored.entry

/-- The fields of the committed stream that the invariant reads. -/
theorem commitStream_fields (stream : MemoryStream) (trimCount : Nat) (stored : StoredEntry)
    (now : Int) :
    let committed := commitStream stream trimCount stored now
    committed.id = stream.id ∧ committed.status = stream.status ∧
      committed.inLRU = stream.inLRU ∧ committed.degraded = stream.degraded ∧
      committed.lastSeq = stored.entry.seq ∧
      committed.entries = stream.entries.drop trimCount ++ [stored] ∧
      committed.bytes =
        stream.bytes - storedBytes (stream.entries.take trimCount) + stored.size := by
  intro committed
  obtain ⟨migrations, backend, usage, happly⟩ := applyStateEntryLocked_eq
    (pushEntry (if trimCount ≠ 0 then trimStream stream trimCount else stream) stored now)
    stored.entry
  have hcommitted : committed = _ := happly
  rw [hcommitted]
  by_cases htrim : trimCount = 0
  · simp [htrim, pushEntry]
  · simp [htrim, pushEntry, trimStream]

/-- The earliest sequence moves by the number of trimmed entries. -/
theorem commitStream_earliestSeq (h : StreamInv config key stream) {trimCount : Nat}
    (hcount : trimCount ≤ stream.entries.length) (hseq : stored.entry.seq = stream.lastSeq + 1)
    (now : Int) :
    (commitStream stream trimCount stored now).earliestSeq = stream.earliestSeq + trimCount := by
  obtain ⟨migrations, backend, usage, happly⟩ := applyStateEntryLocked_eq
    (pushEntry (if trimCount ≠ 0 then trimStream stream trimCount else stream) stored now)
    stored.entry
  have hcommitted : commitStream stream trimCount stored now = _ := happly
  rw [hcommitted]
  have hlast := h.last_eq
  by_cases htrim : trimCount = 0
  · simp [htrim, pushEntry, h.nonempty]
  · simp only [ne_eq, htrim, not_false_eq_true, if_true, pushEntry, trimStream]
    cases hdrop : stream.entries.drop trimCount with
    | nil =>
      have hlen : stream.entries.length ≤ trimCount := List.drop_eq_nil_iff.mp hdrop
      simp only [List.length_nil, if_true]
      omega
    | cons first rest =>
      -- The first retained entry is the one at position `trimCount`.
      have hfirst := h.consecutive.drop trimCount
      rw [← List.map_drop, hdrop] at hfirst
      have hhead := hfirst.getElem? (show 0 < _ by simp)
      simpa using hhead

theorem StreamInv.commit (h : StreamInv config key stream) {trimCount : Nat}
    (hcount : trimCount ≤ stream.entries.length) (hseq : stored.entry.seq = stream.lastSeq + 1)
    (herr : stored.entry.err = none)
    (hfits : stream.bytes - storedBytes (stream.entries.take trimCount) + stored.size ≤
      config.maxBytesPerStream) (now : Int) :
    StreamInv config key (commitStream stream trimCount stored now) := by
  obtain ⟨hid, hstatus, hlru, hdegraded, hlast, hentries, hbytes⟩ :=
    commitStream_fields stream trimCount stored now
  have hearliest := commitStream_earliestSeq h hcount hseq now
  have hold := h.last_eq
  refine ⟨?_, ?_, ?_, ?_, ?_, ?_, ?_, ?_, ?_, ?_⟩
  · rw [hid, h.id_eq]
  · rw [hbytes, hentries, storedBytes_append, storedBytes_drop, storedBytes_cons,
      storedBytes_nil, h.bytes_eq]
    omega
  · rw [hbytes]
    exact hfits
  · rw [hearliest]
    have := h.earliest_pos
    omega
  · rw [hearliest, hentries, List.map_append, List.map_drop, List.map_cons, List.map_nil]
    apply (h.consecutive.drop trimCount).concat
    rw [List.length_drop, List.length_map, hseq]
    omega
  · rw [hlast, hearliest, hentries, List.length_append, List.length_drop, hseq]
    simp only [List.length_singleton]
    omega
  · rw [hentries]
    simp
  · intro kept hkept
    rw [hentries, List.mem_append, List.mem_singleton] at hkept
    rcases hkept with hkept | rfl
    · exact h.no_err kept (List.mem_of_mem_drop hkept)
    · exact herr
  · rw [hlru, hstatus]
    exact h.lru
  · rw [hdegraded, hstatus]
    exact h.degraded_open

/-- Storing a stream under a key keeps the invariant when the bytes and the LRU
list follow. -/
theorem StoreInv.insert (h : StoreInv m) (totalBytes : Int) (lru : List StreamID)
    (hstream : StreamInv m.config id stream)
    (htotal : totalBytes = stream.bytes + (m.streams.erase id).total (·.bytes))
    (hle : totalBytes ≤ m.config.maxTotalBytes) (hnodup : lru.Nodup)
    (hself : id ∈ lru ↔ stream.status ≠ .statusOpen)
    (hother : ∀ key, key ≠ id → (key ∈ lru ↔ key ∈ m.terminalLRU))
    (htomb : m.tombstones.lookup id = none) (readers : List TailReader) :
    StoreInv { m with
      streams := m.streams.insert id stream
      totalBytes := totalBytes
      terminalLRU := lru
      readers := readers } := by
  refine ⟨?_, hle, ?_, hnodup, ?_, ?_⟩
  · rw [AList.total_insert, htotal]
  · intro key s hs
    by_cases hkey : key = id
    · subst hkey
      rw [AList.lookup_insert] at hs
      cases hs
      exact hstream
    · rw [AList.lookup_insert_ne hkey] at hs
      exact h.stream key s hs
  · intro key
    by_cases hkey : key = id
    · subst hkey
      simp [hself]
    · rw [hother key hkey, h.lru_mem, AList.lookup_insert_ne hkey]
  · intro key s hs
    by_cases hkey : key = id
    · rw [hkey]
      exact htomb
    · rw [AList.lookup_insert_ne hkey] at hs
      exact h.disjoint key s hs

/-- A live stream that keeps its key, its bytes and its status can be rewritten. -/
theorem StoreInv.rewrite (h : StoreInv m) {stream' : MemoryStream}
    (hlookup : m.streams.lookup id = some stream) (hstream : StreamInv m.config id stream')
    (hbytes : stream'.bytes = stream.bytes) (hstatus : stream'.status = stream.status)
    (readers : List TailReader) :
    StoreInv { m with streams := m.streams.insert id stream', readers := readers } := by
  refine h.insert m.totalBytes m.terminalLRU hstream ?_ h.total_le
    h.lru_nodup ?_ (fun _ _ => Iff.rfl) (h.disjoint _ _ hlookup) readers
  · rw [hbytes, ← AList.total_eq_add_erase _ hlookup, h.total_eq]
  · rw [h.lru_mem, hlookup, hstatus]
    simp

theorem TailReader.moved_publish (maxLag : Int) (size : Nat) (r : TailReader)
    (hrunning : r.stopped = false) : r.Moved (r.publish maxLag size) := by
  simp only [TailReader.publish, TailReader.stop, hrunning]
  split
  · exact ⟨rfl, rfl, by simp [hrunning]⟩
  · exact ⟨rfl, rfl, by simp [hrunning]⟩

theorem TailReader.moved_dropBehind (minimumCursor : Nat) (r : TailReader) :
    r.Moved (r.dropBehind minimumCursor) := by
  unfold TailReader.dropBehind
  split
  · exact moved_stop _ _ r
  · exact .refl r

/-- The two notifications of `commitLocked` change the readers only. -/
theorem notify_eq (m : Memory) (stream : MemoryStream) (size : Nat) :
    ∃ readers, ReadersMoved m.readers readers ∧
      publishLocked (dropReadersBehindRingLocked m stream) stream.id size =
        { m with readers := readers } := by
  have hpublish (m' : Memory) :
      ReadersMoved m'.readers (publishLocked m' stream.id size).readers :=
    readersMoved_forTails m' _ fun r hr => TailReader.moved_publish _ _ r hr
  by_cases hring : stream.earliestSeq ≤ 1
  · refine ⟨_, hpublish m, ?_⟩
    simp only [dropReadersBehindRingLocked, if_pos hring]
    rfl
  · have hdrop := readersMoved_forTails m stream.id
      fun r _ => TailReader.moved_dropBehind (stream.earliestSeq - 1) r
    refine ⟨_, hdrop.trans (hpublish _), ?_⟩
    simp only [dropReadersBehindRingLocked, if_neg hring]
    rfl

/-- `installEntry` writes the stream and the bytes of the store, and notifies the
readers. -/
theorem installEntry_eq (m : Memory) (stream : MemoryStream) (trimCount : Nat)
    (stored : StoredEntry) (now : Int) :
    ∃ readers, ReadersMoved m.readers readers ∧
      installEntry m stream trimCount stored now =
        ({ m with
            streams := m.streams.insert stream.id (commitStream stream trimCount stored now)
            totalBytes :=
              m.totalBytes - storedBytes (stream.entries.take trimCount) + stored.size
            readers := readers },
          commitStream stream trimCount stored now) := by
  have hid := (commitStream_fields stream trimCount stored now).1
  obtain ⟨readers, hmoved, hnotify⟩ := notify_eq
    { m with
      streams := m.streams.insert stream.id (commitStream stream trimCount stored now)
      totalBytes :=
        m.totalBytes - storedBytes (stream.entries.take trimCount) + stored.size }
    (commitStream stream trimCount stored now) stored.size
  refine ⟨readers, hmoved, ?_⟩
  have hinstall : installEntry m stream trimCount stored now =
      (publishLocked (dropReadersBehindRingLocked
          { m with
            streams := m.streams.insert (commitStream stream trimCount stored now).id
              (commitStream stream trimCount stored now)
            totalBytes :=
              m.totalBytes - storedBytes (stream.entries.take trimCount) + stored.size }
          (commitStream stream trimCount stored now))
        (commitStream stream trimCount stored now).id stored.size,
        commitStream stream trimCount stored now) := by
    by_cases htrim : trimCount = 0
    · simp [installEntry, commitStream, htrim]
    · simp [installEntry, commitStream, htrim, trimStreamLocked]
  rw [hinstall, hid]
  rw [hid] at hnotify
  rw [hnotify]

/-! ## The calls -/

/-- The stream of every running reader is live. -/
def Attached (m : Memory) : Prop :=
  ∀ r ∈ m.readers, r.stopped = false → (m.streams.lookup r.stream).isSome

/-- What a call does to a store that satisfies the invariant. -/
structure CallSpec (m m' : Memory) (reply : Reply) : Prop where
  inv : StoreInv m'
  config : m'.config = m.config
  active : ∀ id s, m.streams.lookup id = some s → s.Active →
    (m'.streams.lookup id).isSome
  no_panic : reply ≠ .failed .panic
  readers : ∃ moved new, m'.readers = moved ++ new ∧ ReadersMoved m.readers moved ∧
    new.length ≤ 1 ∧ ∀ r ∈ new, r.stopped = false
  attached : Attached m → Attached m'

/-- A call that changes no stream and adds no reader. -/
theorem CallSpec.of_same (hinv : StoreInv m') (hconfig : m'.config = m.config)
    (hstreams : m'.streams = m.streams) (hreaders : m'.readers = m.readers)
    (hreply : reply ≠ .failed .panic) : CallSpec m m' reply := by
  refine ⟨hinv, hconfig, ?_, hreply, ⟨m.readers, [], by simpa using hreaders, .refl _, by simp,
    by simp⟩, ?_⟩
  · intro id s hs _
    rw [hstreams, hs]
    rfl
  · intro h r hr
    rw [hstreams]
    exact h r (hreaders ▸ hr)

theorem CallSpec.error (h : StoreInv m) (err : JournalError) : CallSpec m m (.error err) :=
  .of_same h rfl rfl rfl (by simp)

theorem Shrinks.attachedTo (h : Shrinks m m') (hattached : Attached m) : Attached m' := by
  intro r' hr' hrunning
  obtain ⟨r, hr, hmoved⟩ := h.readers.exists_of_mem hr'
  rw [h.attached r' hr' hrunning, hmoved.stream]
  exact hattached r hr (hmoved.running hrunning)

/-- A call that works on a store that lost some idle streams. -/
theorem CallSpec.of_shrinks {base : Memory} (hshrinks : Shrinks m base)
    (h : CallSpec base m' reply) : CallSpec m m' reply := by
  refine ⟨h.inv, h.config.trans hshrinks.config, ?_, h.no_panic, ?_, ?_⟩
  · exact fun id s hs ha => h.active id s (hshrinks.active id s hs ha) ha
  · obtain ⟨moved, new, heq, hmoved, hnew⟩ := h.readers
    exact ⟨moved, new, heq, hshrinks.readers.trans hmoved, hnew⟩
  · exact fun hattached => h.attached (hshrinks.attachedTo hattached)

/-- A call that rewrites one stream and adds readers to it. -/
theorem CallSpec.of_insert {moved new : List TailReader} (hinv : StoreInv m')
    (hconfig : m'.config = m.config) (hstreams : m'.streams = m.streams.insert id stream)
    (hreaders : m'.readers = moved ++ new) (hmoved : ReadersMoved m.readers moved)
    (hlen : new.length ≤ 1) (hnew : ∀ r ∈ new, r.stopped = false ∧ r.stream = id)
    (hreply : reply ≠ .failed .panic) : CallSpec m m' reply := by
  have hlive (key : StreamID) (hkey : (m.streams.lookup key).isSome) :
      (m'.streams.lookup key).isSome := by
    rw [hstreams]
    by_cases hid : key = id
    · rw [hid, AList.lookup_insert]
      rfl
    · rwa [AList.lookup_insert_ne hid]
  refine ⟨hinv, hconfig, ?_, hreply,
    ⟨moved, new, hreaders, hmoved, hlen, fun r hr => (hnew r hr).1⟩, ?_⟩
  · intro key s hs _
    exact hlive key (by rw [hs]; rfl)
  · intro hattached r hr hrunning
    rw [hreaders, List.mem_append] at hr
    rcases hr with hr | hr
    · obtain ⟨r₀, hr₀, hfrom⟩ := hmoved.exists_of_mem hr
      rw [hfrom.stream]
      exact hlive _ (hattached r₀ hr₀ (hfrom.running hrunning))
    · rw [hstreams, (hnew r hr).2, AList.lookup_insert]
      rfl

/-- The prologue of a method either fails or runs the body. -/
theorem withLock_spec (h : StoreInv m) {ctx : Context} {check : Except JournalError Unit}
    {body : Memory → Memory × Reply} (hbody : check = .ok () → CallSpec m (body m).1 (body m).2) :
    CallSpec m (withLock m ctx check body).1 (withLock m ctx check body).2 := by
  unfold withLock
  split
  · exact .error h _
  · split
    · exact .error h _
    · split
      · exact .error h _
      · exact hbody rfl

/-- A method on a stream runs its body in the store after the cleanup. -/
theorem withStream_spec (h : StoreInv m) {body : Memory → MemoryStream → Memory × Reply}
    (hbody : ∀ base stream, StoreInv base → base.streams.lookup id = some stream →
      CallSpec base (body base stream).1 (body base stream).2) :
    CallSpec m (withStream m id now body).1 (withStream m id now body).2 := by
  obtain ⟨hinv, hshrinks⟩ := cleanupExpiredLocked_spec h now
  refine .of_shrinks hshrinks ?_
  unfold withStream
  dsimp only
  split
  · exact .error hinv _
  · rename_i stream hfind
    exact hbody _ stream hinv (findLocked_ok hfind)

/-- Using a terminal stream last only reorders the LRU list. -/
theorem CallSpec.touch (h : CallSpec m m' reply) (hlookup : m'.streams.lookup id = some stream) :
    CallSpec m (touchTerminalLocked m' stream) reply := by
  have hinv := h.inv.touch hlookup
  revert hinv
  unfold touchTerminalLocked
  split
  · exact fun hinv => ⟨hinv, h.config, h.active, h.no_panic, h.readers, h.attached⟩
  · exact fun _ => h

theorem touch_spec (h : StoreInv m) (hlookup : m.streams.lookup id = some stream)
    (hreply : reply ≠ .failed .panic) : CallSpec m (touchTerminalLocked m stream) reply :=
  CallSpec.touch (.of_same h rfl rfl rfl hreply) hlookup

theorem read_spec (h : StoreInv m) (ctx : Context) (id : StreamID) (fromSeq : Nat) (now : Int) :
    CallSpec m (m.read ctx id fromSeq now).1 (m.read ctx id fromSeq now).2 := by
  refine withLock_spec h fun _ => (withStream_spec h fun base stream hinv hlookup => ?_)
  have htouch {reply : Reply} (hreply : reply ≠ .failed .panic) :
      CallSpec base (touchTerminalLocked base stream) reply :=
    touch_spec hinv hlookup hreply
  dsimp only
  split
  · exact .error hinv _
  · split
    · exact .error hinv _
    · split
      · exact htouch (by simp)
      · exact htouch (by simp)

theorem state_spec (h : StoreInv m) (ctx : Context) (id : StreamID) (now : Int) :
    CallSpec m (m.state ctx id now).1 (m.state ctx id now).2 :=
  withLock_spec h fun _ => (withStream_spec h fun _ _ hinv hlookup =>
    touch_spec hinv hlookup (by simp))

theorem tail_spec (h : StoreInv m) (ctx : Context) (id : StreamID) (fromSeq : Nat) (now : Int) :
    CallSpec m (m.tail ctx id fromSeq now).1 (m.tail ctx id fromSeq now).2 := by
  refine withLock_spec h fun _ => (withStream_spec h fun base stream hinv hlookup => ?_)
  dsimp only
  split
  · exact .error hinv _
  · split
    · exact .error hinv _
    · split
      · exact .error hinv _
      · split
        · exact .error hinv _
        · have hstream := hinv.stream _ _ hlookup
          have hid := hstream.id_eq
          subst hid
          generalize hreader : TailReader.mk .. = reader
          have hnumbered : StreamInv base.config stream.id
              { stream with nextTailID := stream.nextTailID + 1 } :=
            { hstream with }
          have hnew : ∀ r ∈ [reader], r.stopped = false ∧ r.stream = stream.id := by
            intro r hr
            rw [List.mem_singleton.mp hr, ← hreader]
            exact ⟨rfl, rfl⟩
          exact CallSpec.touch (.of_insert (m := base)
            (hinv.rewrite hlookup hnumbered rfl rfl (base.readers ++ [reader]))
            rfl rfl rfl (.refl _) (by simp) hnew (by exact Reply.noConfusion))
            (AList.lookup_insert _)

theorem markDegraded_spec (h : StoreInv m) (ctx : Context) (id : StreamID) (now : Int) :
    CallSpec m (m.markDegraded ctx id now).1 (m.markDegraded ctx id now).2 := by
  refine withLock_spec h fun _ => (withStream_spec h fun base stream hinv hlookup => ?_)
  dsimp only
  split
  · exact .error hinv _
  · rename_i hopen
    have hstream := hinv.stream _ _ hlookup
    have hid := hstream.id_eq
    subst hid
    have hsealed : StreamInv base.config stream.id
        { stream with
          degraded := true
          updatedAt := now
          expiresAt := now + stream.retentionTTL } :=
      { hstream with degraded_open := fun _ => by simpa using hopen }
    have hspec {readers : List TailReader} (hmoved : ReadersMoved base.readers readers) :
        CallSpec base _ Reply.done :=
      .of_insert (hinv.rewrite hlookup hsealed rfl rfl readers) rfl rfl
        (List.append_nil readers).symm hmoved (by simp) (by simp) (by simp)
    split
    · exact hspec (.refl _)
    · refine hspec (readersMoved_forTails base _ fun r hrunning => ?_)
      exact ⟨rfl, rfl, by simp [hrunning]⟩

/-! ### Writes -/

theorem prepareEntry_ok {input : Entry} {seq : Nat}
    (h : prepareEntry envelopeLen input seq now = .ok stored) :
    stored.entry =
      { seq := seq, ts := now, kind := input.kind, payload := input.payload, err := none } ∧
      validatePayload input.payload = .ok () := by
  unfold prepareEntry at h
  split at h
  · cases h
  · split at h
    · cases h
    · rename_i hpayload
      dsimp only at h
      split at h
      · cases h
      · cases h
        exact ⟨rfl, hpayload⟩

theorem checkWritable_ok (h : checkWritable stream = .ok ()) :
    stream.Active ∧ stream.lastSeq ≠ maxUint64 := by
  unfold checkWritable at h
  split at h
  · cases h
  · rename_i hopen
    split at h
    · cases h
    · rename_i hdegraded
      split at h
      · cases h
      · rename_i hmax
        exact ⟨⟨by simpa using hopen, by simpa using hdegraded⟩, hmax⟩

/-- What a successful write does: it makes room and stores the committed stream. -/
structure Committed (base m' : Memory) (stream : MemoryStream) (stored : StoredEntry)
    (now : Int) (room : Memory) (trimCount : Nat) : Prop where
  active : stream.Active
  seq : stored.entry.seq = stream.lastSeq + 1
  err : stored.entry.err = none
  room_made : RoomMade base room (some stream) stored.size trimCount
  moved : ReadersMoved room.readers m'.readers
  store : m' =
    { room with
      streams := room.streams.insert stream.id (commitStream stream trimCount stored now)
      totalBytes :=
        room.totalBytes - storedBytes (stream.entries.take trimCount) + stored.size
      readers := m'.readers }

/-- A write fails with an error or commits. -/
theorem commitNext_spec (envelopeLen : Entry → Option Nat) {base : Memory} (h : StoreInv base)
    (hlookup : base.streams.lookup stream.id = some stream) (entry : Entry) (now : Int) :
    (∃ err, commitNext envelopeLen base stream entry now = .error (.error err)) ∨
      ∃ m' stored room trimCount,
        commitNext envelopeLen base stream entry now =
          .ok (m', commitStream stream trimCount stored now, stored) ∧
        stored.entry.kind = entry.kind ∧ Committed base m' stream stored now room trimCount := by
  unfold commitNext
  split
  · exact .inl ⟨_, rfl⟩
  · rename_i hwritable
    split
    · exact .inl ⟨_, rfl⟩
    · rename_i stored hprepare
      obtain ⟨hentry, _⟩ := prepareEntry_ok hprepare
      have hbytes : ∀ s, some stream = some s → s.bytes = storedBytes s.entries := by
        intro s hs
        cases hs
        exact (h.stream _ _ hlookup).bytes_eq
      unfold commitLocked
      rcases makeRoomLocked_spec h hbytes stored.size now with
        ⟨err, hfail⟩ | ⟨room, trimCount, hroom, hmade⟩
      · rw [hfail]
        exact .inl ⟨_, rfl⟩
      · rw [hroom]
        obtain ⟨readers, hmoved, hinstall⟩ := installEntry_eq room stream trimCount stored now
        dsimp only
        rw [hinstall]
        exact .inr ⟨_, stored, room, trimCount, rfl, by rw [hentry],
          (checkWritable_ok hwritable).1, by rw [hentry], by rw [hentry], hmade, hmoved, rfl⟩

section Committed

variable {base room : Memory} {trimCount : Nat}

/-- The growing stream survives the eviction. -/
theorem Committed.lookup_room (hc : Committed base m' stream stored now room trimCount)
    (hlookup : base.streams.lookup stream.id = some stream) :
    room.streams.lookup stream.id = some stream :=
  hc.room_made.shrinks.active _ _ hlookup hc.active

theorem Committed.streamInv (hc : Committed base m' stream stored now room trimCount)
    (h : StoreInv base) (hlookup : base.streams.lookup stream.id = some stream) :
    StreamInv base.config stream.id (commitStream stream trimCount stored now) := by
  obtain ⟨hcount, hfits⟩ := hc.room_made.trim stream rfl
  exact (h.stream _ _ hlookup).commit hcount hc.seq hc.err hfits now

/-- A committed entry, followed by a rewrite of the stream that may close it. -/
theorem Committed.spec (hc : Committed base m' stream stored now room trimCount)
    (hlookup : base.streams.lookup stream.id = some stream) {stream' : MemoryStream}
    {lru : List StreamID} (hstream : StreamInv base.config stream.id stream')
    (hbytes : stream'.bytes = (commitStream stream trimCount stored now).bytes)
    (hnodup : lru.Nodup) (hself : stream.id ∈ lru ↔ stream'.status ≠ .statusOpen)
    (hother : ∀ key, key ≠ stream.id → (key ∈ lru ↔ key ∈ room.terminalLRU))
    (hreply : reply ≠ .failed .panic) :
    CallSpec base { m' with
      streams := room.streams.insert stream.id stream'
      terminalLRU := lru } reply := by
  have hmade := hc.room_made
  have hroom := hc.lookup_room hlookup
  have hle := hmade.total_le
  have htotal := AList.total_eq_add_erase (·.bytes) hroom
  obtain ⟨_, _, _, _, _, _, hcommitted⟩ := commitStream_fields stream trimCount stored now
  rw [← hmade.inv.total_eq] at htotal
  rw [hc.store]
  refine .of_shrinks hmade.shrinks (.of_insert (m := room) ?_ rfl rfl
    (List.append_nil _).symm hc.moved (by simp) (by simp) hreply)
  refine hmade.inv.insert _ lru ?_ ?_ ?_ hnodup hself hother
    (hmade.inv.disjoint _ _ hroom) m'.readers
  · rw [hmade.shrinks.config]
    exact hstream
  · rw [hbytes, hcommitted]
    dsimp only
    omega
  · rw [hmade.shrinks.config]
    simpa [trimmedBytes] using hle

end Committed

theorem append_spec (h : StoreInv m) (ctx : Context) (id : StreamID) (entry : Entry) (now : Int) :
    CallSpec m (m.append envelopeLen ctx id entry now).1
      (m.append envelopeLen ctx id entry now).2 := by
  refine withLock_spec h fun _ => (withStream_spec h fun base stream hinv hlookup => ?_)
  have hid := (hinv.stream _ _ hlookup).id_eq
  subst hid
  rcases commitNext_spec envelopeLen hinv hlookup entry now with
    ⟨err, hfail⟩ | ⟨m', stored, room, trimCount, hok, _, hc⟩
  · simp only [hfail]
    exact .error hinv err
  · simp only [hok]
    have hstream := hc.streamInv hinv hlookup
    have hroom := hc.lookup_room hlookup
    have hstatus := (commitStream_fields stream trimCount stored now).2.1
    have hself : stream.id ∈ room.terminalLRU ↔
        (commitStream stream trimCount stored now).status ≠ .statusOpen := by
      rw [hc.room_made.inv.lru_mem, hroom, hstatus]
      simp
    have hspec : CallSpec base _ (.seq stored.entry.seq) :=
      hc.spec hlookup hstream rfl hc.room_made.inv.lru_nodup hself (fun _ _ => Iff.rfl)
        (by simp)
    rw [hc.store]
    rw [hc.store] at hspec
    exact hspec

/-- A closed stream keeps its invariant. -/
theorem StreamInv.close (h : StreamInv config key stream) (hactive : stream.degraded = false)
    {committed : Entry} (hkind : committed.kind.terminal = true) (now : Int) :
    StreamInv config key (closeStream stream committed now) :=
  { h with
    lru := by simp [closeStream, statusForTerminal_ne_open hkind]
    degraded_open := by simp [closeStream, hactive] }

theorem close_spec (h : StoreInv m) (ctx : Context) (id : StreamID) (terminal : Entry) (now : Int) :
    CallSpec m (m.close envelopeLen ctx id terminal now).1
      (m.close envelopeLen ctx id terminal now).2 := by
  refine withLock_spec h fun hcheck =>
    (withStream_spec h fun base stream hinv hlookup => ?_)
  have hid := (hinv.stream _ _ hlookup).id_eq
  subst hid
  rcases commitNext_spec envelopeLen hinv hlookup terminal now with
    ⟨err, hfail⟩ | ⟨m', stored, room, trimCount, hok, hkind, hc⟩
  · simp only [hfail]
    exact .error hinv err
  · simp only [hok]
    have hterminal : stored.entry.kind.terminal = true := by
      rw [hkind]
      by_contra hneg
      simp [hneg] at hcheck
    obtain ⟨hcid, hstatus, _, hdegraded, _⟩ := commitStream_fields stream trimCount stored now
    have hstream := (hc.streamInv hinv hlookup).close
      (by rw [hdegraded]; exact hc.active.2) hterminal now
    have hroom := hc.lookup_room hlookup
    -- The stream was open, so it was not in the LRU list yet.
    have hfresh : stream.id ∉ room.terminalLRU := by
      rw [hc.room_made.inv.lru_mem, hroom]
      simp [hc.active.1]
    have hspec : CallSpec base _ .done :=
      hc.spec hlookup hstream rfl (List.nodup_cons.mpr ⟨hfresh, hc.room_made.inv.lru_nodup⟩)
        (by simp [closeStream, statusForTerminal_ne_open hterminal])
        (fun key hkey => by simp [hkey]) (by simp)
    rw [hc.store, hcid]
    rw [hc.store] at hspec
    dsimp only
    rw [AList.insert_insert]
    exact hspec

theorem newStream_inv {metadata : Meta} {ttl : Int} (hseq : stored.entry.seq = 1)
    (herr : stored.entry.err = none) (hsize : (stored.size : Int) ≤ config.maxBytesPerStream)
    (now : Int) : StreamInv config id (newStream id metadata ttl stored now) := by
  refine ⟨rfl, ?_, hsize, le_refl _, ?_, rfl, by simp [newStream], ?_, ?_, by simp [newStream]⟩
  · simp [newStream]
  · simp [newStream, hseq, Consecutive]
  · simpa [newStream] using herr
  · simp [newStream]

theorem openLocked_spec (h : StoreInv m) (id : StreamID) (metadata : Meta) (now : Int) :
    CallSpec m (openLocked envelopeLen m id metadata now).1
      (openLocked envelopeLen m id metadata now).2 := by
  obtain ⟨hinv, hshrinks⟩ := cleanupExpiredLocked_spec h now
  refine .of_shrinks hshrinks ?_
  unfold openLocked
  generalize cleanupExpiredLocked m now = base at hinv
  dsimp only
  split
  · exact .error hinv _
  · rename_i hfree
    split
    · exact .error hinv _
    · rename_i stored hprepare
      obtain ⟨hentry, _⟩ := prepareEntry_ok hprepare
      rcases makeRoomLocked_spec hinv (show ∀ s, none = some s → _ by simp) stored.size now with
        ⟨err, hfail⟩ | ⟨room, trimCount, hroom, hmade⟩
      · rw [hfail]
        exact .error hinv _
      · rw [hroom]
        simp only [not_or, Option.not_isSome_iff_eq_none] at hfree
        have hnew := hmade.shrinks.lookup_none hfree.1
        have htomb := hmade.shrinks.fresh id hfree.1 hfree.2
        have hout : id ∉ room.terminalLRU := by
          rw [hmade.inv.lru_mem, hnew]
          simp
        have hle := hmade.total_le
        refine .of_shrinks hmade.shrinks (.of_insert (m := room) ?_ rfl rfl
          (List.append_nil _).symm (.refl _) (by simp) (by simp) (by simp))
        refine hmade.inv.insert _ room.terminalLRU (newStream_inv (by rw [hentry])
          (by rw [hentry]) ?_ now) ?_ ?_ hmade.inv.lru_nodup ?_ (fun _ _ => Iff.rfl) htomb
          room.readers
        · rw [hmade.shrinks.config]
          exact hmade.size_le
        · rw [← AList.total_insert, AList.total_insert_new _ _ hnew, ← hmade.inv.total_eq]
          simp only [newStream]
          omega
        · rw [hmade.shrinks.config]
          simpa [trimmedBytes] using hle
        · simp [hout, newStream]

theorem open_spec (h : StoreInv m) (ctx : Context) (id : StreamID) (metadata : Meta) (now : Int) :
    CallSpec m (m.open envelopeLen ctx id metadata now).1
      (m.open envelopeLen ctx id metadata now).2 :=
  withLock_spec h fun _ => openLocked_spec h id metadata now

/-- The step lemma: what any call does to a store that satisfies the invariant. -/
theorem exec_spec (envelopeLen : Entry → Option Nat) (h : StoreInv m) (call : Call) :
    CallSpec m (m.exec envelopeLen call).1 (m.exec envelopeLen call).2 := by
  cases call with
  | «open» ctx id metadata now => exact open_spec h ctx id metadata now
  | append ctx id entry now => exact append_spec h ctx id entry now
  | close ctx id terminal now => exact close_spec h ctx id terminal now
  | markDegraded ctx id now => exact markDegraded_spec h ctx id now
  | read ctx id fromSeq now => exact read_spec h ctx id fromSeq now
  | tail ctx id fromSeq now => exact tail_spec h ctx id fromSeq now
  | state ctx id now => exact state_spec h ctx id now

/-- The run lemma: every list of calls keeps the invariant and the configuration. -/
theorem execAll_spec (envelopeLen : Entry → Option Nat) (calls : List Call) (h : StoreInv m) :
    StoreInv (m.execAll envelopeLen calls) ∧
      (m.execAll envelopeLen calls).config = m.config := by
  induction calls generalizing m with
  | nil => exact ⟨h, rfl⟩
  | cons call calls ih =>
    have hspec := exec_spec envelopeLen h call
    obtain ⟨hinv, hconfig⟩ := ih hspec.inv
    exact ⟨hinv, hconfig.trans hspec.config⟩

/-! ## Complete replays -/

theorem validateCursor_ok (h : validateCursor stream fromSeq = .ok ()) :
    fromSeq ≤ stream.lastSeq ∧ (stream.earliestSeq ≤ 1 ∨ stream.earliestSeq ≤ fromSeq + 1) := by
  unfold validateCursor at h
  split at h
  · cases h
  · split at h
    · cases h
    · omega

/-- The entries after an accepted cursor are all of the later sequences. -/
theorem StreamInv.entriesAfter_seqs (h : StreamInv config key stream)
    (hcursor : validateCursor stream fromSeq = .ok ()) :
    (entriesAfter stream fromSeq).map (·.seq) =
      List.range' (fromSeq + 1) (stream.lastSeq - fromSeq) := by
  obtain ⟨hlast, hearliest⟩ := validateCursor_ok hcursor
  have hpos := h.earliest_pos
  have hend := h.last_eq
  have hfilter := h.consecutive.filter_gt fromSeq (by omega)
    (by rw [List.length_map]; omega)
  rw [List.length_map, ← hend, Nat.add_sub_add_right] at hfilter
  rw [← hfilter, entriesAfter, List.filter_map, List.map_map, List.filter_map]
  rfl

/-- A replay starts at a live stream and holds every later sequence. -/
theorem read_entries (h : StoreInv m) {ctx : Context} {snapshot : List Entry}
    {trailing : Option JournalError}
    (hread : (m.read ctx id fromSeq now).2 = .entries snapshot trailing) :
    ∃ stream, m.streams.lookup id = some stream ∧
      snapshot.map (·.seq) = List.range' (fromSeq + 1) (stream.lastSeq - fromSeq) := by
  obtain ⟨hinv, hshrinks⟩ := cleanupExpiredLocked_spec h now
  unfold Memory.read withLock at hread
  split at hread
  · cases hread
  · split at hread
    · cases hread
    · split at hread
      · cases hread
      · unfold withStream at hread
        dsimp only at hread
        split at hread
        · cases hread
        · rename_i stream hfind
          have hlookup := findLocked_ok hfind
          split at hread
          · cases hread
          · split at hread
            · cases hread
            · rename_i hcursor
              split at hread
              · cases hread
              · cases hread
                exact ⟨stream, hshrinks.lookup _ _ hlookup,
                  (hinv.stream _ _ hlookup).entriesAfter_seqs hcursor⟩

/-- The iterator yields the whole snapshot, or an error. -/
theorem iterate_complete (checks : Nat → Option JournalError) (first : Option JournalError)
    (snapshot : List Entry) (trailing : Option JournalError) :
    (iterate checks first snapshot trailing).2.isSome ∨
      (iterate checks first snapshot trailing).1 = snapshot := by
  have loop : ∀ (rest : List Entry) (i : Nat),
      (iterate.loop checks trailing i rest).2.isSome ∨
        (iterate.loop checks trailing i rest).1 = rest := by
    intro rest
    induction rest with
    | nil =>
      intro i
      right
      rfl
    | cons entry rest ih =>
      intro i
      rw [iterate.loop]
      split
      · left
        rfl
      · rcases ih (i + 1) with hsome | heq
        · exact .inl hsome
        · right
          simp only [heq]
  unfold iterate
  split
  · left
    rfl
  · exact loop snapshot 0

/-- The store invariant of the memory journal, in every state that a list of calls
reaches from `NewMemory`, whatever the sizes, the limits and the clock. -/
theorem memory_store_invariant (envelopeLen : Entry → Option Nat) (config : Config)
    (initial : Memory) (hnew : newMemory config = .ok initial) (calls : List Call) :
    let m := initial.execAll envelopeLen calls
    -- the accounting of the store
    m.totalBytes = m.streams.total (·.bytes) ∧ m.totalBytes ≤ config.maxTotalBytes ∧
    -- the accounting and the ring of every stream
    (∀ id stream, m.streams.lookup id = some stream →
      stream.bytes = storedBytes stream.entries ∧
        stream.bytes ≤ (withDefaults config).maxBytesPerStream ∧
        1 ≤ stream.earliestSeq ∧ stream.earliestSeq ≤ stream.lastSeq ∧
        stream.entries.map (·.entry.seq) =
          List.range' stream.earliestSeq (stream.lastSeq + 1 - stream.earliestSeq)) ∧
    -- the LRU list
    m.terminalLRU.Nodup ∧
    (∀ id, id ∈ m.terminalLRU ↔
      ∃ stream, m.streams.lookup id = some stream ∧ stream.status ≠ .statusOpen) ∧
    -- live streams and tombstones
    (∀ id, ¬ ((m.streams.lookup id).isSome ∧ (m.tombstones.lookup id).isSome)) ∧
    -- no call removes an open stream that is not degraded, and none panics
    (∀ call id stream, m.streams.lookup id = some stream → stream.status = .statusOpen →
      stream.degraded = false → ((m.exec envelopeLen call).1.streams.lookup id).isSome) ∧
    (∀ call, (m.exec envelopeLen call).2 ≠ .failed .panic) ∧
    -- a replay fails, ends with an error, or is complete
    (∀ ctx id cursor now snapshot trailing checks first,
      (m.read ctx id cursor now).2 = .entries snapshot trailing →
        (iterate checks first snapshot trailing).2.isSome ∨
          ∃ stream, m.streams.lookup id = some stream ∧
            (iterate checks first snapshot trailing).1.map (·.seq) =
              List.range' (cursor + 1) (stream.lastSeq - cursor)) := by
  intro m
  obtain ⟨hinv, hconfig⟩ := execAll_spec envelopeLen calls (StoreInv.newMemory hnew)
  have hstart : initial.config = withDefaults config := newMemory_config hnew
  have hm : m.config = withDefaults config := hconfig.trans hstart
  refine ⟨hinv.total_eq, ?_, ?_, hinv.lru_nodup, hinv.lru_mem, ?_, ?_, ?_, ?_⟩
  · have hle := hinv.total_le
    rw [hconfig, hstart] at hle
    exact hle
  · intro id stream hlookup
    have hstream := hinv.stream id stream hlookup
    have hle := hstream.bytes_le
    have hlast := hstream.last_eq
    have hlen := List.length_pos_iff.mpr hstream.nonempty
    rw [hconfig, hstart] at hle
    refine ⟨hstream.bytes_eq, hle, hstream.earliest_pos, by omega, ?_⟩
    have hseqs := hstream.consecutive
    rw [Consecutive, List.length_map] at hseqs
    rw [hseqs, hlast, Nat.add_sub_cancel_left]
  · rintro id ⟨hlive, htomb⟩
    obtain ⟨stream, hlookup⟩ := Option.isSome_iff_exists.mp hlive
    rw [hinv.disjoint id stream hlookup] at htomb
    cases htomb
  · intro call id stream hlookup hopen hdegraded
    exact (exec_spec envelopeLen hinv call).active id stream hlookup ⟨hopen, hdegraded⟩
  · intro call
    exact (exec_spec envelopeLen hinv call).no_panic
  · intro ctx id cursor now snapshot trailing checks first hread
    obtain ⟨stream, hlookup, hseqs⟩ := read_entries hinv hread
    rcases iterate_complete checks first snapshot trailing with hsome | heq
    · exact .inl hsome
    · refine .inr ⟨stream, hlookup, ?_⟩
      rw [heq, hseqs]

/-- Limits that hold three entries of forty bytes in the store and two in a stream. -/
def smallConfig : Config :=
  { ttl := 600, maxBytesPerStream := 100, maxTotalBytes := 130, readerMaxLagBytes := 50 }

/-- The empty store under `smallConfig`. -/
def smallStore : Memory :=
  { config := smallConfig
    streams := ∅
    tombstones := ∅
    terminalLRU := []
    totalBytes := 0
    readers := [] }

theorem memory_store_invariant_of_ring :
    newMemory smallConfig = .ok smallStore ∧
      (let m := smallStore.execAll (fun _ => some 40)
        [.open {} sampleID sampleMeta 0, .append {} sampleID warningEntry 1,
          .append {} sampleID warningEntry 2]
      m.totalBytes = m.streams.total (·.bytes) ∧ m.totalBytes ≤ 130) := by
  have hnew : newMemory smallConfig = .ok smallStore := rfl
  obtain ⟨htotal, hle, _⟩ := memory_store_invariant (fun _ => some 40) smallConfig smallStore
    hnew [.open {} sampleID sampleMeta 0, .append {} sampleID warningEntry 1,
      .append {} sampleID warningEntry 2]
  exact ⟨hnew, htotal, hle⟩

/-- The third entry does not fit the ring, so the first one is trimmed. -/
example :
    ((smallStore.execAll (fun _ => some 40)
        [.open {} sampleID sampleMeta 0, .append {} sampleID warningEntry 1,
          .append {} sampleID warningEntry 2]).streams.lookup sampleID).map
      (fun stream => (stream.entries.map (·.entry.seq), stream.bytes)) =
    some ([2, 3], 80) := by
  decide

end Streamweld.Journal
