import Streamweld.Journal.MemoryRefinement
import Streamweld.Lib.Transition
import Streamweld.Redis.Refinement

/-!
# The two journals side by side

A sequence of calls is made on a memory journal and on a Redis journal.  Each call
has its own clock readings and its own nonce, and both journals have the same
configured retention.  As long as no stream expires and no limit is reached, both
journals keep the same abstract journal (`Journals.Related`), and a call has the
same outcome on both, up to timestamps (`memory_redis_agree_iff`).

There are two exceptions (`journals_differ`).  `snapshotState` copies the migrations
with `append([]Migration(nil), ...)`, which is nil when there are none, and
`decodeState` starts from `make([]Migration, 0)`.  So `State` answers differently for
a live stream without migrations: one reply is marshalled with `"migrations":null`,
the other with `"migrations":[]`.  And only the Redis journal validates the owner
record of `Open`.
-/

namespace Streamweld.Redis

open Streamweld.Journal Streamweld.Lib

/-! ## The system -/

/-- A memory journal and a Redis database. -/
structure Journals where
  memory : Memory
  redis : Database

/-- A call on both journals. -/
structure JournalCall where
  op : Operation
  now : Int
  moment : Moment

section System

variable (envelopeLen : Entry → Option Nat) (keyPrefix : String) (ttl : Int)

/-- What the call shows on the memory journal. -/
def Journals.memoryOutcome (s : Journals) (call : JournalCall) : Observation :=
  (s.memory.perform envelopeLen call.now call.op).2.observe

/-- What the call shows on the Redis journal. -/
def Journals.redisOutcome (s : Journals) (call : JournalCall) : Observation :=
  (s.redis.perform keyPrefix ttl call.moment call.op).2.observe

/-- The call on both journals. -/
def Journals.step (s : Journals) (call : JournalCall) : Option Journals :=
  some {
    memory := (s.memory.perform envelopeLen call.now call.op).1
    redis := (s.redis.perform keyPrefix ttl call.moment call.op).1 }

/-- No stream expires, and the call reaches no limit. -/
def Undisturbed (s : Journals) (call : JournalCall) : Prop :=
  s.memory.NoneExpires call.now ∧ s.memory.Fits envelopeLen call.now call.op

instance (s : Journals) (call : JournalCall) : Decidable (Undisturbed envelopeLen s call) :=
  inferInstanceAs (Decidable (_ ∧ _))

end System

/-- The call asks for the state of a live stream that has no migrations. -/
def StateWithoutMigrations (m : Memory) : Operation → Prop
  | .state id => ∃ stream, m.streams.lookup id.1 = some stream ∧ stream.migrations = []
  | _ => False

/-! ## The simulation -/

/-- Both journals keep one abstract journal. -/
structure Journals.Related (ttl : Int) (s : Journals) (j : LogJournal) (used : List Nonce) :
    Prop where
  memory : s.memory.Holds j
  redis : s.redis.Holds j used
  config : s.memory.config.ttl = ttl

section Simulation

variable {envelopeLen : Entry → Option Nat} {keyPrefix : String} {ttl : Int}

/-- A write that fits the memory journal has a sequence that Lua prints. -/
theorem sequencesPrintable_of_fits {m : Memory} {j : LogJournal} (h : m.Holds j) {now : Int}
    {op : Operation} (hfits : m.Fits envelopeLen now op) : SequencesPrintable j op := by
  have hnext : ∀ (id : StreamID) (kind : EntryKind) (payload : RawMessage),
      m.RoomForNext envelopeLen now id kind payload →
        ∀ log, j id = some log → log.ending = .live → log.lastSeq + 1 < 10 ^ 14 := by
    intro id kind payload hroom log hlog hlive
    unfold Memory.RoomForNext at hroom
    cases hlookup : m.streams.lookup id with
    | none =>
      rw [h.missing id hlookup] at hlog
      cases hlog
    | some stream =>
      obtain ⟨log', hlog', hholds⟩ := h.live id stream hlookup
      rw [hlog] at hlog'
      cases hlog'
      rw [hlookup] at hroom
      have hseq := (hroom (hholds.active hlive)).1
      rwa [hholds.last] at hseq
  cases op with
  | append id record seq ts => exact hnext id record.kind record.payload hfits
  | close id record seq ts => exact hnext id record.kind record.payload hfits
  | _ => trivial

/-- One call on related journals: they stay related, and their outcomes are those of
the abstract journal. -/
theorem Journals.Related.step {s : Journals} {j : LogJournal} {used : List Nonce}
    (h : s.Related ttl j used) {call : JournalCall} (hquiet : Undisturbed envelopeLen s call)
    (hidempotency : WithoutIdempotency call.op) (howner : ¬ OwnerRefused ttl call.op)
    (hfresh : call.moment.nonce ∉ used) :
    (∀ s', s.step envelopeLen keyPrefix ttl call = some s' →
      s'.Related ttl (j.step ttl call.op).1 (call.moment.nonce :: used)) ∧
      s.memoryOutcome envelopeLen call = (j.step ttl call.op).2.nilSlices ∧
      s.redisOutcome keyPrefix ttl call = (j.step ttl call.op).2 := by
  obtain ⟨hmemory, hconfig, hmemoryOutcome⟩ := perform_refines h.memory hquiet.1 call.op hquiet.2
  obtain ⟨hredis, hredisOutcome⟩ : RedisRefines
      (s.redis.perform keyPrefix ttl call.moment call.op) (j.step ttl call.op)
      (call.moment.nonce :: used) :=
    redisPerform_refines h.redis hfresh call.op hidempotency howner
      (sequencesPrintable_of_fits h.memory hquiet.2)
  rw [h.config] at hmemory hmemoryOutcome
  refine ⟨fun s' hs' => ?_, hmemoryOutcome, hredisOutcome⟩
  cases hs'
  exact ⟨hmemory, hredis, (congrArg Config.ttl hconfig).trans h.config⟩

/-- Whole runs.  The nonces in use are those of the calls. -/
theorem Journals.Related.run (calls : List JournalCall) :
    ∀ {s t : Journals} {j : LogJournal} {used : List Nonce}, s.Related ttl j used →
      Along (Journals.step envelopeLen keyPrefix ttl) (Undisturbed envelopeLen) s calls →
      (∀ call ∈ calls, WithoutIdempotency call.op) →
      (∀ call ∈ calls, ¬ OwnerRefused ttl call.op) →
      (∀ call ∈ calls, call.moment.nonce ∉ used) →
      (calls.map (·.moment.nonce)).Nodup →
      Lib.run (Journals.step envelopeLen keyPrefix ttl) s calls = some t →
      ∃ j' used', t.Related ttl j' used' ∧
        ∀ nonce ∈ used', nonce ∈ used ∨ nonce ∈ calls.map (·.moment.nonce) := by
  induction calls with
  | nil =>
    intro s t j used h _ _ _ _ _ hrun
    cases hrun
    exact ⟨j, used, h, fun nonce hnonce => .inl hnonce⟩
  | cons call rest ih =>
    intro s t j used h hquiet hidempotency howners hfresh hnodup hrun
    obtain ⟨s', hs', hrun'⟩ := run_cons hrun
    rw [List.map_cons, List.nodup_cons] at hnodup
    have hstep := (h.step hquiet.1 (hidempotency call List.mem_cons_self)
      (howners call List.mem_cons_self) (hfresh call List.mem_cons_self)).1 s' hs'
    have hfresh' : ∀ other ∈ rest, other.moment.nonce ∉ call.moment.nonce :: used := by
      intro other hother hmem
      rcases List.mem_cons.mp hmem with heq | hmem
      · exact hnodup.1 (heq ▸ List.mem_map_of_mem hother)
      · exact hfresh other (List.mem_cons_of_mem _ hother) hmem
    obtain ⟨j', used', hrelated, hused⟩ := ih hstep (hquiet.2 s' hs')
      (fun other hother => hidempotency other (List.mem_cons_of_mem _ hother))
      (fun other hother => howners other (List.mem_cons_of_mem _ hother)) hfresh' hnodup.2 hrun'
    refine ⟨j', used', hrelated, fun nonce hnonce => ?_⟩
    rw [List.map_cons, List.mem_cons]
    rcases hused nonce hnonce with hbefore | hrest
    · rcases List.mem_cons.mp hbefore with heq | hbefore
      · exact .inr (.inl heq)
      · exact .inl hbefore
    · exact .inr (.inr hrest)

/-- The abstract answer is a state without migrations exactly when the call asks for
the state of a live stream without migrations. -/
theorem state_without_migrations_iff {m : Memory} {j : LogJournal} (h : m.Holds j)
    (op : Operation) :
    (∃ state, (j.step ttl op).2 = .state state ∧ state.migrations = some []) ↔
      StateWithoutMigrations m op := by
  cases op with
  | state id =>
    simp only [LogJournal.step, StateWithoutMigrations]
    cases hlookup : m.streams.lookup id.1 with
    | none => simp [h.missing id hlookup]
    | some stream =>
      obtain ⟨log, hlog, hholds⟩ := h.live id stream hlookup
      have hmigrations : stream.migrations = log.derived.migrations :=
        congrArg Derived.migrations hholds.derived
      simp [hlog, hmigrations, LogStream.state]
  | read id fromSeq =>
    refine iff_of_false ?_ False.elim
    rintro ⟨state, hstate, -⟩
    simp only [LogJournal.step] at hstate
    cases hlog : j id.1 with
    | none => simp [hlog] at hstate
    | some log =>
      simp only [hlog, LogStream.read] at hstate
      split at hstate
      · cases hstate
      · split at hstate
        · cases hstate
        · split at hstate <;> cases hstate
  | «open» id metadata =>
    refine iff_of_false ?_ False.elim
    rintro ⟨state, hstate, -⟩
    simp only [LogJournal.step] at hstate
    split at hstate
    · cases hstate
    · split at hstate <;> cases hstate
  | append id record seq ts | close id record seq ts =>
    refine iff_of_false ?_ False.elim
    rintro ⟨state, hstate, -⟩
    simp only [LogJournal.step, LogJournal.write] at hstate
    split at hstate
    · cases hstate
    · split at hstate <;> cases hstate
  | markDegraded id =>
    refine iff_of_false ?_ False.elim
    rintro ⟨state, hstate, -⟩
    simp only [LogJournal.step, LogJournal.degrade] at hstate
    split at hstate
    · cases hstate
    · split at hstate <;> cases hstate

end Simulation

/-! ## The result -/

/-- A call whose owner record is refused differs: the memory journal opens the stream, or it
has it already. -/
theorem Journals.Related.refused {envelopeLen : Entry → Option Nat} {keyPrefix : String}
    {ttl : Int} {s : Journals} {j : LogJournal} {used : List Nonce} (h : s.Related ttl j used)
    {call : JournalCall} (hquiet : Undisturbed envelopeLen s call)
    (howner : OwnerRefused ttl call.op) :
    s.memoryOutcome envelopeLen call ≠ s.redisOutcome keyPrefix ttl call := by
  obtain ⟨-, -, hmemory⟩ := perform_refines h.memory hquiet.1 call.op hquiet.2
  rw [h.config] at hmemory
  cases hop : call.op with
  | «open» id metadata =>
    rw [hop] at howner
    have hredis : s.redisOutcome keyPrefix ttl call = .failed .ownerError := by
      rw [Journals.redisOutcome, hop, redisOpen_refused id howner]
    have houtcome : s.memoryOutcome envelopeLen call = _ := hmemory
    rw [houtcome, hredis, hop]
    simp only [LogJournal.step, if_neg howner.1]
    split <;> rintro ⟨⟩
  | append id record seq ts | close id record seq ts | markDegraded id | read id fromSeq
  | state id =>
    rw [hop] at howner
    exact howner.elim

/-- After any sequence of calls that opens no stream with an owner record that is refused, the
next call has the same outcome on both journals, up to timestamps, unless it asks for the state
of a live stream without migrations or opens one with such a record. -/
theorem memory_redis_agree_iff (envelopeLen : Entry → Option Nat) (keyPrefix : String)
    (config : Config) (m : Memory) (hnew : newMemory config = .ok m)
    (calls : List JournalCall) (call : JournalCall)
    (hquiet : Along (Journals.step envelopeLen keyPrefix (withDefaults config).ttl)
      (Undisturbed envelopeLen) ⟨m, .empty⟩ (calls ++ [call]))
    (hidempotency : ∀ c ∈ calls ++ [call], WithoutIdempotency c.op)
    (howners : ∀ c ∈ calls, ¬ OwnerRefused (withDefaults config).ttl c.op)
    (hnonces : ((calls ++ [call]).map (·.moment.nonce)).Nodup)
    (s : Journals)
    (hrun : run (Journals.step envelopeLen keyPrefix (withDefaults config).ttl) ⟨m, .empty⟩
      calls = some s) :
    s.memoryOutcome envelopeLen call =
        s.redisOutcome keyPrefix (withDefaults config).ttl call ↔
      ¬ StateWithoutMigrations s.memory call.op ∧
        ¬ OwnerRefused (withDefaults config).ttl call.op := by
  obtain ⟨hbefore, hlast⟩ := Along.append hquiet hrun
  rw [List.map_append, List.nodup_append] at hnonces
  have hstart : Journals.Related (withDefaults config).ttl ⟨m, .empty⟩ .empty [] :=
    ⟨.newMemory hnew, .empty, congrArg Config.ttl (newMemory_config hnew)⟩
  obtain ⟨j, used, hrelated, hused⟩ := Journals.Related.run calls hstart hbefore
    (fun c hc => hidempotency c (List.mem_append_left _ hc)) howners
    (fun _ _ => List.not_mem_nil) hnonces.1 hrun
  have hfresh : call.moment.nonce ∉ used := by
    intro hmem
    rcases hused _ hmem with hnil | hcalls
    · exact List.not_mem_nil hnil
    · exact hnonces.2.2 _ hcalls _ (List.mem_singleton.mpr rfl) rfl
  by_cases howner : OwnerRefused (withDefaults config).ttl call.op
  · exact iff_of_false (hrelated.refused hlast.1 howner) fun h => h.2 howner
  · obtain ⟨-, hmemory, hredis⟩ := hrelated.step hlast.1
      (hidempotency call (List.mem_append_right _ (List.mem_singleton.mpr rfl))) howner hfresh
    rw [hmemory, hredis, ← state_without_migrations_iff hrelated.memory call.op,
      ← Observation.nilSlices_ne_iff, ne_eq, not_not, and_iff_left howner]

/-- A call in the examples; each has a nonce of its own. -/
def sampleCall (op : Operation) (nonce : Nonce) : JournalCall :=
  { op := op, now := 0, moment := { now := 0, nonce := nonce, clock := 0 } }

def sampleValidID : ValidID := ⟨sampleID, by decide⟩

/-- A warning without fields. -/
def sampleRecord : BodyRecord :=
  { kind := .kindWarning
    payload := .marshal (.obj [])
    appendable := kindWarning_appendable
    valid := emptyObject_valid }

/-- What `url.Parse` makes of the empty string. -/
def emptyURL : RelayURL := ⟨"", "", "", false, "", "", ""⟩

theorem memory_redis_agree_iff_of_append :
    ∃ s, run (Journals.step (fun _ => some 40) "streamweld" smallConfig.ttl)
        ⟨smallStore, .empty⟩ [sampleCall (.open sampleValidID sampleMeta) "1"] = some s ∧
      s.memoryOutcome (fun _ => some 40) (sampleCall (.append sampleValidID sampleRecord 0 0) "2") =
        s.redisOutcome "streamweld" smallConfig.ttl
          (sampleCall (.append sampleValidID sampleRecord 0 0) "2") := by
  refine ⟨_, rfl, (memory_redis_agree_iff (fun _ => some 40) "streamweld" smallConfig smallStore
    rfl [sampleCall (.open sampleValidID sampleMeta) "1"]
    (sampleCall (.append sampleValidID sampleRecord 0 0) "2") ?_ ?_ ?_ ?_ _ rfl).mpr ⟨id, id⟩⟩
  · decide
  · intro c hc
    rcases List.mem_cons.mp hc with rfl | hc
    · rfl
    · rcases List.mem_cons.mp hc with rfl | hc
      · trivial
      · cases hc
  · intro c hc howner
    rw [List.mem_singleton.mp hc] at howner
    cases howner.2
  · decide

/-- `State` after `Open`: the memory journal answers with a nil slice of migrations,
the Redis journal with an empty one.  And an `Open` with an empty owner record succeeds on
the memory journal only. -/
theorem journals_differ :
    (∃ s, run (Journals.step (fun _ => some 40) "streamweld" smallConfig.ttl)
        ⟨smallStore, .empty⟩ [sampleCall (.open sampleValidID sampleMeta) "1"] = some s ∧
      Along (Journals.step (fun _ => some 40) "streamweld" smallConfig.ttl)
        (Undisturbed fun _ => some 40) ⟨smallStore, .empty⟩
        [sampleCall (.open sampleValidID sampleMeta) "1", sampleCall (.state sampleValidID) "2"] ∧
      s.memoryOutcome (fun _ => some 40) (sampleCall (.state sampleValidID) "2") ≠
        s.redisOutcome "streamweld" smallConfig.ttl (sampleCall (.state sampleValidID) "2")) ∧
    let call := sampleCall
      (.open sampleValidID { sampleMeta with owner := some ⟨"", "", some emptyURL⟩ }) "1"
    Undisturbed (fun _ => some 40) ⟨smallStore, .empty⟩ call ∧
      Journals.memoryOutcome (fun _ => some 40) ⟨smallStore, .empty⟩ call = .done ∧
      Journals.redisOutcome "streamweld" smallConfig.ttl ⟨smallStore, .empty⟩ call =
        .failed .ownerError := by
  refine ⟨⟨_, rfl, ?_, ?_⟩, ?_, ?_, ?_⟩ <;> decide

end Streamweld.Redis
