import Streamweld.Client.Multicast

/-!
# What an iterator of the multicast yields

`Consistent` ties the hub to the list of the values published: the retained
records are the records of that list from the base index on, and every
subscriber in the set has a cursor among them and lags by no more than the
limits.  `compact` restores the two limits from it (`Consistent.compact`), which
is why they hold again after every `publish`.

`TraceInv` ties the answers of one iterator to its cursor: they are the values
from its position up to the cursor, followed by answers that end it.
-/

namespace Streamweld.Client

open Streamweld.Lib

variable {T ε : Type} (options : Options T) {hub : Hub T ε} {s : Subscriber ε} {i n : Nat}
  {t : Trace T ε} {closed : Bool} {values : List T} {sys : System T ε}

/-! ## The records of a list of values -/

/-- The bytes of the first `n` values, as `publish` counts them. -/
def bytesBefore (values : List T) (n : Nat) : Int :=
  ((values.take n).map fun v => max 0 (options.sizeOf v : Int)).sum

/-- The records of all values. -/
def recordsOf (values : List T) : List (RecordValue T) :=
  values.mapIdx fun i v => ⟨i, v, bytesBefore options values (i + 1)⟩

variable {options}

theorem bytesBefore_append (h : n ≤ values.length) (more : List T) :
    bytesBefore options (values ++ more) n = bytesBefore options values n := by
  rw [bytesBefore, List.take_append_of_le_length h, bytesBefore]

theorem bytesBefore_succ (h : n < values.length) :
    bytesBefore options values (n + 1) =
      bytesBefore options values n + max 0 (options.sizeOf values[n] : Int) := by
  simp only [bytesBefore, List.map_take]
  rw [List.sum_take_succ _ _ (by simpa using h), List.getElem_map]

theorem bytesBefore_concat (value : T) :
    bytesBefore options (values ++ [value]) (values.length + 1) =
      bytesBefore options values values.length + max 0 (options.sizeOf value : Int) := by
  rw [bytesBefore_succ (by simp), bytesBefore_append le_rfl]
  simp

theorem recordsOf_concat (value : T) :
    recordsOf options (values ++ [value]) = recordsOf options values ++
      [⟨values.length, value,
        bytesBefore options values values.length + max 0 (options.sizeOf value : Int)⟩] := by
  rw [recordsOf, List.mapIdx_concat, bytesBefore_concat]
  congr 1
  apply List.ext_getElem?
  intro i
  rw [recordsOf, List.getElem?_mapIdx, List.getElem?_mapIdx]
  by_cases hi : i < values.length
  · rw [bytesBefore_append hi]
  · rw [List.getElem?_eq_none (by omega)]
    rfl

@[simp] theorem length_recordsOf : (recordsOf options values).length = values.length :=
  List.length_mapIdx

theorem recordsOf_getElem? (n : Nat) :
    (recordsOf options values)[n]? =
      values[n]?.map fun v => ⟨n, v, bytesBefore options values (n + 1)⟩ :=
  List.getElem?_mapIdx

/-! ## The hub and the values published -/

/-- The cursor of a subscriber in the set. -/
structure Member (options : Options T) (values : List T) (base : Nat) (s : Subscriber ε) :
    Prop where
  isOpen : s.closed = false
  base_le : base ≤ s.index
  le_length : s.index ≤ values.length
  cumulative : s.cumulativeBytes = bytesBefore options values s.index
  events : values.length ≤ s.index + options.maxEvents
  bytes : bytesBefore options values values.length ≤
    bytesBefore options values s.index + options.maxBytes

/-- The fields of the hub for a list of published values. -/
structure Consistent (options : Options T) (values : List T) (hub : Hub T ε) : Prop where
  next : hub.nextIndex = values.length
  base_le : hub.baseIndex ≤ values.length
  records : hub.records = (recordsOf options values).drop hub.baseIndex
  total : hub.totalBytes = bytesBefore options values values.length
  late : hub.lateReplayFailure.isSome ↔ 0 < hub.baseIndex
  ever : hub.everSubscribed = false → hub.subscribers = []
  members : ∀ i ∈ hub.subscribers, ∃ s, hub.heap[i]? = some s ∧
    Member options values hub.baseIndex s

/-- The retained values keep the two limits. -/
def Bounded (options : Options T) (values : List T) (base : Nat) : Prop :=
  values.length ≤ base + options.maxEvents ∧
    bytesBefore options values values.length ≤
      bytesBefore options values base + options.maxBytes

namespace Consistent

theorem record (h : Consistent options values hub) (n : Nat) :
    hub.records[n]? = values[hub.baseIndex + n]?.map fun v =>
      ⟨hub.baseIndex + n, v, bytesBefore options values (hub.baseIndex + n + 1)⟩ := by
  rw [h.records, List.getElem?_drop, recordsOf_getElem?]

theorem length_records (h : Consistent options values hub) :
    hub.records.length = values.length - hub.baseIndex := by
  rw [h.records, List.length_drop, length_recordsOf]

theorem cumulativeFirst_eq (h : Consistent options values hub) :
    hub.cumulativeFirst options = bytesBefore options values hub.baseIndex := by
  have hfirst := h.record 0
  have hlen := h.length_records
  have hle := h.base_le
  unfold Hub.cumulativeFirst
  cases hrecords : hub.records with
  | nil =>
    rw [hrecords, List.length_nil] at hlen
    rw [h.total, show hub.baseIndex = values.length by omega]
  | cons first rest =>
    rw [hrecords, List.length_cons] at hlen
    have hlt : hub.baseIndex < values.length := by omega
    rw [hrecords, Nat.add_zero, List.getElem?_eq_getElem hlt] at hfirst
    simp only [List.getElem?_cons_zero, Option.map_some, Option.some.injEq] at hfirst
    subst hfirst
    dsimp only
    rw [bytesBefore_succ hlt]
    omega

theorem cumulativeBefore_eq (h : Consistent options values hub) (hn : n ≤ values.length)
    (hbase : hub.baseIndex ≤ n) :
    hub.cumulativeBefore options n = bytesBefore options values n := by
  unfold Hub.cumulativeBefore
  by_cases hle : n ≤ hub.baseIndex
  · rw [if_pos hle, h.cumulativeFirst_eq, show hub.baseIndex = n by omega]
  · rw [if_neg hle, h.record, show hub.baseIndex + (n - hub.baseIndex - 1) = n - 1 by omega,
      List.getElem?_eq_getElem (by omega)]
    dsimp only [Option.map_some]
    rw [Nat.sub_add_cancel (by omega)]

/-- The loop over the oldest records stops in time and leaves no more than the
limits. -/
theorem dropOldest_spec (h : Consistent options values hub) (rounds from_ : Nat)
    (hbase : hub.baseIndex ≤ from_) (hle : from_ ≤ values.length)
    (hrounds : values.length ≤ from_ + rounds) :
    from_ ≤ hub.dropOldest options rounds from_ ∧
      hub.dropOldest options rounds from_ ≤ values.length ∧
      Bounded options values (hub.dropOldest options rounds from_) := by
  induction rounds generalizing from_ with
  | zero =>
    have hfrom : from_ = values.length := by omega
    subst hfrom
    exact ⟨le_rfl, le_rfl, Nat.le_add_right _ _, by simp [Hub.dropOldest]⟩
  | succ rounds ih =>
    rw [Hub.dropOldest]
    rw [h.next, h.total, h.cumulativeBefore_eq hle hbase]
    split
    · next hcond =>
      have hlt : from_ < values.length := by
        by_contra hge
        have hfrom : from_ = values.length := by omega
        subst hfrom
        omega
      obtain ⟨hge, hrest⟩ := ih (from_ + 1) (by omega) (by omega) (by omega)
      exact ⟨by omega, hrest⟩
    · next hcond =>
      rw [not_or] at hcond
      exact ⟨le_rfl, hle, by omega, by omega⟩

theorem indexOf_eq (hs : hub.heap[i]? = some s) : hub.indexOf i = s.index := by
  rw [Hub.indexOf, hs]

/-- What `#compact` keeps: no more than the limits, and nothing less than a
subscriber in the set still has to read. -/
theorem retainFrom_spec (h : Consistent options values hub) :
    hub.retainFrom options ≤ values.length ∧
      (∀ i ∈ hub.subscribers, hub.retainFrom options ≤ hub.indexOf i) ∧
      Bounded options values (max hub.baseIndex (hub.retainFrom options)) := by
  unfold Hub.retainFrom
  cases hmin : (hub.subscribers.map hub.indexOf).min? with
  | some least =>
    obtain ⟨hmem, hleast⟩ := List.min?_eq_some_iff.mp hmin
    obtain ⟨i, hi, rfl⟩ := List.mem_map.mp hmem
    obtain ⟨s, hs, hmember⟩ := h.members i hi
    have hindex := indexOf_eq hs
    refine ⟨by rw [hindex]; exact hmember.le_length,
      fun j hj => hleast _ (List.mem_map_of_mem hj), ?_⟩
    rw [hindex, max_eq_right hmember.base_le]
    exact ⟨hmember.events, hmember.bytes⟩
  | none =>
    have hnone : hub.subscribers = [] := by simpa using List.min?_eq_none_iff.mp hmin
    dsimp only
    refine ⟨?_, by simp [hnone], ?_⟩
    · split
      · exact h.next.le
      · exact (h.dropOldest_spec _ _ le_rfl h.base_le (by rw [h.length_records]; omega)).2.1
    · split
      · rw [h.next, max_eq_right h.base_le]
        exact ⟨Nat.le_add_right _ _, by omega⟩
      · obtain ⟨hge, _, hbounded⟩ :=
          h.dropOldest_spec hub.records.length hub.baseIndex le_rfl h.base_le
            (by rw [h.length_records]; omega)
        rwa [max_eq_right hge]

end Consistent

/-! ### `#compact` -/

namespace Hub

variable (hub : Hub T ε)

@[simp] theorem compact_heap : (hub.compact options).heap = hub.heap := by
  unfold compact
  split_ifs <;> rfl

@[simp] theorem compact_subscribers : (hub.compact options).subscribers = hub.subscribers := by
  unfold compact
  split_ifs <;> rfl

@[simp] theorem compact_settled : (hub.compact options).settled = hub.settled := by
  unfold compact
  split_ifs <;> rfl

@[simp] theorem compact_failure : (hub.compact options).failure = hub.failure := by
  unfold compact
  split_ifs <;> rfl

end Hub

/-- Compaction moves the base forward, drops the records before it, and leaves no
more than the limits. -/
theorem Consistent.compact (h : Consistent options values hub) :
    Consistent options values (hub.compact options) ∧
      Bounded options values (hub.compact options).baseIndex := by
  obtain ⟨hle, hmembers, hbounded⟩ := h.retainFrom_spec
  unfold Hub.compact
  by_cases hempty : hub.records = []
  · rw [if_pos hempty]
    refine ⟨h, ?_⟩
    have hlen := h.length_records
    have hbase := h.base_le
    rw [hempty, List.length_nil] at hlen
    rw [show hub.baseIndex = values.length by omega]
    exact ⟨Nat.le_add_right _ _, by omega⟩
  rw [if_neg hempty]
  by_cases hkeep : hub.retainFrom options ≤ hub.baseIndex
  · rw [if_pos hkeep]
    exact ⟨h, by rwa [max_eq_left hkeep] at hbounded⟩
  · rw [if_neg hkeep]
    have hlt : hub.baseIndex ≤ hub.retainFrom options := by omega
    refine ⟨⟨h.next, hle, ?_, h.total, iff_of_true ?_ (by dsimp only; omega), h.ever, fun i hi => ?_⟩,
      by rwa [max_eq_right hlt] at hbounded⟩
    · dsimp only
      rw [h.records, List.drop_drop, Nat.add_sub_cancel' hlt]
    · cases hub.lateReplayFailure <;> rfl
    · obtain ⟨s, hs, hmember⟩ := h.members i hi
      have hindex := hmembers i hi
      rw [Consistent.indexOf_eq hs] at hindex
      exact ⟨s, hs, { hmember with base_le := hindex }⟩

/-! ### Operations -/

namespace Hub

theorem offerAll_heap (value : T) (hs : hub.heap[i]? = some s) :
    (hub.offerAll options value).heap[i]? =
      some (if i ∈ hub.subscribers then
        offer options hub.nextIndex hub.totalBytes (options.sequenceOf value) s else s) := by
  rw [offerAll, List.getElem?_mapIdx, hs, Option.map_some]

theorem wakeAll_heap (hs : hub.heap[i]? = some s) :
    hub.wakeAll.heap[i]? =
      some (if i ∈ hub.subscribers then { s with waiting := none } else s) := by
  rw [wakeAll, List.getElem?_mapIdx, hs, Option.map_some]

end Hub

namespace Consistent

/-- A change of the heap that keeps the cursors of the set. -/
theorem setHeap (h : Consistent options values hub) {heap : List (Subscriber ε)}
    {subscribers : List Nat} (hsub : ∀ i ∈ subscribers, i ∈ hub.subscribers)
    (hheap : ∀ i ∈ subscribers, ∀ s, hub.heap[i]? = some s →
      Member options values hub.baseIndex s →
      ∃ s', heap[i]? = some s' ∧ Member options values hub.baseIndex s') :
    Consistent options values { hub with heap, subscribers } := by
  refine ⟨h.next, h.base_le, h.records, h.total, h.late, fun hever => ?_, fun i hi => ?_⟩
  · rw [List.eq_nil_iff_forall_not_mem]
    intro i hi
    have := hsub i hi
    rw [h.ever hever] at this
    cases this
  · obtain ⟨s, hs, hmember⟩ := h.members i (hsub i hi)
    exact hheap i hi s hs hmember

theorem unsubscribe (h : Consistent options values hub) (i : Nat) :
    Consistent options values (hub.unsubscribe options i) ∧
      Bounded options values (hub.unsubscribe options i).baseIndex := by
  refine Consistent.compact (h.setHeap (fun j hj => (List.mem_filter.mp hj).1) ?_)
  intro j hj s hs hmember
  have hne : i ≠ j := (of_decide_eq_true (List.mem_filter.mp hj).2).symm
  refine ⟨s, ?_, hmember⟩
  rw [List.getElem?_modify_ne _ _ hne, List.getElem?_modify_ne _ _ hne, hs]

theorem wakeAll (h : Consistent options values hub) :
    Consistent options values hub.wakeAll := by
  refine h.setHeap (fun _ hi => hi) fun i hi s hs hmember => ?_
  have hwake := Hub.wakeAll_heap hs
  rw [if_pos hi] at hwake
  exact ⟨_, hwake, { hmember with }⟩

theorem createSubscriber (h : Consistent options values hub)
    (hbounded : Bounded options values hub.baseIndex) :
    Consistent options values (hub.createSubscriber options) := by
  have hnew : Member options values hub.baseIndex (hub.newSubscriber options) := by
    unfold Hub.newSubscriber
    split
    · exact ⟨rfl, le_rfl, h.base_le, h.cumulativeFirst_eq, hbounded.1, hbounded.2⟩
    · exact ⟨rfl, h.base_le.trans h.next.ge, h.next.le, h.total.trans (by rw [h.next]),
        by rw [h.next]; exact Nat.le_add_right _ _, by rw [h.next]; dsimp only; omega⟩
  refine ⟨h.next, h.base_le, h.records, h.total, h.late, nofun, fun i hi => ?_⟩
  obtain hi | hi := List.mem_append.mp hi
  · obtain ⟨s, hs, hmember⟩ := h.members i hi
    refine ⟨s, ?_, hmember⟩
    change (hub.heap ++ _)[i]? = some s
    rw [List.getElem?_append_left (List.getElem?_eq_some_iff.mp hs).1, hs]
  · rw [List.mem_singleton] at hi
    subst hi
    exact ⟨_, List.getElem?_concat_length, hnew⟩

theorem append (h : Consistent options values hub) (value : T) :
    Consistent options (values ++ [value])
      (((hub.append options value).offerAll options value).removeClosed) := by
  have hlength : (values ++ [value]).length = values.length + 1 := by simp
  have htotal : hub.totalBytes + max 0 (options.sizeOf value : Int) =
      bytesBefore options (values ++ [value]) (values ++ [value]).length := by
    rw [hlength, bytesBefore_concat, h.total]
  refine ⟨?_, ?_, ?_, htotal, h.late, ?_, ?_⟩
  · rw [hlength, ← h.next]
    rfl
  · rw [hlength]
    exact h.base_le.trans (Nat.le_succ _)
  · change hub.records ++ _ = _
    rw [recordsOf_concat, List.drop_append_of_le_length (by rw [length_recordsOf]; exact h.base_le),
      h.records, h.next, h.total]
    rfl
  · intro hever
    change List.filter _ hub.subscribers = []
    rw [h.ever hever]
    rfl
  · intro i hi
    obtain ⟨hi, hopen⟩ := List.mem_filter.mp hi
    obtain ⟨s, hs, hmember⟩ := h.members i hi
    change i ∈ hub.subscribers at hi
    have hoffer := @Hub.offerAll_heap _ _ options (hub.append options value) _ _ value hs
    rw [if_pos (show i ∈ (hub.append options value).subscribers from hi)] at hoffer
    refine ⟨_, hoffer, ?_⟩
    -- a subscriber that stays in the set was not given up
    rw [hoffer, Option.all_some] at hopen
    change Member options (values ++ [value]) hub.baseIndex _
    unfold Hub.offer at hopen ⊢
    split at hopen
    · simp at hopen
    · next hcond =>
      rw [if_neg hcond]
      rw [not_or] at hcond
      have hprefix : bytesBefore options (values ++ [value]) s.index = _ :=
        bytesBefore_append hmember.le_length [value]
      have hlags : hub.totalBytes + max 0 (options.sizeOf value : Int) - s.cumulativeBytes ≤
          options.maxBytes := not_lt.mp hcond.2
      have hevents : ((hub.nextIndex + 1 : Nat) : Int) - s.index ≤ options.maxEvents :=
        not_lt.mp hcond.1
      have hcumulative := hmember.cumulative
      have hle := hmember.le_length
      refine ⟨hmember.isOpen, hmember.base_le, by rw [hlength]; exact Nat.le_succ_of_le hle,
        hcumulative.trans hprefix.symm, ?_, ?_⟩
      · have := h.next
        rw [hlength]
        dsimp only
        omega
      · dsimp only
        rw [← htotal, hprefix, ← hcumulative]
        omega

theorem publish (h : Consistent options values hub) (hbounded : Bounded options values hub.baseIndex)
    (value : T) :
    Consistent options (if hub.settled then values else values ++ [value])
        (hub.publish options value) ∧
      Bounded options (if hub.settled then values else values ++ [value])
        (hub.publish options value).baseIndex := by
  unfold Hub.publish
  cases hub.settled with
  | true => exact ⟨h, hbounded⟩
  | false => exact (h.append value).compact

end Consistent

/-! ## The answers of one iterator -/

/-- The answers that yield the values from `position` up to `n`. -/
def yielded (ε : Type) (values : List T) (position n : Nat) : List (Result T ε) :=
  ((values.take n).drop position).map .value

theorem yielded_append {position : Nat} (h : n ≤ values.length) (more : List T) :
    yielded ε (values ++ more) position n = yielded ε values position n := by
  rw [yielded, List.take_append_of_le_length h, yielded]

theorem yielded_succ {position : Nat} (hle : position ≤ n) (h : n < values.length) :
    yielded ε values position (n + 1) = yielded ε values position n ++ [.value values[n]] := by
  rw [yielded, List.take_add_one, List.getElem?_eq_getElem h, Option.toList_some,
    List.drop_append_of_le_length (by rw [List.length_take]; omega), List.map_append]
  rfl

/-- What `next` answers once the hub is settled and everything was read. -/
def Hub.ending (hub : Hub T ε) : Result T ε :=
  match hub.failure with
  | some error => .rejected (.raised error)
  | none => .done

/-- A rejection with a `StreamBufferLimitError`. -/
def Result.IsLimit (r : Result T ε) : Prop := ∃ sequence, r = .rejected (.limit sequence)

/-- The answers `results` are the values from `position` up to the `n`-th, followed
by nothing, by rejections with a `StreamBufferLimitError`, or, after every
value, by the failure or the completion of the hub. -/
def Exact (values : List T) (closed : Bool) (failure : Option ε) (position n : Nat)
    (results : List (Result T ε)) : Prop :=
  n ≤ values.length ∧ ∃ tail, results = yielded ε values position n ++ tail ∧
    (tail = [] ∨ (∀ r ∈ tail, r.IsLimit) ∨
      (n = values.length ∧ ∃ error, failure = some error ∧
        ∀ r ∈ tail, r = .rejected (.raised error)) ∨
      (n = values.length ∧ closed = true ∧ ∀ r ∈ tail, r = .done))

/-- An iterator that has not left, and its cursor. -/
structure Active (values : List T) (hub : Hub T ε) (i : Nat) (s : Subscriber ε) (t : Trace T ε) :
    Prop where
  position_le : t.position ≤ s.index
  le_length : s.index ≤ values.length
  reach : i ∈ hub.subscribers ∨ s.failure.isSome = true ∨
    (hub.settled = true ∧ s.index = values.length)
  waits : s.waiting.isSome = true →
    s.failure = none ∧ s.index = values.length ∧ hub.settled = false
  tail : ∃ tail, t.results = yielded ε values t.position s.index ++ tail ∧
    (tail = [] ∨ (s.failure.isSome = true ∧ ∀ r ∈ tail, r.IsLimit) ∨
      (hub.settled = true ∧ s.index = values.length ∧ s.failure = none ∧
        ∀ r ∈ tail, r = hub.ending))

/-- The history of an iterator and its subscriber object. -/
structure TraceInv (values : List T) (hub : Hub T ε) (closed : Bool) (i : Nat) (s : Subscriber ε)
    (t : Trace T ε) : Prop where
  limit : ∀ f, s.failure = some f → ∃ sequence, f = .limit sequence
  forwarded : t.forwarded = false
  position : t.late = false → t.position = 0
  late : t.late = true → s.failure.isSome = true ∧ ∀ r ∈ t.results, r.IsLimit
  gone : t.left = true → i ∉ hub.subscribers ∧
    ∃ n, Exact values closed hub.failure t.position n t.results
  active : t.left = false → Active values hub i s t

/-- The invariant of the system. -/
structure SysInv (options : Options T) (sys : System T ε) : Prop where
  consistent : Consistent options sys.published sys.hub
  bounded : Bounded options sys.published sys.hub.baseIndex
  heap : sys.hub.heap.length = sys.traces.length
  settled : sys.hub.settled = true → sys.hub.failure.isSome = true ∨ sys.closed = true
  unsettled : sys.hub.settled = false → sys.hub.failure = none ∧ sys.closed = false
  traces : ∀ i s t, sys.hub.heap[i]? = some s → sys.traces[i]? = some t →
    TraceInv sys.published sys.hub sys.closed i s t
  spinning : sys.spinning = false

section Trace

variable {hub' : Hub T ε}

theorem Active.transfer (h : Active values hub i s t) (hsettled : hub'.settled = hub.settled)
    (hfailure : hub'.failure = hub.failure) (hsub : i ∈ hub.subscribers → i ∈ hub'.subscribers) :
    Active values hub' i s t := by
  refine ⟨h.position_le, h.le_length, ?_, ?_, ?_⟩
  · rw [hsettled]
    exact h.reach.imp_left hsub
  · rw [hsettled]
    exact h.waits
  · rw [hsettled, Hub.ending, hfailure]
    exact h.tail

theorem TraceInv.transfer (h : TraceInv values hub closed i s t)
    (hsettled : hub'.settled = hub.settled) (hfailure : hub'.failure = hub.failure)
    (hsub : i ∈ hub'.subscribers ↔ i ∈ hub.subscribers) :
    TraceInv values hub' closed i s t := by
  refine ⟨h.limit, h.forwarded, h.position, h.late, fun hleft => ?_, fun hleft =>
    (h.active hleft).transfer hsettled hfailure hsub.mpr⟩
  rw [hsub, hfailure]
  exact h.gone hleft

/-- The answers of an iterator are exact, whether it has left or not. -/
theorem TraceInv.exact (h : TraceInv values hub closed i s t)
    (hsettled : hub.settled = true → hub.failure.isSome = true ∨ closed = true) :
    ∃ n, Exact values closed hub.failure t.position n t.results := by
  cases hleft : t.left with
  | true => exact (h.gone hleft).2
  | false =>
    have hactive := h.active hleft
    obtain ⟨tail, hresults, htail⟩ := hactive.tail
    refine ⟨s.index, hactive.le_length, tail, hresults, ?_⟩
    obtain hnil | ⟨_, hlimit⟩ | ⟨hs, hindex, _, hending⟩ := htail
    · exact Or.inl hnil
    · exact Or.inr (Or.inl hlimit)
    · unfold Hub.ending at hending
      cases hfailure : hub.failure with
      | some error =>
        rw [hfailure] at hending
        exact Or.inr (Or.inr (Or.inl ⟨hindex, error, rfl, hending⟩))
      | none =>
        rw [hfailure] at hending
        refine Or.inr (Or.inr (Or.inr ⟨hindex, ?_, hending⟩))
        simpa [hfailure] using hsettled hs

/-- An iterator that has not left and has no failure is not behind the base. -/
theorem Active.not_behind (h : Active values hub i s t) (hc : Consistent options values hub)
    (hs : hub.heap[i]? = some s) : hub.behind s = false := by
  unfold Hub.behind
  obtain hmem | hfailure | ⟨_, hindex⟩ := h.reach
  · obtain ⟨s', hs', hmember⟩ := hc.members i hmem
    rw [hs, Option.some.injEq] at hs'
    subst hs'
    have := hmember.base_le
    simp
    omega
  · simp [Option.isNone_eq_false_iff.mpr hfailure]
  · have := hc.base_le
    simp
    omega

end Trace

/-! ### Steps that concern one iterator -/

/-- A step that changes the subscriber and the history of iterator `i` only. -/
theorem SysInv.update {sys' : System T ε} (h : SysInv options sys) (i : Nat)
    (hconsistent : Consistent options sys.published sys'.hub)
    (hbounded : Bounded options sys.published sys'.hub.baseIndex)
    (hpublished : sys'.published = sys.published) (hclosed : sys'.closed = sys.closed)
    (hsettled : sys'.hub.settled = sys.hub.settled)
    (hfailure : sys'.hub.failure = sys.hub.failure)
    (hheap : sys'.hub.heap.length = sys.hub.heap.length)
    (htraces : sys'.traces.length = sys.traces.length) (hspinning : sys'.spinning = false)
    (hother : ∀ j, j ≠ i → sys'.hub.heap[j]? = sys.hub.heap[j]? ∧
      sys'.traces[j]? = sys.traces[j]? ∧ (j ∈ sys'.hub.subscribers ↔ j ∈ sys.hub.subscribers))
    (hself : ∀ s' t', sys'.hub.heap[i]? = some s' → sys'.traces[i]? = some t' →
      TraceInv sys.published sys'.hub sys.closed i s' t') : SysInv options sys' := by
  refine ⟨hpublished ▸ hconsistent, hpublished ▸ hbounded, ?_, ?_, ?_, ?_, hspinning⟩
  · rw [hheap, h.heap, htraces]
  · rw [hsettled, hfailure, hclosed]
    exact h.settled
  · rw [hsettled, hfailure, hclosed]
    exact h.unsettled
  · intro j s t hs ht
    rw [hpublished, hclosed]
    by_cases hj : j = i
    · subst hj
      exact hself s t hs ht
    · obtain ⟨hheapj, htracej, hsubj⟩ := hother j hj
      rw [hheapj] at hs
      rw [htracej] at ht
      exact (h.traces j s t hs ht).transfer hsettled hfailure hsubj

namespace Hub

variable (hub : Hub T ε) (i : Nat)

theorem unsubscribe_heap_self (hs : hub.heap[i]? = some s) :
    (hub.unsubscribe options i).heap[i]? = some { s with closed := true, waiting := none } := by
  simp [unsubscribe, wake, hs]

theorem unsubscribe_heap_other {j : Nat} (hj : j ≠ i) :
    (hub.unsubscribe options i).heap[j]? = hub.heap[j]? := by
  simp only [unsubscribe, wake, compact_heap]
  rw [List.getElem?_modify_ne _ _ hj.symm, List.getElem?_modify_ne _ _ hj.symm]

@[simp] theorem unsubscribe_heap_length :
    (hub.unsubscribe options i).heap.length = hub.heap.length := by
  simp [unsubscribe, wake]

@[simp] theorem mem_unsubscribe {j : Nat} :
    j ∈ (hub.unsubscribe options i).subscribers ↔ j ∈ hub.subscribers ∧ j ≠ i := by
  simp [unsubscribe, wake]

@[simp] theorem unsubscribe_settled : (hub.unsubscribe options i).settled = hub.settled := by
  simp [unsubscribe, wake]

@[simp] theorem unsubscribe_failure : (hub.unsubscribe options i).failure = hub.failure := by
  simp [unsubscribe, wake]

end Hub

/-- A step of iterator `i` that takes it out of the set. -/
theorem SysInv.unsubscribe (h : SysInv options sys) (hs : sys.hub.heap[i]? = some s)
    (f : Trace T ε → Trace T ε)
    (hself : ∀ t, sys.traces[i]? = some t →
      TraceInv sys.published (sys.hub.unsubscribe options i) sys.closed i
        { s with closed := true, waiting := none } (f t)) :
    SysInv options { sys with
      hub := sys.hub.unsubscribe options i
      traces := sys.traces.modify i f } := by
  obtain ⟨hconsistent, hbounded⟩ := h.consistent.unsubscribe i
  refine h.update i hconsistent hbounded rfl rfl (Hub.unsubscribe_settled _ _)
    (Hub.unsubscribe_failure _ _) (Hub.unsubscribe_heap_length _ _) (List.length_modify _ _ _)
    h.spinning (fun j hj => ⟨Hub.unsubscribe_heap_other _ _ hj,
      List.getElem?_modify_ne _ _ hj.symm, by simp [hj]⟩) ?_
  intro s' t' hs' ht'
  dsimp only at hs' ht' ⊢
  rw [Hub.unsubscribe_heap_self _ _ hs, Option.some.injEq] at hs'
  rw [List.getElem?_modify_eq] at ht'
  obtain ⟨t, ht, rfl⟩ := Option.map_eq_some_iff.mp ht'
  subst hs'
  exact hself t ht

/-- `return` and `throw`: the answers so far stay as they are. -/
theorem SysInv.leave (h : SysInv options sys) (hs : sys.hub.heap[i]? = some s) :
    SysInv options (sys.leave options i) := by
  refine h.unsubscribe hs _ fun t ht => ?_
  have htrace := h.traces i s t hs ht
  refine ⟨htrace.limit, htrace.forwarded, htrace.position, htrace.late,
    fun _ => ⟨by simp, ?_⟩, nofun⟩
  rw [Hub.unsubscribe_failure]
  exact htrace.exact h.settled

/-! ### One pass of the loop of `next` -/

section Perform

/-- The history that `perform` starts from is the one that was there: no iterator
is moved forward before it has left. -/
theorem SysInv.skipped_eq (h : SysInv options sys) (hs : sys.hub.heap[i]? = some s) :
    (sys.traces.modify i fun t => { t with
      forwarded := t.forwarded ||
        (sys.hub.behind s && !t.left && !t.results.any Result.isRejected) }) = sys.traces := by
  apply List.ext_getElem?
  intro j
  rw [List.getElem?_modify]
  cases ht : sys.traces[j]? with
  | none => rfl
  | some t =>
    simp only [Option.map_eq_map, Option.map_some, Option.some.injEq]
    by_cases hij : i = j
    · subst hij
      rw [if_pos rfl]
      have htrace := h.traces i s t hs ht
      have hflag : (sys.hub.behind s && !t.left && !t.results.any Result.isRejected) = false := by
        cases hleft : t.left with
        | true => simp
        | false => simp [(htrace.active hleft).not_behind h.consistent hs]
      rw [hflag, Bool.or_false]
    · rw [if_neg hij]

/-- The history after an answer. -/
def Trace.answer (result : Result T ε) (t : Trace T ε) : Trace T ε :=
  if t.left then t else { t with results := t.results ++ [result] }

theorem TraceInv.answer {hub' : Hub T ε} {s' : Subscriber ε}
    (h : TraceInv values hub closed i s t) {result : Result T ε}
    (hfailure : hub'.failure = hub.failure) (hs' : s'.failure = s.failure)
    (hsub : t.left = true → i ∉ hub'.subscribers) (hlate : t.late = true → result.IsLimit)
    (hactive : t.left = false →
      Active values hub' i s' { t with results := t.results ++ [result] }) :
    TraceInv values hub' closed i s' (t.answer result) := by
  unfold Trace.answer
  split
  · next hleft =>
    refine ⟨hs' ▸ h.limit, h.forwarded, h.position, hs' ▸ h.late, fun _ => ⟨hsub hleft, ?_⟩,
      fun hleft' => absurd hleft (by rw [hleft']; exact Bool.false_ne_true)⟩
    rw [hfailure]
    exact (h.gone hleft).2
  · next hleft =>
    refine ⟨hs' ▸ h.limit, h.forwarded, h.position, fun ht => ⟨hs' ▸ (h.late ht).1, ?_⟩,
      fun hleft' => absurd hleft' hleft, fun _ => hactive (Bool.eq_false_iff.mpr hleft)⟩
    exact List.forall_mem_append.mpr ⟨(h.late ht).2, List.forall_mem_singleton.mpr (hlate ht)⟩

theorem SysInv.perform_eq (h : SysInv options sys) (hs : sys.hub.heap[i]? = some s) :
    sys.perform options i s = sys.conclude i (sys.hub.next options i s) := by
  unfold System.perform
  simp only [h.skipped_eq hs]

/-- A step of iterator `i` that answers and takes it out of the set. -/
theorem SysInv.finish (h : SysInv options sys) (hs : sys.hub.heap[i]? = some s)
    {result : Result T ε}
    (hlate : ∀ t, sys.traces[i]? = some t → t.late = true → result.IsLimit)
    (hactive : ∀ t, sys.traces[i]? = some t → t.left = false → Active sys.published sys.hub i s t →
      (s.failure.isSome = true ∧ result.IsLimit) ∨
        (sys.hub.settled = true ∧ s.index = sys.published.length ∧ s.failure = none ∧
          result = sys.hub.ending)) :
    SysInv options (sys.conclude i (sys.hub.unsubscribe options i, .settled result)) := by
  refine h.unsubscribe hs _ fun t ht => ?_
  have htrace := h.traces i s t hs ht
  refine htrace.answer (Hub.unsubscribe_failure _ _) rfl (fun _ => by simp) (hlate t ht) ?_
  intro hleft
  have hold := htrace.active hleft
  obtain ⟨tail, hresults, htail⟩ := hold.tail
  have hends := hactive t ht hleft hold
  refine ⟨hold.position_le, hold.le_length, ?_, nofun, tail ++ [result], ?_, ?_⟩
  · rw [Hub.unsubscribe_settled]
    exact Or.inr (hends.imp And.left fun h => ⟨h.1, h.2.1⟩)
  · dsimp only
    rw [hresults, List.append_assoc]
  · -- the answer agrees with the ones that ended the iterator before
    rw [Hub.unsubscribe_settled, Hub.ending, Hub.unsubscribe_failure]
    refine Or.inr (hends.imp
      (fun hl => ⟨hl.1, List.forall_mem_append.mpr ⟨?_, List.forall_mem_singleton.mpr hl.2⟩⟩)
      fun he => ⟨he.1, he.2.1, he.2.2.1,
        List.forall_mem_append.mpr ⟨?_, List.forall_mem_singleton.mpr he.2.2.2⟩⟩)
    · obtain rfl | ⟨_, hall⟩ | ⟨_, _, hnone, _⟩ := htail
      · nofun
      · exact hall
      · simp [hnone] at hl
    · obtain rfl | ⟨hsome, _⟩ | ⟨_, _, _, hall⟩ := htail
      · nofun
      · simp [he.2.2.1] at hsome
      · exact hall

/-- An iterator whose subscriber was given up rejects. -/
theorem SysInv.reject (h : SysInv options sys) (hs : sys.hub.heap[i]? = some s) {f : Failure ε}
    (hf : s.failure = some f) : SysInv options (sys.perform options i s) := by
  have hnext : sys.hub.next options i s =
      (sys.hub.unsubscribe options i, .settled (.rejected f)) := by
    unfold Hub.next
    rw [hf]
  have hlimit : ∀ t, sys.traces[i]? = some t → (Result.rejected f : Result T ε).IsLimit := by
    intro t ht
    obtain ⟨sequence, rfl⟩ := (h.traces i s t hs ht).limit f hf
    exact ⟨sequence, rfl⟩
  rw [h.perform_eq hs, hnext]
  exact h.finish hs (fun t ht _ => hlimit t ht)
    fun t ht _ _ => Or.inl ⟨by rw [hf]; rfl, hlimit t ht⟩

/-- The branch of `next` that moves an iterator forward, which only one that has
left takes. -/
theorem SysInv.catchUp (h : SysInv options sys) (hs : sys.hub.heap[i]? = some s) :
    SysInv options { sys with
      hub := { sys.hub with heap := sys.hub.heap.modify i fun _ => sys.hub.catchUp options s } } := by
  have hfailure : (sys.hub.catchUp options s).failure = s.failure := by
    unfold Hub.catchUp
    split <;> rfl
  have hlength : i < sys.traces.length := by
    rw [← h.heap]
    exact (List.getElem?_eq_some_iff.mp hs).1
  have htrace := h.traces i s _ hs (List.getElem?_eq_getElem hlength)
  have hsame : sys.traces[i].left = false → sys.hub.catchUp options s = s := by
    intro hleft
    unfold Hub.catchUp
    rw [(htrace.active hleft).not_behind h.consistent hs, if_neg Bool.false_ne_true]
  refine h.update i (h.consistent.setHeap (fun _ hj => hj) ?_) h.bounded rfl rfl rfl rfl
    (List.length_modify _ _ _) rfl h.spinning
    (fun j hj => ⟨List.getElem?_modify_ne _ _ hj.symm, rfl, Iff.rfl⟩) ?_
  · intro j hj s' hs' hmember
    rw [List.getElem?_modify]
    by_cases hij : i = j
    · subst hij
      rw [hs, Option.some.injEq] at hs'
      have hleft : sys.traces[i].left = false := by
        by_contra hleft
        exact (htrace.gone (Bool.eq_true_of_not_eq_false hleft)).1 hj
      subst hs'
      exact ⟨s, by simp [hs, hsame hleft], hmember⟩
    · exact ⟨s', by simp [hs', hij], hmember⟩
  · intro s' t' hs' ht'
    dsimp only at hs' ht'
    rw [List.getElem?_modify_eq, hs] at hs'
    simp only [Option.map_eq_map, Option.map_some, Option.some.injEq] at hs'
    rw [List.getElem?_eq_getElem hlength, Option.some.injEq] at ht'
    subst hs' ht'
    refine ⟨hfailure ▸ htrace.limit, htrace.forwarded, htrace.position, hfailure ▸ htrace.late,
      htrace.gone, fun hleft => ?_⟩
    rw [hsame hleft]
    exact (htrace.active hleft).transfer rfl rfl id

/-- A record that is there to be read. -/
theorem Consistent.next_record (h : Consistent options values hub) (hbase : hub.baseIndex ≤ n)
    (hn : n < values.length) :
    hub.records[n - hub.baseIndex]? =
      some ⟨n, values[n], bytesBefore options values (n + 1)⟩ := by
  rw [h.record, Nat.add_sub_cancel' hbase, List.getElem?_eq_getElem hn]
  rfl

/-- The subscriber after it has read one value. -/
def Subscriber.advanced (options : Options T) (values : List T) (s : Subscriber ε) :
    Subscriber ε :=
  { s with
    index := s.index + 1
    cumulativeBytes := bytesBefore options values (s.index + 1) }

/-- An iterator reads the next value. -/
theorem SysInv.value (h : SysInv options sys) (hs : sys.hub.heap[i]? = some s)
    (hf : s.failure = none) (hlt : s.index < sys.published.length) {heap : List (Subscriber ε)}
    (hheap : heap[i]? = some (s.advanced options sys.published))
    (hother : ∀ j, j ≠ i → heap[j]? = sys.hub.heap[j]?)
    (hlength : heap.length = sys.hub.heap.length) :
    SysInv options (sys.conclude i
      ({ sys.hub with heap }.compact options, .settled (.value sys.published[s.index]))) := by
  have hsucc : bytesBefore options sys.published (s.index + 1) = _ := bytesBefore_succ hlt
  have hadvanced : Consistent options sys.published { sys.hub with heap } := by
    refine h.consistent.setHeap (fun _ hj => hj) ?_
    intro j hj s' hs' hmember
    by_cases hij : j = i
    · subst hij
      rw [hs, Option.some.injEq] at hs'
      subst hs'
      have hevents := hmember.events
      have hbytes := hmember.bytes
      refine ⟨_, hheap, ⟨hmember.isOpen, Nat.le_succ_of_le hmember.base_le, hlt, rfl, ?_, ?_⟩⟩ <;>
        dsimp only [Subscriber.advanced] <;> omega
    · exact ⟨s', by rw [hother j hij, hs'], hmember⟩
  obtain ⟨hconsistent, hbounded⟩ := hadvanced.compact
  refine h.update i hconsistent hbounded rfl rfl (Hub.compact_settled _) (Hub.compact_failure _)
    (by simpa [System.conclude] using hlength) (List.length_modify _ _ _) h.spinning (fun j hj => ⟨?_,
      List.getElem?_modify_ne _ _ hj.symm, by simp [System.conclude]⟩) ?_
  · simp only [System.conclude, Hub.compact_heap]
    exact hother j hj
  intro s' t' hs' ht'
  dsimp only [System.conclude] at hs' ht' ⊢
  rw [Hub.compact_heap, hheap, Option.some.injEq] at hs'
  rw [List.getElem?_modify_eq] at ht'
  obtain ⟨t, ht, rfl⟩ := Option.map_eq_some_iff.mp ht'
  subst hs'
  have htrace := h.traces i s t hs ht
  refine htrace.answer (Hub.compact_failure _) rfl (fun hleft => ?_) (fun hlate => ?_)
    fun hleft => ?_
  · rw [Hub.compact_subscribers]
    exact (htrace.gone hleft).1
  · have := (htrace.late hlate).1
    rw [hf] at this
    cases this
  · have hold := htrace.active hleft
    obtain ⟨tail, hresults, htail⟩ := hold.tail
    -- nothing has ended the iterator so far
    have hnil : tail = [] := by
      obtain hnil | ⟨hsome, _⟩ | ⟨_, hindex, _, _⟩ := htail
      · exact hnil
      · rw [hf] at hsome
        cases hsome
      · omega
    have hmem : i ∈ sys.hub.subscribers := by
      obtain hmem | hsome | ⟨_, hindex⟩ := hold.reach
      · exact hmem
      · rw [hf] at hsome
        cases hsome
      · omega
    refine ⟨Nat.le_succ_of_le hold.position_le, hlt, Or.inl (by rwa [Hub.compact_subscribers]),
      fun hwaits => ?_, [], ?_, Or.inl rfl⟩
    · have := (hold.waits hwaits).2.1
      omega
    · dsimp only [Subscriber.advanced]
      rw [hresults, hnil, List.append_nil, List.append_nil, yielded_succ hold.position_le hlt]

/-- An iterator that has read everything waits for more. -/
theorem SysInv.await (h : SysInv options sys) (hs : sys.hub.heap[i]? = some s)
    (hf : s.failure = none) (hge : ¬ s.index < sys.published.length)
    (hsettled : sys.hub.settled = false) (promise deferreds : Nat) :
    SysInv options (sys.conclude i
      ({ sys.hub with
          heap := sys.hub.heap.modify i fun s => { s with waiting := some promise }
          deferreds },
        .awaits promise)) := by
  have hheap : (sys.hub.heap.modify i fun s => { s with waiting := some promise })[i]? =
      some { s with waiting := some promise } := by
    rw [List.getElem?_modify_eq, hs]
    rfl
  have hconsistent := @Consistent.setHeap _ _ _ _ _ h.consistent
    (sys.hub.heap.modify i fun s => { s with waiting := some promise }) _
    (fun _ hj => hj) (by
      intro j hj s' hs' hmember
      by_cases hij : i = j
      · subst hij
        rw [hs, Option.some.injEq] at hs'
        subst hs'
        exact ⟨_, hheap, { hmember with }⟩
      · exact ⟨s', by rw [List.getElem?_modify_ne _ _ hij, hs'], hmember⟩)
  refine h.update i { hconsistent with } h.bounded rfl rfl rfl rfl (List.length_modify _ _ _) rfl
    h.spinning (fun j hj => ⟨List.getElem?_modify_ne _ _ hj.symm, rfl, Iff.rfl⟩) ?_
  intro s' t' hs' ht'
  dsimp only [System.conclude] at hs' ht' ⊢
  rw [hheap, Option.some.injEq] at hs'
  subst hs'
  have htrace := h.traces i s t' hs ht'
  refine ⟨htrace.limit, htrace.forwarded, htrace.position, htrace.late, htrace.gone,
    fun hleft => ?_⟩
  have hold := htrace.active hleft
  have hle := hold.le_length
  exact ⟨hold.position_le, hle, hold.reach, fun _ => ⟨hf, by dsimp only; omega, hsettled⟩,
    hold.tail⟩

/-- A pass of the loop for a subscriber without a failure that is not behind. -/
theorem SysInv.advance (h : SysInv options sys) (hs : sys.hub.heap[i]? = some s)
    (hf : s.failure = none) (hbase : sys.hub.baseIndex ≤ s.index) :
    SysInv options (sys.conclude i (sys.hub.advance options i s)) := by
  have hnext := h.consistent.next
  unfold Hub.advance
  by_cases hlt : s.index < sys.hub.nextIndex
  · rw [if_pos hlt, h.consistent.next_record hbase (by omega)]
    refine h.value hs hf (by omega) ?_ (fun j hj => List.getElem?_modify_ne _ _ hj.symm)
      (List.length_modify _ _ _)
    rw [List.getElem?_modify_eq, hs]
    rfl
  rw [if_neg hlt]
  by_cases hsettled : sys.hub.settled = true
  · rw [if_pos hsettled]
    refine h.finish hs (fun t ht hlate => ?_) fun t ht hleft hactive => Or.inr
      ⟨hsettled, ?_, hf, rfl⟩
    · have := ((h.traces i s t hs ht).late hlate).1
      rw [hf] at this
      cases this
    · have := hactive.le_length
      omega
  · rw [if_neg hsettled]
    cases s.waiting with
    | some promise => exact { h with }
    | none => exact h.await hs hf (by omega) (Bool.eq_false_iff.mpr hsettled) _ _

/-- One pass of the loop of `next`. -/
theorem SysInv.perform (h : SysInv options sys) (hs : sys.hub.heap[i]? = some s) :
    SysInv options (sys.perform options i s) := by
  cases hf : s.failure with
  | some f => exact h.reject hs hf
  | none =>
    rw [h.perform_eq hs, Hub.next, hf]
    have hcatch := h.catchUp hs
    have hself : (sys.hub.heap.modify i fun _ => sys.hub.catchUp options s)[i]? =
        some (sys.hub.catchUp options s) := by
      rw [List.getElem?_modify_eq, hs]
      rfl
    refine hcatch.advance hself ?_ ?_
    · unfold Hub.catchUp
      split
      · exact hf
      · exact hf
    · unfold Hub.catchUp Hub.behind
      rw [hf]
      simp only [Option.isNone_none, Bool.true_and, decide_eq_true_eq]
      split
      · exact le_rfl
      · next hle => exact not_lt.mp hle

end Perform

/-! ### Steps that concern all iterators -/

section All

theorem SysInv.subscribe (h : SysInv options sys) :
    SysInv options { sys with
      hub := sys.hub.createSubscriber options
      traces := sys.traces ++ [⟨(sys.hub.newSubscriber options).index,
        decide (sys.hub.records.length < sys.published.length), false, false, []⟩] } := by
  have hconsistent := h.consistent.createSubscriber h.bounded
  refine ⟨hconsistent, h.bounded, ?_, h.settled, h.unsettled, ?_, h.spinning⟩
  · simp [Hub.createSubscriber, h.heap]
  intro i s t hs ht
  dsimp only at hs ht ⊢
  change (sys.hub.heap ++ [_])[i]? = some s at hs
  by_cases hi : i < sys.hub.heap.length
  · rw [List.getElem?_append_left hi] at hs
    rw [List.getElem?_append_left (h.heap ▸ hi)] at ht
    refine (h.traces i s t hs ht).transfer rfl rfl ?_
    change i ∈ sys.hub.subscribers ++ [sys.hub.heap.length] ↔ _
    rw [List.mem_append, List.mem_singleton, or_iff_left (by omega)]
  -- the new iterator
  have hnew : i = sys.hub.heap.length := by
    have := (List.getElem?_eq_some_iff.mp hs).1
    simp at this
    omega
  have hmem : i ∈ (sys.hub.createSubscriber options).subscribers :=
    List.mem_append.mpr (Or.inr (List.mem_singleton.mpr hnew))
  obtain ⟨s', hs', hmember⟩ := hconsistent.members i hmem
  change (sys.hub.heap ++ [_])[i]? = some s' at hs'
  rw [hs, Option.some.injEq] at hs'
  subst hs'
  subst hnew
  rw [List.getElem?_concat_length, Option.some.injEq] at hs
  rw [h.heap, List.getElem?_concat_length, Option.some.injEq] at ht
  subst hs ht
  have hlate : sys.hub.records.length < sys.published.length ↔
      sys.hub.lateReplayFailure.isSome = true := by
    rw [h.consistent.late, h.consistent.length_records]
    have := h.consistent.base_le
    omega
  have hwaiting : (sys.hub.newSubscriber options).waiting = none := by
    unfold Hub.newSubscriber
    split <;> rfl
  refine ⟨?_, rfl, ?_, ?_, nofun, fun _ => ⟨le_rfl, hmember.le_length, Or.inl hmem,
    by rw [hwaiting]; nofun, [], ?_, Or.inl rfl⟩⟩
  · intro f hf
    unfold Hub.newSubscriber at hf
    split at hf
    · cases hf
    · cases hf
      exact ⟨_, rfl⟩
  · intro hnot
    have hnone : sys.hub.lateReplayFailure = none := by
      rw [← Option.not_isSome_iff_eq_none, ← hlate]
      exact of_decide_eq_false hnot
    have hbase : ¬ 0 < sys.hub.baseIndex := by
      rw [← h.consistent.late, hnone]
      exact Bool.false_ne_true
    unfold Hub.newSubscriber
    rw [hnone]
    exact Nat.eq_zero_of_not_pos hbase
  · intro hyes
    obtain ⟨sequence, hsome⟩ := Option.isSome_iff_exists.mp (hlate.mp (of_decide_eq_true hyes))
    refine ⟨?_, nofun⟩
    unfold Hub.newSubscriber
    rw [hsome]
    rfl
  · have : yielded ε sys.published (sys.hub.newSubscriber options).index
        (sys.hub.newSubscriber options).index = [] := by
      rw [yielded, List.drop_eq_nil_of_le (by rw [List.length_take]; exact Nat.min_le_left _ _)]
      rfl
    rw [List.append_nil, this]

/-- Before the hub is settled, no iterator has ended otherwise than by the limit. -/
theorem Active.tail_unsettled (h : Active values hub i s t) (hsettled : hub.settled = false) :
    ∃ tail, t.results = yielded ε values t.position s.index ++ tail ∧
      (tail = [] ∨ (s.failure.isSome = true ∧ ∀ r ∈ tail, r.IsLimit)) := by
  obtain ⟨tail, hresults, hnil | hlimit | ⟨hs, _⟩⟩ := h.tail
  · exact ⟨tail, hresults, Or.inl hnil⟩
  · exact ⟨tail, hresults, Or.inr hlimit⟩
  · rw [hsettled] at hs
    cases hs

/-- Before the hub is settled, an iterator outside the set was given up, and so
it does not wait. -/
theorem Active.waiting_mem (h : Active values hub i s t) (hw : s.waiting.isSome = true) :
    i ∈ hub.subscribers := by
  obtain ⟨hf, _, hsettled⟩ := h.waits hw
  obtain hmem | hsome | ⟨hs, _⟩ := h.reach
  · exact hmem
  · rw [hf] at hsome
    cases hsome
  · rw [hsettled] at hs
    cases hs

/-- A step of a hub that is not settled, for an iterator that keeps its cursor and is woken
if it is in the set: what was exact before stays exact, whether the hub ends or not. -/
theorem TraceInv.of_unsettled {hub' : Hub T ε} {s' : Subscriber ε} {closed' : Bool}
    (h : TraceInv values hub closed i s t) (more : List T) (hsettled : hub.settled = false)
    (hfailure : hub.failure = none) (hclosed : closed = false) (hindex : s'.index = s.index)
    (hf : s'.failure = s.failure ∨ ∃ sequence, s'.failure = some (.limit sequence))
    (hsub : i ∈ hub'.subscribers → i ∈ hub.subscribers)
    (hstays : i ∈ hub.subscribers → i ∈ hub'.subscribers ∨ s'.failure.isSome = true)
    (hwoken : s'.waiting.isSome = true → i ∉ hub.subscribers ∧ s.waiting.isSome = true) :
    TraceInv (values ++ more) hub' closed' i s' t := by
  have hsome : s.failure.isSome = true → s'.failure.isSome = true := by
    intro hs
    obtain hf | ⟨_, hf⟩ := hf
    · rwa [hf]
    · rw [hf]
      rfl
  refine ⟨fun f hf' => ?_, h.forwarded, h.position, fun ht => ⟨hsome (h.late ht).1, (h.late ht).2⟩,
    fun hleft => ⟨fun hmem => (h.gone hleft).1 (hsub hmem), ?_⟩, fun hleft => ?_⟩
  · obtain hf | ⟨sequence, hf⟩ := hf
    · exact h.limit f (hf ▸ hf')
    · rw [hf, Option.some.injEq] at hf'
      exact ⟨sequence, hf'.symm⟩
  · obtain ⟨n, hle, tail, hresults, htail⟩ := (h.gone hleft).2
    refine ⟨n, hle.trans (by simp), tail, by rw [hresults, yielded_append hle], ?_⟩
    obtain hnil | hlimit | ⟨_, _, hsome, _⟩ | ⟨_, htrue, _⟩ := htail
    · exact Or.inl hnil
    · exact Or.inr (Or.inl hlimit)
    · rw [hfailure] at hsome
      cases hsome
    · rw [hclosed] at htrue
      cases htrue
  · have hold := h.active hleft
    obtain ⟨tail, hresults, htail⟩ := hold.tail_unsettled hsettled
    refine ⟨hindex ▸ hold.position_le, hindex ▸ hold.le_length.trans (by simp), ?_, fun hw => ?_,
      tail, by rw [hindex, yielded_append hold.le_length]; exact hresults, ?_⟩
    · obtain hmem | hs | ⟨hs, _⟩ := hold.reach
      · exact (hstays hmem).imp_right Or.inl
      · exact Or.inr (Or.inl (hsome hs))
      · rw [hsettled] at hs
        cases hs
    · exact absurd (hold.waiting_mem (hwoken hw).2) (hwoken hw).1
    · exact htail.imp_right fun hl => Or.inl ⟨hsome hl.1, hl.2⟩

/-- `close` and `fail`: the hub is settled and every subscriber woken. -/
theorem SysInv.settle (h : SysInv options sys) (hsettled : sys.hub.settled = false)
    {error : Option ε} (hends : error.isSome = true ∨ closed = true) :
    SysInv options { sys with
      hub := { sys.hub with failure := error, settled := true }.wakeAll, closed } := by
  obtain ⟨hfailure, hclosed⟩ := h.unsettled hsettled
  have hconsistent : Consistent options sys.published
      { sys.hub with failure := error, settled := true } := { h.consistent with }
  refine ⟨hconsistent.wakeAll, h.bounded, ?_, fun _ => hends, nofun, ?_, h.spinning⟩
  · simp [Hub.wakeAll, h.heap]
  intro i s' t hs' ht
  dsimp only at hs' ht ⊢
  have hlt : i < sys.hub.heap.length := by
    rw [h.heap]
    exact (List.getElem?_eq_some_iff.mp ht).1
  have hs := List.getElem?_eq_getElem hlt
  rw [@Hub.wakeAll_heap _ _ { sys.hub with failure := error, settled := true } _ _ hs,
    Option.some.injEq] at hs'
  have htrace := h.traces i _ t hs ht
  have hsame : s'.failure = sys.hub.heap[i].failure ∧ s'.index = sys.hub.heap[i].index := by
    subst hs'
    split <;> exact ⟨rfl, rfl⟩
  rw [← List.append_nil sys.published]
  refine htrace.of_unsettled [] hsettled hfailure hclosed hsame.2 (Or.inl hsame.1) (fun hm => hm)
    Or.inl fun hw => ?_
  by_cases hmem : i ∈ sys.hub.subscribers
  · rw [if_pos hmem] at hs'
    subst hs'
    cases hw
  · rw [if_neg hmem] at hs'
    subst hs'
    exact ⟨hmem, hw⟩

theorem Hub.offer_cases (nextIndex : Nat) (totalBytes : Int) (sequence : String)
    (s : Subscriber ε) :
    Hub.offer options nextIndex totalBytes sequence s =
        { s with failure := some (.limit sequence), closed := true, waiting := none } ∨
      Hub.offer options nextIndex totalBytes sequence s = { s with waiting := none } := by
  unfold Hub.offer
  split
  · exact Or.inl rfl
  · exact Or.inr rfl

theorem SysInv.publish (h : SysInv options sys) (value : T) :
    SysInv options { sys with
      hub := sys.hub.publish options value
      published := if sys.hub.settled then sys.published else sys.published ++ [value] } := by
  obtain ⟨hconsistent, hbounded⟩ := h.consistent.publish h.bounded value
  cases hsettled : sys.hub.settled with
  | true =>
    have hsame : sys.hub.publish options value = sys.hub := by
      unfold Hub.publish
      rw [if_pos hsettled]
    rw [hsame, if_pos rfl]
    exact h
  | false =>
    rw [hsettled] at hconsistent hbounded
    rw [if_neg Bool.false_ne_true] at hconsistent hbounded ⊢
    obtain ⟨hfailure, hclosed⟩ := h.unsettled hsettled
    have hpublish : sys.hub.publish options value =
        (((sys.hub.append options value).offerAll options value).removeClosed).compact options := by
      unfold Hub.publish
      rw [hsettled, if_neg Bool.false_ne_true]
    have hsettled' : (sys.hub.publish options value).settled = false := by
      rw [hpublish, Hub.compact_settled]
      exact hsettled
    have hfailure' : (sys.hub.publish options value).failure = none := by
      rw [hpublish, Hub.compact_failure]
      exact hfailure
    refine ⟨hconsistent, hbounded, ?_, ?_, fun _ => ⟨hfailure', hclosed⟩, ?_, h.spinning⟩
    · dsimp only
      rw [hpublish, Hub.compact_heap]
      simp [Hub.removeClosed, Hub.offerAll, Hub.append, h.heap]
    · dsimp only
      rw [hsettled']
      nofun
    intro i s' t hs' ht
    dsimp only at hs' ht ⊢
    have hlt : i < sys.hub.heap.length := by
      rw [h.heap]
      exact (List.getElem?_eq_some_iff.mp ht).1
    have hs : (sys.hub.append options value).heap[i]? = some sys.hub.heap[i] :=
      List.getElem?_eq_getElem hlt
    have hoffer : s' = if i ∈ sys.hub.subscribers then
        Hub.offer options (sys.hub.nextIndex + 1)
          (sys.hub.totalBytes + max 0 (options.sizeOf value : Int)) (options.sequenceOf value)
          sys.hub.heap[i] else sys.hub.heap[i] := by
      rw [hpublish, Hub.compact_heap] at hs'
      change ((sys.hub.append options value).offerAll options value).heap[i]? = some s' at hs'
      rw [Hub.offerAll_heap value hs, Option.some.injEq] at hs'
      exact hs'.symm
    have hmem : i ∈ (sys.hub.publish options value).subscribers ↔
        i ∈ sys.hub.subscribers ∧ s'.closed = false := by
      rw [hpublish, Hub.compact_heap] at hs'
      rw [hpublish, Hub.compact_subscribers]
      change i ∈ sys.hub.subscribers.filter _ ↔ _
      rw [List.mem_filter]
      change ((sys.hub.append options value).offerAll options value).heap[i]? = some s' at hs'
      rw [hs', Option.all_some, Bool.not_eq_true']
    have htrace := h.traces i _ t (List.getElem?_eq_getElem hlt) ht
    have hsub := fun hm => (hmem.mp hm).1
    by_cases hin : i ∈ sys.hub.subscribers
    · rw [if_pos hin] at hoffer
      obtain hcase | hcase := @Hub.offer_cases _ _ options (sys.hub.nextIndex + 1)
        (sys.hub.totalBytes + max 0 (options.sizeOf value : Int)) (options.sequenceOf value)
        sys.hub.heap[i]
      · rw [hcase] at hoffer
        subst hoffer
        exact htrace.of_unsettled [value] hsettled hfailure hclosed rfl (Or.inr ⟨_, rfl⟩) hsub
          (fun _ => Or.inr rfl) nofun
      · rw [hcase] at hoffer
        subst hoffer
        obtain ⟨s, hs, hmember⟩ := h.consistent.members i hin
        rw [List.getElem?_eq_getElem hlt, Option.some.injEq] at hs
        subst hs
        exact htrace.of_unsettled [value] hsettled hfailure hclosed rfl (Or.inl rfl) hsub
          (fun hm => Or.inl (hmem.mpr ⟨hm, hmember.isOpen⟩)) nofun
    · rw [if_neg hin] at hoffer
      subst hoffer
      exact htrace.of_unsettled [value] hsettled hfailure hclosed rfl (Or.inl rfl) hsub
        (fun hm => absurd hm hin) fun hw => ⟨hin, hw⟩

/-! ## Runs -/

theorem SysInv.new (options : Options T) : SysInv options (System.new T ε) where
  consistent := by
    exact ⟨rfl, Nat.zero_le _, rfl, rfl, iff_of_false nofun (Nat.lt_irrefl 0), fun _ => rfl, nofun⟩
  bounded := ⟨Nat.zero_le _, by simp [bytesBefore, System.new]⟩
  heap := rfl
  settled := nofun
  unsettled := fun _ => ⟨rfl, rfl⟩
  traces := nofun
  spinning := rfl

theorem SysInv.step {sys' : System T ε} (h : SysInv options sys) {event : Event T ε}
    (hstep : sys.step options event = some sys') : SysInv options sys' := by
  unfold System.step at hstep
  rw [if_neg (by rw [h.spinning]; exact Bool.false_ne_true)] at hstep
  cases event with
  | subscribe =>
    cases hstep
    exact h.subscribe
  | publish value =>
    cases hstep
    exact h.publish value
  | close =>
    cases hstep
    cases hsettled : sys.hub.settled with
    | true =>
      have hsame : sys.hub.close = sys.hub := by rw [Hub.close, if_pos hsettled]
      rw [hsame, Bool.not_true, Bool.or_false]
      exact h
    | false =>
      have hclose : sys.hub.close =
          { sys.hub with failure := none, settled := true }.wakeAll := by
        rw [Hub.close, hsettled, if_neg Bool.false_ne_true, ← (h.unsettled hsettled).1]
      rw [hclose, Bool.not_false, Bool.or_true]
      exact h.settle hsettled (Or.inr rfl)
  | fail error =>
    cases hstep
    cases hsettled : sys.hub.settled with
    | true =>
      have hsame : sys.hub.fail error = sys.hub := by rw [Hub.fail, if_pos hsettled]
      rw [hsame]
      exact h
    | false =>
      rw [Hub.fail, hsettled, if_neg Bool.false_ne_true]
      exact h.settle hsettled (Or.inl rfl)
  | next i =>
    obtain ⟨s, hs, rfl⟩ := Option.map_eq_some_iff.mp hstep
    exact h.perform hs
  | resume k =>
    obtain ⟨call, _, hstep⟩ := Option.bind_eq_some_iff.mp hstep
    obtain ⟨s, hs, hstep⟩ := Option.bind_eq_some_iff.mp hstep
    split at hstep
    · cases hstep
    · cases hstep
      have hcalls : SysInv options { sys with calls := sys.calls.eraseIdx k } := { h with }
      exact hcalls.perform hs
  | returned i =>
    obtain ⟨s, hs, rfl⟩ := Option.map_eq_some_iff.mp hstep
    exact h.leave hs
  | thrown i =>
    obtain ⟨s, hs, rfl⟩ := Option.map_eq_some_iff.mp hstep
    exact h.leave hs

/-- The bytes of the retained records, as `publish` counts them. -/
def Hub.retainedBytes (options : Options T) (hub : Hub T ε) : Int :=
  (hub.records.map fun record => max 0 (options.sizeOf record.value : Int)).sum

theorem sum_records (base : Nat) :
    (((recordsOf options values).drop base).map fun record =>
        max 0 (options.sizeOf record.value : Int)).sum =
      bytesBefore options values values.length - bytesBefore options values base := by
  have hmap : (recordsOf options values).map (fun record => max 0 (options.sizeOf record.value : Int)) =
      values.map fun v => max 0 (options.sizeOf v : Int) := by
    apply List.ext_getElem?
    intro i
    rw [List.getElem?_map, recordsOf_getElem?, List.getElem?_map, Option.map_map]
    rfl
  rw [List.map_drop, hmap, bytesBefore, List.take_length, bytesBefore, List.map_take,
    ← List.sum_take_add_sum_drop (values.map fun v => max 0 (options.sizeOf v : Int)) base]
  omega

/-- What the multicast promises to its iterators. -/
structure Faithful (options : Options T) (sys : System T ε) : Prop where
  /-- The answers of an iterator, until it leaves, are the values published from
  its position on, in order and each once, up to its end. -/
  exact : ∀ t ∈ sys.traces, ∃ n,
    Exact sys.published sys.closed sys.hub.failure t.position n t.results
  /-- No iterator is moved forward before it was returned, thrown or rejected. -/
  forwarded : ∀ t ∈ sys.traces, t.forwarded = false
  /-- An iterator starts at the first value, or else it was created after a record
  was discarded, and then it only rejects. -/
  late : ∀ (i : Nat) (s : Subscriber ε) (t : Trace T ε), sys.hub.heap[i]? = some s →
    sys.traces[i]? = some t →
    (t.late = false ∧ t.position = 0) ∨
      (t.late = true ∧ (∃ sequence, s.failure = some (.limit sequence)) ∧
        ∀ r ∈ t.results, r.IsLimit)
  /-- A call of `next` that is not woken has nothing to answer. -/
  waits : ∀ (i : Nat) (s : Subscriber ε) (t : Trace T ε), sys.hub.heap[i]? = some s →
    sys.traces[i]? = some t → t.left = false → s.waiting.isSome = true →
    s.failure = none ∧ s.index = sys.published.length ∧ sys.hub.settled = false
  /-- The retained records keep both limits. -/
  bounded : sys.hub.records.length ≤ options.maxEvents ∧
    sys.hub.retainedBytes options ≤ options.maxBytes
  /-- No call of `next` loops without end. -/
  spinning : sys.spinning = false

theorem SysInv.faithful (h : SysInv options sys) : Faithful options sys := by
  have hpair {t : Trace T ε} (ht : t ∈ sys.traces) : ∃ i s, sys.hub.heap[i]? = some s ∧
      TraceInv sys.published sys.hub sys.closed i s t := by
    obtain ⟨i, hi, rfl⟩ := List.getElem_of_mem ht
    have hs := List.getElem?_eq_getElem (h.heap ▸ hi)
    exact ⟨i, _, hs, h.traces i _ _ hs (List.getElem?_eq_getElem hi)⟩
  refine ⟨fun t ht => ?_, fun t ht => ?_, fun i s t hs ht => ?_, fun i s t hs ht hleft hw => ?_, ?_,
    h.spinning⟩
  · obtain ⟨i, s, _, htrace⟩ := hpair ht
    exact htrace.exact h.settled
  · obtain ⟨i, s, _, htrace⟩ := hpair ht
    exact htrace.forwarded
  · have htrace := h.traces i s t hs ht
    cases hlate : t.late with
    | false => exact Or.inl ⟨rfl, htrace.position hlate⟩
    | true =>
      obtain ⟨hsome, hresults⟩ := htrace.late hlate
      obtain ⟨f, hf⟩ := Option.isSome_iff_exists.mp hsome
      obtain ⟨sequence, rfl⟩ := htrace.limit f hf
      exact Or.inr ⟨rfl, ⟨sequence, hf⟩, hresults⟩
  · exact ((h.traces i s t hs ht).active hleft).waits hw
  · obtain ⟨hevents, hbytes⟩ := h.bounded
    refine ⟨?_, ?_⟩
    · rw [h.consistent.length_records]
      omega
    · rw [Hub.retainedBytes, h.consistent.records, sum_records]
      omega

/-- The multicast is faithful after every sequence of calls. -/
theorem multicast_faithful {options : Options T} {events : List (Event T ε)} {sys : System T ε}
    (hrun : run (System.step options) (System.new T ε) events = some sys) :
    Faithful options sys :=
  (inv_of_run (fun _ _ _ hinv hstep => SysInv.step hinv hstep) (SysInv.new options) hrun).faithful

end All

/-- Values that are their own size, at most ten of them and five bytes. -/
def sampleOptions : Options Nat where
  maxEvents := 10
  maxBytes := 5
  sizeOf := id
  sequenceOf _ := "1"
  maxEvents_pos := by decide
  maxBytes_pos := by decide

/-- Two calls of `next` wait on one promise; each gets one of the two values. -/
def sampleEvents : List (Event Nat Unit) :=
  [.subscribe, .next 0, .next 0, .publish 2, .resume 0, .resume 0, .publish 3, .resume 0, .close,
    .next 0]

theorem multicast_faithful_two_waiting :
    ∃ sys, run (System.step sampleOptions) (System.new Nat Unit) sampleEvents = some sys ∧
      sys.traces.map Trace.results = [[.value 2, .value 3, .done]] ∧
      Faithful sampleOptions sys := by
  have hresults : (run (System.step sampleOptions) (System.new Nat Unit) sampleEvents).map
      (fun sys => sys.traces.map Trace.results) = some [[.value 2, .value 3, .done]] := by decide
  obtain ⟨sys, hrun, hsys⟩ := Option.map_eq_some_iff.mp hresults
  exact ⟨sys, hrun, hsys, multicast_faithful hrun⟩

end Streamweld.Client
