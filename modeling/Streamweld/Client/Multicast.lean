import Streamweld.Lib.Transition

/-!
# The replay multicast of the client

`ReplayMulticast` (`packages/client/src/multicast.ts`): one producer publishes
values, and every iterator reads them at its own pace from a shared list of
retained records.  Records that every subscriber has read are discarded, and a
subscriber that lags too far behind is given up.

The private fields of the class are the fields of `Hub`.  Subscribers are
objects, so they live in a heap and `#subscribers` holds their numbers.  A
promise that `next` awaits is the number of its `Deferred`; it is resolved as
soon as its subscriber no longer has it in `waiting`.  `undefined` is `none`.

`System` is the hub with the calls of `next` that are suspended and with a
history of what every iterator has answered.  A call of `next` runs up to its
`await`; a suspended call goes on at any time after its promise was resolved,
in any order, which covers the order of the microtask queue.  Numbers are
exact integers: byte totals above `2 ^ 53`, where doubles round, are not
modelled.

The class is not exported.  Its one instance (`client.ts`) measures an event by
a byte length, so a size is a natural number, and `fail` is given an `Error`.
-/

namespace Streamweld.Client

open Streamweld.Lib

/-- The options of the constructor, with positive limits. -/
structure Options (T : Type) where
  maxEvents : Nat
  maxBytes : Nat
  sizeOf : T → Nat
  sequenceOf : T → String
  maxEvents_pos : 0 < maxEvents
  maxBytes_pos : 0 < maxBytes

/-- What a call of `next` rejects with: a `StreamBufferLimitError`, or the
argument of `fail`. -/
inductive Failure (ε : Type) where
  | limit (sequence : String)
  | raised (error : ε)
  deriving DecidableEq, Repr

/-- `RecordValue` -/
structure RecordValue (T : Type) where
  index : Nat
  value : T
  cumulativeBytes : Int
  deriving DecidableEq, Repr

/-- `Subscriber` -/
structure Subscriber (ε : Type) where
  index : Nat
  cumulativeBytes : Int
  waiting : Option Nat
  failure : Option (Failure ε)
  closed : Bool
  deriving DecidableEq, Repr

/-- `ReplayMulticast` -/
structure Hub (T ε : Type) where
  /-- Every subscriber object, in the order of creation. -/
  heap : List (Subscriber ε)
  subscribers : List Nat
  records : List (RecordValue T)
  baseIndex : Nat
  nextIndex : Nat
  totalBytes : Int
  settled : Bool
  failure : Option ε
  everSubscribed : Bool
  /-- The sequence of the `StreamBufferLimitError`. -/
  lateReplayFailure : Option String
  lastSequence : String
  /-- The number of promises created so far. -/
  deferreds : Nat

/-- The state after the constructor. -/
def Hub.new (T ε : Type) : Hub T ε where
  heap := []
  subscribers := []
  records := []
  baseIndex := 0
  nextIndex := 0
  totalBytes := 0
  settled := false
  failure := none
  everSubscribed := false
  lateReplayFailure := none
  lastSequence := "0"
  deferreds := 0

/-- How one call of `next` settles. -/
inductive Result (T ε : Type) where
  | value (v : T)
  | rejected (failure : Failure ε)
  | done
  deriving DecidableEq, Repr

/-- How a pass of the loop of `next` ends: with an answer, at the `await` of a
promise, or in a `continue` that changes nothing and so never ends. -/
inductive Outcome (T ε : Type) where
  | settled (result : Result T ε)
  | awaits (promise : Nat)
  | spins

section

variable {T ε : Type} (options : Options T)

namespace Hub

/-- `#wake` -/
def wake (hub : Hub T ε) (i : Nat) : Hub T ε :=
  { hub with heap := hub.heap.modify i fun s => { s with waiting := none } }

/-- `#wake` for every subscriber in the set. -/
def wakeAll (hub : Hub T ε) : Hub T ε :=
  { hub with
    heap := hub.heap.mapIdx fun i s => if i ∈ hub.subscribers then { s with waiting := none } else s }

/-- The bytes published before the first retained record. -/
def cumulativeFirst (hub : Hub T ε) : Int :=
  match hub.records with
  | [] => hub.totalBytes
  | first :: _ => first.cumulativeBytes - options.sizeOf first.value

/-- `#cumulativeBefore` -/
def cumulativeBefore (hub : Hub T ε) (index : Nat) : Int :=
  if index ≤ hub.baseIndex then hub.cumulativeFirst options
  else
    match hub.records[index - hub.baseIndex - 1]? with
    | some previous => previous.cumulativeBytes
    | none => hub.totalBytes

/-- The `while` loop of `#compact`, with the number of records as a bound on
its rounds. -/
def dropOldest (hub : Hub T ε) : (rounds retainFrom : Nat) → Nat
  | 0, retainFrom => retainFrom
  | rounds + 1, retainFrom =>
    if (hub.nextIndex : Int) - retainFrom > options.maxEvents ∨
        hub.totalBytes - hub.cumulativeBefore options retainFrom > options.maxBytes then
      hub.dropOldest rounds (retainFrom + 1)
    else retainFrom

/-- The index of a subscriber in the set. -/
def indexOf (hub : Hub T ε) (i : Nat) : Nat :=
  match hub.heap[i]? with
  | some s => s.index
  | none => hub.nextIndex

/-- The first index that `#compact` keeps. -/
def retainFrom (hub : Hub T ε) : Nat :=
  match (hub.subscribers.map hub.indexOf).min? with
  | some least => least
  | none =>
    if hub.everSubscribed then hub.nextIndex
    else hub.dropOldest options hub.records.length hub.baseIndex

/-- `#compact` -/
def compact (hub : Hub T ε) : Hub T ε :=
  if hub.records = [] then hub
  else if hub.retainFrom options ≤ hub.baseIndex then hub
  else
    { hub with
      lateReplayFailure := hub.lateReplayFailure <|> some hub.lastSequence
      records := hub.records.drop (hub.retainFrom options - hub.baseIndex)
      baseIndex := hub.retainFrom options }

/-- `#unsubscribe` -/
def unsubscribe (hub : Hub T ε) (i : Nat) : Hub T ε :=
  compact options
    (wake { hub with
      heap := hub.heap.modify i fun s => { s with closed := true }
      subscribers := hub.subscribers.filter (· ≠ i) } i)

/-- What `publish` does to one subscriber: it is given up when it lags too far
behind, and woken in any case. -/
def offer (nextIndex : Nat) (totalBytes : Int) (sequence : String) (s : Subscriber ε) :
    Subscriber ε :=
  if (nextIndex : Int) - s.index > options.maxEvents ∨
      totalBytes - s.cumulativeBytes > options.maxBytes then
    { s with failure := some (.limit sequence), closed := true, waiting := none }
  else { s with waiting := none }

/-- The part of `publish` that appends the record. -/
def append (hub : Hub T ε) (value : T) : Hub T ε :=
  let totalBytes := hub.totalBytes + max 0 (options.sizeOf value : Int)
  { hub with
    lastSequence := options.sequenceOf value
    totalBytes
    records := hub.records ++ [⟨hub.nextIndex, value, totalBytes⟩]
    nextIndex := hub.nextIndex + 1 }

/-- The loop of `publish` over the subscribers. -/
def offerAll (hub : Hub T ε) (value : T) : Hub T ε :=
  { hub with
    heap := hub.heap.mapIdx fun i s =>
      if i ∈ hub.subscribers then
        offer options hub.nextIndex hub.totalBytes (options.sequenceOf value) s
      else s }

/-- `#removeClosed` -/
def removeClosed (hub : Hub T ε) : Hub T ε :=
  { hub with
    subscribers := hub.subscribers.filter fun i => (hub.heap[i]?.all fun s => !s.closed) }

def publish (hub : Hub T ε) (value : T) : Hub T ε :=
  if hub.settled then hub
  else (((hub.append options value).offerAll options value).removeClosed).compact options

def close (hub : Hub T ε) : Hub T ε :=
  if hub.settled then hub else { hub with settled := true }.wakeAll

def fail (hub : Hub T ε) (error : ε) : Hub T ε :=
  if hub.settled then hub else { hub with failure := some error, settled := true }.wakeAll

/-- The subscriber object that `#createSubscriber` makes. -/
def newSubscriber (hub : Hub T ε) : Subscriber ε :=
  match hub.lateReplayFailure with
  | none => ⟨hub.baseIndex, hub.cumulativeFirst options, none, none, false⟩
  | some sequence => ⟨hub.nextIndex, hub.totalBytes, none, some (.limit sequence), false⟩

/-- `#createSubscriber` -/
def createSubscriber (hub : Hub T ε) : Hub T ε :=
  { hub with
    heap := hub.heap ++ [hub.newSubscriber options]
    everSubscribed := true
    subscribers := hub.subscribers ++ [hub.heap.length] }

/-- The condition of the branch of `next` that moves a subscriber forward to the
first retained record. -/
def behind (hub : Hub T ε) (s : Subscriber ε) : Bool :=
  s.failure.isNone && decide (s.index < hub.baseIndex)

/-- That branch. -/
def catchUp (hub : Hub T ε) (s : Subscriber ε) : Subscriber ε :=
  if hub.behind s then
    { s with index := hub.baseIndex, cumulativeBytes := hub.cumulativeFirst options }
  else s

/-- One pass of the loop of `next` for a subscriber without a failure that has
caught up. -/
def advance (hub : Hub T ε) (i : Nat) (s : Subscriber ε) : Hub T ε × Outcome T ε :=
  if s.index < hub.nextIndex then
    match hub.records[s.index - hub.baseIndex]? with
    | none => (hub, .spins)
    | some record =>
      ({ hub with
          heap := hub.heap.modify i fun s =>
            { s with index := s.index + 1, cumulativeBytes := record.cumulativeBytes } }.compact
          options, .settled (.value record.value))
  else if hub.settled then
    (hub.unsubscribe options i,
      .settled (match hub.failure with | some error => .rejected (.raised error) | none => .done))
  else
    match s.waiting with
    | some promise => (hub, .awaits promise)
    | none =>
      ({ hub with
          heap := hub.heap.modify i fun s => { s with waiting := some hub.deferreds }
          deferreds := hub.deferreds + 1 }, .awaits hub.deferreds)

/-- One pass of the loop of `next`. -/
def next (hub : Hub T ε) (i : Nat) (s : Subscriber ε) : Hub T ε × Outcome T ε :=
  match s.failure with
  | some failure => (hub.unsubscribe options i, .settled (.rejected failure))
  | none =>
    advance options { hub with heap := hub.heap.modify i fun _ => hub.catchUp options s } i
      (hub.catchUp options s)

end Hub

/-! ## Iterators -/

/-- The history of one iterator. -/
structure Trace (T ε : Type) where
  /-- The number of values published before the first one it is to yield. -/
  position : Nat
  /-- A record had been discarded when it was created. -/
  late : Bool
  /-- `return` or `throw` was called. -/
  left : Bool
  /-- It was moved forward before it was returned, thrown or rejected. -/
  forwarded : Bool
  /-- The answers of its calls of `next` up to `return` or `throw`, in the order
  in which they settled. -/
  results : List (Result T ε)

/-- The hub, its callers and their history. -/
structure System (T ε : Type) where
  hub : Hub T ε
  /-- The suspended calls of `next`: the iterator and the promise. -/
  calls : List (Nat × Nat)
  traces : List (Trace T ε)
  /-- The values of the calls of `publish` that took effect. -/
  published : List T
  /-- `close` took effect. -/
  closed : Bool
  /-- A call of `next` loops without end. -/
  spinning : Bool

def System.new (T ε : Type) : System T ε := ⟨Hub.new T ε, [], [], [], false, false⟩

inductive Event (T ε : Type) where
  | subscribe
  | publish (value : T)
  | close
  | fail (error : ε)
  | next (i : Nat)
  /-- The suspended call in this place goes on. -/
  | resume (k : Nat)
  | returned (i : Nat)
  | thrown (i : Nat)

def Result.isRejected : Result T ε → Bool
  | .rejected _ => true
  | .value _ | .done => false

namespace System

/-- What a pass of the loop of `next` leaves behind. -/
def conclude (sys : System T ε) (i : Nat) : Hub T ε × Outcome T ε → System T ε
  | (hub, .settled result) =>
    { sys with
      hub
      traces := sys.traces.modify i fun t =>
        if t.left then t else { t with results := t.results ++ [result] } }
  | (hub, .awaits promise) => { sys with hub, calls := sys.calls ++ [(i, promise)] }
  | (hub, .spins) => { sys with hub, spinning := true }

/-- A pass of the loop of `next` for iterator `i`, with its history. -/
def perform (sys : System T ε) (i : Nat) (s : Subscriber ε) : System T ε :=
  let traces := sys.traces.modify i fun t =>
    { t with
      forwarded := t.forwarded ||
        (sys.hub.behind s && !t.left && !t.results.any Result.isRejected) }
  { sys with traces }.conclude i (sys.hub.next options i s)

/-- `return` and `throw` -/
def leave (sys : System T ε) (i : Nat) : System T ε :=
  { sys with
    hub := sys.hub.unsubscribe options i
    traces := sys.traces.modify i fun t => { t with left := true } }

def step (sys : System T ε) (event : Event T ε) : Option (System T ε) :=
  if sys.spinning then none
  else match event with
    | .subscribe =>
      some { sys with
        hub := sys.hub.createSubscriber options
        traces := sys.traces ++ [⟨(sys.hub.newSubscriber options).index,
          decide (sys.hub.records.length < sys.published.length), false, false, []⟩] }
    | .publish value =>
      some { sys with
        hub := sys.hub.publish options value
        published := if sys.hub.settled then sys.published else sys.published ++ [value] }
    | .close =>
      some { sys with hub := sys.hub.close, closed := sys.closed || !sys.hub.settled }
    | .fail error => some { sys with hub := sys.hub.fail error }
    | .next i => sys.hub.heap[i]?.map fun s => sys.perform options i s
    | .resume k =>
      sys.calls[k]?.bind fun call =>
        sys.hub.heap[call.1]?.bind fun s =>
          if s.waiting = some call.2 then none
          else some ({ sys with calls := sys.calls.eraseIdx k }.perform options call.1 s)
    | .returned i | .thrown i =>
      sys.hub.heap[i]?.map fun _ => sys.leave options i

end System

end

end Streamweld.Client
