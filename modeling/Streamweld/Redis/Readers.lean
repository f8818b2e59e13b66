import Streamweld.Lib.Transition
import Streamweld.Migrate.Seam
import Streamweld.Redis.Reservations

/-!
# Leases of remote readers and claims of orphans

`internal/journal/redis_readers.go`: the readers of a stream at other replicas hold leases in a
sorted set, with the time of their end as the score, and the replica of the producer claims the
stream before it cancels it.  The set is pruned when a script looks at it, and the key as a
whole expires after twice the time to live of a lease.

`claims_exclude_readers_iff`: claims and leases exclude each other in every run if, and only if,
twice the common time to live is a duration of the source, which has 64 bits.  Beyond that
`2*ttl` is negative, `PEXPIRE` deletes the key that the script has just written, and a claim
does not see the lease.  `lease_lost_to_overflow` has such a run, with a setting that the proxy
accepts.
-/

namespace Streamweld.Redis

open Streamweld.Journal Streamweld.Lib

/-! ## Keys -/

/-- The sorted set of the readers with the life time of its key.  A set without members is a
key that does not exist. -/
structure ReaderSet where
  scores : List (String × Int)
  expiresAt : Option Int
  deriving DecidableEq, Repr

namespace ReaderSet

def empty : ReaderSet := ⟨[], none⟩

/-- The key as a command finds it: Redis deletes a key after its last millisecond. -/
def find (now : Int) (set : ReaderSet) : ReaderSet :=
  if set.expiresAt.any fun expiresAt => expiresAt < now then empty else set

/-- The members that satisfy the test stay.  A set that becomes empty is deleted with its life
time. -/
def keep (p : String × Int → Bool) (set : ReaderSet) : ReaderSet :=
  if set.scores.filter p = [] then empty else { set with scores := set.scores.filter p }

/-- `ZREMRANGEBYSCORE` from `-inf` to the time. -/
def zremrangebyscore (now : Int) (set : ReaderSet) : ReaderSet :=
  set.keep fun entry => now < entry.2

def zrem (member : String) (set : ReaderSet) : ReaderSet := set.keep fun entry => entry.1 ≠ member

def zadd (score : Int) (member : String) (set : ReaderSet) : ReaderSet :=
  { set with scores := (member, score) :: set.scores.filter fun entry => entry.1 ≠ member }

/-- `PEXPIRE`, which deletes the key if the time is not in the future. -/
def pexpire (now milliseconds : Int) (set : ReaderSet) : ReaderSet :=
  if milliseconds ≤ 0 then empty else { set with expiresAt := some (now + milliseconds) }

end ReaderSet

/-- The keys of one stream that the scripts read and write, and the clock of Redis in
milliseconds. -/
structure ReaderKeys where
  /-- the field `status` of the state, which may not exist -/
  status : Option StreamStatus
  tombstone : Bool
  readers : ReaderSet
  claim : Option StringKey
  now : Int
  deriving DecidableEq, Repr

/-- The claim as a command finds it. -/
def ReaderKeys.liveClaim (keys : ReaderKeys) : Option StringKey :=
  keys.claim.filter fun claim => keys.now ≤ claim.expiresAt

/-- An open stream without readers. -/
def ReaderKeys.start (now : Int) : ReaderKeys :=
  { status := some .statusOpen, tombstone := true, readers := .empty, claim := none, now := now }

/-! ## Scripts -/

/-- The error for a stream without a state. -/
def ReaderKeys.missing (keys : ReaderKeys) : ScriptError :=
  if keys.tombstone then .expired else .notFound

/-- The stream is open and claimed. -/
def ReaderKeys.claimed (keys : ReaderKeys) : Bool :=
  keys.status = some .statusOpen && keys.liveClaim.isSome

/-- The set after the scripts have pruned it. -/
def ReaderKeys.pruned (keys : ReaderKeys) : ReaderSet :=
  (keys.readers.find keys.now).zremrangebyscore keys.now

/-- The end of the two scripts that write a lease. -/
def ReaderKeys.lease (keys : ReaderKeys) (ttl : Int) (readerID : String) (expiry : Int) :
    ReaderKeys :=
  { keys with
    readers := (keys.pruned.zadd (keys.now + ttl) readerID).pexpire keys.now expiry }

def redisAcquireReaderScript (keys : ReaderKeys) (ttl : Int) (readerID : String) (expiry : Int) :
    ReaderKeys × Except ScriptError Nat :=
  if keys.status = none then (keys, .error keys.missing)
  else if keys.claimed then (keys, .error .terminal)
  else (keys.lease ttl readerID expiry, .ok 1)

def redisRefreshReaderScript (keys : ReaderKeys) (ttl : Int) (readerID : String) (expiry : Int) :
    ReaderKeys × Except ScriptError Nat :=
  if keys.status = none then (keys, .ok 0)
  else if keys.claimed then (keys, .error .terminal)
  else if keys.pruned.scores.lookup readerID = none then
    ({ keys with readers := keys.pruned }, .ok 0)
  else (keys.lease ttl readerID expiry, .ok 1)

def redisCountReadersScript (keys : ReaderKeys) : ReaderKeys × Except ScriptError Nat :=
  if keys.status = none then (keys, .ok 0)
  else ({ keys with readers := keys.pruned }, .ok keys.pruned.scores.length)

/-- `PEXPIRE` on the claim. -/
def ReaderKeys.renewClaim (keys : ReaderKeys) (claim : StringKey) (ttl : Int) : ReaderKeys :=
  { keys with
    claim := if ttl ≤ 0 then none else some { claim with expiresAt := keys.now + ttl } }

def redisClaimOrphanScript (keys : ReaderKeys) (claimID : String) (ttl : Int) :
    ReaderKeys × Except ScriptError Nat :=
  if keys.status = none then (keys, .error keys.missing)
  else if keys.status ≠ some .statusOpen then (keys, .error .terminal)
  else
    match keys.liveClaim with
    | some existing =>
      if existing.value = claimID then (keys.renewClaim existing ttl, .ok 1)
      else (keys, .error .terminal)
    | none =>
      if keys.pruned.scores.length ≠ 0 then ({ keys with readers := keys.pruned }, .ok 0)
      else
        ({ keys with
            readers := keys.pruned
            claim := some ⟨claimID, keys.now + ttl⟩ }, .ok 1)

def redisReleaseOrphanScript (keys : ReaderKeys) (claimID : String) :
    ReaderKeys × Except ScriptError Nat :=
  if keys.status = none then (keys, .ok 0)
  else if keys.liveClaim.map StringKey.value ≠ some claimID then (keys, .ok 0)
  else ({ keys with claim := none }, .ok 1)

/-! ## Calls -/

/-- The value of an `int64` after an operation without a check. -/
def wrapInt64 (value : Int) : Int := value.bmod (2 ^ 64)

/-- The time to live that the proxy gives to leases and claims. -/
def readerLeaseTTL (readinessTimeout : Int) : Int :=
  max (3 * 10 ^ 9) (wrapInt64 (3 * readinessTimeout))

/-- The check of the identifiers of readers and claims. -/
def blankOrBroken (text : String) : Bool :=
  Migrate.trimSpace text.toList = [] || text.toList.any fun c => c ∈ ['\r', '\n', '\x00']

inductive ReaderError where
  | invalidReaderID
  | invalidReaderLeaseTTL
  | invalidOrphanClaimID
  | invalidOrphanClaimTTL
  | script (error : ScriptError)
  deriving DecidableEq, Repr

/-- `validateReaderLease`. -/
def validateReaderLease (readerID : String) (ttl : Int) : Option ReaderError :=
  if blankOrBroken readerID then some .invalidReaderID
  else if ttl ≤ 0 then some .invalidReaderLeaseTTL
  else none

/-- `validateOrphanClaim`. -/
def validateOrphanClaim (claimID : String) (ttl : Int) : Option ReaderError :=
  if blankOrBroken claimID then some .invalidOrphanClaimID
  else if ttl ≤ 0 then some .invalidOrphanClaimTTL
  else none

/-- A call whose check may fail runs its script once.  A retry is another run. -/
def checked (problem : Option ReaderError) (keys : ReaderKeys)
    (script : ReaderKeys × Except ScriptError Nat) : ReaderKeys × Except ReaderError Nat :=
  match problem with
  | some problem => (keys, .error problem)
  | none => (script.1, script.2.mapError .script)

inductive ReaderEvent where
  | acquireReader (readerID : String)
  | refreshReader (readerID : String)
  | releaseReader (readerID : String)
  | activeReaders
  | tryClaimOrphan (claimID : String)
  | releaseOrphanClaim (claimID : String)
  /-- the stream gets a terminal status -/
  | close (status : StreamStatus)
  | expireState
  | expireTombstone
  /-- milliseconds pass -/
  | tick (milliseconds : Nat)
  deriving DecidableEq, Repr

/-- The effect of an event, and the answer of a call, with one time to live for all callers. -/
def ReaderKeys.exec (ttl : Int) (keys : ReaderKeys) :
    ReaderEvent → Option (ReaderKeys × Except ReaderError Nat)
  | .acquireReader readerID =>
    some (checked (validateReaderLease readerID ttl) keys
      (redisAcquireReaderScript keys (durationMillis ttl) readerID
        (durationMillis (wrapInt64 (2 * ttl)))))
  | .refreshReader readerID =>
    some (checked (validateReaderLease readerID ttl) keys
      (redisRefreshReaderScript keys (durationMillis ttl) readerID
        (durationMillis (wrapInt64 (2 * ttl)))))
  | .releaseReader readerID =>
    -- `ReleaseReader` checks only for a blank
    if Migrate.trimSpace readerID.toList = [] then some (keys, .error .invalidReaderID)
    else
      some ({ keys with readers := (keys.readers.find keys.now).zrem readerID }, .ok 1)
  | .activeReaders => some (checked none keys (redisCountReadersScript keys))
  | .tryClaimOrphan claimID =>
    some (checked (validateOrphanClaim claimID ttl) keys
      (redisClaimOrphanScript keys claimID (durationMillis ttl)))
  | .releaseOrphanClaim claimID =>
    some (checked (if blankOrBroken claimID then some .invalidOrphanClaimID else none) keys
      (redisReleaseOrphanScript keys claimID))
  | .close status =>
    if keys.status = some .statusOpen ∧ status ≠ .statusOpen then
      some ({ keys with status := some status }, .ok 1)
    else none
  | .expireState => some ({ keys with status := none }, .ok 1)
  | .expireTombstone => some ({ keys with tombstone := false }, .ok 1)
  | .tick milliseconds => some ({ keys with now := keys.now + milliseconds }, .ok 1)

/-! ## What the callers hold -/

/-- The keys, with the leases that were granted and not released and the claims that were
granted and not released, each with its end. -/
structure Holders where
  keys : ReaderKeys
  leases : List (String × Int)
  claims : List (String × Int)
  deriving DecidableEq, Repr

def Holders.start (now : Int) : Holders := ⟨.start now, [], []⟩

/-- The entry of the name, and no other one under it. -/
def hold (name : String) (expiresAt : Int) (held : List (String × Int)) : List (String × Int) :=
  (name, expiresAt) :: held.filter fun entry => entry.1 ≠ name

def letGo (name : String) (held : List (String × Int)) : List (String × Int) :=
  held.filter fun entry => entry.1 ≠ name

def noteLeases (ttl now : Int) (leases : List (String × Int)) :
    ReaderEvent → Except ReaderError Nat → List (String × Int)
  | .acquireReader readerID, .ok 1 => hold readerID (now + durationMillis ttl) leases
  | .refreshReader readerID, .ok 1 => hold readerID (now + durationMillis ttl) leases
  | .releaseReader readerID, .ok _ => letGo readerID leases
  | _, _ => leases

def noteClaims (ttl now : Int) (claims : List (String × Int)) :
    ReaderEvent → Except ReaderError Nat → List (String × Int)
  | .tryClaimOrphan claimID, .ok 1 => hold claimID (now + durationMillis ttl) claims
  | .releaseOrphanClaim claimID, .ok 1 => letGo claimID claims
  | _, _ => claims

def Holders.step (ttl : Int) (holders : Holders) (event : ReaderEvent) : Option Holders :=
  (holders.keys.exec ttl event).map fun result =>
    { keys := result.1
      leases := noteLeases ttl holders.keys.now holders.leases event result.2
      claims := noteClaims ttl holders.keys.now holders.claims event result.2 }

/-! ## Steps -/

section Steps

variable {ttl : Int} {holders holders' : Holders} {event : ReaderEvent}

/-- Nothing is granted or given up: time may pass, the set may be pruned, and the stream may
end. -/
structure Holders.Idle (holders holders' : Holders) : Prop where
  leases : holders'.leases = holders.leases
  claims : holders'.claims = holders.claims
  claim : holders'.keys.claim = holders.keys.claim
  now : holders.keys.now ≤ holders'.keys.now
  readers : holders'.keys.readers = holders.keys.readers ∨
    holders'.keys.readers = holders.keys.pruned
  status : holders'.keys.status = some .statusOpen → holders.keys.status = some .statusOpen

/-- A claim is granted: it is repeated, or there is no claim and no reader. -/
structure Holders.Claims (ttl : Int) (holders : Holders) (claimID : String)
    (holders' : Holders) : Prop where
  status : holders.keys.status = some .statusOpen
  free : (∃ existing, holders.keys.liveClaim = some existing ∧ existing.value = claimID ∧
      holders'.keys.readers = holders.keys.readers) ∨
    holders.keys.liveClaim = none ∧ holders.keys.pruned.scores = [] ∧
      holders'.keys.readers = holders.keys.pruned
  claim : holders'.keys.claim = some ⟨claimID, holders.keys.now + durationMillis ttl⟩
  now : holders'.keys.now = holders.keys.now
  leases : holders'.leases = holders.leases
  claims : holders'.claims = hold claimID (holders.keys.now + durationMillis ttl) holders.claims

theorem durationMillis_pos {duration : Int} (h : 0 < duration) : 0 < durationMillis duration := by
  unfold durationMillis
  rw [Int.tdiv_eq_ediv_of_nonneg (by omega)]
  split <;> omega

theorem Holders.Idle.refl (holders : Holders) : holders.Idle holders :=
  ⟨rfl, rfl, rfl, le_refl _, .inl rfl, id⟩

theorem Holders.Idle.prune (holders : Holders) :
    holders.Idle { holders with keys := { holders.keys with readers := holders.keys.pruned } } :=
  ⟨rfl, rfl, rfl, le_refl _, .inr rfl, id⟩

/-- What a step can do. -/
inductive Holders.Step (ttl : Int) (holders : Holders) : ReaderEvent → Holders → Prop where
  /-- a lease is granted or renewed -/
  | lease {event : ReaderEvent} {readerID : String} (hfree : holders.keys.claimed = false) :
    Step ttl holders event ⟨holders.keys.lease (durationMillis ttl) readerID
        (durationMillis (wrapInt64 (2 * ttl))),
      hold readerID (holders.keys.now + durationMillis ttl) holders.leases, holders.claims⟩
  | release {readerID : String} :
    Step ttl holders (.releaseReader readerID) ⟨{ holders.keys with
        readers := (holders.keys.readers.find holders.keys.now).zrem readerID },
      letGo readerID holders.leases, holders.claims⟩
  | claim {claimID : String} {holders' : Holders}
      (hclaims : holders.Claims ttl claimID holders') :
    Step ttl holders (.tryClaimOrphan claimID) holders'
  | giveUp {claimID : String}
      (howner : holders.keys.liveClaim.map StringKey.value = some claimID) :
    Step ttl holders (.releaseOrphanClaim claimID) ⟨{ holders.keys with claim := none },
      holders.leases, letGo claimID holders.claims⟩
  | idle {event : ReaderEvent} {holders' : Holders} (hidle : holders.Idle holders') :
    Step ttl holders event holders'

/-- What `Holders.step` computes. -/
theorem Holders.step_spec (httl : 0 < ttl) (h : holders.step ttl event = some holders') :
    holders.Step ttl event holders' := by
  obtain ⟨⟨keys', reply⟩, hexec, rfl⟩ := Option.map_eq_some_iff.mp h
  cases event with
  | acquireReader readerID =>
    simp only [ReaderKeys.exec, checked, redisAcquireReaderScript, Option.some.injEq] at hexec
    split at hexec
    · cases hexec
      exact .idle (.refl holders)
    split at hexec
    · cases hexec
      exact .idle (.refl holders)
    split at hexec
    · cases hexec
      exact .idle (.refl holders)
    · rename_i hclaimed
      cases hexec
      exact .lease (by simpa using hclaimed)
  | refreshReader readerID =>
    simp only [ReaderKeys.exec, checked, redisRefreshReaderScript, Option.some.injEq] at hexec
    split at hexec
    · cases hexec
      exact .idle (.refl holders)
    split at hexec
    · cases hexec
      exact .idle (.refl holders)
    split at hexec
    · cases hexec
      exact .idle (.refl holders)
    rename_i hclaimed
    split at hexec
    · cases hexec
      exact .idle (.prune holders)
    · cases hexec
      exact .lease (by simpa using hclaimed)
  | releaseReader readerID =>
    simp only [ReaderKeys.exec] at hexec
    split at hexec
    · cases hexec
      exact .idle (.refl holders)
    · cases hexec
      exact .release
  | activeReaders =>
    simp only [ReaderKeys.exec, checked, Option.some.injEq, redisCountReadersScript] at hexec
    split at hexec
    · cases hexec
      exact .idle (.refl holders)
    · cases hexec
      exact .idle (.prune holders)
  | tryClaimOrphan claimID =>
    simp only [ReaderKeys.exec, checked, redisClaimOrphanScript, Option.some.injEq] at hexec
    split at hexec
    · cases hexec
      exact .idle (.refl holders)
    split at hexec
    · cases hexec
      exact .idle (.refl holders)
    split at hexec
    · cases hexec
      exact .idle (.refl holders)
    rename_i hopen
    cases hlive : holders.keys.liveClaim with
    | some existing =>
      simp only [hlive] at hexec
      split at hexec
      · rename_i hsame
        cases hexec
        refine .claim ⟨not_not.mp hopen, .inl ⟨existing, hlive, hsame, rfl⟩, ?_, rfl, rfl, rfl⟩
        have hpos := durationMillis_pos httl
        simp only [ReaderKeys.renewClaim]
        rw [if_neg (by omega), ← hsame]
      · cases hexec
        exact .idle (.refl holders)
    | none =>
      simp only [hlive] at hexec
      split at hexec
      · cases hexec
        exact .idle (.prune holders)
      · rename_i hcard
        cases hexec
        have hempty := List.length_eq_zero_iff.mp (not_not.mp hcard)
        exact .claim ⟨not_not.mp hopen, .inr ⟨hlive, hempty, rfl⟩, rfl, rfl, rfl, rfl⟩
  | releaseOrphanClaim claimID =>
    simp only [ReaderKeys.exec, checked, redisReleaseOrphanScript, Option.some.injEq] at hexec
    split at hexec
    · cases hexec
      exact .idle (.refl holders)
    split at hexec
    · cases hexec
      exact .idle (.refl holders)
    split at hexec
    · cases hexec
      exact .idle (.refl holders)
    · rename_i howner
      cases hexec
      exact .giveUp (not_not.mp howner)
  | close status =>
    simp only [ReaderKeys.exec] at hexec
    split at hexec
    · rename_i hclose
      cases hexec
      exact .idle ⟨rfl, rfl, rfl, le_refl _, .inl rfl, fun _ => hclose.1⟩
    · cases hexec
  | expireState =>
    cases hexec
    exact .idle ⟨rfl, rfl, rfl, le_refl _, .inl rfl, nofun⟩
  | expireTombstone =>
    cases hexec
    exact .idle ⟨rfl, rfl, rfl, le_refl _, .inl rfl, id⟩
  | tick milliseconds =>
    cases hexec
    exact .idle ⟨rfl, rfl, rfl, by dsimp only; omega, .inl rfl, id⟩

/-! ## Leases -/

/-- A lease is stored as long as it runs, and the key does not expire before it. -/
def ReaderKeys.Stores (keys : ReaderKeys) (lease : String × Int) : Prop :=
  keys.now < lease.2 → lease ∈ keys.readers.scores ∧
    ∀ expiresAt ∈ keys.readers.expiresAt, lease.2 ≤ expiresAt

theorem ReaderSet.keep_of_mem {p : String × Int → Bool} {set : ReaderSet} {entry : String × Int}
    (hmem : entry ∈ set.scores) (hp : p entry = true) :
    set.keep p = { set with scores := set.scores.filter p } := by
  have hkept : entry ∈ set.scores.filter p := List.mem_filter.mpr ⟨hmem, hp⟩
  rw [ReaderSet.keep, if_neg (List.ne_nil_of_mem hkept)]

namespace ReaderKeys.Stores

variable {keys : ReaderKeys} {lease : String × Int}

/-- The key of a lease that runs is there. -/
theorem find (h : keys.Stores lease) (hruns : keys.now < lease.2) :
    keys.readers.find keys.now = keys.readers := by
  rw [ReaderSet.find, if_neg]
  intro hexpired
  obtain ⟨expiresAt, hsome, hpast⟩ := (Option.any_eq_true _ _).mp hexpired
  have hle := (h hruns).2 expiresAt hsome
  have hlt : expiresAt < keys.now := by simpa using hpast
  omega

/-- Pruning keeps the leases that run. -/
theorem pruned (h : keys.Stores lease) (hruns : keys.now < lease.2) :
    keys.pruned = { keys.readers with
      scores := keys.readers.scores.filter fun entry => keys.now < entry.2 } := by
  rw [ReaderKeys.pruned, h.find hruns]
  exact ReaderSet.keep_of_mem (h hruns).1 (by simpa using hruns)

theorem mem_pruned (h : keys.Stores lease) (hruns : keys.now < lease.2) :
    lease ∈ keys.pruned.scores := by
  rw [h.pruned hruns]
  exact List.mem_filter.mpr ⟨(h hruns).1, by simpa using hruns⟩

/-- The lease is stored after time has passed, also if the set was pruned. -/
theorem later (h : keys.Stores lease) {keys' : ReaderKeys} (hnow : keys.now ≤ keys'.now)
    (hreaders : keys'.readers = keys.readers ∨ keys'.readers = keys.pruned) :
    keys'.Stores lease := by
  intro hruns
  have hran : keys.now < lease.2 := by omega
  rcases hreaders with hsame | hpruned
  · rw [hsame]
    exact h hran
  · rw [hpruned]
    refine ⟨h.mem_pruned hran, ?_⟩
    rw [h.pruned hran]
    exact (h hran).2

end ReaderKeys.Stores

/-- The leases are stored, and none runs while the stream is open and claimed. -/
structure Holders.LeasesKept (ttl : Int) (holders : Holders) : Prop where
  bounded : ∀ lease ∈ holders.leases, lease.2 ≤ holders.keys.now + durationMillis ttl
  stored : ∀ lease ∈ holders.leases, holders.keys.Stores lease
  excluded : holders.keys.claimed = true → ∀ lease ∈ holders.leases, lease.2 ≤ holders.keys.now

theorem wrapInt64_of_fits {value : Int} (hpos : 0 ≤ value) (hfits : value < 2 ^ 63) :
    wrapInt64 value = value := by
  unfold wrapInt64
  exact Int.bmod_eq_of_le (by omega) (by omega)

/-- The life time of the key covers a lease, if twice the time to live is a duration. -/
theorem lease_le_expiry (httl : 0 < ttl) (hfits : 2 * ttl < 2 ^ 63) :
    durationMillis ttl ≤ durationMillis (wrapInt64 (2 * ttl)) := by
  rw [wrapInt64_of_fits (by omega) hfits]
  exact durationMillis_mono httl (by omega)

theorem mem_hold {name : String} {expiresAt : Int} {held : List (String × Int)}
    {entry : String × Int} : entry ∈ hold name expiresAt held ↔
      entry = (name, expiresAt) ∨ entry ∈ held ∧ entry.1 ≠ name := by
  simp [hold]

theorem mem_letGo {name : String} {held : List (String × Int)} {entry : String × Int} :
    entry ∈ letGo name held ↔ entry ∈ held ∧ entry.1 ≠ name := by
  simp [letGo]

theorem ReaderKeys.claimed_iff {keys : ReaderKeys} : keys.claimed = true ↔
    keys.status = some .statusOpen ∧ ∃ claim, keys.claim = some claim ∧
      keys.now ≤ claim.expiresAt := by
  simp [ReaderKeys.claimed, ReaderKeys.liveClaim, Option.isSome_filter, Option.any_eq_true]

/-- A lease that is granted is stored, with those that run already. -/
theorem Holders.LeasesKept.lease (h : holders.LeasesKept ttl) (httl : 0 < ttl)
    (hfits : 2 * ttl < 2 ^ 63) (hfree : holders.keys.claimed = false) (readerID : String) :
    Holders.LeasesKept ttl ⟨holders.keys.lease (durationMillis ttl) readerID
        (durationMillis (wrapInt64 (2 * ttl))),
      hold readerID (holders.keys.now + durationMillis ttl) holders.leases, holders.claims⟩ := by
  have hcovers := lease_le_expiry httl hfits
  have hpositive := durationMillis_pos httl
  have hreaders : (holders.keys.lease (durationMillis ttl) readerID
      (durationMillis (wrapInt64 (2 * ttl)))).readers =
      ⟨(readerID, holders.keys.now + durationMillis ttl) ::
          holders.keys.pruned.scores.filter fun entry => entry.1 ≠ readerID,
        some (holders.keys.now + durationMillis (wrapInt64 (2 * ttl)))⟩ := by
    simp only [ReaderKeys.lease, ReaderSet.pexpire, ReaderSet.zadd]
    rw [if_neg (by omega)]
  constructor
  · intro entry hentry
    rcases mem_hold.mp hentry with rfl | ⟨hold, -⟩
    · exact le_refl _
    · exact h.bounded entry hold
  · intro entry hentry hruns
    rw [hreaders]
    rcases mem_hold.mp hentry with rfl | ⟨hold, hother⟩
    · refine ⟨List.mem_cons_self, ?_⟩
      rintro expiresAt ⟨rfl⟩
      dsimp only
      omega
    · have hmem := (h.stored entry hold).mem_pruned hruns
      have hbound := h.bounded entry hold
      refine ⟨List.mem_cons_of_mem _ (List.mem_filter.mpr ⟨hmem, by simpa using hother⟩), ?_⟩
      rintro expiresAt ⟨rfl⟩
      omega
  · intro hclaimed
    have hsame : holders.keys.claimed = true := hclaimed
    rw [hfree] at hsame
    cases hsame

theorem Holders.LeasesKept.step (httl : 0 < ttl) (hfits : 2 * ttl < 2 ^ 63)
    (h : holders.LeasesKept ttl) (hstep : holders.Step ttl event holders') :
    holders'.LeasesKept ttl := by
  cases hstep with
  | lease hfree => exact h.lease httl hfits hfree _
  | release =>
    refine ⟨fun lease hlease => h.bounded lease (mem_letGo.mp hlease).1, ?_,
      fun hclaimed lease hlease => h.excluded hclaimed lease (mem_letGo.mp hlease).1⟩
    intro lease hlease hruns
    obtain ⟨hold, hother⟩ := mem_letGo.mp hlease
    have hstored := h.stored lease hold
    obtain ⟨hmem, hexpires⟩ := hstored hruns
    dsimp only [ReaderSet.zrem]
    rw [hstored.find hruns, ReaderSet.keep_of_mem hmem (by simpa using hother)]
    exact ⟨List.mem_filter.mpr ⟨hmem, by simpa using hother⟩, hexpires⟩
  | claim hclaims =>
    -- it was there already, or the pruned set is empty
    obtain ⟨hstatus, hfree, -, hnow, hleases, -⟩ := hclaims
    have hreaders : holders'.keys.readers = holders.keys.readers ∨
        holders'.keys.readers = holders.keys.pruned := by
      rcases hfree with ⟨_, -, -, hsame⟩ | ⟨-, -, hpruned⟩
      · exact .inl hsame
      · exact .inr hpruned
    refine ⟨hleases ▸ hnow ▸ h.bounded, fun lease hlease => ?_, fun _ lease hlease => ?_⟩
    · exact (h.stored lease (hleases ▸ hlease)).later (le_of_eq hnow.symm) hreaders
    · rw [hleases] at hlease
      rw [hnow]
      rcases hfree with ⟨existing, hlive, -, -⟩ | ⟨-, hnone, -⟩
      · refine h.excluded ?_ lease hlease
        simp [ReaderKeys.claimed, hstatus, hlive]
      · by_contra hruns
        have hmem := (h.stored lease hlease).mem_pruned (Int.not_le.mp hruns)
        rw [hnone] at hmem
        cases hmem
  | giveUp =>
    refine ⟨h.bounded, h.stored, fun hclaimed => ?_⟩
    obtain ⟨-, claim, hsome, -⟩ := ReaderKeys.claimed_iff.mp hclaimed
    cases hsome
  | idle hidle =>
    have hnow := hidle.now
    refine ⟨fun lease hlease => ?_, fun lease hlease => ?_, fun hclaimed lease hlease => ?_⟩
    · have hbound := h.bounded lease (hidle.leases ▸ hlease)
      omega
    · exact (h.stored lease (hidle.leases ▸ hlease)).later hnow hidle.readers
    · obtain ⟨hopen, claim, hsome, hlive⟩ := ReaderKeys.claimed_iff.mp hclaimed
      have hbefore : holders.keys.claimed = true :=
        ReaderKeys.claimed_iff.mpr ⟨hidle.status hopen, claim, hidle.claim ▸ hsome, by omega⟩
      have hended := h.excluded hbefore lease (hidle.leases ▸ hlease)
      omega

/-! ## Claims -/

/-- A claim that runs is the one that is stored. -/
def Holders.ClaimsKept (holders : Holders) : Prop :=
  ∀ claim ∈ holders.claims, holders.keys.now ≤ claim.2 →
    holders.keys.claim = some ⟨claim.1, claim.2⟩

theorem Holders.ClaimsKept.live (h : holders.ClaimsKept) {claim : String × Int}
    (hmem : claim ∈ holders.claims) (hruns : holders.keys.now ≤ claim.2) :
    holders.keys.liveClaim = some ⟨claim.1, claim.2⟩ := by
  rw [ReaderKeys.liveClaim, h claim hmem hruns, Option.filter_eq_some_iff]
  exact ⟨rfl, by simpa using hruns⟩

theorem Holders.ClaimsKept.step (h : holders.ClaimsKept)
    (hstep : holders.Step ttl event holders') : holders'.ClaimsKept := by
  cases hstep with
  | lease | release => exact h
  | claim hclaims =>
    obtain ⟨-, hfree, hclaim, hnow, -, hheld⟩ := hclaims
    intro claim hmem hruns
    rw [hheld] at hmem
    rw [hclaim]
    rcases mem_hold.mp hmem with rfl | ⟨hold, hother⟩
    · rfl
    · -- a claim of another owner would have been found
      exfalso
      have hlive := h.live hold (hnow ▸ hruns)
      rcases hfree with ⟨existing, hexisting, hvalue, -⟩ | ⟨hnone, -, -⟩
      · rw [hlive, Option.some.injEq] at hexisting
        exact hother (by rw [← hvalue, ← hexisting])
      · rw [hlive] at hnone
        cases hnone
  | giveUp howner =>
    intro claim hmem hruns
    obtain ⟨hold, hother⟩ := mem_letGo.mp hmem
    exfalso
    rw [h.live hold hruns] at howner
    exact hother (Option.some.inj howner)
  | idle hidle =>
    intro claim hmem hruns
    rw [hidle.claims] at hmem
    rw [hidle.claim]
    exact h claim hmem (le_trans hidle.now hruns)

/-! ## Runs -/

/-- Leases and claims exclude each other, as do the claims among themselves, and the release of
a claim leaves the claim of another owner alone. -/
structure Holders.Exclusive (ttl : Int) (holders : Holders) : Prop where
  apart : holders.keys.status = some .statusOpen → holders.keys.liveClaim ≠ none →
    ∀ lease ∈ holders.leases, lease.2 ≤ holders.keys.now
  single : ∀ claim ∈ holders.claims, ∀ other ∈ holders.claims, holders.keys.now ≤ claim.2 →
    holders.keys.now ≤ other.2 → claim.1 = other.1
  owned : ∀ claimID owner holders', holders.keys.liveClaim = some owner → owner.value ≠ claimID →
    holders.step ttl (.releaseOrphanClaim claimID) = some holders' →
    holders'.keys.claim = holders.keys.claim

/-- The script that releases a claim looks at the owner first. -/
theorem Holders.release_owned {claimID : String} {owner : StringKey}
    (howner : holders.keys.liveClaim = some owner) (hother : owner.value ≠ claimID)
    (hstep : holders.step ttl (.releaseOrphanClaim claimID) = some holders') :
    holders'.keys.claim = holders.keys.claim := by
  obtain ⟨⟨keys', reply⟩, hexec, rfl⟩ := Option.map_eq_some_iff.mp hstep
  simp only [ReaderKeys.exec, checked, Option.some.injEq] at hexec
  split at hexec
  · cases hexec
    rfl
  · simp only [redisReleaseOrphanScript, howner, Option.map_some] at hexec
    split at hexec
    · cases hexec
      rfl
    · rw [if_pos (by simpa using hother)] at hexec
      cases hexec
      rfl

theorem Holders.exclusive_of_run (httl : 0 < ttl) (hfits : 2 * ttl < 2 ^ 63) {now : Int}
    {events : List ReaderEvent}
    (hrun : run (Holders.step ttl) (.start now) events = some holders) :
    holders.Exclusive ttl := by
  have hleases : holders.LeasesKept ttl := by
    refine inv_of_run (fun _ _ _ h hstep => h.step httl hfits (Holders.step_spec httl hstep)) ?_ hrun
    exact ⟨by simp [Holders.start], by simp [Holders.start], by simp [Holders.start]⟩
  have hclaims : holders.ClaimsKept := by
    refine inv_of_run (fun _ _ _ h hstep => h.step (Holders.step_spec httl hstep)) ?_ hrun
    simp [Holders.ClaimsKept, Holders.start]
  refine ⟨fun hopen hlive => hleases.excluded ?_, fun claim hclaim other hother hruns hruns' => ?_,
    fun claimID owner holders' howner hother hstep => Holders.release_owned howner hother hstep⟩
  · obtain ⟨claim, hclaim⟩ := Option.ne_none_iff_exists'.mp hlive
    simp [ReaderKeys.claimed, hopen, hclaim]
  · have hsame := (hclaims claim hclaim hruns).symm.trans (hclaims other hother hruns')
    simp only [Option.some.injEq, StringKey.mk.injEq] at hsame
    exact hsame.1

/-- Twice a time to live of more than half the durations is negative, and the key does not
outlive the next millisecond. -/
theorem expiry_le_one (hint : ttl < 2 ^ 63) (hlong : 2 ^ 63 ≤ 2 * ttl) :
    durationMillis (wrapInt64 (2 * ttl)) ≤ 1 := by
  have hwrap : wrapInt64 (2 * ttl) = 2 * ttl - 2 ^ 64 := by
    unfold wrapInt64
    have hshift : (2 * ttl).bmod (2 ^ 64) = (2 * ttl - 2 ^ 64).bmod (2 ^ 64) := by
      rw [show (2 * ttl - 2 ^ 64 : Int) = 2 * ttl - ((2 ^ 64 : Nat) : Int) by norm_num,
        Int.sub_bmod_right]
    rw [hshift]
    exact Int.bmod_eq_of_le (by omega) (by omega)
  rw [hwrap, durationMillis]
  split
  · omega
  · have hquotient : 0 ≤ (2 ^ 64 - 2 * ttl).tdiv 1000000 :=
      Int.tdiv_nonneg (by omega) (by omega)
    have hneg : (2 * ttl - 2 ^ 64).tdiv 1000000 = -(2 ^ 64 - 2 * ttl).tdiv 1000000 := by
      rw [← Int.neg_tdiv, Int.neg_sub]
    omega

/-- A lease that is granted, two milliseconds, and a claim: with such a time to live the claim
is granted beside the lease. -/
theorem lease_lost (hint : ttl < 2 ^ 63) (hlong : 2 ^ 63 ≤ 2 * ttl) :
    run (Holders.step ttl) (.start 0) [.acquireReader "r", .tick 2, .tryClaimOrphan "c"] =
      some ⟨{ ReaderKeys.start 2 with claim := some ⟨"c", 2 + durationMillis ttl⟩ },
        [("r", durationMillis ttl)], [("c", 2 + durationMillis ttl)]⟩ := by
  have httl : 0 < ttl := by omega
  have hvalidReader : validateReaderLease "r" ttl = none := by
    rw [validateReaderLease, if_neg (by decide), if_neg (by omega)]
  have hvalidClaim : validateOrphanClaim "c" ttl = none := by
    rw [validateOrphanClaim, if_neg (by decide), if_neg (by omega)]
  have hexpiry := expiry_le_one hint hlong
  have hacquire : Holders.step ttl (.start 0) (.acquireReader "r") =
      some ⟨{ ReaderKeys.start 0 with
          readers := ReaderSet.pexpire 0 (durationMillis (wrapInt64 (2 * ttl)))
            ⟨[("r", durationMillis ttl)], none⟩ },
        [("r", durationMillis ttl)], []⟩ := by
    simp [Holders.step, ReaderKeys.exec, Holders.start, checked, hvalidReader,
      redisAcquireReaderScript, ReaderKeys.start, ReaderKeys.claimed, ReaderKeys.liveClaim,
      ReaderKeys.lease, ReaderKeys.pruned, ReaderSet.find, ReaderSet.empty, ReaderSet.zadd,
      ReaderSet.zremrangebyscore, ReaderSet.keep, noteLeases, noteClaims, hold, Except.mapError]
  have hgone : (ReaderSet.pexpire 0 (durationMillis (wrapInt64 (2 * ttl)))
      ⟨[("r", durationMillis ttl)], none⟩).find 2 = .empty := by
    rw [ReaderSet.pexpire]
    split
    · rfl
    · rw [ReaderSet.find, if_pos]
      simp only [Option.any_some, decide_eq_true_eq]
      omega
  have hclaim : Holders.step ttl
      ⟨{ ReaderKeys.start 2 with
          readers := ReaderSet.pexpire 0 (durationMillis (wrapInt64 (2 * ttl)))
            ⟨[("r", durationMillis ttl)], none⟩ },
        [("r", durationMillis ttl)], []⟩ (.tryClaimOrphan "c") =
      some ⟨{ ReaderKeys.start 2 with claim := some ⟨"c", 2 + durationMillis ttl⟩ },
        [("r", durationMillis ttl)], [("c", 2 + durationMillis ttl)]⟩ := by
    simp [Holders.step, ReaderKeys.exec, checked, hvalidClaim, redisClaimOrphanScript,
      ReaderKeys.start, ReaderKeys.liveClaim, ReaderKeys.pruned, hgone, ReaderSet.empty,
      ReaderSet.zremrangebyscore, ReaderSet.keep, noteLeases, noteClaims, hold, Except.mapError]
  simp only [run, hacquire, Option.bind_some]
  exact hclaim

/-- Leases and claims exclude each other in every run if, and only if, twice the common time to
live is a duration. -/
theorem claims_exclude_readers_iff (httl : 0 < ttl) (hint : ttl < 2 ^ 63) :
    (∀ now events holders, run (Holders.step ttl) (.start now) events = some holders →
      holders.Exclusive ttl) ↔ 2 * ttl < 2 ^ 63 := by
  constructor
  · intro hexclusive
    by_contra hlong
    have hrun := lease_lost hint (Int.not_lt.mp hlong)
    have hended := (hexclusive 0 _ _ hrun).apart rfl
      (by simp [ReaderKeys.liveClaim, ReaderKeys.start, (durationMillis_pos httl).le])
      ("r", durationMillis ttl) (by simp)
    have hshort : durationMillis ttl ≤ 2 := hended
    have hmono := durationMillis_mono (show (0 : Int) < 3 * 10 ^ 6 by norm_num)
      (show 3 * 10 ^ 6 ≤ ttl by omega)
    have hthree : durationMillis (3 * 10 ^ 6) = 3 := by decide
    omega
  · intro hfits now events holders hrun
    exact Holders.exclusive_of_run httl hfits hrun

/-- With the default settings the time to live is six seconds. -/
theorem claims_exclude_readers_iff_default :
    readerLeaseTTL (2 * 10 ^ 9) = 6 * 10 ^ 9 ∧
      ∀ now events holders,
        run (Holders.step (readerLeaseTTL (2 * 10 ^ 9))) (.start now) events = some holders →
          holders.Exclusive (readerLeaseTTL (2 * 10 ^ 9)) :=
  ⟨by decide, (claims_exclude_readers_iff (by decide) (by decide)).mpr (by decide)⟩

/-- A readiness timeout of about 63 years passes the checks of the settings.  A reader gets a
lease of about 190 years, and two milliseconds later a claim is granted beside it. -/
theorem lease_lost_to_overflow :
    ∃ holders, run (Holders.step (readerLeaseTTL (2 * 10 ^ 18))) (.start 0)
        [.acquireReader "r", .tick 2, .tryClaimOrphan "c"] = some holders ∧
      holders.keys.status = some .statusOpen ∧
      holders.keys.liveClaim = some ⟨"c", 2 + 6 * 10 ^ 12⟩ ∧
      holders.leases = [("r", 6 * 10 ^ 12)] ∧ holders.keys.now = 2 := by
  refine ⟨⟨{ ReaderKeys.start 2 with claim := some ⟨"c", 2 + 6 * 10 ^ 12⟩ },
    [("r", 6 * 10 ^ 12)], [("c", 2 + 6 * 10 ^ 12)]⟩, ?_, rfl, ?_, rfl, rfl⟩
  · decide +kernel
  · decide

end Steps

end Streamweld.Redis
