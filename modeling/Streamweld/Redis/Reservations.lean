import Streamweld.Redis.Client
import Streamweld.Redis.Idempotency

/-!
# Pending reservations

A key is reserved for a new stream by a value that expires soon, so that a creator that
crashes before `Open` blocks the key for a short time only; `Open` promotes the
reservation to a mapping with the retention of the journal.

* `pending_reservation_expires_soon`: the life time of a reservation.  Besides the
  operations on reservations, `Refresh` and the mutations of a stream renew the digest
  key, and they do not look at its value: a runtime whose mapping has expired renews
  the reservation of another stream (`reservation_with_retention`).
-/

namespace Streamweld.Redis

open Streamweld.Journal Streamweld.Lib

/-! ## Calls -/

/-- Five seconds, in nanoseconds. -/
def defaultRedisPendingTTL : Int := 5 * 10 ^ 9

def redisPendingTTL (ttl : Int) : Int :=
  if ttl < defaultRedisPendingTTL then ttl else defaultRedisPendingTTL

theorem durationMillis_mono {a b : Int} (ha : 0 < a) (h : a ≤ b) :
    durationMillis a ≤ durationMillis b := by
  unfold durationMillis
  rw [Int.tdiv_eq_ediv_of_nonneg (by omega), Int.tdiv_eq_ediv_of_nonneg (by omega)]
  split <;> split <;> omega

theorem redisPendingTTL_mono {a b : Int} (h : a ≤ b) : redisPendingTTL a ≤ redisPendingTTL b := by
  unfold redisPendingTTL
  split <;> split <;> omega

theorem redisPendingTTL_pos {ttl : Int} (h : 0 < ttl) : 0 < redisPendingTTL ttl := by
  unfold redisPendingTTL
  split
  · exact h
  · decide

/-- A call of a replica that reaches the server, or the expiry of a key.  Durations are
nanoseconds. -/
inductive RedisCall where
  | resolveOrCreate (digest : IdempotencyDigest) (newID : StreamID) (ttl : Int) (nonce : Nonce)
  | refreshPending (digest : IdempotencyDigest) (id : StreamID) (ttl : Int)
  | releasePending (digest : IdempotencyDigest) (id : StreamID)
  | removeIfBound (digest : IdempotencyDigest) (id : StreamID)
  | refresh (digest : IdempotencyDigest) (ttl : Int)
  | openStream (id : StreamID) (metadata : Meta) (now retentionTTL : Int) (nonce : Nonce)
  /-- `Append`, `Close` or `MarkDegraded` -/
  | mutate (id : StreamID) (nonce : Nonce) (invocation : Invocation) (now : Int)
  | touch (id : StreamID)
  | expire (expiry : Expiry)
  deriving DecidableEq, Repr

/-- The script that a call runs.  The methods of the registry refuse a life time that is
not positive (`validateIdempotencyTTL`). -/
def RedisCall.event (clock : Int) : RedisCall → Option IdempotencyEvent
  | .resolveOrCreate digest newID ttl nonce =>
    if 0 < ttl then
      some (.resolve digest newID (durationMillis (redisPendingTTL ttl)) nonce clock)
    else none
  | .refreshPending digest id ttl =>
    if 0 < ttl then
      some (.refreshPending digest id (durationMillis (redisPendingTTL ttl)) clock)
    else none
  | .releasePending digest id => some (.releasePending digest id)
  | .removeIfBound digest id => some (.removeIfBound digest id)
  | .refresh digest ttl =>
    if 0 < ttl then some (.refresh digest (durationMillis ttl) clock) else none
  | .openStream id metadata now retentionTTL nonce =>
    some (.openStream id metadata now (durationMillis retentionTTL) nonce clock)
  | .mutate id nonce invocation now => some (.mutate id nonce invocation now clock)
  | .touch id => some (.touch id clock)
  | .expire expiry => some (.expire expiry)

/-- The database and the clock of the server, in milliseconds. -/
structure Registry where
  db : Database
  now : Int

/-- A call is executed at a time. -/
structure TimedCall where
  clock : Int
  call : RedisCall
  deriving DecidableEq, Repr

/-- One step; the clock does not go back. -/
def Registry.step (keyPrefix : String) (s : Registry) (timed : TimedCall) : Option Registry :=
  if s.now ≤ timed.clock then
    match timed.call.event timed.clock with
    | some event => some ⟨s.db.step keyPrefix event, timed.clock⟩
    | none => some { s with now := timed.clock }
  else none

/-! ## What a script does to a digest key -/

/-- The value is a pending reservation. -/
def isPending (value : String) : Bool := ['p', '|'].isPrefixOf value.toList

theorem isPending_promoted (id : StreamID) : isPending ("r|" ++ id) = false := by
  unfold isPending
  rw [String.toList_append]
  rfl

/-- The life time that an event gives to a reservation. -/
def IdempotencyEvent.reserves : IdempotencyEvent → Option Int
  | .resolve _ _ ttl _ clock | .refreshPending _ _ ttl clock => some (clock + ttl)
  | _ => none

/-- The string key that an event renews for the retention of the journal: the digest of a
`Refresh`, and the digest that a stream was promoted under for the operations that
renew the stream. -/
def IdempotencyEvent.renews (keyPrefix : String) (db : Database) :
    IdempotencyEvent → Option String
  | .refresh digest _ _ => some (idempotencyKey keyPrefix digest)
  | .openStream id _ _ _ nonce _ =>
    (db.streams id).state.bind fun state =>
      if state.openOpNonce = nonce ∧ (db.streams id).events.isSome then state.idempotencyKey
      else none
  | .mutate id nonce invocation now _ =>
    let keys := db.streams id
    if renewsIdempotency keys nonce (invocation.script nonce now keys).2 then
      keys.state.bind (·.idempotencyKey)
    else none
  | .touch id _ =>
    (db.streams id).state.bind fun state =>
      if state.status = .statusOpen ∧ (db.streams id).events.isSome then state.idempotencyKey
      else none
  | _ => none

theorem pexpire_apply (strings : String → Option StringKey) (key other : String)
    (expiresAt : Int) :
    pexpire strings key expiresAt other =
      if other = key then (strings other).map fun stored => { stored with expiresAt := expiresAt }
      else strings other := by
  unfold pexpire
  by_cases hkey : other = key
  · subst hkey
    cases hstored : strings other with
    | none => simp [hstored]
    | some stored => simp
  · rw [if_neg hkey]
    cases strings key with
    | none => rfl
    | some stored => exact Function.update_of_ne hkey ..

/-- How an event leaves a string key. -/
inductive KeyEffect (before after : Option StringKey) (reserves : Option Int) (renewed : Prop)
    (promotes : StreamID → Prop) : Prop where
  | kept (h : after = before)
  | gone (h : after = none)
  | promoted {id expiresAt} (h : after = some ⟨"r|" ++ id, expiresAt⟩) (hid : promotes id)
  | reserved {value expiresAt} (h : after = some ⟨value, expiresAt⟩)
      (htime : reserves = some expiresAt)
      (hvalue : before.map (·.value) = some value ∨ isPending value = true)
  | renewed {stored expiresAt} (hrenewed : renewed) (hbefore : before = some stored)
      (h : after = some { stored with expiresAt := expiresAt })

/-- The key is as before, or expires at another time. -/
def Prolonged (before after : Option StringKey) (expiresAt : Int) : Prop :=
  after = before ∨
    ∃ stored, before = some stored ∧ after = some { stored with expiresAt := expiresAt }

section Effects

variable {strings strings' : String → Option StringKey} {key other : String} {expiresAt : Int}
  {reserves : Option Int} {renewed : Prop} {promotes : StreamID → Prop}

theorem Prolonged.pexpire (h : Prolonged (strings key) (strings' key) expiresAt) :
    Prolonged (strings key) (pexpire strings' other expiresAt key) expiresAt := by
  rw [pexpire_apply]
  by_cases hkey : key = other
  · rw [if_pos hkey]
    rcases h with hsame | ⟨stored, hbefore, hafter⟩
    · cases hstored : strings key with
      | none => exact .inl (by rw [hsame, hstored]; rfl)
      | some stored => exact .inr ⟨stored, rfl, by rw [hsame, hstored]; rfl⟩
    · exact .inr ⟨stored, hbefore, by rw [hafter]; rfl⟩
  · rw [if_neg hkey]
    exact h

/-- A reservation is prolonged. -/
theorem KeyEffect.of_prolonged (h : Prolonged (strings key) (strings' key) expiresAt) :
    KeyEffect (strings key) (strings' key) (some expiresAt) renewed promotes := by
  rcases h with hsame | ⟨stored, hbefore, hafter⟩
  · exact .kept hsame
  · exact .reserved hafter rfl (.inl (by rw [hbefore]; rfl))

theorem KeyEffect.delString :
    KeyEffect (strings key) (delString strings other key) reserves renewed promotes := by
  by_cases hkey : key = other
  · exact .gone (by rw [hkey]; exact Function.update_self ..)
  · exact .kept (Function.update_of_ne hkey ..)

/-- The key of a stream is renewed. -/
theorem KeyEffect.pexpire_renewed (hrenewed : key = other → renewed) :
    KeyEffect (strings key) (pexpire strings other expiresAt key) reserves renewed promotes := by
  rw [pexpire_apply]
  by_cases hkey : key = other
  · rw [if_pos hkey]
    cases hstored : strings key with
    | none => exact .kept rfl
    | some stored => exact .renewed (hrenewed hkey) rfl rfl
  · rw [if_neg hkey]
    exact .kept rfl

end Effects

/-- The event opens the stream and promotes its reservation under the key. -/
def IdempotencyEvent.Promotes (keyPrefix : String) (db : Database) (key : String)
    (event : IdempotencyEvent) (id : StreamID) : Prop :=
  ∃ metadata now ttl nonce clock, event = .openStream id metadata now ttl nonce clock ∧
    (redisOpenScript db (openArgs keyPrefix id metadata now ttl nonce) clock).2 = .ok () ∧
    promotable db (openArgs keyPrefix id metadata now ttl nonce) = some key

/-- What the open script does to a digest key. -/
theorem redisOpenScript_digestKey (keyPrefix : String) (db : Database) (args : OpenArgs)
    (clock : Int) (digest : IdempotencyDigest) {other : StreamID}
    (hassociation : args.association = idempotencyAssociationKey keyPrefix other) :
    KeyEffect (db.strings (idempotencyKey keyPrefix digest))
      ((redisOpenScript db args clock).1.strings (idempotencyKey keyPrefix digest)) none
      (((db.streams args.id).state.bind fun state =>
        if state.openOpNonce = args.nonce ∧ (db.streams args.id).events.isSome then
          state.idempotencyKey
        else none) = some (idempotencyKey keyPrefix digest))
      (fun id => args.id = id ∧ (redisOpenScript db args clock).2 = .ok () ∧
        promotable db args = some (idempotencyKey keyPrefix digest)) := by
  unfold redisOpenScript
  dsimp only
  split
  · rename_i state hstate
    rw [hstate]
    split
    · rename_i hnonce
      split
      · exact .kept rfl
      · rename_i hevents
        cases hbound : state.idempotencyKey with
        | some bound =>
          refine .pexpire_renewed fun hkey => ?_
          have hsome : (db.streams args.id).events.isSome = true := by
            simpa [Option.isSome_iff_ne_none] using hevents
          rw [Option.bind_some, if_pos ⟨hnonce, hsome⟩, hbound, hkey]
        | none => exact .kept rfl
    · exact .kept rfl
  · split
    · exact .kept rfl
    · split
      · exact .kept rfl
      · -- The association is deleted, and it is no digest key.
        have hdelete : ∀ strings : String → Option StringKey,
            delString strings args.association (idempotencyKey keyPrefix digest) =
              strings (idempotencyKey keyPrefix digest) := by
          intro strings
          rw [hassociation]
          exact Function.update_of_ne (idempotencyKey_ne_association digest other) ..
        dsimp only
        rw [hdelete]
        cases hpromotes : promotable db args with
        | some bound =>
          by_cases hkey : idempotencyKey keyPrefix digest = bound
          · subst hkey
            exact .promoted (Function.update_self ..) ⟨rfl, rfl, rfl⟩
          · exact .kept (Function.update_of_ne hkey ..)
        | none => exact .kept rfl

/-- What an event does to a digest key. -/
theorem Database.step_digestKey (keyPrefix : String) (db : Database) (event : IdempotencyEvent)
    (digest : IdempotencyDigest) :
    KeyEffect (db.strings (idempotencyKey keyPrefix digest))
      ((db.step keyPrefix event).strings (idempotencyKey keyPrefix digest)) event.reserves
      (event.renews keyPrefix db = some (idempotencyKey keyPrefix digest))
      (event.Promotes keyPrefix db (idempotencyKey keyPrefix digest)) := by
  have hne (other : StreamID) : idempotencyKey keyPrefix digest ≠
      idempotencyAssociationKey keyPrefix other := idempotencyKey_ne_association digest other
  cases event with
  | resolve digest' newID ttl nonce clock =>
    simp only [Database.step, redisResolveIdempotencyScript, IdempotencyEvent.reserves]
    split
    · split
      · exact .kept rfl
      · split
        · rename_i binding _ _
          cases binding.association with
          | some bound =>
            dsimp only
            split
            · exact .of_prolonged (.pexpire (.pexpire (.inl rfl)))
            · exact .of_prolonged (.pexpire (.inl rfl))
          | none => exact .of_prolonged (.pexpire (.inl rfl))
        · exact .kept rfl
    · dsimp only
      rw [setString, Function.update_of_ne (hne newID), setString]
      by_cases hdigest : idempotencyKey keyPrefix digest = idempotencyKey keyPrefix digest'
      · rw [hdigest, Function.update_self]
        refine .reserved rfl rfl (.inr ?_)
        simp [isPending, String.toList_append]
      · exact .kept (Function.update_of_ne hdigest ..)
  | refreshPending digest' id ttl clock =>
    simp only [Database.step, redisRefreshPendingIdempotencyScript, IdempotencyEvent.reserves]
    split
    · exact .of_prolonged (.pexpire (.pexpire (.inl rfl)))
    · exact .kept rfl
  | openStream id metadata now ttl nonce clock =>
    cases redisOpenScript_digestKey keyPrefix db (openArgs keyPrefix id metadata now ttl nonce)
      clock digest rfl with
    | kept h => exact .kept h
    | gone h => exact .gone h
    | promoted h hid =>
      obtain ⟨rfl, hok, hpromotes⟩ := hid
      exact .promoted h ⟨metadata, now, ttl, nonce, clock, rfl, hok, hpromotes⟩
    | reserved _ htime => cases htime
    | renewed hrenewed hbefore h => exact .renewed hrenewed hbefore h
  | releasePending digest' id =>
    simp only [Database.step, redisReleasePendingIdempotencyScript]
    split
    · dsimp only
      rw [delString, Function.update_of_ne (hne id)]
      exact .delString
    · exact .kept rfl
  | removeIfBound digest' id =>
    simp only [Database.step, redisRemoveIfBoundScript]
    split
    · exact .kept rfl
    · exact .delString
  | refresh digest' ttl clock =>
    simp only [Database.step, redisRefreshIdempotencyScript]
    split
    · exact .kept rfl
    · exact .pexpire_renewed fun hkey => by rw [IdempotencyEvent.renews, hkey]
  | mutate id nonce invocation now clock =>
    simp only [Database.step, mutateStream]
    split
    · rename_i bound state hbound hstate
      split
      · rename_i hrenews
        refine .pexpire_renewed fun hkey => ?_
        simp only [IdempotencyEvent.renews]
        rw [if_pos hrenews, hbound, hkey]
      · exact .kept rfl
    · exact .kept rfl
  | touch id clock =>
    simp only [Database.step, redisTouchScript]
    split
    · exact .kept rfl
    · rename_i state hstate
      split
      · exact .kept rfl
      · rename_i hevents
        split
        · exact .kept rfl
        · rename_i hopen
          cases hbound : state.idempotencyKey with
          | some bound =>
            refine .pexpire_renewed fun hkey => ?_
            simp only [IdempotencyEvent.renews]
            have hsome : (db.streams id).events.isSome = true := by
              simpa [Option.isSome_iff_ne_none] using hevents
            rw [hstate, Option.bind_some, if_pos ⟨not_not.mp hopen, hsome⟩, hbound, hkey]
          | none => exact .kept rfl
  | expire expiry =>
    cases expiry with
    | state | events | tombstone | receipt => exact .kept rfl
    | string other => exact .delString

/-- A mapping was there before, or an `Open` has promoted it. -/
theorem Mapped.of_step {keyPrefix : String} {db : Database} {event : IdempotencyEvent}
    {digest : IdempotencyDigest} {id : StreamID}
    (h : Mapped keyPrefix (db.step keyPrefix event) digest id) :
    Mapped keyPrefix db digest id ∨
      event.Promotes keyPrefix db (idempotencyKey keyPrefix digest) id := by
  unfold Mapped getString at h ⊢
  cases db.step_digestKey keyPrefix event digest with
  | kept hkept => exact .inl (hkept ▸ h)
  | gone hgone =>
    rw [hgone] at h
    cases h
  | promoted hpromoted hid =>
    rw [hpromoted, Option.map_some, Option.some.injEq] at h
    exact .inr (promoted_injective h ▸ hid)
  | reserved hreserved _ hvalue =>
    rw [hreserved, Option.map_some, Option.some.injEq] at h
    dsimp only at h
    subst h
    refine .inl (hvalue.resolve_right ?_)
    rw [isPending_promoted]
    decide
  | renewed _ hbefore hafter =>
    rw [hafter] at h
    exact .inl (by rw [hbefore]; exact h)

/-! ## The life time of a reservation -/

/-- The operations on reservations use a life time of at most `ttl`. -/
def RedisCall.reservesWithin (ttl : Int) : RedisCall → Prop
  | .resolveOrCreate _ _ ttl' _ | .refreshPending _ _ ttl' => ttl' ≤ ttl
  | _ => True

instance (ttl : Int) (call : RedisCall) : Decidable (call.reservesWithin ttl) := by
  cases call <;> unfold RedisCall.reservesWithin <;> infer_instance

/-- A renewal for the retention of the journal does not meet a pending reservation. -/
def RenewsNoReservation (keyPrefix : String) (s : Registry) (timed : TimedCall) : Prop :=
  (((timed.call.event timed.clock).bind (·.renews keyPrefix s.db)).bind
    (getString s.db.strings)).any isPending = false

instance (keyPrefix : String) (s : Registry) (timed : TimedCall) :
    Decidable (RenewsNoReservation keyPrefix s timed) := by
  unfold RenewsNoReservation
  infer_instance

/-- Every pending reservation expires within the time of a reservation. -/
def Registry.ExpiresSoon (keyPrefix : String) (ttl : Int) (s : Registry) : Prop :=
  ∀ digest stored, s.db.strings (idempotencyKey keyPrefix digest) = some stored →
    isPending stored.value = true →
    stored.expiresAt ≤ s.now + durationMillis (redisPendingTTL ttl)

/-- The life time that a call gives to a reservation. -/
theorem RedisCall.reserves_le {ttl clock : Int} {call : RedisCall} {event : IdempotencyEvent}
    (hevent : call.event clock = some event) (hwithin : call.reservesWithin ttl) {expiresAt : Int}
    (hreserves : event.reserves = some expiresAt) :
    expiresAt ≤ clock + durationMillis (redisPendingTTL ttl) := by
  have bound {ttl' : Int} (hpos : 0 < ttl') (hle : ttl' ≤ ttl) :
      durationMillis (redisPendingTTL ttl') ≤ durationMillis (redisPendingTTL ttl) :=
    durationMillis_mono (redisPendingTTL_pos hpos) (redisPendingTTL_mono hle)
  cases call with
  | resolveOrCreate digest newID ttl' nonce | refreshPending digest id ttl' =>
    simp only [RedisCall.event] at hevent
    split at hevent
    · rename_i hpos
      cases hevent
      cases hreserves
      have := bound hpos hwithin
      omega
    · cases hevent
  | refresh digest ttl' =>
    simp only [RedisCall.event] at hevent
    split at hevent
    · cases hevent
      cases hreserves
    · cases hevent
  | _ =>
    cases hevent
    cases hreserves

/-- The step lemma. -/
theorem Registry.ExpiresSoon.step {keyPrefix : String} {ttl : Int} {s s' : Registry}
    {timed : TimedCall} (h : s.ExpiresSoon keyPrefix ttl)
    (hwithin : timed.call.reservesWithin ttl) (hrenews : RenewsNoReservation keyPrefix s timed)
    (hstep : s.step keyPrefix timed = some s') : s'.ExpiresSoon keyPrefix ttl := by
  unfold Registry.step at hstep
  split at hstep
  · rename_i hclock
    split at hstep
    · rename_i event hevent
      cases hstep
      intro digest stored hstored hpending
      cases s.db.step_digestKey keyPrefix event digest with
      | kept hkept =>
        have hbefore := h digest stored (hkept.symm.trans hstored) hpending
        show stored.expiresAt ≤ timed.clock + _
        omega
      | gone hgone =>
        rw [hgone] at hstored
        cases hstored
      | promoted hpromoted =>
        rw [hpromoted] at hstored
        cases hstored
        rw [isPending_promoted] at hpending
        cases hpending
      | reserved hreserved htime =>
        rw [hreserved] at hstored
        cases hstored
        exact RedisCall.reserves_le hevent hwithin htime
      | renewed hrenewed hbefore hafter =>
        -- The renewed key would have held the reservation before.
        rw [hafter] at hstored
        cases hstored
        unfold RenewsNoReservation at hrenews
        rw [hevent, Option.bind_some, hrenewed, Option.bind_some, getString, hbefore,
          Option.map_some, Option.any_some] at hrenews
        rw [hrenews] at hpending
        cases hpending
    · cases hstep
      intro digest stored hstored hpending
      have hbefore := h digest stored hstored hpending
      show stored.expiresAt ≤ timed.clock + _
      omega
  · cases hstep

/-- In every run in which no renewal for the retention of the journal meets a pending
reservation, a reservation has at most the time of a reservation left. -/
theorem pending_reservation_expires_soon (keyPrefix : String) (ttl : Int)
    (calls : List TimedCall) (hwithin : ∀ timed ∈ calls, timed.call.reservesWithin ttl)
    (clock : Int) (s : Registry)
    (hrun : run (Registry.step keyPrefix) ⟨.empty, clock⟩ calls = some s)
    (hrenews : Along (Registry.step keyPrefix) (RenewsNoReservation keyPrefix) ⟨.empty, clock⟩
      calls)
    (digest : IdempotencyDigest) (id : StreamID) (nonce : Nonce) (association : String)
    (stored : StringKey) (hstored : s.db.strings (idempotencyKey keyPrefix digest) = some stored)
    (hvalue : stored.value = "p|" ++ id ++ "|" ++ nonce ++ "|" ++ association) :
    stored.expiresAt - s.now ≤ durationMillis (redisPendingTTL ttl) := by
  have hgood := Along.and (Along.of_mem hwithin _) hrenews
  have h : s.ExpiresSoon keyPrefix ttl := inv_of_run_along
    (fun _ _ _ hinv hgood hstep => hinv.step hgood.1 hgood.2 hstep)
    (fun _ _ hmem _ => by cases hmem) hgood hrun
  have hpending : isPending stored.value = true := by
    rw [hvalue]
    simp [isPending, String.toList_append]
  have := h digest stored hstored hpending
  omega

/-- Two streams under one key: the mapping of the first one expires while its runtime
goes on, and the second one is reserved. -/
def outlivedMapping : List TimedCall :=
  let metadata := { sampleMeta with idempotency := some "d" }
  [⟨0, .resolveOrCreate "d" sampleID (600 * 10 ^ 9) "n1"⟩,
    ⟨1, .openStream sampleID metadata 0 (600 * 10 ^ 9) "n2"⟩,
    ⟨2, .refresh "d" (600 * 10 ^ 9)⟩,
    ⟨3, .expire (.string (idempotencyKey "streamweld" "d"))⟩,
    ⟨4, .resolveOrCreate "d" otherID (600 * 10 ^ 9) "n3"⟩]

theorem pending_reservation_expires_soon_of_outlivedMapping :
    ∃ s stored, run (Registry.step "streamweld") ⟨.empty, 0⟩ outlivedMapping = some s ∧
      s.db.strings (idempotencyKey "streamweld" "d") = some stored ∧
      stored.expiresAt - s.now ≤ durationMillis (redisPendingTTL (600 * 10 ^ 9)) := by
  refine ⟨_, _, rfl, rfl, ?_⟩
  exact pending_reservation_expires_soon "streamweld" (600 * 10 ^ 9) outlivedMapping
    (by decide) 0 _ rfl (by decide +kernel) "d" otherID "n3"
    (idempotencyAssociationKey "streamweld" otherID) _ rfl rfl

/-- The runtime of the first stream renews the key: the reservation of the second one now
lasts ten minutes instead of five seconds.  A heartbeat of the first stream does the
same. -/
theorem reservation_with_retention :
    durationMillis (redisPendingTTL (600 * 10 ^ 9)) = 5000 ∧
    ∀ call ∈ [RedisCall.refresh "d" (600 * 10 ^ 9), .touch sampleID],
      (run (Registry.step "streamweld") ⟨.empty, 0⟩ (outlivedMapping ++ [⟨5, call⟩])).map
          (fun s => (s.db.strings (idempotencyKey "streamweld" "d"), s.now)) =
        some (some
          { value := "p|" ++ otherID ++ "|" ++ "n3" ++ "|" ++
              idempotencyAssociationKey "streamweld" otherID
            expiresAt := 600005 }, 5) := by
  decide +kernel

end Streamweld.Redis
