import Mathlib
import Streamweld.Redis.Receipts

/-!
# Idempotency keys

A client key is reserved for a new stream before the stream is opened, and the
open script promotes the reservation to a mapping.  The reservation lives in two
string keys, the digest key and the association of the stream, which expire
independently; the scripts parse the text of the digest key.

* The scripts of `ResolveOrCreate`, `Refresh`, `RefreshPending`, `ReleasePending`
  and `RemoveIfBound`, as the source has them.
* The texts.  `parseReservation_promoted` and the lemmas beside it say what the
  parser makes of the texts that the scripts write and compare.
* The mapping.  `Mapped.step` is the step lemma: a promoted mapping keeps its
  value until it expires or is removed for its own stream.
  `idempotency_key_admits_one_stream` is the result over all interleavings.
-/

namespace Streamweld.Redis

open Streamweld.Journal

variable {key other : String} {id : StreamID} {db : Database}

/-! ## The scripts -/

/-- What the resolve script reads from an existing value. -/
structure Binding where
  id : String
  creator : String
  association : Option String
  pending : Bool
  deriving DecidableEq, Repr

/-- The parser of the resolve script. -/
def parseBinding (value : String) : Except ScriptError Binding :=
  match splitBar value.toList with
  | none => .error .idempotencyCorrupt
  | some (tag, rest) =>
    if tag = ['p'] ∨ tag = ['r'] then
      match splitBar rest with
      | none =>
        if tag = ['r'] then
          .ok { id := String.ofList rest, creator := String.ofList rest, association := none,
                pending := false }
        else .error .idempotencyCorrupt
      | some (id, rest) =>
        match splitBar rest with
        | some (creator, association) =>
          .ok { id := String.ofList id, creator := String.ofList creator,
                association := some (String.ofList association),
                pending := decide (tag = ['p']) }
        | none =>
          .ok { id := String.ofList id, creator := String.ofList rest, association := none,
                pending := decide (tag = ['p']) }
    else
      .ok { id := String.ofList tag, creator := String.ofList rest, association := none,
            pending := true }

/-- `redisResolveIdempotencyScript`: the bound stream and whether this operation
created the reservation. -/
def redisResolveIdempotencyScript (db : Database) (key association : String)
    (newID : StreamID) (ttl : Int) (nonce : Nonce) (clock : Int) :
    Database × Except ScriptError (String × Bool) :=
  match getString db.strings key with
  | some existing =>
    match parseBinding existing with
    | .error err => (db, .error err)
    | .ok binding =>
      if binding.pending = true ∧ binding.creator = nonce then
        let strings := pexpire db.strings key (clock + ttl)
        let strings := match binding.association with
          | some bound =>
            if getString strings bound = some key then pexpire strings bound (clock + ttl)
            else strings
          | none => strings
        ({ db with strings := strings }, .ok (binding.id, true))
      else (db, .ok (binding.id, false))
  | none =>
    let value := "p|" ++ newID ++ "|" ++ nonce ++ "|" ++ association
    ({ db with
        strings := setString (setString db.strings key value (clock + ttl)) association key
          (clock + ttl) },
      .ok (newID, true))

/-- `redisRefreshIdempotencyScript`. -/
def redisRefreshIdempotencyScript (db : Database) (key : String) (ttl clock : Int) :
    Database × Bool :=
  if (db.strings key).isNone then (db, false)
  else ({ db with strings := pexpire db.strings key (clock + ttl) }, true)

/-- The check that the two pending scripts share: the digest key holds a pending
reservation of the stream, in the current or in the older format, and the
association of the stream leads back to it. -/
def ownsPending (db : Database) (key association : String) (id : StreamID) : Bool :=
  match getString db.strings key with
  | none => false
  | some reservation =>
    decide (getString db.strings association = some key) &&
      (("p|" ++ id ++ "|").toList.isPrefixOf reservation.toList ||
        (id ++ "|").toList.isPrefixOf reservation.toList)

/-- `redisRefreshPendingIdempotencyScript`. -/
def redisRefreshPendingIdempotencyScript (db : Database) (key association : String)
    (id : StreamID) (ttl clock : Int) : Database × Bool :=
  if ownsPending db key association id then
    ({ db with
        strings := pexpire (pexpire db.strings key (clock + ttl)) association (clock + ttl) },
      true)
  else (db, false)

/-- `redisReleasePendingIdempotencyScript`. -/
def redisReleasePendingIdempotencyScript (db : Database) (key association : String)
    (id : StreamID) : Database × Bool :=
  if ownsPending db key association id then
    ({ db with strings := delString (delString db.strings key) association }, true)
  else (db, false)

/-- `redisRemoveIfBoundScript`. -/
def redisRemoveIfBoundScript (db : Database) (key : String) (id : StreamID) :
    Database × Bool :=
  if getString db.strings key ≠ some ("r|" ++ id) then (db, false)
  else ({ db with strings := delString db.strings key }, true)

/-! ## The system -/

/-- A step of the database, by any replica or by an expiry. -/
inductive IdempotencyEvent where
  | resolve (digest : IdempotencyDigest) (newID : StreamID) (ttl : Int) (nonce : Nonce)
      (clock : Int)
  | refreshPending (digest : IdempotencyDigest) (id : StreamID) (ttl clock : Int)
  | openStream (id : StreamID) (metadata : Meta) (now ttl : Int) (nonce : Nonce) (clock : Int)
  | releasePending (digest : IdempotencyDigest) (id : StreamID)
  | removeIfBound (digest : IdempotencyDigest) (id : StreamID)
  | refresh (digest : IdempotencyDigest) (ttl clock : Int)
  | mutate (id : StreamID) (nonce : Nonce) (invocation : Invocation) (now clock : Int)
  | touch (id : StreamID) (clock : Int)
  | expire (expiry : Expiry)
  deriving DecidableEq, Repr

section System

variable (keyPrefix : String)

/-- The arguments that `Redis.Open` passes to its script. -/
def openArgs (id : StreamID) (metadata : Meta) (now ttl : Int) (nonce : Nonce) : OpenArgs :=
  { id := id
    metadata := metadata
    payload := openPayload id metadata
    now := now
    ttlMs := ttl
    nonce := nonce
    association := idempotencyAssociationKey keyPrefix id
    reservationKey := metadata.idempotency.map (idempotencyKey keyPrefix) }

/-- One step. -/
def Database.step (db : Database) : IdempotencyEvent → Database
  | .resolve digest newID ttl nonce clock =>
    (redisResolveIdempotencyScript db (idempotencyKey keyPrefix digest)
      (idempotencyAssociationKey keyPrefix newID) newID ttl nonce clock).1
  | .refreshPending digest id ttl clock =>
    (redisRefreshPendingIdempotencyScript db (idempotencyKey keyPrefix digest)
      (idempotencyAssociationKey keyPrefix id) id ttl clock).1
  | .openStream id metadata now ttl nonce clock =>
    (redisOpenScript db (openArgs keyPrefix id metadata now ttl nonce) clock).1
  | .releasePending digest id =>
    (redisReleasePendingIdempotencyScript db (idempotencyKey keyPrefix digest)
      (idempotencyAssociationKey keyPrefix id) id).1
  | .removeIfBound digest id =>
    (redisRemoveIfBoundScript db (idempotencyKey keyPrefix digest) id).1
  | .refresh digest ttl clock =>
    (redisRefreshIdempotencyScript db (idempotencyKey keyPrefix digest) ttl clock).1
  | .mutate id nonce invocation now clock =>
    (mutateStream db id nonce (invocation.script nonce now) clock).1
  | .touch id clock => (redisTouchScript db id clock).1
  | .expire expiry => db.expire expiry

/-- The database before step `k` of a run. -/
def Database.before (db : Database) (events : List IdempotencyEvent) (k : Nat) : Database :=
  (events.take k).foldl (Database.step keyPrefix) db

/-- The event is an `Open` whose execution creates the stream and promotes its
reservation under the digest: `Open` names the digest, or it names none and the
script finds the reservation through the association. -/
def PromotesAt (db : Database) (digest : IdempotencyDigest) (id : StreamID)
    (event : IdempotencyEvent) : Prop :=
  ∃ metadata now ttl nonce clock, event = .openStream id metadata now ttl nonce clock ∧
    (metadata.idempotency = some digest ∨
      promotable db (openArgs keyPrefix id metadata now ttl nonce) =
        some (idempotencyKey keyPrefix digest)) ∧
    (db.streams id).state = none ∧
    (redisOpenScript db (openArgs keyPrefix id metadata now ttl nonce) clock).2 = .ok ()

/-- The identifiers of an event are valid: the methods check them. -/
def IdempotencyEvent.Valid : IdempotencyEvent → Prop
  | .resolve _ id _ _ _ | .refreshPending _ id _ _ | .releasePending _ id
  | .removeIfBound _ id | .openStream id _ _ _ _ _ => validateStreamID id = true
  | _ => True

end System

/-! ## Values of string keys -/

section Values

variable (strings : String → Option StringKey)

@[simp] theorem getString_pexpire (key other : String) (expiresAt : Int) :
    getString (pexpire strings key expiresAt) other = getString strings other := by
  unfold pexpire
  split
  · rename_i stored hstored
    by_cases hkey : other = key
    · subst hkey
      simp [getString, hstored]
    · simp [getString, Function.update_of_ne hkey]
  · rfl

theorem pexpire_of_ne (h : other ≠ key) (expiresAt : Int) :
    pexpire strings key expiresAt other = strings other := by
  unfold pexpire
  cases strings key with
  | some stored => exact Function.update_of_ne h ..
  | none => rfl

theorem getString_setString_ne (h : other ≠ key) (value : String) (expiresAt : Int) :
    getString (setString strings key value expiresAt) other = getString strings other := by
  simp [getString, setString, Function.update_of_ne h]

@[simp] theorem getString_setString_self (key value : String) (expiresAt : Int) :
    getString (setString strings key value expiresAt) key = some value := by
  simp [getString, setString]

theorem getString_delString_ne (h : other ≠ key) :
    getString (delString strings key) other = getString strings other := by
  simp [getString, delString, Function.update_of_ne h]

end Values

/-- A mutation renews an idempotency key and never writes it. -/
theorem getString_mutateStream (db : Database) (id : StreamID) (nonce : Nonce)
    (script : StreamKeys → StreamKeys × Except ScriptError Nat) (clock : Int) (key : String) :
    getString (mutateStream db id nonce script clock).1.strings key =
      getString db.strings key := by
  unfold mutateStream
  dsimp only
  split
  · split
    · simp
    · rfl
  · rfl

/-! ## Key names -/

section Names

variable {keyPrefix : String}

theorem idempotencyKey_injective {digest digest' : IdempotencyDigest}
    (h : idempotencyKey keyPrefix digest = idempotencyKey keyPrefix digest') :
    digest = digest' := by
  unfold idempotencyKey at h
  have hlist := congrArg String.toList h
  simp only [String.toList_append] at hlist
  exact String.toList_inj.mp (List.append_cancel_left hlist)

/-- No digest key is the association of a stream. -/
theorem idempotencyKey_ne_association (digest : IdempotencyDigest) (id : StreamID) :
    idempotencyKey keyPrefix digest ≠ idempotencyAssociationKey keyPrefix id := by
  intro h
  have hlist := congrArg String.toList h
  simp only [idempotencyKey, idempotencyAssociationKey, String.toList_append,
    List.append_assoc] at hlist
  -- Both names share the namespace and differ in the word after it.
  have hrest := List.append_cancel_left hlist
  have hdigest : ":idempotency:".toList = ':' :: 'i' :: "dempotency:".toList := by decide
  have hstream : ":stream:".toList = ':' :: 's' :: "tream:".toList := by decide
  simp [hdigest, hstream] at hrest

end Names

/-! ## Texts -/

/-- A valid identifier has no bar in it and is longer than a tag. -/
theorem validateStreamID_text (h : validateStreamID id = true) :
    '|' ∉ id.toList ∧ id.toList ≠ ['p'] ∧ id.toList ≠ ['r'] := by
  unfold validateStreamID at h
  simp only [Bool.and_eq_true, decide_eq_true_eq, List.all_eq_true] at h
  obtain ⟨⟨hlen, hchars⟩, _⟩ := h
  refine ⟨?_, ?_, ?_⟩
  · intro hbar
    have hmem := hchars '|' hbar
    revert hmem
    decide
  · intro htag
    rw [htag] at hlen
    revert hlen
    decide
  · intro htag
    rw [htag] at hlen
    revert hlen
    decide

/-- The text before a bar is found when it has no bar in it. -/
theorem splitBar_append {before : List Char} (h : '|' ∉ before) (after : List Char) :
    splitBar (before ++ '|' :: after) = some (before, after) := by
  induction before with
  | nil => rfl
  | cons c before ih =>
    rw [List.mem_cons, not_or] at h
    rw [List.cons_append, splitBar, if_neg (Ne.symm h.1), ih h.2]
    rfl

private theorem promoted_toList (id : String) : ("r|" ++ id).toList = 'r' :: '|' :: id.toList := by
  rw [String.toList_append]
  rfl

/-- The value of a mapping names one stream. -/
theorem promoted_injective {other : StreamID} (h : "r|" ++ id = "r|" ++ other) : id = other := by
  have htext := congrArg String.toList h
  rw [promoted_toList, promoted_toList] at htext
  simp only [List.cons.injEq, true_and] at htext
  exact String.toList_inj.mp htext

private theorem pending_toList (id : String) :
    ("p|" ++ id ++ "|").toList = 'p' :: '|' :: (id.toList ++ ['|']) := by
  rw [String.toList_append, String.toList_append]
  rfl

/-- A promoted mapping is never taken for a pending reservation. -/
theorem parseReservation_promoted (id : StreamID) :
    (parseReservation ("r|" ++ id)).map Prod.snd = some false := by
  unfold parseReservation
  rw [promoted_toList, show 'r' :: '|' :: id.toList = ['r'] ++ '|' :: id.toList from rfl,
    splitBar_append (by decide)]
  rfl

/-- A value that the pending scripts accept for a stream is a pending reservation of
that stream. -/
theorem parseReservation_of_owned (hid : validateStreamID id = true) {value : String}
    (h : ("p|" ++ id ++ "|").toList.isPrefixOf value.toList = true ∨
      (id ++ "|").toList.isPrefixOf value.toList = true) :
    parseReservation value = some (id, true) := by
  obtain ⟨hbar, hp, hr⟩ := validateStreamID_text hid
  unfold parseReservation
  rcases h with h | h
  · obtain ⟨rest, hrest⟩ := List.isPrefixOf_iff_prefix.mp h
    rw [pending_toList] at hrest
    have htext : value.toList = ['p'] ++ '|' :: (id.toList ++ '|' :: rest) := by
      rw [← hrest]
      simp
    rw [htext, splitBar_append (by decide)]
    simp [splitBar_append hbar]
  · obtain ⟨rest, hrest⟩ := List.isPrefixOf_iff_prefix.mp h
    have htext : value.toList = id.toList ++ '|' :: rest := by
      rw [← hrest, String.toList_append, List.append_assoc]
      rfl
    rw [htext, splitBar_append hbar]
    simp [hp, hr]

/-- The two pending scripts act only on a pending reservation of their stream. -/
theorem ownsPending_parse {association : String} (hid : validateStreamID id = true)
    (h : ownsPending db key association id = true) :
    (getString db.strings key).bind parseReservation = some (id, true) := by
  unfold ownsPending at h
  split at h
  · cases h
  · rename_i reservation hvalue
    simp only [Bool.and_eq_true, Bool.or_eq_true] at h
    rw [hvalue]
    exact parseReservation_of_owned hid h.2

/-- The value that the open script promotes is a pending reservation of its stream. -/
theorem promotable_parse {args : OpenArgs} (h : promotable db args = some key) :
    (getString db.strings key).bind parseReservation = some (args.id, true) := by
  unfold promotable at h
  split at h
  · cases h
  · rename_i bound _
    split at h
    · rename_i reserved hparse
      split at h
      · rename_i hreserved
        cases h
        rw [hparse, hreserved]
      · cases h
    · cases h

/-! ## The promoted mapping -/

section Mapping

variable {keyPrefix : String} {digest : IdempotencyDigest}

/-- The digest key maps to the stream. -/
def Mapped (keyPrefix : String) (db : Database) (digest : IdempotencyDigest)
    (id : StreamID) : Prop :=
  getString db.strings (idempotencyKey keyPrefix digest) = some ("r|" ++ id)

theorem Mapped.not_pending (h : Mapped keyPrefix db digest id) :
    (getString db.strings (idempotencyKey keyPrefix digest)).bind parseReservation ≠
      some (other, true) := by
  intro hpending
  have hsnd := parseReservation_promoted id
  rw [h] at hpending
  have hparse : parseReservation ("r|" ++ id) = some (other, true) := hpending
  rw [hparse] at hsnd
  cases hsnd

/-- A promotion leaves the mapping of its stream. -/
theorem PromotesAt.mapped {event : IdempotencyEvent}
    (h : PromotesAt keyPrefix db digest id event) :
    Mapped keyPrefix (db.step keyPrefix event) digest id ∧
      (getString db.strings (idempotencyKey keyPrefix digest)).bind parseReservation =
        some (id, true) := by
  obtain ⟨metadata, now, ttl, nonce, clock, rfl, hdigest, hfresh, hok⟩ := h
  have hreservation : (openArgs keyPrefix id metadata now ttl nonce).reservationKey =
        some (idempotencyKey keyPrefix digest) ∨
      promotable db (openArgs keyPrefix id metadata now ttl nonce) =
        some (idempotencyKey keyPrefix digest) := by
    refine hdigest.imp_left fun hd => ?_
    simp [openArgs, hd]
  unfold Database.step
  dsimp only
  generalize hargs : openArgs keyPrefix id metadata now ttl nonce = args at hok hreservation ⊢
  have hid : args.id = id := by rw [← hargs]; rfl
  have hassociation : args.association = idempotencyAssociationKey keyPrefix id := by
    rw [← hargs]; rfl
  unfold redisOpenScript at hok ⊢
  simp only [hid, hfresh] at hok ⊢
  split at hok
  · cases hok
  · rename_i hfree
    rw [if_neg hfree]
    split at hok
    · cases hok
    · rename_i hheld
      rw [if_neg hheld]
      have hpromotes : promotable db args = some (idempotencyKey keyPrefix digest) := by
        rcases hreservation with hreservation | hpromotes
        · by_contra hne
          exact hheld ⟨by rw [hreservation]; rfl, by rw [hreservation]; exact hne⟩
        · exact hpromotes
      refine ⟨?_, hid ▸ promotable_parse hpromotes⟩
      unfold Mapped
      rw [hpromotes, hassociation, getString_delString_ne _ (idempotencyKey_ne_association _ _)]
      simp

/-- The open script never overwrites a promoted mapping. -/
theorem Mapped.openScript (h : Mapped keyPrefix db digest id) {clock : Int} (args : OpenArgs)
    {other : StreamID} (hassociation : args.association =
      idempotencyAssociationKey keyPrefix other) :
    Mapped keyPrefix (redisOpenScript db args clock).1 digest id := by
  unfold redisOpenScript
  dsimp only
  split
  · split
    · split
      · exact h
      · refine Eq.trans ?_ h
        dsimp only
        split <;> simp
    · exact h
  · split
    · exact h
    · split
      · exact h
      · refine Eq.trans ?_ h
        rw [hassociation, getString_delString_ne _ (idempotencyKey_ne_association _ _)]
        split
        · rename_i key hpromotes
          apply getString_setString_ne
          rintro rfl
          exact h.not_pending (promotable_parse hpromotes)
        · rfl

/-- The step lemma: a mapping stays until it expires or is removed for its stream. -/
theorem Mapped.step (h : Mapped keyPrefix db digest id) {event : IdempotencyEvent}
    (hvalid : event.Valid) (hexpired : event ≠ .expire (.string (idempotencyKey keyPrefix digest)))
    (hremoved : event ≠ .removeIfBound digest id) :
    Mapped keyPrefix (db.step keyPrefix event) digest id := by
  have hne (other : StreamID) : idempotencyKey keyPrefix digest ≠
      idempotencyAssociationKey keyPrefix other := idempotencyKey_ne_association digest other
  have hother {digest' : IdempotencyDigest} (hd : digest' ≠ digest) :
      idempotencyKey keyPrefix digest ≠ idempotencyKey keyPrefix digest' :=
    fun heq => hd (idempotencyKey_injective heq).symm
  -- Renewals never change a value.
  have hrenew {strings : String → Option StringKey}
      (hstrings : ∀ key, getString strings key = getString db.strings key)
      (streams : StreamID → StreamKeys) :
      Mapped keyPrefix { streams := streams, strings := strings } digest id :=
    (hstrings _).trans h
  cases event with
  | resolve digest' newID ttl nonce clock =>
    simp only [Database.step, redisResolveIdempotencyScript]
    split
    · split
      · exact h
      · split
        · apply hrenew
          intro key
          split
          · split <;> simp
          · simp
        · exact h
    · rename_i hmissing
      have hd : digest' ≠ digest := by
        rintro rfl
        rw [h] at hmissing
        cases hmissing
      refine Eq.trans ?_ h
      rw [getString_setString_ne _ (hne newID), getString_setString_ne _ (hother hd)]
  | refreshPending digest' other ttl clock =>
    simp only [Database.step, redisRefreshPendingIdempotencyScript]
    split
    · exact hrenew (fun key => by simp) _
    · exact h
  | openStream other metadata now ttl nonce clock =>
    exact h.openScript _ rfl
  | releasePending digest' other =>
    simp only [Database.step, redisReleasePendingIdempotencyScript]
    split
    · rename_i howns
      have hd : digest' ≠ digest := by
        rintro rfl
        exact h.not_pending (ownsPending_parse hvalid howns)
      refine Eq.trans ?_ h
      rw [getString_delString_ne _ (hne other), getString_delString_ne _ (hother hd)]
    · exact h
  | removeIfBound digest' other =>
    simp only [Database.step, redisRemoveIfBoundScript]
    split
    · exact h
    · rename_i hbound
      have hd : digest' ≠ digest := by
        rintro rfl
        have hvalue := not_not.mp hbound
        rw [h, Option.some.injEq] at hvalue
        exact hremoved (by rw [promoted_injective hvalue])
      exact (getString_delString_ne _ (hother hd)).trans h
  | refresh digest' ttl clock =>
    simp only [Database.step, redisRefreshIdempotencyScript]
    split
    · exact h
    · exact hrenew (fun key => by simp) _
  | mutate other nonce invocation now clock =>
    exact hrenew (getString_mutateStream db other nonce _ clock) _
  | touch other clock =>
    simp only [Database.step, redisTouchScript]
    split
    · exact h
    · split
      · exact h
      · split
        · exact h
        · apply hrenew
          intro key
          split
          · simp
          · rfl
  | expire expiry =>
    cases expiry with
    | state | events | tombstone | receipt => exact h
    | string key =>
      refine (getString_delString_ne _ ?_).trans h
      exact fun heq => hexpired (by rw [heq])

theorem before_succ (db : Database) {events : List IdempotencyEvent} {k : Nat}
    (hk : k < events.length) :
    db.before keyPrefix events (k + 1) =
      (db.before keyPrefix events k).step keyPrefix events[k] := by
  unfold Database.before
  rw [List.take_succ_eq_append_getElem hk, List.foldl_append]
  rfl

/-- The run lemma: as long as the mapping neither expires nor is removed for its
stream, it stays. -/
theorem Mapped.run {events : List IdempotencyEvent} (hvalid : ∀ event ∈ events, event.Valid)
    {i : Nat} (h : Mapped keyPrefix (db.before keyPrefix events i) digest id) (j : Nat)
    (hij : i ≤ j) (hj : j ≤ events.length) :
    (∃ k, i ≤ k ∧ k < j ∧ Mapped keyPrefix (db.before keyPrefix events k) digest id ∧
      (events[k]? = some (.expire (.string (idempotencyKey keyPrefix digest))) ∨
        events[k]? = some (.removeIfBound digest id))) ∨
      Mapped keyPrefix (db.before keyPrefix events j) digest id := by
  induction hij with
  | refl => exact .inr h
  | @step j hij ih =>
    rcases ih (by omega) with ⟨k, hik, hkj, hlost⟩ | hmapped
    · exact .inl ⟨k, hik, by omega, hlost⟩
    · have hlt : j < events.length := by omega
      by_cases hlost : events[j] = .expire (.string (idempotencyKey keyPrefix digest)) ∨
          events[j] = .removeIfBound digest id
      · refine .inl ⟨j, hij, by omega, hmapped, ?_⟩
        rw [List.getElem?_eq_getElem hlt]
        exact hlost.imp (congrArg some) (congrArg some)
      · rw [not_or] at hlost
        right
        rw [before_succ db hlt]
        exact hmapped.step (hvalid _ (List.getElem_mem hlt)) hlost.1 hlost.2

end Mapping

/-! ## The pending scripts -/

/-- What a pending script does to a string key: its own association, or a digest key
that holds a pending reservation of its stream; and it writes no value. -/
def OnlyOwnPending (keyPrefix : String) (db db' : Database) (digest : IdempotencyDigest)
    (id : StreamID) : Prop :=
  db'.streams = db.streams ∧ ∀ key, db'.strings key ≠ db.strings key →
    (getString db'.strings key = none ∨
      getString db'.strings key = getString db.strings key) ∧
    (key = idempotencyAssociationKey keyPrefix id ∨
      key = idempotencyKey keyPrefix digest ∧
        (getString db.strings key).bind parseReservation = some (id, true))

theorem refreshPending_onlyOwn {keyPrefix : String} (hid : validateStreamID id = true)
    (db : Database) (digest : IdempotencyDigest) (ttl clock : Int) :
    OnlyOwnPending keyPrefix db
      (db.step keyPrefix (.refreshPending digest id ttl clock)) digest id := by
  simp only [Database.step, redisRefreshPendingIdempotencyScript]
  split
  · rename_i howns
    refine ⟨rfl, fun key hchanged => ⟨.inr (by simp), ?_⟩⟩
    by_cases hkey : key = idempotencyKey keyPrefix digest
    · subst hkey
      exact .inr ⟨rfl, ownsPending_parse hid howns⟩
    · left
      by_contra hother
      apply hchanged
      exact (pexpire_of_ne _ hother _).trans (pexpire_of_ne _ hkey _)
  · exact ⟨rfl, fun key hchanged => absurd rfl hchanged⟩

theorem releasePending_onlyOwn {keyPrefix : String} (hid : validateStreamID id = true)
    (db : Database) (digest : IdempotencyDigest) :
    OnlyOwnPending keyPrefix db (db.step keyPrefix (.releasePending digest id)) digest id := by
  simp only [Database.step, redisReleasePendingIdempotencyScript]
  split
  · rename_i howns
    refine ⟨rfl, fun key hchanged => ?_⟩
    by_cases hassociation : key = idempotencyAssociationKey keyPrefix id
    · refine ⟨.inl ?_, .inl hassociation⟩
      simp [getString, delString, hassociation]
    · by_cases hkey : key = idempotencyKey keyPrefix digest
      · refine ⟨.inl ?_, .inr ⟨hkey, ?_⟩⟩
        · rw [getString_delString_ne _ hassociation]
          simp [getString, delString, hkey]
        · rw [hkey]
          exact ownsPending_parse hid howns
      · exfalso
        apply hchanged
        simp [delString, Function.update_of_ne hassociation, Function.update_of_ne hkey]
  · exact ⟨rfl, fun key hchanged => absurd rfl hchanged⟩

/-! ## The result -/

/-- An `Open` that succeeds without creating its stream is a repeated execution under
the nonce that created it, and writes no string key. -/
theorem redisOpenScript_repeated {args : OpenArgs} {clock : Int}
    (hok : (redisOpenScript db args clock).2 = .ok ()) :
    (db.streams args.id).state = none ∨
      ∃ state, (db.streams args.id).state = some state ∧ state.openOpNonce = args.nonce ∧
        ∀ key, getString (redisOpenScript db args clock).1.strings key =
          getString db.strings key := by
  cases hstate : (db.streams args.id).state with
  | none => exact .inl rfl
  | some state =>
    right
    simp only [redisOpenScript, hstate] at hok ⊢
    split at hok
    · rename_i hnonce
      rw [if_pos hnonce]
      refine ⟨state, rfl, hnonce, fun key => ?_⟩
      split at hok
      · cases hok
      · rename_i hevents
        rw [if_neg hevents]
        dsimp only
        split
        · simp
        · rfl
    · cases hok

/-- One stream at a time per key: between the promotions of two streams the mapping
of the first one expired or was removed for it, and a successful `Open` under the
digest that is no promotion repeats an execution that created its stream.  The
pending operations of a stream leave the reservations and mappings of every other
stream alone. -/
theorem idempotency_key_admits_one_stream (keyPrefix : String) (db : Database)
    (events : List IdempotencyEvent) (hvalid : ∀ event ∈ events, event.Valid)
    (digest : IdempotencyDigest) :
    (∀ (i j : Nat) a b first second, i < j → events[i]? = some first →
      events[j]? = some second →
      PromotesAt keyPrefix (db.before keyPrefix events i) digest a first →
      PromotesAt keyPrefix (db.before keyPrefix events j) digest b second →
      ∃ k, i < k ∧ k < j ∧ Mapped keyPrefix (db.before keyPrefix events k) digest a ∧
        (events[k]? = some (.expire (.string (idempotencyKey keyPrefix digest))) ∨
          events[k]? = some (.removeIfBound digest a))) ∧
    (∀ (k : Nat) id metadata now ttl nonce clock,
      events[k]? = some (.openStream id metadata now ttl nonce clock) →
      metadata.idempotency = some digest →
      (redisOpenScript (db.before keyPrefix events k)
        (openArgs keyPrefix id metadata now ttl nonce) clock).2 = .ok () →
      PromotesAt keyPrefix (db.before keyPrefix events k) digest id
          (.openStream id metadata now ttl nonce clock) ∨
        (∃ state, ((db.before keyPrefix events k).streams id).state = some state ∧
          state.openOpNonce = nonce) ∧
        ∀ key, getString (db.before keyPrefix events (k + 1)).strings key =
          getString (db.before keyPrefix events k).strings key) ∧
    (∀ (k : Nat) digest' id ttl clock,
      (events[k]? = some (.refreshPending digest' id ttl clock) ∨
        events[k]? = some (.releasePending digest' id)) →
      OnlyOwnPending keyPrefix (db.before keyPrefix events k)
        (db.before keyPrefix events (k + 1)) digest' id) := by
  refine ⟨?_, ?_, ?_⟩
  · intro i j a b first second hij hi hj ha hb
    obtain ⟨hilt, rfl⟩ := List.getElem?_eq_some_iff.mp hi
    obtain ⟨hjlt, rfl⟩ := List.getElem?_eq_some_iff.mp hj
    have hmapped : Mapped keyPrefix (db.before keyPrefix events (i + 1)) digest a := by
      rw [before_succ db hilt]
      exact ha.mapped.1
    rcases hmapped.run hvalid j hij (Nat.le_of_lt hjlt) with ⟨k, hik, hkj, hlost⟩ | hstill
    · exact ⟨k, hik, hkj, hlost⟩
    · exact absurd hb.mapped.2 hstill.not_pending
  · intro k id metadata now ttl nonce clock hk hdigest hok
    obtain ⟨hlt, hevent⟩ := List.getElem?_eq_some_iff.mp hk
    rcases redisOpenScript_repeated hok with hfresh | ⟨state, hstate, hnonce, hvalues⟩
    · exact .inl ⟨metadata, now, ttl, nonce, clock, rfl, .inl hdigest, hfresh, hok⟩
    · refine .inr ⟨⟨state, hstate, hnonce⟩, ?_⟩
      rw [before_succ db hlt, hevent]
      exact hvalues
  · intro k digest' id ttl clock hk
    rcases hk with hk | hk
    · obtain ⟨hlt, hevent⟩ := List.getElem?_eq_some_iff.mp hk
      have hid : validateStreamID id = true := by
        have := hvalid _ (List.mem_of_getElem? hk)
        exact this
      rw [before_succ db hlt, hevent]
      exact refreshPending_onlyOwn hid _ digest' ttl clock
    · obtain ⟨hlt, hevent⟩ := List.getElem?_eq_some_iff.mp hk
      have hid : validateStreamID id = true := by
        have := hvalid _ (List.mem_of_getElem? hk)
        exact this
      rw [before_succ db hlt, hevent]
      exact releasePending_onlyOwn hid _ digest'

/-- The identifier of a second stream. -/
def otherID : StreamID := "01arz3ndektsv4rrffq69g5faw"

/-- Two streams under one digest: the mapping of the first one expires before the
second one is reserved and opened. -/
def twoPromotions : List IdempotencyEvent :=
  let metadata := { sampleMeta with idempotency := some "d" }
  [.resolve "d" sampleID 5000 "n1" 0, .openStream sampleID metadata 0 600000 "n2" 1,
    .expire (.string (idempotencyKey "streamweld" "d")), .resolve "d" otherID 5000 "n3" 2,
    .openStream otherID metadata 2 600000 "n4" 3]

theorem idempotency_key_admits_one_stream_of_twoPromotions :
    ∃ k, 1 < k ∧ k < 4 ∧
      (twoPromotions[k]? =
          some (.expire (.string (idempotencyKey "streamweld" "d"))) ∨
        twoPromotions[k]? = some (.removeIfBound "d" sampleID)) := by
  have hvalid : ∀ event ∈ twoPromotions, event.Valid := by
    simp only [twoPromotions, List.forall_mem_cons, IdempotencyEvent.Valid]
    exact ⟨by decide, by decide, trivial, by decide, by decide, by simp⟩
  have hfirst : PromotesAt "streamweld" (Database.empty.before "streamweld" twoPromotions 1)
      "d" sampleID (twoPromotions[1]) :=
    ⟨_, _, _, _, _, rfl, .inl rfl, by decide +kernel, by decide +kernel⟩
  have hsecond : PromotesAt "streamweld" (Database.empty.before "streamweld" twoPromotions 4)
      "d" otherID (twoPromotions[4]) :=
    ⟨_, _, _, _, _, rfl, .inl rfl, by decide +kernel, by decide +kernel⟩
  obtain ⟨k, hk, hk', _, hlost⟩ :=
    (idempotency_key_admits_one_stream "streamweld" .empty twoPromotions hvalid "d").1 1 4
      sampleID otherID _ _ (by decide) rfl rfl hfirst hsecond
  exact ⟨k, hk, hk', hlost⟩

end Streamweld.Redis
