import Streamweld.Proxy.RouteAgreement

/-!
# Fences and tombstones of the routes

The registry remembers one snapshot for each name of a route.  Two guarantees need more than
that, and hold only where the updates are well behaved.

* The fence: an object that was deleted does not come back, and its generations do not
  decrease.  `route_fenced` has the runs in which an object that takes over the name of a
  deleted one is new there.  `deleted_route_revived` has the run in which an old one returns.
* The tombstone: the model of a deleted route gets no backend.  `deleted_model_refused` has the
  runs in which no update overwrites the last tombstone of a model with another model.
  `deleted_model_served` has the run in which one does.
-/

namespace Streamweld.Proxy

open Streamweld.Backends Streamweld.Lib

variable {δ : Type} [DecidableEq δ] {codec : Codec δ} {route model : String}
  {update : RouteBackendUpdate} {event : RouteEvent} {registry registry' : Registry δ}
  {snapshot : RouteSnapshot δ}

/-! ## The updates that are installed -/

/-- The update passes the checks of `apply`: it is valid, it is not fenced off, it does not
clash with another route, and the pool takes the backends. -/
def Registry.takes (codec : Codec δ) (registry : Registry δ) (route : String)
    (update : RouteBackendUpdate) : Bool :=
  match normalizeRouteSnapshot codec route update with
  | .error _ => false
  | .ok snapshot =>
    decide (fence (registry.routes.lookup route) snapshot = .open) &&
      match registry.combined (registry.routes.insert route snapshot) with
      | .error _ => false
      | .ok backends => (normalizeAll 0 [] backends).isOk

theorem Registry.Installed.takes (h : registry.Installed route snapshot registry')
    (hsnapshot : normalizeRouteSnapshot codec route update = .ok snapshot) :
    registry.takes codec route update = true := by
  obtain ⟨backends, normalized, now, hcombined, hnormalized, -⟩ := h.replaced
  have hsame : registry'.combined registry'.routes =
      registry.combined (registry.routes.insert route snapshot) := by
    rw [Registry.combined, Registry.combined, h.static, h.routes]
  rw [hsame] at hcombined
  simp [Registry.takes, hsnapshot, h.fenced, hcombined, hnormalized, Except.isOk, Except.toBool]

/-! ## The fence -/

/-- An update that was accepted. -/
structure Accepted where
  route : String
  uid : String
  generation : Int
  deleted : Bool
  deriving DecidableEq, Repr

/-- The registry, and the updates that were accepted, the latest one first. -/
structure Fenced (δ : Type) where
  registry : Registry δ
  history : List Accepted

def Fenced.start (registry : Registry δ) : Fenced δ := ⟨registry, []⟩

/-- The history after a step. -/
def noteAccepted (history : List Accepted) : RouteEvent → RouteReply → List Accepted
  | .apply route update _, .accepted =>
    ⟨route, update.uid, update.observedGeneration, update.deleted⟩ :: history
  | _, _ => history

def Fenced.step (codec : Codec δ) (fenced : Fenced δ) (event : RouteEvent) : Option (Fenced δ) :=
  (fenced.registry.exec codec event).map fun result =>
    ⟨result.1, noteAccepted fenced.history event result.2⟩

/-- The object of the update takes over the name of another one only if it was not accepted
under the name before, or if it is deleted and its generation is not an earlier one. -/
def FreshFor (codec : Codec δ) (fenced : Fenced δ) (route : String)
    (update : RouteBackendUpdate) : Prop :=
  fenced.registry.takes codec route update = true →
    ∀ existing ∈ fenced.registry.routes.lookup route, existing.uid ≠ update.uid →
      ∀ earlier ∈ fenced.history, earlier.route = route → earlier.uid = update.uid →
        update.deleted = true ∧ earlier.generation ≤ update.observedGeneration

instance (fenced : Fenced δ) (route : String) (update : RouteBackendUpdate) :
    Decidable (FreshFor codec fenced route update) :=
  inferInstanceAs (Decidable (fenced.registry.takes codec route update = true →
    ∀ existing ∈ fenced.registry.routes.lookup route, _))

def TakesOverFresh (codec : Codec δ) (fenced : Fenced δ) : RouteEvent → Prop
  | .apply route update _ => FreshFor codec fenced route update
  | _ => True

instance (fenced : Fenced δ) : (event : RouteEvent) → Decidable (TakesOverFresh codec fenced event)
  | .apply route update _ => inferInstanceAs (Decidable (FreshFor codec fenced route update))
  | .pool _ => .isTrue trivial
  | .report _ => .isTrue trivial
  | .acquireModel _ _ _ _ => .isTrue trivial

/-- The later update of an object does not go back behind the earlier one. -/
def Accepted.Follows (later earlier : Accepted) : Prop :=
  later.route = earlier.route → later.uid = earlier.uid →
    earlier.generation ≤ later.generation ∧ (earlier.deleted = true → later.deleted = true)

/-- The accepted update that a stored snapshot stands for. -/
def RouteSnapshot.accepted (route : String) (snapshot : RouteSnapshot δ) : Accepted :=
  ⟨route, snapshot.uid, snapshot.generation, snapshot.deleted⟩

/-- The snapshot of an update that is applied, if the update is valid. -/
def RouteEvent.applied (codec : Codec δ) : RouteEvent → Option (RouteSnapshot δ)
  | .apply route update _ => (normalizeRouteSnapshot codec route update).toOption
  | _ => none

/-- The digests of some snapshots tell tombstones from live updates. -/
def DigestsTell (snapshots : List (RouteSnapshot δ)) : Prop :=
  ∀ left ∈ snapshots, ∀ right ∈ snapshots, left.digest = right.digest →
    left.deleted = right.deleted

instance (snapshots : List (RouteSnapshot δ)) : Decidable (DigestsTell snapshots) :=
  inferInstanceAs (Decidable (∀ left ∈ snapshots, _))

/-- The invariant of a run whose updates have the given snapshots. -/
structure Fenced.Inv (snapshots : List (RouteSnapshot δ)) (fenced : Fenced δ) : Prop where
  stored : ∀ route snapshot, fenced.registry.routes.lookup route = some snapshot →
    snapshot ∈ snapshots
  recorded : ∀ accepted ∈ fenced.history, accepted.route ∈ fenced.registry.routes
  latest : ∀ route snapshot, fenced.registry.routes.lookup route = some snapshot →
    ∀ earlier ∈ fenced.history, (snapshot.accepted route).Follows earlier
  ordered : fenced.history.Pairwise Accepted.Follows

/-- What passes the fence in front of a stored snapshot. -/
theorem fence_open {existing : RouteSnapshot δ} (h : fence (some existing) snapshot = .open) :
    (snapshot.uid ≠ existing.uid ∧ existing.deleted = true) ∨
      (snapshot.uid = existing.uid ∧ existing.generation ≤ snapshot.generation ∧
        (existing.deleted = true → snapshot.deleted = true)) := by
  simp only [fence] at h
  split at h
  · rename_i huid
    split at h
    · rename_i hdeleted
      exact .inl ⟨huid, hdeleted⟩
    · cases h
  · rename_i huid
    split at h
    · cases h
    · rename_i hstale
      rw [not_or, not_and, not_lt, Bool.not_eq_false] at hstale
      exact .inr ⟨not_not.mp huid, hstale⟩

/-- What repeats a stored snapshot. -/
theorem fence_repeated {existing? : Option (RouteSnapshot δ)}
    (h : fence existing? snapshot = .repeated) :
    ∃ existing, existing? = some existing ∧ snapshot.uid = existing.uid ∧
      snapshot.generation = existing.generation ∧ snapshot.digest = existing.digest := by
  cases existing? with
  | none => cases h
  | some existing =>
    simp only [fence] at h
    split at h
    · split at h <;> cases h
    · rename_i huid
      split at h
      · cases h
      · split at h
        · rename_i hsame
          exact ⟨existing, rfl, not_not.mp huid, hsame⟩
        · cases h

namespace Fenced.Inv

variable {snapshots : List (RouteSnapshot δ)} {fenced fenced' : Fenced δ}

/-- The update that is installed follows every accepted one. -/
theorem follows_installed (h : fenced.Inv snapshots) (hfresh : FreshFor codec fenced route update)
    (hsnapshot : normalizeRouteSnapshot codec route update = .ok snapshot)
    (hinstalled : fenced.registry.Installed route snapshot registry') :
    ∀ earlier ∈ fenced.history, (snapshot.accepted route).Follows earlier := by
  intro earlier hearlier hroute huid
  dsimp only [RouteSnapshot.accepted] at hroute huid ⊢
  subst hroute
  obtain ⟨existing, hexisting⟩ :=
    Option.isSome_iff_exists.mp (AList.lookup_isSome.mpr (h.recorded earlier hearlier))
  have hopen := hinstalled.fenced
  rw [hexisting] at hopen
  obtain ⟨-, -, hupdateUID, hgeneration, hdeleted⟩ := normalizeRouteSnapshot_ok hsnapshot
  rcases fence_open hopen with ⟨hother, -⟩ | ⟨hsame, hgen, hdel⟩
  · -- another object takes over the name
    obtain ⟨hmark, hgen⟩ := hfresh (hinstalled.takes hsnapshot) existing hexisting
      (fun heq => hother (hupdateUID.trans heq.symm)) earlier hearlier rfl
      (huid.symm.trans hupdateUID)
    exact ⟨hgeneration ▸ hgen, fun _ => hdeleted ▸ hmark⟩
  · obtain ⟨hgen', hdel'⟩ := h.latest earlier.route existing hexisting earlier hearlier rfl
      (hsame.symm.trans huid)
    exact ⟨hgen'.trans hgen, fun hmark => hdel (hdel' hmark)⟩

omit [DecidableEq δ] in
/-- An accepted update whose snapshot is the stored one of its route. -/
theorem accept (h : fenced.Inv snapshots) (hknown : snapshot ∈ snapshots)
    (hstored : registry'.routes.lookup route = some snapshot)
    (hothers : ∀ other, other ≠ route →
      registry'.routes.lookup other = fenced.registry.routes.lookup other)
    (hfollows : ∀ earlier ∈ fenced.history, (snapshot.accepted route).Follows earlier) :
    Fenced.Inv snapshots ⟨registry', snapshot.accepted route :: fenced.history⟩ := by
  refine ⟨fun other value hlookup => ?_, fun accepted haccepted => ?_,
    fun other value hlookup earlier hearlier => ?_,
    List.pairwise_cons.mpr ⟨hfollows, h.ordered⟩⟩
  · by_cases hother : other = route
    · subst hother
      exact Option.some.inj (hstored.symm.trans hlookup) ▸ hknown
    · exact h.stored other value (hothers other hother ▸ hlookup)
  · rw [← AList.lookup_isSome]
    by_cases hother : accepted.route = route
    · rw [hother, hstored]
      rfl
    · rw [hothers _ hother, AList.lookup_isSome]
      rcases List.mem_cons.mp haccepted with rfl | hold
      · exact absurd rfl hother
      · exact h.recorded accepted hold
  · by_cases hother : other = route
    · subst hother
      obtain rfl := Option.some.inj (hstored.symm.trans hlookup)
      rcases List.mem_cons.mp hearlier with rfl | hold
      · exact fun _ _ => ⟨le_refl _, id⟩
      · exact hfollows earlier hold
    · rcases List.mem_cons.mp hearlier with rfl | hold
      · exact fun hroute => absurd hroute hother
      · exact h.latest other value (hothers other hother ▸ hlookup) earlier hold

theorem step (hdigest : DigestsTell snapshots) (h : fenced.Inv snapshots)
    (hknown : ∀ snapshot, event.applied codec = some snapshot → snapshot ∈ snapshots)
    (hfresh : TakesOverFresh codec fenced event) (hstep : fenced.step codec event = some fenced') :
    fenced'.Inv snapshots := by
  obtain ⟨⟨registry', reply⟩, hexec, rfl⟩ := Option.map_eq_some_iff.mp hstep
  have haccepted {route : String} {update : RouteBackendUpdate} {snapshot : RouteSnapshot δ}
      (huid : snapshot.uid = update.uid)
      (hgeneration : snapshot.generation = update.observedGeneration)
      (hdeleted : snapshot.deleted = update.deleted) :
      (⟨route, update.uid, update.observedGeneration, update.deleted⟩ : Accepted) =
        snapshot.accepted route := by
    rw [RouteSnapshot.accepted, huid, hgeneration, hdeleted]
  rcases Registry.exec_cases hexec with
    ⟨route, update, now, snapshot, rfl, rfl, hsnapshot, hinstalled⟩ | ⟨hkept, hrepeat⟩
  · obtain ⟨-, -, huid, hgeneration, hdeleted⟩ := normalizeRouteSnapshot_ok hsnapshot
    dsimp only [noteAccepted]
    rw [haccepted huid hgeneration hdeleted]
    refine h.accept (hknown snapshot (by rw [RouteEvent.applied, hsnapshot]; rfl)) ?_
      (fun other hother => ?_) (h.follows_installed hfresh hsnapshot hinstalled)
    · rw [hinstalled.routes, AList.lookup_insert]
    · rw [hinstalled.routes, AList.lookup_insert_ne hother]
  · have hroutes := hkept.routes
    by_cases hreply : reply = .accepted
    · obtain ⟨route, update, now, snapshot, rfl, hsnapshot, hfence⟩ := hrepeat hreply
      subst hreply
      obtain ⟨existing, hexisting, huid, hgeneration, hsame⟩ := fence_repeated hfence
      obtain ⟨-, -, huid', hgeneration', hdeleted'⟩ := normalizeRouteSnapshot_ok hsnapshot
      have hstored := h.stored route existing hexisting
      have hmark := hdigest snapshot
        (hknown snapshot (by rw [RouteEvent.applied, hsnapshot]; rfl)) existing hstored hsame
      dsimp only [noteAccepted]
      rw [haccepted (huid ▸ huid') (hgeneration ▸ hgeneration') (hmark ▸ hdeleted')]
      exact h.accept hstored (hroutes ▸ hexisting) (fun _ _ => by rw [hroutes])
        (h.latest route existing hexisting)
    · have hhistory : noteAccepted fenced.history event reply = fenced.history := by
        unfold noteAccepted
        split
        · exact absurd rfl hreply
        · rfl
      dsimp only
      rw [hhistory]
      exact ⟨hroutes ▸ h.stored, hroutes ▸ h.recorded, hroutes ▸ h.latest, h.ordered⟩

end Fenced.Inv

/-- A live route ignores the updates of every other object. -/
theorem Registry.live_unchanged (hlive : registry.Live route snapshot) {now : ID → Int}
    {reply : RouteReply} (huid : update.uid ≠ snapshot.uid)
    (hexec : registry.exec codec (.apply route update now) = some (registry', reply)) :
    reply ≠ .accepted ∧ registry'.routes = registry.routes := by
  rcases Registry.exec_cases hexec with
    ⟨_, _, _, normalized, heq, -, hnormalized, hinstalled⟩ | ⟨hkept, hrepeat⟩
  · cases heq
    have hopen := hinstalled.fenced
    rw [hlive.1] at hopen
    obtain ⟨-, -, hsame, -⟩ := normalizeRouteSnapshot_ok hnormalized
    rcases fence_open hopen with ⟨-, hdeleted⟩ | ⟨hsame', -⟩
    · rw [hlive.2] at hdeleted
      cases hdeleted
    · exact absurd (hsame.symm.trans hsame') huid
  · refine ⟨fun haccepted => ?_, hkept.routes⟩
    obtain ⟨_, _, _, normalized, heq, hnormalized, hfence⟩ := hrepeat haccepted
    cases heq
    obtain ⟨existing, hexisting, hsame, -⟩ := fence_repeated hfence
    rw [hlive.1, Option.some.injEq] at hexisting
    subst hexisting
    exact huid ((normalizeRouteSnapshot_ok hnormalized).2.2.1.symm.trans hsame)

/-- In every run in which an object that takes over the name of another one is new under the
name, and the digests of the updates tell tombstones from live updates: after an accepted
tombstone the route is never live with its UID, the generations of a UID do not decrease, and a live
route is changed by no update with another UID. -/
theorem route_fenced {system : System} {start : Int} {events : List RouteEvent}
    {fenced : Fenced δ}
    (hdigest : DigestsTell (events.filterMap (RouteEvent.applied codec)))
    (hrun : run (Fenced.step codec) (.start (newRouteBackendRegistry δ system start)) events =
      some fenced)
    (hfresh : Along (Fenced.step codec) (TakesOverFresh codec)
      (.start (newRouteBackendRegistry δ system start)) events) :
    (∀ tombstone ∈ fenced.history, tombstone.deleted = true →
      ∀ snapshot, fenced.registry.Live tombstone.route snapshot →
        snapshot.uid ≠ tombstone.uid) ∧
    (fenced.history.Pairwise fun later earlier => later.route = earlier.route →
      later.uid = earlier.uid → earlier.generation ≤ later.generation ∧
        (earlier.deleted = true → later.deleted = true)) ∧
    ∀ route snapshot, fenced.registry.Live route snapshot →
      ∀ update now registry' reply, update.uid ≠ snapshot.uid →
        fenced.registry.exec codec (.apply route update now) = some (registry', reply) →
        reply ≠ .accepted ∧ registry'.routes = fenced.registry.routes := by
  have hstart : (Fenced.start (newRouteBackendRegistry δ system start)).Inv
      (events.filterMap (RouteEvent.applied codec)) := by
    refine ⟨fun route snapshot hlookup => ?_, by simp [Fenced.start],
      fun route snapshot _ => by simp [Fenced.start], .nil⟩
    simp [Fenced.start, newRouteBackendRegistry] at hlookup
  have hknown (event : RouteEvent) (hevent : event ∈ events) (snapshot : RouteSnapshot δ)
      (hsnapshot : event.applied codec = some snapshot) :
      snapshot ∈ events.filterMap (RouteEvent.applied codec) :=
    List.mem_filterMap.mpr ⟨event, hevent, hsnapshot⟩
  have hinv := inv_of_run_along (fun _ _ _ h hgood hstep => h.step hdigest hgood.1 hgood.2 hstep)
    hstart ((Along.of_mem hknown _).and hfresh) hrun
  refine ⟨fun tombstone htombstone hdeleted snapshot hlive huid => ?_, hinv.ordered, ?_⟩
  · have hmark := (hinv.latest _ snapshot hlive.1 tombstone htombstone rfl huid).2 hdeleted
    dsimp only [RouteSnapshot.accepted] at hmark
    rw [hlive.2] at hmark
    cases hmark
  · intro route snapshot hlive update now registry' reply huid hexec
    exact Registry.live_unchanged hlive huid hexec

/-- The registry over an empty pool. -/
def emptyRegistry : Registry RouteBackendUpdate :=
  newRouteBackendRegistry _ (.start (emptyPool 5)) 0

/-- The events lead to a state that satisfies the test. -/
def fencedAfter (events : List RouteEvent) (p : Fenced RouteBackendUpdate → Bool) : Bool :=
  (run (Fenced.step sampleCodec) (.start emptyRegistry) events).any p

theorem fencedAfter_spec {events : List RouteEvent} {p : Fenced RouteBackendUpdate → Bool}
    (h : fencedAfter events p = true) : ∃ fenced,
      run (Fenced.step sampleCodec) (.start emptyRegistry) events = some fenced ∧
        p fenced = true := by
  simpa [fencedAfter, Option.any_eq_true] using h

/-- The UID of the route, if it is live. -/
def Registry.liveUID (registry : Registry δ) (route : String) : Option String :=
  ((registry.routes.lookup route).filter fun snapshot => !snapshot.deleted).map RouteSnapshot.uid

omit [DecidableEq δ] in
theorem Registry.liveUID_eq_some {uid : String} :
    registry.liveUID route = some uid ↔
      ∃ snapshot, registry.Live route snapshot ∧ snapshot.uid = uid := by
  simp [Registry.liveUID, Registry.Live, Option.filter_eq_some_iff, and_assoc]

/-- A route is deleted, and a new object takes over its name. -/
theorem route_fenced_taken_over :
    ∃ fenced snapshot,
      run (Fenced.step sampleCodec) (.start emptyRegistry)
        (applySample "u1" "m" 1 false ++ applySample "u1" "m" 2 true ++
          applySample "u2" "m" 1 false) = some fenced ∧
      fenced.registry.Live "ns/r" snapshot ∧
      (⟨"ns/r", "u1", 2, true⟩ : Accepted) ∈ fenced.history ∧ snapshot.uid ≠ "u1" := by
  have hafter : fencedAfter (applySample "u1" "m" 1 false ++ applySample "u1" "m" 2 true ++
      applySample "u2" "m" 1 false)
      (fun fenced => fenced.registry.liveUID "ns/r" = some "u2" &&
        ((⟨"ns/r", "u1", 2, true⟩ : Accepted) ∈ fenced.history &&
          Along (Fenced.step sampleCodec) (TakesOverFresh sampleCodec) (.start emptyRegistry)
            (applySample "u1" "m" 1 false ++ applySample "u1" "m" 2 true ++
              applySample "u2" "m" 1 false))) = true := by
    decide +kernel
  have hdigest : DigestsTell ((applySample "u1" "m" 1 false ++ applySample "u1" "m" 2 true ++
      applySample "u2" "m" 1 false).filterMap (RouteEvent.applied sampleCodec)) := by
    decide +kernel
  obtain ⟨fenced, hrun, htest⟩ := fencedAfter_spec hafter
  simp only [Bool.and_eq_true, decide_eq_true_eq] at htest
  obtain ⟨hlive, htombstone, hfresh⟩ := htest
  obtain ⟨snapshot, hlive, -⟩ := Registry.liveUID_eq_some.mp hlive
  exact ⟨fenced, snapshot, hrun, hlive, htombstone,
    (route_fenced hdigest hrun hfresh).1 _ htombstone rfl snapshot hlive⟩

/-- Two objects are created and deleted under one name.  A delayed update of the first one,
from before its deletion, is accepted, and the route is live with it again. -/
theorem deleted_route_revived :
    ∃ fenced snapshot,
      run (Fenced.step sampleCodec) (.start emptyRegistry)
        (applySample "u1" "m" 1 false ++ applySample "u1" "m" 2 true ++
          applySample "u2" "m" 1 false ++ applySample "u2" "m" 2 true ++
          applySample "u1" "m" 1 false) = some fenced ∧
      fenced.registry.Live "ns/r" snapshot ∧ snapshot.uid = "u1" ∧
      fenced.history = [⟨"ns/r", "u1", 1, false⟩, ⟨"ns/r", "u2", 2, true⟩,
        ⟨"ns/r", "u2", 1, false⟩, ⟨"ns/r", "u1", 2, true⟩, ⟨"ns/r", "u1", 1, false⟩] := by
  have hafter : fencedAfter (applySample "u1" "m" 1 false ++ applySample "u1" "m" 2 true ++
      applySample "u2" "m" 1 false ++ applySample "u2" "m" 2 true ++ applySample "u1" "m" 1 false)
      (fun fenced => fenced.registry.liveUID "ns/r" = some "u1" &&
        fenced.history = [⟨"ns/r", "u1", 1, false⟩, ⟨"ns/r", "u2", 2, true⟩,
          ⟨"ns/r", "u2", 1, false⟩, ⟨"ns/r", "u1", 2, true⟩, ⟨"ns/r", "u1", 1, false⟩]) = true := by
    decide +kernel
  obtain ⟨fenced, hrun, htest⟩ := fencedAfter_spec hafter
  simp only [Bool.and_eq_true, decide_eq_true_eq] at htest
  obtain ⟨snapshot, hlive, huid⟩ := Registry.liveUID_eq_some.mp htest.1
  exact ⟨fenced, snapshot, hrun, hlive, huid, htest.2⟩

/-! ## The tombstones -/

/-- The registry, and the models whose route was deleted by an accepted tombstone and that no
live route has had since. -/
structure Buried (δ : Type) where
  registry : Registry δ
  deleted : List String

def Buried.start (registry : Registry δ) : Buried δ := ⟨registry, []⟩

/-- A live route has the model. -/
def Registry.serves (registry : Registry δ) (model : String) : Bool :=
  registry.routes.entries.any fun entry => !entry.2.deleted && entry.2.model = model

/-- The model of a live route that an accepted tombstone deletes. -/
def Registry.buries (registry : Registry δ) : RouteEvent → RouteReply → Option String
  | .apply route update _, .accepted =>
    if update.deleted then
      ((registry.routes.lookup route).filter fun existing => !existing.deleted).map
        RouteSnapshot.model
    else none
  | _, _ => none

def Buried.step (codec : Codec δ) (buried : Buried δ) (event : RouteEvent) : Option (Buried δ) :=
  (buried.registry.exec codec event).map fun result =>
    ⟨result.1, ((buried.registry.buries event result.2).toList ++ buried.deleted).filter
      fun model => !result.1.serves model⟩

/-- Another route has a tombstone with the model. -/
def Registry.otherTombstone (registry : Registry δ) (route model : String) : Bool :=
  registry.routes.entries.any fun entry =>
    decide (entry.1 ≠ route) && (entry.2.deleted && entry.2.model = model)

/-- The update deletes a live route under the model of the route, and replaces the last
tombstone of a deleted model only under that model. -/
def KeepsTombstoneFor (codec : Codec δ) (buried : Buried δ) (route : String)
    (update : RouteBackendUpdate) : Prop :=
  buried.registry.takes codec route update = true →
    ∀ existing ∈ buried.registry.routes.lookup route,
      (if existing.deleted then existing.model ∈ buried.deleted else update.deleted = true) →
      buried.registry.otherTombstone route existing.model = false → update.model = existing.model

instance (buried : Buried δ) (route : String) (update : RouteBackendUpdate) :
    Decidable (KeepsTombstoneFor codec buried route update) :=
  inferInstanceAs (Decidable (buried.registry.takes codec route update = true →
    ∀ existing ∈ buried.registry.routes.lookup route, _))

def KeepsTombstones (codec : Codec δ) (buried : Buried δ) : RouteEvent → Prop
  | .apply route update _ => KeepsTombstoneFor codec buried route update
  | _ => True

instance (buried : Buried δ) : (event : RouteEvent) →
    Decidable (KeepsTombstones codec buried event)
  | .apply route update _ => inferInstanceAs (Decidable (KeepsTombstoneFor codec buried route update))
  | .pool _ => .isTrue trivial
  | .report _ => .isTrue trivial
  | .acquireModel _ _ _ _ => .isTrue trivial

/-- A route has a tombstone with the model. -/
def Registry.Tombstone (registry : Registry δ) (route model : String) : Prop :=
  ∃ snapshot, registry.routes.lookup route = some snapshot ∧ snapshot.deleted = true ∧
    snapshot.model = model

structure Buried.Inv (buried : Buried δ) : Prop where
  tombstone : ∀ model ∈ buried.deleted, ∃ route, buried.registry.Tombstone route model
  unserved : ∀ model ∈ buried.deleted, buried.registry.serves model = false

omit [DecidableEq δ] in
theorem Registry.otherTombstone_iff :
    registry.otherTombstone route model = true ↔
      ∃ other, other ≠ route ∧ registry.Tombstone other model := by
  simp only [Registry.otherTombstone, List.any_eq_true, Bool.and_eq_true, decide_eq_true_eq]
  constructor
  · rintro ⟨entry, hentry, hne, hdeleted, hmodel⟩
    exact ⟨entry.1, hne, entry.2, AList.mem_lookup_iff.mpr hentry, hdeleted, hmodel⟩
  · rintro ⟨other, hne, snapshot, hlookup, hdeleted, hmodel⟩
    exact ⟨⟨other, snapshot⟩, AList.mem_lookup_iff.mp hlookup, hne, hdeleted, hmodel⟩

omit [DecidableEq δ] in
theorem Registry.serves_of_live (h : registry.Live route snapshot) :
    registry.serves snapshot.model = true := by
  rw [Registry.serves, List.any_eq_true]
  exact ⟨⟨route, snapshot⟩, AList.mem_lookup_iff.mp h.1, by simp [h.2]⟩

omit [DecidableEq δ] in
theorem Registry.serves_of_buries {reply : RouteReply}
    (h : registry.buries event reply = some model) : registry.serves model = true := by
  unfold Registry.buries at h
  split at h
  · split at h
    · obtain ⟨existing, hexisting, rfl⟩ := Option.map_eq_some_iff.mp h
      obtain ⟨hlookup, hlive⟩ := Option.filter_eq_some_iff.mp hexisting
      exact Registry.serves_of_live ⟨hlookup, by simpa using hlive⟩
    · cases h
  · cases h

/-- An installed update leaves the tombstones of the other routes, and has its own. -/
theorem Registry.Installed.tombstone (h : registry.Installed route snapshot registry') :
    (∀ other model, other ≠ route → registry.Tombstone other model →
      registry'.Tombstone other model) ∧
    (registry'.serves snapshot.model = true ∨ registry'.Tombstone route snapshot.model) := by
  constructor
  · rintro other model hne ⟨value, hlookup, hvalue⟩
    exact ⟨value, by rw [h.routes, AList.lookup_insert_ne hne, hlookup], hvalue⟩
  · have hlookup : registry'.routes.lookup route = some snapshot := by
      rw [h.routes, AList.lookup_insert]
    cases hdeleted : snapshot.deleted with
    | true => exact .inr ⟨snapshot, hlookup, hdeleted, rfl⟩
    | false => exact .inl (Registry.serves_of_live ⟨hlookup, hdeleted⟩)

theorem Buried.step_inv {buried buried' : Buried δ} (h : buried.Inv)
    (hkeeps : KeepsTombstones codec buried event) (hstep : buried.step codec event = some buried') :
    buried'.Inv := by
  obtain ⟨⟨registry', reply⟩, hexec, rfl⟩ := Option.map_eq_some_iff.mp hstep
  have hunserved : ∀ model ∈ ((buried.registry.buries event reply).toList ++
      buried.deleted).filter fun model => !registry'.serves model,
      registry'.serves model = false := by
    intro model hmodel
    simpa using (List.mem_filter.mp hmodel).2
  refine ⟨fun model hmodel => ?_, hunserved⟩
  have hnot := hunserved model hmodel
  have hmem := List.mem_append.mp (List.mem_filter.mp hmodel).1
  rcases Registry.exec_cases hexec with
    ⟨route, update, now, snapshot, rfl, rfl, hsnapshot, hinstalled⟩ | ⟨hkept, -⟩
  · obtain ⟨hothers, hown⟩ := hinstalled.tombstone
    obtain ⟨-, hupdateModel, -⟩ := normalizeRouteSnapshot_ok hsnapshot
    -- the model was buried by the stored snapshot of this route, or it has another tombstone
    have hcase : (∃ other, other ≠ route ∧ buried.registry.Tombstone other model) ∨
        update.model = model := by
      by_contra hneither
      rw [not_or] at hneither
      obtain ⟨hnone, hmodelNe⟩ := hneither
      have hother : buried.registry.otherTombstone route model = false := by
        rw [← Bool.not_eq_true, Registry.otherTombstone_iff]
        exact hnone
      rcases hmem with hburied | hold
      · simp only [Registry.buries, Option.mem_toList] at hburied
        split at hburied
        · rename_i hdeleted
          obtain ⟨existing, hexisting, rfl⟩ := Option.map_eq_some_iff.mp hburied
          obtain ⟨hlookup, hlive⟩ := Option.filter_eq_some_iff.mp hexisting
          have hlive' : existing.deleted = false := by simpa using hlive
          exact hmodelNe (hkeeps (hinstalled.takes hsnapshot) existing hlookup
            (by rw [hlive']; simpa using hdeleted) hother)
        · cases hburied
      · obtain ⟨other, existing, hlookup, hdeleted, rfl⟩ := h.tombstone model hold
        by_cases hroute : other = route
        · subst hroute
          exact hmodelNe (hkeeps (hinstalled.takes hsnapshot) existing hlookup
            (by rw [hdeleted]; simpa using hold) hother)
        · exact hnone ⟨other, hroute, existing, hlookup, hdeleted, rfl⟩
    rcases hcase with ⟨other, hne, htombstone⟩ | rfl
    · exact ⟨other, hothers other model hne htombstone⟩
    · rw [← hupdateModel] at hnot ⊢
      rcases hown with hserves | htombstone
      · rw [hnot] at hserves
        cases hserves
      · exact ⟨route, htombstone⟩
  · rcases hmem with hburied | hold
    · -- the route that an update would bury is still live
      have hserves := Registry.serves_of_buries (Option.mem_toList.mp hburied)
      rw [Registry.serves, hkept.routes] at hnot
      rw [Registry.serves, hnot] at hserves
      cases hserves
    · obtain ⟨route, snapshot, hlookup, hsnapshot⟩ := h.tombstone model hold
      exact ⟨route, snapshot, hkept.routes ▸ hlookup, hsnapshot⟩

omit [DecidableEq δ] in
theorem Buried.Inv.tombstoned {buried : Buried δ} (h : buried.Inv)
    (hmodel : model ∈ buried.deleted) : buried.registry.tombstoned model = true := by
  obtain ⟨route, snapshot, hlookup, hdeleted, hsame⟩ := h.tombstone model hmodel
  have hunserved := h.unserved model hmodel
  rw [Registry.serves] at hunserved
  rw [Registry.tombstoned, hunserved, Bool.not_false, Bool.and_true, List.any_eq_true]
  exact ⟨⟨route, snapshot⟩, AList.mem_lookup_iff.mp hlookup, by simp [hdeleted, hsame]⟩

/-- In every run in which a live route is deleted under its own model and the last tombstone of
a deleted model is replaced only under that model, `acquireModel` finds no backend for a model
whose route was deleted and that no live route has had since. -/
theorem deleted_model_refused {system : System} {start : Int} {events : List RouteEvent}
    {buried : Buried δ}
    (hrun : run (Buried.step codec) (.start (newRouteBackendRegistry δ system start)) events =
      some buried)
    (hkeeps : Along (Buried.step codec) (KeepsTombstones codec)
      (.start (newRouteBackendRegistry δ system start)) events)
    {model : String} (hmodel : model ∈ buried.deleted) (hlock : buried.registry.lock = .free)
    (call : Nat) (owner : String) (excluded : List ID) :
    buried.registry.exec codec (.acquireModel call owner model excluded) =
      some (buried.registry, .pool (.failed ⟨.noEligibleBackend, "", ""⟩)) := by
  have hstart : (Buried.start (newRouteBackendRegistry δ system start)).Inv :=
    ⟨by simp [Buried.start], by simp [Buried.start]⟩
  have hinv : buried.Inv :=
    inv_of_run_along (fun _ _ _ h hgood hstep => Buried.step_inv h hgood hstep) hstart hkeeps hrun
  simp only [Registry.exec, hlock, Registry.acquireModel, hinv.tombstoned hmodel, if_true]

/-- The events lead from a pool with one healthy wildcard to a state that satisfies the test. -/
def buriedAfter (events : List RouteEvent) (p : System → Buried RouteBackendUpdate → Bool) :
    Bool :=
  match newPool sampleConfig [sampleBackend "s" "static"] with
  | .error _ => false
  | .ok pool =>
    (run System.step (.start pool) [.observe "s" (.setHealth .healthHealthy) 0]).any fun system =>
      (run (Buried.step sampleCodec) (.start (newRouteBackendRegistry _ system 0)) events).any
        (p system)

theorem buriedAfter_spec {events : List RouteEvent}
    {p : System → Buried RouteBackendUpdate → Bool} (h : buriedAfter events p = true) :
    ∃ pool system buried, newPool sampleConfig [sampleBackend "s" "static"] = .ok pool ∧
      run System.step (.start pool) [.observe "s" (.setHealth .healthHealthy) 0] = some system ∧
      run (Buried.step sampleCodec) (.start (newRouteBackendRegistry _ system 0)) events =
        some buried ∧ p system buried = true := by
  unfold buriedAfter at h
  split at h
  · cases h
  · rename_i pool hpool
    obtain ⟨system, hsystem, hany⟩ := (Option.any_eq_true _ _).mp h
    obtain ⟨buried, hburied, hp⟩ := (Option.any_eq_true _ _).mp hany
    exact ⟨pool, system, buried, hpool, hsystem, hburied, hp⟩

/-- No call holds the lock. -/
def RegistryLock.isFree : RegistryLock δ → Bool
  | .free => true
  | _ => false

omit [DecidableEq δ] in
theorem RegistryLock.isFree_eq_true {lock : RegistryLock δ} (h : lock.isFree = true) :
    lock = .free := by
  cases lock with
  | free => rfl
  | reporting route snapshot => cases h
  | admitting call model => cases h

/-- After the only route is deleted the wildcard does not serve its model. -/
theorem deleted_model_refused_wildcard :
    ∃ system buried,
      run (Buried.step sampleCodec) (.start (newRouteBackendRegistry _ system 0))
        (applySample "u1" "m" 1 false ++ applySample "u1" "m" 2 true) = some buried ∧
      system.pool.serving "s" = some (sampleBackend "s" "static") ∧
      buried.registry.exec sampleCodec (.acquireModel 0 "o" "m" []) =
        some (buried.registry, .pool (.failed ⟨.noEligibleBackend, "", ""⟩)) := by
  have hafter : buriedAfter (applySample "u1" "m" 1 false ++ applySample "u1" "m" 2 true)
      (fun system buried => (decide ("m" ∈ buried.deleted) && buried.registry.lock.isFree) &&
        (decide (system.pool.serving "s" = some (sampleBackend "s" "static")) &&
          decide (Along (Buried.step sampleCodec) (KeepsTombstones sampleCodec)
            (.start (newRouteBackendRegistry _ system 0))
            (applySample "u1" "m" 1 false ++ applySample "u1" "m" 2 true)))) = true := by
    decide +kernel
  obtain ⟨pool, system, buried, -, -, hrun, htest⟩ := buriedAfter_spec hafter
  simp only [Bool.and_eq_true, decide_eq_true_eq] at htest
  obtain ⟨⟨hmodel, hlock⟩, hserving, hkeeps⟩ := htest
  exact ⟨system, buried, hrun, hserving,
    deleted_model_refused hrun hkeeps hmodel (RegistryLock.isFree_eq_true hlock) 0 "o" []⟩

/-- The call of `acquireModel` gets a lease on the backend. -/
def Registry.leased (registry : Registry RouteBackendUpdate) (model : String) (id : ID) : Bool :=
  (run (Registry.step sampleCodec) registry
    [.acquireModel 0 "o" model [], .pool (.choose 0 0 0)]).any fun waiting =>
      match waiting.exec sampleCodec (.pool (.take 0 0)) with
      | some (_, .pool (.granted lease)) => lease.backend.backend.id = id
      | _ => false

theorem Registry.leased_spec {registry : Registry RouteBackendUpdate} {id : ID}
    (h : registry.leased model id = true) : ∃ waiting registry' lease,
      run (Registry.step sampleCodec) registry
        [.acquireModel 0 "o" model [], .pool (.choose 0 0 0)] = some waiting ∧
      waiting.exec sampleCodec (.pool (.take 0 0)) = some (registry', .pool (.granted lease)) ∧
      lease.backend.backend.id = id := by
  obtain ⟨waiting, hwaiting, htake⟩ := (Option.any_eq_true _ _).mp h
  split at htake
  · rename_i registry' lease hexec
    exact ⟨waiting, registry', lease, hwaiting, hexec, by simpa using htake⟩
  · cases htake

/-- A route with the model is deleted, and its name is used for another model and deleted
again.  A lease for the first model is then granted on the wildcard. -/
theorem deleted_model_served :
    ∃ pool system buried waiting registry' lease,
      newPool sampleConfig [sampleBackend "s" "static"] = .ok pool ∧
      run System.step (.start pool) [.observe "s" (.setHealth .healthHealthy) 0] = some system ∧
      run (Buried.step sampleCodec) (.start (newRouteBackendRegistry _ system 0))
        (applySample "u1" "m" 1 false ++ applySample "u1" "m" 2 true ++
          applySample "u2" "n" 1 false ++ applySample "u2" "n" 2 true) = some buried ∧
      "m" ∈ buried.deleted ∧
      run (Registry.step sampleCodec) buried.registry
        [.acquireModel 0 "o" "m" [], .pool (.choose 0 0 0)] = some waiting ∧
      waiting.exec sampleCodec (.pool (.take 0 0)) = some (registry', .pool (.granted lease)) ∧
      lease.backend.backend.id = "s" := by
  have hafter : buriedAfter (applySample "u1" "m" 1 false ++ applySample "u1" "m" 2 true ++
      applySample "u2" "n" 1 false ++ applySample "u2" "n" 2 true)
      (fun _ buried => decide ("m" ∈ buried.deleted) && buried.registry.leased "m" "s") = true := by
    decide +kernel
  obtain ⟨pool, system, buried, hpool, hsystem, hrun, htest⟩ := buriedAfter_spec hafter
  simp only [Bool.and_eq_true, decide_eq_true_eq] at htest
  obtain ⟨waiting, registry', lease, hwaiting, hexec, hid⟩ := Registry.leased_spec htest.2
  exact ⟨pool, system, buried, waiting, registry', lease, hpool, hsystem, hrun, htest.1, hwaiting,
    hexec, hid⟩

end Streamweld.Proxy
