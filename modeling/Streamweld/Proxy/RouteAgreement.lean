import Streamweld.Lib.Lists
import Streamweld.Proxy.Routes

/-!
# The registry and the pool agree

`registry_pool_agree`: in every run of the registry and the callers of its pool, the pool
serves the backends of the live routes, or those it had at the start where no route is live.

There are four groups.

* A normalized snapshot.  `RouteSnapshot.Sound` is what `normalizeRouteSnapshot` leaves behind:
  the pool stores the backends of the snapshot as they are.
* The combination.  What `combined` accepts has distinct models and distinct identifiers.
* The steps.  `Registry.exec_cases` says what a step does to the registry.  An update is
  installed, or it repeats the stored one, or nothing changes but the pool.
* The invariant `Registry.Agree` and its run.
-/

namespace Streamweld.Proxy

open Streamweld.Backends Streamweld.Lib Streamweld.Migrate

variable {δ : Type} {model route : String} {backends : List Backend} {event : RouteEvent}
  {reply : RouteReply} {backend : Backend} {system : System} {call : Nat} {codec : Codec δ}
  {snapshot : RouteSnapshot δ} {registry : Registry δ}

/-! ## A normalized snapshot -/

/-- The pool stores the backend as it is, if it takes it. -/
def StoredAsIs (backend : Backend) : Prop :=
  ∀ normalized, normalizeBackend backend = .ok normalized → normalized = backend

structure RouteSnapshot.Sound (snapshot : RouteSnapshot δ) : Prop where
  model : snapshot.model ≠ ""
  serves : ∀ backend ∈ snapshot.backends, backend.model = snapshot.model
  stored : ∀ backend ∈ snapshot.backends, StoredAsIs backend

theorem absoluteHTTP_of_isOrigin {url : URL} (h : isOrigin url = true) :
    url.absoluteHTTP = true := by
  simp only [isOrigin, Bool.and_eq_true] at h
  simp only [URL.absoluteHTTP, Bool.and_eq_true]
  exact h.1.1.1.1

theorem normalizeRouteBackend_ok {seen : List Backend} {index : Nat} {input : RouteBackendInput}
    {item : Backend} {canonical : RouteBackendInput}
    (h : normalizeRouteBackend codec model seen index input = .ok (item, canonical)) :
    item.model = model ∧ StoredAsIs item := by
  simp only [normalizeRouteBackend] at h
  split at h
  · cases h
  · split at h
    · cases h
    · rename_i parsed hparsed
      split at h
      · cases h
      · rename_i hverdict
        split at h
        · cases h
        · split at h
          · cases h
          · split at h
            · cases h
            · simp only [Except.ok.injEq, Prod.mk.injEq] at h
              obtain ⟨rfl, -⟩ := h
              refine ⟨rfl, fun normalized hnormalized => ?_⟩
              have horigin := (Option.filter_eq_some_iff.mp hparsed).2
              have hlower := lowerScheme_of_absoluteHTTP (absoluteHTTP_of_isOrigin horigin)
              refine normalizeBackend_eq_self hnormalized (congrArg some hlower) rfl ?_
              intro hundefined
              have hinput : input.templateVerdict = .undefined "" := hundefined
              exact hverdict (by rw [hinput]; rfl)

theorem normalizeRouteBackends_ok {index : Nat} {items result : List Backend}
    {canonical canonical' inputs : List RouteBackendInput}
    (h : normalizeRouteBackends codec model index items canonical inputs = .ok (result, canonical'))
    (hitems : ∀ item ∈ items, item.model = model ∧ StoredAsIs item) :
    ∀ item ∈ result, item.model = model ∧ StoredAsIs item := by
  induction inputs generalizing index items canonical with
  | nil =>
    cases h
    exact hitems
  | cons input rest ih =>
    rw [normalizeRouteBackends] at h
    split at h
    · cases h
    · rename_i item canonicalInput hitem
      exact ih h (List.forall_mem_append.mpr
        ⟨hitems, List.forall_mem_singleton.mpr (normalizeRouteBackend_ok hitem)⟩)

/-- What the checks before the policy say about the model. -/
theorem updateProblem_model {update : RouteBackendUpdate} (h : updateProblem route update = none) :
    update.model ≠ "" := by
  have hmodel : validateRouteText "model" update.model 512 = none := by
    rw [updateProblem, Option.or_eq_none_iff, Option.or_eq_none_iff] at h
    exact h.2.1
  intro hempty
  rw [validateRouteText, if_pos (.inl hempty)] at hmodel
  cases hmodel

theorem normalizeRouteSnapshot_ok {update : RouteBackendUpdate}
    (h : normalizeRouteSnapshot codec route update = .ok snapshot) :
    snapshot.Sound ∧ snapshot.model = update.model ∧ snapshot.uid = update.uid ∧
      snapshot.generation = update.observedGeneration ∧ snapshot.deleted = update.deleted := by
  unfold normalizeRouteSnapshot at h
  split at h
  · cases h
  · rename_i hproblem
    split at h
    · cases h
    · cases h
    · rename_i policy items canonical hpolicy hitems
      cases h
      have hok := normalizeRouteBackends_ok hitems (by simp)
      refine ⟨⟨updateProblem_model hproblem, ?_, ?_⟩, rfl, rfl, rfl, rfl⟩
      · intro backend hbackend
        exact (hok backend ((List.mem_insertionSort _).mp hbackend)).1
      · intro backend hbackend
        exact (hok backend ((List.mem_insertionSort _).mp hbackend)).2

/-- The pool takes a list of such backends as it is, or not at all. -/
theorem normalizeAll_storedAsIs {normalized : List Backend}
    (h : normalizeAll 0 [] backends = .ok normalized)
    (hstored : ∀ backend ∈ backends, StoredAsIs backend) : normalized = backends := by
  obtain ⟨values, rfl, hvalues, -⟩ := normalizeAll_ok h
  clear h
  induction hvalues with
  | nil => rfl
  | cons hvalue _ ih =>
    have hhead := hstored _ List.mem_cons_self _ hvalue
    have htail := ih fun backend hbackend => hstored backend (List.mem_cons_of_mem _ hbackend)
    rw [hhead, htail]

/-! ## The combination -/

/-- The identifiers that `combined` remembers are those of the collected backends. -/
structure Combined.Ok (acc : Combined) : Prop where
  seen : acc.seen.map Prod.fst = (acc.backends.map Backend.id).reverse
  distinct : (acc.backends.map Backend.id).Nodup
  models : (acc.models.map Prod.fst).Nodup

theorem combineBackends_ok {acc acc' : Combined} {items : List Backend}
    (h : combineBackends route acc items = .ok acc') (hacc : acc.Ok) :
    acc'.Ok ∧ acc'.backends = acc.backends ++ items ∧ acc'.models = acc.models := by
  induction items generalizing acc with
  | nil =>
    cases h
    exact ⟨hacc, by simp, rfl⟩
  | cons item rest ih =>
    rw [combineBackends] at h
    split at h
    · cases h
    · rename_i hnew
      have hfresh : item.id ∉ acc.backends.map Backend.id := by
        have := lookup_eq_none_iff_notMem.mp hnew
        rwa [hacc.seen, List.mem_reverse] at this
      obtain ⟨hok, hbackends, hmodels⟩ := ih h
        ⟨by simp [hacc.seen], by
          rw [List.map_append, List.nodup_append]
          refine ⟨hacc.distinct, by simp, ?_⟩
          rintro id hid other hother rfl
          exact hfresh (List.mem_singleton.mp hother ▸ hid),
        hacc.models⟩
      exact ⟨hok, by simp [hbackends], hmodels⟩

/-- The live routes of a list. -/
def liveRoutes (routes : List (String × RouteSnapshot δ)) : List (String × RouteSnapshot δ) :=
  routes.filter fun entry => !entry.2.deleted

theorem combineRoutes_ok {acc acc' : Combined} {routes : List (String × RouteSnapshot δ)}
    (h : combineRoutes acc routes = .ok acc') (hacc : acc.Ok) :
    acc'.Ok ∧ acc'.backends = acc.backends ++ (liveRoutes routes).flatMap (·.2.backends) ∧
      acc'.models.map Prod.fst =
        ((liveRoutes routes).map (·.2.model)).reverse ++ acc.models.map Prod.fst := by
  induction routes generalizing acc with
  | nil =>
    cases h
    exact ⟨hacc, by simp [liveRoutes], by simp [liveRoutes]⟩
  | cons entry rest ih =>
    obtain ⟨route, snapshot⟩ := entry
    rw [combineRoutes] at h
    split at h
    · rename_i hdeleted
      simpa [liveRoutes, hdeleted] using ih h hacc
    · rename_i hlive
      split at h
      · cases h
      · rename_i hmodel
        split at h
        · cases h
        · rename_i next hnext
          obtain ⟨hok, hbackends, hmodels⟩ := combineBackends_ok hnext
            ⟨hacc.seen, hacc.distinct,
              List.nodup_cons.mpr ⟨lookup_eq_none_iff_notMem.mp hmodel, hacc.models⟩⟩
          obtain ⟨hok', hbackends', hmodels'⟩ := ih h hok
          have hfilter : liveRoutes ((route, snapshot) :: rest) =
              (route, snapshot) :: liveRoutes rest := by
            simp [liveRoutes, hlive]
          refine ⟨hok', ?_, ?_⟩
          · rw [hbackends', hbackends, hfilter]
            simp
          · rw [hmodels', hmodels, hfilter]
            simp

theorem mem_sortedRoutes {routes : AList fun _ : String => RouteSnapshot δ} :
    (route, snapshot) ∈ sortedRoutes routes ↔ routes.lookup route = some snapshot := by
  rw [sortedRoutes, List.mem_insertionSort]
  constructor
  · intro h
    obtain ⟨⟨name, value⟩, hentry, heq⟩ := List.mem_map.mp h
    cases heq
    exact AList.mem_lookup_iff.mpr hentry
  · intro h
    exact List.mem_map.mpr ⟨⟨route, snapshot⟩, AList.mem_lookup_iff.mp h, rfl⟩

/-- The route has the snapshot, which is not a tombstone. -/
def Registry.Live (registry : Registry δ) (route : String) (snapshot : RouteSnapshot δ) : Prop :=
  registry.routes.lookup route = some snapshot ∧ snapshot.deleted = false

/-- The backends that the pool should serve: those of the live routes, or the static ones if
no route is live. -/
def Registry.Expected (registry : Registry δ) (backend : Backend) : Prop :=
  (∃ route snapshot, registry.Live route snapshot ∧ backend ∈ snapshot.backends) ∨
    (¬ ∃ route snapshot, registry.Live route snapshot) ∧ backend ∈ registry.static

/-- The models and the identifiers of the live routes are distinct. -/
structure Registry.Distinct (registry : Registry δ) : Prop where
  models : ∀ route route' snapshot snapshot', registry.Live route snapshot →
    registry.Live route' snapshot' → snapshot.model = snapshot'.model → route = route'
  ids : ∀ route route' snapshot snapshot', registry.Live route snapshot →
    registry.Live route' snapshot' → ∀ backend ∈ snapshot.backends,
      ∀ backend' ∈ snapshot'.backends, backend.id = backend'.id → route = route'

theorem mem_liveRoutes :
    (route, snapshot) ∈ liveRoutes (sortedRoutes registry.routes) ↔
      registry.Live route snapshot := by
  simp [liveRoutes, mem_sortedRoutes, Registry.Live]

theorem Registry.all_deleted_iff :
    (registry.routes.entries.all fun entry => entry.2.deleted) = true ↔
      ¬ ∃ route snapshot, registry.Live route snapshot := by
  rw [List.all_eq_true]
  constructor
  · rintro hall ⟨route, snapshot, hlookup, hlive⟩
    have hdeleted := hall ⟨route, snapshot⟩ (AList.mem_lookup_iff.mp hlookup)
    rw [hlive] at hdeleted
    cases hdeleted
  · intro hnone entry hentry
    by_contra hlive
    exact hnone ⟨entry.1, entry.2, AList.mem_lookup_iff.mpr hentry, by simpa using hlive⟩

/-- What `combined` accepts is what the pool should serve, with distinct identifiers. -/
theorem Registry.combined_ok (h : registry.combined registry.routes = .ok backends)
    (hstatic : (registry.static.map Backend.id).Nodup) :
    registry.Distinct ∧ (backends.map Backend.id).Nodup ∧
      ∀ backend, backend ∈ backends ↔ registry.Expected backend := by
  unfold Registry.combined at h
  split at h
  · rename_i hall
    have hnone := Registry.all_deleted_iff.mp hall
    cases h
    refine ⟨⟨?_, ?_⟩, hstatic, fun backend => ?_⟩
    · exact fun route _ snapshot _ hlive => absurd ⟨route, snapshot, hlive⟩ hnone
    · exact fun route _ snapshot _ hlive => absurd ⟨route, snapshot, hlive⟩ hnone
    · constructor
      · exact fun hmem => .inr ⟨hnone, hmem⟩
      · rintro (⟨route, snapshot, hlive, -⟩ | ⟨-, hmem⟩)
        · exact absurd ⟨route, snapshot, hlive⟩ hnone
        · exact hmem
  · rename_i hall
    have hsome := not_not.mp (mt Registry.all_deleted_iff.mpr hall)
    cases hcombine : combineRoutes ⟨[], [], []⟩ (sortedRoutes registry.routes) with
    | error problem =>
      rw [hcombine] at h
      cases h
    | ok acc =>
      rw [hcombine] at h
      cases h
      obtain ⟨hok, hbackends, hmodels⟩ :=
        combineRoutes_ok hcombine ⟨rfl, List.nodup_nil, List.nodup_nil⟩
      rw [List.nil_append] at hbackends
      have hmodelsNodup : ((liveRoutes (sortedRoutes registry.routes)).map (·.2.model)).Nodup := by
        have := hok.models
        rwa [hmodels, List.map_nil, List.append_nil, List.nodup_reverse] at this
      have hidsNodup := hok.distinct
      rw [hbackends, List.map_flatMap, List.nodup_flatMap] at hidsNodup
      refine ⟨⟨?_, ?_⟩, hok.distinct, fun backend => ?_⟩
      · intro route route' snapshot snapshot' hlive hlive' hmodel
        have hsame := List.inj_on_of_nodup_map hmodelsNodup (mem_liveRoutes.mpr hlive)
          (mem_liveRoutes.mpr hlive') hmodel
        exact congrArg Prod.fst hsame
      · intro route route' snapshot snapshot' hlive hlive' backend hbackend backend' hbackend' hid
        by_contra hne
        have hsymm : Std.Symm (Function.onFun List.Disjoint
            fun entry : String × RouteSnapshot δ => entry.2.backends.map Backend.id) :=
          ⟨fun _ _ h => List.Disjoint.symm h⟩
        have hdisjoint := hidsNodup.2.forall (mem_liveRoutes.mpr hlive) (mem_liveRoutes.mpr hlive')
          fun heq => hne (congrArg Prod.fst heq)
        exact hdisjoint (List.mem_map_of_mem hbackend) (hid ▸ List.mem_map_of_mem hbackend')
      · rw [hbackends, List.mem_flatMap]
        constructor
        · rintro ⟨⟨route, snapshot⟩, hlive, hmem⟩
          exact .inl ⟨route, snapshot, mem_liveRoutes.mp hlive, hmem⟩
        · rintro (⟨route, snapshot, hlive, hmem⟩ | ⟨hnone, -⟩)
          · exact ⟨(route, snapshot), mem_liveRoutes.mpr hlive, hmem⟩
          · exact absurd hsome hnone

/-! ## Steps -/

section Steps

variable [DecidableEq δ] {registry' : Registry δ}

/-- The update passes the fence and is installed. -/
structure Registry.Installed (registry : Registry δ) (route : String) (snapshot : RouteSnapshot δ)
    (registry' : Registry δ) : Prop where
  fenced : fence (registry.routes.lookup route) snapshot = .open
  routes : registry'.routes = registry.routes.insert route snapshot
  static : registry'.static = registry.static
  replaced : ∃ backends normalized now, registry'.combined registry'.routes = .ok backends ∧
    normalizeAll 0 [] backends = .ok normalized ∧
    registry'.system =
      { registry.system with pool := (registry.system.pool.replace backends true now).1 }
  lock : registry'.lock = .reporting route snapshot

/-- Nothing changes but the pool, and not by the controller.  The end of `apply` drops
identifiers of its own route. -/
structure Registry.Kept (registry registry' : Registry δ) : Prop where
  routes : registry'.routes = registry.routes
  static : registry'.static = registry.static
  system : registry'.system = registry.system ∨
    ∃ event reply, (∀ call, event ≠ .controller call) ∧
      registry.system.exec event = some (registry'.system, reply)
  routeIDs : ∀ route, (∀ snapshot, registry.lock ≠ .reporting route snapshot) →
    registry'.routeIDs.lookup route = registry.routeIDs.lookup route

theorem Registry.install_cases (registry : Registry δ) (now : ID → Int)
    (hfence : fence (registry.routes.lookup route) snapshot = .open) :
    ((registry.install route snapshot now).2 = .accepted ∧
      registry.Installed route snapshot (registry.install route snapshot now).1) ∨
    (∃ error, (registry.install route snapshot now).2 = .rejected error) ∧
      (registry.install route snapshot now).1 = registry := by
  simp only [Registry.install]
  cases hcombined : registry.combined (registry.routes.insert route snapshot) with
  | error problem => exact .inr ⟨⟨_, rfl⟩, rfl⟩
  | ok backends =>
    cases hnormalized : normalizeAll 0 [] backends with
    | error problem =>
      -- a list that is not taken leaves the pool as it is
      have hreplace : registry.system.pool.replace backends true now =
          (registry.system.pool, .error problem) := by
        simp [Pool.replace, hnormalized]
      simp only [hreplace]
      exact .inr ⟨⟨_, rfl⟩, trivial⟩
    | ok normalized =>
      have hreplace : (registry.system.pool.replace backends true now).2 = .ok () := by
        simp [Pool.replace, hnormalized]
      simp only [hreplace]
      exact .inl ⟨trivial, hfence, rfl, rfl,
        ⟨backends, normalized, now, hcombined, hnormalized, rfl⟩, rfl⟩

/-- What `apply` does after the lock. -/
theorem Registry.apply_cases (registry : Registry δ) (route : String)
    (snapshot : RouteSnapshot δ) (now : ID → Int) :
    ((registry.apply route snapshot now).2 = .accepted ∧
      registry.Installed route snapshot (registry.apply route snapshot now).1) ∨
    (∃ lock, (registry.apply route snapshot now).1 = { registry with lock := lock }) ∧
      ((registry.apply route snapshot now).2 = .accepted →
        fence (registry.routes.lookup route) snapshot = .repeated) := by
  simp only [Registry.apply]
  split
  · exact .inr ⟨⟨_, rfl⟩, by simp⟩
  · exact .inr ⟨⟨_, rfl⟩, by simp⟩
  · rename_i hrepeated
    exact .inr ⟨⟨_, rfl⟩, fun _ => hrepeated⟩
  · rename_i hconflict hstale hrepeated
    have hfence : fence (registry.routes.lookup route) snapshot = .open := by
      cases hlookup : registry.routes.lookup route with
      | none => rfl
      | some existing =>
        cases hfence : fence (some existing) snapshot with
        | conflict => exact absurd (hlookup ▸ hfence) (hconflict existing hlookup)
        | stale => exact absurd (hlookup ▸ hfence) (hstale existing hlookup)
        | repeated => exact absurd (hlookup ▸ hfence) (hrepeated existing hlookup)
        | «open» => rfl
    rcases registry.install_cases now hfence with hinstalled | ⟨⟨error, hreply⟩, hsame⟩
    · exact .inl hinstalled
    · exact .inr ⟨⟨registry.lock, hsame⟩, by simp [hreply]⟩

/-- `apply` hands the lock to its last part, or it returns and does not hold it. -/
theorem Registry.apply_lock (registry : Registry δ) (route : String) (snapshot : RouteSnapshot δ)
    (now : ID → Int) : (registry.apply route snapshot now).1.lock = registry.lock ∨
      ∃ stored, (registry.apply route snapshot now).1.lock = .reporting route stored := by
  simp only [Registry.apply]
  split
  · exact .inr ⟨_, rfl⟩
  · exact .inr ⟨_, rfl⟩
  · exact .inr ⟨_, rfl⟩
  · simp only [Registry.install]
    split
    · exact .inl rfl
    · split
      · exact .inl rfl
      · exact .inr ⟨_, rfl⟩

theorem Registry.exec_pool {event : Event} (h : ¬ ∃ call, event = .controller call) :
    registry.exec codec (.pool event) = (registry.system.exec event).map fun result =>
      ({ registry with system := result.1, lock := registry.lock.release result.1 },
        .pool result.2) := by
  cases event <;> first | rfl | exact absurd ⟨_, rfl⟩ h

/-- A step installs an update, or it keeps the routes; it then accepts an update only if it
repeats the stored one. -/
theorem Registry.exec_cases (h : registry.exec codec event = some (registry', reply)) :
    (∃ route update now snapshot, event = .apply route update now ∧ reply = .accepted ∧
      normalizeRouteSnapshot codec route update = .ok snapshot ∧
      registry.Installed route snapshot registry') ∨
    registry.Kept registry' ∧ (reply = .accepted → ∃ route update now snapshot,
      event = .apply route update now ∧
      normalizeRouteSnapshot codec route update = .ok snapshot ∧
      fence (registry.routes.lookup route) snapshot = .repeated) := by
  cases event with
  | pool event =>
    by_cases hcontroller : ∃ call, event = .controller call
    · obtain ⟨call, rfl⟩ := hcontroller
      cases h
    · rw [Registry.exec_pool hcontroller] at h
      obtain ⟨result, hresult, heq⟩ := Option.map_eq_some_iff.mp h
      cases heq
      refine .inr ⟨⟨rfl, rfl, .inr ⟨event, result.2, fun call hcall => ?_, hresult⟩,
        fun _ _ => rfl⟩, by simp⟩
      exact hcontroller ⟨call, hcall⟩
  | apply route update now =>
    simp only [Registry.exec] at h
    split at h
    · cases h
      exact .inr ⟨⟨rfl, rfl, .inl rfl, fun _ _ => rfl⟩, by simp⟩
    · rename_i snapshot hsnapshot hlock
      simp only [Option.some.injEq] at h
      have hcases := registry.apply_cases route snapshot now
      rw [h] at hcases
      rcases hcases with ⟨hreply, hinstalled⟩ | ⟨⟨lock, hsame⟩, hrepeated⟩
      · exact .inl ⟨route, update, now, snapshot, rfl, hreply, hsnapshot, hinstalled⟩
      · dsimp only at hsame hrepeated
        subst hsame
        exact .inr ⟨⟨rfl, rfl, .inl rfl, fun _ _ => rfl⟩, fun haccepted =>
          ⟨route, update, now, snapshot, rfl, hsnapshot, hrepeated haccepted⟩⟩
    · cases h
  | report now =>
    simp only [Registry.exec] at h
    split at h
    · rename_i route snapshot hlock
      cases h
      refine .inr ⟨⟨rfl, rfl, .inl rfl, fun other hother => ?_⟩, by simp⟩
      have hne : other ≠ route := by
        rintro rfl
        exact hother snapshot hlock
      simp only [Registry.resultLocked]
      split
      · exact AList.lookup_insert_ne hne
      · rfl
    · cases h
  | acquireModel call owner model excluded =>
    simp only [Registry.exec] at h
    split at h
    · simp only [Registry.acquireModel] at h
      split at h
      · cases h
        exact .inr ⟨⟨rfl, rfl, .inl rfl, fun _ _ => rfl⟩, by simp⟩
      · obtain ⟨result, hresult, heq⟩ := Option.map_eq_some_iff.mp h
        cases heq
        exact .inr ⟨⟨rfl, rfl, .inr ⟨_, result.2, by simp, hresult⟩, fun _ _ => rfl⟩, by simp⟩
    · cases h

end Steps

/-! ## The invariant -/

section Agreement

variable {registry' : Registry δ}

structure Registry.Agree (registry : Registry δ) : Prop where
  system : registry.system.Inv
  static : (registry.static.map Backend.id).Nodup
  staticStored : ∀ backend ∈ registry.static, StoredAsIs backend
  sound : ∀ route snapshot, registry.routes.lookup route = some snapshot → snapshot.Sound
  serving : ∀ id backend, registry.system.pool.serving id = some backend ↔
    registry.Expected backend ∧ backend.id = id
  distinct : registry.Distinct

/-- The call that holds the lock is under way and asks for the model. -/
def Registry.Admits (registry : Registry δ) : Prop :=
  ∀ call model, registry.lock = .admitting call model →
    ∃ acquiring, registry.system.acquiring.lookup call = some acquiring ∧
      acquiring.model = some model

theorem Registry.live_congr (hroutes : registry'.routes = registry.routes) :
    registry'.Live = registry.Live := by
  funext route snapshot
  rw [Registry.Live, Registry.Live, hroutes]

theorem Registry.expected_congr (hroutes : registry'.routes = registry.routes)
    (hstatic : registry'.static = registry.static) : registry'.Expected = registry.Expected := by
  funext backend
  rw [Registry.Expected, Registry.Expected, Registry.live_congr hroutes, hstatic]

theorem Registry.Expected.storedAsIs (h : registry.Expected backend)
    (hsound : ∀ route snapshot, registry.routes.lookup route = some snapshot → snapshot.Sound)
    (hstatic : ∀ backend ∈ registry.static, StoredAsIs backend) : StoredAsIs backend := by
  rcases h with ⟨route, snapshot, hlive, hmem⟩ | ⟨-, hmem⟩
  · exact (hsound route snapshot hlive.1).stored backend hmem
  · exact hstatic backend hmem

/-- With distinct identifiers, the backend that a search finds is the one with the
identifier. -/
theorem find?_id_eq_some (h : (backends.map Backend.id).Nodup) {id : ID} :
    (backends.find? fun candidate => candidate.id = id) = some backend ↔
      backend ∈ backends ∧ backend.id = id := by
  constructor
  · intro hfind
    exact ⟨List.mem_of_find?_eq_some hfind, by simpa using List.find?_some hfind⟩
  · rintro ⟨hmem, rfl⟩
    cases hfind : backends.find? fun candidate => candidate.id = backend.id with
    | none => exact absurd (List.find?_eq_none.mp hfind backend hmem) (by simp)
    | some found =>
      have hid : found.id = backend.id := by simpa using List.find?_some hfind
      rw [List.inj_on_of_nodup_map h (List.mem_of_find?_eq_some hfind) hmem hid]

/-- The pool after a step that is not one of the controller. -/
theorem Registry.Kept.serving [DecidableEq δ] (h : registry.Kept registry')
    (hinv : registry.system.Inv) : registry'.system.Inv ∧
      ∀ id, registry'.system.pool.serving id = registry.system.pool.serving id := by
  rcases h.system with hsame | ⟨event, reply, hevent, hexec⟩
  · rw [hsame]
    exact ⟨hinv, fun _ => rfl⟩
  · have hspec := System.exec_spec hinv hexec
    exact ⟨hspec.inv, hspec.serving hevent⟩

theorem Registry.Agree.kept [DecidableEq δ] (h : registry.Agree)
    (hkept : registry.Kept registry') : registry'.Agree := by
  obtain ⟨hinv, hserving⟩ := hkept.serving h.system
  refine ⟨hinv, hkept.static ▸ h.static, hkept.static ▸ h.staticStored, hkept.routes ▸ h.sound,
    fun id backend => ?_, ?_⟩
  · rw [hserving, Registry.expected_congr hkept.routes hkept.static]
    exact h.serving id backend
  · have hlive := Registry.live_congr hkept.routes
    exact ⟨hlive ▸ h.distinct.models, hlive ▸ h.distinct.ids⟩

theorem Registry.Agree.installed [DecidableEq δ] (h : registry.Agree) (hsnapshot : snapshot.Sound)
    (hinstalled : registry.Installed route snapshot registry') : registry'.Agree := by
  obtain ⟨backends, normalized, now, hcombined, hnormalized, hsystem⟩ := hinstalled.replaced
  have hstatic : (registry'.static.map Backend.id).Nodup := hinstalled.static ▸ h.static
  have hstored : ∀ backend ∈ registry'.static, StoredAsIs backend :=
    hinstalled.static ▸ h.staticStored
  have hsound : ∀ other value, registry'.routes.lookup other = some value → value.Sound := by
    intro other value hlookup
    rw [hinstalled.routes] at hlookup
    by_cases hother : other = route
    · subst hother
      rw [AList.lookup_insert, Option.some.injEq] at hlookup
      exact hlookup ▸ hsnapshot
    · rw [AList.lookup_insert_ne hother] at hlookup
      exact h.sound other value hlookup
  obtain ⟨hdistinct, hnodup, hmem⟩ := Registry.combined_ok hcombined hstatic
  have hsame : normalized = backends := normalizeAll_storedAsIs hnormalized fun backend hbackend =>
    ((hmem backend).mp hbackend).storedAsIs hsound hstored
  have hinv : registry'.system.Inv := by
    have hstep := System.Step.controller h.system (.replace backends true now)
    rw [hsystem]
    exact hstep.inv
  refine ⟨hinv, hstatic, hstored, hsound, fun id backend => ?_, hdistinct⟩
  obtain ⟨-, hserving⟩ : registry.system.pool.Block registry.system.unreleased registry.system.pins
      (fun _ => False) _ _ ∧ _ := Pool.replace_spec h.system true now hnormalized
  have hpool : registry'.system.pool = (registry.system.pool.replace backends true now).1 := by
    rw [hsystem]
  rw [hpool, hserving, hsame, find?_id_eq_some hnodup, hmem]

/-- The backends of `List` are those that the pool serves. -/
theorem mem_list (h : system.Inv) {now : Int} :
    backend ∈ (system.pool.list now).map State.backend ↔
      system.pool.serving backend.id = some backend := by
  have hmem : backend ∈ (system.pool.list now).map State.backend ↔
      ∃ entry ∈ system.pool.records.entries, (system.pool.heap entry.2).retired = false ∧
        (system.pool.heap entry.2).backend = backend := by
    simp [Pool.list, List.mem_insertionSort, Record.state, and_assoc]
  rw [hmem, Pool.serving_eq_some]
  constructor
  · rintro ⟨entry, hentry, hretired, rfl⟩
    have hlookup := AList.mem_lookup_iff.mpr hentry
    exact ⟨entry.2, by rwa [(h.named entry.1 entry.2 hlookup).2], hretired, rfl⟩
  · rintro ⟨ref, hlookup, hretired, hbackend⟩
    exact ⟨⟨backend.id, ref⟩, AList.mem_lookup_iff.mp hlookup, hretired, hbackend⟩

theorem list_ids_nodup (h : system.Inv) (now : Int) :
    (((system.pool.list now).map State.backend).map Backend.id).Nodup := by
  have hperm : (((system.pool.list now).map State.backend).map Backend.id).Perm
      ((system.pool.records.entries.filter fun entry => !(system.pool.heap entry.2).retired).map
        fun entry => (system.pool.heap entry.2).backend.id) := by
    rw [List.map_map]
    refine ((List.perm_insertionSort _ _).map _).trans ?_
    rw [List.map_map]
    exact .refl _
  rw [hperm.nodup_iff]
  have hkeys : ((system.pool.records.entries.filter
      fun entry => !(system.pool.heap entry.2).retired).map
        fun entry => (system.pool.heap entry.2).backend.id) =
      (system.pool.records.entries.filter
        fun entry => !(system.pool.heap entry.2).retired).map Sigma.fst :=
    List.map_congr_left fun entry hentry =>
      (h.named entry.1 entry.2
        (AList.mem_lookup_iff.mpr (List.mem_of_mem_filter hentry))).2
  rw [hkeys]
  exact system.pool.records.nodupKeys.sublist List.filter_sublist

theorem newRouteBackendRegistry_agree (h : system.Inv) (now : Int) :
    (newRouteBackendRegistry δ system now).Agree := by
  have hnone : ¬ ∃ route snapshot, (newRouteBackendRegistry δ system now).Live route snapshot := by
    rintro ⟨route, snapshot, hlookup, -⟩
    simp [newRouteBackendRegistry] at hlookup
  refine ⟨h, list_ids_nodup h now, fun backend hbackend normalized hnormalized => ?_,
    fun route snapshot hlookup => ?_, fun id backend => ?_, ?_, ?_⟩
  · obtain ⟨ref, hlookup, -, rfl⟩ := Pool.serving_eq_some.mp ((mem_list h).mp hbackend)
    have hnormal := h.normal ref (h.named _ ref hlookup).1
    rw [hnormal] at hnormalized
    exact (Except.ok.inj hnormalized).symm
  · simp [newRouteBackendRegistry] at hlookup
  · have hserving : system.pool.serving id = some backend ↔
        backend ∈ (system.pool.list now).map State.backend ∧ backend.id = id := by
      rw [mem_list h]
      constructor
      · intro hserves
        obtain ⟨ref, hlookup, -, rfl⟩ := Pool.serving_eq_some.mp hserves
        have hid := (h.named id ref hlookup).2
        exact ⟨by rwa [hid], hid⟩
      · rintro ⟨hserves, rfl⟩
        exact hserves
    refine hserving.trans (and_congr_left fun _ => ?_)
    constructor
    · exact fun hmem => .inr ⟨hnone, hmem⟩
    · rintro (⟨route, snapshot, hlive, -⟩ | ⟨-, hmem⟩)
      · exact absurd ⟨route, snapshot, hlive⟩ hnone
      · exact hmem
  · exact fun route _ snapshot _ hlive => absurd ⟨route, snapshot, hlive⟩ hnone
  · exact fun route _ snapshot _ hlive => absurd ⟨route, snapshot, hlive⟩ hnone

theorem Registry.exec_agree [DecidableEq δ] (h : registry.Agree)
    (hexec : registry.exec codec event = some (registry', reply)) : registry'.Agree := by
  rcases Registry.exec_cases hexec with
    ⟨route, update, now, snapshot, -, -, hsnapshot, hinstalled⟩ | ⟨hkept, -⟩
  · exact h.installed (normalizeRouteSnapshot_ok hsnapshot).1 hinstalled
  · exact h.kept hkept

/-! ## The call that holds the lock -/

/-- A call of `acquire` begins under a number that is not in use. -/
theorem acquire_fresh {owner : String} {model : Option String} {excluded : List ID}
    {result : System × Reply} (h : system.exec (.acquire call owner model excluded) = some result) :
    call ∉ system.acquiring := by
  intro hmem
  simp [System.exec, hmem] at h

theorem mem_acquiring {acquiring : Acquiring} (h : system.acquiring.lookup call = some acquiring) :
    call ∈ system.acquiring :=
  AList.lookup_isSome.mp (by rw [h]; rfl)

theorem Registry.exec_admits [DecidableEq δ] (h : registry.Agree) (hadmits : registry.Admits)
    (hexec : registry.exec codec event = some (registry', reply)) : registry'.Admits := by
  intro call model hlock
  cases event with
  | pool event =>
    by_cases hcontroller : ∃ call, event = .controller call
    · obtain ⟨call, rfl⟩ := hcontroller
      cases hexec
    · rw [Registry.exec_pool hcontroller] at hexec
      obtain ⟨result, hresult, heq⟩ := Option.map_eq_some_iff.mp hexec
      cases heq
      have hspec := System.exec_spec h.system hresult
      simp only [RegistryLock.release] at hlock
      cases hold : registry.lock with
      | free => simp [hold] at hlock
      | reporting route snapshot => simp [hold] at hlock
      | admitting held asked =>
        rw [hold] at hlock
        dsimp only at hlock
        split at hlock
        · rename_i hmem
          cases hlock
          obtain ⟨before, hbefore, hmodel⟩ := hadmits call model hold
          obtain ⟨after, hafter⟩ := Option.isSome_iff_exists.mp (AList.lookup_isSome.mpr hmem)
          rcases hspec.frame.calls call after hafter with
            ⟨acquiring, hacquiring, hsame⟩ | ⟨owner, excluded, rfl⟩
          · rw [hbefore, Option.some.injEq] at hacquiring
            subst hacquiring
            exact ⟨after, hafter, hsame ▸ hmodel⟩
          · exact absurd (mem_acquiring hbefore) (acquire_fresh hresult)
        · cases hlock
  | apply route update now =>
    simp only [Registry.exec] at hexec
    split at hexec
    · cases hexec
      exact hadmits call model hlock
    · rename_i snapshot hsnapshot hfree
      simp only [Option.some.injEq] at hexec
      exfalso
      rcases registry.apply_lock route snapshot now with hsame | ⟨snapshot', hreporting⟩
      · rw [hexec] at hsame
        simp only [hlock, hfree, reduceCtorEq] at hsame
      · rw [hexec] at hreporting
        simp only [hlock, reduceCtorEq] at hreporting
    · cases hexec
  | report now =>
    simp only [Registry.exec] at hexec
    split at hexec
    · cases hexec
      cases hlock
    · cases hexec
  | acquireModel started owner asked excluded =>
    simp only [Registry.exec] at hexec
    split at hexec
    · rename_i hfree
      simp only [Registry.acquireModel] at hexec
      split at hexec
      · cases hexec
        rw [hfree] at hlock
        cases hlock
      · obtain ⟨result, hresult, heq⟩ := Option.map_eq_some_iff.mp hexec
        cases heq
        dsimp only at hlock
        split at hlock
        · rename_i hmem
          cases hlock
          obtain ⟨after, hafter⟩ := Option.isSome_iff_exists.mp (AList.lookup_isSome.mpr hmem)
          rcases (System.exec_spec h.system hresult).frame.calls call after hafter with
            ⟨acquiring, hacquiring, -⟩ | ⟨_, _, heq⟩
          · exact absurd (mem_acquiring hacquiring) (acquire_fresh hresult)
          · rw [Event.acquire.injEq] at heq
            exact ⟨after, hafter, heq.2.2.1.symm⟩
        · rw [hfree] at hlock
          cases hlock
    · cases hexec

/-! ## Runs -/

variable [DecidableEq δ]

theorem Registry.run_agree (hsystem : system.Inv) {now : Int} {events : List RouteEvent}
    (hrun : run (Registry.step codec) (newRouteBackendRegistry δ system now) events =
      some registry) :
    registry.Agree ∧ registry.Admits ∧
      registry.static = (system.pool.list now).map State.backend := by
  let Good : Registry δ → Prop := fun registry => registry.Agree ∧ registry.Admits ∧
    registry.static = (system.pool.list now).map State.backend
  suffices hgood : Good registry from hgood
  refine inv_of_run ?_ ?_ hrun
  · rintro current event next ⟨hagree, hadmits, hstatic⟩ hstep
    obtain ⟨⟨after, reply⟩, hexec, rfl⟩ := Option.map_eq_some_iff.mp hstep
    refine ⟨Registry.exec_agree hagree hexec, Registry.exec_admits hagree hadmits hexec, ?_⟩
    rcases Registry.exec_cases hexec with ⟨_, _, _, _, -, -, -, hinstalled⟩ | ⟨hkept, -⟩
    · exact hinstalled.static.trans hstatic
    · exact hkept.static.trans hstatic
  · refine ⟨newRouteBackendRegistry_agree hsystem now, fun call model hlock => ?_, rfl⟩
    cases hlock

/-- The first part of `acquireModel` grants nothing. -/
theorem Registry.acquireModel_not_granted (h : registry.system.Inv) {owner : String}
    {excluded : List ID} {lease : Lease}
    (hexec : registry.exec codec (.acquireModel call owner model excluded) =
      some (registry', .pool (.granted lease))) : False := by
  simp only [Registry.exec] at hexec
  split at hexec
  · simp only [Registry.acquireModel] at hexec
    split at hexec
    · simp at hexec
    · obtain ⟨result, hresult, heq⟩ := Option.map_eq_some_iff.mp hexec
      simp only [Prod.mk.injEq, RouteReply.pool.injEq] at heq
      have hanswered := (System.exec_spec h hresult).answered
      rw [heq.2] at hanswered
      obtain ⟨-, ⟨asked, excluded, now, hrequest, -⟩, -⟩ := hanswered
      cases hrequest
  · cases hexec

/-- A lease that the pool grants to the call that holds the lock is on a backend that the pool
serves and that serves the model. -/
theorem Registry.exec_granted (hagree : registry.Agree) (hadmits : registry.Admits) {now : Int}
    {lease : Lease} (hlock : registry.lock = .admitting call model)
    (hexec : registry.exec codec (.pool (.take call now)) =
      some (registry', .pool (.granted lease))) :
    registry.Expected lease.backend.backend ∧
      backendServesModel lease.backend.backend model = true := by
  rw [Registry.exec_pool (by simp)] at hexec
  obtain ⟨result, hresult, heq⟩ := Option.map_eq_some_iff.mp hexec
  simp only [Prod.mk.injEq, RouteReply.pool.injEq] at heq
  have hspec := System.exec_spec hagree.system hresult
  have hanswered := hspec.answered
  rw [heq.2] at hanswered
  obtain ⟨hstored, ⟨asked, excluded, at', hrequest, hgrantable⟩, hbackend⟩ := hanswered
  obtain ⟨acquiring, hacquiring, hmodel⟩ := hadmits call model hlock
  simp only [System.request, hacquiring, Option.map_some, Option.some.injEq,
    Prod.mk.injEq] at hrequest
  rw [hbackend]
  refine ⟨((hagree.serving _ _).mp (Pool.serving_eq_some.mpr
    ⟨lease.record, hstored, hgrantable.retired, rfl⟩)).1, hgrantable.model model ?_⟩
  rw [← hrequest.1, hmodel]

/-- In every run of the registry over a pool that is already in use, with every other use of
the pool but by the controller:

* the pool serves exactly the backends of the live routes, or those at the start of the
  registry if no route is live;
* the live routes have distinct models and distinct identifiers of backends;
* a step that does not accept an update keeps the routes, the identifiers of the routes other
  than the one whose `apply` ends, and the backends that the pool serves;
* where a route is live, `acquireModel` returns a lease only on a backend of the live route
  with the model. -/
theorem registry_pool_agree {config : Config} {initial : List Backend} {pool : Pool}
    (hpool : newPool config initial = .ok pool) {earlier : List Event} {system : System}
    (hearlier : run System.step (.start pool) earlier = some system) {start : Int}
    {events : List RouteEvent}
    (hrun : run (Registry.step codec) (newRouteBackendRegistry δ system start) events =
      some registry) :
    (∀ id backend, registry.system.pool.serving id = some backend ↔
      ((∃ route snapshot, registry.Live route snapshot ∧ backend ∈ snapshot.backends) ∨
        (¬ ∃ route snapshot, registry.Live route snapshot) ∧
          backend ∈ (system.pool.list start).map State.backend) ∧ backend.id = id) ∧
    registry.Distinct ∧
    ∀ event registry' reply, registry.exec codec event = some (registry', reply) →
      (reply ≠ .accepted →
        registry'.routes = registry.routes ∧
        (∀ route, (∀ snapshot, registry.lock ≠ .reporting route snapshot) →
          registry'.routeIDs.lookup route = registry.routeIDs.lookup route) ∧
        ∀ id, registry'.system.pool.serving id = registry.system.pool.serving id) ∧
      (∀ call model now lease, registry.lock = .admitting call model →
        event = .pool (.take call now) → reply = .pool (.granted lease) →
        (∃ route snapshot, registry.Live route snapshot) →
        ∃ route snapshot, registry.Live route snapshot ∧ snapshot.model = model ∧
          lease.backend.backend ∈ snapshot.backends) ∧
      ∀ call owner model excluded lease, event = .acquireModel call owner model excluded →
        reply ≠ .pool (.granted lease) := by
  obtain ⟨hagree, hadmits, hstatic⟩ := Registry.run_agree (System.run_inv hpool hearlier) hrun
  refine ⟨fun id backend => ?_, hagree.distinct, fun event registry' reply hexec =>
    ⟨fun hreply => ?_, ?_, ?_⟩⟩
  · rw [hagree.serving, Registry.Expected, hstatic]
  · rcases Registry.exec_cases hexec with ⟨_, _, _, _, -, haccepted, -⟩ | ⟨hkept, -⟩
    · exact absurd haccepted hreply
    · exact ⟨hkept.routes, hkept.routeIDs, (hkept.serving hagree.system).2⟩
  · rintro call model now lease hlock rfl rfl hsome
    obtain ⟨hexpected, hserves⟩ := Registry.exec_granted hagree hadmits hlock hexec
    rcases hexpected with ⟨route, snapshot, hlive, hmem⟩ | ⟨hnone, -⟩
    · refine ⟨route, snapshot, hlive, ?_, hmem⟩
      -- a backend of a route is no wildcard, since the model of the route is not empty
      have hsound := hagree.sound route snapshot hlive.1
      rw [backendServesModel, hsound.serves _ hmem] at hserves
      simpa [hsound.model] using hserves
    · exact absurd hsome hnone
  · rintro call owner model excluded lease rfl rfl
    exact Registry.acquireModel_not_granted hagree.system hexec

end Agreement

/-! ## A run with one route -/

/-- The functions of the library on the texts of the sample, an `http` URL with a host only and
a duration of one second. -/
def sampleCodec : Codec RouteBackendUpdate where
  parseURL := fun text =>
    if "http://".toList.isPrefixOf text.toList then
      some ⟨"http", none, String.ofList (text.toList.drop 7), "", "", ""⟩
    else none
  parseDuration := fun text => if text = "1s" then some (10 ^ 9) else none
  digest := id

/-- An update with a backend of its own, or a tombstone. -/
def sampleUpdate (uid model : String) (generation : Int) (deleted : Bool) : RouteBackendUpdate where
  model := model
  uid := uid
  observedGeneration := generation
  deleted := deleted
  policy := ⟨0, 0, "1s", .orphanContinue, "1s", false, false, 1, "1s"⟩
  backends := if deleted then [] else [⟨model, "http://" ++ model, "", .verdictSafe, "", ""⟩]

/-- The update is applied, and the call ends. -/
def applySample (uid model : String) (generation : Int) (deleted : Bool) : List RouteEvent :=
  [.apply "ns/r" (sampleUpdate uid model generation deleted) fun _ => 0, .report 0]

/-- The events lead from a pool with one healthy wildcard to a state that satisfies the test,
and in which the pool grants a lease. -/
def leasesAfter (events : List RouteEvent) (event : RouteEvent)
    (p : Registry RouteBackendUpdate → Lease → Bool) : Bool :=
  match newPool sampleConfig [sampleBackend "s" "static"] with
  | .error _ => false
  | .ok pool =>
    match run System.step (.start pool) [.observe "s" (.setHealth .healthHealthy) 0] with
    | none => false
    | some system =>
      match run (Registry.step sampleCodec) (newRouteBackendRegistry _ system 0) events with
      | none => false
      | some registry =>
        match registry.exec sampleCodec event with
        | some (_, .pool (.granted lease)) => p registry lease
        | _ => false

theorem leasesAfter_spec {events : List RouteEvent}
    {p : Registry RouteBackendUpdate → Lease → Bool} (h : leasesAfter events event p = true) :
    ∃ pool system registry registry' lease,
      newPool sampleConfig [sampleBackend "s" "static"] = .ok pool ∧
      run System.step (.start pool) [.observe "s" (.setHealth .healthHealthy) 0] = some system ∧
      run (Registry.step sampleCodec) (newRouteBackendRegistry _ system 0) events =
        some registry ∧
      registry.exec sampleCodec event = some (registry', .pool (.granted lease)) ∧
      p registry lease = true := by
  unfold leasesAfter at h
  split at h
  · cases h
  · rename_i pool hpool
    split at h
    · cases h
    · rename_i system hsystem
      split at h
      · cases h
      · rename_i registry hregistry
        split at h
        · rename_i registry' lease hexec
          exact ⟨pool, system, registry, registry', lease, hpool, hsystem, hregistry, hexec, h⟩
        · cases h

/-- The lock is held by the call, for the model, and the route is live. -/
def Registry.admitsLive (registry : Registry δ) (call : Nat) (model route : String) : Bool :=
  (match registry.lock with
    | .admitting call' model' => call' = call && model' = model
    | _ => false) &&
    (registry.routes.lookup route).any fun snapshot => !snapshot.deleted

theorem Registry.admitsLive_spec (h : registry.admitsLive call model route = true) :
    registry.lock = .admitting call model ∧ ∃ snapshot, registry.Live route snapshot := by
  simp only [Registry.admitsLive, Bool.and_eq_true, Option.any_eq_true] at h
  obtain ⟨hlock, snapshot, hlookup, hlive⟩ := h
  refine ⟨?_, snapshot, hlookup, by simpa using hlive⟩
  split at hlock
  · rename_i hadmitting
    simp only [Bool.and_eq_true, decide_eq_true_eq] at hlock
    rw [hadmitting, hlock.1, hlock.2]
  · cases hlock

/-- A lease for the model of a live route is on a backend of the route, although the pool was
started with a wildcard. -/
theorem registry_pool_agree_one_route :
    ∃ system registry registry' lease snapshot,
      run (Registry.step sampleCodec) (newRouteBackendRegistry _ system 0)
        (applySample "u1" "m" 1 false ++
          [.acquireModel 0 "o" "m" [], .pool (.choose 0 0 0)]) = some registry ∧
      registry.exec sampleCodec (.pool (.take 0 0)) = some (registry', .pool (.granted lease)) ∧
      registry.Live "ns/r" snapshot ∧ lease.backend.backend ∈ snapshot.backends := by
  have hleases : leasesAfter (applySample "u1" "m" 1 false ++
      [.acquireModel 0 "o" "m" [], .pool (.choose 0 0 0)]) (.pool (.take 0 0))
      (fun registry _ => registry.admitsLive 0 "m" "ns/r" &&
        (registry.routes.entries.map Sigma.fst) = ["ns/r"]) = true := by
    decide +kernel
  obtain ⟨pool, system, registry, registry', lease, hpool, hsystem, hrun, hexec, htest⟩ :=
    leasesAfter_spec hleases
  simp only [Bool.and_eq_true, decide_eq_true_eq] at htest
  obtain ⟨hlock, snapshot, hlive⟩ := Registry.admitsLive_spec htest.1
  obtain ⟨route, found, hfound, -, hmem⟩ :=
    ((registry_pool_agree hpool hsystem hrun).2.2 _ _ _ hexec).2.1 0 "m" 0 lease hlock rfl rfl
      ⟨"ns/r", snapshot, hlive⟩
  have hroute : route ∈ registry.routes.entries.map Sigma.fst :=
    List.mem_map.mpr ⟨⟨route, found⟩, AList.mem_lookup_iff.mp hfound.1, rfl⟩
  rw [htest.2, List.mem_singleton] at hroute
  subst hroute
  exact ⟨system, registry, registry', lease, found, hrun, hexec, hfound, hmem⟩

end Streamweld.Proxy
