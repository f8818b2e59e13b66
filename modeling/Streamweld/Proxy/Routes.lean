import Streamweld.Backends.Safety

/-!
# The registry of the routes

`internal/proxy/routes.go`: the operator sends a complete snapshot of each route to every
proxy.  The registry keeps the latest snapshot of each route, a deleted route included, and
hands the backends of all live routes to the pool in one replacement.  Without a live route
the pool has the backends it was started with.

`apply` and `acquireModel` hold `registry.mu` from the beginning to the end, while the pool
can be used by everybody else.  `Registry.lock` says who holds it.

What belongs to the standard library are fields of `Codec`: `url.Parse`,
`time.ParseDuration` and the digest of the canonical JSON text.
-/

namespace Streamweld.Proxy

open Streamweld.Backends Streamweld.Lib Streamweld.Migrate

/-! ## Updates -/

/-- `OrphanPolicy`. -/
inductive OrphanPolicy where
  | orphanContinue
  | orphanCancelAfter
  | orphanCancel
  /-- any other text -/
  | undefined (text : String)
  deriving DecidableEq, Repr

def OrphanPolicy.valid : OrphanPolicy → Bool
  | .undefined _ => false
  | _ => true

/-- `routePolicyInput`. -/
structure RoutePolicyInput where
  maxMigrations : Int
  maxMigrationTokens : Nat
  maxStreamDuration : String
  orphanPolicy : OrphanPolicy
  orphanTimeout : String
  allowCrossVersion : Bool
  allowStructuredResume : Bool
  seamWindowBytes : Int
  journalTTL : String
  deriving DecidableEq, Repr

/-- `routeBackendInput`. -/
structure RouteBackendInput where
  id : String
  url : String
  modelVersion : String
  templateVerdict : Verdict
  podNamespace : String
  podName : String
  deriving DecidableEq, Repr

/-- `routeBackendUpdate`. -/
structure RouteBackendUpdate where
  model : String
  uid : String
  observedGeneration : Int
  deleted : Bool
  policy : RoutePolicyInput
  backends : List RouteBackendInput
  deriving DecidableEq, Repr

/-- `streamPolicy`. -/
structure StreamPolicy where
  maxMigrations : Int
  maxMigrationTokens : Nat
  maxStreamDuration : Int
  orphanPolicy : OrphanPolicy
  orphanTimeout : Int
  allowCrossVersion : Bool
  allowStructuredResume : Bool
  seamWindowBytes : Int
  journalTTL : Int
  templateMode : TemplateMode
  deriving DecidableEq, Repr

/-- The functions of the standard library that the registry uses.  `digest` is the hash of
the JSON text of a canonical update. -/
structure Codec (δ : Type) where
  parseURL : String → Option URL
  parseDuration : String → Option Int
  digest : RouteBackendUpdate → δ

/-- `routeSnapshot`. -/
structure RouteSnapshot (δ : Type) where
  model : String
  uid : String
  generation : Int
  deleted : Bool
  digest : δ
  policy : StreamPolicy
  backends : List Backend

/-! ## Normalization -/

def isLowerOrDigit (c : Char) : Bool := ('a' ≤ c && c ≤ 'z') || ('0' ≤ c && c ≤ '9')

/-- A non-empty text over the letters, the digits and `inner` that begins and ends with a
letter or a digit. -/
def matchesName (inner text : List Char) : Bool :=
  text.all (fun c => isLowerOrDigit c || c ∈ inner) &&
    text.head?.any isLowerOrDigit && text.getLast?.any isLowerOrDigit

/-- `routeNamespacePattern`. -/
def matchesRouteNamespace (text : List Char) : Bool := matchesName ['-'] text

/-- `routeNamePattern`. -/
def matchesRouteName (text : List Char) : Bool := matchesName ['-', '.'] text

/-- `validateRouteIdentity`. -/
def validateRouteIdentity (route : String) : Option String :=
  match route.toList.splitOn '/' with
  | [routeNamespace, name] =>
    if matchesRouteNamespace routeNamespace && matchesRouteName name then none
    else some "route must be a canonical namespace/name"
  | _ => some "route must be a canonical namespace/name"

/-- `validateRouteText`. -/
def validateRouteText (field value : String) (limit : Nat) : Option String :=
  if value = "" ∨ limit < value.utf8ByteSize ∨ padded value then
    some (field ++ " must be 1-" ++ toString limit ++ " unpadded bytes")
  else if value.toList.any (fun c => c.toNat < 0x20 || c.toNat = 0x7f) then
    some (field ++ " contains a control character")
  else none

/-- A duration of the policy that has to be positive. -/
def positiveDuration {δ : Type} (codec : Codec δ) (text : String) : Option Int :=
  (codec.parseDuration text).filter fun duration => 0 < duration

/-- `normalizeRoutePolicy`. -/
def normalizeRoutePolicy {δ : Type} (codec : Codec δ) (input : RoutePolicyInput) :
    Except String StreamPolicy :=
  if input.maxMigrations < 0 then .error "policy.max_migrations cannot be negative"
  else if input.seamWindowBytes ≤ 0 then .error "policy.seam_window_bytes must be positive"
  else if input.orphanPolicy.valid = false then .error "policy.orphan_policy is invalid"
  else
    match positiveDuration codec input.maxStreamDuration, positiveDuration codec input.orphanTimeout,
      (positiveDuration codec input.journalTTL).filter fun ttl => ttl ≤ (2 ^ 63 - 1) / 2 with
    | none, _, _ => .error "policy.max_stream_duration must be a positive duration"
    | some _, none, _ => .error "policy.orphan_timeout must be a positive duration"
    | some _, some _, none =>
      .error "policy.journal_ttl must be a positive safely bounded duration"
    | some maxDuration, some orphanTimeout, some journalTTL =>
      .ok
        { maxMigrations := input.maxMigrations
          maxMigrationTokens := input.maxMigrationTokens
          maxStreamDuration := maxDuration
          orphanPolicy := input.orphanPolicy
          orphanTimeout := orphanTimeout
          allowCrossVersion := input.allowCrossVersion
          allowStructuredResume := input.allowStructuredResume
          seamWindowBytes := input.seamWindowBytes
          journalTTL := journalTTL
          templateMode := .templateStrict }

/-- An origin: an HTTP(S) URL with a host and nothing after it. -/
def isOrigin (url : URL) : Bool :=
  (url.scheme = "http" || url.scheme = "https") && url.host ≠ "" && url.user = none &&
    url.rawQuery = "" && url.fragment = "" && (url.path = "" || url.path = "/")

/-- The loop of `normalizeRouteSnapshot` for one backend: the backend, and the canonical form
of the input. -/
def normalizeRouteBackend {δ : Type} (codec : Codec δ) (model : String) (seen : List Backend)
    (index : Nat) (input : RouteBackendInput) : Except String (Backend × RouteBackendInput) :=
  let position := "backends[" ++ toString index ++ "]"
  match validateRouteText "backend id" input.id 512 with
  | some problem => .error (position ++ ": " ++ problem)
  | none =>
    match (codec.parseURL input.url).filter isOrigin with
    | none => .error (position ++ " has an invalid HTTP(S) origin URL")
    | some parsed =>
      if input.templateVerdict.valid = false then
        .error (position ++ " has invalid template_verdict " ++
          quoted (Verdict.text input.templateVerdict))
      else if (input.podNamespace = "") ≠ (input.podName = "") then
        .error (position ++ " pod_namespace and pod_name must be set together")
      else if input.podNamespace ≠ "" ∧
          (matchesRouteNamespace input.podNamespace.toList &&
            matchesRouteName input.podName.toList) = false then
        .error (position ++ " has invalid pod identity")
      else if input.id ∈ seen.map Backend.id then
        .error (position ++ " duplicates backend ID " ++ quoted input.id)
      else
        .ok
          ({ id := input.id
             url := some parsed
             healthURL := none
             model := model
             modelVersion := input.modelVersion
             templateVerdict := input.templateVerdict
             podNamespace := input.podNamespace
             podName := input.podName },
           { input with url := parsed.string })

def normalizeRouteBackends {δ : Type} (codec : Codec δ) (model : String) :
    Nat → List Backend → List RouteBackendInput → List RouteBackendInput →
      Except String (List Backend × List RouteBackendInput)
  | _, items, canonical, [] => .ok (items, canonical)
  | index, items, canonical, input :: rest =>
    match normalizeRouteBackend codec model items index input with
    | .error problem => .error problem
    | .ok (item, canonicalInput) =>
      normalizeRouteBackends codec model (index + 1) (items ++ [item])
        (canonical ++ [canonicalInput]) rest

/-- The checks of `normalizeRouteSnapshot` before the policy. -/
def updateProblem (route : String) (update : RouteBackendUpdate) : Option String :=
  (validateRouteIdentity route).or <|
    (validateRouteText "model" update.model 512).or <|
      (validateRouteText "uid" update.uid 128).or <|
        if update.observedGeneration ≤ 0 then some "observed_generation must be positive"
        else if 4096 < update.backends.length then some "backends exceeds the limit of 4096"
        else if update.deleted ∧ update.backends ≠ [] then
          some "deleted route update must contain no backends"
        else none

/-- `normalizeRouteSnapshot`. -/
def normalizeRouteSnapshot {δ : Type} (codec : Codec δ) (route : String)
    (update : RouteBackendUpdate) : Except String (RouteSnapshot δ) :=
  match updateProblem route update with
  | some problem => .error problem
  | none =>
    match normalizeRoutePolicy codec update.policy,
      normalizeRouteBackends codec update.model 0 [] [] update.backends with
    | .error problem, _ => .error problem
    | .ok _, .error problem => .error problem
    | .ok policy, .ok (items, canonical) =>
      .ok
        { model := update.model
          uid := update.uid
          generation := update.observedGeneration
          deleted := update.deleted
          digest := codec.digest { update with
            backends := canonical.insertionSort fun left right => left.id ≤ right.id }
          policy := policy
          backends := items.insertionSort fun left right => left.id ≤ right.id }

/-! ## The registry -/

/-- Who holds `registry.mu`. -/
inductive RegistryLock (δ : Type) where
  | free
  /-- `apply` before `resultLocked` -/
  | reporting (route : String) (snapshot : RouteSnapshot δ)
  /-- `acquireModel` in its call of `AcquireModel` -/
  | admitting (call : Nat) (model : String)

/-- `routeBackendRegistry` with its pool. -/
structure Registry (δ : Type) where
  system : System
  static : List Backend
  routes : AList fun _ : String => RouteSnapshot δ
  routeIDs : AList fun _ : String => List ID
  lock : RegistryLock δ

/-- `newRouteBackendRegistry` over a pool that may already be in use. -/
def newRouteBackendRegistry (δ : Type) (system : System) (now : Int) : Registry δ where
  system := system
  static := (system.pool.list now).map State.backend
  routes := ∅
  routeIDs := ∅
  lock := .free

/-- The backends that `combined` has collected, and the models. -/
structure Combined where
  backends : List Backend
  seen : List (ID × String)
  models : List (String × String)

/-- The loop of `combined` over the backends of a route. -/
def combineBackends (route : String) : Combined → List Backend → Except String Combined
  | acc, [] => .ok acc
  | acc, item :: rest =>
    match acc.seen.lookup item.id with
    | some previous =>
      .error ("backend ID " ++ quoted item.id ++ " is shared by routes " ++ quoted previous ++
        " and " ++ quoted route)
    | none =>
      combineBackends route
        { acc with backends := acc.backends ++ [item], seen := (item.id, route) :: acc.seen } rest

/-- The loop of `combined` over the routes. -/
def combineRoutes {δ : Type} : Combined → List (String × RouteSnapshot δ) → Except String Combined
  | acc, [] => .ok acc
  | acc, (route, snapshot) :: rest =>
    if snapshot.deleted then combineRoutes acc rest
    else
      match acc.models.lookup snapshot.model with
      | some previous =>
        .error ("model " ++ quoted snapshot.model ++ " is shared by routes " ++ quoted previous ++
          " and " ++ quoted route)
      | none =>
        match combineBackends route
            { acc with models := (snapshot.model, route) :: acc.models } snapshot.backends with
        | .error problem => .error problem
        | .ok acc => combineRoutes acc rest

/-- The routes in the order of their names. -/
def sortedRoutes {δ : Type} (routes : AList fun _ : String => RouteSnapshot δ) :
    List (String × RouteSnapshot δ) :=
  (routes.entries.map fun entry => (entry.1, entry.2)).insertionSort
    fun left right => left.1 ≤ right.1

/-- `combined`. -/
def Registry.combined {δ : Type} (registry : Registry δ)
    (routes : AList fun _ : String => RouteSnapshot δ) : Except String (List Backend) :=
  if routes.entries.all fun entry => entry.2.deleted then .ok registry.static
  else (combineRoutes ⟨[], [], []⟩ (sortedRoutes routes)).map Combined.backends

/-- `policyForModel`. -/
def Registry.policyForModel {δ : Type} (registry : Registry δ) (model : String) :
    Option StreamPolicy :=
  (registry.routes.entries.find? fun entry => !entry.2.deleted && entry.2.model = model).map
    fun entry => entry.2.policy

/-- `routeForModel`. -/
def Registry.routeForModel {δ : Type} (registry : Registry δ) (model : String) : Option String :=
  (registry.routes.entries.find? fun entry => !entry.2.deleted && entry.2.model = model).map
    fun entry => entry.1

/-- `routeApplyResult`. -/
structure RouteApplyResult where
  route : String
  model : String
  appliedGeneration : Int
  backendCount : Nat
  drainingBackends : Nat
  drainingBackendIDs : List ID
  activeStreams : Nat
  deriving DecidableEq, Repr

/-- `resultLocked`: the counts of the route, and its identifiers without those that the pool
no longer retains. -/
def Registry.resultLocked {δ : Type} (registry : Registry δ) (route : String)
    (snapshot : RouteSnapshot δ) (now : Int) : Registry δ × RouteApplyResult :=
  let ids := (registry.routeIDs.lookup route).getD []
  let retained := registry.system.pool.listRetained now
  let own := retained.filter fun state => state.backend.id ∈ ids
  let draining := (own.filter State.draining).map fun state => state.backend.id
  let pruned := ids.filter fun id => id ∈ retained.map fun state => state.backend.id
  ({ registry with
      routeIDs :=
        if route ∈ registry.routeIDs then registry.routeIDs.insert route pruned
        else registry.routeIDs },
    { route := route
      model := snapshot.model
      appliedGeneration := snapshot.generation
      backendCount := snapshot.backends.length
      drainingBackends := draining.length
      -- a list that is too long is left out
      drainingBackendIDs := if 32 < draining.length then [] else draining
      activeStreams := (own.map State.inFlight).sum })

/-! ## Steps -/

/-- The errors of `apply`. -/
inductive RouteError where
  | generationStale
  | uidConflict
  /-- an invalid update, or one that clashes with another route -/
  | invalid (problem : String)
  | pool (problem : PoolError)
  deriving DecidableEq, Repr

inductive RouteEvent where
  /-- the pool is used by others, but not by the controller -/
  | pool (event : Event)
  | apply (route : String) (update : RouteBackendUpdate) (now : ID → Int)
  /-- the end of `apply` -/
  | report (now : Int)
  | acquireModel (call : Nat) (owner model : String) (excluded : List ID)

inductive RouteReply where
  | pool (reply : Reply)
  /-- `apply` returns without an error -/
  | accepted
  | rejected (error : RouteError)
  | result (result : RouteApplyResult)
  deriving DecidableEq, Repr

variable {δ : Type} [DecidableEq δ]

/-- What `apply` finds under the name of the route. -/
inductive Fence where
  | conflict
  | stale
  /-- the same update again -/
  | repeated
  | open
  deriving DecidableEq, Repr

/-- The fence of `apply`: the UID and the generation of an update against the snapshot that is
stored. -/
def fence (existing : Option (RouteSnapshot δ)) (normalized : RouteSnapshot δ) : Fence :=
  match existing with
  | none => .open
  | some existing =>
    if normalized.uid ≠ existing.uid then
      if existing.deleted then .open else .conflict
    else if normalized.generation < existing.generation ∨
        (existing.deleted ∧ normalized.deleted = false) then .stale
    else if normalized.generation = existing.generation ∧ normalized.digest = existing.digest then
      .repeated
    else .open

/-- The end of `apply` for an update that is installed: the pool gets the backends of all the
routes, and then the registry changes. -/
def Registry.install (registry : Registry δ) (route : String) (normalized : RouteSnapshot δ)
    (now : ID → Int) : Registry δ × RouteReply :=
  let candidateRoutes := registry.routes.insert route normalized
  match registry.combined candidateRoutes with
  | .error problem => (registry, .rejected (.invalid problem))
  | .ok combined =>
    let system := { registry.system with
      pool := (registry.system.pool.replace combined true now).1 }
    match (registry.system.pool.replace combined true now).2 with
    | .error problem =>
      ({ registry with system := system },
        .rejected (.pool { problem with
          context := "apply route backend set: " ++ problem.context }))
    | .ok () =>
      ({ registry with
          system := system
          routes := candidateRoutes
          routeIDs := registry.routeIDs.insert route
            (((registry.routeIDs.lookup route).getD []).union (normalized.backends.map Backend.id))
          lock := .reporting route normalized }, .accepted)

/-- `apply` from the lock to `resultLocked`. -/
def Registry.apply (registry : Registry δ) (route : String) (normalized : RouteSnapshot δ)
    (now : ID → Int) : Registry δ × RouteReply :=
  match registry.routes.lookup route, fence (registry.routes.lookup route) normalized with
  | some existing, .conflict =>
    ({ registry with lock := .reporting route existing }, .rejected .uidConflict)
  | some existing, .stale =>
    ({ registry with lock := .reporting route existing }, .rejected .generationStale)
  | some existing, .repeated => ({ registry with lock := .reporting route existing }, .accepted)
  | _, _ => registry.install route normalized now

/-- The model has a tombstone and no live route. -/
def Registry.tombstoned (registry : Registry δ) (model : String) : Bool :=
  (registry.routes.entries.any fun entry => entry.2.deleted && entry.2.model = model) &&
    !(registry.routes.entries.any fun entry => !entry.2.deleted && entry.2.model = model)

/-- `acquireModel` up to the loop of `acquire`. -/
def Registry.acquireModel (registry : Registry δ) (call : Nat) (owner model : String)
    (excluded : List ID) : Option (Registry δ × RouteReply) :=
  if registry.tombstoned model then
    some (registry, .pool (.failed ⟨.noEligibleBackend, "", ""⟩))
  else
    (registry.system.exec (.acquire call owner (some model) excluded)).map fun result =>
      ({ registry with
          system := result.1
          lock := if call ∈ result.1.acquiring then .admitting call model else registry.lock },
        .pool result.2)

/-- `registry.mu` is released where the call that holds it has returned. -/
def RegistryLock.release (lock : RegistryLock δ) (system : System) : RegistryLock δ :=
  match lock with
  | .admitting call model => if call ∈ system.acquiring then .admitting call model else .free
  | lock => lock

/-- One step, and what the call answers. -/
def Registry.exec (codec : Codec δ) (registry : Registry δ) :
    RouteEvent → Option (Registry δ × RouteReply)
  | .pool (.controller _) => none
  | .pool event =>
    (registry.system.exec event).map fun result =>
      ({ registry with system := result.1, lock := registry.lock.release result.1 },
        .pool result.2)
  | .apply route update now =>
    -- an invalid update is rejected before the lock is taken
    match normalizeRouteSnapshot codec route update, registry.lock with
    | .error problem, _ => some (registry, .rejected (.invalid problem))
    | .ok normalized, .free => some (registry.apply route normalized now)
    | .ok _, _ => none
  | .report now =>
    match registry.lock with
    | .reporting route snapshot =>
      some ({ (registry.resultLocked route snapshot now).1 with lock := .free },
        .result (registry.resultLocked route snapshot now).2)
    | _ => none
  | .acquireModel call owner model excluded =>
    match registry.lock with
    | .free => registry.acquireModel call owner model excluded
    | _ => none

def Registry.step (codec : Codec δ) (registry : Registry δ) (event : RouteEvent) :
    Option (Registry δ) :=
  (registry.exec codec event).map Prod.fst

end Streamweld.Proxy
