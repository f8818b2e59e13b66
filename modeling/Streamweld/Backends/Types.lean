import Streamweld.Lib.Json
import Streamweld.Migrate.Eligibility
import Streamweld.Migrate.Seam

/-!
# Backends

The values that the controller supplies to the pool of backends
(`internal/backend/types.go`) and the checks that they pass before they are stored
(`normalizeBackend` of `internal/backend/pool.go`).

`normalizeBackend_ok` says what a stored backend looks like, and
`normalizeBackend_idempotent` that it passes the checks again unchanged.  The registry
of the routes depends on the second one: it hands the backends of all routes to the pool
on every update.
-/

namespace Streamweld.Backends

open Streamweld.Migrate

variable {backend normalized : Backend}

/-- `backend.ID`. -/
abbrev ID := String

/-- `url.URL`.  The parts are in the form in which `String` prints them, that is, escaped.
The parts that only matter for URLs without a host are left out. -/
structure URL where
  scheme : String
  user : Option String
  host : String
  path : String
  rawQuery : String
  fragment : String
  deriving DecidableEq, Repr

/-- `URL.String`. -/
def URL.string (url : URL) : String :=
  url.scheme ++ "://" ++ (url.user.elim "" fun user => user ++ "@") ++ url.host ++ url.path ++
    (if url.rawQuery = "" then "" else "?" ++ url.rawQuery) ++
    (if url.fragment = "" then "" else "#" ++ url.fragment)

/-- `Health`. -/
inductive Health where
  | healthUnknown
  | healthHealthy
  | healthUnhealthy
  deriving DecidableEq, Repr

/-- `Backend`.  The empty verdict is `Verdict.undefined ""`. -/
structure Backend where
  id : ID
  url : Option URL
  healthURL : Option URL
  model : String
  modelVersion : String
  templateVerdict : Verdict
  podNamespace : String
  podName : String
  deriving DecidableEq, Repr

/-- The error values of the package. -/
inductive Sentinel where
  | invalidConfig
  | invalidBackend
  | notFound
  | noEligibleBackend
  | invalidSelection
  | notDraining
  | leaseIDExhausted
  | drainClosed
  deriving DecidableEq, Repr

/-- An error: the value that it wraps, the text after it and the text before it. -/
structure PoolError where
  sentinel : Sentinel
  detail : String := ""
  context : String := ""
  deriving DecidableEq, Repr

/-- `appendEscapedRune`, with every rune outside of ASCII taken as printable. -/
def quotedRune (c : Char) : List Char :=
  if c = '"' ∨ c = '\\' then ['\\', c]
  else if 0x20 ≤ c.toNat ∧ c.toNat ≠ 0x7f then [c]
  else if 7 ≤ c.toNat ∧ c.toNat ≤ 13 then '\\' :: ("abtnvfr".toList.drop (c.toNat - 7)).take 1
  else ['\\', 'x', Lib.Json.hexDigit (c.toNat / 16), Lib.Json.hexDigit (c.toNat % 16)]

/-- The verb `%q`. -/
def quoted (text : String) : String :=
  String.ofList ('"' :: text.toList.flatMap quotedRune ++ ['"'])

/-! ## Validation -/

/-- `unicode.IsControl`. -/
def isControl (c : Char) : Bool :=
  c.toNat < 0x20 || (0x7f ≤ c.toNat && c.toNat ≤ 0x9f)

/-- `strings.TrimSpace(value) != value`. -/
def padded (value : String) : Bool := trimSpace value.toList != value.toList

/-- `ID.Validate`. -/
def ID.validate (id : ID) : Option PoolError :=
  if id = "" ∨ padded id then some ⟨.invalidBackend, "ID must be non-empty and unpadded", ""⟩
  else if id.toList.any isControl then
    some ⟨.invalidBackend, "ID contains a control character", ""⟩
  else none

/-- `validateBackendMetadata`. -/
def validateBackendMetadata (field value : String) (allowEmpty : Bool) : Option PoolError :=
  if value = "" then
    if allowEmpty then none
    else some ⟨.invalidBackend, "backend " ++ field ++ " must be non-empty", ""⟩
  else if padded value then some ⟨.invalidBackend, "backend " ++ field ++ " must be unpadded", ""⟩
  else if value.toList.any isControl then
    some ⟨.invalidBackend, "backend " ++ field ++ " contains a control character", ""⟩
  else none

/-- `strings.ToLower` of the scheme.  No letter outside of ASCII has a lower case
letter of `http` or `https`. -/
def URL.lowerScheme (url : URL) : URL := { url with scheme := url.scheme.map Char.toLower }

/-- The scheme is `http` or `https` and the host is not empty. -/
def URL.absoluteHTTP (url : URL) : Bool :=
  (url.scheme = "http" || url.scheme = "https") && url.host ≠ ""

/-- The checks of `normalizeBackend` on the address. -/
def normalizeURL (id : ID) : Option URL → Except PoolError URL
  | none => .error ⟨.invalidBackend, "backend " ++ quoted id ++ " URL is nil", ""⟩
  | some url =>
    if url.lowerScheme.absoluteHTTP = false then
      .error ⟨.invalidBackend,
        "backend " ++ quoted id ++ " URL must be an absolute HTTP(S) URL", ""⟩
    else if url.user ≠ none ∨ url.fragment ≠ "" then
      .error ⟨.invalidBackend,
        "backend " ++ quoted id ++ " URL cannot contain credentials or a fragment", ""⟩
    else .ok url.lowerScheme

/-- The checks of `normalizeBackend` on the address of the health checks. -/
def normalizeHealthURL (id : ID) : Option URL → Except PoolError (Option URL)
  | none => .ok none
  | some url =>
    if url.lowerScheme.absoluteHTTP = false ∨ url.user ≠ none ∨ url.rawQuery ≠ "" ∨
        url.fragment ≠ "" then
      .error ⟨.invalidBackend, "backend " ++ quoted id ++ " health URL must be an absolute " ++
        "HTTP(S) URL without credentials, query, or fragment", ""⟩
    else .ok (some url.lowerScheme)

/-- An empty verdict is the unknown one. -/
def normalizeVerdict (verdict : Verdict) : Verdict :=
  if verdict = .undefined "" then .verdictUnknown else verdict

def Verdict.text : Verdict → String
  | .verdictUnknown => "UNKNOWN"
  | .verdictSafe => "SAFE"
  | .verdictDegraded => "DEGRADED"
  | .verdictUnsafe => "UNSAFE"
  | .undefined text => text

/-- The checks of `normalizeBackend` on the verdict, the model and the Pod. -/
def metadataProblem (backend : Backend) : Option PoolError :=
  if (normalizeVerdict backend.templateVerdict).valid = false then
    some ⟨.invalidBackend, "backend " ++ quoted backend.id ++ " has invalid template verdict " ++
      quoted (Verdict.text backend.templateVerdict), ""⟩
  else
    (validateBackendMetadata "model" backend.model true).or <|
      if (backend.podNamespace = "") ≠ (backend.podName = "") then
        some ⟨.invalidBackend, "backend " ++ quoted backend.id ++
          " pod namespace and name must be set together", ""⟩
      else
        (validateBackendMetadata "pod namespace" backend.podNamespace true).or
          (validateBackendMetadata "pod name" backend.podName true)

/-- `normalizeBackend`. -/
def normalizeBackend (backend : Backend) : Except PoolError Backend :=
  match ID.validate backend.id with
  | some problem => .error problem
  | none =>
    match normalizeURL backend.id backend.url, normalizeHealthURL backend.id backend.healthURL with
    | .error problem, _ => .error problem
    | .ok _, .error problem => .error problem
    | .ok url, .ok healthURL =>
      match metadataProblem backend with
      | some problem => .error problem
      | none =>
        .ok { backend with
          url := some url
          healthURL := healthURL
          templateVerdict := normalizeVerdict backend.templateVerdict }

/-- `backendAddressChanged`. -/
def backendAddressChanged (left right : Backend) : Bool :=
  left.url.map URL.string ≠ right.url.map URL.string ||
    left.healthURL.map URL.string ≠ right.healthURL.map URL.string

/-- `backendServesModel`: a backend without a model serves every model. -/
def backendServesModel (candidate : Backend) (model : String) : Bool :=
  candidate.model = "" || candidate.model = model

/-! ## A normalized backend -/

theorem lowerScheme_of_absoluteHTTP {url : URL} (h : url.absoluteHTTP = true) :
    url.lowerScheme = url := by
  have hscheme : url.scheme = "http" ∨ url.scheme = "https" := by
    simp only [URL.absoluteHTTP, Bool.and_eq_true, Bool.or_eq_true, decide_eq_true_eq] at h
    exact h.1
  have hlower : url.scheme.map Char.toLower = url.scheme := by
    rcases hscheme with h | h <;> rw [h] <;> decide +kernel
  rw [URL.lowerScheme, hlower]

/-- What passes the check of the address. -/
theorem normalizeURL_ok {id : ID} {url? : Option URL} {url : URL}
    (h : normalizeURL id url? = .ok url) :
    ∃ given, url? = some given ∧ url = given.lowerScheme ∧ url.absoluteHTTP = true ∧
      given.user = none ∧ given.fragment = "" := by
  cases url? with
  | none => cases h
  | some given =>
    simp only [normalizeURL] at h
    split at h
    · cases h
    · rename_i habs
      split at h
      · cases h
      · rename_i hplain
        simp only [ne_eq, not_or, not_not] at hplain
        cases h
        exact ⟨given, rfl, rfl, by simpa using habs, hplain.1, hplain.2⟩

/-- What passes the check of the address of the health checks. -/
theorem normalizeHealthURL_ok {id : ID} {url? url : Option URL}
    (h : normalizeHealthURL id url? = .ok url) :
    url = url?.map URL.lowerScheme ∧ normalizeHealthURL id url = .ok url := by
  cases url? with
  | none =>
    cases h
    exact ⟨rfl, rfl⟩
  | some given =>
    simp only [normalizeHealthURL] at h
    split at h
    · cases h
    · rename_i hplain
      simp only [ne_eq, not_or, not_not, Bool.not_eq_false] at hplain
      obtain ⟨habs, huser, hquery, hfragment⟩ := hplain
      cases h
      refine ⟨rfl, ?_⟩
      simp only [normalizeHealthURL]
      rw [lowerScheme_of_absoluteHTTP habs, habs, if_neg]
      simpa [URL.lowerScheme] using ⟨huser, hquery, hfragment⟩

theorem normalizeVerdict_idempotent (verdict : Verdict) :
    normalizeVerdict (normalizeVerdict verdict) = normalizeVerdict verdict := by
  by_cases h : verdict = .undefined "" <;> simp [normalizeVerdict, h]

/-- What `normalizeBackend` changes: the case of the two schemes and an empty verdict. -/
theorem normalizeBackend_ok (h : normalizeBackend backend = .ok normalized) :
    ID.validate backend.id = none ∧
      (∃ url, normalizeURL backend.id backend.url = .ok url ∧
        ∃ healthURL, normalizeHealthURL backend.id backend.healthURL = .ok healthURL ∧
          normalized = { backend with
            url := some url
            healthURL := healthURL
            templateVerdict := normalizeVerdict backend.templateVerdict }) ∧
      metadataProblem backend = none := by
  unfold normalizeBackend at h
  cases hid : ID.validate backend.id with
  | some problem => simp [hid] at h
  | none =>
    cases hurl : normalizeURL backend.id backend.url with
    | error problem => simp [hid, hurl] at h
    | ok url =>
      cases hhealth : normalizeHealthURL backend.id backend.healthURL with
      | error problem => simp [hid, hurl, hhealth] at h
      | ok healthURL =>
        cases hmeta : metadataProblem backend with
        | some problem => simp [hid, hurl, hhealth, hmeta] at h
        | none =>
          simp only [hid, hurl, hhealth, hmeta, Except.ok.injEq] at h
          exact ⟨rfl, ⟨url, rfl, healthURL, rfl, h.symm⟩, rfl⟩

/-- The identifier, the model and the Pod are kept. -/
theorem normalizeBackend_keeps (h : normalizeBackend backend = .ok normalized) :
    normalized.id = backend.id ∧ normalized.model = backend.model ∧
      normalized.podNamespace = backend.podNamespace ∧ normalized.podName = backend.podName := by
  obtain ⟨-, ⟨url, -, healthURL, -, rfl⟩, -⟩ := normalizeBackend_ok h
  exact ⟨rfl, rfl, rfl, rfl⟩

/-- A normalized backend passes the checks again and does not change. -/
theorem normalizeBackend_idempotent (h : normalizeBackend backend = .ok normalized) :
    normalizeBackend normalized = .ok normalized := by
  obtain ⟨hid, ⟨url, hurl, healthURL, hhealth, rfl⟩, hmeta⟩ := normalizeBackend_ok h
  obtain ⟨given, -, rfl, habs, huser, hfragment⟩ := normalizeURL_ok hurl
  obtain ⟨-, hhealth'⟩ := normalizeHealthURL_ok hhealth
  have hurl' : normalizeURL backend.id (some given.lowerScheme) = .ok given.lowerScheme := by
    simp only [normalizeURL]
    rw [lowerScheme_of_absoluteHTTP habs, habs, if_neg (by simp), if_neg]
    simpa [URL.lowerScheme] using ⟨huser, hfragment⟩
  have hmeta' : metadataProblem { backend with
      url := some given.lowerScheme
      healthURL := healthURL
      templateVerdict := normalizeVerdict backend.templateVerdict } = none := by
    unfold metadataProblem at hmeta ⊢
    rw [normalizeVerdict_idempotent]
    split at hmeta
    · cases hmeta
    · rename_i hvalid
      rw [if_neg hvalid]
      exact hmeta
  unfold normalizeBackend
  simp only [hid, hurl', hhealth', hmeta', normalizeVerdict_idempotent]

/-- A backend with lower case schemes and a verdict is stored as it is. -/
theorem normalizeBackend_eq_self (h : normalizeBackend backend = .ok normalized)
    (hurl : backend.url.map URL.lowerScheme = backend.url)
    (hhealth : backend.healthURL.map URL.lowerScheme = backend.healthURL)
    (hverdict : backend.templateVerdict ≠ .undefined "") : normalized = backend := by
  obtain ⟨-, ⟨url, hnorm, healthURL, hnormHealth, rfl⟩, -⟩ := normalizeBackend_ok h
  obtain ⟨given, hgiven, rfl, -⟩ := normalizeURL_ok hnorm
  obtain ⟨hhealthURL, -⟩ := normalizeHealthURL_ok hnormHealth
  have hsome : some given.lowerScheme = backend.url := by
    rw [← hurl, hgiven]
    rfl
  rw [hsome, hhealthURL, hhealth, normalizeVerdict, if_neg hverdict]

end Streamweld.Backends
