import Streamweld.Lib.JsonFields
import Streamweld.Migrate.Eligibility
import Streamweld.Migrate.Seam

/-!
# Continuation requests

`RewriteContinuation` (`internal/migrate/continuation.go`), which makes the request of a
continuation from the request of the client, and the gates of
`internal/migrate/correctness.go`.  As everywhere, requests are the JSON values that
their texts parse to, and the texts that `encoding/json` adds to an error are left out.

`continuation_exact` says what a rewritten request has under every key.
-/

namespace Streamweld.Migrate

open Streamweld.Lib

/-! ## Requests -/

/-- `RequestKind`. -/
inductive RequestKind where
  | requestChatCompletion
  | requestCompletion
  /-- any other text -/
  | undefined (text : String)
  deriving DecidableEq, Repr

/-- The sentinels of `continuation.go`. -/
inductive ContinuationSentinel where
  | errInvalidRequest
  | errUnsupportedContinuationShape
  | errTokenBudgetExhausted
  deriving DecidableEq, Repr

structure ContinuationError where
  sentinel : ContinuationSentinel
  detail : String
  deriving DecidableEq, Repr

def invalidRequest (detail : String) : ContinuationError := ⟨.errInvalidRequest, detail⟩

def unsupportedShape (detail : String) : ContinuationError :=
  ⟨.errUnsupportedContinuationShape, detail⟩

/-- A field of a request that is there and is not `null`. -/
def suppliedField (fields : Json.RawMap) (name : String) : Option Json :=
  (fields.get name).filter (· ≠ .null)

/-- `json.Unmarshal` into a `uint64`. -/
def unmarshalUint : Json → Option Nat
  | .num literal => Json.parseUint literal
  | _ => none

def decodeRequestObject : Json → Except ContinuationError Json.RawMap
  | .obj members => .ok (.ofMembers members)
  | _ => .error (invalidRequest "request must be a JSON object")

def requireSingleChoice (fields : Json.RawMap) : Except ContinuationError Unit :=
  match suppliedField fields "n" with
  | none => .ok ()
  | some raw =>
    match unmarshalUint raw with
    | none => .error (invalidRequest "n must be a positive integer")
    | some 0 => .error (invalidRequest "n must be positive")
    | some 1 => .ok ()
    | some choices =>
      .error (unsupportedShape s!"n={choices} cannot be represented by one continuation")

def rewriteChatMessages (fields : Json.RawMap) (accumulated : Text) :
    Except ContinuationError Json.RawMap :=
  match suppliedField fields "messages" with
  | some (.arr messages) =>
    let assistant : Json :=
      .obj [("role", .str "assistant"), ("content", .str (String.ofList accumulated))]
    .ok (fields.insert "messages" (.arr (messages ++ [assistant])))
  | _ => .error (invalidRequest "chat messages must be an array")

def rewriteLegacyPrompt (fields : Json.RawMap) (accumulated : Text) :
    Except ContinuationError Json.RawMap :=
  match suppliedField fields "prompt" with
  | some (.str prompt) =>
    .ok (fields.insert "prompt" (.str (prompt ++ String.ofList accumulated)))
  | _ => .error (unsupportedShape "legacy completion requires one string prompt")

def recomputeTokenLimit (fields : Json.RawMap) (name : String) (emitted : Nat) :
    Except ContinuationError Json.RawMap :=
  match suppliedField fields name with
  | none => .ok fields
  | some raw =>
    match unmarshalUint raw with
    | none => .error (invalidRequest (name ++ " must be a non-negative integer"))
    | some original =>
      if original ≤ emitted then
        .error ⟨.errTokenBudgetExhausted,
          s!"{name}={original} with {emitted} tokens already emitted"⟩
      else .ok (fields.insert name (.num (toString (original - emitted))))

/-- The part of `RewriteContinuation` that depends on the kind of the request. -/
def rewriteKind (kind : RequestKind) (fields : Json.RawMap) (accumulated : Text) :
    Except ContinuationError Json.RawMap :=
  match kind with
  | .requestChatCompletion =>
    (rewriteChatMessages fields accumulated).map fun fields =>
      (fields.insert "continue_final_message" (.bool true)).insert
        "add_generation_prompt" (.bool false)
  | .requestCompletion => rewriteLegacyPrompt fields accumulated
  | .undefined _ => .error (invalidRequest "unsupported request kind")

/-- `RewriteContinuation`. -/
def rewriteContinuation (kind : RequestKind) (original : Json) (accumulated : Text)
    (emitted : Nat) : Except ContinuationError Json := do
  let fields ← decodeRequestObject original
  requireSingleChoice fields
  let fields ← rewriteKind kind fields accumulated
  let fields ← recomputeTokenLimit fields "max_tokens" emitted
  let fields ← recomputeTokenLimit fields "max_completion_tokens" emitted
  return .obj (fields.insert "stream" (.bool true)).entries

/-- `requestHasMultipleChoices` of `internal/proxy/producer.go`. -/
def requestHasMultipleChoices (request : Json) : Bool :=
  match request with
  | .obj members =>
    match (Json.RawMap.ofMembers members).get "n" with
    | some .null => true
    | some raw => (unmarshalUint raw).any (· ≠ 1)
    | none => false
  | _ => false

/-! ## The limits of a request -/

/-- The fields that limit the completion tokens. -/
def tokenLimitNames : List String := ["max_tokens", "max_completion_tokens"]

theorem unmarshalUint_lt {raw : Json} {n : Nat} (h : unmarshalUint raw = some n) : n < 2 ^ 64 := by
  unfold unmarshalUint at h
  split at h
  · unfold Json.parseUint at h
    split at h
    · cases h
    · simpa using (Option.filter_eq_some_iff.mp h).2
  · cases h

/-! ## The keys of a request -/

section Keys

variable {fields fields' : Json.RawMap} {name : String} {emitted : Nat} {accumulated : Text}

/-- The message that continues a chat. -/
def assistantMessage (accumulated : Text) : Json :=
  .obj [("role", .str "assistant"), ("content", .str (String.ofList accumulated))]

theorem rewriteChatMessages_ok (h : rewriteChatMessages fields accumulated = .ok fields') :
    ∃ messages, fields.get "messages" = some (.arr messages) ∧
      fields' = fields.insert "messages" (.arr (messages ++ [assistantMessage accumulated])) := by
  unfold rewriteChatMessages at h
  split at h
  · rename_i messages hmessages
    exact ⟨messages, (Option.filter_eq_some_iff.mp hmessages).1, (Except.ok.inj h).symm⟩
  · cases h

theorem rewriteLegacyPrompt_ok_iff :
    rewriteLegacyPrompt fields accumulated = .ok fields' ↔
      ∃ prompt, fields.get "prompt" = some (.str prompt) ∧
        fields' = fields.insert "prompt" (.str (prompt ++ String.ofList accumulated)) := by
  have hsupplied (prompt : String) : suppliedField fields "prompt" = some (.str prompt) ↔
      fields.get "prompt" = some (.str prompt) := by
    simp [suppliedField, Option.filter_eq_some_iff]
  simp only [← hsupplied]
  unfold rewriteLegacyPrompt
  split
  · rename_i prompt hprompt
    rw [hprompt]
    simp [eq_comm]
  · rename_i hnone
    refine iff_of_false (by simp) ?_
    rintro ⟨prompt, hprompt, _⟩
    exact hnone prompt hprompt

theorem rewriteKind_cases {kind : RequestKind}
    (h : rewriteKind kind fields accumulated = .ok fields') :
    (kind = .requestChatCompletion ∧ ∃ messages, fields.get "messages" = some (.arr messages) ∧
      fields' = ((fields.insert "messages" (.arr (messages ++ [assistantMessage accumulated]))).insert
        "continue_final_message" (.bool true)).insert "add_generation_prompt" (.bool false)) ∨
    (kind = .requestCompletion ∧ ∃ prompt, fields.get "prompt" = some (.str prompt) ∧
      fields' = fields.insert "prompt" (.str (prompt ++ String.ofList accumulated))) := by
  cases kind with
  | requestChatCompletion =>
    rw [rewriteKind] at h
    cases hchat : rewriteChatMessages fields accumulated with
    | error e =>
      rw [hchat] at h
      cases h
    | ok middle =>
      rw [hchat] at h
      obtain ⟨messages, hmessages, rfl⟩ := rewriteChatMessages_ok hchat
      exact .inl ⟨rfl, messages, hmessages, (Except.ok.inj h).symm⟩
  | requestCompletion => exact .inr ⟨rfl, rewriteLegacyPrompt_ok_iff.mp h⟩
  | undefined text => cases h

theorem suppliedField_eq_none : suppliedField fields name = none ↔
    fields.get name = none ∨ fields.get name = some .null := by
  rw [suppliedField, Option.filter_eq_none_iff]
  cases fields.get name <;> simp

/-- A limit that is supplied is above the tokens that were emitted. -/
def HasRoom (emitted : Nat) (value : Option Json) : Prop :=
  ∀ raw, value = some raw → raw ≠ .null → ∃ limit, unmarshalUint raw = some limit ∧ emitted < limit

/-- A limit without the tokens that were emitted. -/
def limited (emitted : Nat) (value : Option Json) : Option Json :=
  match value.filter (· ≠ .null) with
  | none => value
  | some raw => some (.num (toString ((unmarshalUint raw).getD 0 - emitted)))

theorem limited_of_not_supplied {value : Option Json} (h : value = none ∨ value = some .null) :
    limited emitted value = value := by
  rcases h with rfl | rfl <;> rfl

theorem limited_of_supplied {raw : Json} {limit : Nat} (hnull : raw ≠ .null)
    (hlimit : unmarshalUint raw = some limit) :
    limited emitted (some raw) = some (.num (toString (limit - emitted))) := by
  have hfilter : (some raw).filter (· ≠ .null) = some raw :=
    Option.filter_eq_some_iff.mpr ⟨rfl, by simpa using hnull⟩
  rw [limited, hfilter]
  simp [hlimit]

theorem recomputeTokenLimit_ok_iff :
    recomputeTokenLimit fields name emitted = .ok fields' ↔ HasRoom emitted (fields.get name) ∧
      ∀ key, fields'.get key =
        if key = name then limited emitted (fields.get name) else fields.get key := by
  -- The lookups determine the map, so it is enough that the computed one has them.
  have hsame {m : Json.RawMap} (hm : ∀ key, m.get key =
      if key = name then limited emitted (fields.get name) else fields.get key) :
      m = fields' ↔ ∀ key, fields'.get key =
        if key = name then limited emitted (fields.get name) else fields.get key :=
    ⟨fun h => h ▸ hm, fun h => Json.RawMap.ext_get fun key => (hm key).trans (h key).symm⟩
  unfold recomputeTokenLimit
  cases hraw : suppliedField fields name with
  | none =>
    have habsent := suppliedField_eq_none.mp hraw
    have hroom : HasRoom emitted (fields.get name) := by
      intro raw hget hnull
      rcases habsent with habsent | habsent <;> simp_all
    simp only [Except.ok.injEq, hroom, true_and]
    refine hsame fun key => ?_
    rw [limited_of_not_supplied habsent]
    split
    · rename_i hkey
      rw [hkey]
    · rfl
  | some raw =>
    obtain ⟨hget, hnull⟩ := Option.filter_eq_some_iff.mp hraw
    have hnull : raw ≠ .null := by simpa using hnull
    have hroom : HasRoom emitted (fields.get name) ↔
        ∃ limit, unmarshalUint raw = some limit ∧ emitted < limit := by
      simp [HasRoom, hget, hnull]
    rw [hroom]
    cases hlimit : unmarshalUint raw with
    | none => simp [hlimit]
    | some limit =>
      by_cases hle : limit ≤ emitted
      · simp [hlimit, hle]
      · simp only [hlimit, hle, if_false, Except.ok.injEq, Option.some.injEq, exists_eq_left',
          not_le.mp hle, true_and]
        refine hsame fun key => ?_
        rw [Json.RawMap.get_insert, hget, limited_of_supplied hnull hlimit]

theorem exists_recomputed (hroom : HasRoom emitted (fields.get name)) :
    ∃ fields', recomputeTokenLimit fields name emitted = .ok fields' := by
  unfold recomputeTokenLimit
  split
  · exact ⟨_, rfl⟩
  · rename_i raw hraw
    obtain ⟨hget, hnull⟩ := Option.filter_eq_some_iff.mp hraw
    obtain ⟨limit, hlimit, hlt⟩ := hroom raw hget (by simpa using hnull)
    rw [hlimit]
    exact ⟨_, if_neg (not_le.mpr hlt)⟩

/-- What a key has once the limits are recomputed and the stream is asked for. -/
def finished (fields : Json.RawMap) (emitted : Nat) (key : String) : Option Json :=
  if key = "stream" then some (.bool true)
  else if key ∈ tokenLimitNames then limited emitted (fields.get key)
  else fields.get key

theorem bind_ok_iff {ε α β : Type} {x : Except ε α} {f : α → Except ε β} {b : β} :
    (x >>= f) = .ok b ↔ ∃ a, x = .ok a ∧ f a = .ok b := by
  cases x <;> simp [bind, Except.bind]

/-- Each of the two limits is recomputed by one of the calls and left alone by the other. -/
theorem get_finished {second third : Json.RawMap}
    (hsecond : ∀ key, second.get key =
      if key = "max_tokens" then limited emitted (fields.get "max_tokens") else fields.get key)
    (hthird : ∀ key, third.get key = if key = "max_completion_tokens" then
      limited emitted (second.get "max_completion_tokens") else second.get key) (key : String) :
    (third.insert "stream" (.bool true)).get key = finished fields emitted key := by
  rw [Json.RawMap.get_insert, hthird, hsecond, hsecond, finished]
  by_cases hcompletion : key = "max_completion_tokens"
  · simp [hcompletion, tokenLimitNames]
  · by_cases hmax : key = "max_tokens" <;> simp [hmax, hcompletion, tokenLimitNames]

section Whole

variable {kind : RequestKind} {members : List (String × Json)} {body : Json}

theorem rewriteContinuation_ok
    (h : rewriteContinuation kind (.obj members) accumulated emitted = .ok body) :
    requireSingleChoice (.ofMembers members) = .ok () ∧
      ∃ fields, rewriteKind kind (.ofMembers members) accumulated = .ok fields ∧
        (∀ name ∈ tokenLimitNames, HasRoom emitted (fields.get name)) ∧
        ∃ out : Json.RawMap, body = .obj out.entries ∧
          ∀ key, out.get key = finished fields emitted key := by
  simp only [rewriteContinuation, decodeRequestObject, bind_ok_iff, Except.ok.injEq,
    exists_eq_left', recomputeTokenLimit_ok_iff, pure, Except.pure] at h
  obtain ⟨⟨⟩, hchoice, fields, hkind, second, ⟨hmax, hsecond⟩, third, ⟨hcompletion, hthird⟩, rfl⟩ := h
  rw [hsecond, if_neg (by decide)] at hcompletion
  refine ⟨hchoice, fields, hkind, ?_, _, rfl, get_finished hsecond hthird⟩
  simpa [tokenLimitNames] using ⟨hmax, hcompletion⟩

theorem exists_rewritten (hchoice : requireSingleChoice (.ofMembers members) = .ok ())
    (hkind : rewriteKind kind (.ofMembers members) accumulated = .ok fields)
    (hroom : ∀ name ∈ tokenLimitNames, HasRoom emitted (fields.get name)) :
    ∃ out : Json.RawMap,
      rewriteContinuation kind (.obj members) accumulated emitted = .ok (.obj out.entries) ∧
      ∀ key, out.get key = finished fields emitted key := by
  obtain ⟨second, hmax⟩ := exists_recomputed (hroom "max_tokens" (by decide))
  have hsecond := (recomputeTokenLimit_ok_iff.mp hmax).2
  have hcompletion : HasRoom emitted (second.get "max_completion_tokens") := by
    rw [hsecond, if_neg (by decide)]
    exact hroom _ (by decide)
  obtain ⟨third, hcompletion⟩ := exists_recomputed hcompletion
  have hthird := (recomputeTokenLimit_ok_iff.mp hcompletion).2
  refine ⟨third.insert "stream" (.bool true), ?_, get_finished hsecond hthird⟩
  simp only [rewriteContinuation, decodeRequestObject, bind, Except.bind, hchoice, hkind, hmax,
    hcompletion, pure, Except.pure]

end Whole

/-- Reading an encoded map back gives the map. -/
theorem ofMembers_entries (m : Json.RawMap) : Json.RawMap.ofMembers m.entries = m :=
  Json.RawMap.ext_get fun key =>
    (Json.RawMap.get_ofMembers _ key).trans (m.get_eq_property key).symm

theorem requireSingleChoice_congr (h : fields'.get "n" = fields.get "n") :
    requireSingleChoice fields' = requireSingleChoice fields := by
  rw [requireSingleChoice, requireSingleChoice, suppliedField, suppliedField, h]

/-- Two recomputations take off what one takes off that is given the sum. -/
theorem limited_limited {first second : Nat} {value : Option Json}
    (hroom : HasRoom (first + second) value) :
    HasRoom first value ∧ HasRoom second (limited first value) ∧
      limited second (limited first value) = limited (first + second) value := by
  by_cases hsupplied : ∃ raw, value = some raw ∧ raw ≠ .null
  · obtain ⟨raw, rfl, hnull⟩ := hsupplied
    obtain ⟨limit, hlimit, hlt⟩ := hroom raw rfl hnull
    have hfits := unmarshalUint_lt hlimit
    have hback : unmarshalUint (.num (toString (limit - first))) = some (limit - first) :=
      Json.parseUint_toString (by omega)
    rw [limited_of_supplied hnull hlimit, limited_of_supplied hnull hlimit,
      limited_of_supplied (by simp) hback]
    refine ⟨?_, ?_, ?_⟩
    · rintro raw' hraw' _
      obtain rfl := Option.some.inj hraw'
      exact ⟨limit, hlimit, by omega⟩
    · rintro raw' hraw' _
      obtain rfl := Option.some.inj hraw'
      exact ⟨limit - first, hback, by omega⟩
    · rw [Nat.sub_sub]
  · have habsent : value = none ∨ value = some .null := by
      cases value with
      | none => exact .inl rfl
      | some raw => exact .inr (by simpa using hsupplied)
    have hroom' (emitted : Nat) : HasRoom emitted value := fun raw hraw hnull =>
      absurd ⟨raw, hraw, hnull⟩ hsupplied
    simp only [limited_of_not_supplied habsent]
    exact ⟨hroom' first, hroom' second, trivial⟩

end Keys

/-- The keys that a rewriting sets in every request of a kind. -/
def setNames : RequestKind → List String
  | .requestChatCompletion =>
    ["messages", "continue_final_message", "add_generation_prompt", "stream"]
  | .requestCompletion => ["prompt", "stream"]
  | .undefined _ => []

theorem limit_notMem_setNames {kind : RequestKind} {name : String}
    (hname : name ∈ tokenLimitNames) : name ∉ setNames kind := by
  simp only [tokenLimitNames, List.mem_cons, List.not_mem_nil, or_false] at hname
  rcases hname with rfl | rfl <;> cases kind <;> simp [setNames]

/-- What a continued request has under each key, for what the request had. -/
structure Continued (kind : RequestKind) (accumulated : Text) (emitted : Nat)
    (before after : String → Option Json) : Prop where
  chat : kind = .requestChatCompletion →
    (∃ messages, before "messages" = some (.arr messages) ∧
      after "messages" = some (.arr (messages ++ [assistantMessage accumulated]))) ∧
    after "continue_final_message" = some (.bool true) ∧
    after "add_generation_prompt" = some (.bool false)
  completion : kind = .requestCompletion → ∃ prompt, before "prompt" = some (.str prompt) ∧
    after "prompt" = some (.str (prompt ++ String.ofList accumulated))
  stream : after "stream" = some (.bool true)
  limits : ∀ name ∈ tokenLimitNames, ∀ raw, before name = some raw → raw ≠ .null →
    ∃ limit, unmarshalUint raw = some limit ∧ emitted < limit ∧
      after name = some (.num (toString (limit - emitted)))
  others : ∀ key ∉ setNames kind,
    (key ∈ tokenLimitNames → before key = none ∨ before key = some .null) → after key = before key

theorem finished_continued {kind : RequestKind} {fields fields' out : Json.RawMap}
    {accumulated : Text} {emitted : Nat} (h : rewriteKind kind fields accumulated = .ok fields')
    (hroom : ∀ name ∈ tokenLimitNames, HasRoom emitted (fields'.get name))
    (hout : ∀ key, out.get key = finished fields' emitted key) :
    Continued kind accumulated emitted fields.get out.get := by
  have hcases := rewriteKind_cases h
  have hkept (key : String) (hkey : key ∉ setNames kind) : fields'.get key = fields.get key := by
    rcases hcases with ⟨rfl, messages, -, rfl⟩ | ⟨rfl, prompt, -, rfl⟩ <;>
      simp_all [setNames, Json.RawMap.get_insert]
  refine ⟨?_, ?_, ?_, ?_, ?_⟩
  · rintro rfl
    rcases hcases with ⟨-, messages, hmessages, rfl⟩ | ⟨hkind, -⟩
    · refine ⟨⟨messages, hmessages, ?_⟩, ?_, ?_⟩ <;>
        simp [hout, finished, tokenLimitNames, Json.RawMap.get_insert]
    · cases hkind
  · rintro rfl
    rcases hcases with ⟨hkind, -⟩ | ⟨-, prompt, hprompt, rfl⟩
    · cases hkind
    · refine ⟨prompt, hprompt, ?_⟩
      simp [hout, finished, tokenLimitNames, Json.RawMap.get_insert]
  · rw [hout, finished, if_pos rfl]
  · intro name hname raw hraw hnull
    rw [← hkept name (limit_notMem_setNames hname)] at hraw
    obtain ⟨limit, hvalue, hlt⟩ := hroom name hname raw hraw hnull
    have hstream : name ≠ "stream" := by
      rintro rfl
      exact absurd hname (by decide)
    refine ⟨limit, hvalue, hlt, ?_⟩
    rw [hout, finished, if_neg hstream, if_pos hname, hraw, limited_of_supplied hnull hvalue]
  · intro key hkey habsent
    have hstream : key ≠ "stream" := by
      rintro rfl
      rcases hcases with ⟨rfl, -⟩ | ⟨rfl, -⟩ <;> exact hkey (by decide)
    rw [hout, finished, if_neg hstream, hkept key hkey]
    split
    · rename_i hname
      exact limited_of_not_supplied (habsent hname)
    · rfl

section Completion

variable {members : List (String × Json)} {text text' : Text} {emitted emitted' : Nat}

theorem finished_prompt (fields : Json.RawMap) (value : Json) (emitted : Nat) (key : String) :
    finished (fields.insert "prompt" value) emitted key =
      if key = "prompt" then some value else finished fields emitted key := by
  by_cases hkey : key = "prompt"
  · simp [hkey, finished, tokenLimitNames, Json.RawMap.get_insert]
  · simp [hkey, finished, Json.RawMap.get_insert]

theorem exists_completed (text : Text) {prompt : String}
    (hchoice : requireSingleChoice (.ofMembers members) = .ok ())
    (hprompt : (Json.RawMap.ofMembers members).get "prompt" = some (.str prompt))
    (hroom : ∀ name ∈ tokenLimitNames, HasRoom emitted ((Json.RawMap.ofMembers members).get name)) :
    ∃ out : Json.RawMap,
      rewriteContinuation .requestCompletion (.obj members) text emitted = .ok (.obj out.entries) ∧
      ∀ key, out.get key = if key = "prompt" then some (.str (prompt ++ String.ofList text))
        else finished (.ofMembers members) emitted key := by
  have hkind : rewriteKind .requestCompletion (.ofMembers members) text = .ok
      ((Json.RawMap.ofMembers members).insert "prompt" (.str (prompt ++ String.ofList text))) :=
    rewriteLegacyPrompt_ok_iff.mpr ⟨prompt, hprompt, rfl⟩
  obtain ⟨out, hout, hget⟩ := exists_rewritten hchoice hkind fun name hname => by
    have hne : name ≠ "prompt" := by
      rintro rfl
      exact absurd hname (by decide)
    rw [Json.RawMap.get_insert, if_neg hne]
    exact hroom name hname
  exact ⟨out, hout, fun key => (hget key).trans (finished_prompt ..)⟩

theorem finished_of_limit {fields : Json.RawMap} {key : String} (hkey : key ∈ tokenLimitNames) :
    finished fields emitted key = limited emitted (fields.get key) := by
  have hstream : key ≠ "stream" := by
    rintro rfl
    exact absurd hkey (by decide)
  rw [finished, if_neg hstream, if_pos hkey]

/-- Two rewritings of a completion request in a row. -/
theorem rewriteContinuation_append {body : Json}
    (h : rewriteContinuation .requestCompletion (.obj members) (text ++ text')
      (emitted + emitted') = .ok body) :
    ∃ middle, rewriteContinuation .requestCompletion (.obj members) text emitted = .ok middle ∧
      rewriteContinuation .requestCompletion middle text' emitted' = .ok body := by
  obtain ⟨hchoice, fields, hkind, hroom, out, rfl, hout⟩ := rewriteContinuation_ok h
  obtain ⟨prompt, hprompt, rfl⟩ := rewriteLegacyPrompt_ok_iff.mp hkind
  simp only [finished_prompt] at hout
  have hne {name : String} (hname : name ∈ tokenLimitNames) : name ≠ "prompt" := by
    rintro rfl
    exact absurd hname (by decide)
  have hwhole (name : String) (hname : name ∈ tokenLimitNames) :
      HasRoom (emitted + emitted') ((Json.RawMap.ofMembers members).get name) := by
    have h := hroom name hname
    rwa [Json.RawMap.get_insert, if_neg (hne hname)] at h
  obtain ⟨middle, hfirst, hmiddle⟩ := exists_completed text hchoice hprompt
    fun name hname => (limited_limited (hwhole name hname)).1
  have hlimit (name : String) (hname : name ∈ tokenLimitNames) : middle.get name =
      limited emitted ((Json.RawMap.ofMembers members).get name) := by
    rw [hmiddle, if_neg (hne hname), finished_of_limit hname]
  have hchoice' : requireSingleChoice (.ofMembers middle.entries) = .ok () := by
    rw [ofMembers_entries, ← hchoice]
    refine requireSingleChoice_congr ?_
    simp [hmiddle, finished, tokenLimitNames]
  have hprompt' : (Json.RawMap.ofMembers middle.entries).get "prompt" =
      some (.str (prompt ++ String.ofList text)) := by
    rw [ofMembers_entries, hmiddle, if_pos rfl]
  obtain ⟨last, hsecond, hlast⟩ := exists_completed text' hchoice' hprompt'
    fun name hname => by
      rw [ofMembers_entries, hlimit name hname]
      exact (limited_limited (hwhole name hname)).2.1
  have hsame : last = out := by
    refine Json.RawMap.ext_get fun key => ?_
    rw [hlast, hout, ofMembers_entries]
    by_cases hkey : key = "prompt"
    · rw [if_pos hkey, if_pos hkey, String.append_assoc, ← String.ofList_append]
    · rw [if_neg hkey, if_neg hkey]
      by_cases hname : key ∈ tokenLimitNames
      · rw [finished_of_limit hname, finished_of_limit hname, hlimit key hname,
          (limited_limited (hwhole key hname)).2.2]
      · simp only [finished, if_neg hname, hmiddle, if_neg hkey]
        split <;> rfl
  exact ⟨_, hfirst, hsame ▸ hsecond⟩

end Completion

/-- A continuation sets the text of the request, takes the emitted tokens off the limits, asks for
a stream and keeps every other member.  Continuing a completion twice is continuing it once, with
both texts and the sum of the tokens. -/
theorem continuation_exact {members : List (String × Json)}
    (hnodup : (members.map Prod.fst).Nodup) :
    (∀ kind accumulated emitted body,
      rewriteContinuation kind (.obj members) accumulated emitted = .ok body →
        ∃ out, body = .obj out ∧ (out.map Prod.fst).Nodup ∧
          Continued kind accumulated emitted (List.lookup · members) (List.lookup · out)) ∧
    ∀ text text' emitted emitted' body,
      rewriteContinuation .requestCompletion (.obj members) (text ++ text')
          (emitted + emitted') = .ok body →
        ∃ middle, rewriteContinuation .requestCompletion (.obj members) text emitted = .ok middle ∧
          rewriteContinuation .requestCompletion middle text' emitted' = .ok body := by
  refine ⟨fun kind accumulated emitted body h => ?_, fun _ _ _ _ _ => rewriteContinuation_append⟩
  obtain ⟨-, fields, hkind, hroom, out, rfl, hout⟩ := rewriteContinuation_ok h
  refine ⟨out.entries, rfl, out.nodup, ?_⟩
  have hcontinued := finished_continued hkind hroom hout
  have hbefore : (Json.RawMap.ofMembers members).get = (List.lookup · members) :=
    funext (Json.RawMap.get_ofMembers_of_nodup hnodup)
  rwa [hbefore] at hcontinued

theorem continuation_exact_completion :
    ∃ middle, rewriteContinuation .requestCompletion
        (.obj [("top_p", .num "0.50"), ("prompt", .str "a"), ("max_tokens", .num "5")])
        ['b'] 1 = .ok middle ∧
      rewriteContinuation .requestCompletion middle ['c'] 2 = .ok
        (.obj [("max_tokens", .num "2"), ("prompt", .str "abc"), ("stream", .bool true),
          ("top_p", .num "0.50")]) :=
  (continuation_exact (by decide)).2 ['b'] ['c'] 1 2 _ (by decide +kernel)

/-! ## Correctness -/

/-- `CorrectnessFailure`. -/
inductive CorrectnessFailure where
  | failureToolCallBoundary
  | failureStructuredPrefixInvalid
  | failureUnsupportedContinuationShape
  | failureTokenBudgetExhausted
  deriving DecidableEq, Repr

def CorrectnessFailure.code : CorrectnessFailure → String
  | failureToolCallBoundary => "tool_call_boundary"
  | failureStructuredPrefixInvalid => "structured_prefix_invalid"
  | failureUnsupportedContinuationShape => "unsupported_continuation_shape"
  | failureTokenBudgetExhausted => "token_budget_exhausted"

/-- `EvaluateCorrectness`; whether the accumulated text is the beginning of a JSON value is
an argument. -/
def evaluateCorrectness (toolCallInProgress structuredResponse validPrefix multipleChoices : Bool) :
    List CorrectnessFailure :=
  (if toolCallInProgress then [.failureToolCallBoundary] else []) ++
    (if structuredResponse = true ∧ validPrefix = false then
      [.failureStructuredPrefixInvalid] else []) ++
    (if multipleChoices then [.failureUnsupportedContinuationShape] else [])

end Streamweld.Migrate
