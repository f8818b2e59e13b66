import Streamweld.Migrate.Continuation

/-!
# Requests and their number of choices

`normalizeRequest` (`internal/proxy/normalize.go`) and the two gates that let only requests
with a single choice be continued: `requestHasMultipleChoices`
(`internal/proxy/producer.go`) when a stream starts, and `requireSingleChoice` in
`RewriteContinuation` (`internal/migrate/continuation.go`).

The two gates read the field `n` with one decoder each, and `json.Unmarshal` takes `null` for
the number zero, so that `null` is more than one choice to the first gate and one choice to
the second.
-/

namespace Streamweld.Proxy

open Streamweld.Lib Streamweld.Migrate

/-! ## Bodies -/

/-- The body of a request, as far as the code looks at it: the value it parses to, in which a
string has U+FFFD for bytes that are not UTF-8, and whether all its bytes are UTF-8. -/
structure RequestBody where
  value : Json
  validUTF8 : Bool
  deriving DecidableEq, Repr

structure NormalizedRequest where
  body : RequestBody
  model : String
  stream : Bool
  deriving DecidableEq, Repr

def normalizeStream : Option Json → Except String Bool
  | none => .ok false
  | some (.bool stream) => .ok stream
  | some _ => .error "request field stream must be a boolean"

def normalizeModel : Option Json → Except String String
  | none => .ok ""
  | some (.str model) => .ok model
  | some _ => .error "request field model must be a string"

def normalizeRequest (body : RequestBody) : Except String NormalizedRequest :=
  match body.value with
  | .obj members => do
    let fields := Json.RawMap.ofMembers members
    let stream ← normalizeStream (fields.get "stream")
    let model ← normalizeModel (fields.get "model")
    return { body := { body with value := .obj fields.entries }, model := model, stream := stream }
  | _ => .error "request body must be a JSON object"

/-- `RewriteContinuation` of a body. -/
def rewriteBody (kind : RequestKind) (original : RequestBody) (accumulated : Text)
    (emitted : Nat) : Except ContinuationError Json :=
  if original.validUTF8 then rewriteContinuation kind original.value accumulated emitted
  else .error (invalidRequest "request and accumulated text must be valid UTF-8")

/-- What a request has as its field `n`. -/
def choicesField : Json → Option Json
  | .obj members => (Json.RawMap.ofMembers members).get "n"
  | _ => none

/-! ## The gates -/

/-- `RewriteContinuation` refuses a body because of its field `n`. -/
def RefusedForChoices (kind : RequestKind) (original : RequestBody) (accumulated : Text)
    (emitted : Nat) : Prop :=
  ∃ members e, original.value = .obj members ∧
    requireSingleChoice (.ofMembers members) = .error e ∧
    rewriteBody kind original accumulated emitted = .error e

/-- The gates agree on a body. -/
def GatesAgree (kind : RequestKind) (original : RequestBody) (accumulated : Text) (emitted : Nat) :
    Prop :=
  (requestHasMultipleChoices original.value = true →
      RefusedForChoices kind original accumulated emitted) ∧
    (∀ body, rewriteBody kind original accumulated emitted = .ok body →
      requestHasMultipleChoices original.value = false)

/-- The field `n` is not `null`, and where it is a number other than one the body is valid. -/
def ChoicesReadable (original : RequestBody) : Prop :=
  choicesField original.value ≠ some .null ∧
    ∀ raw choices, choicesField original.value = some raw → unmarshalUint raw = some choices →
      choices ≠ 1 → original.validUTF8 = true

theorem requestHasMultipleChoices_iff {members : List (String × Json)} :
    requestHasMultipleChoices (.obj members) = true ↔
      choicesField (.obj members) = some .null ∨
        ∃ raw choices, choicesField (.obj members) = some raw ∧
          unmarshalUint raw = some choices ∧ choices ≠ 1 := by
  unfold requestHasMultipleChoices choicesField
  dsimp only
  cases (Json.RawMap.ofMembers members).get "n" with
  | none => simp
  | some raw => cases raw <;> simp [unmarshalUint, Option.any_eq_true]

/-- The second gate refuses exactly a number other than one and what is no number. -/
theorem requireSingleChoice_error_iff {members : List (String × Json)} :
    (∃ e, requireSingleChoice (.ofMembers members) = .error e) ↔
      ∃ raw, choicesField (.obj members) = some raw ∧ raw ≠ .null ∧ unmarshalUint raw ≠ some 1 := by
  unfold requireSingleChoice suppliedField choicesField
  dsimp only
  cases (Json.RawMap.ofMembers members).get "n" with
  | none => simp
  | some raw =>
    by_cases hnull : raw = .null
    · simp [hnull, Option.filter_some]
    · simp only [Option.filter_some, hnull, ne_eq, not_false_eq_true, decide_true, if_true]
      cases hparse : unmarshalUint raw with
      | none => simp [hnull, hparse]
      | some choices =>
        rcases choices with _ | _ | choices
        · simp [hnull, hparse]
        · simp [hparse]
        · simp [hnull, hparse]

theorem normalizeRequest_obj {body : RequestBody} {normalized : NormalizedRequest}
    (h : normalizeRequest body = .ok normalized) : ∃ members, body.value = .obj members := by
  unfold normalizeRequest at h
  split at h
  · rename_i members hvalue
    exact ⟨members, hvalue⟩
  · cases h

/-- The errors about the field `n` are not the one about the bytes. -/
theorem requireSingleChoice_detail {fields : Json.RawMap} {e : ContinuationError}
    (h : requireSingleChoice fields = .error e) :
    e ≠ invalidRequest "request and accumulated text must be valid UTF-8" := by
  unfold requireSingleChoice at h
  split at h
  · cases h
  · split at h <;> cases h
    · decide
    · decide
    · simp [unsupportedShape, invalidRequest]

/-- A body is refused because of its field exactly if it is valid and the second gate refuses
the field. -/
theorem refusedForChoices_iff {kind : RequestKind} {original : RequestBody} {accumulated : Text}
    {emitted : Nat} {members : List (String × Json)} (hvalue : original.value = .obj members) :
    RefusedForChoices kind original accumulated emitted ↔
      original.validUTF8 = true ∧ ∃ e, requireSingleChoice (.ofMembers members) = .error e := by
  constructor
  · rintro ⟨members', e, hmembers, hgate, hrewrite⟩
    obtain rfl := Json.obj.inj (hvalue.symm.trans hmembers)
    refine ⟨?_, e, hgate⟩
    by_contra hvalid
    rw [rewriteBody, if_neg hvalid] at hrewrite
    exact requireSingleChoice_detail hgate (Except.error.inj hrewrite).symm
  · rintro ⟨hvalid, e, hgate⟩
    refine ⟨members, e, hvalue, hgate, ?_⟩
    rw [rewriteBody, if_pos hvalid, hvalue]
    simp [rewriteContinuation, decodeRequestObject, bind, Except.bind, hgate]

/-- The gates agree on a body that `normalizeRequest` accepts exactly when its field `n` is not
`null`, and the body is valid if `n` is a number other than one. -/
theorem choice_gates_agree_iff (original : RequestBody) (normalized : NormalizedRequest)
    (h : normalizeRequest original = .ok normalized) (kind : RequestKind) (accumulated : Text)
    (emitted : Nat) :
    GatesAgree kind original accumulated emitted ↔ ChoicesReadable original := by
  obtain ⟨members, hvalue⟩ := normalizeRequest_obj h
  unfold GatesAgree ChoicesReadable
  rw [refusedForChoices_iff hvalue, hvalue, requestHasMultipleChoices_iff,
    requireSingleChoice_error_iff]
  constructor
  · rintro ⟨hrefused, _⟩
    constructor
    · intro hnull
      obtain ⟨_, raw, hraw, hne, _⟩ := hrefused (.inl hnull)
      exact hne (Option.some.inj (hraw.symm.trans hnull))
    · intro raw choices hraw hparse hchoices
      exact (hrefused (.inr ⟨raw, choices, hraw, hparse, hchoices⟩)).1
  · rintro ⟨hnull, hvalid⟩
    have hrefused : requestHasMultipleChoices (.obj members) = true →
        original.validUTF8 = true ∧ ∃ raw, choicesField (.obj members) = some raw ∧
          raw ≠ .null ∧ unmarshalUint raw ≠ some 1 := by
      intro hmultiple
      rcases requestHasMultipleChoices_iff.mp hmultiple with hfield | ⟨raw, choices, hraw, hparse, hne⟩
      · exact absurd hfield hnull
      · refine ⟨hvalid raw choices hraw hparse hne, raw, hraw, ?_, ?_⟩
        · rintro rfl
          exact hnull hraw
        · rw [hparse]
          exact fun heq => hne (Option.some.inj heq)
    refine ⟨fun hmultiple => hrefused (requestHasMultipleChoices_iff.mpr hmultiple), ?_⟩
    -- a body that is rewritten has passed the second gate
    intro body hbody
    by_contra hmultiple
    have hgate := requireSingleChoice_error_iff.mpr
      (hrefused (Bool.eq_true_of_not_eq_false hmultiple)).2
    obtain ⟨_, _, _, _, hrewrite⟩ := (@refusedForChoices_iff kind original accumulated emitted
      members hvalue).mpr ⟨(hrefused (Bool.eq_true_of_not_eq_false hmultiple)).1, hgate⟩
    rw [hbody] at hrewrite
    cases hrewrite

/-- A chat request with a field `n`. -/
def chatRequest (n : Json) (validUTF8 : Bool) : RequestBody :=
  ⟨.obj [("messages", .arr []), ("n", n)], validUTF8⟩

/-- `null` is several choices to the first gate and is rewritten by the second; a body with two
choices that is not UTF-8 is not refused because of them. -/
theorem choice_gates_differ :
    (normalizeRequest (chatRequest .null true)).isOk = true ∧
    requestHasMultipleChoices (chatRequest .null true).value = true ∧
    (rewriteBody .requestChatCompletion (chatRequest .null true) [] 0).isOk = true ∧
    (normalizeRequest (chatRequest (.num "2") false)).isOk = true ∧
    requestHasMultipleChoices (chatRequest (.num "2") false).value = true ∧
    ¬ RefusedForChoices .requestChatCompletion (chatRequest (.num "2") false) [] 0 := by
  refine ⟨by decide +kernel, by decide +kernel, by decide +kernel, by decide +kernel,
    by decide +kernel, fun hrefused => ?_⟩
  exact absurd ((refusedForChoices_iff rfl).mp hrefused).1 (by decide)

/-- The gates agree on two choices. -/
theorem choice_gates_agree_two :
    GatesAgree .requestChatCompletion (chatRequest (.num "2") true) [] 0 ∧
      RefusedForChoices .requestChatCompletion (chatRequest (.num "2") true) [] 0 := by
  have hagree := (choice_gates_agree_iff (chatRequest (.num "2") true)
    ⟨⟨.obj [("messages", .arr []), ("n", .num "2")], true⟩, "", false⟩ (by rfl)
    .requestChatCompletion [] 0).mpr ⟨by decide +kernel, fun _ _ _ _ _ => rfl⟩
  exact ⟨hagree, hagree.1 (by decide +kernel)⟩

end Streamweld.Proxy
