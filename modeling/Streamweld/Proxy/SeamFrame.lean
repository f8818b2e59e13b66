import Streamweld.Lib.JsonFields
import Streamweld.Proxy.Seam

/-!
# What the rewriting of a frame leaves alone

`rewriteLeadingAssistantText` (`internal/proxy/producer.go`) decodes a frame into maps at three
levels and writes the maps back.  Here the frame after it is compared with the frame before
it, member by member: the only values that may differ are the texts of the choices with index
zero, which lose whole runes from the front, in order.

Two members are written back without looking: `choices`, also when there was none, and the
texts of a choice whose index is `null`, which `json.Unmarshal` reads as zero.
`rewrite_leading_only_iff` says when that matters.
-/

namespace Streamweld.Proxy

open Streamweld.Lib Streamweld.Lib.Json Streamweld.Migrate

variable {members : List (String × Json)} {choices : List Json}

/-! ## Frames before and after -/

/-- The members outside of some keys are the same, and no name occurs twice. -/
structure KeptExcept (keys : List String) (before after : List (String × Json)) : Prop where
  nodup : (after.map Prod.fst).Nodup
  kept : ∀ key ∉ keys, List.lookup key after = List.lookup key before

/-- The same value, where the order of the members of an object does not matter. -/
def Kept (before after : Option Json) : Prop :=
  after = before ∨
    ∃ members members', before = some (.obj members) ∧ after = some (.obj members') ∧
      members'.Perm members

/-- A string loses what remains to be removed; anything else is the same. -/
def TextRewritten (before after : Option Json) (n n' : Nat) : Prop :=
  match before with
  | some (.str text) => ∃ rest, after = some (.str rest) ∧ Strips n text.toList rest.toList n'
  | _ => after = before ∧ n' = n

/-- A delta loses from its content. -/
def DeltaRewritten (before after : Option Json) (n n' : Nat) : Prop :=
  match before with
  | some (.obj members) =>
    ∃ members', after = some (.obj members') ∧ KeptExcept ["content"] members members' ∧
      TextRewritten (List.lookup "content" members) (List.lookup "content" members') n n'
  | _ => after = before ∧ n' = n

/-- A choice loses from its text and then from its delta if it is first, and otherwise
nothing. -/
def ChoiceRewritten (first : Bool) (before after : Json) (n n' : Nat) : Prop :=
  match before with
  | .obj members =>
    ∃ members', after = .obj members' ∧
      if first then
        KeptExcept ["text", "delta"] members members' ∧
          ∃ mid, TextRewritten (List.lookup "text" members) (List.lookup "text" members') n mid ∧
            DeltaRewritten (List.lookup "delta" members) (List.lookup "delta" members') mid n'
      else
        KeptExcept ["delta"] members members' ∧
          Kept (List.lookup "delta" members) (List.lookup "delta" members') ∧ n' = n
  | _ => after = before ∧ n' = n

/-- The choices lose in order of appearance. -/
inductive ChoicesRewritten (first : Json → Bool) :
    List Json → List Json → Nat → Nat → Prop
  | nil (n : Nat) : ChoicesRewritten first [] [] n n
  | cons {before after : Json} {rest rest' : List Json} {n mid n' : Nat}
      (head : ChoiceRewritten (first before) before after n mid)
      (tail : ChoicesRewritten first rest rest' mid n') :
      ChoicesRewritten first (before :: rest) (after :: rest') n n'

/-- A frame has the same members, except that its choices lose. -/
def FrameRewritten (first : Json → Bool) (before after : List (String × Json)) (n n' : Nat) :
    Prop :=
  KeptExcept ["choices"] before after ∧
    match List.lookup "choices" before with
    | some (.arr choices) =>
      ∃ choices', List.lookup "choices" after = some (.arr choices') ∧
        ChoicesRewritten first choices choices' n n'
    | value => List.lookup "choices" after = value ∧ n' = n

/-! ## The choices with index zero -/

/-- The index of a choice is the number zero. -/
def indexZero : Json → Bool
  | .obj members =>
    match List.lookup "index" members with
    | some (.num literal) => literalIsZero literal
    | _ => false
  | _ => false

/-- The index of a choice is zero for the code. -/
def indexReadsZero : Json → Bool
  | .obj members => hasIndexZero (.ofMembers members)
  | _ => false

/-- The bytes of a string. -/
def textBytes : Option Json → Nat
  | some (.str text) => byteLength text.toList
  | _ => 0

def deltaBytes : Option Json → Nat
  | some (.obj members) => textBytes (List.lookup "content" members)
  | _ => 0

/-- The bytes of the text of a choice. -/
def choiceBytes : Json → Nat
  | .obj members =>
    textBytes (List.lookup "text" members) + deltaBytes (List.lookup "delta" members)
  | _ => 0

/-- The bytes of the text of the choices with index zero. -/
def leadingBytes (members : List (String × Json)) : Nat :=
  match List.lookup "choices" members with
  | some (.arr choices) => (choices.map fun c => if indexZero c then choiceBytes c else 0).sum
  | _ => 0

/-- Nothing but leading text is altered, and as much of it is removed as there is. -/
def LeadingOnly (members : List (String × Json)) (n : Nat) (out : Json) (n' : Nat) : Prop :=
  ∃ members', out = .obj members' ∧ FrameRewritten indexZero members members' n n' ∧
    n' ≤ n ∧ n - n' = min n (leadingBytes members)

/-- The choices for which two readings of the index differ have nothing to lose. -/
def ReadingsAgree (first second : Json → Bool) : Nat → List Json → Prop
  | _, [] => True
  | n, choice :: rest =>
    (first choice ≠ second choice → n = 0 ∨ choiceBytes choice = 0) ∧
      ReadingsAgree first second (n - if second choice then choiceBytes choice else 0) rest

/-- The frame has a member `choices`, and the indices of its choices are read as what they
are, as far as it matters. -/
def ChoicesExplicit (members : List (String × Json)) (n : Nat) : Prop :=
  (List.lookup "choices" members).isSome ∧
    ∀ choices, List.lookup "choices" members = some (.arr choices) →
      ReadingsAgree indexReadsZero indexZero n choices

/-! ## What the code does -/

section Code

variable {m m' : RawMap} {n n' : Nat}

theorem strips_of_stripTextPrefix {text rest : Text}
    (h : stripTextPrefix text n = .ok (rest, n')) : Strips n text rest n' := by
  unfold stripTextPrefix at h
  split at h
  · rename_i hn
    cases h
    exact ⟨[], rfl, by simp [hn], by simp [hn]⟩
  · dsimp only at h
    split at h
    · cases h
    · rename_i removed rest' hsplit
      cases h
      obtain ⟨happend, hlength⟩ := splitBytes_eq_some_iff.mp hsplit
      exact ⟨removed, happend, hlength, by rw [hlength]⟩

theorem rewriteString_kept {key : String} (h : rewriteString m key n = .ok (m', n')) :
    TextRewritten (m.get key) (m'.get key) n n' ∧ ∀ other ≠ key, m'.get other = m.get other := by
  unfold rewriteString at h
  split at h
  · rename_i hget
    cases h
    rw [hget]
    exact ⟨⟨rfl, rfl⟩, fun _ _ => rfl⟩
  · rename_i hget
    cases h
    rw [hget]
    exact ⟨⟨rfl, rfl⟩, fun _ _ => rfl⟩
  · rename_i text hget
    split at h
    · rename_i rest mid hstrip
      cases h
      rw [hget]
      refine ⟨⟨String.ofList rest, ?_, ?_⟩, fun other hother => ?_⟩
      · rw [RawMap.get_insert, if_pos rfl]
      · rw [String.toList_ofList]
        exact strips_of_stripTextPrefix hstrip
      · rw [RawMap.get_insert, if_neg hother]
    · cases h
  · cases h

theorem rewriteDelta_kept
    (hdistinct : ∀ members, m.get "delta" = some (.obj members) → (members.map Prod.fst).Nodup)
    (h : rewriteDelta m n = .ok (m', n')) :
    DeltaRewritten (m.get "delta") (m'.get "delta") n n' ∧
      ∀ other ≠ "delta", m'.get other = m.get other := by
  unfold rewriteDelta at h
  split at h
  · rename_i hget
    cases h
    rw [hget]
    exact ⟨⟨rfl, rfl⟩, fun _ _ => rfl⟩
  · rename_i hget
    cases h
    rw [hget]
    exact ⟨⟨rfl, rfl⟩, fun _ _ => rfl⟩
  · rename_i members hget
    split at h
    · rename_i delta mid hstring
      cases h
      have hnodup := hdistinct members hget
      obtain ⟨htext, hother⟩ := rewriteString_kept hstring
      rw [RawMap.get_ofMembers_of_nodup hnodup] at htext
      rw [hget]
      refine ⟨⟨delta.entries, ?_, ⟨delta.nodup, fun key hkey => ?_⟩, htext⟩, fun other hne => ?_⟩
      · rw [RawMap.get_insert, if_pos rfl]
      · rw [← RawMap.get_ofMembers_of_nodup hnodup]
        exact hother key (by simpa using hkey)
      · rw [RawMap.get_insert, if_neg hne]
    · cases h
  · cases h

/-- The deltas of the choices have distinct names. -/
theorem delta_distinct (h : Distinct (.obj members)) :
    ∀ delta, List.lookup "delta" members = some (.obj delta) → (delta.map Prod.fst).Nodup := by
  intro delta hdelta
  rw [Distinct] at h
  have hdistinct := h.2.lookup hdelta
  rw [Distinct] at hdistinct
  exact hdistinct.1

/-- One choice, which is `null` or an object. -/
theorem rewriteChoice_kept {choice : Json} (hdistinct : Distinct choice)
    {map map' : Option RawMap} (hdecode : decodeMap choice = some map)
    (h : rewriteChoice map n = .ok (map', n')) :
    ChoiceRewritten (indexReadsZero choice) choice (encodeMap map') n n' := by
  cases choice with
  | null =>
    obtain rfl := Option.some.inj hdecode
    cases h
    exact ⟨rfl, rfl⟩
  | obj members =>
    obtain rfl := Option.some.inj hdecode
    have hdeltaNames := delta_distinct hdistinct
    rw [Distinct] at hdistinct
    have hget := RawMap.get_ofMembers_of_nodup hdistinct.1
    unfold rewriteChoice at h
    dsimp only at h
    show ∃ members', _ ∧ if hasIndexZero (.ofMembers members) = true then _ else _
    split at h
    · rename_i hindex
      split at h
      · cases h
      rename_i choice mid hstring
      split at h
      · cases h
      rename_i choice' last hdelta
      cases h
      obtain ⟨htext, hother⟩ := rewriteString_kept hstring
      have hdeltaDistinct : ∀ delta, choice.get "delta" = some (.obj delta) →
          (delta.map Prod.fst).Nodup := by
        intro delta hvalue
        rw [hother "delta" (by decide), hget] at hvalue
        exact hdeltaNames delta hvalue
      obtain ⟨hdeltas, hrest⟩ := rewriteDelta_kept hdeltaDistinct hdelta
      refine ⟨choice'.entries, rfl, ?_⟩
      rw [if_pos hindex]
      refine ⟨⟨choice'.nodup, fun key hkey => ?_⟩, mid, ?_, ?_⟩
      · simp only [List.mem_cons, List.not_mem_nil, or_false, not_or] at hkey
        rw [← hget, ← hother key hkey.1]
        exact hrest key hkey.2
      · rw [← hget, ← RawMap.get, hrest "text" (by decide)]
        exact htext
      · rw [← hget, ← hother "delta" (by decide)]
        exact hdeltas
    · rename_i hindex
      cases h
      refine ⟨(RawMap.ofMembers members).entries, rfl, ?_⟩
      rw [if_neg hindex]
      exact ⟨⟨RawMap.nodup _, fun key _ => hget key⟩, .inl (hget "delta"), rfl⟩
  | _ => exact absurd hdecode (by simp [decodeMap])

/-- The loop over the choices. -/
theorem rewriteChoices_kept (hdistinct : ∀ c ∈ choices, Distinct c)
    {maps maps' : List (Option RawMap)} (hdecode : choices.mapM decodeMap = some maps)
    (h : rewriteChoices maps n = .ok (maps', n')) :
    ChoicesRewritten indexReadsZero choices (maps'.map encodeMap) n n' := by
  induction choices generalizing maps maps' n with
  | nil =>
    obtain rfl : [] = maps := by simpa using hdecode
    cases h
    exact .nil _
  | cons choice choices ih =>
    obtain ⟨hchoice, hrest⟩ := List.forall_mem_cons.mp hdistinct
    rw [List.mapM_cons] at hdecode
    obtain ⟨map, hmap, hdecode⟩ := Option.bind_eq_some_iff.mp hdecode
    obtain ⟨rest, hmaps, hdecode⟩ := Option.bind_eq_some_iff.mp hdecode
    obtain rfl := Option.some.inj hdecode
    rw [rewriteChoices] at h
    split at h
    · cases h
    rename_i map' mid hrewrite
    split at h
    · cases h
    rename_i rest' last hloop
    cases h
    exact .cons (rewriteChoice_kept hchoice hmap hrewrite) (ih hrest hmaps hloop)

/-- The choices that are decoded are those of the member `choices`. -/
theorem rawChoices_kept (hnodup : (members.map Prod.fst).Nodup)
    {choices : Option (List (Option RawMap))}
    (h : rawChoices (some (.ofMembers members)) = .ok choices) :
    (List.lookup "choices" members = none → choices = none) ∧
      ∀ raw, List.lookup "choices" members = some raw → decodeMaps raw = some choices := by
  unfold rawChoices at h
  rw [Option.bind_some, RawMap.get_ofMembers_of_nodup hnodup] at h
  constructor
  · intro hlookup
    rw [hlookup] at h
    cases h
    rfl
  · intro raw hlookup
    rw [hlookup] at h
    dsimp only at h
    split at h
    · rename_i choices' hdecode
      cases h
      exact hdecode
    · cases h

/-- What the code makes of a frame: with choices, the frame rewritten by the code's own reading
of the indices, and otherwise the frame with `choices` added. -/
theorem rewrite_kept (hdistinct : Distinct (.obj members)) {out : Json}
    (h : rewriteLeadingAssistantText (.obj members) n = .ok (out, n')) :
    ∃ members', out = .obj members' ∧
      ((List.lookup "choices" members).isSome →
        FrameRewritten indexReadsZero members members' n n') ∧
      (List.lookup "choices" members = none → List.lookup "choices" members' = some .null) := by
  rw [Distinct] at hdistinct
  obtain ⟨hnodup, hmembers⟩ := hdistinct
  have hget := RawMap.get_ofMembers_of_nodup hnodup
  unfold rewriteLeadingAssistantText at h
  dsimp only [decodeMap] at h
  split at h
  · cases h
  rename_i choices hchoices
  split at h
  · cases h
  rename_i rewritten last hloop
  cases h
  have hraw := rawChoices_kept hnodup hchoices
  have hwritten : List.lookup "choices" ((RawMap.ofMembers members).insert "choices"
      (encodeMaps (choices.map fun _ => rewritten))).entries =
      some (encodeMaps (choices.map fun _ => rewritten)) := by
    rw [← RawMap.get, RawMap.get_insert, if_pos rfl]
  refine ⟨_, rfl, fun hsome => ⟨⟨RawMap.nodup _, fun key hkey => ?_⟩, ?_⟩, fun hnone => ?_⟩
  · rw [← hget, ← RawMap.get, RawMap.get_insert, if_neg (by simpa using hkey)]
  · rw [hwritten]
    cases hlookup : List.lookup "choices" members with
    | none => exact absurd hsome (by simp [hlookup])
    | some raw =>
      have hraw := hraw.2 raw hlookup
      have hdistinct := hmembers.lookup hlookup
      cases raw with
      | null =>
        obtain rfl := Option.some.inj hraw
        cases hloop
        exact ⟨rfl, rfl⟩
      | arr elements =>
        obtain ⟨maps, hmaps, rfl⟩ := Option.map_eq_some_iff.mp hraw
        rw [Distinct] at hdistinct
        exact ⟨_, rfl, rewriteChoices_kept hdistinct.mem hmaps hloop⟩
      | _ => exact absurd hraw (by simp [decodeMaps])
  · rw [hwritten]
    obtain rfl := hraw.1 hnone
    rfl

end Code

/-! ## Nothing to lose -/

section Nothing

variable {before after : Option Json} {n n' : Nat}

theorem TextRewritten.bytes (h : TextRewritten before after n n') : n' = n - textBytes before := by
  unfold TextRewritten at h
  unfold textBytes
  split at h
  · obtain ⟨rest, rfl, removed, happend, hlength, rfl⟩ := h
    omega
  · exact h.2

/-- With nothing to lose a value stays as it is. -/
theorem TextRewritten.same (h : TextRewritten before after n n')
    (hnothing : n = 0 ∨ textBytes before = 0) : after = before ∧ n' = n := by
  have hbytes := h.bytes
  refine ⟨?_, by omega⟩
  unfold TextRewritten at h
  split at h
  · rename_i text
    obtain ⟨rest, rfl, removed, happend, hlength, rfl⟩ := h
    have hnothing : n = 0 ∨ byteLength text.toList = 0 := hnothing
    obtain rfl : removed = [] := byteLength_eq_zero_iff.mp (by omega)
    rw [List.nil_append, String.toList_inj] at happend
    rw [happend]
  · exact h.1

theorem TextRewritten.refl (hnothing : n = 0 ∨ textBytes before = 0) :
    TextRewritten before before n n := by
  unfold TextRewritten
  split
  · rename_i text
    have hnothing : n = 0 ∨ byteLength text.toList = 0 := hnothing
    exact ⟨text, rfl, [], rfl, by rw [byteLength_nil]; omega, rfl⟩
  · exact ⟨rfl, rfl⟩

/-- A value that stays as it is has nothing to lose. -/
theorem TextRewritten.nothing (h : TextRewritten before before n n') :
    n = 0 ∨ textBytes before = 0 := by
  unfold TextRewritten at h
  split at h
  · rename_i text
    obtain ⟨rest, hsame, removed, happend, hlength, rfl⟩ := h
    obtain rfl := Json.str.inj (Option.some.inj hsame)
    have hremoved := congrArg byteLength happend
    rw [byteLength_append] at hremoved
    show n = 0 ∨ byteLength text.toList = 0
    omega
  · rename_i hother
    refine .inr ?_
    unfold textBytes
    split
    · exact absurd rfl (hother _)
    · rfl

theorem DeltaRewritten.bytes (h : DeltaRewritten before after n n') :
    n' = n - deltaBytes before := by
  unfold DeltaRewritten at h
  unfold deltaBytes
  split at h
  · obtain ⟨members', _, _, htext⟩ := h
    exact htext.bytes
  · exact h.2

theorem DeltaRewritten.same
    (hdistinct : ∀ members, before = some (.obj members) → (members.map Prod.fst).Nodup)
    (h : DeltaRewritten before after n n') (hnothing : n = 0 ∨ deltaBytes before = 0) :
    Kept before after ∧ n' = n := by
  have hbytes := h.bytes
  refine ⟨?_, by omega⟩
  unfold DeltaRewritten at h
  split at h
  · rename_i members
    obtain ⟨members', rfl, hkept, htext⟩ := h
    obtain ⟨hcontent, _⟩ := htext.same hnothing
    refine .inr ⟨members, members', rfl, rfl,
      perm_of_lookup (hdistinct members rfl) hkept.nodup fun key => ?_⟩
    by_cases hkey : key = "content"
    · rw [hkey, hcontent]
    · exact hkept.kept key (by simpa using hkey)
  · exact .inl h.1

theorem DeltaRewritten.of_kept
    (hdistinct : ∀ members, before = some (.obj members) → (members.map Prod.fst).Nodup)
    (hkept : Kept before after) (hnothing : n = 0 ∨ deltaBytes before = 0) :
    DeltaRewritten before after n n := by
  unfold DeltaRewritten
  split
  · rename_i members
    have hnodup := hdistinct members rfl
    have hcontent : n = 0 ∨ textBytes (List.lookup "content" members) = 0 := hnothing
    have hperm : ∃ members', after = some (.obj members') ∧ members'.Perm members := by
      rcases hkept with rfl | ⟨_, members', hmembers, rfl, hperm⟩
      · exact ⟨members, rfl, .refl _⟩
      · obtain rfl := Json.obj.inj (Option.some.inj hmembers)
        exact ⟨members', rfl, hperm⟩
    obtain ⟨members', rfl, hperm⟩ := hperm
    have hnodup' := (hperm.map Prod.fst).nodup_iff.mpr hnodup
    refine ⟨members', rfl, ⟨hnodup', fun key _ => RawMap.lookup_perm hnodup' hperm key⟩, ?_⟩
    rw [RawMap.lookup_perm hnodup' hperm]
    exact .refl hcontent
  · rename_i hother
    rcases hkept with rfl | ⟨members, _, rfl, _⟩
    · exact ⟨rfl, rfl⟩
    · exact absurd rfl (hother members)

theorem DeltaRewritten.nothing
    (hdistinct : ∀ members, before = some (.obj members) → (members.map Prod.fst).Nodup)
    (hkept : Kept before after) (h : DeltaRewritten before after n n') :
    n = 0 ∨ deltaBytes before = 0 := by
  unfold DeltaRewritten at h
  split at h
  · rename_i members
    obtain ⟨members', rfl, hexcept, htext⟩ := h
    have hcontent : List.lookup "content" members' = List.lookup "content" members := by
      rcases hkept with hsame | ⟨_, _, hmembers, hmembers', hperm⟩
      · rw [Json.obj.inj (Option.some.inj hsame)]
      · obtain rfl := Json.obj.inj (Option.some.inj hmembers)
        obtain rfl := Json.obj.inj (Option.some.inj hmembers')
        exact RawMap.lookup_perm hexcept.nodup hperm "content"
    rw [hcontent] at htext
    exact htext.nothing
  · rename_i hother
    refine .inr ?_
    unfold deltaBytes
    split
    · exact absurd rfl (hother _)
    · rfl

variable {choice choice' : Json} {first : Bool}

theorem ChoiceRewritten.bytes (h : ChoiceRewritten first choice choice' n n') :
    n' = n - if first then choiceBytes choice else 0 := by
  cases choice with
  | obj members =>
    obtain ⟨members', _, h⟩ := h
    cases first with
    | true =>
      obtain ⟨_, mid, htext, hdelta⟩ := h
      have htext := htext.bytes
      have hdelta := hdelta.bytes
      show n' = n - (_ + _)
      omega
    | false => exact h.2.2
  | _ => simpa [choiceBytes] using h.2

/-- With nothing to lose it does not matter whether a choice is first. -/
theorem ChoiceRewritten.change (hdistinct : Distinct choice)
    (h : ChoiceRewritten first choice choice' n n') (hnothing : n = 0 ∨ choiceBytes choice = 0)
    (second : Bool) : ChoiceRewritten second choice choice' n n' := by
  have hn := h.bytes
  cases choice with
  | obj members =>
    have hnothing : n = 0 ∨ textBytes (List.lookup "text" members) +
      deltaBytes (List.lookup "delta" members) = 0 := hnothing
    obtain ⟨members', rfl, h⟩ := h
    refine ⟨members', rfl, ?_⟩
    cases first with
    | true =>
      cases second with
      | true => exact h
      | false =>
        obtain ⟨hkept, mid, htext, hdelta⟩ := h
        obtain ⟨hsame, rfl⟩ := htext.same (by omega)
        obtain ⟨hdelta, hmid⟩ := hdelta.same (delta_distinct hdistinct) (by omega)
        refine ⟨⟨hkept.nodup, fun key hkey => ?_⟩, hdelta, hmid⟩
        by_cases htext : key = "text"
        · rw [htext, hsame]
        · exact hkept.kept key (by simpa [htext] using hkey)
    | false =>
      cases second with
      | true =>
        obtain ⟨hkept, hdelta, rfl⟩ := h
        refine ⟨⟨hkept.nodup, fun key hkey => hkept.kept key ?_⟩, n', ?_, ?_⟩
        · simp only [List.mem_cons, not_or] at hkey
          simpa using hkey.2.1
        · rw [hkept.kept "text" (by decide)]
          exact .refl (by omega)
        · exact .of_kept (delta_distinct hdistinct) hdelta (by omega)
      | false => exact h
  | _ => exact h

/-- A choice that is rewritten alike whether or not it is first has nothing to lose. -/
theorem ChoiceRewritten.nothing {n'' : Nat} (hdistinct : Distinct choice)
    (h : ChoiceRewritten true choice choice' n n') (h' : ChoiceRewritten false choice choice' n n'') :
    n = 0 ∨ choiceBytes choice = 0 := by
  cases choice with
  | obj members =>
    obtain ⟨members', rfl, _, mid, htext, hdelta⟩ := h
    obtain ⟨_, hsame, hkept, hdeltaKept, _⟩ := h'
    obtain rfl := Json.obj.inj hsame
    rw [hkept.kept "text" (by decide)] at htext
    have hmid := htext.bytes
    have htext := htext.nothing
    have hdelta := hdelta.nothing (delta_distinct hdistinct) hdeltaKept
    show n = 0 ∨ textBytes (List.lookup "text" members) +
      deltaBytes (List.lookup "delta" members) = 0
    omega
  | _ => exact .inr rfl

end Nothing

/-! ## Two readings of the indices -/

theorem ChoicesRewritten.bytes {first : Json → Bool} {choices' : List Json} {n n' : Nat}
    (h : ChoicesRewritten first choices choices' n n') :
    n' = n - (choices.map fun c => if first c then choiceBytes c else 0).sum := by
  induction h with
  | nil n => simp
  | cons head tail ih =>
    have hhead := head.bytes
    rw [List.map_cons, List.sum_cons]
    omega

/-- Choices that are rewritten by one reading are rewritten by the other one exactly if the
readings agree. -/
theorem ChoicesRewritten.iff_agree {first second : Json → Bool} {choices' : List Json}
    {n n' : Nat} (hdistinct : ∀ c ∈ choices, Distinct c)
    (h : ChoicesRewritten first choices choices' n n') :
    ChoicesRewritten second choices choices' n n' ↔ ReadingsAgree first second n choices := by
  induction h with
  | nil n => exact ⟨fun _ => trivial, fun _ => .nil n⟩
  | @cons before after rest rest' n mid n' head tail ih =>
    obtain ⟨hbefore, hrest⟩ := List.forall_mem_cons.mp hdistinct
    have hmid := head.bytes
    constructor
    · intro h
      cases h with
      | @cons _ _ _ _ _ mid' _ head' tail' =>
        have hnothing : first before ≠ second before → n = 0 ∨ choiceBytes before = 0 := by
          intro hne
          cases hfirst : first before with
          | true =>
            rw [hfirst] at hne head
            rw [Bool.eq_false_of_not_eq_true (Ne.symm hne)] at head'
            exact head.nothing hbefore head'
          | false =>
            rw [hfirst] at hne head
            rw [Bool.eq_true_of_not_eq_false (Ne.symm hne)] at head'
            exact head'.nothing hbefore head
        have hmid' := head'.bytes
        have hsame : mid' = mid := by
          by_cases heq : first before = second before
          · rw [hmid, hmid', heq]
          · have hnone := hnothing heq
            split at hmid <;> split at hmid' <;> omega
        subst hsame
        exact ⟨hnothing, hmid' ▸ (ih hrest).mp tail'⟩
    · rintro ⟨hnothing, hagree⟩
      have head' : ChoiceRewritten (second before) before after n mid := by
        by_cases heq : first before = second before
        · exact heq ▸ head
        · exact head.change hbefore (hnothing heq) _
      rw [← head'.bytes] at hagree
      exact .cons head' ((ih hrest).mpr hagree)

/-! ## The result -/

/-- A frame is rewritten by the reading of the indices as numbers if the code's reading agrees
with it. -/
theorem frameRewritten_iff {members' : List (String × Json)} (hdistinct : Distinct (.obj members))
    {n n' : Nat} (h : FrameRewritten indexReadsZero members members' n n') :
    FrameRewritten indexZero members members' n n' ↔
      ∀ choices, List.lookup "choices" members = some (.arr choices) →
        ReadingsAgree indexReadsZero indexZero n choices := by
  obtain ⟨hkept, hchoices⟩ := h
  rw [Distinct] at hdistinct
  unfold FrameRewritten
  rw [and_iff_right hkept]
  split at hchoices
  · rename_i choices hlookup
    obtain ⟨choices', hafter, hrewritten⟩ := hchoices
    have helements := hdistinct.2.lookup hlookup
    rw [Distinct] at helements
    rw [hlookup]
    constructor
    · rintro ⟨choices'', hafter', hrewritten'⟩ other hother
      obtain rfl := Json.arr.inj (Option.some.inj hother)
      obtain rfl := Json.arr.inj (Option.some.inj (hafter.symm.trans hafter'))
      exact (hrewritten.iff_agree helements.mem).mp hrewritten'
    · intro hagree
      exact ⟨choices', hafter, (hrewritten.iff_agree helements.mem).mpr (hagree choices rfl)⟩
  · rename_i hother
    refine ⟨fun _ choices hlookup => absurd hlookup (hother choices), fun _ => ?_⟩
    exact hchoices

/-- The bytes that are removed. -/
theorem FrameRewritten.bytes {members' : List (String × Json)} {n n' : Nat}
    (h : FrameRewritten indexZero members members' n n') : n' = n - leadingBytes members := by
  obtain ⟨_, h⟩ := h
  unfold leadingBytes
  split at h
  · obtain ⟨_, _, hrewritten⟩ := h
    exact hrewritten.bytes
  · exact h.2

/-- The rewriting touches nothing but leading text exactly when the frame has a member `choices`
and no choice loses or keeps text because its index is misread. -/
theorem rewrite_leading_only_iff (members : List (String × Json))
    (hdistinct : Distinct (.obj members)) (n : Nat) (out : Json) (n' : Nat)
    (h : rewriteLeadingAssistantText (.obj members) n = .ok (out, n')) :
    LeadingOnly members n out n' ↔ ChoicesExplicit members n := by
  obtain ⟨members', rfl, hsome, hnone⟩ := rewrite_kept hdistinct h
  constructor
  · rintro ⟨_, heq, hframe, _, _⟩
    obtain rfl := Json.obj.inj heq
    have hpresent : (List.lookup "choices" members).isSome := by
      by_contra habsent
      -- the code has added the member
      have hnone' : List.lookup "choices" members = none :=
        Option.not_isSome_iff_eq_none.mp habsent
      have hchoices := hframe.2
      rw [hnone'] at hchoices
      exact absurd ((hnone hnone').symm.trans hchoices.1) (by simp)
    exact ⟨hpresent, (frameRewritten_iff hdistinct (hsome hpresent)).mp hframe⟩
  · rintro ⟨hpresent, hagree⟩
    have hframe := (frameRewritten_iff hdistinct (hsome hpresent)).mpr hagree
    have hbytes := hframe.bytes
    exact ⟨members', rfl, hframe, by omega, by omega⟩

/-- A frame without choices gets some, and a choice whose index is `null` loses text. -/
theorem rewrite_adds_choices :
    rewriteLeadingAssistantText (.obj [("id", .str "a")]) 1 =
        .ok (.obj [("choices", .null), ("id", .str "a")], 1) ∧
      ¬ LeadingOnly [("id", .str "a")] 1 (.obj [("choices", .null), ("id", .str "a")]) 1 ∧
      rewriteLeadingAssistantText
          (.obj [("choices", .arr [.obj [("index", .null), ("text", .str "ab")]])]) 1 =
        .ok (.obj [("choices", .arr [.obj [("index", .null), ("text", .str "b")]])], 0) ∧
      ¬ LeadingOnly [("choices", .arr [.obj [("index", .null), ("text", .str "ab")]])] 1
        (.obj [("choices", .arr [.obj [("index", .null), ("text", .str "b")]])]) 0 := by
  refine ⟨by decide +kernel, ?_, by decide +kernel, ?_⟩
  · rintro ⟨_, heq, ⟨_, hchoices⟩, _⟩
    obtain rfl := Json.obj.inj heq
    exact absurd hchoices.1 (by decide)
  · rintro ⟨_, _, _, _, hbytes⟩
    exact absurd hbytes (by decide)

/-- A text of two runes loses the first one. -/
theorem rewrite_leading_only_rune :
    let members := [("choices", Json.arr [.obj [("index", .num "0"), ("delta",
      .obj [("role", .str "assistant"), ("content", .str "éb")])]])]
    LeadingOnly members 2 (.obj [("choices", Json.arr [.obj [("delta",
      .obj [("content", .str "b"), ("role", .str "assistant")]), ("index", .num "0")]])]) 0 := by
  intro members
  have hdistinct : Distinct (.obj members) := by
    simp [members, Distinct, DistinctMembers, DistinctElements]
  refine (rewrite_leading_only_iff members hdistinct 2 _ 0 (by decide +kernel)).mpr
    ⟨rfl, fun choices hchoices => ?_⟩
  obtain rfl := Json.arr.inj (Option.some.inj hchoices)
  exact ⟨fun hne => absurd (by decide +kernel) hne, trivial⟩

end Streamweld.Proxy
