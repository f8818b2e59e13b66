import Streamweld.Proxy.ChunkReading
import Streamweld.Proxy.Seam

/-!
# Frames that both readers of `flushSeam` read alike

`flushSeam` computes the overlap from the text that `observeOpenAIChunk` reads in the frames,
and removes it with `rewriteLeadingAssistantText`, which looks for exact names and for an index.
On a `PlainFrame` the second removes what the first reads (`PlainFrame.rewrite`), so that
`flushSeam` removes the overlap when the frames that the overlap reaches are plain
(`flushSeam_removes_overlap`).

The argument goes up the levels of a frame: a string under a key, the delta of a choice, a
choice, the list of choices, the frame, the list of frames.  `Strips` says at each level what is
left of the text.
-/

namespace Streamweld.Proxy

open Streamweld.Lib Streamweld.Lib.Json Streamweld.Migrate

/-! ## Plain frames -/

/-- The index of a choice is a number other than zero. -/
def OtherIndex (choice : List (String × Json)) : Prop :=
  ∃ literal, property "index" choice = some (.num literal) ∧ parseInt literal ≠ some 0

/-- The index of a choice is a number, or only ever `null`.  A choice without one has no text. -/
def GivenIndex (choice : List (String × Json)) : Prop :=
  match property "index" choice with
  | none => choiceText choice = []
  | some .null => ∀ value ∈ membersWith (folds "index") choice, value = .null
  | some _ => True

/-- The names of a choice are spelled exactly, and its index is given.  If that is not zero,
the names that lead to the text do not matter. -/
def PlainChoice : Json → Prop
  | .obj choice =>
    Exact "index" choice ∧ (OtherIndex choice ∨ SpelledChoice choice ∧ GivenIndex choice)
  | _ => True

/-- A frame is an object with plain choices, under one member `choices` at most. -/
def PlainFrame : Json → Prop
  | .obj members =>
    Sole "choices" members ∧ ∀ element ∈ choiceElements members, PlainChoice element
  | _ => False

/-! ## Removing from the front of a text -/

section Strips

variable {n n' : Nat} {text rest : Text}

theorem Strips.nil (h : Strips n [] rest n') : rest = [] ∧ n' = n := by
  obtain ⟨removed, happend, _, hn'⟩ := h
  obtain ⟨rfl, rfl⟩ := List.append_eq_nil_iff.mp happend
  exact ⟨rfl, hn'⟩

theorem stripTextPrefix_of_strips (h : Strips n text rest n') :
    stripTextPrefix text n = .ok (rest, n') := by
  obtain ⟨removed, happend, hlength, rfl⟩ := h
  unfold stripTextPrefix
  split
  · rename_i hn
    rw [hn, Nat.min_zero, byteLength_eq_zero_iff] at hlength
    subst hlength
    rw [← happend, hn]
    rfl
  · have hsplit : splitBytes (min (byteLength text) n) text = some (removed, rest) :=
      splitBytes_eq_some_iff.mpr ⟨happend, hlength⟩
    dsimp only
    rw [hsplit, hlength]

/-- A text in two parts loses first from the first one. -/
theorem Strips.append {first second : Text} (h : Strips n (first ++ second) rest n') :
    ∃ left right middle, Strips n first left middle ∧ Strips middle second right n' ∧
      left ++ right = rest := by
  obtain ⟨removed, happend, hlength, rfl⟩ := h
  rw [byteLength_append] at hlength
  rcases List.append_eq_append_iff.mp happend with ⟨kept, rfl, rfl⟩ | ⟨more, rfl, rfl⟩
  · -- the removed part ends in the first text
    rw [byteLength_append] at hlength
    refine ⟨kept, second, n - byteLength removed, ⟨removed, rfl, ?_, rfl⟩, ⟨[], rfl, ?_, ?_⟩, rfl⟩
    · rw [byteLength_append]
      omega
    · rw [byteLength_nil]
      omega
    · simp
  · rw [byteLength_append, byteLength_append] at hlength
    refine ⟨[], rest, n - byteLength first, ⟨first, List.append_nil _, ?_, rfl⟩,
      ⟨more, rfl, ?_, ?_⟩, rfl⟩
    · omega
    · rw [byteLength_append]
      omega
    · rw [byteLength_append]
      omega

end Strips

/-! ## A string under a key -/

/-- The text under a key of a map. -/
def textAt (m : RawMap) (key : String) : Text := textOf ((m.get key).bind stringOf)

/-- The entries of a map are those of another one, except under a key. -/
def EntriesExcept (key : String) (m m' : RawMap) : Prop :=
  (∀ other, other ≠ key → m'.get other = m.get other) ∧
    ∀ entry ∈ m'.entries, entry ∈ m.entries ∨ entry.1 = key

theorem EntriesExcept.refl (key : String) (m : RawMap) : EntriesExcept key m m :=
  ⟨fun _ _ => rfl, fun _ hentry => .inl hentry⟩

theorem EntriesExcept.insert (key : String) (value : Json) (m : RawMap) :
    EntriesExcept key m (m.insert key value) := by
  refine ⟨fun other hother => by rw [RawMap.get_insert, if_neg hother], fun entry hentry => ?_⟩
  exact (mem_insertEntry hentry).symm.imp_right fun heq => by rw [heq]

theorem EntriesExcept.exact {key name : String} {m m' : RawMap} (h : EntriesExcept key m m')
    (hexact : Exact name m.entries) (hkey : folds name key = true → key = name) :
    Exact name m'.entries := by
  intro entry hentry hfolds
  rcases h.2 entry hentry with hmem | heq
  · exact hexact entry hmem hfolds
  · rw [heq] at hfolds ⊢
    exact hkey hfolds

/-- The map takes what the field of the key takes. -/
theorem EntriesExcept.accepts {α : Type} {fields : Fields α} {key : String} {m m' : RawMap}
    (h : EntriesExcept key m m') (haccepts : Accepts fields m.entries)
    {decode : Json → α → Option α} (hselect : fields.select key = some decode)
    (hvalue : ∀ value, m'.get key = some value → ∀ a, (decode value a).isSome = true) :
    Accepts fields m'.entries := by
  intro entry hentry decode' hdecode a
  rcases h.2 entry hentry with hmem | heq
  · exact haccepts entry hmem decode' hdecode a
  · obtain ⟨key', value⟩ := entry
    obtain rfl : key' = key := heq
    obtain rfl := Option.some.inj (hselect.symm.trans hdecode)
    exact hvalue value (RawMap.get_of_mem hentry) a

/-- A value that a pointer to a string takes. -/
def IsText (value : Json) : Prop := (stringPointer value).isSome = true

theorem rewriteString_strips {m : RawMap} {key : String} {n n' : Nat} {rest : Text}
    (hvalue : ∀ value, m.get key = some value → IsText value)
    (h : Strips n (textAt m key) rest n') :
    ∃ m', rewriteString m key n = .ok (m', n') ∧ textAt m' key = rest ∧ EntriesExcept key m m' ∧
      ∀ value, m'.get key = some value → IsText value := by
  unfold rewriteString
  unfold textAt at h
  cases hget : m.get key with
  | none =>
    rw [hget] at h
    obtain ⟨rfl, rfl⟩ := h.nil
    exact ⟨m, rfl, by rw [textAt, hget]; rfl, .refl key m, hvalue⟩
  | some value =>
    rw [hget] at h
    cases value with
    | null =>
      obtain ⟨rfl, rfl⟩ := h.nil
      exact ⟨m, rfl, by rw [textAt, hget]; rfl, .refl key m, hvalue⟩
    | str text =>
      have hstrip : stripTextPrefix text.toList n = .ok (rest, n') := stripTextPrefix_of_strips h
      refine ⟨m.insert key (.str (String.ofList rest)), by simp only [hstrip], ?_,
        .insert key _ m, fun value hinserted => ?_⟩
      · simp [textAt, RawMap.get_insert, stringOf, textOf]
      · rw [RawMap.get_insert, if_pos rfl] at hinserted
        rw [← Option.some.inj hinserted]
        rfl
    | _ => exact absurd (hvalue _ hget) (by simp [IsText, stringPointer])

/-! ## The delta of a choice -/

/-- A delta that is accepted, with its name `content` spelled exactly. -/
def PlainDelta (delta : Json) : Prop := AcceptedDelta delta ∧ Exact "content" (membersOf delta)

theorem rewriteDelta_strips {m : RawMap} {n n' : Nat} {rest : Text}
    (hdelta : ∀ delta, m.get "delta" = some delta → PlainDelta delta)
    (h : Strips n (textOf (exactContent (m.get "delta"))) rest n') :
    ∃ m', rewriteDelta m n = .ok (m', n') ∧ textOf (exactContent (m'.get "delta")) = rest ∧
      EntriesExcept "delta" m m' ∧ ∀ delta, m'.get "delta" = some delta → PlainDelta delta := by
  unfold rewriteDelta
  cases hget : m.get "delta" with
  | none =>
    rw [hget] at h
    obtain ⟨rfl, rfl⟩ := h.nil
    exact ⟨m, rfl, by rw [hget]; rfl, .refl _ m, hdelta⟩
  | some delta =>
    rw [hget] at h
    obtain ⟨haccepted, hexact⟩ := hdelta delta hget
    rcases haccepted with rfl | ⟨members, rfl, haccepts⟩
    · obtain ⟨rfl, rfl⟩ := h.nil
      exact ⟨m, rfl, by rw [hget]; rfl, .refl _ m, hdelta⟩
    · have hselect : deltaFields.select "content" =
          some (decodeStringPointer fun s (d : ChatDelta) => { d with content := s }) := rfl
      have hpointer (value : Json) (d : ChatDelta) :
          (decodeStringPointer (fun s (d : ChatDelta) => { d with content := s }) value d).isSome =
            (stringPointer value).isSome := by
        rw [decodeStringPointer_eq, Option.isSome_map]
      have hvalue : ∀ value, (RawMap.ofMembers members).get "content" = some value →
          IsText value := by
        intro value hcontent
        rw [RawMap.get_ofMembers] at hcontent
        have hsome := haccepts _ (member_of_property hcontent) _ hselect .zero
        rwa [hpointer] at hsome
      have hcontent : Strips n (textAt (.ofMembers members) "content") rest n' := by
        rw [textAt, RawMap.get_ofMembers]
        exact h
      obtain ⟨delta, hrewrite, htext, hexcept, hvalue'⟩ := rewriteString_strips hvalue hcontent
      refine ⟨m.insert "delta" (.obj delta.entries), by simp only [hrewrite], ?_, .insert _ _ m,
        fun delta' hdelta' => ?_⟩
      · rw [RawMap.get_insert, if_pos rfl, exactContent, Option.bind_some]
        change textOf ((property "content" delta.entries).bind stringOf) = rest
        rw [← RawMap.get_eq_property]
        exact htext
      · rw [RawMap.get_insert, if_pos rfl] at hdelta'
        obtain rfl := Option.some.inj hdelta'
        refine ⟨.inr ⟨delta.entries, rfl, hexcept.accepts haccepts.ofMembers hselect
          fun value hget a => ?_⟩, hexcept.exact hexact.ofMembers fun _ => rfl⟩
        rw [hpointer]
        exact hvalue' value hget

/-! ## The index of a choice -/

section Index

variable {choice : List (String × Json)}

theorem observedIndex_num {literal : String} {n : Int}
    (hlast : folded "index" choice = some (.num literal)) (hparse : parseInt literal = some n) :
    observedIndex choice = n := by
  obtain ⟨values, hvalues⟩ := List.getLast?_eq_some_iff.mp hlast
  rw [observedIndex, hvalues, List.foldl_concat, decodeInt, hparse]
  rfl

theorem observedIndex_null (h : ∀ value ∈ membersWith (folds "index") choice, value = .null) :
    observedIndex choice = 0 :=
  observedIndex_zero fun value hvalue => .inl (h value hvalue)

/-- A map whose index is zero for the rewriting, or missing, has the index zero. -/
theorem observedIndex_map {m : RawMap} (hexact : Exact "index" m.entries)
    (h : hasIndexZero m = true ∨ m.get "index" = none) : observedIndex m.entries = 0 := by
  have hsole : membersWith (folds "index") m.entries = (m.get "index").toList := by
    rw [RawMap.get_eq_property]
    exact (RawMap.sole hexact).membersWith
  unfold hasIndexZero at h
  cases hget : m.get "index" with
  | none =>
    rw [hget] at hsole
    exact observedIndex_null (by rw [hsole]; exact List.forall_mem_nil _)
  | some value =>
    rw [hget] at hsole h
    cases value with
    | null => exact observedIndex_null (by simp [hsole])
    | num literal =>
      refine observedIndex_num ?_ (show parseInt literal = some 0 by simpa using h)
      rw [folded, hsole]
      rfl
    | _ => simp at h

/-- The index of an accepted choice is an integer or `null`. -/
theorem index_of_accepts (haccepts : Accepts choiceFields choice) {value : Json}
    (h : property "index" choice = some value) :
    value = .null ∨ ∃ literal n, value = .num literal ∧ parseInt literal = some n := by
  have hsome := haccepts _ (member_of_property h) (decodeInt fun n c => { c with index := n })
    rfl .zero
  cases value with
  | null => exact .inl rfl
  | num literal =>
    obtain ⟨n, hparse⟩ := Option.isSome_iff_exists.mp (Option.isSome_map.symm.trans hsome)
    exact .inr ⟨literal, n, rfl, hparse⟩
  | _ => exact absurd hsome (by simp [decodeInt])

/-- Both readers take a given index for zero, and a choice without one has no text. -/
theorem GivenIndex.cases (h : GivenIndex choice) (hexact : Exact "index" choice)
    (haccepts : Accepts choiceFields choice) (hother : ¬ OtherIndex choice) :
    observedIndex choice = 0 ∧ (hasIndexZero (.ofMembers choice) = true ∨
      hasIndexZero (.ofMembers choice) = false ∧ property "index" choice = none ∧
        choiceText choice = []) := by
  unfold GivenIndex at h
  unfold hasIndexZero
  rw [RawMap.get_ofMembers]
  cases hindex : property "index" choice with
  | none =>
    rw [hindex] at h
    have hnone : membersWith (folds "index") choice = [] := by
      rw [hexact.membersWith]
      exact List.getLast?_eq_none_iff.mp hindex
    exact ⟨observedIndex_null (by rw [hnone]; exact List.forall_mem_nil _), .inr ⟨rfl, rfl, h⟩⟩
  | some value =>
    rw [hindex] at h
    rcases index_of_accepts haccepts hindex with rfl | ⟨literal, n, rfl, hparse⟩
    · exact ⟨observedIndex_null h, .inl rfl⟩
    · have hzero : parseInt literal = some 0 := by
        by_contra hne
        exact hother ⟨literal, hindex, hne⟩
      exact ⟨observedIndex_num (hexact.folded.trans hindex) hzero, .inl (by simp [hzero])⟩

end Index

/-! ## Choices -/

/-- The map of a choice whose names are spelled exactly. -/
structure PlainMap (m : RawMap) : Prop where
  accepts : Accepts choiceFields m.entries
  index : Exact "index" m.entries
  text : Exact "text" m.entries
  delta : Exact "delta" m.entries
  plain : ∀ delta, m.get "delta" = some delta → PlainDelta delta

namespace PlainMap

variable {m m' : RawMap}

theorem spelled (h : PlainMap m) : SpelledChoice m.entries :=
  { text := h.text
    delta := h.delta
    content := fun delta hdelta => (h.plain delta ((m.get_eq_property _).trans hdelta)).2 }

/-- What is read in the choice that the map is encoded to. -/
theorem choiceText_eq (h : PlainMap m) :
    choiceText m.entries = textAt m "text" ++ textOf (exactContent (m.get "delta")) := by
  rw [choiceText_spelled h.spelled, ← RawMap.get_eq_property, ← RawMap.get_eq_property]
  rfl

theorem acceptedChoice (h : PlainMap m) : AcceptedChoice (.obj m.entries) :=
  acceptedChoice_iff.mpr ⟨h.accepts, fun _ delta hdelta =>
    (h.plain delta ((m.get_eq_property _).trans (h.delta.folded.symm.trans hdelta))).1⟩

theorem isText (h : PlainMap m) {value : Json} (hvalue : m.get "text" = some value) :
    IsText value := by
  rw [RawMap.get_eq_property] at hvalue
  have hsome := h.accepts _ (member_of_property hvalue)
    (decodeStringPointer fun s c => { c with text := s }) rfl .zero
  cases value <;> exact hsome

theorem rewriteString (h : PlainMap m) (hexcept : EntriesExcept "text" m m')
    (hvalue : ∀ value, m'.get "text" = some value → IsText value) : PlainMap m' :=
  { accepts := by
      refine hexcept.accepts h.accepts
        (show _ = some (decodeStringPointer fun s c => { c with text := s }) from rfl)
        fun value hget a => ?_
      have htext := hvalue value hget
      cases value <;> exact htext
    index := hexcept.exact h.index (by decide)
    text := hexcept.exact h.text (by decide)
    delta := hexcept.exact h.delta (by decide)
    plain := fun delta hdelta => h.plain delta (hexcept.1 "delta" (by decide) ▸ hdelta) }

theorem rewriteDelta (h : PlainMap m) (hexcept : EntriesExcept "delta" m m')
    (hplain : ∀ delta, m'.get "delta" = some delta → PlainDelta delta) : PlainMap m' :=
  { accepts := hexcept.accepts h.accepts
      (show _ = some (decodeRaw fun v c => { c with delta := some v }) from rfl) fun _ _ _ => rfl
    index := hexcept.exact h.index (by decide)
    text := hexcept.exact h.text (by decide)
    delta := hexcept.exact h.delta (by decide)
    plain := hplain }

end PlainMap

/-- The rewriting of an element of the choices. -/
theorem rewriteChoice_strips {element : Json} (hplain : PlainChoice element)
    (haccepted : AcceptedChoice element) {n n' : Nat} {rest : Text}
    (h : Strips n (elementText element) rest n') :
    ∃ raw raw', decodeMap element = some raw ∧ rewriteChoice raw n = .ok (raw', n') ∧
      elementText (encodeMap raw') = rest ∧ AcceptedChoice (encodeMap raw') := by
  cases element with
  | null =>
    obtain ⟨rfl, rfl⟩ := h.nil
    exact ⟨none, none, rfl, rfl, rfl, haccepted⟩
  | obj choice =>
    obtain ⟨hexact, hshape⟩ := hplain
    obtain ⟨haccepts, hdelta⟩ := acceptedChoice_iff.mp haccepted
    refine ⟨some (.ofMembers choice), ?_⟩
    unfold rewriteChoice
    unfold elementText at h
    change Strips n (if observedIndex choice = 0 then choiceText choice else []) rest n' at h
    by_cases hother : OtherIndex choice
    · -- both readers skip the choice
      obtain ⟨literal, hindex, hne⟩ := hother
      obtain hnull | ⟨_, k, hliteral, hparse⟩ := index_of_accepts haccepts hindex
      · cases hnull
      obtain rfl := Json.num.inj hliteral
      have hk : k ≠ 0 := fun hzero => hne (hzero ▸ hparse)
      have hindex' : property "index" (RawMap.ofMembers choice).entries = some (.num literal) := by
        rw [← RawMap.get_eq_property, RawMap.get_ofMembers, hindex]
      have hmap : observedIndex (RawMap.ofMembers choice).entries = k :=
        observedIndex_num (hexact.ofMembers.folded.trans hindex') hparse
      rw [observedIndex_num (hexact.folded.trans hindex) hparse, if_neg hk] at h
      obtain ⟨rfl, rfl⟩ := h.nil
      refine ⟨some (.ofMembers choice), rfl, ?_, ?_, ?_⟩
      · simp [hasIndexZero, RawMap.get_ofMembers, hindex, hne]
      · rw [elementText]
        exact if_neg (by rw [encodeMap, membersOf, hmap]; exact hk)
      · exact acceptedChoice_iff.mpr
          ⟨haccepts.ofMembers, fun hzero => absurd (hmap.symm.trans hzero) hk⟩
    · obtain ⟨hspelled, hgiven⟩ := hshape.resolve_left hother
      obtain ⟨hzero, hcases⟩ := hgiven.cases hexact haccepts hother
      have hmap : PlainMap (.ofMembers choice) :=
        { accepts := haccepts.ofMembers
          index := hexact.ofMembers
          text := hspelled.text.ofMembers
          delta := hspelled.delta.ofMembers
          plain := fun delta hget => by
            rw [RawMap.get_ofMembers] at hget
            exact ⟨hdelta hzero delta (hspelled.delta.folded.trans hget),
              hspelled.content delta hget⟩ }
      have htext : choiceText choice = choiceText (RawMap.ofMembers choice).entries := by
        rw [hmap.choiceText_eq, choiceText_spelled hspelled, textAt, RawMap.get_ofMembers,
          RawMap.get_ofMembers]
      rw [if_pos hzero] at h
      rcases hcases with hindex | ⟨hindex, hnone, hnothing⟩
      · rw [htext, hmap.choiceText_eq] at h
        -- first the text, and then the delta of what has become of the choice
        obtain ⟨left, right, middle, hleft, hright, rfl⟩ := h.append
        obtain ⟨m₁, hrewrite₁, htext₁, hexcept₁, hvalue₁⟩ :=
          rewriteString_strips (fun _ => hmap.isText) hleft
        have hmap₁ := hmap.rewriteString hexcept₁ hvalue₁
        rw [← hexcept₁.1 "delta" (by decide)] at hright
        obtain ⟨m₂, hrewrite₂, htext₂, hexcept₂, hplain₂⟩ := rewriteDelta_strips hmap₁.plain hright
        have hmap₂ := hmap₁.rewriteDelta hexcept₂ hplain₂
        have hindex₂ : hasIndexZero m₂ = true := by
          unfold hasIndexZero at hindex ⊢
          rwa [hexcept₂.1 "index" (by decide), hexcept₁.1 "index" (by decide)]
        refine ⟨some m₂, rfl, by simp only [hindex, if_true, hrewrite₁, hrewrite₂], ?_,
          hmap₂.acceptedChoice⟩
        rw [elementText, encodeMap, membersOf, if_pos (observedIndex_map hmap₂.index (.inl hindex₂)),
          hmap₂.choiceText_eq, htext₂, textAt, hexcept₂.1 "text" (by decide)]
        exact congrArg (· ++ right) htext₁
      · rw [hnothing] at h
        obtain ⟨rfl, rfl⟩ := h.nil
        refine ⟨some (.ofMembers choice), rfl, by simp [hindex], ?_, hmap.acceptedChoice⟩
        rw [elementText, encodeMap, membersOf, if_pos (observedIndex_map hmap.index
          (.inr (by rw [RawMap.get_ofMembers, hnone]))), ← htext, hnothing]
  | _ =>
    obtain ⟨c, hc, _⟩ := haccepted
    exact absurd hc (by simp [decodeStruct])

/-- The rewriting of the choices. -/
theorem rewriteChoices_strips {elements : List Json} (hplain : ∀ e ∈ elements, PlainChoice e)
    (haccepted : ∀ e ∈ elements, AcceptedChoice e) {n n' : Nat} {rest : Text}
    (h : Strips n (elements.flatMap elementText) rest n') :
    ∃ raws raws', elements.mapM decodeMap = some raws ∧ rewriteChoices raws n = .ok (raws', n') ∧
      (raws'.map encodeMap).flatMap elementText = rest ∧
      ∀ e ∈ raws'.map encodeMap, AcceptedChoice e := by
  induction elements generalizing n rest with
  | nil =>
    obtain ⟨rfl, rfl⟩ := h.nil
    exact ⟨[], [], rfl, rfl, rfl, List.forall_mem_nil _⟩
  | cons element elements ih =>
    obtain ⟨hplain, hplains⟩ := List.forall_mem_cons.mp hplain
    obtain ⟨haccepted, haccepteds⟩ := List.forall_mem_cons.mp haccepted
    rw [List.flatMap_cons] at h
    obtain ⟨left, right, middle, hleft, hright, rfl⟩ := h.append
    obtain ⟨raw, raw', hraw, hrewrite, htext, hchoice⟩ := rewriteChoice_strips hplain haccepted hleft
    obtain ⟨raws, raws', hraws, hrewrites, htexts, hchoices⟩ := ih hplains haccepteds hright
    refine ⟨raw :: raws, raw' :: raws', ?_, ?_, ?_, ?_⟩
    · rw [List.mapM_cons, hraw, hraws]
      rfl
    · rw [rewriteChoices, hrewrite]
      dsimp only
      rw [hrewrites]
    · rw [List.map_cons, List.flatMap_cons, htext, htexts]
    · exact List.forall_mem_cons.mpr ⟨hchoice, hchoices⟩

/-! ## Frames -/

/-- A frame whose choices are replaced by accepted ones. -/
theorem replaced_choices {members : List (String × Json)} (hsole : Sole "choices" members)
    (haccepts : Accepts chunkFields members) {value : Json}
    (hvalue : value = .null ∨ ∃ elements, value = .arr elements)
    (helements : ∀ e ∈ elementsOf value, AcceptedChoice e) :
    let data' := Json.obj ((RawMap.ofMembers members).insert "choices" value).entries
    (observeOpenAIChunk data').isSome = true ∧
      frameText data' = (elementsOf value).flatMap elementText := by
  intro data'
  have hexcept := EntriesExcept.insert "choices" value (.ofMembers members)
  have hsole' : Sole "choices" ((RawMap.ofMembers members).insert "choices" value).entries :=
    RawMap.sole (hexcept.exact hsole.1.ofMembers fun _ => rfl)
  have hchoices : choiceElements ((RawMap.ofMembers members).insert "choices" value).entries =
      elementsOf value := by
    rw [choiceElements, ← RawMap.get_eq_property, RawMap.get_insert, if_pos rfl]
    rfl
  have haccepts' : Accepts chunkFields
      ((RawMap.ofMembers members).insert "choices" value).entries := by
    refine hexcept.accepts haccepts.ofMembers
      (show _ = some (decodeSlice choiceFields .zero (·.choices) fun s c => { c with choices := s })
        from rfl) fun inserted hget a => ?_
    rw [RawMap.get_insert, if_pos rfl] at hget
    obtain rfl := Option.some.inj hget
    rcases hvalue with rfl | ⟨elements, rfl⟩
    · rfl
    · cases elements with
      | nil => rfl
      | cons element elements =>
        rw [decodeSlice, Option.isSome_map, decodeElements_isSome_iff choiceFields_stable]
        intro e he
        obtain ⟨c, hc, _⟩ := helements e he
        rw [hc]
        rfl
  have hsome : (observeOpenAIChunk data').isSome = true :=
    (observe_isSome_iff hsole').mpr ⟨haccepts', by rw [hchoices]; exact helements⟩
  refine ⟨hsome, ?_⟩
  obtain ⟨observation, hobserve⟩ := Option.isSome_iff_exists.mp hsome
  rw [frameText, hobserve]
  exact (observe_text hsole' hobserve).trans (by rw [hchoices])

/-- The rewriting of a plain frame removes from the front of what is observed. -/
theorem PlainFrame.rewrite {data : Json} (hplain : PlainFrame data)
    (haccepted : (observeOpenAIChunk data).isSome = true) {n n' : Nat} {rest : Text}
    (h : Strips n (frameText data) rest n') :
    ∃ data', rewriteLeadingAssistantText data n = .ok (data', n') ∧
      (observeOpenAIChunk data').isSome = true ∧ frameText data' = rest := by
  cases data with
  | obj members =>
    obtain ⟨hsole, helements⟩ := hplain
    obtain ⟨haccepts, hchoices⟩ := (observe_isSome_iff hsole).mp haccepted
    obtain ⟨observation, hobserve⟩ := Option.isSome_iff_exists.mp haccepted
    rw [frameText, hobserve] at h
    dsimp only at h
    rw [observe_text hsole hobserve] at h
    have hget := RawMap.get_ofMembers members "choices"
    unfold choiceElements at h helements hchoices
    -- without choices there is no text, and `null` is written
    have hnone (hempty : elementsOf ((property "choices" members).getD .null) = [])
        (hraw : rawChoices (some (.ofMembers members)) = .ok none) :
        ∃ data', rewriteLeadingAssistantText (.obj members) n = .ok (data', n') ∧
          (observeOpenAIChunk data').isSome = true ∧ frameText data' = rest := by
      rw [hempty] at h
      obtain ⟨rfl, rfl⟩ := h.nil
      obtain ⟨hsome, htext⟩ := @replaced_choices _ hsole haccepts .null (.inl rfl)
        (List.forall_mem_nil _)
      refine ⟨_, ?_, hsome, htext⟩
      simp [rewriteLeadingAssistantText, decodeMap, hraw, rewriteChoices, encodeMaps]
    cases hproperty : property "choices" members with
    | none => exact hnone (by rw [hproperty]; rfl) (by simp [rawChoices, hget, hproperty])
    | some value =>
      cases value with
      | null =>
        exact hnone (by rw [hproperty]; rfl) (by simp [rawChoices, hget, hproperty, decodeMaps])
      | arr elements =>
        rw [hproperty] at h helements hchoices
        obtain ⟨raws, raws', hraws, hrewrite, htext, haccepted'⟩ :=
          rewriteChoices_strips helements hchoices h
        obtain ⟨hsome, htext'⟩ := @replaced_choices _ hsole haccepts
          (.arr (raws'.map encodeMap)) (.inr ⟨_, rfl⟩) haccepted'
        refine ⟨_, ?_, hsome, htext'.trans htext⟩
        have hraw : rawChoices (some (.ofMembers members)) = .ok (some raws) := by
          simp only [rawChoices, Option.bind_some, hget, hproperty, decodeMaps]
          rw [show elements.mapM decodeMap = some raws from hraws]
          rfl
        simp only [rewriteLeadingAssistantText, decodeMap, hraw, Option.getD_some, hrewrite,
          Option.map_some, encodeMaps]
      | _ =>
        exact absurd (haccepts _ (member_of_property hproperty) (decodeSlice choiceFields .zero
          (·.choices) fun s c => { c with choices := s }) rfl .zero) (by simp [decodeSlice])
  | _ => exact absurd hplain id

/-! ## Lists of frames -/

/-- The frames that an overlap reaches, those before which there is less text than it has, are
plain. -/
def ReachedPlain (overlap : Nat) (frames : List Json) : Prop :=
  ∀ before data after, frames = before ++ data :: after →
    byteLength (framesText before) < overlap → PlainFrame data

theorem reachedPlain_of_forall {frames : List Json} (h : ∀ data ∈ frames, PlainFrame data)
    (overlap : Nat) : ReachedPlain overlap frames := by
  rintro before data after rfl _
  exact h data (List.mem_append_right _ List.mem_cons_self)

/-- The loop of `flushSeam` removes from the front of the text of the frames. -/
theorem flushFrames_strips {frames : List Json} {n : Nat} {rest : Text}
    (haccepted : ∀ data ∈ frames, (observeOpenAIChunk data).isSome = true)
    (hplain : ReachedPlain n frames) (h : Strips n (framesText frames) rest 0) :
    ∃ chunks, flushFrames frames n = (chunks, .returned) ∧ framesText chunks = rest := by
  induction frames generalizing n rest with
  | nil =>
    obtain ⟨rfl, rfl⟩ := h.nil
    exact ⟨[], rfl, rfl⟩
  | cons data frames ih =>
    by_cases hn : n = 0
    · obtain ⟨removed, happend, hlength, _⟩ := h
      rw [hn, Nat.min_zero, byteLength_eq_zero_iff] at hlength
      subst hn hlength
      exact ⟨data :: frames, flushFrames_zero haccepted, happend.symm⟩
    obtain ⟨hdata, hframes⟩ := List.forall_mem_cons.mp haccepted
    rw [framesText, List.flatMap_cons] at h
    obtain ⟨left, right, middle, hleft, hright, rfl⟩ := h.append
    have hmiddle : middle = n - byteLength (frameText data) := by
      obtain ⟨removed, _, hlength, rfl⟩ := hleft
      omega
    obtain ⟨data', hrewrite, hsome, rfl⟩ :=
      (hplain [] data frames rfl (Nat.pos_of_ne_zero hn)).rewrite hdata hleft
    have hframe : flushFrame data n = .ok (data', middle) := by
      rw [flushFrame, if_neg hn, hrewrite]
      simp [Option.isSome_iff_ne_none.mp hsome]
    have hplains : ReachedPlain middle frames := by
      intro before next after hsplit hless
      refine hplain (data :: before) next after (by rw [hsplit]; rfl) ?_
      rw [framesText, List.flatMap_cons, byteLength_append]
      change _ + byteLength (framesText before) < n
      omega
    obtain ⟨chunks, hflush, rfl⟩ := ih hframes hplains hright
    refine ⟨data' :: chunks, ?_, rfl⟩
    rw [flushFrames, hframe]
    dsimp only
    rw [hflush]

/-- `flushSeam` removes exactly the overlap from frames that `observeOpenAIChunk` accepts, when
those that the overlap reaches are plain. -/
theorem flushSeam_removes_overlap (isUpper : Char → Bool) (window : Int) (hwindow : 0 < window)
    (accumulated : Text) (frames : List Json)
    (haccepted : ∀ data ∈ frames, (observeOpenAIChunk data).isSome = true) (overlap : Text)
    (hoverlap : LongestOverlap accumulated (framesText frames) window.toNat overlap)
    (hplain : ReachedPlain (byteLength overlap) frames) :
    let flush := flushSeam isUpper window accumulated frames (framesText frames)
    flush.ending = .returned ∧ overlap ++ framesText flush.chunks = framesText frames := by
  intro flush
  obtain ⟨hchunks, hending⟩ := flushSeam_eq isUpper hwindow frames hoverlap
  obtain ⟨rest, hrest⟩ := hoverlap.overlap.starts
  have hlength := congrArg byteLength hrest
  rw [byteLength_append] at hlength
  obtain ⟨chunks, hflush, rfl⟩ := flushFrames_strips haccepted hplain
    ⟨overlap, hrest, by omega, by omega⟩
  rw [hflush] at hchunks hending
  exact ⟨hending, by rw [hchunks]; exact hrest⟩

/-- A frame of a text completion. -/
def indexedFrame (text : String) : Json :=
  .obj [("choices", .arr [.obj [("index", .num "0"), ("text", .str text)]])]

/-- The same without an index. -/
def unindexedFrame (text : String) : Json :=
  .obj [("choices", .arr [.obj [("text", .str text)]])]

theorem indexedFrame_plain (text : String) : PlainFrame (indexedFrame text) := by
  refine ⟨⟨?_, ?_⟩, List.forall_mem_singleton.mpr ⟨?_, .inr ⟨⟨?_, ?_, ?_⟩, trivial⟩⟩⟩
  · simp [Exact]
  · simp [membersWith, folds]
  · simp +decide [Exact]
  · simp +decide [Exact]
  · simp +decide [Exact]
  · exact fun delta hdelta => absurd hdelta (by simp +decide [property, membersWith])

theorem flushSeam_removes_overlap_of_indexed :
    let frames := [indexedFrame "a", indexedFrame "bc"]
    let flush := flushSeam Char.isUpper 16 "xab".toList frames (framesText frames)
    flush.ending = .returned ∧ "ab".toList ++ framesText flush.chunks = framesText frames := by
  intro frames flush
  have hoverlap : LongestOverlap "xab".toList ("ab".toList ++ "c".toList) 16 "ab".toList :=
    .of_reconcileSeam Char.isUpper "xab".toList "ab".toList "c".toList 16 (by decide)
      (by decide +kernel)
  have hplain : ∀ data ∈ frames, PlainFrame data :=
    List.forall_mem_cons.mpr ⟨indexedFrame_plain "a",
      List.forall_mem_singleton.mpr (indexedFrame_plain "bc")⟩
  exact flushSeam_removes_overlap Char.isUpper 16 (by decide) "xab".toList frames
    (by decide +kernel) "ab".toList hoverlap (reachedPlain_of_forall hplain _)

/-- The second frame has no index, so its text is not rewritten: `flushSeam` fails after it
has appended both frames, and the "b" of the accumulated text is in the stream again.  A
frame that is `null` makes it panic. -/
theorem overlap_left_in_frame :
    framesText [indexedFrame "a", unindexedFrame "bc"] = "abc".toList ∧
      flushSeam Char.isUpper 16 "xab".toList [indexedFrame "a", unindexedFrame "bc"]
          "abc".toList =
        { warning := false
          chunks := [indexedFrame "", unindexedFrame "bc"]
          ending := .failed } ∧
      framesText [indexedFrame "", unindexedFrame "bc"] = "bc".toList ∧
      framesText [.null, indexedFrame "abc"] = "abc".toList ∧
      flushSeam Char.isUpper 16 "xab".toList [.null, indexedFrame "abc"] "abc".toList =
        { warning := false, chunks := [], ending := .panicked } := by
  decide +kernel

end Streamweld.Proxy
