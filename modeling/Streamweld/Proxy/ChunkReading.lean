import Streamweld.Proxy.Chunk
import Streamweld.Lib.JsonFields

/-!
# What the proxy reads in a chunk

`observeOpenAIChunk` in terms of the members of the payload.  A field takes the last member
whose name folds to its own.  A second array of choices would be decoded into the choices that
the first one left, so the payloads here have one member `choices` at most (`Sole`).

* `observe_text`: the text that the proxy takes from such a payload;
* `observe_isSome_iff`: the payloads that it accepts.
-/

namespace Streamweld.Proxy

open Streamweld.Lib Streamweld.Lib.Json Streamweld.Migrate

variable {value : Json} {members : List (String × Json)}

/-! ## Choices -/

theorem choiceFields_text :
    Through choiceFields (·.text) "text" fun _ value => stringPointer value := by
  simp +decide [Through, choiceFields]

theorem choiceFields_delta :
    Through choiceFields (·.delta) "delta" fun _ value => some (some value) := by
  simp +decide [Through, choiceFields]

theorem choiceFields_index :
    Through choiceFields (·.index) "index" fun index value =>
      decodeInt (fun n _ => n) value index := by
  simp +decide [Through, choiceFields]

/-- The number zero, as the proxy reads an index. -/
def IndexZero (value : Json) : Prop := ∃ literal, value = .num literal ∧ parseInt literal = some 0

/-! ## Deltas -/

theorem deltaFields_content :
    Through deltaFields (·.content) "content" fun _ value => stringPointer value := by
  simp +decide [Through, deltaFields]

/-! ## Payloads -/

theorem chunkFields_choices :
    Through chunkFields (·.choices) "choices" fun slice value =>
      decodeSlice choiceFields .zero id (fun s _ => s) value slice := by
  simp +decide [Through, chunkFields]

/-- The elements of an array. -/
def elementsOf : Json → List Json
  | .arr elements => elements
  | _ => []

/-- The members of an object. -/
def membersOf : Json → List (String × Json)
  | .obj members => members
  | _ => []

/-- No array of choices has a second element, and the indices that its choice carries are
zero. -/
structure SingleChoice (members : List (String × Json)) : Prop where
  single : ∀ choices ∈ membersWith (folds "choices") members, (elementsOf choices).length ≤ 1
  index : ∀ choices ∈ membersWith (folds "choices") members, ∀ choice ∈ elementsOf choices,
    ∀ value ∈ membersWith (folds "index") (membersOf choice), IndexZero value

/-- The elements of the array of choices. -/
def choiceElements (members : List (String × Json)) : List Json :=
  elementsOf ((property "choices" members).getD .null)

/-- The choices of a payload are those of its only array. -/
theorem choices_of_decode {chunk : OpenAIChunk} (hsole : Sole "choices" members)
    (h : decodeStruct chunkFields (.obj members) .zero = some chunk) :
    decodeElements choiceFields .zero (choiceElements members) [] = some chunk.choices.elements := by
  have hfold := decodeStruct_project chunkFields_choices h
  rw [hsole.membersWith] at hfold
  unfold choiceElements
  cases hchoices : property "choices" members with
  | none =>
    rw [hchoices] at hfold
    rw [← Option.some.inj hfold]
    rfl
  | some value =>
    rw [hchoices, Option.toList_some, List.foldlM_cons] at hfold
    obtain ⟨slice, hslice, hnil⟩ := Option.bind_eq_some_iff.mp hfold
    obtain rfl := Option.some.inj hnil
    cases value with
    | null =>
      rw [← Option.some.inj hslice]
      rfl
    | arr elements =>
      cases elements with
      | nil =>
        rw [← Option.some.inj hslice]
        rfl
      | cons element elements =>
        obtain ⟨cells, hcells, hslice⟩ := Option.map_eq_some_iff.mp hslice
        rw [← hslice, Slice.elements,
          List.take_of_length_le (by rw [decodeElements_length hcells, List.length_cons])]
        exact hcells
    | _ => exact absurd hslice (by simp [decodeSlice])

/-! ## The text of a payload -/

/-- The content that the proxy reads in a delta. -/
def contentOf (delta : Option Json) : Option String :=
  delta.bind fun value => (folded "content" (membersOf value)).bind stringOf

/-- The text that the proxy reads in a choice: its `text`, then the content of its delta. -/
def choiceText (choice : List (String × Json)) : Text :=
  textOf ((folded "text" choice).bind stringOf) ++ textOf (contentOf (folded "delta" choice))

/-- The names `text` and `delta` of a choice and `content` of its delta are spelled exactly. -/
structure SpelledChoice (choice : List (String × Json)) : Prop where
  text : Exact "text" choice
  delta : Exact "delta" choice
  content : ∀ delta, property "delta" choice = some delta → Exact "content" (membersOf delta)

/-- The content under the exact name. -/
def exactContent (delta : Option Json) : Option String :=
  delta.bind fun value => (property "content" (membersOf value)).bind stringOf

theorem choiceText_spelled {choice : List (String × Json)} (h : SpelledChoice choice) :
    choiceText choice = textOf ((property "text" choice).bind stringOf) ++
      textOf (exactContent (property "delta" choice)) := by
  have hcontent : contentOf (property "delta" choice) = exactContent (property "delta" choice) := by
    cases hdelta : property "delta" choice with
    | none => rfl
    | some delta =>
      rw [contentOf, Option.bind_some, (h.content delta hdelta).folded]
      rfl
  rw [choiceText, h.text.folded, h.delta.folded, hcontent]

/-- The index that the proxy reads in a choice. -/
def observedIndex (choice : List (String × Json)) : Int :=
  (membersWith (folds "index") choice).foldl
    (fun index value => (decodeInt (fun n _ => n) value index).getD index) 0

/-- The text that the proxy reads in an element of the choices. -/
def elementText (element : Json) : Text :=
  if observedIndex (membersOf element) = 0 then choiceText (membersOf element) else []

theorem choice_index {c : OpenAIChoice} {choice : List (String × Json)}
    (h : decodeStruct choiceFields (.obj choice) .zero = some c) :
    c.index = observedIndex choice := by
  have hfold := decodeStruct_project choiceFields_index h
  unfold observedIndex
  generalize membersWith (folds "index") choice = values at hfold
  change values.foldlM _ (0 : Int) = _ at hfold
  generalize (0 : Int) = start at hfold ⊢
  induction values generalizing start with
  | nil => exact (Option.some.inj hfold).symm
  | cons value values ih =>
    rw [List.foldlM_cons] at hfold
    obtain ⟨mid, hmid, hrest⟩ := Option.bind_eq_some_iff.mp hfold
    rw [List.foldl_cons, hmid]
    exact ih _ hrest

/-- A choice whose indices are zero or `null` has the index zero, also when it has none. -/
theorem observedIndex_zero {choice : List (String × Json)}
    (h : ∀ value ∈ membersWith (folds "index") choice, value = .null ∨ IndexZero value) :
    observedIndex choice = 0 := by
  unfold observedIndex
  generalize membersWith (folds "index") choice = values at h
  induction values with
  | nil => rfl
  | cons value values ih =>
    obtain ⟨rfl | ⟨literal, rfl, hparse⟩, hrest⟩ := List.forall_mem_cons.mp h
    · exact ih hrest
    · rw [List.foldl_cons, decodeInt, hparse]
      exact ih hrest

theorem observeDelta_text {blank : Bool} {observation observation' : ChunkObservation}
    {delta : Option Json} (h : observeDelta blank observation delta = some observation') :
    observation'.textDelta = observation.textDelta ++ textOf (contentOf delta) := by
  cases delta with
  | none =>
    obtain rfl := Option.some.inj h
    exact (List.append_nil _).symm
  | some value =>
    cases value with
    | null =>
      obtain rfl := Option.some.inj h
      exact (List.append_nil _).symm
    | obj members =>
      obtain ⟨d, hd, rfl⟩ := Option.map_eq_some_iff.mp h
      show _ ++ textOf d.content = _
      rw [decodeStruct_string deltaFields_content rfl hd]
      rfl
    | _ => exact absurd h (by simp [observeDelta, decodeStruct])

theorem observeChoice_text {blank : Bool} {element : Json} {c : OpenAIChoice}
    {observation observation' : ChunkObservation}
    (hdecode : decodeStruct choiceFields element .zero = some c)
    (h : observeChoice blank observation c = some observation') :
    observation'.textDelta = observation.textDelta ++ elementText element := by
  have hmembers : decodeStruct choiceFields (.obj (membersOf element)) .zero = some c := by
    cases element with
    | obj | null => exact hdecode
    | _ => exact absurd hdecode (by simp [decodeStruct])
  unfold elementText
  rw [← choice_index hmembers]
  unfold observeChoice at h
  split at h
  · rename_i hindex
    rw [if_neg hindex, ← Option.some.inj h, List.append_nil]
  · rename_i hindex
    rw [if_pos (not_not.mp hindex), observeDelta_text h,
      decodeStruct_string choiceFields_text rfl hmembers,
      decodeStruct_raw choiceFields_delta rfl hmembers, List.append_assoc]
    rfl

theorem observeChoices_text {blank : Bool} {elements : List Json} {cells : List OpenAIChoice}
    {observation observation' : ChunkObservation}
    (hdecode : decodeElements choiceFields .zero elements [] = some cells)
    (h : cells.foldlM (observeChoice blank) observation = some observation') :
    observation'.textDelta = observation.textDelta ++ elements.flatMap elementText := by
  induction elements generalizing cells observation with
  | nil =>
    obtain rfl := Option.some.inj hdecode
    obtain rfl := Option.some.inj h
    exact (List.append_nil _).symm
  | cons element elements ih =>
    obtain ⟨cell, hcell, hdecode⟩ := Option.bind_eq_some_iff.mp hdecode
    obtain ⟨cells, hcells, rfl⟩ := Option.map_eq_some_iff.mp hdecode
    rw [List.foldlM_cons] at h
    obtain ⟨mid, hmid, h⟩ := Option.bind_eq_some_iff.mp h
    rw [ih hcells h, observeChoice_text hcell hmid, List.append_assoc, List.flatMap_cons]

/-- The text that the proxy takes from a payload. -/
theorem observe_text {blank : Bool} {observation : ChunkObservation}
    (hsole : Sole "choices" members)
    (h : observeOpenAIChunk (.obj members) blank = some observation) :
    observation.textDelta = (choiceElements members).flatMap elementText := by
  obtain ⟨chunk, hchunk, hloop⟩ := Option.bind_eq_some_iff.mp h
  exact observeChoices_text (choices_of_decode hsole hchunk) hloop

/-! ## Accepted payloads -/

/-- An element of the choices that `observeOpenAIChunk` accepts. -/
def AcceptedChoice (element : Json) : Prop :=
  ∃ c, decodeStruct choiceFields element .zero = some c ∧
    ∀ blank observation, (observeChoice blank observation c).isSome = true

theorem choiceFields_stable : ∀ field ∈ choiceFields, Stable field.2 := by
  simp [choiceFields]

theorem deltaFields_stable : ∀ field ∈ deltaFields, Stable field.2 := by
  simp [deltaFields]

theorem chunkFields_stable : ∀ field ∈ chunkFields, Stable field.2 := by
  have husage : ∀ field ∈ Journal.usageFields, Stable field.2 := by
    simp [Journal.usageFields]
  simp [chunkFields, stable_decodeSlice choiceFields_stable, stable_decodePointer husage]

/-- A delta that `observeOpenAIChunk` accepts. -/
def AcceptedDelta (delta : Json) : Prop :=
  delta = .null ∨ ∃ members, delta = .obj members ∧ Accepts deltaFields members

/-- Whether a choice is accepted does not depend on the observation before it. -/
theorem observeChoice_isSome {blank blank' : Bool} {observation : ChunkObservation}
    {c : OpenAIChoice} (h : (observeChoice blank observation c).isSome = true)
    (observation' : ChunkObservation) : (observeChoice blank' observation' c).isSome = true := by
  unfold observeChoice at h ⊢
  split at h
  · rename_i hindex
    rw [if_pos hindex]
    rfl
  · rename_i hindex
    rw [if_neg hindex]
    unfold observeDelta at h ⊢
    split at h
    · rfl
    · rfl
    · simpa using h

theorem observeDelta_isSome_iff {blank : Bool} {observation : ChunkObservation}
    {delta : Option Json} :
    (observeDelta blank observation delta).isSome = true ↔
      ∀ value, delta = some value → AcceptedDelta value := by
  cases delta with
  | none => simp [observeDelta]
  | some value =>
    cases value with
    | null => simp [observeDelta, AcceptedDelta]
    | obj members =>
      rw [observeDelta, Option.isSome_map]
      · simp only [Option.some.injEq, forall_eq', AcceptedDelta, reduceCtorEq, false_or,
          Json.obj.injEq, exists_eq_left']
        exact ⟨accepts_of_isSome deltaFields_stable, fun h => decodeStruct_isSome h _⟩
      · exact fun h => Json.noConfusion h
    | _ => simp [observeDelta, decodeStruct, AcceptedDelta]

theorem acceptedChoice_iff {choice : List (String × Json)} :
    AcceptedChoice (.obj choice) ↔ Accepts choiceFields choice ∧
      (observedIndex choice = 0 → ∀ delta, folded "delta" choice = some delta →
        AcceptedDelta delta) := by
  have hobserve {c : OpenAIChoice} (hc : decodeStruct choiceFields (.obj choice) .zero = some c)
      (blank : Bool) (observation : ChunkObservation) :
      (observeChoice blank observation c).isSome = true ↔
        (observedIndex choice = 0 → ∀ delta, folded "delta" choice = some delta →
          AcceptedDelta delta) := by
    rw [observeChoice, choice_index hc]
    split
    · rename_i hindex
      exact iff_of_true rfl fun hzero => absurd hzero hindex
    · rename_i hindex
      rw [observeDelta_isSome_iff, decodeStruct_raw choiceFields_delta rfl hc,
        imp_iff_right (not_not.mp hindex)]
  constructor
  · rintro ⟨c, hc, h⟩
    exact ⟨accepts_of_isSome choiceFields_stable (Option.isSome_iff_exists.mpr ⟨c, hc⟩),
      (hobserve hc false ⟨[], none, "", none, false⟩).mp (h _ _)⟩
  · rintro ⟨haccepts, hdelta⟩
    obtain ⟨c, hc⟩ := Option.isSome_iff_exists.mp (decodeStruct_isSome haccepts .zero)
    exact ⟨c, hc, fun blank observation => (hobserve hc blank observation).mpr hdelta⟩

/-- A payload is accepted when its members and its choices are. -/
theorem observe_isSome_iff {blank : Bool} (hsole : Sole "choices" members) :
    (observeOpenAIChunk (.obj members) blank).isSome = true ↔
      Accepts chunkFields members ∧ ∀ element ∈ choiceElements members, AcceptedChoice element := by
  have hloop : ∀ {elements : List Json} {cells : List OpenAIChoice} (o : ChunkObservation),
      decodeElements choiceFields .zero elements [] = some cells →
      ((cells.foldlM (observeChoice blank) o).isSome = true ↔
        ∀ element ∈ elements, AcceptedChoice element) := by
    intro elements
    induction elements with
    | nil =>
      intro cells o hdecode
      obtain rfl := Option.some.inj hdecode
      exact iff_of_true rfl (List.forall_mem_nil _)
    | cons element elements ih =>
      intro cells o hdecode
      obtain ⟨cell, hcell, hdecode⟩ := Option.bind_eq_some_iff.mp hdecode
      obtain ⟨cells, hcells, rfl⟩ := Option.map_eq_some_iff.mp hdecode
      rw [List.forall_mem_cons, List.foldlM_cons]
      cases hobserve : observeChoice blank o cell with
      | none =>
        refine iff_of_false (by simp) ?_
        rintro ⟨⟨c, hc, haccepted⟩, _⟩
        obtain rfl := Option.some.inj (hcell.symm.trans hc)
        simpa [hobserve] using haccepted blank o
      | some mid =>
        have hfirst : AcceptedChoice element :=
          ⟨cell, hcell, fun _ => observeChoice_isSome (by rw [hobserve]; rfl)⟩
        rw [and_iff_right hfirst]
        exact ih mid hcells
  constructor
  · intro h
    obtain ⟨observation, hobserve⟩ := Option.isSome_iff_exists.mp h
    obtain ⟨chunk, hchunk, hfold⟩ := Option.bind_eq_some_iff.mp hobserve
    exact ⟨accepts_of_isSome chunkFields_stable (Option.isSome_iff_exists.mpr ⟨chunk, hchunk⟩),
      (hloop _ (choices_of_decode hsole hchunk)).mp (Option.isSome_iff_exists.mpr ⟨_, hfold⟩)⟩
  · rintro ⟨hmembers, helements⟩
    obtain ⟨chunk, hchunk⟩ := Option.isSome_iff_exists.mp (decodeStruct_isSome hmembers .zero)
    rw [observeOpenAIChunk, hchunk]
    exact (hloop _ (choices_of_decode hsole hchunk)).mpr helements

end Streamweld.Proxy
