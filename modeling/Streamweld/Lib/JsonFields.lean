import Streamweld.Lib.JsonMap
import Streamweld.Lib.Lists

/-!
# What a decoded struct takes from the members of an object

`decodeStruct` runs through the members and changes one field at a time.  Seen through one
field, it is a loop over the members whose name folds to the name of that field
(`decodeStruct_project`), and a field that is overwritten keeps the last of them
(`foldlM_overwrite`).  `folded` is that last member.  A reader that compares names exactly, as
`JSON.parse` does, keeps the last member of the exact name, `property`.

Two structs that are decoded from the same value keep a relation between their fields
(`foldlM_related`, `decodeSlice_related`).
-/

namespace Streamweld.Lib.Json

variable {name key : String} {members : List (String × Json)} {value : Json}

/-! ## Members by name -/

/-- The members whose name passes a test. -/
def membersWith (test : String → Bool) (members : List (String × Json)) : List Json :=
  (members.filter fun member => test member.1).map Prod.snd

/-- The names that select the same field. -/
def folds (name key : String) : Bool := foldName key == foldName name

/-- The last member whose name folds to a name. -/
def folded (name : String) (members : List (String × Json)) : Option Json :=
  (membersWith (folds name) members).getLast?

/-- The last member with exactly that name. -/
def property (name : String) (members : List (String × Json)) : Option Json :=
  (membersWith (· == name) members).getLast?

/-- A member with a name is one whose name folds to it. -/
theorem folds_of_eq (h : (key == name) = true) : folds name key = true := by
  rw [eq_of_beq h]
  exact beq_self_eq_true _

theorem mem_membersWith {test : String → Bool} :
    value ∈ membersWith test members ↔ ∃ key, (key, value) ∈ members ∧ test key = true := by
  simp [membersWith]

theorem membersWith_cons (test : String → Bool) (member : String × Json)
    (members : List (String × Json)) :
    membersWith test (member :: members) =
      if test member.1 then member.2 :: membersWith test members
      else membersWith test members := by
  unfold membersWith
  rw [List.filter_cons]
  split <;> rfl

theorem membersWith_append (test : String → Bool) (members more : List (String × Json)) :
    membersWith test (members ++ more) = membersWith test members ++ membersWith test more := by
  simp [membersWith]

/-- What is a property is a member of its name. -/
theorem member_of_property (h : property name members = some value) : (name, value) ∈ members := by
  obtain ⟨key, hmem, hkey⟩ := mem_membersWith.mp (List.mem_of_getLast? h)
  obtain rfl := eq_of_beq hkey
  exact hmem

/-- What is a property is among the members whose names fold to its name. -/
theorem property_mem (h : property name members = some value) :
    value ∈ membersWith (folds name) members :=
  mem_membersWith.mpr ⟨name, member_of_property h, folds_of_eq (beq_self_eq_true name)⟩

/-- Every member whose name folds to a name has exactly that name. -/
def Exact (name : String) (members : List (String × Json)) : Prop :=
  ∀ member ∈ members, folds name member.1 = true → member.1 = name

/-- At most one member has a name that folds to a name, and it has exactly that name. -/
def Sole (name : String) (members : List (String × Json)) : Prop :=
  Exact name members ∧ (membersWith (folds name) members).length ≤ 1

instance : Decidable (Exact name members) :=
  inferInstanceAs (Decidable (∀ member ∈ members, folds name member.1 = true → member.1 = name))

instance : Decidable (Sole name members) :=
  inferInstanceAs (Decidable (_ ∧ (membersWith (folds name) members).length ≤ 1))

theorem Exact.membersWith (h : Exact name members) :
    membersWith (folds name) members = Json.membersWith (· == name) members := by
  have hfilter : (members.filter fun member => folds name member.1) =
      members.filter fun member => member.1 == name :=
    List.filter_congr fun member hmember => by
      by_cases hname : member.1 = name
      · simp [hname, folds]
      · rw [beq_eq_false_iff_ne.mpr hname]
        exact Bool.eq_false_iff.mpr fun hfolds => hname (h member hmember hfolds)
  rw [Json.membersWith, hfilter]
  rfl

/-- Where names are exact, both readers take the same member. -/
theorem Exact.folded (h : Exact name members) : folded name members = property name members := by
  rw [Json.folded, h.membersWith]
  rfl

theorem Sole.membersWith (h : Sole name members) :
    membersWith (folds name) members = (property name members).toList := by
  obtain ⟨hexact, hlength⟩ := h
  rw [hexact.membersWith] at hlength ⊢
  unfold property
  generalize Json.membersWith (· == name) members = values at hlength
  cases values with
  | nil => rfl
  | cons value rest =>
    obtain rfl : rest = [] := List.eq_nil_of_length_eq_zero (by simpa using hlength)
    rfl

/-- The string in a value. -/
def stringOf : Json → Option String
  | .str s => some s
  | _ => none

/-! ## Decoding seen through one field -/

section Project

variable {α β : Type} {fields : Fields α}

/-- A selected field has a name that folds to the key. -/
theorem select_folds {decode : Json → α → Option α} (h : fields.select key = some decode) :
    ∃ field ∈ fields, field.2 = decode ∧ foldName field.1 = foldName key := by
  unfold Fields.select at h
  split at h
  · rename_i field hfind
    have hname : (field.1 == key) = true :=
      List.find?_some (p := fun field : String × (Json → α → Option α) => field.1 == key) hfind
    exact ⟨field, List.mem_of_find?_eq_some hfind, Option.some.inj h,
      by rw [eq_of_beq hname]⟩
  · obtain ⟨field, hfind, rfl⟩ := Option.map_eq_some_iff.mp h
    have hname : (foldName field.1 == foldName key) = true :=
      List.find?_some
        (p := fun field : String × (Json → α → Option α) => foldName field.1 == foldName key) hfind
    exact ⟨field, List.mem_of_find?_eq_some hfind, rfl, eq_of_beq hname⟩

/-- A key that folds to the name of a field selects one. -/
theorem select_eq_none (h : fields.select key = none) :
    ∀ field ∈ fields, foldName field.1 ≠ foldName key := by
  intro field hfield hname
  unfold Fields.select at h
  split at h
  · exact absurd h (by simp)
  · have hnone := List.find?_eq_none.mp (Option.map_eq_none_iff.mp h) field hfield
    exact hnone (beq_iff_eq.mpr hname)

/-- A decoder makes an update of a field. -/
def Updates (decode : Json → α → Option α) (view : α → β) (update : β → Json → Option β) :
    Prop :=
  ∀ value a a', decode value a = some a' → update (view a) value = some (view a')

/-- A decoder leaves a field alone. -/
def Leaves (decode : Json → α → Option α) (view : α → β) : Prop :=
  ∀ value a a', decode value a = some a' → view a' = view a

/-- A table of fields seen through one of them: the fields of that name make an update, and
the others leave it alone. -/
def Through (fields : Fields α) (view : α → β) (name : String) (update : β → Json → Option β) :
    Prop :=
  (∃ field ∈ fields, foldName field.1 = foldName name) ∧
    ∀ field ∈ fields, if foldName field.1 = foldName name then Updates field.2 view update
      else Leaves field.2 view

/-- One field of a decoded struct: the members whose name folds to its name update it, and
the others leave it alone. -/
theorem decodeStruct_project {view : α → β} {update : β → Json → Option β}
    (hthrough : Through fields view name update) {a a' : α}
    (h : decodeStruct fields (.obj members) a = some a') :
    (membersWith (folds name) members).foldlM update (view a) = some (view a') := by
  rw [decodeStruct] at h
  induction members generalizing a with
  | nil =>
    obtain rfl := Option.some.inj h
    rfl
  | cons member members ih =>
    rw [List.foldlM_cons] at h
    obtain ⟨mid, hmid, hrest⟩ := Option.bind_eq_some_iff.mp h
    rw [membersWith_cons]
    cases hselect : fields.select member.1 with
    | none =>
      -- no field has that name, so the member is not one of those of `name`
      rw [hselect] at hmid
      obtain rfl := Option.some.inj hmid
      obtain ⟨⟨field, hfield, hname⟩, _⟩ := hthrough
      have hother : ¬ folds name member.1 = true := fun hfolds =>
        select_eq_none hselect field hfield (hname.trans (eq_of_beq hfolds).symm)
      rw [if_neg hother]
      exact ih hrest
    | some decode =>
      rw [hselect] at hmid
      obtain ⟨field, hfield, rfl, hname⟩ := select_folds hselect
      have hfield := hthrough.2 field hfield
      by_cases hfolds : folds name member.1 = true
      · rw [if_pos (hname.trans (eq_of_beq hfolds))] at hfield
        rw [if_pos hfolds, List.foldlM_cons, hfield _ _ _ hmid]
        exact ih hrest
      · have hother : foldName field.1 ≠ foldName name := fun heq =>
          hfolds (beq_iff_eq.mpr (hname.symm.trans heq))
        rw [if_neg hother] at hfield
        rw [if_neg hfolds, ← hfield _ _ _ hmid]
        exact ih hrest

end Project

/-- A loop that overwrites its state ends with what it made of the last element. -/
theorem foldlM_overwrite {β γ : Type} {make : γ → Option β} {values : List γ} {b b' : β}
    (h : values.foldlM (fun _ value => make value) b = some b') :
    b' = (values.getLast?.bind make).getD b := by
  induction values using List.reverseRecOn with
  | nil => exact (Option.some.inj h).symm
  | append_singleton values value _ =>
    rw [List.foldlM_append] at h
    obtain ⟨_, _, hlast⟩ := Option.bind_eq_some_iff.mp h
    have hmake : make value = some b' := by simpa using hlast
    rw [List.getLast?_concat, Option.bind_some, hmake, Option.getD_some]

/-! ## Pointers -/

/-- Decode into a field that is a pointer to an `int`. -/
def decodeIntPointer {α : Type} (set : Option Int → α → α) : Json → α → Option α
  | .num literal, a => (parseInt literal).map fun n => set (some n) a
  | .null, a => some (set none a)
  | _, _ => none

/-- What `decodeStringPointer` makes of a value. -/
def stringPointer : Json → Option (Option String)
  | .str s => some (some s)
  | .null => some none
  | _ => none

/-- What `decodeIntPointer` makes of a value. -/
def intPointer : Json → Option (Option Int)
  | .num literal => (parseInt literal).map some
  | .null => some none
  | _ => none

section Set

variable {α β γ : Type} {view : α → β}

theorem decodeStringPointer_eq (set : Option String → α → α) (value : Json) (a : α) :
    decodeStringPointer set value a = (stringPointer value).map (set · a) := by
  cases value <;> rfl

theorem decodeIntPointer_eq (set : Option Int → α → α) (value : Json) (a : α) :
    decodeIntPointer set value a = (intPointer value).map (set · a) := by
  cases value with
  | num literal => simp [decodeIntPointer, intPointer, Function.comp_def]
  | _ => rfl

@[simp] theorem updates_decodeStringPointer {set : Option String → α → α}
    {view : α → Option String} (hset : ∀ s a, view (set s a) = s) :
    Updates (decodeStringPointer set) view fun _ value => stringPointer value := by
  intro value a a' h
  rw [decodeStringPointer_eq] at h
  obtain ⟨s, hs, rfl⟩ := Option.map_eq_some_iff.mp h
  dsimp only
  rw [hs, hset]

@[simp] theorem updates_decodeIntPointer {set : Option Int → α → α} {view : α → Option Int}
    (hset : ∀ n a, view (set n a) = n) :
    Updates (decodeIntPointer set) view fun _ value => intPointer value := by
  intro value a a' h
  rw [decodeIntPointer_eq] at h
  obtain ⟨n, hn, rfl⟩ := Option.map_eq_some_iff.mp h
  dsimp only
  rw [hn, hset]

@[simp] theorem updates_decodeInt {set : Int → α → α} {view : α → Int}
    (hset : ∀ n a, view (set n a) = n) :
    Updates (decodeInt set) view fun n value => decodeInt (fun n _ => n) value n := by
  intro value a a' h
  cases value with
  | num literal =>
    obtain ⟨n, hparse, rfl⟩ := Option.map_eq_some_iff.mp h
    dsimp only [decodeInt]
    rw [hparse, hset]
    rfl
  | null =>
    cases h
    rfl
  | _ => cases h

@[simp] theorem updates_decodeRaw {set : Json → α → α} {view : α → Option Json}
    (hset : ∀ value a, view (set value a) = some value) :
    Updates (decodeRaw set) view fun _ value => some (some value) := by
  rintro value a _ ⟨⟩
  rw [hset]

@[simp] theorem updates_decodeSlice {fields : Fields γ} {zero : γ} {get : α → Slice γ}
    {set : Slice γ → α → α} (hset : ∀ slice a, get (set slice a) = slice) :
    Updates (decodeSlice fields zero get set) get fun slice value =>
      decodeSlice fields zero id (fun s _ => s) value slice := by
  intro value a a' h
  rw [decodeSlice.eq_def] at h
  split at h
  · cases h
    rw [hset]
    rfl
  · cases h
    rw [hset]
    rfl
  · obtain ⟨cells, hcells, rfl⟩ := Option.map_eq_some_iff.mp h
    rw [hset]
    exact Option.map_eq_some_iff.mpr ⟨cells, hcells, rfl⟩
  · cases h

@[simp] theorem leaves_decodeStringPointer {set : Option String → α → α}
    (hset : ∀ s a, view (set s a) = view a) : Leaves (decodeStringPointer set) view := by
  intro value a a' h
  rw [decodeStringPointer_eq] at h
  obtain ⟨s, _, rfl⟩ := Option.map_eq_some_iff.mp h
  exact hset s a

@[simp] theorem leaves_decodeIntPointer {set : Option Int → α → α}
    (hset : ∀ n a, view (set n a) = view a) : Leaves (decodeIntPointer set) view := by
  intro value a a' h
  rw [decodeIntPointer_eq] at h
  obtain ⟨n, _, rfl⟩ := Option.map_eq_some_iff.mp h
  exact hset n a

@[simp] theorem leaves_decodeInt {set : Int → α → α} (hset : ∀ n a, view (set n a) = view a) :
    Leaves (decodeInt set) view := by
  intro value a a' h
  cases value with
  | num literal =>
    obtain ⟨n, _, rfl⟩ := Option.map_eq_some_iff.mp h
    exact hset n a
  | null =>
    cases h
    rfl
  | _ => cases h

@[simp] theorem leaves_decodeRaw {set : Json → α → α}
    (hset : ∀ value a, view (set value a) = view a) : Leaves (decodeRaw set) view := by
  rintro value a _ ⟨⟩
  exact hset value a

@[simp] theorem leaves_decodePointer {fields : Fields γ} {zero : γ} {get : α → Option γ}
    {set : Option γ → α → α} (hset : ∀ c a, view (set c a) = view a) :
    Leaves (decodePointer fields zero get set) view := by
  intro value a a' h
  rw [decodePointer.eq_def] at h
  split at h
  · cases h
    exact hset none a
  · obtain ⟨c, _, rfl⟩ := Option.map_eq_some_iff.mp h
    exact hset (some c) a

end Set

/-- A pointer to a string holds the last member of its name. -/
theorem decodeStruct_string {α : Type} {fields : Fields α} {view : α → Option String}
    (hthrough : Through fields view name fun _ value => stringPointer value) {a a' : α}
    (hnone : view a = none) (h : decodeStruct fields (.obj members) a = some a') :
    view a' = (folded name members).bind stringOf := by
  rw [foldlM_overwrite (decodeStruct_project hthrough h), hnone]
  show ((folded name members).bind stringPointer).getD none = _
  cases folded name members with
  | none => rfl
  | some value => cases value <;> rfl

/-- A raw message holds the last member of its name. -/
theorem decodeStruct_raw {α : Type} {fields : Fields α} {view : α → Option Json}
    (hthrough : Through fields view name fun _ value => some (some value)) {a a' : α}
    (hnone : view a = none) (h : decodeStruct fields (.obj members) a = some a') :
    view a' = folded name members := by
  rw [foldlM_overwrite (decodeStruct_project hthrough h), hnone]
  show ((folded name members).bind fun value => some (some value)).getD none = _
  cases folded name members <;> rfl

/-! ## Accepted members -/

section Accepts

variable {α β : Type} {fields : Fields α}

/-- Whether a decoder takes a value does not depend on what was decoded before. -/
def Stable (decode : Json → α → Option α) : Prop :=
  ∀ value a b, (decode value a).isSome = true → (decode value b).isSome = true

/-- Every member that selects a field is taken by it. -/
def Accepts (fields : Fields α) (members : List (String × Json)) : Prop :=
  ∀ member ∈ members, ∀ decode, fields.select member.1 = some decode →
    ∀ a, (decode member.2 a).isSome = true

theorem decodeStruct_isSome (h : Accepts fields members) (a : α) :
    (decodeStruct fields (.obj members) a).isSome = true := by
  induction members generalizing a with
  | nil => rfl
  | cons member members ih =>
    obtain ⟨hmember, hrest⟩ := List.forall_mem_cons.mp h
    rw [decodeStruct, List.foldlM_cons]
    cases hselect : fields.select member.1 with
    | none => exact ih hrest a
    | some decode =>
      obtain ⟨b, hb⟩ := Option.isSome_iff_exists.mp (hmember decode hselect a)
      simp only [hb]
      exact ih hrest b

theorem accepts_of_isSome (hstable : ∀ field ∈ fields, Stable field.2) {a : α}
    (h : (decodeStruct fields (.obj members) a).isSome = true) : Accepts fields members := by
  induction members generalizing a with
  | nil => exact List.forall_mem_nil _
  | cons member members ih =>
    rw [decodeStruct, List.foldlM_cons] at h
    obtain ⟨c, hc⟩ := Option.isSome_iff_exists.mp h
    obtain ⟨b, hb, hrest⟩ := Option.bind_eq_some_iff.mp hc
    refine List.forall_mem_cons.mpr ⟨fun decode hselect a' => ?_,
      ih (Option.isSome_iff_exists.mpr ⟨c, hrest⟩)⟩
    rw [hselect] at hb
    obtain ⟨field, hfield, rfl, _⟩ := select_folds hselect
    exact hstable field hfield _ a a' (Option.isSome_iff_exists.mpr ⟨b, hb⟩)

theorem stable_decodeStruct (hstable : ∀ field ∈ fields, Stable field.2) :
    Stable (decodeStruct fields) := by
  intro value a b h
  cases value with
  | obj members => exact decodeStruct_isSome (accepts_of_isSome hstable h) b
  | null => rfl
  | _ => exact absurd h (by simp [decodeStruct])

@[simp] theorem stable_decodeRaw (set : Json → α → α) : Stable (decodeRaw set) :=
  fun _ _ _ _ => rfl

@[simp] theorem stable_decodeStringPointer (set : Option String → α → α) :
    Stable (decodeStringPointer set) := by
  intro value a b h
  cases value with
  | str | null => rfl
  | _ => exact absurd h (by simp [decodeStringPointer])

@[simp] theorem stable_decodeInt (set : Int → α → α) : Stable (decodeInt set) := by
  intro value a b h
  cases value with
  | num literal => simpa [decodeInt] using h
  | null => rfl
  | _ => exact absurd h (by simp [decodeInt])

@[simp] theorem stable_decodeUint (set : Nat → α → α) : Stable (decodeUint set) := by
  intro value a b h
  cases value with
  | num literal => simpa [decodeUint] using h
  | null => rfl
  | _ => exact absurd h (by simp [decodeUint])

@[simp] theorem stable_decodeBool (set : Bool → α → α) : Stable (decodeBool set) := by
  intro value a b h
  cases value with
  | bool | null => rfl
  | _ => exact absurd h (by simp [decodeBool])

theorem stable_decodePointer {fields : Fields β} (hstable : ∀ field ∈ fields, Stable field.2)
    (zero : β) (get : α → Option β) (set : Option β → α → α) :
    Stable (decodePointer fields zero get set) := by
  intro value a b h
  rw [decodePointer.eq_def] at h ⊢
  split at h
  · rfl
  · rw [Option.isSome_map] at h
    simpa using stable_decodeStruct hstable _ _ _ h

/-- An array is taken when each of its elements is. -/
theorem decodeElements_isSome_iff {fields : Fields β} (hstable : ∀ field ∈ fields, Stable field.2)
    {zero : β} {elements : List Json} {cells : List β} :
    (decodeElements fields zero elements cells).isSome = true ↔
      ∀ element ∈ elements, (decodeStruct fields element zero).isSome = true := by
  induction elements generalizing cells with
  | nil => simp [decodeElements]
  | cons element elements ih =>
    rw [decodeElements, List.forall_mem_cons, ← @ih cells.tail]
    cases hcell : decodeStruct fields element (cells.head?.getD zero) with
    | none =>
      have hnone : ¬ (decodeStruct fields element zero).isSome = true := fun hsome => by
        simpa [hcell] using stable_decodeStruct hstable _ _ (cells.head?.getD zero) hsome
      simp [hnone]
    | some cell =>
      have hsome := stable_decodeStruct hstable element _ zero (by rw [hcell]; rfl)
      simp [hsome]

theorem stable_decodeSlice {fields : Fields β} (hstable : ∀ field ∈ fields, Stable field.2)
    (zero : β) (get : α → Slice β) (set : Slice β → α → α) :
    Stable (decodeSlice fields zero get set) := by
  intro value a b h
  cases value with
  | null => rfl
  | arr elements =>
    cases elements with
    | nil => rfl
    | cons element elements =>
      simp only [decodeSlice, Option.isSome_map] at h ⊢
      exact (decodeElements_isSome_iff hstable).mpr ((decodeElements_isSome_iff hstable).mp h)
  | _ => exact absurd h (by simp [decodeSlice])

end Accepts

/-! ## Two decoders of one value -/

section Related

variable {α β : Type} {R : α → β → Prop}

/-- Two loops over the same values keep a relation that their steps keep. -/
theorem foldlM_related {γ : Type} {f : α → γ → Option α} {g : β → γ → Option β}
    (hstep : ∀ value a b a' b', R a b → f a value = some a' → g b value = some b' → R a' b')
    {values : List γ} {a a' : α} {b b' : β} (hR : R a b) (ha : values.foldlM f a = some a')
    (hb : values.foldlM g b = some b') : R a' b' := by
  induction values generalizing a b with
  | nil =>
    obtain rfl := Option.some.inj ha
    obtain rfl := Option.some.inj hb
    exact hR
  | cons value values ih =>
    rw [List.foldlM_cons] at ha hb
    obtain ⟨_, hmid, ha⟩ := Option.bind_eq_some_iff.mp ha
    obtain ⟨_, hmid', hb⟩ := Option.bind_eq_some_iff.mp hb
    exact ih (hstep _ _ _ _ _ hR hmid hmid') ha hb

/-- Slices of the same length whose cells are related. -/
def Slice.Related (R : α → β → Prop) (s : Slice α) (s' : Slice β) : Prop :=
  List.Forall₂ R s.cells s'.cells ∧ s.len = s'.len

theorem Slice.Related.elements {s : Slice α} {s' : Slice β} (h : Slice.Related R s s') :
    List.Forall₂ R s.elements s'.elements := by
  rw [Slice.elements, Slice.elements, h.2]
  exact List.forall₂_take _ h.1

variable {fields : Fields α} {fields' : Fields β} {zero : α} {zero' : β} (hzero : R zero zero')
  (hstruct : ∀ value a b a' b', R a b → decodeStruct fields value a = some a' →
    decodeStruct fields' value b = some b' → R a' b')

include hzero hstruct

theorem decodeElements_related {elements : List Json} {cells out : List α} {cells' out' : List β}
    (hcells : List.Forall₂ R cells cells')
    (h : decodeElements fields zero elements cells = some out)
    (h' : decodeElements fields' zero' elements cells' = some out') : List.Forall₂ R out out' := by
  induction elements generalizing cells cells' out out' with
  | nil =>
    obtain rfl := Option.some.inj h
    obtain rfl := Option.some.inj h'
    exact hcells
  | cons element elements ih =>
    obtain ⟨cell, hcell, h⟩ := Option.bind_eq_some_iff.mp h
    obtain ⟨rest, hrest, rfl⟩ := Option.map_eq_some_iff.mp h
    obtain ⟨cell', hcell', h'⟩ := Option.bind_eq_some_iff.mp h'
    obtain ⟨rest', hrest', rfl⟩ := Option.map_eq_some_iff.mp h'
    -- the element goes into the first cell, or into a new one
    cases hcells with
    | nil => exact .cons (hstruct _ _ _ _ _ hzero hcell hcell') (ih .nil hrest hrest')
    | cons hhead htail => exact .cons (hstruct _ _ _ _ _ hhead hcell hcell') (ih htail hrest hrest')

theorem decodeSlice_related {s t : Slice α} {s' t' : Slice β} (hR : Slice.Related R s s')
    (h : decodeSlice fields zero id (fun s _ => s) value s = some t)
    (h' : decodeSlice fields' zero' id (fun s _ => s) value s' = some t') :
    Slice.Related R t t' := by
  have hnil : Slice.Related R (.nil : Slice α) (.nil : Slice β) := ⟨.nil, rfl⟩
  cases value with
  | null =>
    obtain rfl := Option.some.inj h
    obtain rfl := Option.some.inj h'
    exact hnil
  | arr elements =>
    cases elements with
    | nil =>
      obtain rfl := Option.some.inj h
      obtain rfl := Option.some.inj h'
      exact hnil
    | cons element elements =>
      obtain ⟨cells, hcells, rfl⟩ := Option.map_eq_some_iff.mp h
      obtain ⟨cells', hcells', rfl⟩ := Option.map_eq_some_iff.mp h'
      exact ⟨decodeElements_related hzero hstruct hR.1 hcells hcells', rfl⟩
  | _ => exact absurd h (by simp [decodeSlice])

end Related

/-! ## Distinct names -/

mutual

/-- Every object in a value has distinct member names. -/
def Distinct : Json → Prop
  | .arr elements => DistinctElements elements
  | .obj members => (members.map Prod.fst).Nodup ∧ DistinctMembers members
  | _ => True

def DistinctElements : List Json → Prop
  | [] => True
  | value :: rest => Distinct value ∧ DistinctElements rest

def DistinctMembers : List (String × Json) → Prop
  | [] => True
  | (_, value) :: rest => Distinct value ∧ DistinctMembers rest

end

theorem DistinctElements.mem {elements : List Json} (h : DistinctElements elements) :
    ∀ value ∈ elements, Distinct value := by
  induction elements with
  | nil => exact List.forall_mem_nil _
  | cons value rest ih =>
    rw [DistinctElements] at h
    exact List.forall_mem_cons.mpr ⟨h.1, ih h.2⟩

theorem DistinctMembers.lookup (h : DistinctMembers members)
    (hvalue : List.lookup key members = some value) : Distinct value := by
  induction members with
  | nil => exact absurd hvalue (by simp)
  | cons member members ih =>
    obtain ⟨name, head⟩ := member
    rw [DistinctMembers] at h
    rw [List.lookup_cons] at hvalue
    split at hvalue
    · obtain rfl := Option.some.inj hvalue
      exact h.1
    · exact ih h.2 hvalue

/-- Objects with distinct names and the same members differ in their order only. -/
theorem perm_of_lookup {members' : List (String × Json)} (hnodup : (members.map Prod.fst).Nodup)
    (hnodup' : (members'.map Prod.fst).Nodup)
    (h : ∀ key, List.lookup key members' = List.lookup key members) : members'.Perm members := by
  have hmem : ∀ {entries : List (String × Json)}, (entries.map Prod.fst).Nodup →
      ∀ key value, (key, value) ∈ entries ↔ List.lookup key entries = some value := by
    intro entries hentries key value
    induction entries with
    | nil => simp
    | cons entry entries ih =>
      obtain ⟨name, head⟩ := entry
      obtain ⟨hname, hrest⟩ := List.nodup_cons.mp hentries
      rw [List.mem_cons, List.lookup_cons, ih hrest, Prod.mk.injEq]
      by_cases heq : key = name
      · subst heq
        have hnone : List.lookup key entries = none := lookup_eq_none_iff_notMem.mpr hname
        simp [hnone, eq_comm]
      · simp [heq, beq_eq_false_iff_ne.mpr heq]
  refine (List.perm_ext_iff_of_nodup (hnodup'.of_map) (hnodup.of_map)).mpr fun entry => ?_
  obtain ⟨key, value⟩ := entry
  rw [hmem hnodup', hmem hnodup, h]

/-- A member that follows others is the property of its name. -/
theorem property_concat (members : List (String × Json)) (member : String × Json) (name : String) :
    property name (members ++ [member]) =
      if name = member.1 then some member.2 else property name members := by
  rw [property, membersWith_append, membersWith_cons]
  by_cases hname : member.1 = name
  · simp [hname, membersWith]
  · simp [hname, Ne.symm hname, membersWith, property]

/-- With distinct names a property is the only member of its name. -/
theorem property_eq_lookup (hnodup : (members.map Prod.fst).Nodup) (name : String) :
    property name members = List.lookup name members := by
  induction members with
  | nil => rfl
  | cons member members ih =>
    obtain ⟨hfresh, hrest⟩ := List.nodup_cons.mp hnodup
    rw [property, membersWith_cons, List.lookup_cons]
    by_cases hname : member.1 = name
    · have hnone : membersWith (· == name) members = [] := by
        rw [List.eq_nil_iff_forall_not_mem]
        intro value hvalue
        obtain ⟨key, hmem, hkey⟩ := mem_membersWith.mp hvalue
        exact hfresh (List.mem_map.mpr ⟨_, hmem, (eq_of_beq hkey).trans hname.symm⟩)
      simp [hname, hnone]
    · simp only [beq_eq_false_iff_ne.mpr hname, beq_eq_false_iff_ne.mpr (Ne.symm hname)]
      exact ih hrest

/-- The map of an object has the properties of the object. -/
theorem RawMap.get_ofMembers (members : List (String × Json)) (key : String) :
    (ofMembers members).get key = property key members := by
  induction members using List.reverseRecOn with
  | nil => rfl
  | append_singleton members member ih =>
    rw [property_concat, ofMembers, List.foldl_concat, get_insert]
    split
    · rfl
    · exact ih

theorem RawMap.get_ofMembers_of_nodup (hnodup : (members.map Prod.fst).Nodup) (key : String) :
    (ofMembers members).get key = List.lookup key members :=
  (get_ofMembers members key).trans (property_eq_lookup hnodup key)

/-- A map has the properties of the object that it is encoded to. -/
theorem RawMap.get_eq_property (m : RawMap) (key : String) : m.get key = property key m.entries :=
  (property_eq_lookup m.nodup key).symm

/-- An entry of a map is what the map has under its key. -/
theorem RawMap.get_of_mem {m : RawMap} (h : (key, value) ∈ m.entries) : m.get key = some value := by
  obtain ⟨entries, sorted⟩ := m
  show List.lookup key entries = some value
  induction entries with
  | nil => exact absurd h List.not_mem_nil
  | cons entry entries ih =>
    obtain ⟨hentry, hrest⟩ := List.pairwise_cons.mp sorted
    rcases List.mem_cons.mp h with rfl | hmem
    · simp
    · have hne : key ≠ entry.1 := fun heq => absurd (heq ▸ hentry _ hmem) (lt_irrefl _)
      rw [List.lookup_cons, beq_eq_false_iff_ne.mpr hne]
      exact ih hrest hmem

/-- The map of an object has members of the object. -/
theorem RawMap.mem_ofMembers {entry : String × Json} (h : entry ∈ (ofMembers members).entries) :
    entry ∈ members := by
  have hget : (ofMembers members).get entry.1 = some entry.2 := get_of_mem h
  rw [get_ofMembers] at hget
  exact member_of_property hget

theorem Exact.ofMembers (h : Exact name members) : Exact name (RawMap.ofMembers members).entries :=
  fun entry hentry => h entry (RawMap.mem_ofMembers hentry)

theorem Accepts.ofMembers {α : Type} {fields : Fields α} (h : Accepts fields members) :
    Accepts fields (RawMap.ofMembers members).entries :=
  fun entry hentry => h entry (RawMap.mem_ofMembers hentry)

/-- A name that is exact is the only one of its kind in a map. -/
theorem RawMap.sole {m : RawMap} (h : Exact name m.entries) : Sole name m.entries := by
  refine ⟨h, ?_⟩
  rw [h.membersWith, Json.membersWith, List.length_map, ← List.countP_eq_length_filter]
  calc m.entries.countP (fun member => member.1 == name)
      = (m.entries.map Prod.fst).count name := by rw [List.count, List.countP_map]; rfl
    _ ≤ 1 := List.nodup_iff_count_le_one.mp m.nodup name

/-- A map is what it has under each key. -/
theorem RawMap.ext_get {m m' : RawMap} (h : ∀ key, m'.get key = m.get key) : m' = m := by
  have hperm := perm_of_lookup m.nodup m'.nodup h
  have hentries : m'.entries = m.entries :=
    hperm.eq_of_pairwise (fun a b _ _ hab hba => absurd (hab.trans hba) (lt_irrefl _))
      m'.sorted m.sorted
  cases m
  cases m'
  congr

/-! ## Zero -/

/-- A number is zero when all digits before its exponent are. -/
def literalIsZero (literal : String) : Bool :=
  (literal.toList.takeWhile fun c => c ≠ 'e' ∧ c ≠ 'E').all fun c =>
    c = '0' ∨ c = '-' ∨ c = '.'

theorem parseDigits_zero {digits : List Char} {n : Nat} (h : parseDigits digits n = some 0) :
    n = 0 ∧ ∀ c ∈ digits, c = '0' := by
  induction digits generalizing n with
  | nil => exact ⟨Option.some.inj h, List.forall_mem_nil _⟩
  | cons c digits ih =>
    rw [parseDigits] at h
    split at h
    · rename_i hdigit
      obtain ⟨hsum, hdigits⟩ := ih h
      have hlow : 48 ≤ c.toNat :=
        UInt32.le_iff_toNat_le.mp (of_decide_eq_true (Bool.and_eq_true_iff.mp hdigit).1)
      have hzero : c.toNat = 48 := by
        have hvalue : c.toNat - '0'.toNat = 0 := by omega
        have : '0'.toNat = 48 := rfl
        omega
      exact ⟨by omega, List.forall_mem_cons.mpr ⟨Char.toNat_inj.mp hzero, hdigits⟩⟩
    · exact absurd h (by simp)

/-- A literal that is read as the integer zero is zero. -/
theorem literalIsZero_of_parseInt {literal : String} (h : parseInt literal = some 0) :
    literalIsZero literal = true := by
  have hall : ∀ c ∈ literal.toList, c = '0' ∨ c = '-' := by
    have hdigits : ∀ {digits : List Char} {bound : Nat → Bool} {i : Int}, i = 0 →
        (((parseDigits digits 0).filter bound).bind fun n => some (n : Int)) = some i →
        ∀ c ∈ digits, c = '0' := by
      intro digits bound i hi hparse
      obtain ⟨n, hfilter, hn⟩ := Option.bind_eq_some_iff.mp hparse
      obtain rfl : n = 0 := by simpa [hi] using hn
      exact (parseDigits_zero (Option.filter_eq_some_iff.mp hfilter).1).2
    unfold parseInt at h
    split at h
    · exact absurd h (by simp)
    · exact absurd h (by simp)
    · rename_i hliteral
      obtain ⟨i, hparse, hi⟩ := Option.map_eq_some_iff.mp h
      rw [hliteral]
      intro c hc
      rcases List.mem_cons.mp hc with rfl | hc
      · exact .inr rfl
      · exact .inl (hdigits (by simpa using hi) hparse c hc)
    · rename_i hliteral
      obtain ⟨i, hparse, hi⟩ := Option.map_eq_some_iff.mp h
      rw [hliteral]
      exact fun c hc => .inl (hdigits hi hparse c hc)
  unfold literalIsZero
  rw [List.all_eq_true]
  intro c hc
  rcases hall c (List.takeWhile_subset _ hc) with rfl | rfl <;> decide

end Streamweld.Lib.Json
