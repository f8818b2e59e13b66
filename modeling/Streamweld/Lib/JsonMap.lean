import Streamweld.Lib.Json

/-!
# Maps, slices and pointers

More of Go's `encoding/json` over `Json`: signed integers, raw messages, pointers to
strings, slices of structs, and maps from strings to raw messages.

A slice that is decoded twice keeps its backing array: the elements of the second array
are decoded into those of the first one, and a shorter array only hides the rest, which
a longer one shows again.  `null` and an empty array start a new slice.

A map keeps the last value of a key, and `json.Marshal` writes its keys in order.
-/

namespace Streamweld.Lib.Json

variable {key : String} {entries members : List (String × Json)}

/-! ## Fields -/

/-- `strconv.ParseInt(literal, 10, 64)` of a JSON number. -/
def parseInt (literal : String) : Option Int :=
  match literal.toList with
  | [] => none
  | '-' :: [] => none
  | '-' :: c :: cs => ((parseDigits (c :: cs) 0).filter (· ≤ 2 ^ 63)).map fun n => -(n : Int)
  | c :: cs => ((parseDigits (c :: cs) 0).filter (· < 2 ^ 63)).map fun n => (n : Int)

theorem parseDigits_concat (digits : List Char) (c : Char) (n : Nat) :
    parseDigits (digits ++ [c]) n =
      (parseDigits digits n).bind fun m =>
        if c.isDigit then some (10 * m + (c.toNat - '0'.toNat)) else none := by
  induction digits generalizing n with
  | nil => simp only [List.nil_append, parseDigits, Option.bind_some]
  | cons d digits ih =>
    rw [List.cons_append, parseDigits, parseDigits]
    split
    · exact ih _
    · rfl

/-- A digit is printed as itself. -/
theorem digitChar_value {d : Nat} (hd : d < 10) :
    d.digitChar.isDigit = true ∧ d.digitChar.toNat - '0'.toNat = d := by
  interval_cases d <;> decide

/-- The decimal digits of a number are read back. -/
theorem parseDigits_toDigits (n : Nat) : parseDigits (Nat.toDigits 10 n) 0 = some n := by
  induction n using Nat.strong_induction_on with
  | _ n ih =>
    by_cases hn : n < 10
    · obtain ⟨hdigit, hvalue⟩ := digitChar_value hn
      rw [Nat.toDigits_of_lt_base hn, parseDigits, if_pos hdigit, hvalue, parseDigits]
      simp
    · obtain ⟨hdigit, hvalue⟩ := digitChar_value (Nat.mod_lt n (by decide : 0 < 10))
      rw [Nat.toDigits_of_base_le (by decide) (by omega), parseDigits_concat,
        ih (n / 10) (by omega), Option.bind_some, if_pos hdigit, hvalue]
      exact congrArg some (Nat.div_add_mod n 10)

/-- What `strconv.FormatUint` writes is read back. -/
theorem parseUint_toString {n : Nat} (hn : n < 2 ^ 64) : parseUint (toString n) = some n := by
  have hdigits : (toString n).toList = Nat.toDigits 10 n := Nat.toList_repr
  have hparse := parseDigits_toDigits n
  rw [← hdigits] at hparse
  unfold parseUint
  cases hlist : (toString n).toList with
  | nil =>
    rw [hdigits] at hlist
    exact absurd hlist Nat.toDigits_ne_nil
  | cons c cs =>
    dsimp only
    rw [← hlist, hparse, Option.filter_some_pos (by simpa using hn)]

/-- Decode into an `int` field. -/
def decodeInt {α : Type} (set : Int → α → α) : Json → α → Option α
  | .num literal, a => (parseInt literal).map (set · a)
  | .null, a => some a
  | _, _ => none

/-- Decode into a `json.RawMessage` field, which also takes `null`. -/
def decodeRaw {α : Type} (set : Json → α → α) (value : Json) (a : α) : Option α :=
  some (set value a)

/-- Decode into a field that is a pointer to a string. -/
def decodeStringPointer {α : Type} (set : Option String → α → α) : Json → α → Option α
  | .str s, a => some (set (some s) a)
  | .null, a => some (set none a)
  | _, _ => none

/-! ## Slices -/

/-- A slice: its backing array, as far as it has been written, and its length. -/
structure Slice (β : Type) where
  cells : List β
  len : Nat
  deriving DecidableEq, Repr

namespace Slice

variable {β : Type}

/-- The nil slice. -/
def nil : Slice β := ⟨[], 0⟩

def elements (slice : Slice β) : List β := slice.cells.take slice.len

end Slice

/-- Decode the elements of an array into the cells of a slice. -/
def decodeElements {β : Type} (fields : Fields β) (zero : β) :
    List Json → List β → Option (List β)
  | [], cells => some cells
  | value :: rest, cells =>
    (decodeStruct fields value (cells.head?.getD zero)).bind fun cell =>
      (decodeElements fields zero rest cells.tail).map (cell :: ·)

/-- A new slice has as many cells as the array has elements. -/
theorem decodeElements_length {β : Type} {fields : Fields β} {zero : β} {elements : List Json}
    {cells : List β} (h : decodeElements fields zero elements [] = some cells) :
    cells.length = elements.length := by
  induction elements generalizing cells with
  | nil =>
    cases h
    rfl
  | cons element elements ih =>
    obtain ⟨cell, _, hcells⟩ := Option.bind_eq_some_iff.mp h
    obtain ⟨rest, hrest, rfl⟩ := Option.map_eq_some_iff.mp hcells
    rw [List.length_cons, ih hrest, List.length_cons]

/-- Decode into a field that is a slice of structs. -/
def decodeSlice {α β : Type} (fields : Fields β) (zero : β) (get : α → Slice β)
    (set : Slice β → α → α) : Json → α → Option α
  | .null, a => some (set .nil a)
  | .arr [], a => some (set .nil a)
  | .arr (value :: rest), a =>
    (decodeElements fields zero (value :: rest) (get a).cells).map fun cells =>
      set ⟨cells, rest.length + 1⟩ a
  | _, _ => none

/-! ## Maps -/

/-- A `map[string]json.RawMessage` that is not nil: its entries in the order of their
keys. -/
structure RawMap where
  entries : List (String × Json)
  sorted : entries.Pairwise fun a b => a.1.toList < b.1.toList

/-- Put an entry at its place. -/
def insertEntry (key : String) (value : Json) : List (String × Json) → List (String × Json)
  | [] => [(key, value)]
  | (other, old) :: rest =>
    if key = other then (key, value) :: rest
    else if key.toList < other.toList then (key, value) :: (other, old) :: rest
    else (other, old) :: insertEntry key value rest

theorem mem_insertEntry {value : Json} {entry : String × Json}
    (h : entry ∈ insertEntry key value entries) : entry = (key, value) ∨ entry ∈ entries := by
  induction entries with
  | nil => exact .inl (List.mem_singleton.mp h)
  | cons other entries ih =>
    rw [insertEntry] at h
    split at h
    · exact (List.mem_cons.mp h).imp_right (List.mem_cons_of_mem _)
    · split at h
      · exact List.mem_cons.mp h
      · rcases List.mem_cons.mp h with rfl | h
        · exact .inr List.mem_cons_self
        · exact (ih h).imp_right (List.mem_cons_of_mem _)

theorem insertEntry_sorted {value : Json}
    (h : entries.Pairwise fun a b => a.1.toList < b.1.toList) :
    (insertEntry key value entries).Pairwise fun a b => a.1.toList < b.1.toList := by
  induction entries with
  | nil => exact List.pairwise_singleton ..
  | cons other entries ih =>
    obtain ⟨hother, hrest⟩ := List.pairwise_cons.mp h
    rw [insertEntry]
    split
    · rename_i heq
      subst heq
      exact List.pairwise_cons.mpr ⟨hother, hrest⟩
    · rename_i hne
      split
      · rename_i hlt
        refine List.pairwise_cons.mpr ⟨fun entry hentry => ?_, h⟩
        rcases List.mem_cons.mp hentry with rfl | hentry
        · exact hlt
        · exact lt_trans hlt (hother entry hentry)
      · rename_i hlt
        refine List.pairwise_cons.mpr ⟨fun entry hentry => ?_, ih hrest⟩
        rcases mem_insertEntry hentry with rfl | hentry
        · exact lt_of_le_of_ne (not_lt.mp hlt) fun heq => hne (String.toList_inj.mp heq.symm)
        · exact hother entry hentry

namespace RawMap

/-- The empty map. -/
def empty : RawMap := ⟨[], .nil⟩

/-- `m[key] = value` -/
def insert (key : String) (value : Json) (m : RawMap) : RawMap :=
  ⟨insertEntry key value m.entries, insertEntry_sorted m.sorted⟩

/-- `m[key]` -/
def get (m : RawMap) (key : String) : Option Json := List.lookup key m.entries

/-- The map of the members of an object. -/
def ofMembers (members : List (String × Json)) : RawMap :=
  members.foldl (fun m member => m.insert member.1 member.2) .empty

end RawMap

/-- `json.Unmarshal` into a map; the result is `none` for a nil map. -/
def decodeMap : Json → Option (Option RawMap)
  | .null => some none
  | .obj members => some (some (.ofMembers members))
  | _ => none

/-- `json.Marshal` of a map. -/
def encodeMap : Option RawMap → Json
  | none => .null
  | some m => .obj m.entries

/-- `json.Unmarshal` into a slice of maps; the result is `none` for a nil slice. -/
def decodeMaps : Json → Option (Option (List (Option RawMap)))
  | .null => some none
  | .arr elements => (elements.mapM decodeMap).map some
  | _ => none

/-- `json.Marshal` of a slice of maps. -/
def encodeMaps : Option (List (Option RawMap)) → Json
  | none => .null
  | some maps => .arr (maps.map encodeMap)

/-! ## Assignments -/

namespace RawMap

theorem nodup (m : RawMap) : (m.entries.map Prod.fst).Nodup := by
  rw [List.Nodup, List.pairwise_map]
  exact m.sorted.imp fun hlt heq => absurd (heq ▸ hlt) (lt_irrefl _)

/-- The member under a key, after an assignment. -/
theorem get_insert (m : RawMap) (key other : String) (value : Json) :
    (m.insert key value).get other = if other = key then some value else m.get other := by
  have hlookup (entries : List (String × Json)) :
      List.lookup other (insertEntry key value entries) =
        if other = key then some value else List.lookup other entries := by
    induction entries with
    | nil =>
      by_cases h : other = key
      · simp [insertEntry, h]
      · simp [insertEntry, h, List.lookup_cons, beq_eq_false_iff_ne.mpr h]
    | cons entry entries ih =>
      obtain ⟨k, v⟩ := entry
      rw [insertEntry]
      split
      · rename_i hkey
        subst hkey
        by_cases h : other = key <;> simp [List.lookup_cons, h, beq_eq_false_iff_ne.mpr]
      · split
        · by_cases h : other = key <;> simp [List.lookup_cons, h, beq_eq_false_iff_ne.mpr]
        · rename_i hkey _
          rw [List.lookup_cons, ih, List.lookup_cons]
          by_cases hother : other = k
          · subst hother
            simp [Ne.symm hkey]
          · simp [beq_eq_false_iff_ne.mpr hother]
  exact hlookup m.entries

/-- Lookups do not depend on the order of distinct keys. -/
theorem lookup_perm {members' : List (String × Json)} (hnodup : (members.map Prod.fst).Nodup)
    (hperm : members.Perm members') (key : String) :
    List.lookup key members = List.lookup key members' := by
  induction hperm with
  | nil => rfl
  | cons member _ ih =>
    rw [List.lookup_cons, List.lookup_cons, ih (List.nodup_cons.mp hnodup).2]
  | swap first second rest =>
    have hne : first.1 ≠ second.1 := fun heq =>
      (List.nodup_cons.mp hnodup).1 (heq ▸ List.mem_cons_self)
    rw [List.lookup_cons, List.lookup_cons, List.lookup_cons, List.lookup_cons]
    by_cases hkey : key = first.1
    · rw [hkey, beq_self_eq_true, beq_eq_false_iff_ne.mpr hne]
    · rw [beq_eq_false_iff_ne.mpr hkey]
  | trans hleft _ ih ih' =>
    exact (ih hnodup).trans (ih' ((hleft.map Prod.fst).nodup_iff.mp hnodup))

end RawMap

end Streamweld.Lib.Json
