import Mathlib

/-!
# JSON values and struct decoding

The abstract syntax of JSON, and the part of Go's `encoding/json` that fills a
struct from an object: the keys are read in order, a key selects a field by its
exact name and otherwise by its case-folded name, `null` leaves a field as it
is, and one mismatch makes the whole call fail.  A number keeps its literal,
because `json.Unmarshal` reads an unsigned field with `strconv.ParseUint` and
so refuses a fraction, an exponent or a sign.

The decoder of a struct type is a table of fields (`Fields`), and `decodeStruct`
is the one loop over it.  `render` is the text that `json.Marshal` writes.
-/

namespace Streamweld.Lib

/-- A JSON value.  An object keeps its members in the order of the text, with
repetitions. -/
inductive Json where
  | null
  | bool (b : Bool)
  | num (literal : String)
  | str (s : String)
  | arr (elements : List Json)
  | obj (members : List (String × Json))
  deriving Repr

namespace Json

mutual

/-- Decidable equality of JSON values, by recursion on the first one. -/
def decEq : (a b : Json) → Decidable (a = b)
  | .null, b => match b with
    | .null => isTrue rfl
    | .bool _ | .num _ | .str _ | .arr _ | .obj _ => isFalse (by nofun)
  | .bool x, b => match b with
    | .bool y =>
      if h : x = y then isTrue (by rw [h]) else isFalse fun e => h (Json.bool.inj e)
    | .null | .num _ | .str _ | .arr _ | .obj _ => isFalse (by nofun)
  | .num x, b => match b with
    | .num y =>
      if h : x = y then isTrue (by rw [h]) else isFalse fun e => h (Json.num.inj e)
    | .null | .bool _ | .str _ | .arr _ | .obj _ => isFalse (by nofun)
  | .str x, b => match b with
    | .str y =>
      if h : x = y then isTrue (by rw [h]) else isFalse fun e => h (Json.str.inj e)
    | .null | .bool _ | .num _ | .arr _ | .obj _ => isFalse (by nofun)
  | .arr xs, b => match b with
    | .arr ys =>
      match decEqElements xs ys with
      | isTrue h => isTrue (by rw [h])
      | isFalse h => isFalse fun e => h (Json.arr.inj e)
    | .null | .bool _ | .num _ | .str _ | .obj _ => isFalse (by nofun)
  | .obj xs, b => match b with
    | .obj ys =>
      match decEqMembers xs ys with
      | isTrue h => isTrue (by rw [h])
      | isFalse h => isFalse fun e => h (Json.obj.inj e)
    | .null | .bool _ | .num _ | .str _ | .arr _ => isFalse (by nofun)

/-- Decidable equality of the elements of two arrays. -/
def decEqElements : (xs ys : List Json) → Decidable (xs = ys)
  | [], [] => isTrue rfl
  | [], _ :: _ => isFalse (by nofun)
  | _ :: _, [] => isFalse (by nofun)
  | x :: xs, y :: ys =>
    match decEq x y, decEqElements xs ys with
    | isTrue h, isTrue h' => isTrue (by rw [h, h'])
    | isFalse h, _ => isFalse fun e => h (List.cons.inj e).1
    | _, isFalse h => isFalse fun e => h (List.cons.inj e).2

/-- Decidable equality of the members of two objects. -/
def decEqMembers : (xs ys : List (String × Json)) → Decidable (xs = ys)
  | [], [] => isTrue rfl
  | [], _ :: _ => isFalse (by nofun)
  | _ :: _, [] => isFalse (by nofun)
  | (k, x) :: xs, (l, y) :: ys =>
    if hk : k = l then
      match decEq x y, decEqMembers xs ys with
      | isTrue h, isTrue h' => isTrue (by rw [hk, h, h'])
      | isFalse h, _ => isFalse fun e => h (Prod.mk.inj (List.cons.inj e).1).2
      | _, isFalse h => isFalse fun e => h (List.cons.inj e).2
    else isFalse fun e => hk (Prod.mk.inj (List.cons.inj e).1).1

end

instance : DecidableEq Json := decEq

/-! ## Text -/

/-- A hexadecimal digit. -/
def hexDigit (n : Nat) : Char :=
  if n < 10 then Char.ofNat ('0'.toNat + n) else Char.ofNat ('a'.toNat + (n - 10))

/-- `\u` and the four hexadecimal digits of a rune. -/
def unicodeEscape (n : Nat) : List Char :=
  ['\\', 'u', hexDigit (n / 4096 % 16), hexDigit (n / 256 % 16), hexDigit (n / 16 % 16),
    hexDigit (n % 16)]

/-- One rune of a string as `json.Marshal` writes it, with the HTML-sensitive
runes escaped. -/
def escapeRune (c : Char) : List Char :=
  if c = '"' then ['\\', '"']
  else if c = '\\' then ['\\', '\\']
  else if c = '\n' then ['\\', 'n']
  else if c = '\r' then ['\\', 'r']
  else if c = '\t' then ['\\', 't']
  else if c.toNat = 8 then ['\\', 'b']
  else if c.toNat = 12 then ['\\', 'f']
  else if c.toNat < 32 ∨ c = '<' ∨ c = '>' ∨ c = '&' ∨ c.toNat = 0x2028 ∨ c.toNat = 0x2029 then
    unicodeEscape c.toNat
  else [c]

/-- A string literal. -/
def renderString (s : String) : List Char :=
  '"' :: s.toList.flatMap escapeRune ++ ['"']

mutual

/-- The text of a value, without insignificant blanks. -/
def renderChars : Json → List Char
  | .null => "null".toList
  | .bool b => if b then "true".toList else "false".toList
  | .num literal => literal.toList
  | .str s => renderString s
  | .arr elements => '[' :: renderElements elements ++ [']']
  | .obj members => '\x7b' :: renderMembers members ++ ['\x7d']

/-- The elements of an array, separated by commas. -/
def renderElements : List Json → List Char
  | [] => []
  | [value] => renderChars value
  | value :: rest => renderChars value ++ ',' :: renderElements rest

/-- The members of an object, separated by commas. -/
def renderMembers : List (String × Json) → List Char
  | [] => []
  | [(key, value)] => renderString key ++ ':' :: renderChars value
  | (key, value) :: rest =>
    renderString key ++ ':' :: renderChars value ++ ',' :: renderMembers rest

end

/-- The text that `json.Marshal` writes for a value. -/
def render (value : Json) : String :=
  String.ofList (renderChars value)

/-! ## Field names -/

/-- `foldRune`: the representative of a rune's simple case folding.  Field names
are ASCII, so the two non-ASCII runes that fold to an ASCII letter are the only
other ones that matter. -/
def foldRune (c : Char) : Char :=
  if c.toNat = 0x17f then 'S'
  else if c.toNat = 0x212a then 'K'
  else c.toUpper

/-- `foldName`: two names select the same field when their foldings agree. -/
def foldName (name : String) : List Char :=
  name.toList.map foldRune

/-- The fields of a struct type: the tag of each field with the function that
decodes a member's value into it.  `none` is a type mismatch. -/
abbrev Fields (α : Type) := List (String × (Json → α → Option α))

/-- The field that a key selects: the one of that exact name, and otherwise the
first one whose folded name agrees. -/
def Fields.select {α : Type} (fields : Fields α) (key : String) :
    Option (Json → α → Option α) :=
  match fields.find? (fun field => field.1 == key) with
  | some field => some field.2
  | none =>
    (fields.find? (fun field => foldName field.1 == foldName key)).map Prod.snd

/-! ## Decoding -/

/-- `json.Unmarshal` of a value into a struct.  An unknown key is skipped and a
top-level `null` changes nothing. -/
def decodeStruct {α : Type} (fields : Fields α) : Json → α → Option α
  | .obj members, a =>
    members.foldlM (fun a member =>
      match fields.select member.1 with
      | some decode => decode member.2 a
      | none => some a) a
  | .null, a => some a
  | _, _ => none

/-- The value of a string of decimal digits, most significant first. -/
def parseDigits : List Char → Nat → Option Nat
  | [], n => some n
  | c :: cs, n =>
    if c.isDigit then parseDigits cs (10 * n + (c.toNat - '0'.toNat)) else none

/-- `strconv.ParseUint(literal, 10, 64)`. -/
def parseUint (literal : String) : Option Nat :=
  match literal.toList with
  | [] => none
  | c :: cs => (parseDigits (c :: cs) 0).filter (· < 2 ^ 64)

/-- Decode into an unsigned 64-bit field. -/
def decodeUint {α : Type} (set : Nat → α → α) : Json → α → Option α
  | .num literal, a => (parseUint literal).map (set · a)
  | .null, a => some a
  | _, _ => none

/-- Decode into a string field. -/
def decodeString {α : Type} (set : String → α → α) : Json → α → Option α
  | .str s, a => some (set s a)
  | .null, a => some a
  | _, _ => none

/-- Decode into a boolean field. -/
def decodeBool {α : Type} (set : Bool → α → α) : Json → α → Option α
  | .bool b, a => some (set b a)
  | .null, a => some a
  | _, _ => none

/-- Decode into a pointer-to-struct field: `null` clears the pointer, and an
object is decoded into the struct the pointer already names, or into a new zero
one. -/
def decodePointer {α β : Type} (fields : Fields β) (zero : β)
    (get : α → Option β) (set : Option β → α → α) : Json → α → Option α
  | .null, a => some (set none a)
  | value, a =>
    (decodeStruct fields value ((get a).getD zero)).map fun b => set (some b) a

end Json

end Streamweld.Lib
