import Streamweld.Lib.Utf8

/-!
# Prefixes of a structured response

`ValidateJSONPrefix` (`internal/migrate/jsonprefix.go`): whether the text that a
stream has produced so far can be extended to one JSON value.  The parser
tells at every byte a value that is complete from one that may still be
completed and from one that cannot.

A position of the source is represented by the bytes from it to the end of the
data, so that `position + 1` is the tail and `len(parser.data)` is `[]`.  The
depth of a nested call is represented by the number of levels that are left:
`parseValue (maxJSONPrefixDepth + 1 - depth)`, and `parseValue 0` is the call
that exceeds the limit.

What is proved here needs no grammar:

* a value that was parsed consumed something (`Parser.progress`), on which the
  loop over the members of a container terminates;
* an answer that was decided by the bytes seen stays the same when bytes are
  appended (`parseValue_stable`).
-/

namespace Streamweld.Migrate.JsonPrefix

open Streamweld.Lib

variable {close : UInt8} {rest data : List UInt8} {item : Parser}

/-- `maxJSONPrefixDepth` -/
def maxJSONPrefixDepth : Nat := 10000

/-- `ErrInvalidJSONPrefix` -/
def errInvalidJSONPrefix : String := "migrate: invalid structured JSON prefix"

/-- `jsonPrefixStatus` -/
inductive JsonPrefixStatus where
  | invalid
  | incomplete
  | complete
  deriving DecidableEq, Repr

/-- What a parsing method returns: the bytes from the returned position on, and
the status. -/
structure Scan where
  rest : List UInt8
  status : JsonPrefixStatus
  deriving DecidableEq, Repr

/-! ## The scalar values -/

def isWhitespace (b : UInt8) : Bool := b == 0x20 || b == 0x09 || b == 0x0D || b == 0x0A

def skipWhitespace (rest : List UInt8) : List UInt8 := rest.dropWhile isWhitespace

def isDigit (b : UInt8) : Bool := 0x30 ≤ b && b ≤ 0x39

def isHex (b : UInt8) : Bool :=
  isDigit b || (0x61 ≤ b && b ≤ 0x66) || (0x41 ≤ b && b ≤ 0x46)

def isSimpleJSONEscape (b : UInt8) : Bool :=
  b == 0x22 || b == 0x5C || b == 0x2F || b == 0x62 || b == 0x66 || b == 0x6E || b == 0x72 ||
    b == 0x74

def parseLiteral : (literal rest : List UInt8) → Scan
  | [], rest => ⟨rest, .complete⟩
  | _ :: _, [] => ⟨[], .incomplete⟩
  | l :: literal, b :: rest =>
    if b = l then parseLiteral literal rest else ⟨b :: rest, .invalid⟩

def skipDigits (rest : List UInt8) : List UInt8 := rest.dropWhile isDigit

/-- The digits that must follow a decimal point or the head of an exponent, and
what comes after them. -/
def requireDigits (andThen : List UInt8 → Scan) : List UInt8 → Scan
  | [] => ⟨[], .incomplete⟩
  | b :: rest =>
    if isDigit b then andThen (skipDigits (b :: rest)) else ⟨b :: rest, .invalid⟩

/-- The last part of `parseNumber`: the exponent. -/
def parseExponent : List UInt8 → Scan
  | [] => ⟨[], .complete⟩
  | b :: rest =>
    if b = 0x65 ∨ b = 0x45 then
      match rest with
      | [] => ⟨[], .incomplete⟩
      | sign :: after =>
        if sign = 0x2B ∨ sign = 0x2D then requireDigits (⟨·, .complete⟩) after
        else requireDigits (⟨·, .complete⟩) (sign :: after)
    else ⟨b :: rest, .complete⟩

/-- The part of `parseNumber` from the fraction on. -/
def parseFraction : List UInt8 → Scan
  | [] => parseExponent []
  | b :: rest => if b = 0x2E then requireDigits parseExponent rest else parseExponent (b :: rest)

/-- The part of `parseNumber` after the sign. -/
def parseInteger : List UInt8 → Scan
  | [] => ⟨[], .incomplete⟩
  | b :: rest =>
    if b = 0x30 then parseFraction rest
    else if b < 0x31 ∨ 0x39 < b then ⟨b :: rest, .invalid⟩
    else parseFraction (skipDigits (b :: rest))

def parseNumber : List UInt8 → Scan
  | [] => parseInteger []
  | b :: rest => if b = 0x2D then parseInteger rest else parseInteger (b :: rest)

/-- The size that `utf8.DecodeRune` returns for bytes that are not empty.  Only
an error has size one for a byte outside ASCII. -/
def decodeRune (rest : List UInt8) : Nat :=
  match Utf8.decode rest with
  | .rune _ size => size
  | .short | .invalid => 1

/-- `utf8.FullRune` -/
def fullRune (rest : List UInt8) : Bool := Utf8.decode rest != .short

/-- The four digits of a `\u` escape. -/
def parseHex : Nat → List UInt8 → Scan
  | 0, rest => ⟨rest, .complete⟩
  | _ + 1, [] => ⟨[], .incomplete⟩
  | n + 1, b :: rest => if isHex b then parseHex n rest else ⟨b :: rest, .invalid⟩

theorem parseHex_length (n : Nat) (rest : List UInt8) :
    (parseHex n rest).rest.length ≤ rest.length := by
  induction n generalizing rest with
  | zero => exact le_rfl
  | succ n ih =>
    cases rest with
    | nil => exact le_rfl
    | cons b rest =>
      rw [parseHex]
      split
      · exact le_trans (ih rest) (Nat.le_succ _)
      · exact le_rfl

/-- The loop of `parseString`, from a position inside the string. -/
def parseCharacters : List UInt8 → Scan
  | [] => ⟨[], .incomplete⟩
  | b :: rest =>
    if b = 0x22 then ⟨rest, .complete⟩
    else if b = 0x5C then
      match rest with
      | [] => ⟨[], .incomplete⟩
      | escape :: after =>
        if escape = 0x75 then
          if (parseHex 4 after).status = .complete then
            have := parseHex_length 4 after
            parseCharacters (parseHex 4 after).rest
          else parseHex 4 after
        else if isSimpleJSONEscape escape then parseCharacters after
        else ⟨escape :: after, .invalid⟩
    else if b < 0x20 then ⟨b :: rest, .invalid⟩
    else if b < 0x80 then parseCharacters rest
    else if decodeRune (b :: rest) = 1 then
      if fullRune (b :: rest) then ⟨b :: rest, .invalid⟩ else ⟨[], .incomplete⟩
    -- the byte that was read and the `size - 1` bytes after it
    else parseCharacters (rest.drop (decodeRune (b :: rest) - 1))
termination_by rest => rest.length
decreasing_by
  all_goals simp only [List.length_cons, List.length_drop]; omega

@[simp] theorem parseCharacters_quote (rest : List UInt8) :
    parseCharacters (0x22 :: rest) = ⟨rest, .complete⟩ := by
  rw [parseCharacters.eq_def]
  rfl

theorem parseCharacters_unicode (after : List UInt8) :
    parseCharacters (0x5C :: 0x75 :: after) =
      if (parseHex 4 after).status = .complete then parseCharacters (parseHex 4 after).rest
      else parseHex 4 after := by
  rw [parseCharacters.eq_def]
  rfl

theorem parseCharacters_escape {escape : UInt8} (hu : escape ≠ 0x75) (after : List UInt8) :
    parseCharacters (0x5C :: escape :: after) =
      if isSimpleJSONEscape escape then parseCharacters after
      else ⟨escape :: after, .invalid⟩ := by
  rw [parseCharacters.eq_def]
  simp [hu]

/-- A byte that is neither a quote nor a backslash. -/
theorem parseCharacters_plain {b : UInt8} (hquote : b ≠ 0x22) (hslash : b ≠ 0x5C)
    (rest : List UInt8) :
    parseCharacters (b :: rest) =
      if b < 0x20 then ⟨b :: rest, .invalid⟩
      else if b < 0x80 then parseCharacters rest
      else if decodeRune (b :: rest) = 1 then
        if fullRune (b :: rest) then ⟨b :: rest, .invalid⟩ else ⟨[], .incomplete⟩
      else parseCharacters (rest.drop (decodeRune (b :: rest) - 1)) := by
  rw [parseCharacters.eq_def]
  simp only [if_neg hquote, if_neg hslash]

/-- `parseString`, from the opening quote. -/
def parseString (rest : List UInt8) : Scan := parseCharacters rest.tail

theorem skipWhitespace_length (rest : List UInt8) :
    (skipWhitespace rest).length ≤ rest.length :=
  List.length_dropWhile_le _ rest

theorem skipDigits_length (rest : List UInt8) : (skipDigits rest).length ≤ rest.length :=
  List.length_dropWhile_le _ rest

theorem parseLiteral_length (literal rest : List UInt8) :
    (parseLiteral literal rest).status = .complete →
      (parseLiteral literal rest).rest.length + literal.length = rest.length := by
  fun_induction parseLiteral literal rest with
  | case1 rest => intro _; rfl
  | case2 => nofun
  | case3 literal b rest ih =>
    intro h
    rw [List.length_cons, List.length_cons, ← ih h]
    omega
  | case4 => nofun

theorem requireDigits_length {andThen : List UInt8 → Scan}
    (h : ∀ rest, (andThen rest).rest.length ≤ rest.length) (rest : List UInt8) :
    (requireDigits andThen rest).rest.length ≤ rest.length := by
  fun_cases requireDigits andThen rest with
  | case1 => exact le_rfl
  | case2 b rest hb => exact (h _).trans (skipDigits_length _)
  | case3 => exact le_rfl

theorem parseExponent_length (rest : List UInt8) :
    (parseExponent rest).rest.length ≤ rest.length := by
  fun_cases parseExponent rest with
  | case1 => exact le_rfl
  | case2 => exact Nat.zero_le _
  | case3 b hb sign after hsign =>
    exact (requireDigits_length (fun _ => le_rfl) after).trans (by simp; omega)
  | case4 b hb sign after hsign =>
    exact (requireDigits_length (fun _ => le_rfl) (sign :: after)).trans (by simp)
  | case5 => exact le_rfl

theorem parseFraction_length (rest : List UInt8) :
    (parseFraction rest).rest.length ≤ rest.length := by
  fun_cases parseFraction rest with
  | case1 => exact parseExponent_length []
  | case2 rest => exact (requireDigits_length parseExponent_length rest).trans (by simp)
  | case3 b rest hb => exact parseExponent_length _

theorem parseInteger_length (rest : List UInt8) :
    (parseInteger rest).status = .complete → (parseInteger rest).rest.length < rest.length := by
  fun_cases parseInteger rest with
  | case1 => nofun
  | case2 rest =>
    intro _
    exact Nat.lt_succ_of_le (parseFraction_length rest)
  | case3 => nofun
  | case4 b rest hzero hrange =>
    intro _
    -- the first digit is skipped
    have hdigit : isDigit b = true := by
      simp only [isDigit, Bool.and_eq_true, decide_eq_true_eq]
      simp only [UInt8.lt_iff_toNat_lt, UInt8.le_iff_toNat_le] at hrange ⊢
      simp_all
      omega
    rw [skipDigits, List.dropWhile_cons_of_pos hdigit]
    exact Nat.lt_succ_of_le ((parseFraction_length _).trans (List.length_dropWhile_le _ rest))

theorem parseNumber_length (rest : List UInt8) :
    (parseNumber rest).status = .complete → (parseNumber rest).rest.length < rest.length := by
  fun_cases parseNumber rest with
  | case1 => exact parseInteger_length []
  | case2 rest =>
    intro h
    exact (parseInteger_length rest h).trans (Nat.lt_succ_self _)
  | case3 b rest hb => exact parseInteger_length _

theorem parseCharacters_length (rest : List UInt8) :
    (parseCharacters rest).status = .complete →
      (parseCharacters rest).rest.length < rest.length := by
  fun_induction parseCharacters rest with
  | case1 => nofun
  | case2 rest => exact fun _ => Nat.lt_succ_self _
  | case3 => nofun
  | case4 after _ hhex hlen ih =>
    intro h
    have := ih h
    simp only [List.length_cons]
    omega
  | case5 after hhex => exact fun h => absurd h hhex
  | case6 escape after _ hu hsimple ih =>
    intro h
    have := ih h
    simp only [List.length_cons]
    omega
  | case7 => nofun
  | case8 => nofun
  | case9 b rest _ _ _ _ ih => exact fun h => (ih h).trans (Nat.lt_succ_self _)
  | case10 => nofun
  | case11 => nofun
  | case12 b rest _ _ _ _ _ ih =>
    intro h
    have := ih h
    rw [List.length_drop] at this
    simp only [List.length_cons]
    omega

theorem parseString_length (rest : List UInt8) :
    (parseString rest).status = .complete → (parseString rest).rest.length < rest.length := by
  intro h
  have := parseCharacters_length rest.tail h
  rw [List.length_tail] at this
  exact lt_of_lt_of_le this (Nat.sub_le _ _)

/-! ## The containers -/

/-- A parsing method that moves forward whenever it completes. -/
structure Parser where
  run : List UInt8 → Scan
  progress : ∀ rest, (run rest).status = .complete → (run rest).rest.length < rest.length

/-- What follows an item: the closing bracket, or a comma and the next item. -/
inductive AfterItem where
  | done (scan : Scan)
  | next (rest : List UInt8)

/-- The `switch` at the end of the loops of `parseObject` and `parseArray`. -/
def afterItem (close : UInt8) (rest : List UInt8) : AfterItem :=
  match skipWhitespace rest with
  | [] => .done ⟨[], .incomplete⟩
  | b :: rest =>
    if b = close then .done ⟨rest, .complete⟩
    else if b = 0x2C then
      match skipWhitespace rest with
      | [] => .done ⟨[], .incomplete⟩
      | b :: rest => if b = close then .done ⟨b :: rest, .invalid⟩ else .next (b :: rest)
    else .done ⟨b :: rest, .invalid⟩

theorem afterItem_next {next : List UInt8} (h : afterItem close rest = .next next) :
    next.length < rest.length := by
  revert h
  fun_cases afterItem close rest with
  | case5 after b more hskip' _ hskip =>
    rintro ⟨⟩
    have hlen := skipWhitespace_length rest
    have hlen' := skipWhitespace_length after
    rw [hskip, List.length_cons] at hlen
    rw [hskip'] at hlen'
    omega
  | case1 | case2 | case3 | case4 | case6 => exact nofun

/-- The loop of `parseObject` and `parseArray` over the items up to `close`. -/
def parseItems (item : Parser) (close : UInt8) (rest : List UInt8) : Scan :=
  if h : (item.run rest).status = .complete then
    match hnext : afterItem close (item.run rest).rest with
    | .done scan => scan
    | .next next =>
      have := item.progress rest h
      have := afterItem_next hnext
      parseItems item close next
  else item.run rest
termination_by rest.length

theorem parseItems_done {scan : Scan} (h : (item.run rest).status = .complete)
    (hdone : afterItem close (item.run rest).rest = .done scan) :
    parseItems item close rest = scan := by
  rw [parseItems, dif_pos h]
  split
  · next heq =>
    rw [hdone] at heq
    exact (AfterItem.done.inj heq).symm
  · next heq =>
    rw [hdone] at heq
    cases heq

theorem parseItems_next {next : List UInt8} (h : (item.run rest).status = .complete)
    (hnext : afterItem close (item.run rest).rest = .next next) :
    parseItems item close rest = parseItems item close next := by
  rw [parseItems, dif_pos h]
  split
  · next heq =>
    rw [hnext] at heq
    cases heq
  · next heq =>
    rw [hnext] at heq
    rw [AfterItem.next.inj heq]

theorem parseItems_stop (h : (item.run rest).status ≠ .complete) :
    parseItems item close rest = item.run rest := by
  rw [parseItems, dif_neg h]

/-- `parseObject` and `parseArray`, from the opening bracket. -/
def parseContainer (item : Parser) (close : UInt8) (rest : List UInt8) : Scan :=
  match skipWhitespace rest.tail with
  | [] => ⟨[], .incomplete⟩
  | b :: rest => if b = close then ⟨rest, .complete⟩ else parseItems item close (b :: rest)

/-- One member of an object: the first half of the loop of `parseObject`. -/
def parseMember (value : Parser) : List UInt8 → Scan
  -- the loop is only entered in front of a byte
  | [] => ⟨[], .incomplete⟩
  | b :: rest =>
    if b = 0x22 then
      if (parseString (b :: rest)).status = .complete then
        match skipWhitespace (parseString (b :: rest)).rest with
        | [] => ⟨[], .incomplete⟩
        | b :: rest => if b = 0x3A then value.run rest else ⟨b :: rest, .invalid⟩
      else parseString (b :: rest)
    else ⟨b :: rest, .invalid⟩

theorem afterItem_done {scan : Scan} (h : afterItem close rest = .done scan)
    (hcomplete : scan.status = .complete) : scan.rest.length < rest.length := by
  unfold afterItem at h
  split at h
  · cases h
    cases hcomplete
  · next b after heq =>
    have hlen := skipWhitespace_length rest
    rw [heq, List.length_cons] at hlen
    split at h
    · cases h
      exact hlen
    split at h
    · split at h
      · cases h
        cases hcomplete
      · split at h
        · cases h
          cases hcomplete
        · cases h
    · cases h
      cases hcomplete

theorem parseItems_length (item : Parser) (close : UInt8) (rest : List UInt8) :
    (parseItems item close rest).status = .complete →
      (parseItems item close rest).rest.length < rest.length := by
  fun_induction parseItems item close rest with
  | case1 rest h scan hdone =>
    intro hcomplete
    exact (afterItem_done hdone hcomplete).trans (item.progress rest h)
  | case2 rest h next hnext hitem hlt ih => exact fun h => (ih h).trans (hlt.trans hitem)
  | case3 rest h => exact fun hcomplete => absurd hcomplete h

theorem parseContainer_length (item : Parser) (close : UInt8) (rest : List UInt8) :
    (parseContainer item close rest).status = .complete →
      (parseContainer item close rest).rest.length < rest.length := by
  have hskip := skipWhitespace_length rest.tail
  rw [List.length_tail] at hskip
  unfold parseContainer
  split
  · nofun
  · next b after heq =>
    rw [heq, List.length_cons] at hskip
    split
    · intro _
      exact lt_of_lt_of_le hskip (Nat.sub_le _ _)
    · intro h
      have := parseItems_length item close _ h
      simp only [List.length_cons] at this
      omega

theorem parseMember_length (value : Parser) (rest : List UInt8) :
    (parseMember value rest).status = .complete →
      (parseMember value rest).rest.length < rest.length := by
  fun_cases parseMember value rest with
  | case1 => nofun
  | case2 => nofun
  | case3 rest after hkey hcolon =>
    intro h
    have hstring := parseString_length _ hkey
    have hskip := skipWhitespace_length (parseString (0x22 :: rest)).rest
    have hvalue := value.progress after h
    rw [hcolon, List.length_cons] at hskip
    omega
  | case4 => nofun
  | case5 rest hkey => exact fun h => absurd h hkey
  | case6 => nofun

/-- `parseMember` as the item of an object. -/
def memberParser (value : Parser) : Parser := ⟨parseMember value, parseMember_length value⟩

theorem memberParser_run (value : Parser) : (memberParser value).run = parseMember value := rfl

def parseObject (value : Parser) : List UInt8 → Scan := parseContainer (memberParser value) 0x7D

def parseArray (value : Parser) : List UInt8 → Scan := parseContainer value 0x5D

/-! ## Values -/

/-- The body of `parseValue` from the first byte of the value on.  Nested values
go through `nested`. -/
def parseValueBody (nested : Parser) : List UInt8 → Scan
  | [] => ⟨[], .incomplete⟩
  | b :: rest =>
    if b = 0x7B then parseObject nested (b :: rest)
    else if b = 0x5B then parseArray nested (b :: rest)
    else if b = 0x22 then parseString (b :: rest)
    else if b = 0x74 then parseLiteral [0x74, 0x72, 0x75, 0x65] (b :: rest)
    else if b = 0x66 then parseLiteral [0x66, 0x61, 0x6C, 0x73, 0x65] (b :: rest)
    else if b = 0x6E then parseLiteral [0x6E, 0x75, 0x6C, 0x6C] (b :: rest)
    else if b = 0x2D ∨ isDigit b then parseNumber (b :: rest)
    else ⟨b :: rest, .invalid⟩

theorem parseValueBody_length (nested : Parser) (rest : List UInt8) :
    (parseValueBody nested rest).status = .complete →
      (parseValueBody nested rest).rest.length < rest.length := by
  have hliteral (literal text : List UInt8) (hl : literal ≠ []) :
      (parseLiteral literal text).status = .complete →
        (parseLiteral literal text).rest.length < text.length := by
    intro h
    have := parseLiteral_length literal text h
    have := List.length_pos_of_ne_nil hl
    omega
  fun_cases parseValueBody nested rest with
  | case1 => nofun
  | case2 rest => exact parseContainer_length _ _ _
  | case3 rest => exact parseContainer_length _ _ _
  | case4 rest => exact parseString_length _
  | case5 rest => exact hliteral _ _ (by simp)
  | case6 rest => exact hliteral _ _ (by simp)
  | case7 rest => exact hliteral _ _ (by simp)
  | case8 b rest => exact parseNumber_length _
  | case9 => nofun

/-- `parseValue` with the number of levels that are left. -/
def parseValue : Nat → Parser
  | 0 => ⟨fun rest => ⟨rest, .invalid⟩, nofun⟩
  | levels + 1 =>
    ⟨fun rest => parseValueBody (parseValue levels) (skipWhitespace rest), fun rest h =>
      lt_of_lt_of_le (parseValueBody_length _ _ h) (skipWhitespace_length rest)⟩

/-- `ValidateJSONPrefix` -/
def validateJSONPrefix (data : List UInt8) : Except String Unit :=
  match skipWhitespace data with
  | [] => .ok ()
  | rest =>
    let scan := (parseValue (maxJSONPrefixDepth + 1)).run rest
    let failed := errInvalidJSONPrefix ++ s!" at byte {data.length - scan.rest.length}"
    match scan.status with
    | .incomplete => .ok ()
    | .complete => if skipWhitespace scan.rest = [] then .ok () else .error failed
    | .invalid => .error failed

/-- `IsValidJSONPrefix` -/
def isValidJSONPrefix (data : List UInt8) : Bool := (validateJSONPrefix data).isOk

/-! ## Answers that further bytes do not change -/

/-- The bytes that follow are added to what is left. -/
def Scan.extend (scan : Scan) (more : List UInt8) : Scan := ⟨scan.rest ++ more, scan.status⟩

/-- The answer was found before the end of the data. -/
def Scan.Decided (scan : Scan) : Prop :=
  scan.status = .invalid ∨ (scan.status = .complete ∧ scan.rest ≠ [])

/-- A decided answer stays when bytes are appended. -/
def Stable (parse : List UInt8 → Scan) : Prop :=
  ∀ data more, (parse data).Decided → parse (data ++ more) = (parse data).extend more

theorem not_decided_incomplete : ¬ Scan.Decided ⟨rest, .incomplete⟩ := by
  rintro (h | ⟨h, _⟩) <;> cases h

theorem not_decided_nil : ¬ Scan.Decided ⟨[], .complete⟩ := by
  rintro (h | ⟨_, h⟩)
  · cases h
  · exact h rfl

theorem dropWhile_append_cons {test : UInt8 → Bool} {b : UInt8}
    (h : data.dropWhile test = b :: rest) (more : List UInt8) :
    (data ++ more).dropWhile test = b :: (rest ++ more) := by
  rw [List.dropWhile_append, h]
  rfl

theorem skipWhitespace_append {b : UInt8} (h : skipWhitespace data = b :: rest)
    (more : List UInt8) : skipWhitespace (data ++ more) = b :: (rest ++ more) :=
  dropWhile_append_cons h more

theorem parseLiteral_stable (literal : List UInt8) : Stable (parseLiteral literal) := by
  intro data more
  fun_induction parseLiteral literal data with
  | case1 rest => exact fun _ => rfl
  | case2 => exact fun h => absurd h not_decided_incomplete
  | case3 literal b rest ih =>
    intro h
    rw [List.cons_append, parseLiteral, if_pos rfl, ih h]
  | case4 l literal b rest hb =>
    intro _
    rw [List.cons_append, parseLiteral, if_neg hb]
    rfl

theorem requireDigits_stable {andThen : List UInt8 → Scan} (hthen : Stable andThen)
    (hnil : ¬ (andThen []).Decided) : Stable (requireDigits andThen) := by
  intro data more
  fun_cases requireDigits andThen data with
  | case1 => exact fun h => absurd h not_decided_incomplete
  | case2 b rest hb =>
    intro h
    rw [List.cons_append, requireDigits, if_pos hb]
    cases hskip : skipDigits (b :: rest) with
    | nil =>
      rw [hskip] at h
      exact absurd h hnil
    | cons d after =>
      rw [hskip] at h
      have hmore : skipDigits (b :: (rest ++ more)) = (d :: after) ++ more :=
        dropWhile_append_cons hskip more
      rw [hmore, hthen _ more h]
  | case3 b rest hb =>
    intro _
    rw [List.cons_append, requireDigits, if_neg hb]
    rfl

theorem parseExponent_stable : Stable parseExponent := by
  have hdone : Stable (fun rest => ⟨rest, .complete⟩) := fun _ _ _ => rfl
  intro data more
  fun_cases parseExponent data with
  | case1 => exact fun h => absurd h not_decided_nil
  | case2 => exact fun h => absurd h not_decided_incomplete
  | case3 b hb sign after hsign =>
    intro h
    simp only [List.cons_append, parseExponent, if_pos hb, if_pos hsign]
    exact requireDigits_stable hdone not_decided_nil after more h
  | case4 b hb sign after hsign =>
    intro h
    simp only [List.cons_append, parseExponent, if_pos hb, if_neg hsign]
    exact requireDigits_stable hdone not_decided_nil (sign :: after) more h
  | case5 b rest hb =>
    intro _
    simp only [List.cons_append, parseExponent, if_neg hb]
    rfl

theorem parseFraction_stable : Stable parseFraction := by
  intro data more
  fun_cases parseFraction data with
  | case1 => exact fun h => absurd h not_decided_nil
  | case2 rest =>
    intro h
    rw [List.cons_append, parseFraction, if_pos rfl]
    exact requireDigits_stable parseExponent_stable not_decided_nil rest more h
  | case3 b rest hb =>
    intro h
    rw [List.cons_append, parseFraction, if_neg hb]
    exact parseExponent_stable (b :: rest) more h

theorem parseInteger_stable : Stable parseInteger := by
  intro data more
  fun_cases parseInteger data with
  | case1 => exact fun h => absurd h not_decided_incomplete
  | case2 rest =>
    intro h
    rw [List.cons_append, parseInteger, if_pos rfl]
    exact parseFraction_stable rest more h
  | case3 b rest hzero hrange =>
    intro _
    rw [List.cons_append, parseInteger, if_neg hzero, if_pos hrange]
    rfl
  | case4 b rest hzero hrange =>
    intro h
    rw [List.cons_append, parseInteger, if_neg hzero, if_neg hrange]
    cases hskip : skipDigits (b :: rest) with
    | nil =>
      rw [hskip] at h
      exact absurd h not_decided_nil
    | cons d after =>
      rw [hskip] at h
      have hmore : skipDigits (b :: (rest ++ more)) = (d :: after) ++ more :=
        dropWhile_append_cons hskip more
      rw [hmore, parseFraction_stable _ more h]

theorem parseNumber_stable : Stable parseNumber := by
  intro data more
  fun_cases parseNumber data with
  | case1 => exact fun h => absurd h not_decided_incomplete
  | case2 rest =>
    intro h
    rw [List.cons_append, parseNumber, if_pos rfl]
    exact parseInteger_stable rest more h
  | case3 b rest hb =>
    intro h
    rw [List.cons_append, parseNumber, if_neg hb]
    exact parseInteger_stable (b :: rest) more h

theorem parseHex_stable (n : Nat) (data more : List UInt8)
    (h : (parseHex n data).status ≠ .incomplete) :
    parseHex n (data ++ more) = (parseHex n data).extend more := by
  fun_induction parseHex n data with
  | case1 rest => rfl
  | case2 => exact absurd rfl h
  | case3 n b rest hb ih =>
    rw [List.cons_append, parseHex, if_pos hb, ih h]
  | case4 n b rest hb =>
    rw [List.cons_append, parseHex, if_neg hb]
    rfl

/-- A character with more than one byte lies in the data. -/
theorem decodeRune_ne_one {b : UInt8} (h : decodeRune (b :: rest) ≠ 1) :
    ∃ c after, b :: rest = String.utf8EncodeChar c ++ after ∧
      decodeRune (b :: rest) = (String.utf8EncodeChar c).length ∧
      rest.drop (decodeRune (b :: rest) - 1) = after ∧ Utf8.decode (b :: rest) ≠ .short := by
  unfold decodeRune at h ⊢
  cases hdecode : Utf8.decode (b :: rest) with
  | rune c size =>
    obtain ⟨after, heq, rfl⟩ := Utf8.decode_rune hdecode
    have hpos : 0 < (String.utf8EncodeChar c).length := String.length_utf8EncodeChar c ▸
      Char.utf8Size_pos c
    refine ⟨c, after, heq, rfl, ?_, nofun⟩
    -- dropping one byte less from the tail is dropping the whole character
    have hdrop : (b :: rest).drop (String.utf8EncodeChar c).length =
        rest.drop ((String.utf8EncodeChar c).length - 1) := by
      conv_lhs => rw [← Nat.sub_add_cancel hpos]
      rw [List.drop_succ_cons]
    dsimp only
    rw [← hdrop, heq, List.drop_left]
  | short => exact absurd (by rw [hdecode]) h
  | invalid => exact absurd (by rw [hdecode]) h

theorem decodeRune_append (h : Utf8.decode data ≠ .short) (more : List UInt8) :
    decodeRune (data ++ more) = decodeRune data := by
  rw [decodeRune, decodeRune, Utf8.decode_append h]

theorem fullRune_append (h : fullRune data) (more : List UInt8) :
    fullRune (data ++ more) = true ∧ decodeRune (data ++ more) = decodeRune data := by
  have hshort : Utf8.decode data ≠ .short := by simpa [fullRune] using h
  refine ⟨?_, decodeRune_append hshort more⟩
  rw [fullRune, Utf8.decode_append hshort]
  exact h

theorem parseCharacters_stable : Stable parseCharacters := by
  intro data more
  fun_induction parseCharacters data with
  | case1 => exact fun h => absurd h not_decided_incomplete
  | case2 rest =>
    intro _
    rw [List.cons_append, parseCharacters_quote]
    rfl
  | case3 => exact fun h => absurd h not_decided_incomplete
  | case4 after hhex _ _ ih =>
    intro h
    have hstable := parseHex_stable 4 after more (by rw [hhex]; nofun)
    rw [List.cons_append, List.cons_append, parseCharacters_unicode, hstable,
      if_pos (show ((parseHex 4 after).extend more).status = .complete from hhex)]
    exact ih h
  | case5 after hhex _ =>
    intro h
    have hstable := parseHex_stable 4 after more (by
      intro hs
      obtain h | h := h
      · rw [hs] at h
        cases h
      · exact hhex h.1)
    rw [List.cons_append, List.cons_append, parseCharacters_unicode, hstable,
      if_neg (show ((parseHex 4 after).extend more).status ≠ .complete from hhex)]
  | case6 escape after hu hsimple _ ih =>
    intro h
    rw [List.cons_append, List.cons_append, parseCharacters_escape hu, if_pos hsimple]
    exact ih h
  | case7 escape after hu hsimple _ =>
    intro _
    rw [List.cons_append, List.cons_append, parseCharacters_escape hu, if_neg hsimple]
    rfl
  | case8 b rest hquote hslash hcontrol =>
    intro _
    rw [List.cons_append, parseCharacters_plain hquote hslash, if_pos hcontrol]
    rfl
  | case9 b rest hquote hslash hcontrol hascii ih =>
    intro h
    rw [List.cons_append, parseCharacters_plain hquote hslash, if_neg hcontrol, if_pos hascii]
    exact ih h
  | case10 b rest hquote hslash hcontrol hascii hsize hfull =>
    intro _
    have hmore := fullRune_append hfull more
    rw [List.cons_append] at hmore
    rw [List.cons_append, parseCharacters_plain hquote hslash, if_neg hcontrol,
      if_neg hascii, hmore.2, if_pos hsize, if_pos hmore.1]
    rfl
  | case11 => exact fun h => absurd h not_decided_incomplete
  | case12 b rest hquote hslash hcontrol hascii hsize ih =>
    intro h
    obtain ⟨c, after, heq, hlen, hdrop, hshort⟩ := decodeRune_ne_one hsize
    have hmore := decodeRune_append hshort more
    have hle : decodeRune (b :: rest) - 1 ≤ rest.length := by
      have := congrArg List.length heq
      rw [List.length_cons, List.length_append] at this
      omega
    rw [List.cons_append] at hmore
    rw [List.cons_append, parseCharacters_plain hquote hslash, if_neg hcontrol, if_neg hascii,
      hmore, if_neg hsize, List.drop_append_of_le_length hle]
    exact ih h

theorem parseString_stable (b : UInt8) (rest more : List UInt8)
    (h : (parseString (b :: rest)).Decided) :
    parseString (b :: (rest ++ more)) = (parseString (b :: rest)).extend more :=
  parseCharacters_stable rest more h

/-! ### Containers -/

/-- The part of a container after an item, with bytes appended. -/
def AfterItem.extend (more : List UInt8) : AfterItem → AfterItem
  | .done scan => .done (scan.extend more)
  | .next rest => .next (rest ++ more)

/-- A separator that was decided stays. -/
theorem afterItem_append (close : UInt8)
    (h : ∀ scan, afterItem close data = .done scan → scan.Decided) (more : List UInt8) :
    afterItem close (data ++ more) = (afterItem close data).extend more := by
  unfold afterItem at h ⊢
  cases hskip : skipWhitespace data with
  | nil => exact absurd (h _ (by rw [hskip])) not_decided_incomplete
  | cons b rest =>
    simp only [hskip] at h
    simp only [skipWhitespace_append hskip more]
    by_cases hclose : b = close
    · simp only [if_pos hclose]
      rfl
    by_cases hcomma : b = 0x2C
    · simp only [if_neg hclose, if_pos hcomma] at h ⊢
      cases hskip' : skipWhitespace rest with
      | nil => exact absurd (h _ (by rw [hskip'])) not_decided_incomplete
      | cons d after =>
        simp only [skipWhitespace_append hskip' more]
        by_cases hclose' : d = close
        · simp only [if_pos hclose']
          rfl
        · simp only [if_neg hclose']
          rfl
    · simp only [if_neg hclose, if_neg hcomma]
      rfl

/-- An item that leaves nothing leaves its container open. -/
theorem afterItem_nil (close : UInt8) : afterItem close [] = .done ⟨[], .incomplete⟩ := rfl

theorem parseItems_stable (hitem : Stable item.run) (close : UInt8) :
    Stable (parseItems item close) := by
  intro data more
  -- an item in front of the end of the data leaves its container undecided
  have hrest {rest : List UInt8} {after : AfterItem}
      (hafter : afterItem close (item.run rest).rest = after)
      (hdone : ∀ scan, after = .done scan → scan.Decided) : (item.run rest).rest ≠ [] := by
    intro hnil
    rw [hnil, afterItem_nil] at hafter
    exact not_decided_incomplete (hdone _ hafter.symm)
  fun_induction parseItems item close data with
  | case1 rest hcomplete scan hscan =>
    intro h
    have hdone : ∀ scan', AfterItem.done scan = .done scan' → scan'.Decided := by
      intro scan' heq
      cases heq
      exact h
    have hrun := hitem rest more (Or.inr ⟨hcomplete, hrest hscan hdone⟩)
    have hafter := afterItem_append close (hscan.symm ▸ hdone) more
    refine parseItems_done (by rw [hrun]; exact hcomplete) ?_
    rw [hrun]
    exact hafter.trans (by rw [hscan]; rfl)
  | case2 rest hcomplete next hnext _ _ ih =>
    intro h
    have hdone : ∀ scan', AfterItem.next next = .done scan' → scan'.Decided := nofun
    have hrun := hitem rest more (Or.inr ⟨hcomplete, hrest hnext hdone⟩)
    have hafter := afterItem_append close (hnext.symm ▸ hdone) more
    rw [← ih h]
    refine parseItems_next (by rw [hrun]; exact hcomplete) ?_
    rw [hrun]
    exact hafter.trans (by rw [hnext]; rfl)
  | case3 rest hcomplete =>
    intro h
    have hrun := hitem rest more h
    rw [parseItems_stop (by rw [hrun]; exact hcomplete), hrun]

theorem parseContainer_stable (hitem : Stable item.run) (close b : UInt8) (rest more : List UInt8)
    (h : (parseContainer item close (b :: rest)).Decided) :
    parseContainer item close (b :: (rest ++ more)) =
      (parseContainer item close (b :: rest)).extend more := by
  unfold parseContainer at h ⊢
  simp only [List.tail_cons] at h ⊢
  cases hskip : skipWhitespace rest with
  | nil =>
    simp only [hskip] at h
    exact absurd h not_decided_incomplete
  | cons d after =>
    simp only [hskip] at h
    simp only [skipWhitespace_append hskip more]
    by_cases hclose : d = close
    · simp only [if_pos hclose]
      rfl
    · simp only [if_neg hclose] at h ⊢
      exact parseItems_stable hitem close (d :: after) more h

theorem parseMember_stable {value : Parser} (hvalue : Stable value.run) :
    Stable (parseMember value) := by
  intro data more
  fun_cases parseMember value data with
  | case1 => exact fun h => absurd h not_decided_incomplete
  | case2 => exact fun h => absurd h not_decided_incomplete
  | case3 rest after hkey hcolon =>
    intro h
    have hstring := parseString_stable 0x22 rest more (Or.inr ⟨hkey, by
      intro hnil
      rw [hnil] at hcolon
      cases hcolon⟩)
    have hcolon' := skipWhitespace_append hcolon more
    simp only [List.cons_append, parseMember, if_true, hstring, Scan.extend, hkey, hcolon']
    exact hvalue after more h
  | case4 rest b after hb hkey hcolon =>
    intro _
    have hstring := parseString_stable 0x22 rest more (Or.inr ⟨hkey, by
      intro hnil
      rw [hnil] at hcolon
      cases hcolon⟩)
    have hcolon' := skipWhitespace_append hcolon more
    simp only [List.cons_append, parseMember, if_true, hstring, Scan.extend, hkey, hcolon',
      if_neg hb]
  | case5 rest hkey =>
    intro h
    have hstring := parseString_stable 0x22 rest more h
    simp only [List.cons_append, parseMember, if_true, hstring]
    exact if_neg hkey
  | case6 b rest hb =>
    intro _
    simp only [List.cons_append, parseMember, if_neg hb, Scan.extend]

theorem parseValueBody_stable {nested : Parser} (hnested : Stable nested.run) :
    Stable (parseValueBody nested) := by
  intro data more
  fun_cases parseValueBody nested data with
  | case1 => exact fun h => absurd h not_decided_incomplete
  | case2 rest =>
    intro h
    have hmember : Stable (memberParser nested).run := parseMember_stable hnested
    exact parseContainer_stable hmember 0x7D 0x7B rest more h
  | case3 rest => exact parseContainer_stable hnested 0x5D 0x5B rest more
  | case4 rest => exact parseString_stable 0x22 rest more
  | case5 rest => exact parseLiteral_stable _ (0x74 :: rest) more
  | case6 rest => exact parseLiteral_stable _ (0x66 :: rest) more
  | case7 rest => exact parseLiteral_stable _ (0x6E :: rest) more
  | case8 b rest h₁ h₂ h₃ h₄ h₅ h₆ hnumber =>
    intro h
    simp only [List.cons_append, parseValueBody, if_neg h₁, if_neg h₂, if_neg h₃, if_neg h₄,
      if_neg h₅, if_neg h₆, if_pos hnumber]
    exact parseNumber_stable (b :: rest) more h
  | case9 b rest h₁ h₂ h₃ h₄ h₅ h₆ hnumber =>
    intro _
    simp only [List.cons_append, parseValueBody, if_neg h₁, if_neg h₂, if_neg h₃, if_neg h₄,
      if_neg h₅, if_neg h₆, if_neg hnumber, Scan.extend]

/-- An answer that was decided by the bytes seen stays when bytes follow. -/
theorem parseValue_stable (levels : Nat) : Stable (parseValue levels).run := by
  induction levels with
  | zero => exact fun _ _ _ => rfl
  | succ levels ih =>
    intro data more h
    change parseValueBody (parseValue levels) (skipWhitespace (data ++ more)) = _
    cases hskip : skipWhitespace data with
    | nil =>
      change (parseValueBody (parseValue levels) (skipWhitespace data)).Decided at h
      rw [hskip] at h
      exact absurd h not_decided_incomplete
    | cons b rest =>
      change (parseValueBody (parseValue levels) (skipWhitespace data)).Decided at h
      rw [hskip] at h
      rw [skipWhitespace_append hskip more]
      have := parseValueBody_stable ih (b :: rest) more h
      rw [List.cons_append] at this
      rw [this, parseValue, ← hskip]

/-! ## What is accepted -/

/-- The answers on which `ValidateJSONPrefix` returns no error. -/
def Scan.Accepted (scan : Scan) : Prop :=
  scan.status = .incomplete ∨ (scan.status = .complete ∧ skipWhitespace scan.rest = [])

theorem parseValue_succ (levels : Nat) (rest : List UInt8) :
    (parseValue (levels + 1)).run rest =
      parseValueBody (parseValue levels) (skipWhitespace rest) := rfl

theorem skipWhitespace_idem (rest : List UInt8) :
    skipWhitespace (skipWhitespace rest) = skipWhitespace rest :=
  List.dropWhile_idempotent isWhitespace rest

theorem validateJSONPrefix_eq_ok_iff (data : List UInt8) :
    validateJSONPrefix data = .ok () ↔
      ((parseValue (maxJSONPrefixDepth + 1)).run data).Accepted := by
  generalize hlevels : maxJSONPrefixDepth = levels
  have hrun : (parseValue (levels + 1)).run (skipWhitespace data) =
      (parseValue (levels + 1)).run data := by
    rw [parseValue_succ, parseValue_succ, skipWhitespace_idem]
  unfold validateJSONPrefix
  rw [hlevels]
  split
  · next hskip =>
    rw [parseValue_succ, hskip]
    exact iff_of_true rfl (Or.inl rfl)
  · rw [hrun]
    generalize (parseValue (levels + 1)).run data = scan
    obtain ⟨rest, status⟩ := scan
    cases status with
    | invalid => simp [Scan.Accepted]
    | incomplete => simp [Scan.Accepted]
    | complete => by_cases hrest : skipWhitespace rest = [] <;> simp [Scan.Accepted, hrest]

/-- Every prefix of an accepted text is accepted. -/
theorem accepted_of_append {parse : List UInt8 → Scan} (hstable : Stable parse)
    (more : List UInt8) (h : (parse (data ++ more)).Accepted) : (parse data).Accepted := by
  by_contra hnot
  cases hstatus : (parse data).status with
  | incomplete => exact hnot (Or.inl hstatus)
  | invalid =>
    rw [hstable data more (Or.inl hstatus)] at h
    simp [Scan.Accepted, Scan.extend, hstatus] at h
  | complete =>
    cases hskip : skipWhitespace (parse data).rest with
    | nil => exact hnot (Or.inr ⟨hstatus, hskip⟩)
    | cons b rest =>
      have hrest : (parse data).rest ≠ [] := by
        intro hnil
        rw [hnil] at hskip
        cases hskip
      rw [hstable data more (Or.inr ⟨hstatus, hrest⟩)] at h
      simp [Scan.Accepted, Scan.extend, hstatus, skipWhitespace_append hskip more] at h

end Streamweld.Migrate.JsonPrefix
