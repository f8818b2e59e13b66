import Streamweld.Lib.Overlap

/-!
# The seam of a continuation

`ReconcileSeam` (`internal/migrate/seam.go`, `utf8buffer.go`): a continuation may repeat
the end of what its predecessor has produced, and the longest repetition within a window
is removed.  Lengths and offsets are in bytes.  A byte string that is valid UTF-8 is
represented by its runes, and an offset into it by a cut between two of them.

`unicode.IsUpper` is an argument (`isUpper`); it only decides about a warning.
-/

namespace Streamweld.Migrate

open Streamweld.Lib

/-- A valid UTF-8 string. -/
abbrev Text := List Char

/-- `len` -/
def byteLength (text : Text) : Nat := weight Char.utf8Size text

@[simp] theorem byteLength_nil : byteLength [] = 0 := rfl

@[simp] theorem byteLength_append (left right : Text) :
    byteLength (left ++ right) = byteLength left + byteLength right :=
  weight_append _ left right

theorem byteLength_eq_zero_iff {text : Text} : byteLength text = 0 ↔ text = [] :=
  weight_eq_zero_iff Char.utf8Size_pos

/-- The two parts of a text at an offset that is not inside a rune. -/
def splitBytes (offset : Nat) (text : Text) : Option (Text × Text) :=
  cut Char.utf8Size offset text

theorem splitBytes_eq_some_iff {offset : Nat} {text left right : Text} :
    splitBytes offset text = some (left, right) ↔
      left ++ right = text ∧ byteLength left = offset :=
  cut_eq_some_iff Char.utf8Size_pos

theorem splitBytes_append (left right : Text) :
    splitBytes (byteLength left) (left ++ right) = some (left, right) :=
  cut_append Char.utf8Size_pos left right

/-- `text[:offset]`; every use has an offset that is not inside a rune. -/
def takeBytes (offset : Nat) (text : Text) : Text := ((splitBytes offset text).map Prod.fst).getD text

/-- `text[offset:]` -/
def dropBytes (offset : Nat) (text : Text) : Text := ((splitBytes offset text).map Prod.snd).getD []

@[simp] theorem takeBytes_append (left right : Text) :
    takeBytes (byteLength left) (left ++ right) = left := by
  rw [takeBytes, splitBytes_append]
  rfl

@[simp] theorem dropBytes_append (left right : Text) :
    dropBytes (byteLength left) (left ++ right) = right := by
  rw [dropBytes, splitBytes_append]
  rfl

/-! ## Anomalies -/

/-- `unicode.IsSpace` -/
def isSpace (c : Char) : Bool :=
  let n := c.toNat
  decide (9 ≤ n ∧ n ≤ 13) || decide (0x2000 ≤ n ∧ n ≤ 0x200a) ||
    decide (n ∈ [0x20, 0x85, 0xa0, 0x1680, 0x2028, 0x2029, 0x202f, 0x205f, 0x3000])

/-- `strings.TrimSpace` -/
def trimSpace (text : Text) : Text :=
  ((text.dropWhile isSpace).reverse.dropWhile isSpace).reverse

def isClosingQuoteOrBracket (c : Char) : Bool :=
  decide (c ∈ ['"', '\'', ')', ']', '\x7d', '»', '›', '’', '”', '〉', '》', '」', '』', '】',
    '）', '］', '｝'])

/-- The loop of `accumulatedEndsTerminal`, over the runes from the last one on.  A blank
occurs after a closing rune only, where the code trims it. -/
def endsTerminal : Text → Bool
  | [] => false
  | last :: before =>
    if isSpace last || isClosingQuoteOrBracket last then endsTerminal before
    else decide (last ∈ ['.', '!', '?', '…'])

def accumulatedEndsTerminal (value : Text) : Bool := endsTerminal value.reverse

def seamAnomaly (isUpper : Char → Bool) (accumulated continuation : Text) : Bool :=
  let left := trimSpace accumulated
  match left, trimSpace continuation with
  | [], _ => false
  | _, [] => false
  | _, first :: _ => if accumulatedEndsTerminal left then false else isUpper first

/-! ## `ReconcileSeam` -/

structure SeamResult where
  content : Text
  overlapBytes : Nat
  anomaly : Bool
  deriving DecidableEq, Repr

inductive SeamError where
  | errInvalidSeamWindow
  deriving DecidableEq, Repr

def utf8BoundaryAtOrBefore (data : Text) (boundary : Nat) : Nat :=
  if boundary ≥ byteLength data then byteLength data
  else boundaryAtOrBefore Char.utf8Size data boundary

def longestUTF8Overlap (accumulated held : Text) : Nat :=
  longestOverlap Char.utf8Size accumulated held

/-- `ReconcileSeam`. -/
def reconcileSeam (isUpper : Char → Bool) (accumulated continuation : Text) (window : Int) :
    Except SeamError SeamResult :=
  if window ≤ 0 then .error .errInvalidSeamWindow
  else
    let heldLength :=
      if byteLength continuation > window.toNat then
        utf8BoundaryAtOrBefore continuation window.toNat
      else byteLength continuation
    let overlap := longestUTF8Overlap accumulated (takeBytes heldLength continuation)
    .ok
      { content := dropBytes overlap continuation
        overlapBytes := overlap
        anomaly := overlap = 0 && seamAnomaly isUpper accumulated continuation }

/-- `p` is the longest text within the window that ends the first text and starts the
second one. -/
structure LongestOverlap (accumulated continuation : Text) (window : Nat) (p : Text) : Prop where
  overlap : IsOverlap accumulated continuation p
  within : byteLength p ≤ window
  longest : ∀ q, IsOverlap accumulated continuation q → byteLength q ≤ window →
    byteLength q ≤ byteLength p

/-- There is one longest overlap. -/
theorem LongestOverlap.unique {accumulated continuation : Text} {window : Nat} {p q : Text}
    (hp : LongestOverlap accumulated continuation window p)
    (hq : LongestOverlap accumulated continuation window q) : p = q :=
  prefix_eq_of_weight_eq Char.utf8Size_pos hp.overlap.starts hq.overlap.starts
    (le_antisymm (hq.longest p hp.overlap hp.within) (hp.longest q hq.overlap hq.within))

/-- What is held is the longest start of the continuation within the window. -/
theorem held_spec (continuation : Text) (window : Nat) :
    ∃ held rest, held ++ rest = continuation ∧
      takeBytes
        (if byteLength continuation > window then utf8BoundaryAtOrBefore continuation window
          else byteLength continuation) continuation = held ∧
      byteLength held ≤ window ∧
      ∀ p, p <+: continuation → byteLength p ≤ window → p <+: held := by
  by_cases hlong : byteLength continuation > window
  · rw [if_pos hlong, utf8BoundaryAtOrBefore, if_neg (by omega)]
    obtain ⟨held, rest, hcut, hweight, hgreatest⟩ :=
      boundaryAtOrBefore_spec Char.utf8Size_pos continuation window
    obtain ⟨happend, _⟩ := (cut_eq_some_iff Char.utf8Size_pos).mp hcut
    refine ⟨held, rest, happend, ?_, hweight, hgreatest⟩
    rw [takeBytes, splitBytes, hcut]
    rfl
  · rw [if_neg hlong]
    refine ⟨continuation, [], List.append_nil _, ?_, by omega, fun p hp _ => hp⟩
    have h := takeBytes_append continuation []
    rwa [List.append_nil] at h

/-- `ReconcileSeam` removes the longest overlap within the window. -/
theorem reconcileSeam_spec (isUpper : Char → Bool) (accumulated continuation : Text)
    {window : Int} (hwindow : 0 < window) :
    ∃ p rest anomaly, p ++ rest = continuation ∧
      LongestOverlap accumulated continuation window.toNat p ∧
      reconcileSeam isUpper accumulated continuation window =
        .ok { content := rest, overlapBytes := byteLength p, anomaly := anomaly } := by
  obtain ⟨held, after, happend, htake, hwithin, hgreatest⟩ :=
    held_spec continuation window.toNat
  obtain ⟨⟨p, hp, hweight⟩, hlongest⟩ :=
    longestOverlap_spec Char.utf8Size_pos accumulated held
  obtain ⟨rest, hrest⟩ := hp.starts
  have hcontinuation : p ++ (rest ++ after) = continuation := by
    rw [← List.append_assoc, hrest, happend]
  have hlength : longestUTF8Overlap accumulated held = byteLength p := hweight.symm
  refine ⟨p, rest ++ after,
    decide (byteLength p = 0) && seamAnomaly isUpper accumulated continuation,
    hcontinuation, ⟨⟨hp.ends, ⟨rest ++ after, hcontinuation⟩⟩, ?_, ?_⟩, ?_⟩
  · have hheld := congrArg byteLength hrest
    rw [byteLength_append] at hheld
    omega
  · intro q hq hqwithin
    exact (hlongest q ⟨hq.ends, hgreatest q hq.starts hqwithin⟩).trans_eq hlength
  · unfold reconcileSeam
    rw [if_neg (by omega)]
    dsimp only
    rw [htake, hlength]
    congr 2
    rw [← hcontinuation, dropBytes_append]

/-- The overlap that `ReconcileSeam` reports. -/
theorem LongestOverlap.of_reconcileSeam (isUpper : Char → Bool) (accumulated p rest : Text)
    (window : Int) (hwindow : 0 < window)
    (hlength : (reconcileSeam isUpper accumulated (p ++ rest) window).toOption.map
      (·.overlapBytes) = some (byteLength p)) :
    LongestOverlap accumulated (p ++ rest) window.toNat p := by
  obtain ⟨q, after, anomaly, happend, hlongest, hresult⟩ :=
    reconcileSeam_spec isUpper accumulated (p ++ rest) hwindow
  rw [hresult] at hlength
  have hq : q = p := prefix_eq_of_weight_eq Char.utf8Size_pos ⟨after, happend⟩
    (List.prefix_append p rest) (Option.some.inj hlength)
  exact hq ▸ hlongest

/-- The overlap with the whole continuation is within a start of it that reaches the window. -/
theorem LongestOverlap.held {accumulated held later p : Text}
    {window : Nat} (h : LongestOverlap accumulated (held ++ later) window p)
    (hheld : later ≠ [] → window ≤ byteLength held) : LongestOverlap accumulated held window p := by
  have hstarts : p <+: held := by
    rcases List.eq_nil_or_concat later with rfl | ⟨_, _, rfl⟩
    · simpa using h.overlap.starts
    · refine prefix_of_weight_le Char.utf8Size_pos h.overlap.starts (List.prefix_append ..) ?_
      exact h.within.trans (hheld (by simp))
  refine ⟨⟨h.overlap.ends, hstarts⟩, h.within, fun q hq hwithin => h.longest q ?_ hwithin⟩
  exact ⟨hq.ends, hq.starts.trans (List.prefix_append ..)⟩

end Streamweld.Migrate
