import Streamweld.Lib.Utf8Boundary
import Streamweld.Migrate.Seam

/-!
# The seam of a continuation, in bytes

`ReconcileSeam` (`internal/migrate/seam.go`, `utf8buffer.go`) as it works on bytes: boundaries
are found by looking for rune starts, and overlaps by comparing bytes.

`reconcileSeam_exact` says what is removed and when an anomaly is reported;
`reconcileSeam_encode` connects the bytes with the runes of `Streamweld.Migrate.Seam`.
-/

namespace Streamweld.Migrate

open Streamweld.Lib

namespace Bytes

/-! ## The model -/

structure SeamResult where
  content : List UInt8
  overlapBytes : Nat
  anomaly : Bool
  deriving DecidableEq, Repr

inductive SeamError where
  | errInvalidSeamWindow
  | errInvalidUTF8
  deriving DecidableEq, Repr

def utf8Boundary (value : List UInt8) (offset : Nat) : Bool :=
  offset == 0 || offset == value.length || (value[offset]?).any Utf8.runeStart

def utf8BoundaryAtOrBefore (data : List UInt8) (boundary : Nat) : Nat :=
  if boundary ≥ data.length then data.length
  else descend (fun offset => (data[offset]?).any Utf8.runeStart) boundary

/-- The test in the loop of `longestUTF8Overlap`. -/
def overlapsBy (accumulated held : List UInt8) (length : Nat) : Bool :=
  utf8Boundary accumulated (accumulated.length - length) && utf8Boundary held length &&
    accumulated.drop (accumulated.length - length) == held.take length

def longestUTF8Overlap (accumulated held : List UInt8) : Nat :=
  descend (overlapsBy accumulated held) (min accumulated.length held.length)

theorem trimSpace_length (text : Text) : (trimSpace text).length ≤ text.length := by
  unfold trimSpace
  rw [List.length_reverse]
  refine (List.length_dropWhile_le _ _).trans ?_
  rw [List.length_reverse]
  exact List.length_dropWhile_le _ _

/-- `accumulatedEndsTerminal`, over the runes of a string. -/
def accumulatedEndsTerminal (value : Text) : Bool :=
  match _h : value.getLast? with
  | none => false
  | some last =>
    if isClosingQuoteOrBracket last then accumulatedEndsTerminal (trimSpace value.dropLast)
    else decide (last ∈ ['.', '!', '?', '…'])
termination_by value.length
decreasing_by
  have hlength := trimSpace_length value.dropLast
  have hpos : 0 < value.length := List.length_pos_of_mem (List.mem_of_getLast? _h)
  rw [List.length_dropLast] at hlength
  omega

def seamAnomaly (isUpper : Char → Bool) (accumulated continuation : List UInt8) : Bool :=
  let left := trimSpace (Utf8.text accumulated)
  let right := trimSpace (Utf8.text continuation)
  if left = [] ∨ right = [] ∨ accumulatedEndsTerminal left then false
  else right.head?.any isUpper

/-- The length of the part of a continuation that is searched. -/
def heldLength (continuation : List UInt8) (window : Nat) : Nat :=
  if continuation.length > window then utf8BoundaryAtOrBefore continuation window
  else continuation.length

/-- `ReconcileSeam`. -/
def reconcileSeam (isUpper : Char → Bool) (accumulated continuation : List UInt8) (window : Int) :
    Except SeamError SeamResult :=
  if window ≤ 0 then .error .errInvalidSeamWindow
  else if Utf8.valid accumulated = false ∨ Utf8.valid continuation = false then
    .error .errInvalidUTF8
  else
    let held := continuation.take (heldLength continuation window.toNat)
    let overlap := longestUTF8Overlap accumulated held
    .ok
      { content := continuation.drop overlap
        overlapBytes := overlap
        anomaly := overlap = 0 && seamAnomaly isUpper accumulated continuation }

/-! ## Overlaps -/

/-- The last bytes of one string, from a boundary on, are the first bytes of the other, up to a
boundary. -/
structure Overlaps (accumulated continuation : List UInt8) (length : Nat) : Prop where
  fits : length ≤ accumulated.length
  starts : Utf8.Boundary accumulated (accumulated.length - length)
  ends : Utf8.Boundary continuation length
  equal : accumulated.drop (accumulated.length - length) = continuation.take length

theorem byteLength_eq (text : Text) : byteLength text = (Utf8.encode text).length := by
  induction text with
  | nil => rfl
  | cons c text ih =>
    rw [Utf8.encode_cons, List.length_append, String.length_utf8EncodeChar, ← ih]
    exact weight_cons _ c text

/-- The overlaps of encoded texts are those of the texts. -/
theorem overlaps_encode_iff {left right : Text} {length : Nat} :
    Overlaps (Utf8.encode left) (Utf8.encode right) length ↔
      ∃ p, IsOverlap left right p ∧ byteLength p = length := by
  constructor
  · rintro ⟨hfits, hstarts, hends, hequal⟩
    obtain ⟨before, ending, rfl, hbefore⟩ := Utf8.boundary_encode_iff.mp hstarts
    obtain ⟨start, after, rfl, rfl⟩ := Utf8.boundary_encode_iff.mp hends
    rw [← hbefore, Utf8.encode_append, List.drop_left, Utf8.encode_append, List.take_left] at hequal
    obtain rfl := Utf8.encode_injective hequal
    exact ⟨ending, ⟨List.suffix_append .., List.prefix_append ..⟩, byteLength_eq _⟩
  · rintro ⟨p, ⟨⟨before, rfl⟩, ⟨after, rfl⟩⟩, rfl⟩
    have hlength : (Utf8.encode (before ++ p)).length - byteLength p =
        (Utf8.encode before).length := by
      rw [byteLength_eq, Utf8.encode_append, List.length_append]
      omega
    refine ⟨?_, ?_, ?_, ?_⟩
    · rw [byteLength_eq, Utf8.encode_append, List.length_append]
      omega
    · rw [hlength]
      exact Utf8.boundary_encode_iff.mpr ⟨before, p, rfl, rfl⟩
    · exact Utf8.boundary_encode_iff.mpr ⟨p, after, rfl, (byteLength_eq p).symm⟩
    · rw [hlength, byteLength_eq, Utf8.encode_append, List.drop_left, Utf8.encode_append,
        List.take_left]

/-- Looking for a rune start finds the boundaries. -/
theorem utf8Boundary_iff {text : Text} {offset : Nat} :
    utf8Boundary (Utf8.encode text) offset = true ↔ Utf8.Boundary (Utf8.encode text) offset := by
  unfold utf8Boundary
  rw [Bool.or_eq_true, Bool.or_eq_true, beq_iff_eq, beq_iff_eq]
  constructor
  · rintro ((rfl | rfl) | hstart)
    · exact .zero text
    · exact .length text
    · exact Utf8.boundary_of_runeStart hstart
  · intro h
    rcases h.runeStart with hend | hstart
    · exact .inl (.inr hend)
    · exact .inr hstart

theorem overlapsBy_iff {left right : Text} {length : Nat}
    (hleft : length ≤ (Utf8.encode left).length) :
    overlapsBy (Utf8.encode left) (Utf8.encode right) length = true ↔
      Overlaps (Utf8.encode left) (Utf8.encode right) length := by
  unfold overlapsBy
  rw [Bool.and_eq_true, Bool.and_eq_true, utf8Boundary_iff, utf8Boundary_iff, beq_iff_eq]
  exact ⟨fun h => ⟨hleft, h.1.1, h.1.2, h.2⟩, fun h => ⟨⟨h.starts, h.ends⟩, h.equal⟩⟩

theorem overlaps_zero (left right : Text) :
    Overlaps (Utf8.encode left) (Utf8.encode right) 0 :=
  overlaps_encode_iff.mpr ⟨[], ⟨List.nil_suffix, List.nil_prefix⟩, rfl⟩

/-- The loop finds the longest overlap. -/
theorem longestUTF8Overlap_spec (left right : Text) :
    IsGreatest {length | Overlaps (Utf8.encode left) (Utf8.encode right) length}
      (longestUTF8Overlap (Utf8.encode left) (Utf8.encode right)) := by
  obtain ⟨⟨hle, htest⟩, hgreatest⟩ := descend_spec
    (overlapsBy (Utf8.encode left) (Utf8.encode right))
    (min (Utf8.encode left).length (Utf8.encode right).length)
  constructor
  · rcases htest with hzero | htest
    · show Overlaps _ _ (descend _ _)
      rw [hzero]
      exact overlaps_zero left right
    · exact (overlapsBy_iff (hle.trans (Nat.min_le_left _ _))).mp htest
  · intro length hoverlaps
    refine hgreatest ⟨Nat.le_min.mpr ⟨hoverlaps.fits, hoverlaps.ends.le_length⟩, .inr ?_⟩
    exact (overlapsBy_iff hoverlaps.fits).mpr hoverlaps

/-! ## The window -/

/-- The greatest boundary within a window. -/
theorem utf8BoundaryAtOrBefore_spec {text : Text} {window : Nat}
    (hwindow : window < (Utf8.encode text).length) :
    IsGreatest {offset | offset ≤ window ∧ Utf8.Boundary (Utf8.encode text) offset}
      (utf8BoundaryAtOrBefore (Utf8.encode text) window) := by
  unfold utf8BoundaryAtOrBefore
  rw [if_neg (by omega)]
  obtain ⟨⟨hle, htest⟩, hgreatest⟩ := descend_spec
    (fun offset => ((Utf8.encode text)[offset]?).any Utf8.runeStart) window
  constructor
  · refine ⟨hle, ?_⟩
    rcases htest with hzero | htest
    · rw [hzero]
      exact .zero text
    · exact Utf8.boundary_of_runeStart htest
  · rintro offset ⟨hwithin, hboundary⟩
    refine hgreatest ⟨hwithin, .inr (hboundary.runeStart.resolve_left ?_)⟩
    omega

/-- What is held is the longest start of the continuation within the window. -/
theorem held_spec (continuation : Text) (window : Nat) :
    ∃ held rest, held ++ rest = continuation ∧
      (Utf8.encode continuation).take (heldLength (Utf8.encode continuation) window) =
        Utf8.encode held ∧
      byteLength held ≤ window ∧
      ∀ p, p <+: continuation → byteLength p ≤ window → p <+: held := by
  unfold heldLength
  by_cases hlong : (Utf8.encode continuation).length > window
  · rw [if_pos hlong]
    obtain ⟨⟨hle, hboundary⟩, hgreatest⟩ := utf8BoundaryAtOrBefore_spec hlong
    obtain ⟨held, rest, rfl, hheld⟩ := Utf8.boundary_encode_iff.mp hboundary
    refine ⟨held, rest, rfl, ?_, ?_, fun p hp hwithin => ?_⟩
    · rw [← hheld, Utf8.encode_append, List.take_left]
    · rw [byteLength_eq, hheld]
      exact hle
    · refine prefix_of_weight_le Char.utf8Size_pos hp (List.prefix_append held rest) ?_
      obtain ⟨after, happend⟩ := hp
      show byteLength p ≤ byteLength held
      rw [byteLength_eq held, hheld]
      refine hgreatest ⟨hwithin, ?_⟩
      rw [← happend]
      exact Utf8.boundary_encode_iff.mpr ⟨p, after, rfl, (byteLength_eq p).symm⟩
  · rw [if_neg hlong]
    refine ⟨continuation, [], List.append_nil _, List.take_length, ?_, fun p hp _ => hp⟩
    rw [byteLength_eq]
    omega

/-- The search finds the longest overlap within the window. -/
theorem overlap_spec (accumulated continuation : Text) (window : Nat) :
    IsGreatest {length | length ≤ window ∧
        Overlaps (Utf8.encode accumulated) (Utf8.encode continuation) length}
      (longestUTF8Overlap (Utf8.encode accumulated) ((Utf8.encode continuation).take
        (heldLength (Utf8.encode continuation) window))) := by
  obtain ⟨held, rest, rfl, htake, hwithin, hlongest⟩ := held_spec continuation window
  rw [htake]
  obtain ⟨hfound, hgreatest⟩ := longestUTF8Overlap_spec accumulated held
  constructor
  · obtain ⟨p, hp, hlength⟩ := overlaps_encode_iff.mp hfound
    obtain ⟨after, rfl⟩ := hp.starts
    rw [byteLength_append] at hwithin
    refine ⟨by omega, overlaps_encode_iff.mpr ⟨p, ⟨hp.ends, ?_⟩, hlength⟩⟩
    exact hp.starts.trans (List.prefix_append _ _)
  · rintro length ⟨hlength, hoverlaps⟩
    obtain ⟨p, hp, rfl⟩ := overlaps_encode_iff.mp hoverlaps
    exact hgreatest (overlaps_encode_iff.mpr ⟨p, ⟨hp.ends, hlongest p hp.starts hlength⟩, rfl⟩)

/-! ## Anomalies -/

/-- A rune that is passed over at the end of a text. -/
def isTrailing (c : Char) : Bool := isSpace c || isClosingQuoteOrBracket c

/-- The last rune of a text without trailing blanks, quotes and brackets. -/
def lastRune (text : Text) : Option Char := (text.reverse.dropWhile isTrailing).head?

/-- The first rune of a text that is no blank. -/
def firstRune (text : Text) : Option Char := (text.dropWhile isSpace).head?

def isTerminal (c : Char) : Bool := decide (c ∈ ['.', '!', '?', '…'])

theorem lastRune_concat (text : Text) (c : Char) :
    lastRune (text ++ [c]) = if isTrailing c then lastRune text else some c := by
  unfold lastRune
  rw [List.reverse_append, List.reverse_singleton, List.singleton_append, List.dropWhile_cons]
  split <;> simp_all

theorem dropWhile_dropWhile {q : Char → Bool} (hq : ∀ c, isSpace c = true → q c = true)
    (text : Text) : (text.dropWhile isSpace).dropWhile q = text.dropWhile q := by
  induction text with
  | nil => rfl
  | cons c text ih =>
    by_cases hspace : isSpace c = true
    · rw [List.dropWhile_cons_of_pos hspace, ih, List.dropWhile_cons_of_pos (hq c hspace)]
    · rw [List.dropWhile_cons_of_neg hspace]

/-- Runes at the end that pass the test do not change what is found first. -/
theorem head_dropWhile_append {q : Char → Bool} {more : Text} (hmore : ∀ c ∈ more, q c = true)
    (text : Text) : ((text ++ more).dropWhile q).head? = (text.dropWhile q).head? := by
  rw [List.dropWhile_append]
  split
  · rename_i hempty
    rw [List.isEmpty_iff.mp hempty, List.dropWhile_eq_nil_iff.mpr hmore]
  · rename_i hempty
    exact List.head?_append_of_ne_nil _ (by simpa using hempty)

/-- Blanks at both ends of a text do not matter. -/
theorem lastRune_trimSpace (text : Text) : lastRune (trimSpace text) = lastRune text := by
  have hspace : ∀ c, isSpace c = true → isTrailing c = true := fun c hc => by
    rw [isTrailing, hc, Bool.true_or]
  unfold lastRune trimSpace
  rw [List.reverse_reverse, dropWhile_dropWhile hspace]
  have hsplit : text.reverse =
      (text.dropWhile isSpace).reverse ++ (text.takeWhile isSpace).reverse := by
    rw [← List.reverse_append, List.takeWhile_append_dropWhile]
  rw [hsplit, head_dropWhile_append]
  intro c hc
  exact hspace c (List.mem_takeWhile_imp (List.mem_reverse.mp hc))

theorem head_dropWhile_isSpace {text : Text} {c : Char}
    (h : (text.dropWhile isSpace).head? = some c) : isSpace c = false := by
  have hnot := List.head?_dropWhile_not isSpace text
  rw [h] at hnot
  simpa using hnot

/-- The first rune of a trimmed text. -/
theorem head_trimSpace (text : Text) : (trimSpace text).head? = firstRune text := by
  unfold trimSpace firstRune
  cases hdrop : text.dropWhile isSpace with
  | nil => rfl
  | cons c rest =>
    have hc : isSpace c = false := head_dropWhile_isSpace (by rw [hdrop]; rfl)
    rw [List.reverse_cons, List.dropWhile_append]
    split
    · rw [List.dropWhile_cons_of_neg (by rw [hc]; exact Bool.false_ne_true)]
      rfl
    · rw [List.reverse_append]
      rfl

/-- A trimmed text does not end in a blank. -/
theorem getLast_trimSpace {text : Text} {c : Char} (h : (trimSpace text).getLast? = some c) :
    isSpace c = false := by
  unfold trimSpace at h
  rw [List.getLast?_reverse] at h
  exact head_dropWhile_isSpace h

/-- The loop over a trimmed text finds its last rune. -/
theorem accumulatedEndsTerminal_eq {value : Text}
    (htrimmed : ∀ c, value.getLast? = some c → isSpace c = false) :
    accumulatedEndsTerminal value = (lastRune value).any isTerminal := by
  induction hlength : value.length using Nat.strongRecOn generalizing value with
  | ind n ih =>
    rw [accumulatedEndsTerminal]
    split
    · rename_i hnone
      rw [List.getLast?_eq_none_iff.mp hnone]
      rfl
    · rename_i last hlast
      have hvalue : value.dropLast ++ [last] = value := List.dropLast_append_getLast? last hlast
      have hclosing : isTrailing last = isClosingQuoteOrBracket last := by
        rw [isTrailing, htrimmed last hlast, Bool.false_or]
      conv_rhs => rw [← hvalue, lastRune_concat, hclosing]
      split
      · rename_i hclose
        have hshorter := trimSpace_length value.dropLast
        have hlen := congrArg List.length hvalue
        rw [List.length_append, List.length_singleton] at hlen
        rw [ih _ (by omega) (fun c hc => getLast_trimSpace hc) rfl, lastRune_trimSpace]
      · rfl

/-- When an anomaly is suspected. -/
theorem seamAnomaly_iff (isUpper : Char → Bool) (accumulated continuation : List UInt8) :
    seamAnomaly isUpper accumulated continuation = true ↔
      trimSpace (Utf8.text accumulated) ≠ [] ∧ trimSpace (Utf8.text continuation) ≠ [] ∧
        (firstRune (Utf8.text continuation)).any isUpper = true ∧
        (lastRune (Utf8.text accumulated)).any isTerminal = false := by
  unfold seamAnomaly
  dsimp only
  rw [accumulatedEndsTerminal_eq (fun c hc => getLast_trimSpace hc), lastRune_trimSpace,
    head_trimSpace]
  split
  · rename_i h
    refine iff_of_false Bool.false_ne_true fun hall => ?_
    rcases h with hleft | hright | hterminal
    · exact hall.1 hleft
    · exact hall.2.1 hright
    · exact absurd (hterminal.symm.trans hall.2.2.2) Bool.true_eq_false_eq_False
  · rename_i h
    obtain ⟨hleft, hrest⟩ := not_or.mp h
    obtain ⟨hright, hterminal⟩ := not_or.mp hrest
    exact ⟨fun hupper => ⟨hleft, hright, hupper, Bool.eq_false_iff.mpr hterminal⟩,
      fun hall => hall.2.2.1⟩

/-! ## The result -/

/-- `ReconcileSeam` removes exactly the longest legal overlap. -/
theorem reconcileSeam_exact (isUpper : Char → Bool) (accumulated continuation : List UInt8)
    (haccumulated : Utf8.valid accumulated = true) (hcontinuation : Utf8.valid continuation = true)
    (window : Int) (hwindow : 0 < window) :
    ∃ result, reconcileSeam isUpper accumulated continuation window = .ok result ∧
      IsGreatest {length | length ≤ window.toNat ∧ Overlaps accumulated continuation length}
        result.overlapBytes ∧
      result.content = continuation.drop result.overlapBytes ∧
      Utf8.valid result.content = true ∧
      Utf8.valid (accumulated ++ result.content) = true ∧
      (result.anomaly = true ↔ result.overlapBytes = 0 ∧
        trimSpace (Utf8.text accumulated) ≠ [] ∧ trimSpace (Utf8.text continuation) ≠ [] ∧
        (firstRune (Utf8.text continuation)).any isUpper = true ∧
        (lastRune (Utf8.text accumulated)).any isTerminal = false) := by
  obtain ⟨left, rfl⟩ := Utf8.valid_iff.mp haccumulated
  obtain ⟨right, rfl⟩ := Utf8.valid_iff.mp hcontinuation
  have hgreatest := overlap_spec left right window.toNat
  unfold reconcileSeam
  rw [if_neg (by omega), if_neg (by simp [haccumulated, hcontinuation])]
  refine ⟨_, rfl, hgreatest, rfl, ?_⟩
  -- the overlap ends at a boundary of the continuation
  obtain ⟨p, after, rfl, hp⟩ := Utf8.boundary_encode_iff.mp hgreatest.1.2.ends
  dsimp only
  rw [← hp, Utf8.encode_append, List.drop_left, ← Utf8.encode_append]
  refine ⟨Utf8.valid_encode _, Utf8.valid_encode _, ?_⟩
  rw [Bool.and_eq_true, decide_eq_true_iff, seamAnomaly_iff]

/-- A rune of two bytes is repeated. -/
theorem reconcileSeam_exact_rune :
    IsGreatest {length | length ≤ 3 ∧
      Overlaps (Utf8.encode ['a', 'é']) (Utf8.encode ['é', 'b']) length} 2 := by
  have hvalue : reconcileSeam Char.isUpper (Utf8.encode ['a', 'é']) (Utf8.encode ['é', 'b']) 3 =
      .ok ⟨Utf8.encode ['b'], 2, false⟩ := by decide +kernel
  obtain ⟨result, hresult, hgreatest, _⟩ := reconcileSeam_exact Char.isUpper
    (Utf8.encode ['a', 'é']) (Utf8.encode ['é', 'b']) (Utf8.valid_encode _) (Utf8.valid_encode _)
    3 (by decide)
  obtain rfl := Except.ok.inj (hvalue.symm.trans hresult)
  exact hgreatest

/-! ## Bytes and runes -/

theorem endsTerminal_eq (runes : Text) :
    endsTerminal runes = ((runes.dropWhile isTrailing).head?).any isTerminal := by
  induction runes with
  | nil => rfl
  | cons c runes ih =>
    rw [endsTerminal, List.dropWhile_cons]
    show (if isTrailing c = true then _ else _) = _
    split
    · exact ih
    · rfl

theorem seamAnomaly_encode (isUpper : Char → Bool) (accumulated continuation : Text) :
    seamAnomaly isUpper (Utf8.encode accumulated) (Utf8.encode continuation) =
      Migrate.seamAnomaly isUpper accumulated continuation := by
  have hterminal : accumulatedEndsTerminal (trimSpace accumulated) =
      Migrate.accumulatedEndsTerminal (trimSpace accumulated) := by
    rw [accumulatedEndsTerminal_eq (fun c hc => getLast_trimSpace hc),
      Migrate.accumulatedEndsTerminal, endsTerminal_eq]
    rfl
  unfold seamAnomaly Migrate.seamAnomaly
  rw [Utf8.text_encode, Utf8.text_encode]
  dsimp only
  rw [hterminal]
  cases hleft : trimSpace accumulated with
  | nil => simp
  | cons a left =>
    cases trimSpace continuation with
    | nil => simp
    | cons c right => simp

/-- On encoded texts the bytes do what the runes do. -/
theorem reconcileSeam_encode (isUpper : Char → Bool) (accumulated continuation : Text)
    {window : Int} (hwindow : 0 < window) :
    ∃ result, Migrate.reconcileSeam isUpper accumulated continuation window = .ok result ∧
      reconcileSeam isUpper (Utf8.encode accumulated) (Utf8.encode continuation) window =
        .ok ⟨Utf8.encode result.content, result.overlapBytes, result.anomaly⟩ := by
  obtain ⟨p, rest, anomaly, rfl, hlongest, hresult⟩ :=
    reconcileSeam_spec isUpper accumulated continuation hwindow
  have hgreatest : IsGreatest {length | length ≤ window.toNat ∧
      Overlaps (Utf8.encode accumulated) (Utf8.encode (p ++ rest)) length} (byteLength p) := by
    refine ⟨⟨hlongest.within, overlaps_encode_iff.mpr ⟨p, hlongest.overlap, rfl⟩⟩, ?_⟩
    rintro length ⟨hwithin, hoverlaps⟩
    obtain ⟨q, hq, rfl⟩ := overlaps_encode_iff.mp hoverlaps
    exact hlongest.longest q hq hwithin
  have hoverlap := (overlap_spec accumulated (p ++ rest) window.toNat).unique hgreatest
  have hanomaly : anomaly =
      (decide (byteLength p = 0) && Migrate.seamAnomaly isUpper accumulated (p ++ rest)) := by
    unfold Migrate.reconcileSeam at hresult
    rw [if_neg (by omega)] at hresult
    have heq := Except.ok.inj hresult
    rw [Migrate.SeamResult.mk.injEq] at heq
    rw [← heq.2.2, ← heq.2.1]
  refine ⟨_, hresult, ?_⟩
  unfold reconcileSeam
  rw [Utf8.valid_encode, Utf8.valid_encode, if_neg (by omega), if_neg (by simp)]
  dsimp only
  rw [hoverlap, hanomaly, seamAnomaly_encode]
  congr 2
  rw [byteLength_eq, Utf8.encode_append, List.drop_left]

theorem reconcileSeam_encode_rune :
    ∃ result, Migrate.reconcileSeam Char.isUpper ['é'] ['é', 'b'] 3 = .ok result ∧
      reconcileSeam Char.isUpper (Utf8.encode ['é']) (Utf8.encode ['é', 'b']) 3 =
        .ok ⟨Utf8.encode result.content, result.overlapBytes, result.anomaly⟩ :=
  reconcileSeam_encode Char.isUpper ['é'] ['é', 'b'] (by decide)

end Bytes

end Streamweld.Migrate
