import Streamweld.Lib.Utf8

/-!
# The grammar of JSON texts

The ABNF of the JSON standard as languages over bytes, one definition for each
rule and in the standard's own words.  Characters of a string are Unicode
scalar values in UTF-8, given by `String.utf8EncodeChar`.

The rule `value` is recursive through arrays and objects.  `valueAt n` are the
values whose containers nest less than `n` deep (an empty container counts as
a scalar), and `value` is their union.  The closure of `value` under the two
container rules (`array_le_value`, `object_le_value`) shows that nothing is
lost by this.

`nesting` counts the containers of any byte string, a JSON text or not: the
greatest number of brackets outside strings that are open at once.
-/

namespace Streamweld.Lib.JsonGrammar

open Computability

variable {w : List UInt8} {b : UInt8} {item v v' l : Language UInt8}

/-! ## Bytes -/

def isWs (b : UInt8) : Bool := b == 0x20 || b == 0x09 || b == 0x0D || b == 0x0A

def isDigit (b : UInt8) : Bool := 0x30 ≤ b && b ≤ 0x39

def isHexdig (b : UInt8) : Bool :=
  isDigit b || (0x61 ≤ b && b ≤ 0x66) || (0x41 ≤ b && b ≤ 0x46)

/-- The bytes that may follow a backslash, the `u` apart. -/
def isEscaped (b : UInt8) : Bool :=
  b == 0x22 || b == 0x5C || b == 0x2F || b == 0x62 || b == 0x66 || b == 0x6E || b == 0x72 ||
    b == 0x74

/-! ## Tokens -/

def ws : Language UInt8 := {w | ∀ b ∈ w, isWs b}

/-- One byte. -/
def one (b : UInt8) : Language UInt8 := {[b]}

def beginArray : Language UInt8 := ws * one 0x5B * ws
def beginObject : Language UInt8 := ws * one 0x7B * ws
def endArray : Language UInt8 := ws * one 0x5D * ws
def endObject : Language UInt8 := ws * one 0x7D * ws
def nameSeparator : Language UInt8 := ws * one 0x3A * ws
def valueSeparator : Language UInt8 := ws * one 0x2C * ws

/-- `true`, `false` and `null`. -/
def literals : List (List UInt8) :=
  [[0x74, 0x72, 0x75, 0x65], [0x66, 0x61, 0x6C, 0x73, 0x65], [0x6E, 0x75, 0x6C, 0x6C]]

def literal : Language UInt8 := {w | w ∈ literals}

/-! ## Numbers -/

/-- `*DIGIT` -/
def digits : Language UInt8 := {w | ∀ b ∈ w, isDigit b}

/-- `1*DIGIT` -/
def digits1 : Language UInt8 := {w | w ≠ [] ∧ ∀ b ∈ w, isDigit b}

/-- `digit1-9` -/
def digit19 : Language UInt8 := {w | ∃ b : UInt8, (0x31 ≤ b ∧ b ≤ 0x39) ∧ w = [b]}

def minus : Language UInt8 := one 0x2D

def int : Language UInt8 := one 0x30 + digit19 * digits

def frac : Language UInt8 := one 0x2E * digits1

/-- `exp = e [ minus / plus ] 1*DIGIT` -/
def exponent : Language UInt8 :=
  (one 0x65 + one 0x45) * (1 + (minus + one 0x2B)) * digits1

def number : Language UInt8 := (1 + minus) * int * (1 + frac) * (1 + exponent)

/-! ## Strings -/

def unescaped : Language UInt8 :=
  {w | ∃ c : Char, (0x20 ≤ c.toNat ∧ c ≠ '"' ∧ c ≠ '\\') ∧ w = String.utf8EncodeChar c}

def escape : Language UInt8 := {w | ∃ b, isEscaped b ∧ w = [0x5C, b]}

/-- `%x75 4HEXDIG` after a backslash -/
def unicodeEscape : Language UInt8 :=
  {w | ∃ hex : List UInt8, hex.length = 4 ∧ (∀ b ∈ hex, isHexdig b) ∧ w = 0x5C :: 0x75 :: hex}

def char : Language UInt8 := unescaped + escape + unicodeEscape

def string : Language UInt8 := one 0x22 * char∗ * one 0x22

/-! ## Values -/

/-- `item *( value-separator item )` -/
def separated (item : Language UInt8) : Language UInt8 := item * (valueSeparator * item)∗

def array (value : Language UInt8) : Language UInt8 :=
  beginArray * (1 + separated value) * endArray

def member (value : Language UInt8) : Language UInt8 := string * nameSeparator * value

def object (value : Language UInt8) : Language UInt8 :=
  beginObject * (1 + separated (member value)) * endObject

def scalar : Language UInt8 := literal + number + string

def valueAt : Nat → Language UInt8
  | 0 => 0
  | n + 1 => scalar + array (valueAt n) + object (valueAt n)

def value : Language UInt8 := {w | ∃ n, w ∈ valueAt n}

/-- `JSON-text = ws value ws` -/
def text : Language UInt8 := ws * value * ws

/-! ## Membership -/

@[simp] theorem mem_ws : w ∈ ws ↔ ∀ b ∈ w, isWs b := Iff.rfl

@[simp] theorem mem_one : w ∈ one b ↔ w = [b] := Iff.rfl

@[simp] theorem mem_digits : w ∈ digits ↔ ∀ b ∈ w, isDigit b := Iff.rfl

@[simp] theorem mem_digits1 : w ∈ digits1 ↔ w ≠ [] ∧ ∀ b ∈ w, isDigit b := Iff.rfl

theorem nil_mem_ws : [] ∈ ws := by simp

/-- A byte with blanks around it, the shape of every structural token. -/
theorem mem_token :
    w ∈ ws * one b * ws ↔ ∃ before ∈ ws, ∃ after ∈ ws, w = before ++ b :: after := by
  simp only [Language.mem_mul, mem_one]
  constructor
  · rintro ⟨_, ⟨before, hbefore, _, rfl, rfl⟩, after, hafter, rfl⟩
    exact ⟨before, hbefore, after, hafter, by simp⟩
  · rintro ⟨before, hbefore, after, hafter, rfl⟩
    exact ⟨before ++ [b], ⟨before, hbefore, [b], rfl, rfl⟩, after, hafter, by simp⟩

theorem mem_separated_of_item (h : w ∈ item) : w ∈ separated item := by
  have := Language.append_mem_mul h (Language.nil_mem_kstar (valueSeparator * item))
  rwa [List.append_nil] at this

theorem separated_eq (item : Language UInt8) :
    separated item = item + item * (valueSeparator * separated item) := by
  unfold separated
  nth_rewrite 1 [← Language.one_add_self_mul_kstar_eq_kstar]
  rw [mul_add, mul_one, mul_assoc]

theorem mem_separated_cons {s u : List UInt8} (hw : w ∈ item) (hs : s ∈ valueSeparator)
    (hu : u ∈ separated item) : w ++ (s ++ u) ∈ separated item := by
  rw [separated_eq]
  exact Or.inr (Language.append_mem_mul hw (Language.append_mem_mul hs hu))

theorem ws_mul_ws : ws * ws ≤ ws := by
  rintro _ ⟨a, ha, b, hb, rfl⟩
  exact List.forall_mem_append.mpr ⟨ha, hb⟩

/-- Induction on a comma-separated sequence, from its last item. -/
theorem separated_induction {motive : List UInt8 → Prop} (single : ∀ w ∈ item, motive w)
    (cons : ∀ w ∈ item, ∀ s ∈ valueSeparator, ∀ u ∈ separated item, motive u →
      motive (w ++ (s ++ u))) (h : w ∈ separated item) : motive w := by
  obtain ⟨first, hfirst, others, hothers, rfl⟩ := Language.mem_mul.mp h
  obtain ⟨parts, rfl, hparts⟩ := Language.mem_kstar.mp hothers
  induction parts generalizing first with
  | nil => simpa using single first hfirst
  | cons part parts ih =>
    obtain ⟨s, hs, next, hnext, rfl⟩ := Language.mem_mul.mp (hparts part List.mem_cons_self)
    have hrest : ∀ y ∈ parts, y ∈ valueSeparator * item :=
      fun y hy => hparts y (List.mem_cons_of_mem _ hy)
    have hu : next ++ parts.flatten ∈ separated item :=
      Language.append_mem_mul hnext (Language.join_mem_kstar hrest)
    have hih := ih next hnext hrest (Language.join_mem_kstar hrest) hu
    have := cons first hfirst s hs (next ++ parts.flatten) hu hih
    simpa [List.append_assoc] using this

/-! ## Nesting levels -/

theorem separated_mono {item' : Language UInt8} (h : item ≤ item') :
    separated item ≤ separated item' :=
  mul_le_mul' h (kstar_mono (mul_le_mul' le_rfl h))

theorem array_mono (h : v ≤ v') : array v ≤ array v' :=
  mul_le_mul' (mul_le_mul' le_rfl (add_le_add le_rfl (separated_mono h))) le_rfl

theorem member_mono (h : v ≤ v') : member v ≤ member v' :=
  mul_le_mul' le_rfl h

theorem object_mono (h : v ≤ v') : object v ≤ object v' :=
  mul_le_mul' (mul_le_mul' le_rfl (add_le_add le_rfl (separated_mono (member_mono h)))) le_rfl

theorem valueAt_le_succ (n : Nat) : valueAt n ≤ valueAt (n + 1) := by
  induction n with
  | zero => exact bot_le
  | succ n ih =>
    exact add_le_add (add_le_add le_rfl (array_mono ih)) (object_mono ih)

theorem valueAt_mono : Monotone valueAt := monotone_nat_of_le_succ valueAt_le_succ

/-- A sequence of items from a growing chain of languages comes from one of
them. -/
theorem mem_separated_of_chain {item : Nat → Language UInt8} (hmono : Monotone item)
    (h : w ∈ separated {u | ∃ n, u ∈ item n}) : ∃ n, w ∈ separated (item n) := by
  refine separated_induction (motive := fun w => ∃ n, w ∈ separated (item n)) ?_ ?_ h
  · intro w hw
    obtain ⟨n, hn⟩ := hw
    exact ⟨n, mem_separated_of_item hn⟩
  · intro w hw s hs u _ ih
    obtain ⟨n, hn⟩ := hw
    obtain ⟨m, hm⟩ := ih
    refine ⟨max n m, mem_separated_cons (hmono (le_max_left n m) hn) hs ?_⟩
    exact separated_mono (hmono (le_max_right n m)) hm

theorem scalar_le_value : scalar ≤ value :=
  fun _ hw => ⟨1, Or.inl (Or.inl hw)⟩

/-- The array rule for `value` itself. -/
theorem array_le_value : array value ≤ value := by
  intro w hw
  obtain ⟨front, ⟨start, hstart, inner, hinner, rfl⟩, stop, hstop, rfl⟩ := hw
  obtain hinner | hinner := hinner
  · exact ⟨1, Or.inl (Or.inr ⟨_, ⟨start, hstart, inner, Or.inl hinner, rfl⟩, stop, hstop, rfl⟩)⟩
  · obtain ⟨n, hn⟩ := mem_separated_of_chain valueAt_mono hinner
    exact ⟨n + 1, Or.inl (Or.inr ⟨_, ⟨start, hstart, inner, Or.inr hn, rfl⟩, stop, hstop, rfl⟩)⟩

/-- The object rule for `value` itself. -/
theorem object_le_value : object value ≤ value := by
  intro w hw
  obtain ⟨front, ⟨start, hstart, inner, hinner, rfl⟩, stop, hstop, rfl⟩ := hw
  obtain hinner | hinner := hinner
  · exact ⟨1, Or.inr ⟨_, ⟨start, hstart, inner, Or.inl hinner, rfl⟩, stop, hstop, rfl⟩⟩
  · have hchain : inner ∈ separated {u | ∃ n, u ∈ member (valueAt n)} := by
      refine separated_mono (fun u hu => ?_) hinner
      obtain ⟨key, hkey, v, ⟨n, hn⟩, rfl⟩ := hu
      exact ⟨n, key, hkey, v, hn, rfl⟩
    obtain ⟨n, hn⟩ := mem_separated_of_chain (fun _ _ h => member_mono (valueAt_mono h)) hchain
    exact ⟨n + 1, Or.inr ⟨_, ⟨start, hstart, inner, Or.inr hn, rfl⟩, stop, hstop, rfl⟩⟩

/-! ## Nesting of a byte string -/

/-- Where a scan for brackets stands. -/
inductive Mode where
  | outside
  | inString
  | escaped

/-- The greatest number of open containers from here on, when `depth` are open. -/
def deepest : Mode → Nat → List UInt8 → Nat
  | _, depth, [] => depth
  | .escaped, depth, _ :: rest => deepest .inString depth rest
  | .inString, depth, b :: rest =>
    if b = 0x22 then deepest .outside depth rest
    else if b = 0x5C then deepest .escaped depth rest
    else deepest .inString depth rest
  | .outside, depth, b :: rest =>
    if b = 0x22 then deepest .inString depth rest
    else if b = 0x7B ∨ b = 0x5B then deepest .outside (depth + 1) rest
    else if b = 0x7D ∨ b = 0x5D then max depth (deepest .outside (depth - 1) rest)
    else deepest .outside depth rest

/-- How deep the containers of a byte string nest. -/
def nesting (data : List UInt8) : Nat := deepest .outside 0 data

theorem depth_le_deepest (mode : Mode) (depth : Nat) (data : List UInt8) :
    depth ≤ deepest mode depth data := by
  fun_induction deepest mode depth data with
  | case1 => exact le_rfl
  | case2 depth b rest ih => exact ih
  | case3 depth rest ih => exact ih
  | case4 depth rest _ ih => exact ih
  | case5 depth b rest _ _ ih => exact ih
  | case6 depth rest ih => exact ih
  | case7 depth b rest _ _ ih => exact (Nat.le_succ _).trans ih
  | case8 depth b rest _ _ _ ih => exact le_max_left _ _
  | case9 depth b rest _ _ _ ih => exact ih

/-- A byte that neither starts a string nor is a bracket. -/
def Plain (b : UInt8) : Prop := b ≠ 0x22 ∧ ¬ (b = 0x7B ∨ b = 0x5B) ∧ ¬ (b = 0x7D ∨ b = 0x5D)

instance (b : UInt8) : Decidable (Plain b) := inferInstanceAs (Decidable (_ ∧ _ ∧ _))

theorem deepest_plain (hw : ∀ b ∈ w, Plain b) (depth : Nat) (t : List UInt8) :
    deepest .outside depth (w ++ t) = deepest .outside depth t := by
  induction w with
  | nil => rfl
  | cons b w ih =>
    obtain ⟨hquote, hopen, hclose⟩ := hw b List.mem_cons_self
    rw [List.cons_append, deepest, if_neg hquote, if_neg hopen, if_neg hclose,
      ih fun b hb => hw b (List.mem_cons_of_mem _ hb)]

theorem plain_of_isWs (h : isWs b) : Plain b := by
  simp only [isWs, Bool.or_eq_true, beq_iff_eq] at h
  obtain ((rfl | rfl) | rfl) | rfl := h <;> decide

theorem deepest_ws (hw : w ∈ ws) (depth : Nat) (t : List UInt8) :
    deepest .outside depth (w ++ t) = deepest .outside depth t :=
  deepest_plain (fun b hb => plain_of_isWs (hw b hb)) depth t

/-- Bytes of a string that are neither a quote nor a backslash. -/
theorem deepest_inString (hw : ∀ b ∈ w, b ≠ 0x22 ∧ b ≠ 0x5C) (depth : Nat) (t : List UInt8) :
    deepest .inString depth (w ++ t) = deepest .inString depth t := by
  induction w with
  | nil => rfl
  | cons b w ih =>
    obtain ⟨hquote, hslash⟩ := hw b List.mem_cons_self
    rw [List.cons_append, deepest, if_neg hquote, if_neg hslash,
      ih fun b hb => hw b (List.mem_cons_of_mem _ hb)]

theorem isHexdig_plain (h : isHexdig b) : b ≠ 0x22 ∧ b ≠ 0x5C := by
  constructor <;> rintro rfl <;> exact absurd h (by decide)

/-- An unescaped character has no byte that looks like a quote or a backslash. -/
theorem unescaped_bytes (hw : w ∈ unescaped) : ∀ b ∈ w, b ≠ 0x22 ∧ b ≠ 0x5C := by
  obtain ⟨c, ⟨_, hquote, hslash⟩, rfl⟩ := hw
  intro b hb
  by_cases hascii : c.toNat < 0x80
  · rw [Utf8.encode_ascii hascii, List.mem_singleton] at hb
    have hc (n : Nat) (hn : n < 0x80) (hb : UInt8.ofNat c.toNat = UInt8.ofNat n) :
        c = Char.ofNat n := by
      have := congrArg UInt8.toNat hb
      rw [UInt8.toNat_ofNat', UInt8.toNat_ofNat', Nat.mod_eq_of_lt (by omega),
        Nat.mod_eq_of_lt (by omega)] at this
      rw [← this, Char.ofNat_toNat]
    refine ⟨fun h => hquote (hc 0x22 (by omega) (hb ▸ h)), fun h => hslash (hc 0x5C (by omega)
      (hb ▸ h))⟩
  · have := (Utf8.encode_high (by omega)).2 b hb
    constructor <;> rintro rfl <;> exact absurd this (by decide)

theorem deepest_char (hw : w ∈ char) (depth : Nat) (t : List UInt8) :
    deepest .inString depth (w ++ t) = deepest .inString depth t := by
  obtain (hw | ⟨b, _, rfl⟩) | ⟨hex, _, hhex, rfl⟩ := hw
  · exact deepest_inString (unescaped_bytes hw) depth t
  · rfl
  · have hplain : ∀ b ∈ hex, b ≠ 0x22 ∧ b ≠ 0x5C := fun b hb => isHexdig_plain (hhex b hb)
    exact deepest_inString hplain depth t

theorem deepest_string (hw : w ∈ string) (depth : Nat) (t : List UInt8) :
    deepest .outside depth (w ++ t) = deepest .outside depth t := by
  obtain ⟨_, ⟨_, rfl, chars, hchars, rfl⟩, _, rfl, rfl⟩ := hw
  obtain ⟨parts, rfl, hparts⟩ := Language.mem_kstar.mp hchars
  have hinside : ∀ t, deepest .inString depth (parts.flatten ++ t) =
      deepest .inString depth t := by
    clear hchars
    induction parts with
    | nil => exact fun _ => rfl
    | cons part parts ih =>
      intro t
      rw [List.flatten_cons, List.append_assoc, deepest_char (hparts part List.mem_cons_self),
        ih fun y hy => hparts y (List.mem_cons_of_mem _ hy)]
  simp only [List.append_assoc, List.nil_append, List.cons_append]
  rw [deepest, if_pos rfl, hinside, deepest, if_pos rfl]

/-! ### Values are balanced -/

/-- Words after which as many containers are open as before. -/
def Balanced (language : Language UInt8) : Prop :=
  ∀ w ∈ language, ∀ depth t, deepest .outside depth t ≤ deepest .outside depth (w ++ t)

theorem Balanced.mul {m : Language UInt8} (hl : Balanced l) (hm : Balanced m) :
    Balanced (l * m) := by
  rintro _ ⟨a, ha, b, hb, rfl⟩ depth t
  simp only [List.append_assoc]
  exact (hm b hb depth t).trans (hl a ha depth (b ++ t))

theorem Balanced.kstar (hl : Balanced l) : Balanced l∗ := by
  rintro w hw depth t
  obtain ⟨parts, rfl, hparts⟩ := Language.mem_kstar.mp hw
  clear hw
  induction parts with
  | nil => exact le_rfl
  | cons part parts ih =>
    rw [List.flatten_cons, List.append_assoc]
    exact (ih fun y hy => hparts y (List.mem_cons_of_mem _ hy)).trans
      (hl part (hparts part List.mem_cons_self) depth _)

theorem balanced_plain (h : ∀ w ∈ l, ∀ b ∈ w, Plain b) : Balanced l :=
  fun w hw depth t => (deepest_plain (h w hw) depth t).ge

theorem balanced_string : Balanced string := fun _ hw depth t => (deepest_string hw depth t).ge

theorem plain_token (hb : Plain b) : ∀ w ∈ ws * one b * ws, ∀ d ∈ w, Plain d := by
  intro w hw d hd
  obtain ⟨before, hbefore, after, hafter, rfl⟩ := mem_token.mp hw
  obtain hd | hd := List.mem_append.mp hd
  · exact plain_of_isWs (hbefore d hd)
  obtain rfl | hd := List.mem_cons.mp hd
  · exact hb
  · exact plain_of_isWs (hafter d hd)

theorem Balanced.separated (h : Balanced item) : Balanced (separated item) :=
  h.mul ((balanced_plain (plain_token (by decide))).mul h).kstar

/-- A container adds one to the depth of what is inside. -/
theorem Balanced.container (h : Balanced item) {o c : UInt8} (ho : o = 0x7B ∨ o = 0x5B)
    (hc : c = 0x7D ∨ c = 0x5D) :
    Balanced (ws * one o * ws * (1 + JsonGrammar.separated item) * (ws * one c * ws)) := by
  rintro _ ⟨_, ⟨start, hstart, inner, hinner, rfl⟩, stop, hstop, rfl⟩ depth t
  obtain ⟨before, hbefore, after, hafter, rfl⟩ := mem_token.mp hstart
  obtain ⟨before', hbefore', after', hafter', rfl⟩ := mem_token.mp hstop
  simp only [List.append_assoc, List.cons_append]
  have hbody : ∀ tail, deepest .outside (depth + 1) tail ≤
      deepest .outside (depth + 1) (inner ++ tail) := by
    intro tail
    obtain hinner | hinner := (Language.mem_add _ _ _).mp hinner
    · rw [(Language.mem_one inner).mp hinner, List.nil_append]
    · exact h.separated inner hinner (depth + 1) tail
  have hopen : ¬ o = 0x22 := by obtain rfl | rfl := ho <;> decide
  have hclose : ¬ c = 0x22 ∧ ¬ (c = 0x7B ∨ c = 0x5B) := by obtain rfl | rfl := hc <;> decide
  rw [deepest_ws hbefore, deepest, if_neg hopen, if_pos ho, deepest_ws hafter]
  refine le_trans ?_ (hbody _)
  rw [deepest_ws hbefore', deepest, if_neg hclose.1, if_neg hclose.2, if_pos hc,
    Nat.add_sub_cancel, deepest_ws hafter']
  exact le_max_right _ _

theorem isDigit_plain (h : isDigit b) : Plain b := by
  refine ⟨?_, ?_, ?_⟩
  · rintro rfl
    exact absurd h (by decide)
  · rintro (rfl | rfl) <;> exact absurd h (by decide)
  · rintro (rfl | rfl) <;> exact absurd h (by decide)

theorem balanced_one (h : Plain b) : Balanced (one b) :=
  balanced_plain fun w hw d hd => by
    rw [mem_one.mp hw, List.mem_singleton] at hd
    exact hd ▸ h

theorem balanced_add {m : Language UInt8} (hl : Balanced l) (hm : Balanced m) :
    Balanced (l + m) := by
  intro w hw
  obtain hw | hw := (Language.mem_add _ _ _).mp hw
  · exact hl w hw
  · exact hm w hw

theorem balanced_empty : Balanced 1 := by
  intro w hw depth t
  rw [(Language.mem_one w).mp hw, List.nil_append]

theorem balanced_number : Balanced number := by
  have hdigits : Balanced digits := balanced_plain fun w hw b hb => isDigit_plain (hw b hb)
  have hdigits1 : Balanced digits1 := balanced_plain fun w hw b hb => isDigit_plain (hw.2 b hb)
  have hdigit19 : Balanced digit19 := by
    refine balanced_plain fun w hw b hb => ?_
    obtain ⟨d, hd, rfl⟩ := hw
    rw [List.mem_singleton] at hb
    refine isDigit_plain ?_
    simp only [isDigit, Bool.and_eq_true, decide_eq_true_eq, hb]
    exact ⟨UInt8.le_trans (by decide) hd.1, hd.2⟩
  have hint : Balanced int := balanced_add (balanced_one (by decide)) (hdigit19.mul hdigits)
  have hfrac : Balanced frac := (balanced_one (by decide)).mul hdigits1
  have hexponent : Balanced exponent :=
    ((balanced_add (balanced_one (by decide)) (balanced_one (by decide))).mul
      (balanced_add balanced_empty (balanced_add (balanced_one (by decide))
        (balanced_one (by decide))))).mul hdigits1
  exact (((balanced_add balanced_empty (balanced_one (by decide))).mul hint).mul
    (balanced_add balanced_empty hfrac)).mul (balanced_add balanced_empty hexponent)

theorem balanced_scalar : Balanced scalar := by
  refine balanced_add (balanced_add (balanced_plain ?_) balanced_number) balanced_string
  have hplain : ∀ w ∈ literals, ∀ b ∈ w, Plain b := by decide +kernel
  exact hplain

theorem balanced_valueAt (n : Nat) : Balanced (valueAt n) := by
  induction n with
  | zero => exact fun w hw => absurd hw (Language.notMem_zero w)
  | succ n ih =>
    refine balanced_add (balanced_add balanced_scalar ?_) ?_
    · exact ih.container (by decide) (by decide)
    · have hmember : Balanced (member (valueAt n)) :=
        (balanced_string.mul (balanced_plain (plain_token (by decide)))).mul ih
      exact hmember.container (by decide) (by decide)

/-- After a value as many containers are open as before it. -/
theorem balanced_value : Balanced value := by
  rintro w ⟨n, hn⟩
  exact balanced_valueAt n w hn

end Streamweld.Lib.JsonGrammar
