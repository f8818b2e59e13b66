import Streamweld.Migrate.JsonPrefix
import Streamweld.Lib.JsonGrammar

/-!
# The prefix parser against the JSON grammar

The parsing methods of `Streamweld.Migrate.JsonPrefix` are compared with the
languages of `Streamweld.Lib.JsonGrammar`:

* `Sound`: what a method completes is a word of its language, and what it
  leaves incomplete can be extended to one;
* `Covers`: in front of a byte that does not continue a number, a method
  completes every word of its language.

The two meet at the nesting limit.  A parser with more levels gives the same
answer on data whose containers do not nest deeper than the levels
(`parseValue_levels`), so a text of any depth is covered by a parser with
enough levels, and the answer on a flat prefix of it is the one of the source.
-/

namespace Streamweld.Migrate.JsonPrefix

open Streamweld.Lib Streamweld.Lib.JsonGrammar
open Computability

variable {b close : UInt8} {language : Language UInt8} {word t : List UInt8} {item : Parser}
  {w data : List UInt8}

/-! ## Soundness -/

/-- The answer `scan` about `data` and the words of a language. -/
structure SoundAt (scan : Scan) (data : List UInt8) (language : Language UInt8) : Prop where
  complete : scan.status = .complete → ∃ w ∈ language, data = w ++ scan.rest
  incomplete : scan.status = .incomplete → ∃ more, data ++ more ∈ language

/-- The answers of a method are about the words of a language. -/
def Sound (parse : List UInt8 → Scan) (language : Language UInt8) : Prop :=
  ∀ data, SoundAt (parse data) data language

namespace SoundAt

variable {scan : Scan} {rest : List UInt8} {l m : Language UInt8}

theorem of_invalid : SoundAt ⟨rest, .invalid⟩ data l := ⟨nofun, nofun⟩

theorem of_complete (h : w ∈ l) : SoundAt ⟨rest, .complete⟩ (w ++ rest) l :=
  ⟨fun _ => ⟨w, h, rfl⟩, nofun⟩

theorem of_incomplete (more : List UInt8) (h : data ++ more ∈ l) : SoundAt ⟨rest, .incomplete⟩ data l :=
  ⟨nofun, fun _ => ⟨more, h⟩⟩

theorem mono (h : SoundAt scan data l) (hle : l ≤ m) : SoundAt scan data m where
  complete hdata := by
    obtain ⟨w, hw, heq⟩ := h.complete hdata
    exact ⟨w, hle hw, heq⟩
  incomplete hdata := by
    obtain ⟨more, hmore⟩ := h.incomplete hdata
    exact ⟨more, hle hmore⟩

/-- A word that was consumed in front. -/
theorem prepend (h : SoundAt scan data l) (hw : w ∈ m) : SoundAt scan (w ++ data) (m * l) where
  complete hdata := by
    obtain ⟨v, hv, heq⟩ := h.complete hdata
    exact ⟨w ++ v, Language.append_mem_mul hw hv, by rw [List.append_assoc, ← heq]⟩
  incomplete hdata := by
    obtain ⟨more, hmore⟩ := h.incomplete hdata
    exact ⟨more, by rw [List.append_assoc]; exact Language.append_mem_mul hw hmore⟩

end SoundAt

theorem skipWhitespace_split (data : List UInt8) :
    ∃ w ∈ ws, data = w ++ skipWhitespace data :=
  ⟨data.takeWhile isWhitespace, fun _ hb => List.mem_takeWhile_imp hb,
    List.takeWhile_append_dropWhile.symm⟩

theorem mem_ws_of_skipWhitespace (h : skipWhitespace data = []) : data ∈ ws := by
  obtain ⟨w, hw, heq⟩ := skipWhitespace_split data
  rw [h, List.append_nil] at heq
  exact heq ▸ hw

/-! ### Literals and numbers -/

theorem parseLiteral_sound (literal : List UInt8) : Sound (parseLiteral literal) {literal} := by
  intro data
  fun_induction parseLiteral literal data with
  | case1 rest => exact .of_complete (w := []) rfl
  | case2 l literal => exact .of_incomplete (l :: literal) rfl
  | case3 literal b rest ih =>
    refine (ih.prepend (w := [b]) (m := {[b]}) rfl).mono ?_
    rintro _ ⟨_, rfl, _, rfl, rfl⟩
    rfl
  | case4 => exact .of_invalid

theorem digits1_cons (hb : isDigit b) (hw : w ∈ digits) :
    b :: w ∈ digits1 :=
  ⟨List.cons_ne_nil b w, List.forall_mem_cons.mpr ⟨hb, hw⟩⟩

/-- The digits in front, at least the first byte. -/
theorem skipDigits_split (hb : isDigit b) (rest : List UInt8) :
    ∃ w ∈ digits, b :: rest = b :: w ++ skipDigits (b :: rest) := by
  refine ⟨rest.takeWhile isDigit, fun _ h => List.mem_takeWhile_imp h, ?_⟩
  rw [skipDigits, List.dropWhile_cons_of_pos hb, List.cons_append,
    List.takeWhile_append_dropWhile]

theorem requireDigits_sound {andThen : List UInt8 → Scan} (h : Sound andThen language)
    (hword : word ∈ language) :
    Sound (requireDigits andThen) (digits1 * language) := by
  intro data
  fun_cases requireDigits andThen data with
  | case1 =>
    have hzero : [0x30] ∈ digits1 := digits1_cons (by decide) (List.forall_mem_nil _)
    refine .of_incomplete ([0x30] ++ word) ?_
    rw [List.nil_append]
    exact Language.append_mem_mul hzero hword
  | case2 b rest hb =>
    obtain ⟨w, hw, heq⟩ := skipDigits_split hb rest
    conv => arg 2; rw [heq]
    exact (h _).prepend (digits1_cons hb hw)
  | case3 => exact .of_invalid

theorem done_sound : Sound (fun rest => ⟨rest, .complete⟩) 1 :=
  fun _ => .of_complete (w := []) Language.nil_mem_one

theorem requireDigits_done_sound :
    Sound (requireDigits fun rest => ⟨rest, .complete⟩) digits1 := by
  have := requireDigits_sound done_sound Language.nil_mem_one
  rwa [mul_one] at this

theorem parseExponent_sound : Sound parseExponent (1 + exponent) := by
  have hnone {w : List UInt8} (h : w ∈ (1 : Language UInt8)) : w ∈ 1 + exponent :=
    Or.inl h
  have he {b : UInt8} (hb : b = 0x65 ∨ b = 0x45) :
      [b] ∈ one 0x65 + one 0x45 := by
    obtain rfl | rfl := hb
    · exact Or.inl rfl
    · exact Or.inr rfl
  intro data
  fun_cases parseExponent data with
  | case1 => exact .of_complete (w := []) (hnone Language.nil_mem_one)
  | case2 b hb =>
    refine .of_incomplete [0x30] (Or.inr ?_)
    exact Language.append_mem_mul (Language.append_mem_mul (he hb) (b := []) (Or.inl rfl))
      (digits1_cons (by decide) (List.forall_mem_nil _))
  | case3 b hb sign after hsign =>
    have hs : [sign] ∈ 1 + (minus + one 0x2B) := by
      obtain rfl | rfl := hsign
      · exact Or.inr (Or.inr rfl)
      · exact Or.inr (Or.inl rfl)
    refine ((requireDigits_done_sound after).prepend (Language.append_mem_mul (he hb) hs)).mono ?_
    exact fun _ h => Or.inr h
  | case4 b hb sign after hsign =>
    have hnosign : [] ∈ 1 + (minus + one 0x2B) :=
      Or.inl Language.nil_mem_one
    refine ((requireDigits_done_sound (sign :: after)).prepend
      (Language.append_mem_mul (he hb) hnosign)).mono ?_
    exact fun _ h => Or.inr h
  | case5 b rest hb => exact .of_complete (w := []) (hnone Language.nil_mem_one)

/-- What may follow the integer part of a number. -/
theorem parseFraction_sound :
    Sound parseFraction ((1 + frac) * (1 + exponent)) := by
  have hnil : ([] : List UInt8) ∈ 1 + exponent := Or.inl Language.nil_mem_one
  have hnofrac : ([] : List UInt8) ∈ 1 + frac := Or.inl Language.nil_mem_one
  intro data
  fun_cases parseFraction data with
  | case1 => exact (parseExponent_sound []).prepend hnofrac
  | case2 rest =>
    refine ((requireDigits_sound parseExponent_sound hnil rest).prepend
      (w := [0x2E]) (m := one 0x2E) rfl).mono ?_
    rw [← mul_assoc]
    exact mul_le_mul' (fun _ h => Or.inr h) le_rfl
  | case3 b rest hb => exact (parseExponent_sound (b :: rest)).prepend hnofrac

theorem digit19_of_range (hrange : ¬ (b < 0x31 ∨ 0x39 < b)) :
    isDigit b = true ∧ [b] ∈ digit19 := by
  obtain ⟨hlow, hhigh⟩ := not_or.mp hrange
  rw [UInt8.not_lt] at hlow hhigh
  refine ⟨?_, b, ⟨hlow, hhigh⟩, rfl⟩
  simp only [isDigit, Bool.and_eq_true, decide_eq_true_eq]
  exact ⟨UInt8.le_trans (by decide) hlow, hhigh⟩

theorem parseInteger_sound :
    Sound parseInteger
      (int * ((1 + frac) * (1 + exponent))) := by
  have hzero : [0x30] ∈ int := Or.inl rfl
  have hnil : ([] : List UInt8) ∈ (1 + frac) * (1 + exponent) :=
    ⟨[], Or.inl Language.nil_mem_one, [], Or.inl Language.nil_mem_one, rfl⟩
  intro data
  fun_cases parseInteger data with
  | case1 =>
    refine .of_incomplete ([0x30] ++ []) ?_
    rw [List.nil_append]
    exact Language.append_mem_mul hzero hnil
  | case2 rest => exact (parseFraction_sound rest).prepend hzero
  | case3 => exact .of_invalid
  | case4 b rest hzero hrange =>
    obtain ⟨hb, hb19⟩ := digit19_of_range hrange
    obtain ⟨w, hw, heq⟩ := skipDigits_split hb rest
    conv => arg 2; rw [heq]
    exact (parseFraction_sound _).prepend (Or.inr (Language.append_mem_mul hb19 hw))

theorem parseNumber_sound : Sound parseNumber number := by
  have hnumber : number = (1 + minus) * (int *
      ((1 + frac) * (1 + exponent))) := by
    rw [number, mul_assoc, mul_assoc]
  have hunsigned : ([] : List UInt8) ∈ 1 + minus := Or.inl Language.nil_mem_one
  intro data
  rw [hnumber]
  fun_cases parseNumber data with
  | case1 => exact (parseInteger_sound []).prepend hunsigned
  | case2 rest => exact (parseInteger_sound rest).prepend (w := [0x2D]) (Or.inr rfl)
  | case3 b rest hb => exact (parseInteger_sound (b :: rest)).prepend hunsigned

/-! ### Strings -/

theorem parseHex_sound (n : Nat) :
    Sound (parseHex n) {hex | hex.length = n ∧ ∀ b ∈ hex, isHexdig b} := by
  intro data
  fun_induction parseHex n data with
  | case1 rest => exact .of_complete (w := []) ⟨rfl, List.forall_mem_nil _⟩
  | case2 n =>
    refine .of_incomplete (List.replicate (n + 1) 0x30) ⟨by simp, ?_⟩
    intro b hb
    rw [List.eq_of_mem_replicate hb]
    decide
  | case3 n b rest hb ih =>
    refine (ih.prepend (w := [b]) (m := {[b]}) rfl).mono ?_
    rintro _ ⟨_, rfl, hex, ⟨hlen, hhex⟩, rfl⟩
    exact ⟨by simpa using hlen, List.forall_mem_cons.mpr ⟨hb, hhex⟩⟩
  | case4 => exact .of_invalid

/-- One more character in front. -/
theorem char_mul_le :
    char * (char∗ * one 0x22) ≤
      char∗ * one 0x22 := by
  rw [← mul_assoc]
  exact mul_le_mul' mul_kstar_le_kstar le_rfl

theorem char_ascii (hquote : b ≠ 0x22) (hslash : b ≠ 0x5C) (hcontrol : ¬ b < 0x20)
    (hascii : b < 0x80) : [b] ∈ char := by
  have hb : b.toNat < 0x80 := UInt8.lt_iff_toNat_lt.mp hascii
  have hb' : ¬ b.toNat < 0x20 := fun h => hcontrol (UInt8.lt_iff_toNat_lt.mpr h)
  have hchar : (Char.ofNat b.toNat).toNat = b.toNat :=
    Utf8.toNat_ofNat_of_valid (Or.inl (by omega))
  have hne {n : UInt8} (hn : b ≠ n) : (Char.ofNat b.toNat).toNat ≠ n.toNat := by
    rw [hchar]
    exact fun h => hn (UInt8.toNat_inj.mp h)
  refine Or.inl (Or.inl ⟨Char.ofNat b.toNat, ⟨by omega, ?_, ?_⟩, (Utf8.encode_one hb).symm⟩)
  · exact fun h => hne hquote (by rw [h]; rfl)
  · exact fun h => hne hslash (by rw [h]; rfl)

theorem char_high {c : Char} (h : 0x80 ≤ c.toNat) : String.utf8EncodeChar c ∈ char := by
  refine Or.inl (Or.inl ⟨c, ⟨by omega, ?_, ?_⟩, rfl⟩)
  · rintro rfl
    exact absurd h (by decide)
  · rintro rfl
    exact absurd h (by decide)

/-- A character whose first byte is outside ASCII is outside ASCII. -/
theorem high_of_first_byte {c : Char} {rest after : List UInt8}
    (heq : b :: rest = String.utf8EncodeChar c ++ after) (hb : ¬ b < 0x80) : 0x80 ≤ c.toNat := by
  by_contra hlow
  rw [Utf8.encode_ascii (by omega), List.singleton_append] at heq
  obtain ⟨rfl, _⟩ := List.cons.inj heq
  apply hb
  rw [UInt8.lt_iff_toNat_lt, UInt8.toNat_ofNat']
  exact lt_of_le_of_lt (Nat.mod_le _ _) (by simpa using hlow)

theorem parseCharacters_sound :
    Sound parseCharacters (char∗ * one 0x22) := by
  have hclose : [0x22] ∈ char∗ * one 0x22 :=
    Language.append_mem_mul (a := []) (Language.nil_mem_kstar _) rfl
  have hcons {w v : List UInt8} (hw : w ∈ char)
      (hv : v ∈ char∗ * one 0x22) :
      w ++ v ∈ char∗ * one 0x22 :=
    char_mul_le (Language.append_mem_mul hw hv)
  intro data
  fun_induction parseCharacters data with
  | case1 => exact .of_incomplete [0x22] hclose
  | case2 rest => exact .of_complete (w := [0x22]) hclose
  | case3 =>
    refine .of_incomplete [0x6E, 0x22] ?_
    exact hcons (w := [0x5C, 0x6E]) (Or.inl (Or.inr ⟨0x6E, by decide, rfl⟩)) hclose
  | case4 after hhex _ _ ih =>
    obtain ⟨hex, ⟨hlen, hdigits⟩, heq⟩ := (parseHex_sound 4 after).complete hhex
    have hchar : 0x5C :: 0x75 :: hex ∈ char := Or.inr ⟨hex, hlen, hdigits, rfl⟩
    conv => arg 2; rw [heq]
    exact (ih.prepend hchar).mono char_mul_le
  | case5 after hhex _ =>
    refine ⟨fun h => absurd h hhex, fun h => ?_⟩
    obtain ⟨more, hlen, hdigits⟩ := (parseHex_sound 4 after).incomplete h
    have hchar : 0x5C :: 0x75 :: (after ++ more) ∈ char :=
      Or.inr ⟨_, hlen, hdigits, rfl⟩
    refine ⟨more ++ [0x22], ?_⟩
    have := hcons hchar hclose
    simpa using this
  | case6 escape after hu hsimple _ ih =>
    have hchar : [0x5C, escape] ∈ char := Or.inl (Or.inr ⟨escape, hsimple, rfl⟩)
    exact (ih.prepend hchar).mono char_mul_le
  | case7 => exact .of_invalid
  | case8 => exact .of_invalid
  | case9 b rest hquote hslash hcontrol hascii ih =>
    exact (ih.prepend (char_ascii hquote hslash hcontrol hascii)).mono char_mul_le
  | case10 => exact .of_invalid
  | case11 b rest hquote hslash hcontrol hascii hsize hfull =>
    -- the data ends inside a character
    have hshort : Utf8.decode (b :: rest) = .short := by simpa [fullRune] using hfull
    obtain ⟨more, c, heq⟩ := Utf8.decode_short hshort
    refine .of_incomplete (more ++ [0x22]) ?_
    rw [← List.append_assoc, heq]
    refine hcons (char_high (@high_of_first_byte _ _ (rest ++ more) [] ?_ hascii)) hclose
    rw [List.append_nil, ← heq, List.cons_append]
  | case12 b rest hquote hslash hcontrol hascii hsize ih =>
    obtain ⟨c, after, heq, _, hdrop, _⟩ := decodeRune_ne_one hsize
    rw [hdrop] at ih ⊢
    conv => arg 2; rw [heq]
    exact (ih.prepend (char_high (high_of_first_byte heq hascii))).mono char_mul_le

theorem parseString_sound (rest : List UInt8) :
    SoundAt (parseString (0x22 :: rest)) (0x22 :: rest) string := by
  have := (parseCharacters_sound rest).prepend (w := [0x22]) (m := one 0x22) rfl
  rwa [← mul_assoc] at this

/-! ### Containers -/

/-- A structural byte with blanks around it. -/
def token (b : UInt8) : Language UInt8 := ws * one b * ws

theorem mem_token_after (hw : w ∈ ws) : w ++ [b] ∈ token b :=
  mem_token.mpr ⟨w, hw, [], nil_mem_ws, rfl⟩

/-- What may follow an item in its container. -/
def following (item : Language UInt8) (close : UInt8) : Language UInt8 :=
  token close + valueSeparator * (separated item * token close)

theorem item_mul_following (item : Language UInt8) (close : UInt8) :
    item * following item close = separated item * token close := by
  conv_rhs => rw [separated_eq]
  rw [following, mul_add, add_mul, mul_assoc, mul_assoc]

theorem afterItem_done_sound {item : Language UInt8} (hword : word ∈ item) {scan : Scan}
    (h : afterItem close data = .done scan) : SoundAt scan data (following item close) := by
  have hend {w : List UInt8} (hw : w ∈ ws) : w ++ [close] ∈ following item close :=
    Or.inl (mem_token_after hw)
  obtain ⟨w, hw, heq⟩ := skipWhitespace_split data
  revert h
  fun_cases afterItem close data with
  | case1 hskip =>
    rintro ⟨⟩
    refine .of_incomplete [close] ?_
    rw [heq, hskip, List.append_nil]
    exact hend hw
  | case2 rest hskip =>
    rintro ⟨⟩
    have : SoundAt ⟨rest, .complete⟩ _ _ := .of_complete (hend hw)
    rwa [List.append_assoc, List.singleton_append, ← hskip, ← heq] at this
  | case3 rest hskip' hskip =>
    rintro ⟨⟩
    -- the comma must be followed by another item
    refine .of_incomplete (word ++ [close]) (Or.inr ?_)
    rw [heq, hskip]
    refine Language.append_mem_mul (mem_token.mpr
      ⟨w, hw, rest, mem_ws_of_skipWhitespace hskip', rfl⟩) ?_
    exact Language.append_mem_mul (mem_separated_of_item hword) (mem_token_after nil_mem_ws)
  | case4 | case6 =>
    rintro ⟨⟩
    exact .of_invalid
  | case5 => rintro ⟨⟩

theorem afterItem_next_split {next : List UInt8} (h : afterItem close data = .next next) :
    ∃ s ∈ valueSeparator, data = s ++ next := by
  obtain ⟨w, hw, heq⟩ := skipWhitespace_split data
  revert h
  fun_cases afterItem close data with
  | case5 rest b after hskip' _ hskip =>
    rintro ⟨⟩
    obtain ⟨w', hw', heq'⟩ := skipWhitespace_split rest
    refine ⟨w ++ 0x2C :: w', mem_token.mpr ⟨w, hw, w', hw', rfl⟩, ?_⟩
    rw [heq, hskip, heq', hskip']
    simp
  | case1 | case2 | case3 | case4 | case6 => rintro ⟨⟩

theorem parseItems_sound (hitem : Sound item.run (ws * language)) (close : UInt8) :
    Sound (parseItems item close)
      (ws * (separated language * token close)) := by
  have hle : ws * language * following language close =
      ws * (separated language * token close) := by
    rw [mul_assoc, item_mul_following]
  intro data
  rw [← hle]
  fun_induction parseItems item close data with
  | case1 rest hcomplete scan hdone =>
    obtain ⟨w, hw, heq⟩ := (hitem rest).complete hcomplete
    obtain ⟨_, _, word, hword, _⟩ := Language.mem_mul.mp hw
    conv => arg 2; rw [heq]
    exact (afterItem_done_sound hword hdone).prepend hw
  | case2 rest hcomplete next hnext _ _ ih =>
    obtain ⟨w, hw, heq⟩ := (hitem rest).complete hcomplete
    obtain ⟨s, hs, heq'⟩ := afterItem_next_split hnext
    conv => arg 2; rw [heq, heq']
    refine ((ih.prepend hs).prepend hw).mono (mul_le_mul' le_rfl ?_)
    -- the blanks in front of the next item belong to the separator
    refine le_trans ?_ (show valueSeparator * _ ≤ following language close from
      fun _ h => Or.inr h)
    rw [hle, ← mul_assoc, valueSeparator, mul_assoc (ws * _)]
    exact mul_le_mul' (mul_le_mul' le_rfl ws_mul_ws) le_rfl
  | case3 rest hcomplete =>
    refine ⟨fun h => absurd h hcomplete, fun h => ?_⟩
    obtain ⟨more, hmore⟩ := (hitem rest).incomplete h
    refine ⟨more ++ [close], ?_⟩
    rw [← List.append_assoc]
    exact Language.append_mem_mul hmore (Or.inl (mem_token_after nil_mem_ws))

theorem parseContainer_sound (hitem : Sound item.run (ws * language))
    (start close : UInt8) (rest : List UInt8) :
    SoundAt (parseContainer item close (start :: rest)) (start :: rest)
      (token start * (1 + separated language) * token close) := by
  have hstart {w : List UInt8} (hw : w ∈ ws) : start :: w ∈ token start :=
    mem_token.mpr ⟨[], nil_mem_ws, w, hw, rfl⟩
  have hempty {w : List UInt8} (hw : w ∈ ws) : start :: w ++ [close] ∈
      token start * (1 + separated language) * token close :=
    Language.append_mem_mul (a := start :: w) (by
      have := Language.append_mem_mul (m := 1 + separated language) (hstart hw)
        (Or.inl Language.nil_mem_one)
      rwa [List.append_nil] at this) (mem_token_after nil_mem_ws)
  obtain ⟨w, hw, heq⟩ := skipWhitespace_split rest
  unfold parseContainer
  rw [List.tail_cons]
  cases hskip : skipWhitespace rest with
  | nil =>
    refine .of_incomplete [close] ?_
    rw [heq, hskip, List.append_nil]
    exact hempty hw
  | cons b after =>
    rw [hskip] at heq
    dsimp only
    by_cases hclose : b = close
    · subst hclose
      rw [if_pos rfl]
      have : SoundAt ⟨after, .complete⟩ _ _ := .of_complete (hempty hw)
      rwa [List.append_assoc, List.singleton_append, List.cons_append, ← heq] at this
    · rw [if_neg hclose]
      conv => arg 2; rw [heq, ← List.cons_append]
      refine ((parseItems_sound hitem close (b :: after)).prepend (m := token start)
        (hstart hw)).mono ?_
      rw [← mul_assoc, ← mul_assoc, token, mul_assoc (ws * _)]
      exact mul_le_mul' (mul_le_mul' (mul_le_mul' le_rfl ws_mul_ws)
        (fun _ h => Or.inr h)) le_rfl

theorem parseMember_sound {value : Parser} (hvalue : Sound value.run (ws * language))
    (hword : word ∈ language) : Sound (parseMember value) (member language) := by
  have hrest : [0x3A] ++ word ∈ nameSeparator * language :=
    Language.append_mem_mul (mem_token_after nil_mem_ws) hword
  have hmember {w v : List UInt8} (hw : w ∈ string)
      (hv : v ∈ nameSeparator * language) : w ++ v ∈ member language := by
    rw [member, mul_assoc]
    exact Language.append_mem_mul hw hv
  intro data
  fun_cases parseMember value data with
  | case1 =>
    have hstring : [0x22, 0x22] ∈ string :=
      Language.append_mem_mul (a := [0x22]) (b := [0x22])
        (Language.append_mem_mul (a := [0x22]) (b := []) rfl (Language.nil_mem_kstar _)) rfl
    exact .of_incomplete ([0x22, 0x22] ++ ([0x3A] ++ word)) (hmember (w := [0x22, 0x22]) hstring hrest)
  | case2 rest hkey hskip =>
    obtain ⟨w, hw, heq⟩ := (parseString_sound rest).complete hkey
    refine .of_incomplete ([0x3A] ++ word) ?_
    rw [heq, List.append_assoc]
    refine hmember hw ?_
    rw [← List.append_assoc]
    exact Language.append_mem_mul (mem_token_after (mem_ws_of_skipWhitespace hskip)) hword
  | case3 rest after hkey hcolon =>
    obtain ⟨w, hw, heq⟩ := (parseString_sound rest).complete hkey
    obtain ⟨blank, hblank, hsplit⟩ := skipWhitespace_split (parseString (0x22 :: rest)).rest
    rw [hcolon] at hsplit
    have hcolon' : blank ++ [0x3A] ∈ ws * one 0x3A :=
      Language.append_mem_mul hblank rfl
    have := ((hvalue after).prepend hcolon').prepend hw
    rw [List.append_assoc, List.singleton_append, ← hsplit, ← heq] at this
    refine this.mono (le_of_eq ?_)
    simp only [member, nameSeparator, mul_assoc]
  | case4 => exact .of_invalid
  | case5 rest hkey =>
    refine ⟨fun h => absurd h hkey, fun h => ?_⟩
    obtain ⟨more, hmore⟩ := (parseString_sound rest).incomplete h
    refine ⟨more ++ ([0x3A] ++ word), ?_⟩
    rw [← List.append_assoc]
    exact hmember hmore hrest
  | case6 => exact .of_invalid

/-! ### Values -/

theorem zero_mem_value : [0x30] ∈ value := by
  refine scalar_le_value (Or.inl (Or.inr ?_))
  have hint : [0x30] ∈ int := Or.inl rfl
  exact ⟨[0x30], ⟨[0x30], ⟨[], Or.inl rfl, [0x30], hint, rfl⟩, [], Or.inl rfl, rfl⟩, [],
    Or.inl rfl, rfl⟩

theorem parseValueBody_sound {nested : Parser}
    (h : Sound nested.run (ws * value)) :
    Sound (parseValueBody nested) value := by
  have hliteral {literal data : List UInt8} (hl : literal ∈ literals) :
      SoundAt (parseLiteral literal data) data value := by
    refine (parseLiteral_sound literal data).mono ?_
    rintro _ rfl
    exact scalar_le_value (Or.inl (Or.inl hl))
  intro data
  fun_cases parseValueBody nested data with
  | case1 => exact .of_incomplete [0x30] zero_mem_value
  | case2 rest =>
    have hmember : Sound (memberParser nested).run
        (ws * member value) := fun data =>
      (parseMember_sound h zero_mem_value data).prepend (w := []) nil_mem_ws
    exact (parseContainer_sound hmember 0x7B 0x7D rest).mono object_le_value
  | case3 rest => exact (parseContainer_sound h 0x5B 0x5D rest).mono array_le_value
  | case4 rest =>
    exact (parseString_sound rest).mono fun _ hw => scalar_le_value (Or.inr hw)
  | case5 rest => exact hliteral (by simp [literals])
  | case6 rest => exact hliteral (by simp [literals])
  | case7 rest => exact hliteral (by simp [literals])
  | case8 b rest =>
    exact (parseNumber_sound _).mono fun _ hw => scalar_le_value (Or.inl (Or.inr hw))
  | case9 => exact .of_invalid

/-- What the parser completes is a value, and what it leaves incomplete can be
extended to one, at any number of levels. -/
theorem parseValue_sound (levels : Nat) :
    Sound (parseValue levels).run (ws * value) := by
  induction levels with
  | zero => exact fun _ => .of_invalid
  | succ levels ih =>
    intro data
    obtain ⟨w, hw, heq⟩ := skipWhitespace_split data
    rw [parseValue_succ]
    conv => arg 2; rw [heq]
    exact (parseValueBody_sound ih _).prepend hw

/-! ## Levels -/

/-- After an accepted value as many containers are open as before. -/
theorem deepest_rest {parse : List UInt8 → Scan} (hsound : Sound parse language)
    (hbalanced : Balanced language) (h : (parse data).status = .complete)
    (depth : Nat) :
    deepest .outside depth (parse data).rest ≤
      deepest .outside depth data := by
  obtain ⟨w, hw, heq⟩ := (hsound data).complete h
  conv_rhs => rw [heq]
  exact hbalanced w hw depth _

theorem balanced_ws : Balanced ws :=
  fun _ hw depth t => (deepest_ws hw depth t).ge

theorem deepest_skipWhitespace (depth : Nat) (data : List UInt8) :
    deepest .outside depth (skipWhitespace data) =
      deepest .outside depth data := by
  obtain ⟨w, hw, heq⟩ := skipWhitespace_split data
  conv_rhs => rw [heq]
  exact (deepest_ws hw depth _).symm

/-- Two parsers give one answer on data that nests less deep than `limit` when
`depth` containers are open. -/
def AgreeBelow (limit depth : Nat) (parse parse' : List UInt8 → Scan) : Prop :=
  ∀ data, deepest .outside depth data < limit → parse data = parse' data

section Agree

variable {limit depth : Nat}

theorem parseItems_agree {item' : Parser} (hsound : Sound item.run language)
    (hbalanced : Balanced language)
    (hagree : AgreeBelow limit depth item.run item'.run) (close : UInt8) :
    AgreeBelow limit depth (parseItems item close) (parseItems item' close) := by
  intro data
  fun_induction parseItems item close data with
  | case1 rest hcomplete scan hdone =>
    intro hlt
    have hrun := hagree rest hlt
    rw [hrun] at hcomplete hdone
    exact (parseItems_done hcomplete hdone).symm
  | case2 rest hcomplete next hnext _ _ ih =>
    intro hlt
    have hrun := hagree rest hlt
    have hrest := deepest_rest hsound hbalanced hcomplete depth
    obtain ⟨s, hs, heq⟩ := afterItem_next_split hnext
    have hnextle : deepest .outside depth next ≤
        deepest .outside depth (item.run rest).rest := by
      rw [heq]
      exact balanced_plain (plain_token (by decide)) s hs depth next
    rw [hrun] at hcomplete hnext
    rw [parseItems_next hcomplete hnext]
    exact ih (lt_of_le_of_lt (hnextle.trans hrest) hlt)
  | case3 rest hcomplete =>
    intro hlt
    have hrun := hagree rest hlt
    rw [hrun] at hcomplete ⊢
    exact (parseItems_stop hcomplete).symm

/-- The items of a container are one level further down. -/
theorem parseContainer_agree (item' : Parser) (hsound : Sound item.run language)
    (hbalanced : Balanced language)
    (hagree : AgreeBelow limit (depth + 1) item.run item'.run) {start : UInt8}
    (hstart : start = 0x7B ∨ start = 0x5B) (close : UInt8) {rest : List UInt8}
    (hlt : deepest .outside depth (start :: rest) < limit) :
    parseContainer item close (start :: rest) = parseContainer item' close (start :: rest) := by
  have hquote : start ≠ 0x22 := by obtain rfl | rfl := hstart <;> decide
  rw [deepest, if_neg hquote, if_pos hstart, ← deepest_skipWhitespace] at hlt
  unfold parseContainer
  rw [List.tail_cons]
  cases hskip : skipWhitespace rest with
  | nil => rfl
  | cons b after =>
    rw [hskip] at hlt
    dsimp only
    split
    · rfl
    · exact parseItems_agree hsound hbalanced hagree close (b :: after) hlt

theorem parseMember_agree {value value' : Parser}
    (hagree : AgreeBelow limit depth value.run value'.run) :
    AgreeBelow limit depth (parseMember value) (parseMember value') := by
  intro data
  fun_cases parseMember value data with
  | case1 => exact fun _ => rfl
  | case2 rest hkey hskip =>
    intro _
    simp only [parseMember, if_true, if_pos hkey, hskip]
  | case3 rest after hkey hcolon =>
    intro hlt
    obtain ⟨w, hw, heq⟩ := (parseString_sound rest).complete hkey
    have hrest : deepest .outside depth after =
        deepest .outside depth (0x22 :: rest) := by
      conv_rhs => rw [heq, deepest_string hw, ← deepest_skipWhitespace, hcolon]
      rfl
    simp only [parseMember, if_true, if_pos hkey, hcolon]
    exact hagree after (hrest ▸ hlt)
  | case4 rest b after hb hkey hcolon =>
    intro _
    simp only [parseMember, if_true, if_pos hkey, hcolon, if_neg hb]
  | case5 rest hkey =>
    intro _
    simp only [parseMember, if_true, if_neg hkey]
  | case6 b rest hb =>
    intro _
    simp only [parseMember, if_neg hb]

theorem parseValueBody_agree {nested nested' : Parser}
    (hsound : Sound nested.run (ws * value))
    (hagree : AgreeBelow limit (depth + 1) nested.run nested'.run) :
    AgreeBelow limit depth (parseValueBody nested) (parseValueBody nested') := by
  have hbalanced := balanced_ws.mul balanced_value
  intro data hlt
  cases data with
  | nil => rfl
  | cons b rest =>
    show (if b = 0x7B then _ else _) = if b = 0x7B then _ else _
    by_cases hb : b = 0x7B
    · rw [if_pos hb, if_pos hb]
      have hmember : Sound (memberParser nested).run (member value) :=
        parseMember_sound hsound zero_mem_value
      have hmemberBalanced : Balanced (member value) :=
        (balanced_string.mul (balanced_plain
          (plain_token (by decide)))).mul balanced_value
      exact parseContainer_agree (memberParser nested') hmember hmemberBalanced
        (parseMember_agree hagree) (Or.inl hb) 0x7D hlt
    rw [if_neg hb, if_neg hb]
    by_cases hb' : b = 0x5B
    · rw [if_pos hb', if_pos hb']
      exact parseContainer_agree nested' hsound hbalanced hagree (Or.inr hb') 0x5D hlt
    · rw [if_neg hb', if_neg hb']

/-- Further levels change nothing on data that nests less deep than the levels
that are there. -/
theorem parseValue_levels (levels more depth : Nat) :
    AgreeBelow (depth + levels) depth (parseValue levels).run
      (parseValue (levels + more)).run := by
  induction levels generalizing depth with
  | zero =>
    intro data hlt
    exact absurd (depth_le_deepest .outside depth data) (by omega)
  | succ levels ih =>
    intro data hlt
    rw [Nat.succ_add, parseValue_succ, parseValue_succ]
    refine (parseValueBody_agree (parseValue_sound levels) ?_ :
      AgreeBelow (depth + (levels + 1)) depth _ _) _ (by rwa [deepest_skipWhitespace])
    have := ih (depth + 1)
    rwa [Nat.add_right_comm, Nat.add_assoc] at this

end Agree

/-! ## Completeness -/

/-- The data does not start with a byte of a kind. -/
def StartsOff (kind : UInt8 → Bool) (data : List UInt8) : Prop :=
  ∀ b rest, data = b :: rest → kind b = false

/-- The bytes that continue a number after a digit. -/
def continuesNumber (b : UInt8) : Bool := isDigit b || b == 0x2E || b == 0x65 || b == 0x45

/-- In front of anything that does not continue a number, a method completes
every word of a language and leaves what follows, blanks apart. -/
def Covers (parse : List UInt8 → Scan) (language : Language UInt8) : Prop :=
  ∀ w ∈ language, ∀ t, StartsOff continuesNumber t →
    ∃ rest, parse (w ++ t) = ⟨rest, .complete⟩ ∧ skipWhitespace rest = skipWhitespace t

theorem StartsOff.nil (kind : UInt8 → Bool) : StartsOff kind [] := nofun

theorem StartsOff.cons {kind : UInt8 → Bool} (h : kind b = false) (rest : List UInt8) :
    StartsOff kind (b :: rest) := by
  rintro _ _ heq
  obtain ⟨rfl, rfl⟩ := List.cons.inj heq
  exact h

theorem StartsOff.mono {kind kind' : UInt8 → Bool} (h : StartsOff kind data)
    (hle : ∀ b, kind' b = true → kind b = true) : StartsOff kind' data := by
  intro b rest heq
  have hb := h b rest heq
  exact Bool.eq_false_iff.mpr fun h' => by simp [hle b h'] at hb

theorem skipWhitespace_ws (hw : w ∈ ws) (t : List UInt8) :
    skipWhitespace (w ++ t) = skipWhitespace t :=
  List.dropWhile_append_of_pos hw

theorem skipWhitespace_of_startsOff (h : StartsOff isWhitespace t) : skipWhitespace t = t := by
  cases t with
  | nil => rfl
  | cons b rest => exact List.dropWhile_cons_of_neg (by simp [h b rest rfl])

theorem skipDigits_digits (hw : w ∈ digits) (ht : StartsOff isDigit t) :
    skipDigits (w ++ t) = t := by
  rw [skipDigits, List.dropWhile_append_of_pos (show ∀ b ∈ w, isDigit b = true from hw)]
  cases t with
  | nil => rfl
  | cons b rest => exact List.dropWhile_cons_of_neg (by simp [ht b rest rfl])

/-! ### Literals and numbers -/

theorem parseLiteral_covers (literal t : List UInt8) :
    parseLiteral literal (literal ++ t) = ⟨t, .complete⟩ := by
  induction literal with
  | nil => rfl
  | cons l literal ih => rw [List.cons_append, parseLiteral, if_pos rfl, ih]

theorem requireDigits_covers {andThen : List UInt8 → Scan} (hw : w ∈ digits1)
    (ht : StartsOff isDigit t) : requireDigits andThen (w ++ t) = andThen t := by
  obtain ⟨hne, hdigits⟩ := hw
  cases w with
  | nil => exact absurd rfl hne
  | cons b w =>
    have hskip := skipDigits_digits hdigits ht
    rw [List.cons_append] at hskip ⊢
    have hb : isDigit b = true := hdigits b List.mem_cons_self
    rw [requireDigits, if_pos hb, hskip]

theorem isDigit_le_continuesNumber (h : isDigit b = true) : continuesNumber b = true := by
  simp [continuesNumber, h]

theorem parseExponent_covers (hw : w ∈ 1 + exponent)
    (ht : StartsOff continuesNumber t) : parseExponent (w ++ t) = ⟨t, .complete⟩ := by
  have hdigit : StartsOff isDigit t := ht.mono fun _ => isDigit_le_continuesNumber
  obtain hw | ⟨_, ⟨e, he, sign, hsign, rfl⟩, ds, hds, rfl⟩ := (Language.mem_add _ _ _).mp hw
  · rw [(Language.mem_one w).mp hw, List.nil_append]
    cases t with
    | nil => rfl
    | cons b rest =>
      have hb : ¬ (b = 0x65 ∨ b = 0x45) := by
        rintro (rfl | rfl) <;> exact absurd (ht _ rest rfl) (by decide)
      simp only [parseExponent, if_neg hb]
  · have he' : ∃ b : UInt8, e = [b] ∧ (b = 0x65 ∨ b = 0x45) := by
      obtain rfl | rfl := he
      · exact ⟨_, rfl, Or.inl rfl⟩
      · exact ⟨_, rfl, Or.inr rfl⟩
    obtain ⟨b, rfl, hb⟩ := he'
    obtain hsign | hsign := (Language.mem_add _ _ _).mp hsign
    · -- no sign: the byte after the letter is a digit
      rw [(Language.mem_one sign).mp hsign]
      obtain ⟨hne, hdigits⟩ := hds
      cases ds with
      | nil => exact absurd rfl hne
      | cons d ds =>
        have hd := hdigits d List.mem_cons_self
        have hnot : ¬ (d = 0x2B ∨ d = 0x2D) := by
          rintro (rfl | rfl) <;> exact absurd hd (by decide)
        have hreq := @requireDigits_covers _ (d :: ds) (fun rest => ⟨rest, .complete⟩)
          ⟨hne, hdigits⟩ hdigit
        simp only [List.cons_append, List.nil_append, parseExponent, if_pos hb, if_neg hnot]
          at hreq ⊢
        exact hreq
    · have hsign' : ∃ s : UInt8, sign = [s] ∧ (s = 0x2B ∨ s = 0x2D) := by
        obtain rfl | rfl := hsign
        · exact ⟨_, rfl, Or.inr rfl⟩
        · exact ⟨_, rfl, Or.inl rfl⟩
      obtain ⟨s, rfl, hs⟩ := hsign'
      simp only [List.cons_append, List.nil_append, parseExponent, if_pos hb, if_pos hs]
      exact requireDigits_covers hds hdigit

/-- An exponent, or nothing, in front of what ends a number. -/
theorem exponent_startsOff (hw : w ∈ 1 + exponent) (ht : StartsOff continuesNumber t) :
    StartsOff (fun b => isDigit b || b == 0x2E) (w ++ t) := by
  obtain hw | ⟨_, ⟨e, he, _, _, rfl⟩, _, _, rfl⟩ := (Language.mem_add _ _ _).mp hw
  · rw [(Language.mem_one w).mp hw, List.nil_append]
    refine ht.mono fun b hb => ?_
    simp only [Bool.or_eq_true, beq_iff_eq] at hb
    simp only [continuesNumber, Bool.or_eq_true, beq_iff_eq]
    exact Or.inl (Or.inl hb)
  · obtain rfl | rfl := he
    · exact .cons (by decide) _
    · exact .cons (by decide) _

theorem parseFraction_covers (hw : w ∈ (1 + frac) * (1 + exponent))
    (ht : StartsOff continuesNumber t) : parseFraction (w ++ t) = ⟨t, .complete⟩ := by
  obtain ⟨f, hf, e, he, rfl⟩ := hw
  have hoff := exponent_startsOff he ht
  have hexp := parseExponent_covers he ht
  rw [List.append_assoc]
  obtain hf | ⟨_, rfl, ds, hds, rfl⟩ := (Language.mem_add _ _ _).mp hf
  · rw [(Language.mem_one f).mp hf, List.nil_append]
    cases hrest : e ++ t with
    | nil =>
      rw [hrest] at hexp
      exact hexp
    | cons b rest =>
      have hb : ¬ b = 0x2E := by
        rintro rfl
        exact absurd (hoff _ _ hrest) (by decide)
      rw [parseFraction, if_neg hb, ← hrest, hexp]
  · rw [List.append_assoc, List.cons_append, List.nil_append, parseFraction, if_pos rfl,
      requireDigits_covers hds (hoff.mono fun b hb => by simp [hb]), hexp]

theorem fraction_startsOff (hw : w ∈ (1 + frac) * (1 + exponent))
    (ht : StartsOff continuesNumber t) : StartsOff isDigit (w ++ t) := by
  obtain ⟨f, hf, e, he, rfl⟩ := hw
  rw [List.append_assoc]
  obtain hf | ⟨_, rfl, ds, hds, rfl⟩ := (Language.mem_add _ _ _).mp hf
  · rw [(Language.mem_one f).mp hf, List.nil_append]
    exact (exponent_startsOff he ht).mono fun b hb => by simp [hb]
  · exact .cons (by decide) _

theorem parseInteger_covers
    (hw : w ∈ int * ((1 + frac) * (1 + exponent)))
    (ht : StartsOff continuesNumber t) : parseInteger (w ++ t) = ⟨t, .complete⟩ := by
  obtain ⟨i, hi, f, hf, rfl⟩ := hw
  have hfrac := parseFraction_covers hf ht
  rw [List.append_assoc]
  obtain rfl | ⟨_, ⟨b, hb, rfl⟩, ds, hds, rfl⟩ := hi
  · exact hfrac
  · have hzero : ¬ b = 0x30 := by
      rintro rfl
      exact absurd hb.1 (by decide)
    have hrange : ¬ (b < 0x31 ∨ 0x39 < b) :=
      not_or.mpr ⟨UInt8.not_lt.mpr hb.1, UInt8.not_lt.mpr hb.2⟩
    have hdigits : b :: ds ∈ digits :=
      List.forall_mem_cons.mpr ⟨(digit19_of_range hrange).1, hds⟩
    have hskip := skipDigits_digits hdigits (fraction_startsOff hf ht)
    simp only [List.cons_append, List.nil_append, parseInteger, if_neg hzero, if_neg hrange]
      at hskip ⊢
    rw [hskip, hfrac]

/-- The first byte of a number. -/
theorem int_first (hw : w ∈ int) : ∃ b rest, w = b :: rest ∧ isDigit b = true := by
  obtain rfl | ⟨_, ⟨b, hb, rfl⟩, ds, _, rfl⟩ := hw
  · exact ⟨_, _, rfl, by decide⟩
  · refine ⟨b, ds, rfl, ?_⟩
    exact (digit19_of_range (not_or.mpr ⟨UInt8.not_lt.mpr hb.1, UInt8.not_lt.mpr hb.2⟩)).1

theorem parseNumber_covers (hw : w ∈ number) (ht : StartsOff continuesNumber t) :
    (∃ b rest, w = b :: rest ∧ (b = 0x2D ∨ isDigit b = true)) ∧
      parseNumber (w ++ t) = ⟨t, .complete⟩ := by
  rw [number, mul_assoc, mul_assoc] at hw
  obtain ⟨sign, hsign, u, hu, rfl⟩ := hw
  have hint := parseInteger_covers hu ht
  obtain hsign | rfl := (Language.mem_add _ _ _).mp hsign
  · rw [(Language.mem_one sign).mp hsign]
    dsimp only
    rw [List.nil_append]
    obtain ⟨i, hi, f, _, rfl⟩ := hu
    obtain ⟨b, rest, rfl, hb⟩ := int_first hi
    refine ⟨⟨b, rest ++ f, rfl, Or.inr hb⟩, ?_⟩
    have hminus : ¬ b = 0x2D := by
      rintro rfl
      exact absurd hb (by decide)
    simp only [List.cons_append, parseNumber, if_neg hminus] at hint ⊢
    exact hint
  · exact ⟨⟨0x2D, u, rfl, Or.inl rfl⟩, hint⟩

/-! ### Strings -/

theorem parseHex_covers {hex : List UInt8} (hhex : ∀ b ∈ hex, isHex b = true)
    (rest : List UInt8) : parseHex hex.length (hex ++ rest) = ⟨rest, .complete⟩ := by
  induction hex with
  | nil => rfl
  | cons b hex ih =>
    rw [List.length_cons, List.cons_append, parseHex, if_pos (hhex b List.mem_cons_self),
      ih fun d hd => hhex d (List.mem_cons_of_mem _ hd)]

theorem parseCharacters_unescaped (hw : w ∈ unescaped) (rest : List UInt8) :
    parseCharacters (w ++ rest) = parseCharacters rest := by
  have hbytes := unescaped_bytes hw
  obtain ⟨c, ⟨hcontrol, _, _⟩, rfl⟩ := hw
  by_cases hascii : c.toNat < 0x80
  · rw [Utf8.encode_ascii hascii] at hbytes ⊢
    obtain ⟨hquote, hslash⟩ := hbytes _ (List.mem_singleton_self _)
    have hb : (UInt8.ofNat c.toNat).toNat = c.toNat := by
      rw [UInt8.toNat_ofNat']
      omega
    have hlow : ¬ UInt8.ofNat c.toNat < 0x20 := by
      rw [UInt8.lt_iff_toNat_lt, hb]
      exact not_lt.mpr hcontrol
    have hhigh : UInt8.ofNat c.toNat < 0x80 := by
      rw [UInt8.lt_iff_toNat_lt, hb]
      exact hascii
    rw [List.singleton_append, parseCharacters_plain hquote hslash, if_neg hlow, if_pos hhigh]
  · obtain ⟨hlen, hhigh⟩ := Utf8.encode_high (c := c) (by omega)
    have hdecode : decodeRune (String.utf8EncodeChar c ++ rest) =
        (String.utf8EncodeChar c).length := by
      rw [decodeRune, Utf8.decode_encode]
    cases hw : String.utf8EncodeChar c with
    | nil =>
      rw [hw] at hlen
      cases hlen
    | cons b more =>
      rw [hw] at hbytes hlen hhigh hdecode
      obtain ⟨hquote, hslash⟩ := hbytes b List.mem_cons_self
      have hb := hhigh b List.mem_cons_self
      have hlow : ¬ b < 0x20 := by
        rw [UInt8.lt_iff_toNat_lt]
        exact not_lt.mpr (le_trans (by decide) hb)
      have hnot : ¬ b < 0x80 := by
        rw [UInt8.lt_iff_toNat_lt]
        exact not_lt.mpr hb
      rw [List.cons_append] at hdecode ⊢
      rw [parseCharacters_plain hquote hslash, if_neg hlow, if_neg hnot, hdecode,
        if_neg (by omega), List.length_cons, Nat.add_sub_cancel, List.drop_left]

theorem parseCharacters_char (hw : w ∈ char) (rest : List UInt8) :
    parseCharacters (w ++ rest) = parseCharacters rest := by
  obtain (hw | ⟨b, hb, rfl⟩) | ⟨hex, hlen, hhex, rfl⟩ := hw
  · exact parseCharacters_unescaped hw rest
  · have hu : b ≠ 0x75 := by
      rintro rfl
      exact absurd hb (by decide)
    have hsimple : isSimpleJSONEscape b = true := hb
    rw [List.cons_append, List.singleton_append, parseCharacters_escape hu, if_pos hsimple]
  · have hcovers := parseHex_covers hhex rest
    rw [hlen] at hcovers
    rw [List.cons_append, List.cons_append, parseCharacters_unicode, hcovers, if_pos rfl]

theorem parseCharacters_covers (hw : w ∈ char∗) (t : List UInt8) :
    parseCharacters (w ++ 0x22 :: t) = ⟨t, .complete⟩ := by
  obtain ⟨parts, rfl, hparts⟩ := Language.mem_kstar.mp hw
  clear hw
  induction parts with
  | nil => exact parseCharacters_quote t
  | cons part parts ih =>
    rw [List.flatten_cons, List.append_assoc,
      parseCharacters_char (hparts part List.mem_cons_self),
      ih fun y hy => hparts y (List.mem_cons_of_mem _ hy)]

theorem parseString_covers (hw : w ∈ string) (t : List UInt8) :
    (∃ rest, w = 0x22 :: rest) ∧ parseString (w ++ t) = ⟨t, .complete⟩ := by
  obtain ⟨_, ⟨_, rfl, chars, hchars, rfl⟩, _, rfl, rfl⟩ := hw
  refine ⟨⟨chars ++ [0x22], rfl⟩, ?_⟩
  have := parseCharacters_covers hchars t
  simpa [parseString] using this

/-! ### Containers -/

/-- The first byte of an item, which is no closing bracket. -/
def Opens (language : Language UInt8) : Prop :=
  ∀ w ∈ language, ∃ blank ∈ ws, ∃ b rest, w = blank ++ b :: rest ∧
    isWhitespace b = false ∧ b ≠ 0x5D ∧ b ≠ 0x7D

theorem Opens.separated (h : Opens language) : Opens (separated language) := by
  rintro _ ⟨first, hfirst, others, _, rfl⟩
  obtain ⟨blank, hblank, b, rest, rfl, hb⟩ := h first hfirst
  exact ⟨blank, hblank, b, rest ++ others, by simp, hb⟩

theorem isWhitespace_not_continuesNumber (h : isWhitespace b = true) :
    continuesNumber b = false := by
  simp only [isWhitespace, Bool.or_eq_true, beq_iff_eq] at h
  obtain ((rfl | rfl) | rfl) | rfl := h <;> decide

/-- A structural byte, with blanks in front or not, ends a number. -/
theorem token_startsOff (hw : w ∈ token b) (hb : continuesNumber b = false) (t : List UInt8) :
    StartsOff continuesNumber (w ++ t) := by
  obtain ⟨before, hbefore, after, _, rfl⟩ := mem_token.mp hw
  cases before with
  | nil => exact .cons hb _
  | cons d before =>
    exact .cons (isWhitespace_not_continuesNumber (hbefore d List.mem_cons_self)) _

theorem skipWhitespace_token (hw : w ∈ token b) (hb : isWhitespace b = false) (t : List UInt8) :
    ∃ after ∈ ws, skipWhitespace (w ++ t) = b :: (after ++ t) := by
  obtain ⟨before, hbefore, after, hafter, rfl⟩ := mem_token.mp hw
  refine ⟨after, hafter, ?_⟩
  rw [List.append_assoc, skipWhitespace_ws hbefore, List.cons_append,
    skipWhitespace_of_startsOff (.cons hb _)]

theorem parseItems_covers (hitem : Covers (fun data => item.run (skipWhitespace data)) language)
    (hopens : Opens language) (hclose : close = 0x5D ∨ close = 0x7D) {s : List UInt8}
    (hs : s ∈ token close) (t : List UInt8) {u : List UInt8}
    (hu : u ∈ separated language) :
    ∃ rest, parseItems item close (skipWhitespace (u ++ (s ++ t))) = ⟨rest, .complete⟩ ∧
      skipWhitespace rest = skipWhitespace t := by
  have hbracket : isWhitespace close = false ∧ continuesNumber close = false := by
    obtain rfl | rfl := hclose <;> decide
  refine separated_induction (motive := fun u => ∃ rest,
    parseItems item close (skipWhitespace (u ++ (s ++ t))) = ⟨rest, .complete⟩ ∧
      skipWhitespace rest = skipWhitespace t) ?_ ?_ hu
  · intro w hw
    obtain ⟨rest, hrun, hrest⟩ := hitem w hw (s ++ t) (token_startsOff hs hbracket.2 t)
    obtain ⟨after, hafter, hskip⟩ := skipWhitespace_token hs hbracket.1 t
    refine ⟨after ++ t, ?_, skipWhitespace_ws hafter t⟩
    dsimp only at hrun
    refine parseItems_done (by rw [hrun]) ?_
    simp only [hrun, afterItem, hrest, hskip, if_true]
  · intro w hw sep hsep v hv ih
    obtain ⟨rest, hrun, hrest⟩ := hitem w hw (sep ++ (v ++ (s ++ t)))
      (token_startsOff (b := 0x2C) hsep (by decide) _)
    obtain ⟨after, hafter, hskip⟩ := skipWhitespace_token (b := 0x2C) hsep (by decide)
      (v ++ (s ++ t))
    -- the item after the comma does not start with the closing bracket
    obtain ⟨blank, hblank, b, more, rfl, hb, harray, hobject⟩ := hopens.separated v hv
    have hnext : skipWhitespace (blank ++ b :: more ++ (s ++ t)) = b :: (more ++ (s ++ t)) := by
      rw [List.append_assoc, skipWhitespace_ws hblank, List.cons_append,
        skipWhitespace_of_startsOff (.cons hb _)]
    have hcomma : ¬ (0x2C : UInt8) = close := by obtain rfl | rfl := hclose <;> decide
    have hne : ¬ b = close := by obtain rfl | rfl := hclose <;> assumption
    rw [hnext] at ih
    obtain ⟨rest', hitems, hrest'⟩ := ih
    refine ⟨rest', ?_, hrest'⟩
    rw [← hitems, List.append_assoc, List.append_assoc]
    dsimp only at hrun
    refine parseItems_next (by rw [hrun]) ?_
    simp only [hrun, afterItem, hrest, hskip, if_neg hcomma, if_true, skipWhitespace_ws hafter,
      hnext, if_neg hne]

theorem parseContainer_covers
    (hitem : Covers (fun data => item.run (skipWhitespace data)) language)
    (hopens : Opens language) (start : UInt8) (hstart : isWhitespace start = false)
    (hclose : close = 0x5D ∨ close = 0x7D) :
    ∀ w ∈ token start * (1 + separated language) * token close, ∀ t,
      ∃ after rest, skipWhitespace (w ++ t) = start :: after ∧
        parseContainer item close (start :: after) = ⟨rest, .complete⟩ ∧
        skipWhitespace rest = skipWhitespace t := by
  have hbracket : isWhitespace close = false := by obtain rfl | rfl := hclose <;> decide
  rintro _ ⟨_, ⟨front, hfront, inner, hinner, rfl⟩, s, hs, rfl⟩ t
  obtain ⟨blank, hblank, hskip⟩ := skipWhitespace_token hfront hstart (inner ++ (s ++ t))
  obtain ⟨after, hafter, hskip'⟩ := skipWhitespace_token hs hbracket t
  obtain hinner | hinner := (Language.mem_add _ _ _).mp hinner
  · rw [(Language.mem_one inner).mp hinner] at hskip ⊢
    refine ⟨blank ++ (s ++ t), after ++ t, by simpa using hskip, ?_, skipWhitespace_ws hafter t⟩
    simp only [parseContainer, List.tail_cons, skipWhitespace_ws hblank, hskip', if_true]
  · obtain ⟨rest, hitems, hrest⟩ := parseItems_covers hitem hopens hclose hs t hinner
    refine ⟨blank ++ (inner ++ (s ++ t)), rest, by simpa using hskip, ?_, hrest⟩
    -- the first item does not start with the closing bracket
    obtain ⟨blank', hblank', b, more, rfl, hb, harray, hobject⟩ := hopens.separated inner hinner
    have hfirst : skipWhitespace (blank' ++ b :: more ++ (s ++ t)) = b :: (more ++ (s ++ t)) := by
      rw [List.append_assoc, skipWhitespace_ws hblank', List.cons_append,
        skipWhitespace_of_startsOff (.cons hb _)]
    have hne : ¬ b = close := by obtain rfl | rfl := hclose <;> assumption
    rw [hfirst] at hitems
    simp only [parseContainer, List.tail_cons, skipWhitespace_ws hblank, hfirst, if_neg hne,
      hitems]

theorem parseMember_covers {value : Parser}
    (hvalue : Covers value.run (ws * language)) :
    Covers (fun data => (memberParser value).run (skipWhitespace data))
      (member language) := by
  rintro _ ⟨_, ⟨key, hkey, sep, hsep, rfl⟩, v, hv, rfl⟩ t ht
  obtain ⟨⟨body, rfl⟩, hstring⟩ := parseString_covers hkey (sep ++ (v ++ t))
  obtain ⟨after, hafter, hskip⟩ := skipWhitespace_token (b := 0x3A) hsep (by decide) (v ++ t)
  obtain ⟨rest, hrun, hrest⟩ := hvalue (after ++ v) (Language.append_mem_mul hafter hv) t ht
  refine ⟨rest, ?_, hrest⟩
  rw [List.append_assoc] at hrun
  rw [List.cons_append] at hstring
  simp only [List.append_assoc, List.cons_append]
  rw [skipWhitespace_of_startsOff (.cons (by decide) _), memberParser_run]
  simp only [parseMember, if_true, hstring, hskip, hrun]

/-! ### Values -/

theorem opens_member (language : Language UInt8) : Opens (member language) := by
  rintro _ ⟨_, ⟨key, hkey, sep, _, rfl⟩, v, _, rfl⟩
  obtain ⟨⟨body, rfl⟩, _⟩ := parseString_covers hkey []
  exact ⟨[], nil_mem_ws, 0x22, body ++ sep ++ v, by simp, by decide⟩

theorem opens_container {start : UInt8} (hstart : isWhitespace start = false ∧ start ≠ 0x5D ∧
    start ≠ 0x7D) (inner close : Language UInt8) : Opens (token start * inner * close) := by
  rintro _ ⟨_, ⟨front, hfront, i, _, rfl⟩, c, _, rfl⟩
  obtain ⟨before, hbefore, after, _, rfl⟩ := mem_token.mp hfront
  exact ⟨before, hbefore, start, after ++ i ++ c, by simp, hstart⟩

theorem isDigit_opens (h : b = 0x2D ∨ isDigit b = true) :
    isWhitespace b = false ∧ b ≠ 0x5D ∧ b ≠ 0x7D := by
  refine ⟨?_, ?_, ?_⟩
  · by_contra hb
    rw [Bool.not_eq_false] at hb
    simp only [isWhitespace, Bool.or_eq_true, beq_iff_eq] at hb
    obtain ((rfl | rfl) | rfl) | rfl := hb <;> exact absurd h (by decide)
  · rintro rfl
    exact absurd h (by decide)
  · rintro rfl
    exact absurd h (by decide)

theorem opens_valueAt (n : Nat) : Opens (valueAt n) := by
  cases n with
  | zero => exact fun w hw => absurd hw (Language.notMem_zero w)
  | succ n =>
    rintro w ((((hw | hw) | hw) | hw) | hw)
    · have hliterals : ∀ w ∈ literals, ∃ b rest, w = b :: rest ∧
          isWhitespace b = false ∧ b ≠ 0x5D ∧ b ≠ 0x7D := by
        simp only [literals, List.forall_mem_cons]
        exact ⟨⟨_, _, rfl, by decide⟩, ⟨_, _, rfl, by decide⟩, ⟨_, _, rfl, by decide⟩, nofun⟩
      obtain ⟨b, rest, rfl, hb⟩ := hliterals w hw
      exact ⟨[], nil_mem_ws, b, rest, rfl, hb⟩
    · obtain ⟨⟨b, rest, rfl, hb⟩, _⟩ := parseNumber_covers hw (.nil _)
      exact ⟨[], nil_mem_ws, b, rest, rfl, isDigit_opens hb⟩
    · obtain ⟨⟨rest, rfl⟩, _⟩ := parseString_covers hw []
      exact ⟨[], nil_mem_ws, 0x22, rest, rfl, by decide⟩
    · exact opens_container (by decide) _ _ w hw
    · exact opens_container (by decide) _ _ w hw

theorem parseValueBody_number (nested : Parser) (h : b = 0x2D ∨ isDigit b = true)
    (rest : List UInt8) : parseValueBody nested (b :: rest) = parseNumber (b :: rest) := by
  have hne {d : UInt8} (hd : ¬ (d = 0x2D ∨ isDigit d = true)) : ¬ b = d := by
    rintro rfl
    exact hd h
  rw [parseValueBody, if_neg (hne (by decide)), if_neg (hne (by decide)),
    if_neg (hne (by decide)), if_neg (hne (by decide)), if_neg (hne (by decide)),
    if_neg (hne (by decide)), if_pos h]

theorem parseValueBody_literal (nested : Parser) (t : List UInt8) :
    ∀ w ∈ literals, parseValueBody nested (skipWhitespace (w ++ t)) =
      ⟨t, .complete⟩ := by
  simp only [literals, List.forall_mem_cons]
  refine ⟨?_, ?_, ?_, nofun⟩
  · exact parseLiteral_covers [0x74, 0x72, 0x75, 0x65] t
  · exact parseLiteral_covers [0x66, 0x61, 0x6C, 0x73, 0x65] t
  · exact parseLiteral_covers [0x6E, 0x75, 0x6C, 0x6C] t

/-- Every value that nests less deep than the levels is completed. -/
theorem parseValue_covers (levels : Nat) :
    Covers (parseValue levels).run (ws * valueAt levels) := by
  induction levels with
  | zero =>
    rintro _ ⟨_, _, w, hw, _⟩
    exact absurd hw (Language.notMem_zero w)
  | succ levels ih =>
    rintro _ ⟨blank, hblank, w, hw, rfl⟩ t ht
    simp only [parseValue_succ, List.append_assoc, skipWhitespace_ws hblank]
    obtain (((hw | hw) | hw) | hw) | hw := hw
    · exact ⟨t, parseValueBody_literal _ t w hw, rfl⟩
    · obtain ⟨⟨b, rest, rfl, hb⟩, hrun⟩ := parseNumber_covers hw ht
      refine ⟨t, ?_, rfl⟩
      rw [List.cons_append] at hrun ⊢
      rw [skipWhitespace_of_startsOff (.cons (isDigit_opens hb).1 _), parseValueBody_number _ hb,
        hrun]
    · obtain ⟨⟨rest, rfl⟩, hrun⟩ := parseString_covers hw t
      exact ⟨t, hrun, rfl⟩
    · -- an element is parsed from its first byte or from the blanks before it
      have hitem : Covers (fun data => (parseValue levels).run (skipWhitespace data))
          (valueAt levels) := by
        cases levels with
        | zero => exact fun w hw => absurd hw (Language.notMem_zero w)
        | succ levels =>
          intro v hv t ht
          obtain ⟨rest, hrun, hrest⟩ := ih v (Language.append_mem_mul (a := [])
            nil_mem_ws hv) t ht
          refine ⟨rest, ?_, hrest⟩
          dsimp only
          rw [← hrun, parseValue_succ, parseValue_succ, skipWhitespace_idem]
      obtain ⟨after, rest, hskip, hrun, hrest⟩ := parseContainer_covers hitem
        (opens_valueAt levels) 0x5B (by decide) (Or.inl rfl) w hw t
      exact ⟨rest, by rw [hskip]; exact hrun, hrest⟩
    · obtain ⟨after, rest, hskip, hrun, hrest⟩ := parseContainer_covers
        (parseMember_covers ih) (opens_member _) 0x7B (by decide) (Or.inr rfl) w hw t
      exact ⟨rest, by rw [hskip]; exact hrun, hrest⟩

/-! ## Prefixes of JSON texts -/

/-- Whatever is accepted can be extended to a JSON text, however deep it
nests. -/
theorem text_of_accepted {levels : Nat} (h : ((parseValue levels).run data).Accepted) :
    ∃ more, data ++ more ∈ text := by
  have hsound := parseValue_sound levels data
  obtain hincomplete | ⟨hcomplete, hrest⟩ := h
  · obtain ⟨more, hmore⟩ := hsound.incomplete hincomplete
    refine ⟨more, ?_⟩
    have := Language.append_mem_mul hmore nil_mem_ws
    rwa [List.append_nil] at this
  · obtain ⟨w, hw, heq⟩ := hsound.complete hcomplete
    refine ⟨[], ?_⟩
    rw [List.append_nil, heq]
    exact Language.append_mem_mul hw (mem_ws_of_skipWhitespace hrest)

/-- A parser with enough levels accepts every prefix of a JSON text. -/
theorem accepted_of_text {more : List UInt8} (h : data ++ more ∈ text) :
    ∃ depth, ∀ levels, depth ≤ levels → ((parseValue levels).run data).Accepted := by
  obtain ⟨v, ⟨blank, hblank, w, ⟨depth, hw⟩, rfl⟩, blank', hblank', heq⟩ := h
  refine ⟨depth, fun levels hle => accepted_of_append (parseValue_stable levels) more ?_⟩
  have hends : StartsOff continuesNumber blank' := by
    rintro b rest rfl
    exact isWhitespace_not_continuesNumber (hblank' b List.mem_cons_self)
  obtain ⟨rest, hrun, hrest⟩ := parseValue_covers levels _
    (Language.append_mem_mul hblank (valueAt_mono hle hw)) blank' hends
  rw [← heq]
  have hempty : skipWhitespace blank' = [] := by
    have := skipWhitespace_ws hblank' []
    rwa [List.append_nil] at this
  exact Or.inr ⟨by rw [hrun], by rw [hrun]; exact hrest.trans hempty⟩

/-- A prefix whose containers nest at most `maxJSONPrefixDepth` deep is accepted
exactly when bytes exist that complete it to a JSON text.  Without the bound
on the nesting, acceptance still implies that they exist. -/
theorem validateJSONPrefix_iff_extends (data : List UInt8) :
    (nesting data ≤ maxJSONPrefixDepth →
      (validateJSONPrefix data = .ok () ↔ ∃ more, data ++ more ∈ text)) ∧
    (validateJSONPrefix data = .ok () → ∃ more, data ++ more ∈ text) := by
  rw [validateJSONPrefix_eq_ok_iff]
  generalize maxJSONPrefixDepth = limit
  refine ⟨fun hnesting => ⟨text_of_accepted, ?_⟩, text_of_accepted⟩
  rintro ⟨more, hmore⟩
  obtain ⟨depth, hdepth⟩ := accepted_of_text hmore
  have hagree := parseValue_levels (limit + 1) depth 0 data (by
    rw [Nat.zero_add]
    exact Nat.lt_succ_of_le hnesting)
  rw [hagree]
  exact hdepth _ (Nat.le_add_left _ _)

/-- The open array `[1,` is flat. -/
theorem validateJSONPrefix_iff_extends_open_array :
    nesting [0x5B, 0x31, 0x2C] ≤ maxJSONPrefixDepth ∧
      (validateJSONPrefix [0x5B, 0x31, 0x2C] = .ok () ↔
        ∃ more, [0x5B, 0x31, 0x2C] ++ more ∈ text) :=
  ⟨by decide, (validateJSONPrefix_iff_extends [0x5B, 0x31, 0x2C]).1 (by decide)⟩

end Streamweld.Migrate.JsonPrefix
