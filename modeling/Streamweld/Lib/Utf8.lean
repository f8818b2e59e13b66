import Mathlib

/-!
# UTF-8 decoding of one character

`decode` reads the first character of a byte string.  It has three answers: a
character with its size, a string that ends inside a character, and a byte
that no character allows.  The lead byte fixes the number of continuation
bytes and the range of the second byte, so that overlong forms, surrogates and
values above U+10FFFF are refused at the second byte at the latest.

The meaning of UTF-8 is `String.utf8EncodeChar`:

* `decode_encode`: every encoded character is read back, whatever follows;
* `decode_rune`: a character that is read stands encoded in front;
* `decode_short`: a short string is the start of an encoded character;
* `decode_append`: an answer other than `short` does not change when bytes
  follow.
-/

namespace Streamweld.Lib.Utf8

variable {n more low high bits : Nat} {p : List UInt8} {c : Char}

/-- What the front of a byte string is. -/
inductive Decoded where
  | rune (c : Char) (size : Nat)
  | short
  | invalid
  deriving DecidableEq, Repr

/-- What a lead byte announces: the number of bytes that follow, its own bits
and the range of the second byte. -/
structure Lead where
  more : Nat
  bits : Nat
  low : Nat
  high : Nat

/-- The lead bytes of the multi-byte forms. -/
def lead (b : UInt8) : Option Lead :=
  if 0xC2 ≤ b.toNat ∧ b.toNat ≤ 0xDF then
    some ⟨1, b.toNat - 0xC0, 0x80, 0xBF⟩
  else if 0xE0 ≤ b.toNat ∧ b.toNat ≤ 0xEF then
    some ⟨2, b.toNat - 0xE0, if b.toNat = 0xE0 then 0xA0 else 0x80,
      if b.toNat = 0xED then 0x9F else 0xBF⟩
  else if 0xF0 ≤ b.toNat ∧ b.toNat ≤ 0xF4 then
    some ⟨3, b.toNat - 0xF0, if b.toNat = 0xF0 then 0x90 else 0x80,
      if b.toNat = 0xF4 then 0x8F else 0xBF⟩
  else none

/-- Reads the continuation bytes.  Only the first of them has a range of its
own. -/
def continuation : (more low high bits size : Nat) → List UInt8 → Decoded
  | 0, _, _, bits, size, _ => .rune (Char.ofNat bits) size
  | _ + 1, _, _, _, _, [] => .short
  | more + 1, low, high, bits, size, b :: rest =>
    if low ≤ b.toNat ∧ b.toNat ≤ high then
      continuation more 0x80 0xBF (bits * 64 + (b.toNat - 0x80)) (size + 1) rest
    else .invalid

/-- The first character of a byte string. -/
def decode : List UInt8 → Decoded
  | [] => .short
  | b :: rest =>
    if b.toNat < 0x80 then .rune (Char.ofNat b.toNat) 1
    else match lead b with
      | none => .invalid
      | some l => continuation l.more l.low l.high l.bits 1 rest

/-! ## The encoded forms -/

theorem toNat_ofNat_of_valid (h : n.isValidChar) : (Char.ofNat n).val.toNat = n := by
  simp [Char.ofNat, h, Char.ofNatAux]

theorem byte_ofNat {b : UInt8} (h : n = b.toNat) : UInt8.ofNat n = b := by
  rw [h, UInt8.ofNat_toNat]

/-- The one-byte form. -/
theorem encode_one {b : UInt8} (h : b.toNat < 0x80) :
    String.utf8EncodeChar (Char.ofNat b.toNat) = [b] := by
  have hv : (Char.ofNat b.toNat).val.toNat = b.toNat :=
    toNat_ofNat_of_valid (Or.inl (by omega))
  simp only [String.utf8EncodeChar, hv]
  rw [if_pos (by omega), byte_ofNat rfl]

/-- The two-byte form, from its two bytes. -/
theorem encode_two {b₀ b₁ : UInt8} (h₀ : 0xC2 ≤ b₀.toNat ∧ b₀.toNat ≤ 0xDF)
    (h₁ : 0x80 ≤ b₁.toNat ∧ b₁.toNat ≤ 0xBF) :
    String.utf8EncodeChar (Char.ofNat ((b₀.toNat - 0xC0) * 64 + (b₁.toNat - 0x80))) =
      [b₀, b₁] := by
  generalize hn : (b₀.toNat - 0xC0) * 64 + (b₁.toNat - 0x80) = n
  have hv : (Char.ofNat n).val.toNat = n := toNat_ofNat_of_valid (Or.inl (by omega))
  simp only [String.utf8EncodeChar, hv]
  rw [if_neg (by omega), if_pos (by omega), byte_ofNat (b := b₀) (by omega),
    byte_ofNat (b := b₁) (by omega)]

/-- The three-byte form.  The range of the second byte depends on the lead. -/
theorem encode_three {b₀ b₁ b₂ : UInt8} (h₀ : 0xE0 ≤ b₀.toNat ∧ b₀.toNat ≤ 0xEF)
    (h₁ : 0x80 ≤ b₁.toNat ∧ b₁.toNat ≤ 0xBF) (h₂ : 0x80 ≤ b₂.toNat ∧ b₂.toNat ≤ 0xBF)
    (hlow : b₀.toNat = 0xE0 → 0xA0 ≤ b₁.toNat) (hhigh : b₀.toNat = 0xED → b₁.toNat ≤ 0x9F) :
    String.utf8EncodeChar (Char.ofNat
        (((b₀.toNat - 0xE0) * 64 + (b₁.toNat - 0x80)) * 64 + (b₂.toNat - 0x80))) =
      [b₀, b₁, b₂] := by
  generalize hn : ((b₀.toNat - 0xE0) * 64 + (b₁.toNat - 0x80)) * 64 + (b₂.toNat - 0x80) = n
  have hvalid : n.isValidChar := by
    unfold Nat.isValidChar
    omega
  have hv : (Char.ofNat n).val.toNat = n := toNat_ofNat_of_valid hvalid
  simp only [String.utf8EncodeChar, hv]
  rw [if_neg (by omega), if_neg (by omega), if_pos (by omega),
    byte_ofNat (b := b₀) (by omega), byte_ofNat (b := b₁) (by omega),
    byte_ofNat (b := b₂) (by omega)]

/-- The four-byte form. -/
theorem encode_four {b₀ b₁ b₂ b₃ : UInt8} (h₀ : 0xF0 ≤ b₀.toNat ∧ b₀.toNat ≤ 0xF4)
    (h₁ : 0x80 ≤ b₁.toNat ∧ b₁.toNat ≤ 0xBF) (h₂ : 0x80 ≤ b₂.toNat ∧ b₂.toNat ≤ 0xBF)
    (h₃ : 0x80 ≤ b₃.toNat ∧ b₃.toNat ≤ 0xBF)
    (hlow : b₀.toNat = 0xF0 → 0x90 ≤ b₁.toNat) (hhigh : b₀.toNat = 0xF4 → b₁.toNat ≤ 0x8F) :
    String.utf8EncodeChar (Char.ofNat
        ((((b₀.toNat - 0xF0) * 64 + (b₁.toNat - 0x80)) * 64 + (b₂.toNat - 0x80)) * 64 +
          (b₃.toNat - 0x80))) =
      [b₀, b₁, b₂, b₃] := by
  generalize hn : (((b₀.toNat - 0xF0) * 64 + (b₁.toNat - 0x80)) * 64 + (b₂.toNat - 0x80)) * 64 +
    (b₃.toNat - 0x80) = n
  have hvalid : n.isValidChar := Or.inr ⟨by omega, by omega⟩
  have hv : (Char.ofNat n).val.toNat = n := toNat_ofNat_of_valid hvalid
  simp only [String.utf8EncodeChar, hv]
  rw [if_neg (by omega), if_neg (by omega), if_neg (by omega),
    byte_ofNat (b := b₀) (by omega), byte_ofNat (b := b₁) (by omega),
    byte_ofNat (b := b₂) (by omega), byte_ofNat (b := b₃) (by omega)]

/-! ## Continuation bytes -/

/-- A rune that is read took all its continuation bytes from the front. -/
theorem continuation_rune {size : Nat}
    (h : continuation (more + 1) low high bits size p = .rune c n) :
    ∃ b rest, p = b :: rest ∧ (low ≤ b.toNat ∧ b.toNat ≤ high) ∧
      continuation more 0x80 0xBF (bits * 64 + (b.toNat - 0x80)) (size + 1) rest = .rune c n := by
  cases p with
  | nil => simp [continuation] at h
  | cons b rest =>
    rw [continuation] at h
    by_cases hb : low ≤ b.toNat ∧ b.toNat ≤ high
    · rw [if_pos hb] at h
      exact ⟨b, rest, rfl, hb, h⟩
    · rw [if_neg hb] at h
      cases h

/-- Bytes that follow do not change an answer that is not `short`. -/
theorem continuation_append {size : Nat} (h : continuation more low high bits size p ≠ .short)
    (s : List UInt8) :
    continuation more low high bits size (p ++ s) = continuation more low high bits size p := by
  induction more generalizing low high bits size p with
  | zero => rfl
  | succ more ih =>
    cases p with
    | nil => exact absurd rfl h
    | cons b rest =>
      rw [List.cons_append, continuation, continuation]
      by_cases hb : low ≤ b.toNat ∧ b.toNat ≤ high
      · rw [continuation, if_pos hb] at h
        rw [if_pos hb, if_pos hb, ih h]
      · rw [if_neg hb, if_neg hb]

/-- A short string is completed by low continuation bytes. -/
theorem continuation_short {size : Nat} (hlow : low < 256) (hrange : low ≤ high)
    (h : continuation more low high bits size p = .short) :
    ∃ s c, continuation more low high bits size (p ++ s) = .rune c (size + (p ++ s).length) := by
  induction more generalizing low high bits size p with
  | zero => simp [continuation] at h
  | succ more ih =>
    cases p with
    | nil =>
      have hb : (UInt8.ofNat low).toNat = low := by
        rw [UInt8.toNat_ofNat']
        omega
      -- the lowest byte of the range, then whatever completes the rest
      cases more with
      | zero =>
        refine ⟨[UInt8.ofNat low], Char.ofNat (bits * 64 + (low - 0x80)), ?_⟩
        rw [List.nil_append, continuation, hb, if_pos ⟨le_rfl, hrange⟩]
        rfl
      | succ more =>
        obtain ⟨s, c, hs⟩ := @ih 0x80 0xBF (bits * 64 + (low - 0x80)) [] (size + 1)
          (by omega) (by omega) rfl
        refine ⟨UInt8.ofNat low :: s, c, ?_⟩
        rw [List.nil_append] at hs ⊢
        rw [continuation, hb, if_pos ⟨le_rfl, hrange⟩, hs, List.length_cons]
        congr 1
        omega
    | cons b rest =>
      rw [continuation] at h
      by_cases hb : low ≤ b.toNat ∧ b.toNat ≤ high
      · rw [if_pos hb] at h
        obtain ⟨s, c, hs⟩ := ih (by omega) (by omega) h
        refine ⟨s, c, ?_⟩
        rw [List.cons_append, continuation, if_pos hb, hs, List.length_cons]
        congr 1
        omega
      · rw [if_neg hb] at h
        cases h

/-! ## One character -/

/-- The three multi-byte forms of a lead byte. -/
theorem lead_eq_some {b : UInt8} {l : Lead} (h : lead b = some l) :
    ((0xC2 ≤ b.toNat ∧ b.toNat ≤ 0xDF) ∧ l = ⟨1, b.toNat - 0xC0, 0x80, 0xBF⟩) ∨
      ((0xE0 ≤ b.toNat ∧ b.toNat ≤ 0xEF) ∧
        l = ⟨2, b.toNat - 0xE0, if b.toNat = 0xE0 then 0xA0 else 0x80,
          if b.toNat = 0xED then 0x9F else 0xBF⟩) ∨
      ((0xF0 ≤ b.toNat ∧ b.toNat ≤ 0xF4) ∧
        l = ⟨3, b.toNat - 0xF0, if b.toNat = 0xF0 then 0x90 else 0x80,
          if b.toNat = 0xF4 then 0x8F else 0xBF⟩) := by
  unfold lead at h
  split at h
  · next hb => exact .inl ⟨hb, (Option.some.inj h).symm⟩
  split at h
  · next hb => exact .inr (.inl ⟨hb, (Option.some.inj h).symm⟩)
  split at h
  · next hb => exact .inr (.inr ⟨hb, (Option.some.inj h).symm⟩)
  · cases h

theorem lead_range {b : UInt8} {l : Lead} (h : lead b = some l) :
    l.low < 256 ∧ l.low ≤ l.high := by
  obtain ⟨_, rfl⟩ | ⟨_, rfl⟩ | ⟨_, rfl⟩ := lead_eq_some h
  · exact ⟨by simp, by simp⟩
  · constructor <;> dsimp only <;> split <;> try split
    all_goals omega
  · constructor <;> dsimp only <;> split <;> try split
    all_goals omega

/-- A character that is read stands encoded in front of the string. -/
theorem decode_rune (h : decode p = .rune c n) :
    ∃ rest, p = String.utf8EncodeChar c ++ rest ∧ n = (String.utf8EncodeChar c).length := by
  cases p with
  | nil => cases h
  | cons b₀ rest =>
    rw [decode] at h
    by_cases hascii : b₀.toNat < 0x80
    · rw [if_pos hascii] at h
      cases h
      rw [encode_one hascii]
      exact ⟨rest, rfl, rfl⟩
    rw [if_neg hascii] at h
    cases hl : lead b₀ with
    | none => simp [hl] at h
    | some l =>
      simp only [hl] at h
      obtain ⟨h₀, rfl⟩ | ⟨h₀, rfl⟩ | ⟨h₀, rfl⟩ := lead_eq_some hl
      · obtain ⟨b₁, rest, rfl, h₁, h⟩ := continuation_rune h
        rw [continuation, Decoded.rune.injEq] at h
        obtain ⟨rfl, rfl⟩ := h
        rw [encode_two h₀ h₁]
        exact ⟨rest, rfl, rfl⟩
      · obtain ⟨b₁, rest, rfl, h₁, h⟩ := continuation_rune h
        obtain ⟨b₂, rest, rfl, h₂, h⟩ := continuation_rune h
        rw [continuation, Decoded.rune.injEq] at h
        obtain ⟨rfl, rfl⟩ := h
        have hsecond : (0x80 ≤ b₁.toNat ∧ b₁.toNat ≤ 0xBF) ∧
            (b₀.toNat = 0xE0 → 0xA0 ≤ b₁.toNat) ∧ (b₀.toNat = 0xED → b₁.toNat ≤ 0x9F) := by
          dsimp only at h₁
          split_ifs at h₁ <;> omega
        rw [encode_three h₀ hsecond.1 h₂ hsecond.2.1 hsecond.2.2]
        exact ⟨rest, rfl, rfl⟩
      · obtain ⟨b₁, rest, rfl, h₁, h⟩ := continuation_rune h
        obtain ⟨b₂, rest, rfl, h₂, h⟩ := continuation_rune h
        obtain ⟨b₃, rest, rfl, h₃, h⟩ := continuation_rune h
        rw [continuation, Decoded.rune.injEq] at h
        obtain ⟨rfl, rfl⟩ := h
        have hsecond : (0x80 ≤ b₁.toNat ∧ b₁.toNat ≤ 0xBF) ∧
            (b₀.toNat = 0xF0 → 0x90 ≤ b₁.toNat) ∧ (b₀.toNat = 0xF4 → b₁.toNat ≤ 0x8F) := by
          dsimp only at h₁
          split_ifs at h₁ <;> omega
        rw [encode_four h₀ hsecond.1 h₂ h₃ hsecond.2.1 hsecond.2.2]
        exact ⟨rest, rfl, rfl⟩

/-- Bytes that follow do not change an answer that is not `short`. -/
theorem decode_append (h : decode p ≠ .short) (s : List UInt8) : decode (p ++ s) = decode p := by
  cases p with
  | nil => exact absurd rfl h
  | cons b rest =>
    rw [List.cons_append, decode, decode]
    rw [decode] at h
    by_cases hascii : b.toNat < 0x80
    · rw [if_pos hascii, if_pos hascii]
    · rw [if_neg hascii] at h
      rw [if_neg hascii, if_neg hascii]
      cases hl : lead b with
      | none => rfl
      | some l =>
        simp only [hl] at h
        exact continuation_append h s

/-- A string that ends inside a character can be completed to that character. -/
theorem decode_short (h : decode p = .short) : ∃ s c, p ++ s = String.utf8EncodeChar c := by
  -- it is enough to complete the string to one whose first character is all of it
  suffices hs : ∃ s c, decode (p ++ s) = .rune c (p ++ s).length by
    obtain ⟨s, c, hs⟩ := hs
    obtain ⟨rest, hp, hlen⟩ := decode_rune hs
    refine ⟨s, c, ?_⟩
    have hrest : rest = [] := by
      have := congrArg List.length hp
      rw [@List.length_append _ (String.utf8EncodeChar c), ← hlen] at this
      exact List.eq_nil_of_length_eq_zero (by omega)
    rw [hp, hrest, List.append_nil]
  cases p with
  | nil => exact ⟨[0x41], 'A', by decide⟩
  | cons b rest =>
    rw [decode] at h
    by_cases hascii : b.toNat < 0x80
    · rw [if_pos hascii] at h
      cases h
    rw [if_neg hascii] at h
    cases hl : lead b with
    | none => simp [hl] at h
    | some l =>
      simp only [hl] at h
      obtain ⟨s, c, hs⟩ := continuation_short (lead_range hl).1 (lead_range hl).2 h
      refine ⟨s, c, ?_⟩
      rw [List.cons_append, decode, if_neg hascii, hl]
      dsimp only
      rw [hs, List.length_cons, Nat.add_comm]

/-! ## Reading an encoded character back -/

theorem ofNat_of_toNat (h : n = c.val.toNat) : Char.ofNat n = c := by
  rw [h]
  exact Char.ofNat_toNat c

/-- One continuation byte in its range. -/
theorem continuation_cons {size : Nat} {rest : List UInt8} (hn : n < 256) (h : low ≤ n ∧ n ≤ high) :
    continuation (more + 1) low high bits size (UInt8.ofNat n :: rest) =
      continuation more 0x80 0xBF (bits * 64 + (n - 0x80)) (size + 1) rest := by
  have hb : (UInt8.ofNat n).toNat = n := by
    rw [UInt8.toNat_ofNat']
    omega
  rw [continuation, hb, if_pos h]

/-- A lead byte above ASCII hands over to the continuation bytes. -/
theorem decode_lead {rest : List UInt8} (hn : n < 256) (hascii : 0x80 ≤ n)
    (h : lead (UInt8.ofNat n) = some ⟨more, bits, low, high⟩) :
    decode (UInt8.ofNat n :: rest) = continuation more low high bits 1 rest := by
  have hb : (UInt8.ofNat n).toNat = n := by
    rw [UInt8.toNat_ofNat']
    omega
  rw [decode, hb, if_neg (by omega), h]

/-- Every encoded character is read back, whatever follows it. -/
theorem decode_encode (c : Char) (rest : List UInt8) :
    decode (String.utf8EncodeChar c ++ rest) =
      .rune c (String.utf8EncodeChar c).length := by
  have hvalid : c.val.toNat.isValidChar := c.valid
  unfold Nat.isValidChar at hvalid
  generalize hv : c.val.toNat = v at hvalid
  have hmod (n : Nat) (hn : n < 256) : (UInt8.ofNat n).toNat = n := by
    rw [UInt8.toNat_ofNat']
    omega
  simp only [String.utf8EncodeChar, hv]
  by_cases h₁ : v ≤ 127
  · rw [if_pos h₁, List.cons_append, decode, hmod _ (by omega), if_pos (by omega),
      ofNat_of_toNat hv.symm]
    rfl
  rw [if_neg h₁]
  by_cases h₂ : v ≤ 2047
  · rw [if_pos h₂, List.cons_append, decode_lead (by omega) (by omega)
      (by rw [lead, hmod _ (by omega), if_pos (by omega)]), List.cons_append,
      continuation_cons (by omega) (by omega), continuation, ofNat_of_toNat (by rw [hv]; omega)]
    rfl
  rw [if_neg h₂]
  by_cases h₃ : v ≤ 65535
  · rw [if_pos h₃, List.cons_append, decode_lead (by omega) (by omega)
      (by rw [lead, hmod _ (by omega), if_neg (by omega), if_pos (by omega)]),
      List.cons_append, continuation_cons (by omega) (by split_ifs <;> omega),
      List.cons_append, continuation_cons (by omega) (by omega), continuation,
      ofNat_of_toNat (by rw [hv]; omega)]
    rfl
  · rw [if_neg h₃, List.cons_append, decode_lead (by omega) (by omega)
      (by rw [lead, hmod _ (by omega), if_neg (by omega), if_neg (by omega),
        if_pos (by omega)]),
      List.cons_append, continuation_cons (by omega) (by split_ifs <;> omega),
      List.cons_append, continuation_cons (by omega) (by omega),
      List.cons_append, continuation_cons (by omega) (by omega), continuation,
      ofNat_of_toNat (by rw [hv]; omega)]
    rfl

/-! ## ASCII and the other characters -/

theorem encode_ascii (h : c.toNat < 0x80) : String.utf8EncodeChar c = [UInt8.ofNat c.toNat] := by
  have hv : c.val.toNat < 0x80 := h
  simp only [String.utf8EncodeChar]
  rw [if_pos (by omega)]
  rfl

/-- The bytes of a character outside ASCII are all outside ASCII. -/
theorem encode_high (h : 0x80 ≤ c.toNat) :
    1 < (String.utf8EncodeChar c).length ∧
      ∀ b ∈ String.utf8EncodeChar c, 0x80 ≤ b.toNat := by
  have hvalid : c.val.toNat.isValidChar := c.valid
  unfold Nat.isValidChar at hvalid
  have hv : 0x80 ≤ c.val.toNat := h
  generalize hc : c.val.toNat = v at hvalid hv
  have hbyte (n : Nat) (hn : n < 0x100) (hhigh : 0x80 ≤ n) : 0x80 ≤ (UInt8.ofNat n).toNat := by
    rw [UInt8.toNat_ofNat']
    omega
  simp only [String.utf8EncodeChar, hc]
  rw [if_neg (by omega)]
  split
  · refine ⟨by simp, ?_⟩
    simp only [List.forall_mem_cons]
    exact ⟨hbyte _ (by omega) (by omega), hbyte _ (by omega) (by omega), nofun⟩
  split
  · refine ⟨by simp, ?_⟩
    simp only [List.forall_mem_cons]
    exact ⟨hbyte _ (by omega) (by omega), hbyte _ (by omega) (by omega),
      hbyte _ (by omega) (by omega), nofun⟩
  · refine ⟨by simp, ?_⟩
    simp only [List.forall_mem_cons]
    exact ⟨hbyte _ (by omega) (by omega), hbyte _ (by omega) (by omega),
      hbyte _ (by omega) (by omega), hbyte _ (by omega) (by omega), nofun⟩

end Streamweld.Lib.Utf8
