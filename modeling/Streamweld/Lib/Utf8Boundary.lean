import Streamweld.Lib.Utf8Stream

/-!
# Boundaries of an encoded text

A boundary of a byte string is an offset at which it is cut into two encoded texts
(`Boundary`).  The first byte of an encoded character is a rune start and the others are not,
so a boundary is found by looking at one byte (`boundary_of_runeStart`).

`descend` is the loop that counts a number down until a test holds.
-/

namespace Streamweld.Lib

/-! ## Counting down -/

/-- The greatest number up to a given one that passes a test; zero is not tested. -/
def descend (test : Nat → Bool) : Nat → Nat
  | 0 => 0
  | n + 1 => if test (n + 1) then n + 1 else descend test n

theorem descend_spec (test : Nat → Bool) (n : Nat) :
    IsGreatest {k | k ≤ n ∧ (k = 0 ∨ test k = true)} (descend test n) := by
  induction n with
  | zero => exact ⟨⟨le_rfl, .inl rfl⟩, fun k hk => hk.1⟩
  | succ n ih =>
    rw [descend]
    split
    · rename_i htest
      exact ⟨⟨le_rfl, .inr htest⟩, fun k hk => hk.1⟩
    · rename_i htest
      refine ⟨⟨ih.1.1.trans n.le_succ, ih.1.2⟩, fun k hk => ih.2 ⟨?_, hk.2⟩⟩
      rcases hk.2 with rfl | hk'
      · exact Nat.zero_le n
      · have hne : k ≠ n + 1 := fun heq => htest (heq ▸ hk')
        have hle : k ≤ n + 1 := hk.1
        omega

namespace Utf8

/-! ## Rune starts -/

/-- `utf8.RuneStart`. -/
def runeStart (b : UInt8) : Bool := b.toNat &&& 0xC0 != 0x80

theorem runeStart_iff (b : UInt8) : runeStart b = true ↔ b.toNat < 0x80 ∨ 0xC0 ≤ b.toNat := by
  have hall : ∀ n < 256, (n &&& 0xC0 != 0x80) = decide (n < 0x80 ∨ 0xC0 ≤ n) := by
    decide +kernel
  rw [runeStart, hall b.toNat b.toNat_lt]
  exact decide_eq_true_iff

/-- A character is encoded as a rune start and bytes that are none. -/
theorem encodeChar_runeStart (c : Char) :
    ∃ b rest, String.utf8EncodeChar c = b :: rest ∧ runeStart b = true ∧
      ∀ x ∈ rest, runeStart x = false := by
  have hbyte (n : Nat) (hn : n < 0x100) : (UInt8.ofNat n).toNat = n := by
    rw [UInt8.toNat_ofNat']
    omega
  have hstart (n : Nat) (hn : n < 0x80 ∨ 0xC0 ≤ n ∧ n < 0x100) : runeStart (UInt8.ofNat n) = true := by
    rw [runeStart_iff, hbyte n (by omega)]
    omega
  have hcontinue (n : Nat) (hn : 0x80 ≤ n ∧ n < 0xC0) : runeStart (UInt8.ofNat n) = false := by
    rw [Bool.eq_false_iff, Ne, runeStart_iff, hbyte n (by omega)]
    omega
  have hvalid : c.val.toNat.isValidChar := c.valid
  unfold Nat.isValidChar at hvalid
  generalize hc : c.val.toNat = v at hvalid
  simp only [String.utf8EncodeChar, hc]
  split
  · exact ⟨_, _, rfl, hstart _ (by omega), List.forall_mem_nil _⟩
  split
  · refine ⟨_, _, rfl, hstart _ (by omega), ?_⟩
    simp only [List.forall_mem_cons]
    exact ⟨hcontinue _ (by omega), List.forall_mem_nil _⟩
  split
  · refine ⟨_, _, rfl, hstart _ (by omega), ?_⟩
    simp only [List.forall_mem_cons]
    exact ⟨hcontinue _ (by omega), hcontinue _ (by omega), List.forall_mem_nil _⟩
  · refine ⟨_, _, rfl, hstart _ (by omega), ?_⟩
    simp only [List.forall_mem_cons]
    exact ⟨hcontinue _ (by omega), hcontinue _ (by omega), hcontinue _ (by omega),
      List.forall_mem_nil _⟩

/-! ## Boundaries -/

/-- An offset at which a byte string is cut into two encoded texts. -/
def Boundary (data : List UInt8) (offset : Nat) : Prop :=
  ∃ left right, encode left ++ encode right = data ∧ (encode left).length = offset

theorem boundary_encode_iff {t : List Char} {offset : Nat} :
    Boundary (encode t) offset ↔ ∃ left right, left ++ right = t ∧ (encode left).length = offset := by
  constructor
  · rintro ⟨left, right, hdata, hoffset⟩
    rw [← encode_append] at hdata
    exact ⟨left, right, encode_injective hdata, hoffset⟩
  · rintro ⟨left, right, rfl, hoffset⟩
    exact ⟨left, right, (encode_append left right).symm, hoffset⟩

theorem Boundary.le_length {data : List UInt8} {offset : Nat} (h : Boundary data offset) :
    offset ≤ data.length := by
  obtain ⟨left, right, rfl, rfl⟩ := h
  simp

theorem Boundary.zero (t : List Char) : Boundary (encode t) 0 := ⟨[], t, rfl, rfl⟩

theorem Boundary.length (t : List Char) : Boundary (encode t) (encode t).length :=
  ⟨t, [], List.append_nil _, rfl⟩

/-- The byte at a boundary before the end is a rune start. -/
theorem Boundary.runeStart {data : List UInt8} {offset : Nat} (h : Boundary data offset) :
    offset = data.length ∨ (data[offset]?).any Utf8.runeStart = true := by
  obtain ⟨left, right, rfl, rfl⟩ := h
  cases right with
  | nil => exact .inl (by simp)
  | cons c right =>
    obtain ⟨b, rest, hc, hb, _⟩ := encodeChar_runeStart c
    refine .inr ?_
    rw [encode_cons, hc, List.cons_append, List.getElem?_append_right le_rfl, Nat.sub_self]
    exact hb

/-- A rune start stands at a boundary. -/
theorem boundary_of_runeStart {t : List Char} {offset : Nat}
    (h : ((encode t)[offset]?).any runeStart = true) : Boundary (encode t) offset := by
  rw [boundary_encode_iff]
  induction t generalizing offset with
  | nil => exact absurd h (by simp)
  | cons c t ih =>
    obtain ⟨b, rest, hc, _, hrest⟩ := encodeChar_runeStart c
    have hcons : encode (c :: t) = (b :: rest) ++ encode t := by rw [encode_cons, hc]
    rw [hcons] at h
    by_cases hin : offset < (b :: rest).length
    · -- inside the first character only its first byte is a rune start
      rw [List.getElem?_append_left hin] at h
      cases offset with
      | zero => exact ⟨[], c :: t, rfl, rfl⟩
      | succ offset =>
        rw [List.getElem?_cons_succ] at h
        cases hbyte : rest[offset]? with
        | none => exact absurd h (by simp [hbyte])
        | some x =>
          rw [hbyte, Option.any_some, hrest x (List.mem_of_getElem? hbyte)] at h
          exact absurd h Bool.false_ne_true
    · rw [List.getElem?_append_right (by omega)] at h
      obtain ⟨left, right, rfl, hoffset⟩ := ih h
      refine ⟨c :: left, right, rfl, ?_⟩
      rw [encode_cons, hc, List.length_append, hoffset]
      omega

end Utf8

end Streamweld.Lib
