import Streamweld.Lib.Utf8

/-!
# UTF-8 texts, byte by byte

`encode` writes a text.  `feed` reads one as it arrives: it keeps the bytes of
the character that is not finished and answers the characters that are.

* `feed_append`: reading a string in two pieces is reading it at once;
* `feed_encode` and `feed_sound`: what is read is what was encoded;
* `valid_iff`: `valid` accepts the encoded texts;
* `encode_split` and `splitOn_encode`: an ASCII byte stands for the character,
  so that a text may be cut at it before or after it is encoded.

`TextDecoder` is the decoder of the encoding standard on top of `feed`: it
refuses malformed input and drops one byte order mark in front.
-/

namespace Streamweld.Lib.Utf8

variable {p data : List UInt8} {c : Char}

/-- The encoding of a text. -/
def encode (text : List Char) : List UInt8 := text.flatMap String.utf8EncodeChar

@[simp] theorem encode_nil : encode [] = [] := rfl

theorem encode_cons (c : Char) (text : List Char) :
    encode (c :: text) = String.utf8EncodeChar c ++ encode text := rfl

@[simp] theorem encode_append (text more : List Char) :
    encode (text ++ more) = encode text ++ encode more :=
  List.flatMap_append

/-- One byte after the bytes `pending` of a character that is not finished. -/
def feedByte (pending : List UInt8) (b : UInt8) : Option (List UInt8 × List Char) :=
  match decode (pending ++ [b]) with
  | .rune c _ => some ([], [c])
  | .short => some (pending ++ [b], [])
  | .invalid => none

/-- Reads bytes, and answers the bytes of the character that is not finished
and the characters that are. -/
def feed : List UInt8 → List UInt8 → Option (List UInt8 × List Char)
  | pending, [] => some (pending, [])
  | pending, b :: rest =>
    (feedByte pending b).bind fun first =>
      (feed first.1 rest).map fun more => (more.1, first.2 ++ more.2)

/-- Bytes that arrive in two pieces. -/
theorem feed_append (pending a b : List UInt8) :
    feed pending (a ++ b) =
      (feed pending a).bind fun first =>
        (feed first.1 b).map fun more => (more.1, first.2 ++ more.2) := by
  induction a generalizing pending with
  | nil => cases h : feed pending b <;> simp [feed, h]
  | cons x a ih =>
    rw [List.cons_append, feed, feed]
    cases feedByte pending x with
    | none => rfl
    | some first =>
      simp only [Option.bind_some, ih]
      cases feed first.1 a with
      | none => rfl
      | some second => cases h : feed second.1 b <;> simp [h]

/-! ## What was encoded is read -/

/-- The bytes of a character but the last are not a character. -/
theorem decode_of_prefix {s : List UInt8} (h : p ++ s = String.utf8EncodeChar c) (hs : s ≠ []) :
    decode p = .short := by
  by_contra hshort
  have hdecode := decode_append hshort s
  have hchar := decode_encode c []
  rw [List.append_nil, ← h, hdecode] at hchar
  obtain ⟨rest, hp, -⟩ := decode_rune hchar
  have hlen := congrArg List.length h
  have hlen' := congrArg List.length hp
  simp only [List.length_append] at hlen hlen'
  exact hs (List.eq_nil_of_length_eq_zero (by omega))

/-- The rest of a character finishes it. -/
theorem feed_char {s : List UInt8} (h : p ++ s = String.utf8EncodeChar c) (hs : s ≠ []) :
    feed p s = some ([], [c]) := by
  induction s generalizing p with
  | nil => exact absurd rfl hs
  | cons b s ih =>
    rw [List.append_cons] at h
    by_cases hlast : s = []
    · subst hlast
      rw [List.append_nil] at h
      have hchar := decode_encode c []
      rw [List.append_nil, ← h] at hchar
      simp only [feed, feedByte, hchar, Option.bind_some, Option.map_some, List.append_nil]
    · have hshort := decode_of_prefix h hlast
      simp only [feed, feedByte, hshort, Option.bind_some, ih h hlast, Option.map_some,
        List.nil_append]

/-- A text that arrives is read, whatever follows it. -/
theorem feed_encode_append (text : List Char) (rest : List UInt8) :
    feed [] (encode text ++ rest) = (feed [] rest).map fun more => (more.1, text ++ more.2) := by
  induction text with
  | nil => cases h : feed [] rest <;> simp [h]
  | cons c text ih =>
    have hne : String.utf8EncodeChar c ≠ [] := by
      intro hnil
      have hchar := decode_encode c []
      rw [hnil] at hchar
      cases hchar
    rw [encode_cons, List.append_assoc, feed_append, feed_char (List.nil_append _) hne,
      Option.bind_some, ih]
    cases h : feed [] rest <;> simp

theorem feed_encode (text : List Char) : feed [] (encode text) = some ([], text) := by
  have := feed_encode_append text []
  simpa [feed] using this

theorem encode_injective {text text' : List Char} (h : encode text = encode text') :
    text = text' := by
  have := feed_encode text
  rw [h, feed_encode] at this
  cases this
  rfl

/-! ## What is read was encoded -/

/-- The byte that finishes a character finishes its encoding. -/
theorem eq_encode_of_rune {b : UInt8} {n : Nat} (hp : decode p = .short)
    (h : decode (p ++ [b]) = .rune c n) : p ++ [b] = String.utf8EncodeChar c := by
  obtain ⟨rest, heq, -⟩ := decode_rune h
  obtain rfl | ⟨front, last, rfl⟩ := List.eq_nil_or_concat' rest
  · rw [heq, List.append_nil]
  · -- otherwise the character was there before the byte
    rw [← List.append_assoc] at heq
    obtain ⟨rfl, -⟩ := List.append_inj' heq rfl
    rw [decode_encode] at hp
    cases hp

theorem feed_sound {q : List UInt8} {text : List Char} (hp : decode p = .short)
    (h : feed p data = some (q, text)) : p ++ data = encode text ++ q ∧ decode q = .short := by
  induction data generalizing p text with
  | nil =>
    rw [feed] at h
    cases h
    exact ⟨by rw [List.append_nil, encode_nil, List.nil_append], hp⟩
  | cons b data ih =>
    rw [feed, feedByte] at h
    cases hdecode : decode (p ++ [b]) with
    | invalid => simp [hdecode] at h
    | short =>
      simp only [hdecode, Option.bind_some, Option.map_eq_some_iff] at h
      obtain ⟨⟨q', text'⟩, hfeed, heq⟩ := h
      cases heq
      have := ih hdecode hfeed
      rwa [← List.append_cons] at this
    | rune c n =>
      simp only [hdecode, Option.bind_some, Option.map_eq_some_iff] at h
      obtain ⟨⟨q', text'⟩, hfeed, heq⟩ := h
      cases heq
      obtain ⟨hdata, hq⟩ := ih rfl hfeed
      refine ⟨?_, hq⟩
      rw [List.append_cons, eq_encode_of_rune hp hdecode, ← List.nil_append data, hdata,
        List.singleton_append, encode_cons, List.append_assoc]

/-- Whether a byte string is the encoding of a text. -/
def valid (data : List UInt8) : Bool := (feed [] data).any fun read => read.1.isEmpty

theorem valid_iff : valid data = true ↔ ∃ text, encode text = data := by
  constructor
  · intro h
    cases hfeed : feed [] data with
    | none => simp [valid, hfeed] at h
    | some read =>
      simp only [valid, hfeed, Option.any_some, List.isEmpty_iff] at h
      obtain ⟨hdata, -⟩ := feed_sound rfl hfeed
      rw [h, List.nil_append, List.append_nil] at hdata
      exact ⟨read.2, hdata.symm⟩
  · rintro ⟨text, rfl⟩
    simp [valid, feed_encode]

/-- The text that a byte string encodes. -/
def text (data : List UInt8) : List Char := ((feed [] data).getD ([], [])).2

@[simp] theorem text_encode (t : List Char) : text (encode t) = t := by
  rw [text, feed_encode]
  rfl

theorem encode_text (h : valid data = true) : encode (text data) = data := by
  obtain ⟨t, rfl⟩ := valid_iff.mp h
  rw [text_encode]

theorem valid_encode (t : List Char) : valid (encode t) = true := valid_iff.mpr ⟨t, rfl⟩

theorem encode_eq_nil {t : List Char} : encode t = [] ↔ t = [] :=
  ⟨fun h => encode_injective (h.trans encode_nil.symm), fun h => h ▸ encode_nil⟩

/-! ## Cutting at ASCII -/

/-- An ASCII byte of an encoded text stands for a character of the text. -/
theorem encode_split {text : List Char} {a b : List UInt8} (hc : c.toNat < 0x80)
    (h : encode text = a ++ UInt8.ofNat c.toNat :: b) :
    ∃ front back, text = front ++ c :: back ∧ encode front = a ∧ encode back = b := by
  have hbyte : (UInt8.ofNat c.toNat).toNat = c.toNat := by
    rw [UInt8.toNat_ofNat']
    omega
  induction text generalizing a with
  | nil => simp at h
  | cons d text ih =>
    rw [encode_cons] at h
    by_cases hd : d.toNat < 0x80
    · rw [encode_ascii hd, List.singleton_append] at h
      cases a with
      | nil =>
        obtain ⟨hhead, rfl⟩ := List.cons.inj h
        refine ⟨[], text, ?_, rfl, rfl⟩
        have hnat := congrArg UInt8.toNat hhead
        rw [UInt8.toNat_ofNat', hbyte, Nat.mod_eq_of_lt (by omega)] at hnat
        rw [List.nil_append, Char.toNat_inj.mp hnat]
      | cons x a =>
        obtain ⟨rfl, htail⟩ := List.cons.inj h
        obtain ⟨front, back, rfl, rfl, rfl⟩ := ih htail
        exact ⟨d :: front, back, rfl, by rw [encode_cons, encode_ascii hd]; rfl, rfl⟩
    · -- none of the bytes of the first character is ASCII
      have hhigh := (encode_high (not_lt.mp hd)).2
      obtain ⟨w, rfl, hw⟩ | ⟨w, hw, hb⟩ := List.append_eq_append_iff.mp h
      · obtain ⟨front, back, rfl, rfl, rfl⟩ := ih hw
        exact ⟨d :: front, back, rfl, rfl, rfl⟩
      · cases w with
        | nil =>
          rw [List.append_nil] at hw
          obtain ⟨front, back, rfl, hfront, rfl⟩ := ih (a := []) hb.symm
          refine ⟨d :: front, back, rfl, ?_, rfl⟩
          rw [encode_cons, hfront, List.append_nil, hw]
        | cons x w =>
          obtain ⟨rfl, -⟩ := List.cons.inj hb
          have := hhigh (UInt8.ofNat c.toNat) (by rw [hw]; simp)
          omega

theorem mem_encode {text : List Char} (hc : c.toNat < 0x80) :
    UInt8.ofNat c.toNat ∈ encode text ↔ c ∈ text := by
  constructor
  · intro h
    obtain ⟨a, b, heq⟩ := List.append_of_mem h
    obtain ⟨front, back, rfl, -, -⟩ := encode_split hc heq
    simp
  · intro h
    obtain ⟨front, back, rfl⟩ := List.append_of_mem h
    rw [encode_append, encode_cons, encode_ascii hc]
    simp

/-- The bytes of an ASCII text are its characters. -/
theorem map_encode_ascii {text : List Char} (h : ∀ c ∈ text, c.toNat < 0x80) :
    (encode text).map (fun b => Char.ofNat b.toNat) = text := by
  induction text with
  | nil => rfl
  | cons c text ih =>
    rw [List.forall_mem_cons] at h
    have hc : (UInt8.ofNat c.toNat).toNat = c.toNat := by
      rw [UInt8.toNat_ofNat', Nat.mod_eq_of_lt (by omega)]
    rw [encode_cons, encode_ascii h.1, List.map_append, List.map_singleton, hc, Char.ofNat_toNat,
      ih h.2]
    rfl


/-- A text is cut at an ASCII character before or after it is encoded. -/
theorem splitOn_encode (hc : c.toNat < 0x80) (text : List Char) :
    (encode text).splitOn (UInt8.ofNat c.toNat) = (text.splitOn c).map encode := by
  -- cut off the first piece, if there is a second one
  induction hlen : text.length using Nat.strong_induction_on generalizing text with
  | _ n ih =>
    by_cases hmem : c ∈ text
    · obtain ⟨front, back, rfl, hfront⟩ := List.eq_append_cons_of_mem hmem
      rw [encode_append, encode_cons, encode_ascii hc, List.singleton_append]
      have hsplit {α : Type} [BEq α] [LawfulBEq α] (x : α) (front back : List α) :
          (front ++ x :: back).splitOn x = front.splitOn x ++ back.splitOn x :=
        List.splitOnP_append_cons _ _ (by simp)
      rw [hsplit, hsplit, List.map_append, ih front.length (by simp at hlen; omega) front rfl,
        ih back.length (by simp at hlen; omega) back rfl]
    · have hone {α : Type} [BEq α] [LawfulBEq α] {x : α} {l : List α} (h : x ∉ l) :
          l.splitOn x = [l] := by
        refine List.splitOnP_eq_singleton fun y hy => ?_
        rw [beq_eq_false_iff_ne]
        exact fun heq => h (heq ▸ hy)
      rw [hone hmem, hone (mt (mem_encode hc).mp hmem), List.map_singleton]

/-! ## The text decoder -/

/-- A `TextDecoder` for UTF-8 that is fatal and does not ignore byte order
marks, in the middle of a stream. -/
structure TextDecoder where
  pending : List UInt8
  bomSeen : Bool
  deriving DecidableEq, Repr

namespace TextDecoder

def new : TextDecoder := ⟨[], false⟩

/-- The byte order mark. -/
def bom : Char := Char.ofNat 0xFEFF

/-- `decode(chunk, { stream: true })`. -/
def decode (decoder : TextDecoder) (chunk : List UInt8) : Option (TextDecoder × List Char) :=
  (feed decoder.pending chunk).map fun read =>
    match read.2 with
    | [] => ({ decoder with pending := read.1 }, [])
    | c :: text =>
      (⟨read.1, true⟩, if decoder.bomSeen = false ∧ c = bom then text else c :: text)

/-- `decode()`: the stream must not end inside a character. -/
def flush (decoder : TextDecoder) : Option (List Char) :=
  if decoder.pending = [] then some [] else none

/-- The text without the byte order mark of the stream. -/
def dropMark (seen : Bool) (text : List Char) : List Char :=
  if seen = false ∧ text.head? = some bom then text.tail else text

theorem decode_eq (decoder : TextDecoder) (chunk : List UInt8) :
    decoder.decode chunk = (feed decoder.pending chunk).map fun read =>
      (⟨read.1, decoder.bomSeen || !read.2.isEmpty⟩, dropMark decoder.bomSeen read.2) := by
  unfold decode
  refine congrArg (fun f => (feed decoder.pending chunk).map f) (funext fun read => ?_)
  obtain ⟨pending, text⟩ := read
  cases text with
  | nil => simp [dropMark]
  | cons c text => simp [dropMark]

/-- The mark is dropped in the first chunk with text or not at all. -/
theorem dropMark_append (seen : Bool) (a b : List Char) :
    dropMark seen (a ++ b) = dropMark seen a ++ dropMark (seen || !a.isEmpty) b := by
  cases a with
  | nil => simp [dropMark]
  | cons c a =>
    have hrest : dropMark (seen || !(c :: a).isEmpty) b = b := by simp [dropMark]
    rw [hrest]
    unfold dropMark
    rw [List.cons_append, List.head?_cons, List.head?_cons]
    split <;> rfl

/-- The chunks of a stream may be joined. -/
theorem decode_append (decoder : TextDecoder) (a b : List UInt8) :
    decoder.decode (a ++ b) =
      (decoder.decode a).bind fun first =>
        (first.1.decode b).map fun more => (more.1, first.2 ++ more.2) := by
  rw [decode_eq, decode_eq, feed_append]
  cases feed decoder.pending a with
  | none => rfl
  | some first =>
    rw [Option.bind_some, Option.map_some, Option.bind_some, decode_eq]
    cases feed first.1 b with
    | none => rfl
    | some more =>
      have hempty : (first.2 ++ more.2).isEmpty = (first.2.isEmpty && more.2.isEmpty) := by
        cases first.2 <;> rfl
      simp [dropMark_append, Bool.or_assoc, hempty]

end TextDecoder

end Streamweld.Lib.Utf8
