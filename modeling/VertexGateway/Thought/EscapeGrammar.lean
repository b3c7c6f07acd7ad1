import VertexGateway.Text.Hex
import VertexGateway.Thought.SignatureEscape

/-!
# The escape grammar

An escaped signature is a sequence of items, each a character other than `-` or a `-` and two
hexadecimal digits. The decoder leaves the digits to the library's number parser, which also takes
a plus sign in front of one digit. So it accepts the grammar with that one more kind of escape, and
agrees with the grammar itself on all texts that do not use it.
-/

namespace VertexGateway.Thought

open Hex (hexValue toNat_lt_of_hexValue)

/-! ## The grammar -/

/-- Two hexadecimal digits and the byte they write. -/
def HexPair (first second : Char) (byte : UInt8) : Prop :=
  ∃ high low, hexValue first = some high ∧ hexValue second = some low ∧
    byte = UInt8.ofNat (16 * high + low)

/-- A plus sign and one digit, which the number parser takes for a byte as well. -/
def SignedDigit (first second : Char) (byte : UInt8) : Prop :=
  first = '+' ∧ ∃ low, hexValue second = some low ∧ byte = UInt8.ofNat low

def ParsedPair (first second : Char) (byte : UInt8) : Prop :=
  HexPair first second byte ∨ SignedDigit first second byte

/-- The text is a sequence of plain characters and escapes, and denotes these bytes. -/
inductive Denotes (escape : Char → Char → UInt8 → Prop) : List Char → List UInt8 → Prop
  | nil : Denotes escape [] []
  | plain {c : Char} {rest : List Char} {bytes : List UInt8} (hc : c ≠ escapeChar)
      (hrest : Denotes escape rest bytes) :
      Denotes escape (c :: rest) (String.utf8EncodeChar c ++ bytes)
  | escaped {first second : Char} {byte : UInt8} {rest : List Char} {bytes : List UInt8}
      (hpair : escape first second byte) (hrest : Denotes escape rest bytes) :
      Denotes escape (escapeChar :: first :: second :: rest) (byte :: bytes)

/-- One of the items is a `-` with a plus sign and one digit. -/
inductive HasSignedEscape : List Char → Prop
  | here {first second : Char} {byte : UInt8} {rest : List Char}
      (hpair : SignedDigit first second byte) :
      HasSignedEscape (escapeChar :: first :: second :: rest)
  | plain {c : Char} {rest : List Char} (hc : c ≠ escapeChar) (hrest : HasSignedEscape rest) :
      HasSignedEscape (c :: rest)
  | escaped {first second : Char} {rest : List Char} (hrest : HasSignedEscape rest) :
      HasSignedEscape (escapeChar :: first :: second :: rest)

theorem Denotes.mono {narrow wide : Char → Char → UInt8 → Prop} {text : List Char}
    {bytes : List UInt8} (h : Denotes narrow text bytes)
    (hwide : ∀ first second byte, narrow first second byte → wide first second byte) :
    Denotes wide text bytes := by
  induction h with
  | nil => exact Denotes.nil
  | plain hc _ ih => exact Denotes.plain hc ih
  | escaped hpair _ ih => exact Denotes.escaped (hwide _ _ _ hpair) ih

/-- What the parser accepts is in the grammar, or uses a sign. -/
theorem Denotes.hexPair_or_signed {text : List Char} {bytes : List UInt8}
    (h : Denotes ParsedPair text bytes) : Denotes HexPair text bytes ∨ HasSignedEscape text := by
  induction h with
  | nil => exact Or.inl Denotes.nil
  | plain hc _ ih => exact ih.imp (Denotes.plain hc) (HasSignedEscape.plain hc)
  | escaped hpair _ ih =>
    rcases hpair with hpair | hsigned
    · exact ih.imp (Denotes.escaped hpair) HasSignedEscape.escaped
    · exact Or.inr (HasSignedEscape.here hsigned)

theorem not_hexPair_plus (second : Char) (byte : UInt8) : ¬ HexPair '+' second byte := by
  rintro ⟨high, low, hhigh, -, -⟩
  have hplus : hexValue '+' = none := by decide
  rw [hplus] at hhigh
  exact absurd hhigh.symm (Option.some_ne_none high)

/-- No text with a signed escape is in the grammar. -/
theorem HasSignedEscape.not_denotes {text : List Char} (h : HasSignedEscape text)
    (bytes : List UInt8) : ¬ Denotes HexPair text bytes := by
  induction h generalizing bytes with
  | here hsigned =>
    intro hdenotes
    cases hdenotes with
    | plain hc _ => exact hc rfl
    | escaped hpair _ => exact not_hexPair_plus _ _ (hsigned.1 ▸ hpair)
  | plain hc _ ih =>
    intro hdenotes
    cases hdenotes with
    | plain _ hrest => exact ih _ hrest
    | escaped _ _ => exact hc rfl
  | escaped _ ih =>
    intro hdenotes
    cases hdenotes with
    | plain hc _ => exact hc rfl
    | escaped _ hrest => exact ih _ hrest

/-! ## Digits as bytes and as characters -/

theorem hexDigit_ofNat_toNat {c : Char} (h : c.toNat < 0x80) :
    hexDigit (UInt8.ofNat c.toNat) = hexValue c := by
  have hall : ∀ n < 0x80, hexDigit (UInt8.ofNat n) = hexValue (Char.ofNat n) := by decide
  rw [hall c.toNat h, Char.ofNat_toNat]

/-- A byte that reads as a digit is ASCII and no sign. -/
theorem hexDigit_spec {byte : UInt8} {digit : ℕ} (h : hexDigit byte = some digit) :
    digit < 16 ∧ byte < 0x80 ∧ byte ≠ 0x2B := by
  have hall := @forall_byte (fun byte ↦ (hexDigit byte).all
    (fun digit ↦ decide (digit < 16 ∧ byte < 0x80 ∧ byte ≠ 0x2B)) = true) (by decide +kernel) byte
  rw [h] at hall
  exact of_decide_eq_true hall

/-- What the number parser makes of two bytes. -/
theorem u8FromStrRadix16_eq_some_iff (first second byte : UInt8) :
    u8FromStrRadix16 [first, second] = some byte ↔
      (∃ high low, hexDigit first = some high ∧ hexDigit second = some low ∧
        byte = UInt8.ofNat (16 * high + low)) ∨
      (first = 0x2B ∧ ∃ low, hexDigit second = some low ∧ byte = UInt8.ofNat low) := by
  by_cases hplus : first = 0x2B
  · have hnone : hexDigit first = none := by
      rw [hplus]
      decide
    cases hsecond : hexDigit second with
    | none => simp [u8FromStrRadix16, hplus, hsecond]
    | some low =>
      have hlow : low < 256 := by
        have := (hexDigit_spec hsecond).1
        omega
      rw [hplus] at hnone
      simp [u8FromStrRadix16, hplus, hnone, hsecond, hlow, eq_comm]
  · cases hfirst : hexDigit first with
    | none => simp [u8FromStrRadix16, hplus, hfirst]
    | some high =>
      cases hsecond : hexDigit second with
      | none => simp [u8FromStrRadix16, hplus, hfirst, hsecond]
      | some low =>
        have hhigh := (hexDigit_spec hfirst).1
        have hlow := (hexDigit_spec hsecond).1
        have hsmall : high < 256 := by omega
        have hsum : 16 * high + low < 256 := by omega
        simp [u8FromStrRadix16, hplus, hfirst, hsecond, hsmall, hsum, eq_comm]

theorem u8FromStrRadix16_chars_iff {first second : Char} (hfirst : first.toNat < 0x80)
    (hsecond : second.toNat < 0x80) (byte : UInt8) :
    u8FromStrRadix16 [UInt8.ofNat first.toNat, UInt8.ofNat second.toNat] = some byte ↔
      ParsedPair first second byte := by
  have hplus : UInt8.ofNat first.toNat = 0x2B ↔ first = '+' := by
    have hall : ∀ n < 0x80, UInt8.ofNat n = 0x2B ↔ Char.ofNat n = '+' := by decide
    rw [hall first.toNat hfirst, Char.ofNat_toNat]
  rw [u8FromStrRadix16_eq_some_iff, hexDigit_ofNat_toNat hfirst, hexDigit_ofNat_toNat hsecond,
    hplus]
  rfl

theorem parsedPair_ascii {first second : Char} {byte : UInt8} (h : ParsedPair first second byte) :
    first.toNat < 0x80 ∧ second.toNat < 0x80 := by
  rcases h with ⟨high, low, hhigh, hlow, -⟩ | ⟨rfl, low, hlow, -⟩
  · exact ⟨toNat_lt_of_hexValue hhigh, toNat_lt_of_hexValue hlow⟩
  · exact ⟨by decide, toNat_lt_of_hexValue hlow⟩

/-! ## One escape -/

/-- The bytes of some characters, which the loop has ahead of it. -/
def Ahead (encoded : List UInt8) (index : ℕ) (chars : List Char) : Prop :=
  encoded.drop index = chars.flatMap String.utf8EncodeChar

theorem Ahead.pass {encoded : List UInt8} {index : ℕ} {c : Char} {rest : List Char}
    (h : Ahead encoded index (c :: rest)) :
    Ahead encoded (index + (String.utf8EncodeChar c).length) rest := by
  unfold Ahead at h ⊢
  rw [← List.drop_drop, h, List.flatMap_cons, List.drop_left]

theorem Ahead.pass_ascii {encoded : List UInt8} {index : ℕ} {c : Char} {rest : List Char}
    (h : Ahead encoded index (c :: rest)) (hc : c.toNat < 0x80) : Ahead encoded (index + 1) rest := by
  have hpass := h.pass
  rwa [Utf8.encodeChar_of_ascii hc] at hpass

theorem Ahead.getElem?_ascii {encoded : List UInt8} {index : ℕ} {c : Char} {rest : List Char}
    (h : Ahead encoded index (c :: rest)) (hc : c.toNat < 0x80) :
    encoded[index]? = some (UInt8.ofNat c.toNat) := by
  unfold Ahead at h
  rw [List.flatMap_cons, Utf8.encodeChar_of_ascii hc] at h
  have hhead : (encoded.drop index)[0]? = some (UInt8.ofNat c.toNat) := by
    rw [h]
    rfl
  rwa [List.getElem?_drop, Nat.add_zero] at hhead

/-- An ASCII byte ahead is a whole character. -/
theorem Ahead.exists_char {encoded : List UInt8} {index : ℕ} {chars : List Char} {byte : UInt8}
    (h : Ahead encoded index chars) (hget : encoded[index]? = some byte) (hbyte : byte < 0x80) :
    ∃ c rest, chars = c :: rest ∧ c.toNat < 0x80 ∧ byte = UInt8.ofNat c.toNat := by
  obtain ⟨hindex, rfl⟩ := List.getElem?_eq_some_iff.mp hget
  unfold Ahead at h
  rw [List.drop_eq_getElem_cons hindex] at h
  cases chars with
  | nil => exact absurd h (List.cons_ne_nil _ _)
  | cons c rest =>
    rw [List.flatMap_cons] at h
    obtain ⟨hascii, heq, -⟩ := Utf8.encodeChar_append_of_ascii hbyte h.symm
    exact ⟨c, rest, rfl, hascii, heq⟩

theorem slice_eq_pair {encoded : List UInt8} {index : ℕ} {first second : UInt8}
    (hfirst : encoded[index + 1]? = some first) (hsecond : encoded[index + 2]? = some second) :
    (encoded.take (index + 3)).drop (index + 1) = [first, second] := by
  obtain ⟨hindex, rfl⟩ := List.getElem?_eq_some_iff.mp hfirst
  obtain ⟨hnext, rfl⟩ := List.getElem?_eq_some_iff.mp hsecond
  have hwidth : index + 3 - (index + 1) = 2 := by omega
  rw [List.drop_take, hwidth, List.drop_eq_getElem_cons hindex, List.drop_eq_getElem_cons hnext]
  rfl

/-- Two bytes that the decoder reads as a byte are two characters. -/
theorem parsedPair_of_slice {encoded hex : List UInt8} {index : ℕ} {rest : List Char}
    {byte : UInt8} (h : Ahead encoded (index + 1) rest)
    (hslice : Utf8.getSlice encoded (index + 1) (index + 3) = some hex)
    (hhex : u8FromStrRadix16 hex = some byte) :
    ∃ first second below, rest = first :: second :: below ∧ ParsedPair first second byte := by
  obtain ⟨hstop, rfl⟩ := Utf8.getSlice_eq_some hslice
  have hfirst : encoded[index + 1]? = some encoded[index + 1] := List.getElem?_eq_getElem (by omega)
  have hsecond : encoded[index + 2]? = some encoded[index + 2] :=
    List.getElem?_eq_getElem (by omega)
  rw [slice_eq_pair hfirst hsecond] at hhex
  have hascii : encoded[index + 1] < 0x80 ∧ encoded[index + 2] < 0x80 := by
    rcases (u8FromStrRadix16_eq_some_iff _ _ byte).mp hhex with
      ⟨high, low, hhigh, hlow, -⟩ | ⟨hplus, low, hlow, -⟩
    · exact ⟨(hexDigit_spec hhigh).2.1, (hexDigit_spec hlow).2.1⟩
    · exact ⟨hplus ▸ by decide, (hexDigit_spec hlow).2.1⟩
  obtain ⟨first, next, rfl, hfirstAscii, hfirstByte⟩ := h.exists_char hfirst hascii.1
  have hahead := h.pass_ascii hfirstAscii
  obtain ⟨second, below, rfl, hsecondAscii, hsecondByte⟩ := hahead.exists_char hsecond hascii.2
  rw [hfirstByte, hsecondByte, u8FromStrRadix16_chars_iff hfirstAscii hsecondAscii] at hhex
  exact ⟨first, second, below, rfl, hhex⟩

/-- Two characters that write a byte are sliced between characters and read as that byte. -/
theorem slice_of_parsedPair {encoded : List UInt8} {index : ℕ} {first second : Char}
    {below : List Char} {byte : UInt8} (h : Ahead encoded (index + 1) (first :: second :: below))
    (hpair : ParsedPair first second byte) :
    ∃ hex, Utf8.getSlice encoded (index + 1) (index + 3) = some hex ∧
      u8FromStrRadix16 hex = some byte := by
  obtain ⟨hfirst, hsecond⟩ := parsedPair_ascii hpair
  have hnext := h.pass_ascii hfirst
  have hbelow : Ahead encoded (index + 3) below := hnext.pass_ascii hsecond
  have hfirstByte := h.getElem?_ascii hfirst
  have hsecondByte := hnext.getElem?_ascii hsecond
  obtain ⟨hlength, -⟩ := List.getElem?_eq_some_iff.mp hsecondByte
  have hstart := Utf8.isCharBoundary_of_drop (by omega) h
  have hstop := Utf8.isCharBoundary_of_drop (by omega) hbelow
  refine ⟨(encoded.take (index + 3)).drop (index + 1), ?_, ?_⟩
  · unfold Utf8.getSlice
    rw [hstart, hstop]
    simp
  · rw [slice_eq_pair hfirstByte hsecondByte]
    exact (u8FromStrRadix16_chars_iff hfirst hsecond byte).mpr hpair

/-! ## The loop -/

/-- Bytes other than `-` are copied one by one. -/
theorem unescapeFrom_copy {encoded : List UInt8} (piece : List UInt8) {index : ℕ}
    {rest : List UInt8} (hahead : encoded.drop index = piece ++ rest)
    (hpiece : ∀ byte ∈ piece, byte ≠ 0x2D) (out : List UInt8) :
    unescapeFrom encoded index out = unescapeFrom encoded (index + piece.length) (out ++ piece) := by
  induction piece generalizing index out with
  | nil => simp
  | cons byte piece ih =>
    have hget : encoded[index]? = some byte := by
      rw [← Nat.add_zero index, ← List.getElem?_drop, hahead]
      rfl
    have hdrop : encoded.drop (index + 1) = piece ++ rest := by
      rw [← List.drop_drop, hahead]
      rfl
    calc
      unescapeFrom encoded index out = unescapeFrom encoded (index + 1) (out ++ [byte]) :=
        unescapeFrom_plain hget (hpiece byte List.mem_cons_self) out
      _ = unescapeFrom encoded (index + 1 + piece.length) (out ++ [byte] ++ piece) :=
        ih hdrop (fun other hother ↦ hpiece other (List.mem_cons_of_mem byte hother)) _
      _ = unescapeFrom encoded (index + (byte :: piece).length) (out ++ byte :: piece) := by
        rw [List.length_cons, List.append_assoc, List.singleton_append, Nat.add_assoc,
          Nat.add_comm 1]

/-- No byte of another character is a `-`. -/
theorem ne_dash_of_mem_encodeChar {c : Char} (hc : c ≠ escapeChar) :
    ∀ byte ∈ String.utf8EncodeChar c, byte ≠ 0x2D := by
  rcases Nat.lt_or_ge c.toNat 0x80 with hascii | hhigh
  · have hall : ∀ n < 0x80, UInt8.ofNat n = 0x2D → Char.ofNat n = escapeChar := by decide
    rw [Utf8.encodeChar_of_ascii hascii]
    intro byte hbyte heq
    obtain rfl := List.mem_singleton.mp hbyte
    apply hc
    rw [← hall c.toNat hascii heq, Char.ofNat_toNat]
  · obtain ⟨lead, rest, hencode, hlead, hrest⟩ := Utf8.encodeChar_of_not_ascii hhigh
    rw [hencode]
    intro byte hbyte heq
    subst heq
    rcases List.mem_cons.mp hbyte with rfl | hbyte
    · exact absurd hlead (by decide)
    · exact absurd (hrest _ hbyte) (by decide)

/-- An escape goes on behind its two digits, if they can be sliced and read. -/
theorem unescapeFrom_dash_iff {encoded : List UInt8} {index : ℕ}
    (hget : encoded[index]? = some 0x2D) (out decoded : List UInt8) :
    unescapeFrom encoded index out = some decoded ↔
      ∃ hex byte, Utf8.getSlice encoded (index + 1) (index + 3) = some hex ∧
        u8FromStrRadix16 hex = some byte ∧
        unescapeFrom encoded (index + 3) (out ++ [byte]) = some decoded := by
  obtain ⟨hindex, hdash⟩ := List.getElem?_eq_some_iff.mp hget
  rw [unescapeFrom, dif_pos hindex, if_pos hdash]
  cases hslice : Utf8.getSlice encoded (index + 1) (index + 3) with
  | none => simp
  | some hex => cases hhex : u8FromStrRadix16 hex <;> simp [hhex]

theorem denotes_plain_iff {escape : Char → Char → UInt8 → Prop} {c : Char} (hc : c ≠ escapeChar)
    (rest : List Char) (bytes : List UInt8) :
    Denotes escape (c :: rest) bytes ↔
      ∃ below, Denotes escape rest below ∧ bytes = String.utf8EncodeChar c ++ below := by
  constructor
  · intro h
    cases h with
    | plain _ hrest => exact ⟨_, hrest, rfl⟩
    | escaped _ _ => exact absurd rfl hc
  · rintro ⟨below, hrest, rfl⟩
    exact Denotes.plain hc hrest

theorem denotes_escape_iff {escape : Char → Char → UInt8 → Prop} (rest : List Char)
    (bytes : List UInt8) :
    Denotes escape (escapeChar :: rest) bytes ↔ ∃ first second byte tail below,
      rest = first :: second :: tail ∧ escape first second byte ∧ Denotes escape tail below ∧
        bytes = byte :: below := by
  constructor
  · intro h
    cases h with
    | plain hc _ => exact absurd rfl hc
    | escaped hpair hrest => exact ⟨_, _, _, _, _, rfl, hpair, hrest, rfl⟩
  · rintro ⟨first, second, byte, tail, below, rfl, hpair, hrest, rfl⟩
    exact Denotes.escaped hpair hrest

/-- The loop started in front of some characters returns what they denote. -/
theorem unescapeFrom_eq_some_iff {encoded : List UInt8} (chars : List Char) {index : ℕ}
    (hahead : Ahead encoded index chars) (out decoded : List UInt8) :
    unescapeFrom encoded index out = some decoded ↔
      ∃ bytes, Denotes ParsedPair chars bytes ∧ decoded = out ++ bytes := by
  match chars with
  | [] =>
    rw [unescapeFrom_end (List.drop_eq_nil_iff.mp hahead) out, Option.some.injEq]
    constructor
    · rintro rfl
      exact ⟨[], Denotes.nil, by rw [List.append_nil]⟩
    · rintro ⟨_, hdenotes, rfl⟩
      cases hdenotes
      rw [List.append_nil]
  | c :: rest =>
    by_cases hc : c = escapeChar
    · subst hc
      have hdash : encoded[index]? = some 0x2D := hahead.getElem?_ascii (by decide)
      have hnext : Ahead encoded (index + 1) rest := hahead.pass_ascii (by decide)
      rw [unescapeFrom_dash_iff hdash]
      constructor
      · rintro ⟨hex, byte, hslice, hhex, hloop⟩
        obtain ⟨first, second, below, rfl, hpair⟩ := parsedPair_of_slice hnext hslice hhex
        have hbelow : Ahead encoded (index + 3) below :=
          (hnext.pass_ascii (parsedPair_ascii hpair).1).pass_ascii (parsedPair_ascii hpair).2
        obtain ⟨bytes, hdenotes, rfl⟩ := (unescapeFrom_eq_some_iff below hbelow _ _).mp hloop
        exact ⟨byte :: bytes, Denotes.escaped hpair hdenotes, by simp⟩
      · rintro ⟨bytes, hdenotes, rfl⟩
        obtain ⟨first, second, byte, tail, below, rfl, hpair, htail, rfl⟩ :=
          (denotes_escape_iff rest bytes).mp hdenotes
        obtain ⟨hex, hslice, hhex⟩ := slice_of_parsedPair hnext hpair
        have hbelow : Ahead encoded (index + 3) tail :=
          (hnext.pass_ascii (parsedPair_ascii hpair).1).pass_ascii (parsedPair_ascii hpair).2
        refine ⟨hex, byte, hslice, hhex, (unescapeFrom_eq_some_iff tail hbelow _ _).mpr ?_⟩
        exact ⟨below, htail, by simp⟩
    · have hbytes : encoded.drop index =
          String.utf8EncodeChar c ++ rest.flatMap String.utf8EncodeChar := hahead
      rw [unescapeFrom_copy _ hbytes (ne_dash_of_mem_encodeChar hc),
        unescapeFrom_eq_some_iff rest hahead.pass]
      constructor
      · rintro ⟨bytes, hdenotes, rfl⟩
        exact ⟨_, Denotes.plain hc hdenotes, by rw [List.append_assoc]⟩
      · rintro ⟨bytes, hdenotes, rfl⟩
        obtain ⟨below, hrest, rfl⟩ := (denotes_plain_iff hc rest bytes).mp hdenotes
        exact ⟨below, hrest, by rw [List.append_assoc]⟩
termination_by chars.length

/-! ## The decoder against the grammar -/

/-- The decoder reads the grammar of the number parser, and decodes to valid text only. -/
theorem unescapeSignature_eq_some_iff (escaped sig : String) :
    unescapeSignature escaped = some sig ↔ Denotes ParsedPair escaped.toList (Utf8.bytes sig) := by
  have hahead : Ahead (Utf8.bytes escaped) 0 escaped.toList := List.drop_zero
  unfold unescapeSignature
  rw [Option.bind_eq_some_iff]
  constructor
  · rintro ⟨decoded, hloop, htext⟩
    obtain ⟨bytes, hdenotes, rfl⟩ := (unescapeFrom_eq_some_iff _ hahead _ _).mp hloop
    rw [Utf8.fromUtf8_eq_some_iff] at htext
    exact htext ▸ hdenotes
  · intro hdenotes
    refine ⟨Utf8.bytes sig, ?_, Utf8.fromUtf8_bytes sig⟩
    exact (unescapeFrom_eq_some_iff _ hahead _ _).mpr ⟨_, hdenotes, (List.nil_append _).symm⟩

/-- **The decoder and its escape grammar.** On a text the decoder returns exactly what the grammar
gives it, unless the text has an escape with a plus sign and is otherwise well formed: then the
grammar gives it nothing and the decoder returns a signature. -/
theorem unescapeSignature_grammar_iff (escaped : String) :
    (∀ sig, unescapeSignature escaped = some sig ↔
      Denotes HexPair escaped.toList (Utf8.bytes sig)) ↔
      ¬ (HasSignedEscape escaped.toList ∧
        ∃ sig, Denotes ParsedPair escaped.toList (Utf8.bytes sig)) := by
  constructor
  · rintro h ⟨hsigned, sig, hdenotes⟩
    apply hsigned.not_denotes (Utf8.bytes sig)
    exact (h sig).mp ((unescapeSignature_eq_some_iff escaped sig).mpr hdenotes)
  · intro h sig
    rw [unescapeSignature_eq_some_iff]
    constructor
    · intro hdenotes
      apply hdenotes.hexPair_or_signed.resolve_right
      exact fun hsigned ↦ h ⟨hsigned, sig, hdenotes⟩
    · exact fun hdenotes ↦ hdenotes.mono fun _ _ _ ↦ Or.inl

/-- The decoder takes a sign and one digit for a byte. -/
theorem unescapeSignature_accepts_sign :
    unescapeSignature "-+5" = some "\x05" ∧ ∀ bytes, ¬ Denotes HexPair "-+5".toList bytes := by
  have hsigned : HasSignedEscape "-+5".toList :=
    HasSignedEscape.here ⟨rfl, 5, by decide, rfl⟩
  exact ⟨by decide +kernel, hsigned.not_denotes⟩

end VertexGateway.Thought
