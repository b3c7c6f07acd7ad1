import Mathlib

/-!
# UTF-8 text as byte lists

The byte view of strings behind `str::bytes`, `String::from_utf8` and `String::from_utf8_lossy`.
Lossy decoding replaces every maximal malformed run, of one to three bytes, by one U+FFFD: a lead
byte together with the continuation bytes it accepts, cut where the next byte is not acceptable.
-/

namespace VertexGateway.Utf8

/-- The UTF-8 encoding of a string. -/
def bytes (text : String) : List UInt8 :=
  text.toList.flatMap String.utf8EncodeChar

theorem bytes_ofList (chars : List Char) :
    bytes (String.ofList chars) = chars.flatMap String.utf8EncodeChar := by
  simp [bytes]

theorem toByteArray_eq (text : String) : text.toByteArray = (bytes text).toByteArray := by
  rw [← String.utf8Encode_toList, List.utf8Encode, bytes]

/-- The string a well-formed byte sequence encodes. -/
def fromUtf8 (encoded : List UInt8) : Option String :=
  String.fromUTF8? encoded.toByteArray

theorem fromUtf8_eq_some_iff (encoded : List UInt8) (text : String) :
    fromUtf8 encoded = some text ↔ encoded = bytes text := by
  rw [← List.toByteArray_inj, ← toByteArray_eq]
  constructor
  · intro h
    simp only [fromUtf8, String.fromUTF8?] at h
    split at h
    · rw [← Option.some.inj h]
      rfl
    · exact absurd h.symm (Option.some_ne_none text)
  · intro h
    have hvalid : encoded.toByteArray.IsValidUTF8 := h ▸ text.isValidUTF8
    unfold fromUtf8 String.fromUTF8?
    rw [dif_pos hvalid]
    exact congrArg some (String.toByteArray_inj.mp h)

@[simp]
theorem fromUtf8_bytes (text : String) : fromUtf8 (bytes text) = some text :=
  (fromUtf8_eq_some_iff _ _).mpr rfl

/-! ## One character -/

/-- A tagged byte is at least its tag. -/
theorem le_tagged {bound : UInt8} {value tag : ℕ} (hbound : bound.toNat ≤ tag)
    (hsum : value + tag < 256) : bound ≤ UInt8.ofNat (value + tag) := by
  rw [UInt8.le_iff_toNat_le, UInt8.toNat_ofNat_of_lt' hsum]
  exact hbound.trans (Nat.le_add_left tag value)

theorem encodeChar_of_ascii {c : Char} (h : c.toNat < 0x80) :
    String.utf8EncodeChar c = [UInt8.ofNat c.toNat] := by
  have hle : c.val.toNat ≤ 0x7F := Nat.le_of_lt_succ h
  unfold String.utf8EncodeChar
  rw [if_pos hle]
  rfl

/-- Every other character is a lead byte and continuation bytes, none of them ASCII. -/
theorem encodeChar_of_not_ascii {c : Char} (h : 0x80 ≤ c.toNat) :
    ∃ lead rest, String.utf8EncodeChar c = lead :: rest ∧ 0xC0 ≤ lead ∧ ∀ byte ∈ rest, 0x80 ≤ byte := by
  have hnot : ¬ c.val.toNat ≤ 0x7F := Nat.not_le.mpr h
  have htail (value : ℕ) : (0x80 : UInt8) ≤ UInt8.ofNat (value % 0x40 + 0x80) :=
    le_tagged (by decide) (by omega)
  unfold String.utf8EncodeChar
  simp only [hnot, if_false]
  split_ifs
  · exact ⟨_, _, rfl, le_tagged (by decide) (by omega), by
      simp only [List.forall_mem_cons, htail, List.not_mem_nil, false_imp_iff, implies_true, and_true]⟩
  · exact ⟨_, _, rfl, le_tagged (by decide) (by omega), by
      simp only [List.forall_mem_cons, htail, List.not_mem_nil, false_imp_iff, implies_true, and_true]⟩
  · exact ⟨_, _, rfl, le_tagged (by decide) (by omega), by
      simp only [List.forall_mem_cons, htail, List.not_mem_nil, false_imp_iff, implies_true, and_true]⟩

/-- An ASCII byte in front is a whole character. -/
theorem encodeChar_append_of_ascii {c : Char} {rest tail : List UInt8} {byte : UInt8}
    (hbyte : byte < 0x80) (h : String.utf8EncodeChar c ++ rest = byte :: tail) :
    c.toNat < 0x80 ∧ byte = UInt8.ofNat c.toNat ∧ rest = tail := by
  rcases Nat.lt_or_ge c.toNat 0x80 with hascii | hhigh
  · rw [encodeChar_of_ascii hascii] at h
    obtain ⟨hhead, htail⟩ := List.cons.inj h
    exact ⟨hascii, hhead.symm, htail⟩
  · obtain ⟨lead, continuation, hencode, hlead, -⟩ := encodeChar_of_not_ascii hhigh
    have hle : (0x80 : UInt8) ≤ 0xC0 := by decide
    rw [hencode] at h
    have hhead : lead = byte := (List.cons.inj h).1
    exact absurd (hhead ▸ UInt8.le_trans hle hlead) (UInt8.not_le.mpr hbyte)

/-! ## Lossy decoding -/

/-- The character whose encoding begins the byte sequence. -/
def decodeChar (encoded : List UInt8) : Option Char :=
  encoded.toByteArray.utf8DecodeChar? 0

@[simp]
theorem decodeChar_encode (c : Char) (rest : List UInt8) :
    decodeChar (String.utf8EncodeChar c ++ rest) = some c := by
  unfold decodeChar
  rw [List.toByteArray_append]
  exact ByteArray.utf8DecodeChar?_utf8EncodeChar_append

def isContinuation (byte : UInt8) : Bool :=
  0x80 ≤ byte && byte ≤ 0xBF

/-- Which second bytes a lead byte of a three- or four-byte character accepts. -/
def acceptsSecond (lead second : UInt8) : Bool :=
  if lead = 0xE0 then 0xA0 ≤ second && second ≤ 0xBF
  else if lead = 0xED then 0x80 ≤ second && second ≤ 0x9F
  else if lead = 0xF0 then 0x90 ≤ second && second ≤ 0xBF
  else if lead = 0xF4 then 0x80 ≤ second && second ≤ 0x8F
  else 0xE1 ≤ lead && lead ≤ 0xF3 && isContinuation second

/-- How many bytes of a sequence that begins with no character one U+FFFD stands for. -/
def malformedLength : List UInt8 → ℕ
  | lead :: second :: third :: _ =>
    if acceptsSecond lead second then
      if 0xF0 ≤ lead && isContinuation third then 3 else 2
    else 1
  | [lead, second] => if acceptsSecond lead second then 2 else 1
  | _ => 1

/-- Decode after passing over `skip` bytes that belong to the previous character. -/
def decodeLossy : ℕ → List UInt8 → List Char
  | _, [] => []
  | skip + 1, _ :: rest => decodeLossy skip rest
  | 0, lead :: rest =>
    match decodeChar (lead :: rest) with
    | some c => c :: decodeLossy (c.utf8Size - 1) rest
    | none => '\uFFFD' :: decodeLossy (malformedLength (lead :: rest) - 1) rest

def fromUtf8Lossy (encoded : List UInt8) : String :=
  String.ofList (decodeLossy 0 encoded)

theorem decodeLossy_append (skipped rest : List UInt8) :
    decodeLossy skipped.length (skipped ++ rest) = decodeLossy 0 rest := by
  induction skipped with
  | nil => rfl
  | cons head skipped ih => exact ih

theorem decodeLossy_encode (c : Char) (rest : List UInt8) :
    decodeLossy 0 (String.utf8EncodeChar c ++ rest) = c :: decodeLossy 0 rest := by
  have hdecode := decodeChar_encode c rest
  have hlength := String.length_utf8EncodeChar c
  cases hencoded : String.utf8EncodeChar c with
  | nil =>
    rw [hencoded] at hlength
    exact absurd hlength c.utf8Size_pos.ne
  | cons lead continuation =>
    rw [hencoded] at hdecode hlength
    have hskip : c.utf8Size - 1 = continuation.length := by
      rw [← hlength, List.length_cons, Nat.add_sub_cancel]
    simp only [List.cons_append] at hdecode ⊢
    rw [decodeLossy, hdecode]
    simp only [hskip, decodeLossy_append]

/-- Lossy decoding loses nothing on well-formed text. -/
@[simp]
theorem fromUtf8Lossy_bytes (text : String) : fromUtf8Lossy (bytes text) = text := by
  have hchars : ∀ chars : List Char,
      decodeLossy 0 (chars.flatMap String.utf8EncodeChar) = chars := by
    intro chars
    induction chars with
    | nil => rfl
    | cons c chars ih => rw [List.flatMap_cons, decodeLossy_encode, ih]
  unfold fromUtf8Lossy bytes
  rw [hchars, String.ofList_toList]

/-- No byte disappears without a trace: only the empty sequence decodes to the empty string. -/
theorem fromUtf8Lossy_eq_empty_iff (encoded : List UInt8) :
    fromUtf8Lossy encoded = "" ↔ encoded = [] := by
  cases encoded with
  | nil => simp [fromUtf8Lossy, decodeLossy]
  | cons lead rest =>
    have hne : decodeLossy 0 (lead :: rest) ≠ [] := by
      rw [decodeLossy]
      split <;> exact List.cons_ne_nil _ _
    simpa [fromUtf8Lossy] using hne

-- A character cut short and a stray continuation byte each become one replacement character.
example : fromUtf8Lossy [0xE2, 0x82, 0x41, 0x80] = "\uFFFDA\uFFFD" := by decide

/-! ## ASCII bytes are ASCII characters -/

theorem exists_of_decodeChar {encoded : List UInt8} {c : Char} (h : decodeChar encoded = some c) :
    ∃ rest, encoded = String.utf8EncodeChar c ++ rest := by
  obtain ⟨rest, hrest⟩ := ByteArray.exists_of_utf8DecodeChar?_eq_some h
  have hbytes := congrArg (fun array : ByteArray ↦ array.data.toList) hrest
  refine ⟨rest.data.toList, ?_⟩
  simpa only [ByteArray.data_append, Array.toList_append, List.toList_data_toByteArray] using hbytes

/-- An ASCII byte in the encoding of a character is that character. -/
theorem eq_of_mem_encodeChar {c ascii : Char} (hascii : ascii.toNat < 0x80)
    (h : UInt8.ofNat ascii.toNat ∈ String.utf8EncodeChar c) : c = ascii := by
  have hbyte : UInt8.ofNat ascii.toNat < 0x80 := by
    rw [UInt8.lt_iff_toNat_lt, UInt8.toNat_ofNat_of_lt' (hascii.trans (by decide))]
    exact hascii
  rcases Nat.lt_or_ge c.toNat 0x80 with hlow | hhigh
  · rw [encodeChar_of_ascii hlow, List.mem_singleton] at h
    have hnat := congrArg UInt8.toNat h
    rw [UInt8.toNat_ofNat_of_lt' (hascii.trans (by decide)),
      UInt8.toNat_ofNat_of_lt' (hlow.trans (by decide))] at hnat
    exact (Char.toNat_inj.mp hnat).symm
  · obtain ⟨lead, continuation, hencode, hlead, hrest⟩ := encodeChar_of_not_ascii hhigh
    have hle : (0x80 : UInt8) ≤ 0xC0 := by decide
    rw [hencode] at h
    rcases List.mem_cons.mp h with rfl | hmem
    · exact absurd (UInt8.le_trans hle hlead) (UInt8.not_le.mpr hbyte)
    · exact absurd (hrest _ hmem) (UInt8.not_le.mpr hbyte)

/-- A text whose bytes begin another text begins it. -/
theorem toList_prefix_of_bytes {front text : String} (h : bytes front <+: bytes text) :
    front.toList <+: text.toList := by
  unfold bytes at h
  generalize front.toList = chars at h ⊢
  generalize text.toList = more at h ⊢
  induction chars generalizing more with
  | nil => exact List.nil_prefix
  | cons c chars ih =>
    obtain ⟨rest, hrest⟩ := h
    rw [List.flatMap_cons, List.append_assoc] at hrest
    cases more with
    | nil =>
      have hempty : decodeChar [] = none := by decide
      have hnone := congrArg decodeChar hrest
      rw [decodeChar_encode, List.flatMap_nil, hempty] at hnone
      exact absurd hnone (Option.some_ne_none c)
    | cons d more =>
      rw [List.flatMap_cons] at hrest
      have hsame := congrArg decodeChar hrest
      rw [decodeChar_encode, decodeChar_encode] at hsame
      obtain rfl := Option.some.inj hsame
      exact List.cons_prefix_cons.mpr ⟨rfl, ih more ⟨rest, List.append_cancel_left hrest⟩⟩

theorem mem_bytes_iff {ascii : Char} (hascii : ascii.toNat < 0x80) (text : String) :
    UInt8.ofNat ascii.toNat ∈ bytes text ↔ ascii ∈ text.toList := by
  unfold bytes
  rw [List.mem_flatMap]
  constructor
  · rintro ⟨c, hc, hmem⟩
    exact eq_of_mem_encodeChar hascii hmem ▸ hc
  · intro hmem
    refine ⟨ascii, hmem, ?_⟩
    rw [encodeChar_of_ascii hascii]
    exact List.mem_singleton_self _

/-- Decoding makes no ASCII character that was no byte. -/
theorem mem_of_mem_decodeLossy {ascii : Char} (hascii : ascii.toNat < 0x80) (skip : ℕ)
    (encoded : List UInt8) (h : ascii ∈ decodeLossy skip encoded) :
    UInt8.ofNat ascii.toNat ∈ encoded := by
  induction encoded generalizing skip with
  | nil => exact absurd h (by simp [decodeLossy])
  | cons lead rest ih =>
    cases skip with
    | succ skip => exact List.mem_cons_of_mem _ (ih skip h)
    | zero =>
      rw [decodeLossy] at h
      split at h
      · next c hdecode =>
        rcases List.mem_cons.mp h with rfl | hmem
        · obtain ⟨tail, htail⟩ := exists_of_decodeChar hdecode
          rw [htail, encodeChar_of_ascii hascii]
          exact List.mem_cons_self
        · exact List.mem_cons_of_mem _ (ih _ hmem)
      · rcases List.mem_cons.mp h with rfl | hmem
        · exact absurd hascii (by decide)
        · exact List.mem_cons_of_mem _ (ih _ hmem)

/-! ## Slicing by byte offsets -/

/-- Whether a byte offset falls between two characters of the encoded text. -/
def isCharBoundary (encoded : List UInt8) (index : ℕ) : Bool :=
  index == 0 ||
    match encoded[index]? with
    | some byte => !isContinuation byte
    | none => index == encoded.length

/-- The bytes from `start` up to `stop`, unless an offset is out of range or inside a character. -/
def getSlice (encoded : List UInt8) (start stop : ℕ) : Option (List UInt8) :=
  if start ≤ stop && isCharBoundary encoded start && isCharBoundary encoded stop then
    some ((encoded.take stop).drop start)
  else none

theorem isCharBoundary_of_ascii {encoded : List UInt8} (h : ∀ byte ∈ encoded, byte < 0x80)
    {index : ℕ} (hindex : index ≤ encoded.length) : isCharBoundary encoded index = true := by
  cases hbyte : encoded[index]? with
  | none =>
    have hlength : index = encoded.length :=
      le_antisymm hindex (List.getElem?_eq_none_iff.mp hbyte)
    simp [isCharBoundary, hlength]
  | some byte =>
    have hascii : ¬ 0x80 ≤ byte := UInt8.not_le.mpr (h byte (List.mem_of_getElem? hbyte))
    simp [isCharBoundary, hbyte, isContinuation, hascii]

/-- Offsets into pure ASCII text always fall between characters. -/
theorem getSlice_of_ascii {encoded : List UInt8} (h : ∀ byte ∈ encoded, byte < 0x80)
    {start stop : ℕ} (hstart : start ≤ stop) (hstop : stop ≤ encoded.length) :
    getSlice encoded start stop = some ((encoded.take stop).drop start) := by
  simp [getSlice, hstart, isCharBoundary_of_ascii h hstop,
    isCharBoundary_of_ascii h (hstart.trans hstop)]

/-- Where whole characters lie ahead, a character begins or the text ends. -/
theorem isCharBoundary_of_drop {encoded : List UInt8} {index : ℕ} {chars : List Char}
    (hindex : index ≤ encoded.length)
    (h : encoded.drop index = chars.flatMap String.utf8EncodeChar) :
    isCharBoundary encoded index = true := by
  have hget : encoded[index]? = (chars.flatMap String.utf8EncodeChar)[0]? := by
    rw [← h, List.getElem?_drop, Nat.add_zero]
  cases chars with
  | nil =>
    have hlength : index = encoded.length := le_antisymm hindex (List.drop_eq_nil_iff.mp h)
    simp [isCharBoundary, hlength]
  | cons c chars =>
    rw [List.flatMap_cons] at hget
    rcases Nat.lt_or_ge c.toNat 0x80 with hascii | hhigh
    · have hcontinuation : ¬ (0x80 : UInt8) ≤ UInt8.ofNat c.toNat := by
        rw [UInt8.not_le, UInt8.lt_iff_toNat_lt, UInt8.toNat_ofNat_of_lt' (hascii.trans (by decide))]
        exact hascii
      rw [encodeChar_of_ascii hascii] at hget
      simp [isCharBoundary, hget, isContinuation, hcontinuation]
    · obtain ⟨lead, continuation, hencode, hlead, -⟩ := encodeChar_of_not_ascii hhigh
      have hbelow : (0xBF : UInt8) < 0xC0 := by decide
      have hcontinuation : ¬ lead ≤ 0xBF := UInt8.not_le.mpr (UInt8.lt_of_lt_of_le hbelow hlead)
      rw [hencode] at hget
      simp [isCharBoundary, hget, isContinuation, hcontinuation]

/-- A slice lies inside the text. -/
theorem getSlice_eq_some {encoded slice : List UInt8} {start stop : ℕ}
    (h : getSlice encoded start stop = some slice) :
    stop ≤ encoded.length ∧ slice = (encoded.take stop).drop start := by
  unfold getSlice at h
  split at h
  · next hbounds =>
    simp only [Bool.and_eq_true] at hbounds
    refine ⟨?_, (Option.some.inj h).symm⟩
    by_contra hlong
    have hnone : encoded[stop]? = none := List.getElem?_eq_none (Nat.le_of_not_le hlong)
    have hboundary := hbounds.2
    simp only [isCharBoundary, hnone, Bool.or_eq_true, beq_iff_eq] at hboundary
    omega
  · exact absurd h.symm (Option.some_ne_none slice)

end VertexGateway.Utf8
