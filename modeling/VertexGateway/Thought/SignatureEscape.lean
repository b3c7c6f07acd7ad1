import VertexGateway.Text.Utf8

/-!
# Escaping a thought signature into the id charset

`escapeSignature` writes every byte outside `[A-Za-z0-9_]` as `-` and two hexadecimal digits, and
`unescapeSignature` reads such text back. The decoder walks byte offsets and slices the escaped
string, so its loop is kept on offsets here; on the output of the encoder every offset it slices
at is a character boundary because that output is pure ASCII.
-/

namespace VertexGateway.Thought

/-- Escape character used to keep packed ids inside a conservative charset. -/
def escapeChar : Char := '-'

/-- The bytes that travel unescaped. -/
def isPlain (byte : UInt8) : Bool :=
  let c := Char.ofNat byte.toNat
  c.isAlphanum || c == '_'

/-- One byte of the signature as it appears in the packed id. -/
def escapeByte (byte : UInt8) : List Char :=
  if isPlain byte then [Char.ofNat byte.toNat]
  else [escapeChar, Nat.digitChar (byte.toNat / 16), Nat.digitChar (byte.toNat % 16)]

def escapeSignature (sig : String) : String :=
  String.ofList ((Utf8.bytes sig).flatMap escapeByte)

def hexDigit (byte : UInt8) : Option ℕ :=
  if 0x30 ≤ byte && byte ≤ 0x39 then some (byte.toNat - 0x30)
  else if 0x61 ≤ byte && byte ≤ 0x66 then some (byte.toNat - 0x57)
  else if 0x41 ≤ byte && byte ≤ 0x46 then some (byte.toNat - 0x37)
  else none

/-- `u8::from_str_radix` in base 16: one leading `+` is allowed, overflow is an error. -/
def u8FromStrRadix16 (source : List UInt8) : Option UInt8 :=
  let digits := if source.head? = some 0x2B then source.tail else source
  if digits.isEmpty then none
  else
    (digits.foldlM (fun acc byte ↦ (hexDigit byte).bind fun digit ↦
      if 16 * acc + digit < 256 then some (16 * acc + digit) else none) 0).map UInt8.ofNat

/-- The decoding loop, at byte offset `index` with `out` already decoded. -/
def unescapeFrom (encoded : List UInt8) (index : ℕ) (out : List UInt8) : Option (List UInt8) :=
  if h : index < encoded.length then
    if encoded[index] = 0x2D then
      match Utf8.getSlice encoded (index + 1) (index + 3) with
      | none => none
      | some hex =>
        match u8FromStrRadix16 hex with
        | none => none
        | some byte => unescapeFrom encoded (index + 3) (out ++ [byte])
    else unescapeFrom encoded (index + 1) (out ++ [encoded[index]])
  else some out
termination_by encoded.length - index

/-- Reverse `escapeSignature`; malformed input decodes to nothing. -/
def unescapeSignature (escaped : String) : Option String :=
  (unescapeFrom (Utf8.bytes escaped) 0 []).bind Utf8.fromUtf8

/-! ## What one byte becomes -/

/-- The bytes of one escaped byte, which decide every step of the decoder. -/
def escapedBytes (byte : UInt8) : List UInt8 :=
  (escapeByte byte).flatMap String.utf8EncodeChar

theorem bytes_escapeSignature (sig : String) :
    Utf8.bytes (escapeSignature sig) = (Utf8.bytes sig).flatMap escapedBytes := by
  unfold escapeSignature
  rw [Utf8.bytes_ofList, List.flatMap_assoc]
  rfl

/-- Check a property of bytes on all 256 of them. -/
theorem forall_byte {property : UInt8 → Prop} (h : ∀ n < 256, property (UInt8.ofNat n))
    (byte : UInt8) : property byte := by
  have hbyte := h byte.toNat byte.toNat_lt
  rwa [UInt8.ofNat_toNat] at hbyte

theorem escapedBytes_of_plain {byte : UInt8} (h : isPlain byte = true) :
    escapedBytes byte = [byte] ∧ byte ≠ 0x2D ∧ byte < 0x80 := by
  have hencode := @forall_byte (fun byte ↦ isPlain byte = true →
    String.utf8EncodeChar (Char.ofNat byte.toNat) = [byte] ∧ byte ≠ 0x2D ∧ byte < 0x80)
    (by decide +kernel) byte h
  simpa [escapedBytes, escapeByte, h] using hencode

/-- A lowercase hexadecimal digit is one ASCII byte that reads back as the digit. -/
theorem hexDigit_digitChar : ∀ digit < 16,
    String.utf8EncodeChar (Nat.digitChar digit) = [UInt8.ofNat (Nat.digitChar digit).toNat] ∧
      hexDigit (UInt8.ofNat (Nat.digitChar digit).toNat) = some digit ∧
      UInt8.ofNat (Nat.digitChar digit).toNat ≠ 0x2B ∧
      UInt8.ofNat (Nat.digitChar digit).toNat < 0x80 := by
  decide

theorem u8FromStrRadix16_pair {high low : UInt8} {byte : UInt8} (hplus : high ≠ 0x2B)
    (hhigh : hexDigit high = some (byte.toNat / 16)) (hlow : hexDigit low = some (byte.toNat % 16)) :
    u8FromStrRadix16 [high, low] = some byte := by
  have hbyte : byte.toNat < 256 := byte.toNat_lt
  have hfirst : byte.toNat / 16 < 256 := by omega
  have hsum : 16 * (byte.toNat / 16) + byte.toNat % 16 = byte.toNat := by omega
  simp [u8FromStrRadix16, hplus, hhigh, hlow, hfirst, hsum, hbyte]

theorem escapedBytes_of_not_plain {byte : UInt8} (h : isPlain byte = false) :
    ∃ high low, escapedBytes byte = [0x2D, high, low] ∧ high < 0x80 ∧ low < 0x80 ∧
      u8FromStrRadix16 [high, low] = some byte := by
  have hbyte : byte.toNat < 256 := byte.toNat_lt
  obtain ⟨hhighBytes, hhigh, hplus, hhighAscii⟩ := hexDigit_digitChar (byte.toNat / 16) (by omega)
  obtain ⟨hlowBytes, hlow, -, hlowAscii⟩ := hexDigit_digitChar (byte.toNat % 16) (by omega)
  refine ⟨_, _, ?_, hhighAscii, hlowAscii, u8FromStrRadix16_pair hplus hhigh hlow⟩
  have hescape : String.utf8EncodeChar escapeChar = [0x2D] := by decide
  simp only [escapedBytes, escapeByte, h, Bool.false_eq_true, if_false, List.flatMap_cons,
    List.flatMap_nil, hescape, hhighBytes, hlowBytes, List.singleton_append]

theorem escapedBytes_ascii (byte : UInt8) : ∀ written ∈ escapedBytes byte, written < 0x80 := by
  cases hplain : isPlain byte with
  | true =>
    obtain ⟨hbytes, -, hascii⟩ := escapedBytes_of_plain hplain
    simpa [hbytes] using hascii
  | false =>
    obtain ⟨high, low, hbytes, hhigh, hlow, -⟩ := escapedBytes_of_not_plain hplain
    have hdash : (0x2D : UInt8) < 0x80 := by decide
    simp [hbytes, hdash, hhigh, hlow]

/-! ## Decoding what the encoder wrote -/

theorem unescapeFrom_end {encoded : List UInt8} {index : ℕ} (h : encoded.length ≤ index)
    (out : List UInt8) : unescapeFrom encoded index out = some out := by
  rw [unescapeFrom, dif_neg (Nat.not_lt.mpr h)]

theorem unescapeFrom_plain {encoded : List UInt8} {index : ℕ} {byte : UInt8}
    (hget : encoded[index]? = some byte) (hbyte : byte ≠ 0x2D) (out : List UInt8) :
    unescapeFrom encoded index out = unescapeFrom encoded (index + 1) (out ++ [byte]) := by
  obtain ⟨hindex, rfl⟩ := List.getElem?_eq_some_iff.mp hget
  rw [unescapeFrom, dif_pos hindex, if_neg hbyte]

theorem unescapeFrom_escape {encoded : List UInt8} {index : ℕ} {hex : List UInt8} {byte : UInt8}
    (hget : encoded[index]? = some 0x2D)
    (hslice : Utf8.getSlice encoded (index + 1) (index + 3) = some hex)
    (hhex : u8FromStrRadix16 hex = some byte) (out : List UInt8) :
    unescapeFrom encoded index out = unescapeFrom encoded (index + 3) (out ++ [byte]) := by
  obtain ⟨hindex, hdash⟩ := List.getElem?_eq_some_iff.mp hget
  rw [unescapeFrom, dif_pos hindex, if_pos hdash, hslice]
  simp only [hhex]

/-- The loop invariant: what lies ahead of the offset is the escaped form of what is missing. -/
theorem unescapeFrom_escaped {encoded : List UInt8} (hascii : ∀ byte ∈ encoded, byte < 0x80)
    (missing : List UInt8) (index : ℕ) (hahead : encoded.drop index = missing.flatMap escapedBytes)
    (out : List UInt8) : unescapeFrom encoded index out = some (out ++ missing) := by
  induction missing generalizing index out with
  | nil =>
    rw [List.append_nil]
    exact unescapeFrom_end (List.drop_eq_nil_iff.mp hahead) out
  | cons byte missing ih =>
    rw [List.flatMap_cons] at hahead
    have hget (offset : ℕ) : encoded[index + offset]? =
        (escapedBytes byte ++ missing.flatMap escapedBytes)[offset]? := by
      rw [← hahead, List.getElem?_drop]
    have hdrop : encoded.drop (index + (escapedBytes byte).length) =
        missing.flatMap escapedBytes := by
      rw [← List.drop_drop, hahead, List.drop_left]
    cases hplain : isPlain byte with
    | true =>
      obtain ⟨hbytes, hdash, -⟩ := escapedBytes_of_plain hplain
      rw [hbytes] at hget hdrop
      have hhere : encoded[index]? = some byte := hget 0
      calc
        unescapeFrom encoded index out = unescapeFrom encoded (index + 1) (out ++ [byte]) :=
          unescapeFrom_plain hhere hdash out
        _ = some (out ++ [byte] ++ missing) := ih (index + 1) hdrop (out ++ [byte])
        _ = some (out ++ byte :: missing) := by rw [List.append_assoc, List.singleton_append]
    | false =>
      obtain ⟨high, low, hbytes, -, -, hhex⟩ := escapedBytes_of_not_plain hplain
      rw [hbytes] at hget hdrop hahead
      have hhere : encoded[index]? = some 0x2D := hget 0
      have hlength : index + 3 ≤ encoded.length := (List.getElem?_eq_some_iff.mp (hget 2)).1
      have hslice : Utf8.getSlice encoded (index + 1) (index + 3) = some [high, low] := by
        rw [Utf8.getSlice_of_ascii hascii (by omega) hlength, ← List.drop_drop,
          List.drop_take, hahead]
        simp
      calc
        unescapeFrom encoded index out = unescapeFrom encoded (index + 3) (out ++ [byte]) :=
          unescapeFrom_escape hhere hslice hhex out
        _ = some (out ++ [byte] ++ missing) := ih (index + 3) hdrop (out ++ [byte])
        _ = some (out ++ byte :: missing) := by rw [List.append_assoc, List.singleton_append]

/-- Escaping loses nothing, whatever the signature contains. -/
theorem unescapeSignature_escapeSignature (sig : String) :
    unescapeSignature (escapeSignature sig) = some sig := by
  have hascii : ∀ byte ∈ Utf8.bytes (escapeSignature sig), byte < 0x80 := by
    intro byte hbyte
    rw [bytes_escapeSignature, List.mem_flatMap] at hbyte
    obtain ⟨source, -, hbyte⟩ := hbyte
    exact escapedBytes_ascii source byte hbyte
  have hahead : (Utf8.bytes (escapeSignature sig)).drop 0 =
      (Utf8.bytes sig).flatMap escapedBytes := by
    rw [List.drop_zero, bytes_escapeSignature]
  calc
    unescapeSignature (escapeSignature sig) = (some (Utf8.bytes sig)).bind Utf8.fromUtf8 := by
      unfold unescapeSignature
      rw [unescapeFrom_escaped hascii (Utf8.bytes sig) 0 hahead, List.nil_append]
    _ = some sig := by rw [Option.bind_some, Utf8.fromUtf8_bytes]

end VertexGateway.Thought
