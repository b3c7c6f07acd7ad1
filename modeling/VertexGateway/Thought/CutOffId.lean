import VertexGateway.Thought.EscapeGrammar
import VertexGateway.Thought.PackedId

/-!
# Ids that were cut off

A client with a limit on the length of an id may cut a packed id off. If the separator goes, the id
comes back as it is left. If it stays, the id is still recovered, and a signature only where the cut
falls between two escaped characters: what is left is then itself a packed id, of a first part of
the signature. No cut makes one id pass for another.
-/

namespace VertexGateway.Thought

/-! ## First parts of an escaped signature -/

theorem parsedPair_digitChar_iff (byte other : UInt8) :
    ParsedPair (Nat.digitChar (byte.toNat / 16)) (Nat.digitChar (byte.toNat % 16)) other ↔
      other = byte := by
  have hbyte : byte.toNat < 256 := byte.toNat_lt
  have hascii : ∀ digit < 16, (Nat.digitChar digit).toNat < 0x80 := by decide
  obtain ⟨-, hhigh, hplus, -⟩ := hexDigit_digitChar (byte.toNat / 16) (by omega)
  obtain ⟨-, hlow, -, -⟩ := hexDigit_digitChar (byte.toNat % 16) (by omega)
  rw [← u8FromStrRadix16_chars_iff (hascii _ (by omega)) (hascii _ (by omega)),
    u8FromStrRadix16_pair hplus hhigh hlow, Option.some.injEq, eq_comm]

/-- What a first part of an escaped text denotes is a first part of the source, and that is all that
the part writes. -/
theorem Denotes.of_escaped_prefix {source decoded : List UInt8} {front : List Char}
    (h : Denotes ParsedPair front decoded) (hfront : front <+: source.flatMap escapeByte) :
    decoded <+: source ∧ front = decoded.flatMap escapeByte := by
  induction source generalizing front decoded with
  | nil =>
    obtain rfl := List.prefix_nil.mp hfront
    cases h
    exact ⟨List.nil_prefix, rfl⟩
  | cons byte source ih =>
    cases front with
    | nil =>
      cases h
      exact ⟨List.nil_prefix, rfl⟩
    | cons c front =>
      rw [List.flatMap_cons] at hfront
      cases hplain : isPlain byte with
      | true =>
        have hescape : escapeByte byte = [Char.ofNat byte.toNat] := by simp [escapeByte, hplain]
        obtain ⟨hencode, hdash, -⟩ := escapedBytes_of_plain hplain
        rw [escapedBytes, hescape, List.flatMap_singleton] at hencode
        rw [hescape, List.singleton_append] at hfront
        obtain ⟨rfl, hrest⟩ := List.cons_prefix_cons.mp hfront
        have hc : Char.ofNat byte.toNat ≠ escapeChar := by
          intro heq
          rw [heq] at hencode
          exact hdash (List.singleton_inj.mp hencode).symm
        obtain ⟨below, hbelow, rfl⟩ := (denotes_plain_iff hc front decoded).mp h
        obtain ⟨hpart, rfl⟩ := ih hbelow hrest
        rw [hencode, List.singleton_append, List.flatMap_cons, hescape]
        exact ⟨List.cons_prefix_cons.mpr ⟨rfl, hpart⟩, rfl⟩
      | false =>
        have hescape : escapeByte byte = [escapeChar, Nat.digitChar (byte.toNat / 16),
            Nat.digitChar (byte.toNat % 16)] := by simp [escapeByte, hplain]
        rw [hescape, List.cons_append, List.cons_append, List.singleton_append] at hfront
        obtain ⟨rfl, hdigits⟩ := List.cons_prefix_cons.mp hfront
        obtain ⟨first, second, other, tail, below, rfl, hpair, hbelow, rfl⟩ :=
          (denotes_escape_iff front decoded).mp h
        obtain ⟨rfl, hdigit⟩ := List.cons_prefix_cons.mp hdigits
        obtain ⟨rfl, hrest⟩ := List.cons_prefix_cons.mp hdigit
        obtain rfl := (parsedPair_digitChar_iff byte other).mp hpair
        obtain ⟨hpart, rfl⟩ := ih hbelow hrest
        rw [List.flatMap_cons, hescape]
        exact ⟨List.cons_prefix_cons.mpr ⟨rfl, hpart⟩, rfl⟩

/-- A first part of an escaped signature decodes exactly if it is an escaped signature itself. -/
theorem unescapeSignature_of_prefix {sig front : String}
    (hfront : front.toList <+: (escapeSignature sig).toList) (part : String) :
    unescapeSignature front = some part ↔
      front = escapeSignature part ∧ part.toList <+: sig.toList := by
  constructor
  · intro h
    rw [unescapeSignature_eq_some_iff] at h
    rw [escapeSignature, String.toList_ofList] at hfront
    obtain ⟨hpart, hescape⟩ := h.of_escaped_prefix hfront
    refine ⟨?_, Utf8.toList_prefix_of_bytes hpart⟩
    rw [escapeSignature, ← hescape, String.ofList_toList]
  · rintro ⟨rfl, -⟩
    exact unescapeSignature_escapeSignature part

/-! ## First parts of a packed id -/

section CutOff

variable {id sig cut : String}

theorem toList_packId_some (id sig : String) : (packId id (some sig)).toList =
    (id ++ marker).toList ++ (escapeSignature sig).toList :=
  String.toList_append

/-- A cut that is long enough keeps the separator. -/
theorem hasMarker_of_length_le (hcut : cut.toList <+: (packId id (some sig)).toList)
    (hlength : (id ++ marker).toList.length ≤ cut.toList.length) : HasMarker cut := by
  rw [toList_packId_some] at hcut
  have hkept := List.prefix_of_prefix_length_le (List.prefix_append _ _) hcut hlength
  rw [String.toList_append] at hkept
  exact (List.suffix_append _ _).isInfix.trans hkept.isInfix

/-- A cut that keeps the separator is split where the whole id is. -/
theorem exists_split_of_cut (hid : MarkerFirst id)
    (hcut : cut.toList <+: (packId id (some sig)).toList) (hmarker : HasMarker cut) :
    ∃ back, cut = id ++ marker ++ back ∧ splitOnce cut marker = some (id, back) ∧
      back.toList <+: (escapeSignature sig).toList := by
  obtain ⟨⟨front, back⟩, hsplit⟩ : ∃ parts, splitOnce cut marker = some parts :=
    Option.ne_none_iff_exists'.mp fun hnone ↦ (splitOnce_eq_none_iff cut).mp hnone hmarker
  obtain ⟨hparts, hfirst⟩ := (splitOnce_eq_some_iff _ _ _).mp hsplit
  obtain ⟨rest, hrest⟩ := hcut
  have hpacked : packId id (some sig) = front ++ marker ++ (back ++ String.ofList rest) := by
    rw [← String.toList_inj, ← hrest, hparts]
    simp only [String.toList_append, String.toList_ofList, List.append_assoc]
  have hcutSplit := (splitOnce_eq_some_iff _ _ _).mpr ⟨hpacked, hfirst⟩
  have hownSplit := (splitOnce_eq_some_iff (packId id (some sig)) id _).mpr ⟨rfl, hid⟩
  obtain ⟨rfl, hback⟩ := Prod.mk.inj (Option.some.inj (hcutSplit.symm.trans hownSplit))
  refine ⟨back, hparts, hsplit, ?_⟩
  rw [← hback, String.toList_append]
  exact List.prefix_append _ _

end CutOff

/-- **Cut-off ids.** A packed id that is cut off keeps its separator exactly if it is long enough.
Without it nothing is decoded. With it the id is recovered, and a signature only if what is left is
a packed id itself, whose signature is then a first part of the original one. -/
theorem unpackId_cut_off (id sig cut : String) (hid : MarkerFirst id)
    (hcut : cut.toList <+: (packId id (some sig)).toList) :
    (HasMarker cut ↔ (id ++ marker).toList.length ≤ cut.toList.length) ∧
      (¬ HasMarker cut → unpackId cut = (cut, none)) ∧
      (HasMarker cut → (unpackId cut).1 = id ∧ ∀ part, (unpackId cut).2 = some part ↔
        cut = packId id (some part) ∧ part.toList <+: sig.toList) := by
  refine ⟨⟨?_, hasMarker_of_length_le hcut⟩, unpackId_of_not_hasMarker, ?_⟩
  · intro hmarker
    obtain ⟨back, rfl, -, -⟩ := exists_split_of_cut hid hcut hmarker
    have hfront : (id ++ marker).toList <+: (id ++ marker ++ back).toList :=
      ⟨back.toList, String.toList_append.symm⟩
    exact hfront.length_le
  · intro hmarker
    obtain ⟨back, hparts, hsplit, hback⟩ := exists_split_of_cut hid hcut hmarker
    have hunpacked : unpackId cut = (id, unescapeSignature back) := by rw [unpackId, hsplit]
    have hsame (part : String) : cut = packId id (some part) ↔ back = escapeSignature part := by
      rw [hparts, packId, ← String.toList_inj, ← String.toList_inj]
      simp only [String.toList_append, List.append_cancel_left_eq]
    rw [hunpacked]
    refine ⟨rfl, fun part ↦ ?_⟩
    rw [hsame, unescapeSignature_of_prefix hback]

/-- Cut inside the escape of the plus sign. -/
theorem unpackId_cut_off_call :
    (HasMarker "call_a__thought__S-2" ↔
        ("call_a" ++ marker).toList.length ≤ "call_a__thought__S-2".toList.length) ∧
      (¬ HasMarker "call_a__thought__S-2" →
        unpackId "call_a__thought__S-2" = ("call_a__thought__S-2", none)) ∧
      (HasMarker "call_a__thought__S-2" → (unpackId "call_a__thought__S-2").1 = "call_a" ∧
        ∀ part, (unpackId "call_a__thought__S-2").2 = some part ↔
          "call_a__thought__S-2" = packId "call_a" (some part) ∧ part.toList <+: "S+".toList) :=
  unpackId_cut_off "call_a" "S+" "call_a__thought__S-2" ((markerFirst_iff (by decide)).mpr (by decide))
    (by decide +kernel)

end VertexGateway.Thought
