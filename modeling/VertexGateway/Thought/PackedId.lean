import VertexGateway.Data.Occurrence
import VertexGateway.Thought.SignatureEscape

/-!
# Smuggling a signature inside a tool call id

A packed id is the real id, the separator and the escaped signature. Unpacking splits at the first
occurrence of the separator, so it finds the one that packing inserted exactly when the id does not
already begin an occurrence. The separator overlaps itself in its underscores, which is why an id
without the separator can still be cut too early: two endings do it, and only those two.
-/

namespace VertexGateway.Thought

/-- Separator between the real id and the smuggled signature. -/
def marker : String := "__thought__"

/-- `str::split_once`. -/
def splitOnce (text pattern : String) : Option (String × String) :=
  (Occurrence.splitOnce pattern.toList text.toList).map fun parts ↦
    (String.ofList parts.1, String.ofList parts.2)

def packId (id : String) (signature : Option String) : String :=
  match signature with
  | some sig => id ++ marker ++ escapeSignature sig
  | none => id

def unpackId (packed : String) : String × Option String :=
  match splitOnce packed marker with
  | some (id, escaped) => (id, unescapeSignature escaped)
  | none => (packed, none)

/-! ## Locating the separator -/

/-- The separator occurs somewhere in the text. -/
def HasMarker (text : String) : Prop :=
  marker.toList <:+: text.toList

/-- In the text followed by the separator, the first occurrence is the appended one. -/
def MarkerFirst (text : String) : Prop :=
  Occurrence.FirstAt marker.toList text.toList

instance (text : String) : Decidable (HasMarker text) :=
  inferInstanceAs (Decidable (marker.toList <:+: text.toList))

theorem splitOnce_eq_some_iff (text front back : String) :
    splitOnce text marker = some (front, back) ↔
      text = front ++ marker ++ back ∧ MarkerFirst front := by
  have hsplit := Occurrence.splitOnce_eq_some_iff marker.toList text.toList front.toList back.toList
  rw [← String.toList_append, ← String.toList_append, String.toList_inj] at hsplit
  rw [MarkerFirst, ← hsplit, splitOnce, Option.map_eq_some_iff]
  constructor
  · rintro ⟨⟨first, second⟩, hparts, hstrings⟩
    obtain ⟨rfl, rfl⟩ := Prod.mk.inj hstrings
    simpa using hparts
  · exact fun h ↦ ⟨_, h, by simp⟩

theorem splitOnce_eq_none_iff (text : String) :
    splitOnce text marker = none ↔ ¬ HasMarker text := by
  unfold splitOnce HasMarker
  rw [Option.map_eq_none_iff, Occurrence.splitOnce_eq_none_iff]

theorem unpackId_of_not_hasMarker {id : String} (h : ¬ HasMarker id) : unpackId id = (id, none) := by
  unfold unpackId
  rw [(splitOnce_eq_none_iff id).mpr h]

/-- An occurrence inside the text is an occurrence before the appended separator. -/
theorem not_hasMarker_of_markerFirst {text : String} (h : MarkerFirst text) : ¬ HasMarker text := by
  rintro ⟨front, back, htext⟩
  have hmarker : 0 < marker.toList.length := by decide
  have hposition : front.length < text.toList.length := by
    rw [← htext, List.length_append, List.length_append]
    omega
  apply h front.length hposition
  rw [← htext, List.append_assoc, List.append_assoc, List.drop_left, ← List.append_assoc]
  exact (List.prefix_append _ _).trans (List.prefix_append _ _)

/-- Packing a signature is undone exactly when the appended separator is the first one. -/
theorem unpackId_packId_some_iff (id sig : String) :
    unpackId (packId id (some sig)) = (id, some sig) ↔ MarkerFirst id := by
  constructor
  · intro h
    cases hsplit : splitOnce (packId id (some sig)) marker with
    | none =>
      rw [unpackId, hsplit] at h
      exact absurd (Prod.mk.inj h).2.symm (Option.some_ne_none sig)
    | some parts =>
      rw [unpackId, hsplit] at h
      rw [← (Prod.mk.inj h).1]
      exact ((splitOnce_eq_some_iff _ parts.1 parts.2).mp hsplit).2
  · intro h
    have hsplit : splitOnce (packId id (some sig)) marker = some (id, escapeSignature sig) :=
      (splitOnce_eq_some_iff _ _ _).mpr ⟨rfl, h⟩
    calc
      unpackId (packId id (some sig)) = (id, unescapeSignature (escapeSignature sig)) := by
        unfold unpackId
        rw [hsplit]
      _ = (id, some sig) := by rw [unescapeSignature_escapeSignature]

/-- An id whose only overlap with the appended separator is the separator itself round-trips,
signed or not. -/
theorem unpackId_packId {id : String} (h : MarkerFirst id) (signature : Option String) :
    unpackId (packId id signature) = (id, signature) := by
  cases signature with
  | none => exact unpackId_of_not_hasMarker (not_hasMarker_of_markerFirst h)
  | some sig => exact (unpackId_packId_some_iff id sig).mpr h

/-! ## Which ids are cut too early -/

/-- The lengths at which a tail of the separator is also a head of it. -/
theorem marker_borders : ∀ overlap < marker.toList.length, 0 < overlap →
    (marker.toList.drop overlap <+: marker.toList ↔ overlap = 9 ∨ overlap = 10) := by
  decide

theorem markerFirst_iff {id : String} (h : ¬ HasMarker id) :
    MarkerFirst id ↔
      ¬ "__thought".toList <:+ id.toList ∧ ¬ "__thought_".toList <:+ id.toList := by
  have hnine : marker.toList.take 9 = "__thought".toList := by decide
  have hten : marker.toList.take 10 = "__thought_".toList := by decide
  have hlength : marker.toList.length = 11 := by decide
  unfold MarkerFirst
  rw [Occurrence.firstAt_iff_borders h]
  constructor
  · intro hborders
    refine ⟨?_, ?_⟩
    · rw [← hnine]
      exact hborders 9 (by omega) (by omega)
        ((marker_borders 9 (by omega) (by omega)).mpr (.inl rfl))
    · rw [← hten]
      exact hborders 10 (by omega) (by omega)
        ((marker_borders 10 (by omega) (by omega)).mpr (.inr rfl))
  · rintro ⟨hshort, hlong⟩ overlap hpos hlt hborder
    rcases (marker_borders overlap hlt hpos).mp hborder with rfl | rfl
    · rwa [hnine]
    · rwa [hten]

/-- Id packing is lossless on ids without the separator, except when a signature is packed into an
id that already ends in nine or ten characters of it. -/
theorem unpackId_packId_iff (id : String) (signature : Option String) (h : ¬ HasMarker id) :
    unpackId (packId id signature) = (id, signature) ↔
      signature = none ∨
        (¬ "__thought".toList <:+ id.toList ∧ ¬ "__thought_".toList <:+ id.toList) := by
  cases signature with
  | none =>
    rw [packId, unpackId_of_not_hasMarker h]
    simp
  | some sig =>
    rw [unpackId_packId_some_iff, markerFirst_iff h]
    simp

theorem unpackId_packId_iff_call_1 :
    ¬ HasMarker "call_1" ∧
      (unpackId (packId "call_1" (some "a+b-c")) = ("call_1", some "a+b-c") ↔
        some "a+b-c" = none ∨
          (¬ "__thought".toList <:+ "call_1".toList ∧
            ¬ "__thought_".toList <:+ "call_1".toList)) :=
  have h : ¬ HasMarker "call_1" := by decide
  ⟨h, unpackId_packId_iff "call_1" (some "a+b-c") h⟩

/-- The id `call__thought` contains no separator, and packing a signature into it loses both. -/
theorem unpackId_packId_overlap :
    ¬ HasMarker "call__thought" ∧
      unpackId (packId "call__thought" (some "S")) = ("call", some "thought__S") ∧
      unpackId (packId "call__thought" (some "S")) ≠ ("call__thought", some "S") := by
  decide +kernel

end VertexGateway.Thought
