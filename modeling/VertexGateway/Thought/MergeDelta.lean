import VertexGateway.Data.KeyedFold
import VertexGateway.Json.Value

/-!
# Merging streamed deltas

`mergeDelta` folds one streamed delta into an accumulated value: objects merge member by member,
strings are appended and everything else is replaced. `Fragments` says what it means for a list of
deltas to be one value cut into pieces, and `assemble_of_fragments` that folding the pieces gives
the value back, whatever unknown members it has and however deep they lie.
-/

namespace VertexGateway.Thought

open KeyedFold

/-- The loop over the patch's members only touches the member it is at, so it is the pointwise
union of the two objects. -/
def mergeDelta : Value → Value → Value
  | .object ⟨dom, val⟩, .object ⟨patchDom, patchVal⟩ =>
    .object ⟨dom ∪ patchDom, fun key ↦
      if h : key.1 ∈ dom then
        if hpatch : key.1 ∈ patchDom then mergeDelta (val ⟨key.1, h⟩) (patchVal ⟨key.1, hpatch⟩)
        else val ⟨key.1, h⟩
      else patchVal ⟨key.1, (Finset.mem_union.mp key.2).resolve_left h⟩⟩
  | .string text, .string patch => .string (text ++ patch)
  | .array _, .array patch => .array patch
  | _, patch => patch
termination_by structural _ patch => patch

@[simp]
theorem mergeDelta_object (map patch : FiniteMap String Value) :
    mergeDelta (.object map) (.object patch) = .object (map.mergeWith mergeDelta patch) := rfl

@[simp]
theorem mergeDelta_string (text patch : String) :
    mergeDelta (.string text) (.string patch) = .string (text ++ patch) := rfl

/-- Merging two objects is the source's loop over the patch's entries, in any order. -/
theorem mergeDelta_eq_foldl (map patch : FiniteMap String Value) (entries : List (String × Value))
    (hnodup : (entries.map Prod.fst).Nodup)
    (hentries : ∀ key value, (key, value) ∈ entries ↔ patch.get? key = some value) :
    mergeDelta (.object map) (.object patch) =
      .object (entries.foldl (FiniteMap.mergeEntry mergeDelta) map) := by
  rw [mergeDelta_object, FiniteMap.foldl_mergeEntry mergeDelta map patch entries hnodup hentries]

/-- The kinds whose deltas replace what was there. -/
def IsReplaced : Value → Prop
  | .string _ => False
  | .object _ => False
  | _ => True

theorem mergeDelta_self_of_isReplaced {value : Value} (h : IsReplaced value) :
    mergeDelta value value = value := by
  cases value with
  | string => exact absurd h not_false
  | object => exact absurd h not_false
  | _ => rfl

/-! ## One value cut into deltas -/

/-- The patches are the value cut into pieces: a string piece by piece, a replaced kind repeated
as it is, an object member by member with every member cut in turn. -/
inductive Fragments : List Value → Value → Prop where
  | string (parts : List String) (hparts : parts ≠ []) :
      Fragments (parts.map .string) (.string (String.join parts))
  | replaced (value : Value) (hvalue : IsReplaced value) (patches : List Value)
      (hpatches : patches ≠ []) (hsame : ∀ patch ∈ patches, patch = value) :
      Fragments patches value
  | object (map : FiniteMap String Value) (patches : List (FiniteMap String Value))
      (hpatches : patches ≠ []) (hkeys : ∀ patch ∈ patches, patch.dom ⊆ map.dom)
      (hmembers : ∀ key value, map.get? key = some value →
        Fragments (patches.filterMap (·.get? key)) value) :
      Fragments (patches.map .object) (.object map)

/-- The pieces of a value, each under the same key. -/
theorem Fragments.member {patches : List Value} {value : Value} (h : Fragments patches value)
    (key : String) :
    Fragments (patches.map fun patch ↦ .obj [(key, patch)]) (.obj [(key, value)]) := by
  have hne : patches ≠ [] := by
    cases h <;> simp_all
  have hmembers : (patches.map fun patch ↦ FiniteMap.ofList [(key, patch)]).filterMap (·.get? key) =
      patches := by
    simp [List.filterMap_map, FiniteMap.ofList]
  have hobjects : (patches.map fun patch ↦ Value.obj [(key, patch)]) =
      (patches.map fun patch ↦ FiniteMap.ofList [(key, patch)]).map .object := by
    rw [List.map_map]
    rfl
  rw [hobjects]
  apply Fragments.object _ _ (by simpa using hne)
  · intro patch hpatch
    obtain ⟨value, -, rfl⟩ := List.mem_map.mp hpatch
    exact le_rfl
  · intro other member hmember
    simp only [FiniteMap.ofList, List.foldl_cons, List.foldl_nil, FiniteMap.get?_insert,
      FiniteMap.get?_empty] at hmember
    split at hmember
    · next hkey =>
      subst hkey
      obtain rfl := Option.some.inj hmember
      rwa [hmembers]
    · exact absurd hmember.symm (Option.some_ne_none member)

/-- What an accumulator holds after receiving the patches in order: a clone of the first with the
others merged into it. -/
def assemble (patches : List Value) : Option Value :=
  foldFirst mergeDelta patches

theorem assemble_concat (patches : List Value) (last : Value) :
    assemble (patches ++ [last]) = Option.merge mergeDelta (assemble patches) (some last) :=
  foldFirst_concat mergeDelta patches last

theorem assemble_strings (parts : List String) (h : parts ≠ []) :
    assemble (parts.map .string) = some (.string (String.join parts)) := by
  induction parts using List.reverseRecOn with
  | nil => exact absurd rfl h
  | append_singleton parts last ih =>
    rw [List.map_append, List.map_singleton, assemble_concat]
    by_cases hparts : parts = []
    · subst hparts
      simp [assemble, String.join]
    · calc
        Option.merge mergeDelta (assemble (parts.map .string)) (some (.string last)) =
            some (.string (String.join parts ++ last)) := by
          rw [ih hparts, Option.merge_some_some, mergeDelta_string]
        _ = some (.string (String.join (parts ++ [last]))) := by
          rw [String.join_append]
          simp [String.join]

theorem assemble_replaced {value : Value} (hvalue : IsReplaced value) (patches : List Value)
    (hpatches : patches ≠ []) (hsame : ∀ patch ∈ patches, patch = value) :
    assemble patches = some value := by
  induction patches using List.reverseRecOn with
  | nil => exact absurd rfl hpatches
  | append_singleton patches last ih =>
    obtain rfl : last = value := hsame last (by simp)
    rw [assemble_concat]
    by_cases hinit : patches = []
    · subst hinit
      rfl
    · have hassembled := ih hinit fun patch hpatch ↦ hsame patch (List.mem_append_left _ hpatch)
      rw [hassembled, Option.merge_some_some, mergeDelta_self_of_isReplaced hvalue]

/-- Assembling objects assembles every member from the patches that have it. -/
theorem assemble_objects (patches : List (FiniteMap String Value)) (h : patches ≠ []) :
    ∃ map : FiniteMap String Value, assemble (patches.map .object) = some (.object map) ∧
      ∀ key, map.get? key = assemble (patches.filterMap (·.get? key)) := by
  induction patches using List.reverseRecOn with
  | nil => exact absurd rfl h
  | append_singleton patches last ih =>
    simp only [List.map_append, List.map_singleton, assemble_concat, List.filterMap_append]
    by_cases hinit : patches = []
    · subst hinit
      refine ⟨last, rfl, fun key ↦ ?_⟩
      cases hlast : last.get? key <;> simp [assemble, foldFirst, hlast]
    · obtain ⟨map, hassembled, hmembers⟩ := ih hinit
      refine ⟨map.mergeWith mergeDelta last, ?_, fun key ↦ ?_⟩
      · rw [hassembled, Option.merge_some_some, mergeDelta_object]
      · rw [FiniteMap.get?_mergeWith, hmembers key]
        cases hlast : last.get? key with
        | none => simp [hlast]
        | some value =>
          simp only [List.filterMap_cons, hlast, List.filterMap_nil, assemble_concat]

/-- Folding the pieces of a value gives the value back. -/
theorem assemble_of_fragments {patches : List Value} {value : Value}
    (h : Fragments patches value) : assemble patches = some value := by
  induction h with
  | string parts hparts => exact assemble_strings parts hparts
  | replaced value hvalue patches hpatches hsame =>
    exact assemble_replaced hvalue patches hpatches hsame
  | object map patches hpatches hkeys hmembers ih =>
    obtain ⟨assembled, hassembled, hget⟩ := assemble_objects patches hpatches
    suffices assembled = map by rw [hassembled, this]
    ext key : 1
    rw [hget key]
    cases hmember : map.get? key with
    | some member => exact ih key member hmember
    | none =>
      -- No patch has a key that the value lacks.
      have hnone : patches.filterMap (·.get? key) = [] := by
        rw [List.filterMap_eq_nil_iff]
        intro patch hpatch
        rw [FiniteMap.get?_eq_none_iff] at hmember ⊢
        exact fun hkey ↦ hmember (hkeys patch hpatch hkey)
      rw [hnone]
      rfl

end VertexGateway.Thought
