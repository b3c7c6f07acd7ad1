import VertexGateway.Thought.ToolCallAccumulator

/-!
# Assembling the consolidated calls again

The client of a stream assembles tool calls by `index` just as the gateway did, and what it gets to
assemble are the calls that the gateway has consolidated and packed. It gets those very calls: they
still carry the index they were accumulated under, no two the same, in ascending order.
-/

namespace VertexGateway.Thought

open KeyedFold

/-- The calls that a list of deltas assembles to, in index order. -/
def assembledCalls (deltas : List Value) : List (UInt64 × Value) :=
  sortByKey (run deltaIndex mergeDelta deltas)

theorem assembledCalls_pairwise (deltas : List Value) :
    (assembledCalls deltas).Pairwise fun left right ↦ left.1 < right.1 :=
  sortByKey_pairwise (nodup_keys_run deltaIndex mergeDelta deltas)

theorem lookup_assembledCalls (deltas : List Value) (index : UInt64) :
    (assembledCalls deltas).lookup index =
      assemble (deltas.filter fun delta ↦ deltaIndex delta = index) := by
  have hnodup := nodup_keys_run deltaIndex mergeDelta deltas
  have hsorted := nodup_keys_of_pairwise (assembledCalls_pairwise deltas)
  rw [assemble, ← lookup_run deltaIndex mergeDelta]
  apply Option.ext
  intro call
  rw [lookup_eq_some_iff_mem hsorted, lookup_eq_some_iff_mem hnodup, assembledCalls,
    (sortByKey_perm _).mem_iff]

theorem finish_absorb_new_eq (deltas : List Value) :
    (ToolCallAccumulator.new.absorb deltas).finish =
      (assembledCalls deltas).map fun entry ↦ packToolCall entry.2 := rfl

/-! ## A call keeps its index -/

/-- The kind of a merged value is the patch's, and a number is the patch. -/
theorem asU64_mergeDelta (acc patch : Value) : (mergeDelta acc patch).asU64 = patch.asU64 := by
  cases acc <;> cases patch <;> rfl

theorem deltaIndex_mergeDelta {acc patch : Value} (h : deltaIndex acc = deltaIndex patch) :
    deltaIndex (mergeDelta acc patch) = deltaIndex patch := by
  cases hpatch : patch.asObject with
  | none =>
    have hmerged : (mergeDelta acc patch).asObject = none := by
      cases acc <;> cases patch <;> simp_all [mergeDelta, Value.asObject]
    have hindex (value : Value) (hvalue : value.asObject = none) : deltaIndex value = 0 := by
      cases value <;> simp_all [deltaIndex, Value.get?, Value.asObject]
    rw [hindex _ hmerged, hindex _ hpatch]
  | some patchMap =>
    obtain rfl := (Value.asObject_eq_some_iff patch patchMap).mp hpatch
    cases hacc : acc.asObject with
    | none => cases acc <;> simp_all [mergeDelta, Value.asObject]
    | some map =>
      obtain rfl := (Value.asObject_eq_some_iff acc map).mp hacc
      unfold deltaIndex at h ⊢
      rw [mergeDelta_object, Value.get?_object, FiniteMap.get?_mergeWith]
      simp only [Value.get?_object] at h ⊢
      cases hmember : patchMap.get? "index" with
      | none => simpa [hmember] using h
      | some member =>
        cases hheld : map.get? "index" with
        | none => simp
        | some held => simp [asU64_mergeDelta]

theorem deltaIndex_of_mem_assembledCalls {deltas : List Value} {entry : UInt64 × Value}
    (h : entry ∈ assembledCalls deltas) : deltaIndex entry.2 = entry.1 := by
  have hmem := (sortByKey_perm (run deltaIndex mergeDelta deltas)).mem_iff.mp h
  exact key_of_mem_run deltaIndex mergeDelta (fun _ _ ↦ deltaIndex_mergeDelta) deltas entry hmem

theorem deltaIndex_packToolCall (call : Value) : deltaIndex (packToolCall call) = deltaIndex call := by
  have hindex : ("index" : String) ≠ "extra_content" ∧ ("index" : String) ≠ "id" := by decide
  unfold deltaIndex packToolCall
  cases signatureOf call with
  | none => rfl
  | some sig =>
    cases call with
    | object obj =>
      cases hid : (obj.get? "id").bind Value.asStr with
      | none => simp [hid]
      | some id =>
        simp [hid, FiniteMap.get?_remove_of_ne _ hindex.1, FiniteMap.get?_insert_of_ne _ hindex.2]
    | _ => rfl

/-! ## Assembling twice -/

/-- What the client assembles from the consolidated calls are these calls. -/
theorem assembledCalls_finish (deltas : List Value) :
    assembledCalls (ToolCallAccumulator.new.absorb deltas).finish =
      (assembledCalls deltas).map fun entry ↦ (entry.1, packToolCall entry.2) := by
  have hsorted := assembledCalls_pairwise deltas
  have hindex (entry : UInt64 × Value) (hentry : entry ∈ assembledCalls deltas) :
      deltaIndex (packToolCall entry.2) = entry.1 := by
    rw [deltaIndex_packToolCall, deltaIndex_of_mem_assembledCalls hentry]
  have hkeys : (ToolCallAccumulator.new.absorb deltas).finish.map deltaIndex =
      (assembledCalls deltas).map Prod.fst := by
    rw [finish_absorb_new_eq, List.map_map]
    exact List.map_congr_left hindex
  have hnodup : ((ToolCallAccumulator.new.absorb deltas).finish.map deltaIndex).Nodup :=
    hkeys ▸ nodup_keys_of_pairwise hsorted
  have hlisted : (ToolCallAccumulator.new.absorb deltas).finish.map (fun call ↦ (deltaIndex call, call)) =
      (assembledCalls deltas).map fun entry ↦ (entry.1, packToolCall entry.2) := by
    rw [finish_absorb_new_eq, List.map_map]
    apply List.map_congr_left
    intro entry hentry
    simp [hindex entry hentry]
  conv_lhs => rw [assembledCalls, run_of_nodup deltaIndex mergeDelta hnodup, hlisted]
  apply sortByKey_of_pairwise
  rw [List.pairwise_map]
  exact hsorted

end VertexGateway.Thought
