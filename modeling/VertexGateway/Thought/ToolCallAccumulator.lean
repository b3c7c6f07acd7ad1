import VertexGateway.Thought.MergeDelta
import VertexGateway.Thought.PackResponse

/-!
# Accumulating streamed tool calls

Fragments of parallel calls arrive interleaved, told apart by their `index`. The accumulator keeps
one merged value per index in the order the indices first appeared and hands the calls out sorted
and packed. Its content is the keyed fold of the deltas, so only the order inside each call matters
and a stream of fragments ends in exactly the calls that a non-streaming response would carry.
-/

namespace VertexGateway.Thought

open KeyedFold

instance uint64LinearOrder : LinearOrder UInt64 where
  le_refl := UInt64.le_refl
  le_trans _ _ _ := UInt64.le_trans
  le_antisymm _ _ := UInt64.le_antisymm
  le_total := UInt64.le_total
  lt_iff_le_not_ge _ _ := by
    simp only [UInt64.lt_iff_toNat_lt, UInt64.le_iff_toNat_le]
    omega
  toDecidableLE := inferInstance

/-- The index a delta carries, 0 when it is missing or no `u64`. -/
def deltaIndex (delta : Value) : UInt64 :=
  ((delta.get? "index").bind Value.asU64).getD 0

/-- Keyed by the `index` field, which is how OpenAI correlates fragments of the same call. -/
structure ToolCallAccumulator where
  calls : List (UInt64 × Value)

namespace ToolCallAccumulator

def new : ToolCallAccumulator := ⟨[]⟩

/-- Absorb the `tool_calls` array from one streamed delta. -/
def absorb (acc : ToolCallAccumulator) (deltas : List Value) : ToolCallAccumulator :=
  ⟨deltas.foldl (upsert deltaIndex mergeDelta) acc.calls⟩

def isEmpty (acc : ToolCallAccumulator) : Bool :=
  acc.calls.isEmpty

/-- Produce the consolidated `tool_calls` array, ids packed, in index order. -/
def finish (acc : ToolCallAccumulator) : List Value :=
  (sortByKey acc.calls).map fun entry ↦ packToolCall entry.2

/-! ## The accumulator is the keyed fold of its deltas -/

theorem absorb_absorb (acc : ToolCallAccumulator) (first second : List Value) :
    (acc.absorb first).absorb second = acc.absorb (first ++ second) := by
  unfold absorb
  rw [List.foldl_append]

/-- Only the concatenation of the absorbed arrays matters. -/
theorem foldl_absorb (acc : ToolCallAccumulator) (groups : List (List Value)) :
    groups.foldl absorb acc = acc.absorb groups.flatten := by
  induction groups generalizing acc with
  | nil => rfl
  | cons group groups ih => rw [List.foldl_cons, ih, absorb_absorb, List.flatten_cons]

theorem calls_absorb_new (deltas : List Value) :
    (new.absorb deltas).calls = run deltaIndex mergeDelta deltas := rfl

theorem isEmpty_absorb_new (deltas : List Value) : (new.absorb deltas).isEmpty = deltas.isEmpty := by
  rw [Bool.eq_iff_iff, isEmpty, calls_absorb_new, List.isEmpty_iff, List.isEmpty_iff,
    run_eq_nil_iff]

/-- One call for each distinct index, in strictly ascending order, holding the assembled deltas of
that index. -/
theorem finish_absorb_new (deltas : List Value) :
    ∃ entries : List (UInt64 × Value), (new.absorb deltas).finish =
        entries.map (fun entry ↦ packToolCall entry.2) ∧
      entries.Pairwise (fun left right ↦ left.1 < right.1) ∧
      (∀ index, index ∈ entries.map Prod.fst ↔ ∃ delta ∈ deltas, deltaIndex delta = index) ∧
      ∀ index call, (index, call) ∈ entries ↔
        assemble (deltas.filter fun delta ↦ deltaIndex delta = index) = some call := by
  have hnodup := nodup_keys_run deltaIndex mergeDelta deltas
  have hperm := sortByKey_perm (run deltaIndex mergeDelta deltas)
  refine ⟨_, rfl, sortByKey_pairwise hnodup, ?_, ?_⟩
  · intro index
    rw [calls_absorb_new, (hperm.map Prod.fst).mem_iff, mem_keys_run]
  · intro index call
    rw [calls_absorb_new, hperm.mem_iff, ← lookup_eq_some_iff_mem hnodup, lookup_run, assemble]

/-- Entries that are already ascending and hold each index's assembled deltas are the result. -/
theorem finish_eq_of_assemble {deltas : List Value} {entries : List (UInt64 × Value)}
    (hsorted : entries.Pairwise fun left right ↦ left.1 < right.1)
    (hentries : ∀ index, entries.lookup index =
      assemble (deltas.filter fun delta ↦ deltaIndex delta = index)) :
    (new.absorb deltas).finish = entries.map fun entry ↦ packToolCall entry.2 := by
  have hsort : sortByKey (run deltaIndex mergeDelta deltas) = sortByKey entries := by
    apply sortByKey_congr (nodup_keys_run _ _ deltas) (nodup_keys_of_pairwise hsorted)
    intro index
    rw [lookup_run, hentries, assemble]
  calc
    (new.absorb deltas).finish =
        (sortByKey (run deltaIndex mergeDelta deltas)).map fun entry ↦ packToolCall entry.2 := by
      unfold finish
      rw [calls_absorb_new]
    _ = entries.map fun entry ↦ packToolCall entry.2 := by
      rw [hsort, sortByKey_of_pairwise hsorted]

end ToolCallAccumulator

/-! ## Streaming agrees with the non-streaming response -/

/-- A tool call as a stream sends it, tagged with its position. -/
def withIndex (index : ℕ) (call : Value) : Value :=
  call.onObject (·.insert "index" (.number (.posInt (UInt64.ofNat index))))

theorem deltaIndex_of_get? {delta : Value} {index : UInt64}
    (h : delta.get? "index" = some (.number (.posInt index))) : deltaIndex delta = index := by
  unfold deltaIndex
  rw [h]
  rfl

theorem packToolCall_withIndex (index : ℕ) (call : Value) :
    packToolCall (withIndex index call) = withIndex index (packToolCall call) := by
  cases call with
  | object obj => exact packToolCall_insert obj (by decide) (by decide) _
  | _ => rfl

/-- The calls tagged with their positions, keyed by them. -/
def indexedCalls (calls : List Value) : List (UInt64 × Value) :=
  calls.mapIdx fun index call ↦ (UInt64.ofNat index, withIndex index call)

theorem indexedCalls_pairwise {calls : List Value} (h : calls.length ≤ UInt64.size) :
    (indexedCalls calls).Pairwise fun left right ↦ left.1 < right.1 := by
  rw [List.pairwise_iff_getElem]
  intro first second hfirst hsecond hlt
  simp only [indexedCalls, List.length_mapIdx] at hfirst hsecond
  simp only [indexedCalls, List.getElem_mapIdx]
  rw [UInt64.lt_iff_toNat_lt, UInt64.toNat_ofNat_of_lt' (by omega),
    UInt64.toNat_ofNat_of_lt' (by omega)]
  exact hlt

/-- A key past the last call is free. -/
theorem lookup_indexedCalls {calls : List Value} (h : calls.length ≤ UInt64.size)
    (index : UInt64) :
    (indexedCalls calls).lookup index = (calls[index.toNat]?).map (withIndex index.toNat) := by
  have hnodup := nodup_keys_of_pairwise (indexedCalls_pairwise h)
  apply Option.ext
  intro call
  rw [lookup_eq_some_iff_mem hnodup, indexedCalls, List.mem_mapIdx, Option.map_eq_some_iff]
  constructor
  · rintro ⟨position, hposition, hentry⟩
    obtain ⟨rfl, rfl⟩ := Prod.mk.inj hentry
    rw [UInt64.toNat_ofNat_of_lt' (by omega)]
    exact ⟨_, List.getElem?_eq_getElem hposition, rfl⟩
  · rintro ⟨found, hfound, rfl⟩
    obtain ⟨hposition, rfl⟩ := List.getElem?_eq_some_iff.mp hfound
    exact ⟨index.toNat, hposition, by rw [UInt64.ofNat_toNat]⟩

/-- The deltas of an index assemble to the tagged call at that position, if there is one. -/
theorem assemble_deltas {calls deltas : List Value} (hlength : calls.length ≤ UInt64.size)
    (hindex : ∀ delta ∈ deltas, ∃ position < calls.length,
      delta.get? "index" = some (.number (.posInt (UInt64.ofNat position))))
    (hfragments : ∀ (position : ℕ) (h : position < calls.length),
      Fragments (deltas.filter fun delta ↦ deltaIndex delta = UInt64.ofNat position)
        (withIndex position calls[position]))
    (index : UInt64) :
    assemble (deltas.filter fun delta ↦ deltaIndex delta = index) =
      (calls[index.toNat]?).map (withIndex index.toNat) := by
  by_cases hposition : index.toNat < calls.length
  · have hpieces := assemble_of_fragments (hfragments index.toNat hposition)
    rw [UInt64.ofNat_toNat] at hpieces
    rw [hpieces, List.getElem?_eq_getElem hposition, Option.map_some]
  · -- No delta carries an index at or past the number of calls.
    have hnone : (deltas.filter fun delta ↦ deltaIndex delta = index) = [] := by
      rw [List.filter_eq_nil_iff]
      intro delta hdelta hkey
      obtain ⟨position, hlt, hget⟩ := hindex delta hdelta
      rw [deltaIndex_of_get? hget, decide_eq_true_eq] at hkey
      rw [← hkey, UInt64.toNat_ofNat_of_lt' (by omega)] at hposition
      exact hposition hlt
    rw [hnone, List.getElem?_eq_none (Nat.not_lt.mp hposition)]
    rfl

/-- **Streaming agrees with non-streaming.** Cut every tagged call into deltas that carry its
index, interleave the deltas of different calls and group them into chunks as the upstream likes:
the accumulator finishes with the calls of the packed non-streaming response, tagged the same way.
The length bound is that of any list of calls in memory, whose positions fit a `u64`. -/
theorem finish_eq_packResponse (calls : List Value) (groups : List (List Value)) (body : Value)
    (hlength : calls.length ≤ UInt64.size)
    (hindex : ∀ delta ∈ groups.flatten, ∃ position < calls.length,
      delta.get? "index" = some (.number (.posInt (UInt64.ofNat position))))
    (hfragments : ∀ (position : ℕ) (h : position < calls.length),
      Fragments (groups.flatten.filter fun delta ↦ deltaIndex delta = UInt64.ofNat position)
        (withIndex position calls[position]))
    (hchoices : ∃ choices, body.get? "choices" = some (.array choices))
    (hbody : body.pointer ["choices", "0", "message", "tool_calls"] = some (.array calls)) :
    ∃ packed, (packResponse body).pointer ["choices", "0", "message", "tool_calls"] =
        some (.array packed) ∧
      (groups.foldl ToolCallAccumulator.absorb .new).finish = packed.mapIdx withIndex := by
  obtain ⟨choices, hchoices⟩ := hchoices
  have hentries (index : UInt64) : (indexedCalls calls).lookup index =
      assemble (groups.flatten.filter fun delta ↦ deltaIndex delta = index) := by
    rw [lookup_indexedCalls hlength, assemble_deltas hlength hindex hfragments]
  refine ⟨calls.map packToolCall, ?_, ?_⟩
  · rw [pointer_packResponse hchoices, hbody]
    rfl
  · rw [ToolCallAccumulator.foldl_absorb,
      ToolCallAccumulator.finish_eq_of_assemble (indexedCalls_pairwise hlength) hentries]
    apply List.ext_getElem?
    intro position
    simp only [indexedCalls, List.getElem?_map, List.getElem?_mapIdx]
    cases calls[position]? with
    | none => rfl
    | some call => simp [packToolCall_withIndex]

/-! ### A signed call in pieces -/

/-- A call with a signature, as Vertex makes it. -/
def signedToolCall (id sig : String) : Value :=
  .obj [("id", .string id), ("extra_content", signatureCarrier sig)]

/-- A delta that carries a piece of the id and nothing else of the call. -/
def idDelta (index : ℕ) (piece : String) : Value :=
  .obj [("id", .string piece), ("index", .number (.posInt (UInt64.ofNat index)))]

/-- A delta that carries a piece of the signature and nothing else of the call. -/
def signatureDelta (index : ℕ) (piece : String) : Value :=
  .obj [("extra_content", signatureCarrier piece),
    ("index", .number (.posInt (UInt64.ofNat index)))]

theorem fragments_signatureCarrier (pieces : List String) (h : pieces ≠ []) :
    Fragments (pieces.map signatureCarrier) (signatureCarrier (String.join pieces)) := by
  have hcarrier := ((Fragments.string pieces h).member "thought_signature").member "google"
  rwa [List.map_map, List.map_map] at hcarrier

/-- The id and the signature come in deltas of their own, in whatever order. -/
theorem fragments_signedToolCall (index : ℕ) (pieces : List (String ⊕ String))
    (hid : pieces.filterMap Sum.getLeft? ≠ []) (hsig : pieces.filterMap Sum.getRight? ≠ []) :
    Fragments (pieces.map (Sum.elim (idDelta index) (signatureDelta index)))
      (withIndex index (signedToolCall (String.join (pieces.filterMap Sum.getLeft?))
        (String.join (pieces.filterMap Sum.getRight?)))) := by
  have hne : pieces ≠ [] := by
    rintro rfl
    exact hid rfl
  let patch : String ⊕ String → FiniteMap String Value
    | .inl piece => FiniteMap.ofList
        [("id", .string piece), ("index", .number (.posInt (UInt64.ofNat index)))]
    | .inr piece => FiniteMap.ofList [("extra_content", signatureCarrier piece),
        ("index", .number (.posInt (UInt64.ofNat index)))]
  have hpatches : pieces.map (Sum.elim (idDelta index) (signatureDelta index)) =
      (pieces.map patch).map .object := by
    rw [List.map_map]
    apply List.map_congr_left
    rintro (piece | piece) - <;> rfl
  have hids : (pieces.map patch).filterMap (·.get? "id") =
      (pieces.filterMap Sum.getLeft?).map .string := by
    rw [List.filterMap_map, List.map_filterMap]
    apply List.filterMap_congr
    rintro (piece | piece) - <;> rfl
  have hcarriers : (pieces.map patch).filterMap (·.get? "extra_content") =
      (pieces.filterMap Sum.getRight?).map signatureCarrier := by
    rw [List.filterMap_map, List.map_filterMap]
    apply List.filterMap_congr
    rintro (piece | piece) - <;> rfl
  have hindices : (pieces.map patch).filterMap (·.get? "index") =
      pieces.map fun _ ↦ .number (.posInt (UInt64.ofNat index)) := by
    rw [List.filterMap_map, ← List.filterMap_eq_map]
    apply List.filterMap_congr
    rintro (piece | piece) - <;> rfl
  rw [hpatches]
  apply Fragments.object _ _ (by simpa using hne)
  · intro map hmap
    obtain ⟨piece, -, rfl⟩ := List.mem_map.mp hmap
    cases piece <;> simp [patch, FiniteMap.ofList, FiniteMap.insert, FiniteMap.empty]
  · intro key value hvalue
    simp only [FiniteMap.ofList, List.foldl_cons, List.foldl_nil, FiniteMap.get?_insert,
      FiniteMap.get?_empty] at hvalue
    split_ifs at hvalue with hindex hextra hkey
    all_goals
      subst key
      obtain rfl := Option.some.inj hvalue
    · rw [hindices]
      exact Fragments.replaced (.number _) trivial _ (by simpa using hne) (by simp)
    · rw [hcarriers]
      exact fragments_signatureCarrier _ hsig
    · rw [hids]
      exact Fragments.string _ hid

/-- Two signed calls whose fragments interleave over three chunks. The second call's signature
arrives before its id, the first call's id and signature in turn. -/
def parallelDeltas : List (List Value) :=
  [[signatureDelta 1 "TUV", idDelta 0 "call"], [signatureDelta 0 "SI", idDelta 1 "call_b"],
    [idDelta 0 "_a", signatureDelta 0 "G"]]

def parallelCalls : List Value :=
  [signedToolCall "call_a" "SIG", signedToolCall "call_b" "TUV"]

def parallelBody : Value :=
  .obj [("choices", .array [.obj [("message", .obj [("tool_calls", .array parallelCalls)])]])]

theorem finish_eq_packResponse_parallel :
    ∃ packed, (packResponse parallelBody).pointer ["choices", "0", "message", "tool_calls"] =
        some (.array packed) ∧
      (parallelDeltas.foldl ToolCallAccumulator.absorb .new).finish = packed.mapIdx withIndex := by
  apply finish_eq_packResponse parallelCalls parallelDeltas parallelBody (by decide) _ _
    ⟨_, rfl⟩ rfl
  · intro delta hdelta
    have hplaces : parallelDeltas.flatten.map (·.get? "index") = [1, 0, 0, 1, 0, 0].map
        fun position ↦ some (.number (.posInt (UInt64.ofNat position))) := rfl
    have hplace := List.mem_map_of_mem (f := (·.get? "index")) hdelta
    rw [hplaces] at hplace
    obtain ⟨position, hposition, hindex⟩ := List.mem_map.mp hplace
    have hlt : ∀ position ∈ [1, 0, 0, 1, 0, 0], position < 2 := by decide
    exact ⟨position, hlt position hposition, hindex.symm⟩
  · intro position hposition
    match position, hposition with
    | 0, _ =>
      exact fragments_signedToolCall 0 [.inl "call", .inr "SI", .inl "_a", .inr "G"]
        (by decide) (by decide)
    | 1, _ =>
      exact fragments_signedToolCall 1 [.inr "TUV", .inl "call_b"] (by decide) (by decide)

/-! ## Interleaving is invisible -/

/-- **Interleaving is invisible.** Rearranging the deltas without swapping two of the same index,
and grouping them into other chunks, changes nothing in the result: one call for each distinct
index, in strictly ascending order, each the packed left fold of the deltas of its index alone. -/
theorem finish_interleaving (groups otherGroups : List (List Value))
    (h : Reorders deltaIndex groups.flatten otherGroups.flatten) :
    (otherGroups.foldl ToolCallAccumulator.absorb .new).finish =
        (groups.foldl ToolCallAccumulator.absorb .new).finish ∧
      ∃ entries : List (UInt64 × Value), (groups.foldl ToolCallAccumulator.absorb .new).finish =
          entries.map (fun entry ↦ packToolCall entry.2) ∧
        entries.Pairwise (fun left right ↦ left.1 < right.1) ∧
        (∀ index, index ∈ entries.map Prod.fst ↔
          ∃ delta ∈ groups.flatten, deltaIndex delta = index) ∧
        ∀ index call, (index, call) ∈ entries ↔ ∃ first rest,
          (groups.flatten.filter fun delta ↦ deltaIndex delta = index) = first :: rest ∧
            call = rest.foldl mergeDelta first := by
  obtain ⟨entries, hfinish, hsorted, hkeys, hentries⟩ :=
    ToolCallAccumulator.finish_absorb_new groups.flatten
  have hnodup := nodup_keys_of_pairwise hsorted
  rw [ToolCallAccumulator.foldl_absorb, ToolCallAccumulator.foldl_absorb]
  constructor
  · rw [hfinish]
    apply ToolCallAccumulator.finish_eq_of_assemble hsorted
    intro index
    rw [← h.filter_eq index]
    apply Option.ext
    intro call
    rw [lookup_eq_some_iff_mem hnodup, hentries]
  · refine ⟨entries, hfinish, hsorted, hkeys, fun index call ↦ ?_⟩
    rw [hentries, assemble, foldFirst_eq_some_iff]

/-- The same fragments, in another order and in other chunks. -/
def regroupedDeltas : List (List Value) :=
  [[idDelta 0 "call"], [signatureDelta 0 "SI", signatureDelta 1 "TUV", idDelta 0 "_a"],
    [signatureDelta 0 "G", idDelta 1 "call_b"]]

/-- Where each of the parallel deltas goes. -/
def regroupedPosition : Fin 6 ≃ Fin 6 where
  toFun := ![2, 0, 1, 5, 3, 4]
  invFun := ![1, 2, 0, 4, 5, 3]
  left_inv := by decide
  right_inv := by decide

theorem finish_interleaving_parallel :
    (regroupedDeltas.foldl ToolCallAccumulator.absorb .new).finish =
        (parallelDeltas.foldl ToolCallAccumulator.absorb .new).finish ∧
      ∃ entries : List (UInt64 × Value),
        (parallelDeltas.foldl ToolCallAccumulator.absorb .new).finish =
          entries.map (fun entry ↦ packToolCall entry.2) ∧
        entries.Pairwise (fun left right ↦ left.1 < right.1) ∧
        (∀ index, index ∈ entries.map Prod.fst ↔
          ∃ delta ∈ parallelDeltas.flatten, deltaIndex delta = index) ∧
        ∀ index call, (index, call) ∈ entries ↔ ∃ first rest,
          (parallelDeltas.flatten.filter fun delta ↦ deltaIndex delta = index) = first :: rest ∧
            call = rest.foldl mergeDelta first := by
  apply finish_interleaving parallelDeltas regroupedDeltas
  have hget : ∀ index : Fin 6, regroupedDeltas.flatten.get (regroupedPosition index) =
      parallelDeltas.flatten.get index := by
    intro index
    fin_cases index <;> rfl
  exact ⟨regroupedPosition, hget, by decide⟩

end VertexGateway.Thought
