import VertexGateway.Thought.ReceivedText
import VertexGateway.Thought.Reassembly

/-!
# Merging deltas before they arrive

An upstream, or a proxy in front of it, may send two deltas of a call as one. Whether the gateway
can tell depends on whether `mergeDelta` is associative at these two, and it is unless the later
one sets a new kind: a string or an object, at any depth, that does not continue one. Then whatever
came before shows, because the two deltas apart would have wiped it out and the merged one is
appended to it.
-/

namespace VertexGateway.Thought

open KeyedFold

/-- Every string and every object of the later delta continues one of the earlier delta, at every
member that both have. -/
inductive Coalesces : Value → Value → Prop where
  | replaced (earlier : Value) {later : Value} (h : IsReplaced later) : Coalesces earlier later
  | string (earlier later : String) : Coalesces (.string earlier) (.string later)
  | object (earlier later : FiniteMap String Value)
      (h : ∀ key first second, earlier.get? key = some first → later.get? key = some second →
        Coalesces first second) : Coalesces (.object earlier) (.object later)

/-! ## Associativity -/

theorem mergeDelta_replaced (acc : Value) {later : Value} (h : IsReplaced later) :
    mergeDelta acc later = later := by
  cases later with
  | string => exact absurd h not_false
  | object => exact absurd h not_false
  | _ => cases acc <;> rfl

theorem mergeDelta_string_of_asStr_none {acc : Value} (h : acc.asStr = none) (text : String) :
    mergeDelta acc (.string text) = .string text := by
  cases acc with
  | string held => exact absurd h (Option.some_ne_none held)
  | _ => rfl

theorem Coalesces.mergeDelta_assoc {earlier later : Value} (h : Coalesces earlier later)
    (acc : Value) :
    mergeDelta (mergeDelta acc earlier) later = mergeDelta acc (mergeDelta earlier later) := by
  induction h generalizing acc with
  | replaced earlier hlater => simp only [mergeDelta_replaced _ hlater]
  | string earlier later =>
    cases hacc : acc.asStr with
    | none => simp [mergeDelta_string_of_asStr_none hacc]
    | some held =>
      obtain rfl := (Value.asStr_eq_some_iff acc held).mp hacc
      simp [String.append_assoc]
  | object earlier later hmembers ih =>
    cases hacc : acc.asObject with
    | none => simp [mergeDelta_object_of_asObject_none hacc]
    | some map =>
      obtain rfl := (Value.asObject_eq_some_iff acc map).mp hacc
      simp only [mergeDelta_object, Value.object.injEq]
      ext key : 1
      simp only [FiniteMap.get?_mergeWith]
      cases hfirst : earlier.get? key with
      | none => simp
      | some first =>
        cases hsecond : later.get? key with
        | none => simp
        | some second =>
          cases map.get? key with
          | none => simp
          | some held => simp [ih key first second hfirst hsecond held]

/-- A string that continues nothing shows behind any text. -/
theorem asStr_of_assoc {earlier : Value} {text : String}
    (h : ∀ acc, mergeDelta (mergeDelta acc earlier) (.string text) =
      mergeDelta acc (mergeDelta earlier (.string text))) : earlier.asStr.isSome := by
  by_contra hnone
  rw [Option.not_isSome_iff_eq_none] at hnone
  have hheld : (mergeDelta (.string "x") earlier).asStr = none := by
    cases earlier with
    | string held => exact absurd hnone (Option.some_ne_none held)
    | _ => rfl
  have heq := h (.string "x")
  rw [mergeDelta_string_of_asStr_none hheld, mergeDelta_string_of_asStr_none hnone,
    mergeDelta_string, Value.string.injEq] at heq
  have hlength := congrArg String.length heq
  simp at hlength

/-- An object that continues nothing shows beside any member it lacks. -/
theorem asObject_of_assoc {earlier : Value} {patch : FiniteMap String Value}
    (h : ∀ acc, mergeDelta (mergeDelta acc earlier) (.object patch) =
      mergeDelta acc (mergeDelta earlier (.object patch))) : earlier.asObject.isSome := by
  by_contra hnone
  rw [Option.not_isSome_iff_eq_none] at hnone
  obtain ⟨key, hkey⟩ := Infinite.exists_notMem_finset patch.dom
  have hheld : (mergeDelta (.object (FiniteMap.empty.insert key .null)) earlier).asObject = none := by
    cases earlier with
    | object held => exact absurd hnone (Option.some_ne_none held)
    | _ => rfl
  have heq := h (.object (FiniteMap.empty.insert key .null))
  rw [mergeDelta_object_of_asObject_none hheld, mergeDelta_object_of_asObject_none hnone,
    mergeDelta_object, Value.object.injEq] at heq
  have hmember := congrArg (FiniteMap.get? · key) heq
  simp [FiniteMap.get?_mergeWith, (FiniteMap.get?_eq_none_iff patch key).mpr hkey] at hmember

theorem coalesces_of_assoc {earlier later : Value}
    (h : ∀ acc, mergeDelta (mergeDelta acc earlier) later =
      mergeDelta acc (mergeDelta earlier later)) : Coalesces earlier later := by
  induction later generalizing earlier with
  | string text =>
    obtain ⟨held, hheld⟩ := Option.isSome_iff_exists.mp (asStr_of_assoc h)
    rw [(Value.asStr_eq_some_iff earlier held).mp hheld]
    exact .string held text
  | object patch ih =>
    obtain ⟨map, hmap⟩ := Option.isSome_iff_exists.mp (asObject_of_assoc h)
    obtain rfl := (Value.asObject_eq_some_iff earlier map).mp hmap
    refine .object map patch fun key first second hfirst hsecond ↦ ih key second hsecond ?_
    intro acc
    -- The two orders of merging agree on an object that holds the value under this key.
    have heq := h (.object (FiniteMap.empty.insert key acc))
    simp only [mergeDelta_object, Value.object.injEq] at heq
    have hmember := congrArg (FiniteMap.get? · key) heq
    simpa [FiniteMap.get?_mergeWith, hfirst, hsecond] using hmember
  | _ => exact .replaced earlier trivial

/-! ## The accumulator cannot tell -/

theorem Coalesces.assemble_eq {earlier later : Value} (h : Coalesces earlier later)
    (front back : List Value) :
    assemble (front ++ earlier :: later :: back) =
      assemble (front ++ mergeDelta earlier later :: back) := by
  cases front with
  | nil => rfl
  | cons first rest =>
    simp only [assemble, List.cons_append, foldFirst, List.foldl_append, List.foldl_cons,
      h.mergeDelta_assoc]

/-- Accumulators that assemble the same for every index finish with the same calls. -/
theorem finish_congr {deltas others : List Value}
    (h : ∀ index, assemble (deltas.filter fun delta ↦ deltaIndex delta = index) =
      assemble (others.filter fun delta ↦ deltaIndex delta = index)) :
    (ToolCallAccumulator.new.absorb deltas).finish =
      (ToolCallAccumulator.new.absorb others).finish := by
  rw [finish_absorb_new_eq others]
  apply ToolCallAccumulator.finish_eq_of_assemble (assembledCalls_pairwise others)
  intro index
  rw [h, ← lookup_assembledCalls]

/-- **Merging deltas before they arrive.** Merging is associative at two deltas exactly when the
later one continues the earlier one wherever it holds a string or an object. If so, and the two have
the same index, an upstream may send them as one, past whatever belongs to other calls, and in any
grouping: the accumulator finishes with the same calls. -/
theorem coalescing_invisible (earlier later : Value) :
    ((∀ acc, mergeDelta (mergeDelta acc earlier) later = mergeDelta acc (mergeDelta earlier later)) ↔
      Coalesces earlier later) ∧
    (Coalesces earlier later → deltaIndex earlier = deltaIndex later →
      ∀ (front middle back : List Value) (groups otherGroups : List (List Value)),
        (∀ delta ∈ middle, deltaIndex delta ≠ deltaIndex later) →
        groups.flatten = front ++ earlier :: (middle ++ later :: back) →
        otherGroups.flatten = front ++ mergeDelta earlier later :: (middle ++ back) →
        (otherGroups.foldl ToolCallAccumulator.absorb .new).finish =
          (groups.foldl ToolCallAccumulator.absorb .new).finish) := by
  refine ⟨⟨coalesces_of_assoc, fun h ↦ h.mergeDelta_assoc⟩, ?_⟩
  intro h hindex front middle back groups otherGroups hmiddle hgroups hother
  rw [ToolCallAccumulator.foldl_absorb, ToolCallAccumulator.foldl_absorb, hgroups, hother]
  apply finish_congr
  intro index
  have hmerged := deltaIndex_mergeDelta hindex
  by_cases hkey : deltaIndex later = index
  · -- Between the two there is no delta of their index.
    have hnone : middle.filter (fun delta ↦ deltaIndex delta = index) = [] := by
      rw [List.filter_eq_nil_iff]
      intro delta hdelta hsame
      exact hmiddle delta hdelta ((of_decide_eq_true hsame).trans hkey.symm)
    simp only [List.filter_append, List.filter_cons, hmerged, hindex, hkey, hnone, decide_true,
      if_true, List.nil_append]
    exact (h.assemble_eq _ _).symm
  · simp only [List.filter_append, List.filter_cons, hmerged, hindex, hkey, decide_false,
      Bool.false_eq_true, if_false]

theorem coalesces_idDelta (index : ℕ) (first second : String) :
    Coalesces (idDelta index first) (idDelta index second) := by
  refine .object _ _ fun key earlier later hearlier hlater ↦ ?_
  simp only [FiniteMap.ofList, List.foldl_cons, List.foldl_nil, FiniteMap.get?_insert,
    FiniteMap.get?_empty] at hearlier hlater
  split at hlater
  · rw [← Option.some.inj hlater]
    exact .replaced earlier trivial
  · next hindex =>
    rw [if_neg hindex] at hearlier
    split at hlater
    · next hid =>
      rw [if_pos hid] at hearlier
      rw [← Option.some.inj hearlier, ← Option.some.inj hlater]
      exact .string first second
    · exact absurd hlater.symm (Option.some_ne_none later)

theorem coalescing_invisible_ids :
    ((∀ acc, mergeDelta (mergeDelta acc (idDelta 0 "call")) (idDelta 0 "_a") =
        mergeDelta acc (mergeDelta (idDelta 0 "call") (idDelta 0 "_a"))) ↔
      Coalesces (idDelta 0 "call") (idDelta 0 "_a")) ∧
    ([[mergeDelta (idDelta 0 "call") (idDelta 0 "_a")], [idDelta 1 "call_b"]].foldl
        ToolCallAccumulator.absorb .new).finish =
      ([[idDelta 0 "call", idDelta 1 "call_b"], [idDelta 0 "_a"]].foldl
        ToolCallAccumulator.absorb .new).finish :=
  have h := coalescing_invisible (idDelta 0 "call") (idDelta 0 "_a")
  ⟨h.1, h.2 (coalesces_idDelta 0 "call" "_a") rfl [] [idDelta 1 "call_b"] [] _ _
    (by simp [show deltaIndex (idDelta 1 "call_b") = 1 from rfl,
      show deltaIndex (idDelta 0 "_a") = 0 from rfl]) rfl rfl⟩

-- A null between two pieces of text wipes out the first, unless it was merged with the second.
example : mergeDelta (mergeDelta (.string "a") .null) (.string "b") = .string "b" ∧
    mergeDelta (.string "a") (mergeDelta .null (.string "b")) = .string "ab" := ⟨rfl, rfl⟩

end VertexGateway.Thought
