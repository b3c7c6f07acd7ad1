import VertexGateway.Json.Position
import VertexGateway.Thought.ToolCallAccumulator

/-!
# Received text stays received

A string that has arrived for a tool call is appended to by later deltas and should never be lost:
the id and the signature may come in different chunks, and the call is packed only when the stream
is over. A later delta that continues the call the way a stream does keeps the text, with one
exception: an explicit null on the way to it replaces whatever was there.
-/

namespace VertexGateway.Thought

open KeyedFold

/-- What a delta may hold along a path of keys: nothing from some key on, an object where the path
goes on, a string where it ends, and an explicit null at any step. -/
def Continues : List String → Value → Prop
  | [], patch => patch = .null ∨ ∃ text, patch = .string text
  | key :: rest, patch => patch = .null ∨ ∃ map, patch = .object map ∧
      ∀ member, map.get? key = some member → Continues rest member

/-- There is an explicit null at some step along the path. -/
def HasNull (path : List String) (patch : Value) : Prop :=
  ∃ front, front <+: path ∧ patch.locate (front.map .key) = some .null

/-- The value holds, at a path of keys, a string that starts with the text. -/
def HoldsText (path : List String) (text : String) (value : Value) : Prop :=
  ∃ more, value.locate (path.map .key) = some (.string (text ++ more))

theorem hasNull_null (path : List String) : HasNull path .null :=
  ⟨[], List.nil_prefix, rfl⟩

theorem not_hasNull_string (path : List String) (text : String) :
    ¬ HasNull path (.string text) := by
  rintro ⟨front, -, hnull⟩
  cases front with
  | nil => exact absurd hnull (by simp)
  | cons key rest => exact absurd hnull (by simp [Value.child])

theorem hasNull_object_iff (key : String) (rest : List String) (map : FiniteMap String Value) :
    HasNull (key :: rest) (.object map) ↔
      ∃ member, map.get? key = some member ∧ HasNull rest member := by
  constructor
  · rintro ⟨front, hfront, hnull⟩
    cases front with
    | nil => exact absurd hnull (by simp)
    | cons first front =>
      obtain ⟨rfl, hrest⟩ := List.cons_prefix_cons.mp hfront
      rw [List.map_cons, Value.locate_cons, Value.child_object_key,
        Option.bind_eq_some_iff] at hnull
      obtain ⟨member, hmember, hbelow⟩ := hnull
      exact ⟨member, hmember, front, hrest, hbelow⟩
  · rintro ⟨member, hmember, front, hfront, hnull⟩
    refine ⟨key :: front, List.cons_prefix_cons.mpr ⟨rfl, hfront⟩, ?_⟩
    rw [List.map_cons, Value.locate_cons, Value.child_object_key, hmember, Option.bind_some, hnull]

theorem not_holdsText_null (path : List String) (text : String) : ¬ HoldsText path text .null := by
  rintro ⟨more, hmore⟩
  cases path with
  | nil => exact absurd hmore (by simp)
  | cons key rest => exact absurd hmore (by simp [Value.child])

/-! ## One merge -/

theorem mergeDelta_null (acc : Value) : mergeDelta acc .null = .null := by
  cases acc <;> rfl

/-- Replacing is all that happens to an accumulator that is no object. -/
theorem mergeDelta_object_of_asObject_none {acc : Value} (h : acc.asObject = none)
    (patch : FiniteMap String Value) : mergeDelta acc (.object patch) = .object patch := by
  cases acc with
  | object map => exact absurd h (Option.some_ne_none map)
  | _ => rfl

/-- One merge keeps the text at a path exactly when the delta has no explicit null on the way. -/
theorem mergeDelta_holdsText_iff {path : List String} {text : String} {acc patch : Value}
    (hacc : acc.locate (path.map .key) = some (.string text)) (hpatch : Continues path patch) :
    HoldsText path text (mergeDelta acc patch) ↔ ¬ HasNull path patch := by
  induction path generalizing acc patch with
  | nil =>
    obtain rfl : acc = .string text := Option.some.inj hacc
    rcases hpatch with rfl | ⟨more, rfl⟩
    · simp [mergeDelta_null, hasNull_null, not_holdsText_null]
    · exact iff_of_true ⟨more, rfl⟩ (not_hasNull_string [] more)
  | cons key rest ih =>
    obtain ⟨inner, hchild, hbelow⟩ := Option.bind_eq_some_iff.mp hacc
    rw [Value.child_key] at hchild
    obtain ⟨map, rfl, hinner⟩ := Value.exists_object_of_get? hchild
    rcases hpatch with rfl | ⟨patchMap, rfl, hmembers⟩
    · simp [mergeDelta_null, hasNull_null, not_holdsText_null]
    · rw [hasNull_object_iff, mergeDelta_object]
      cases hmember : patchMap.get? key with
      | none =>
        have hkept : HoldsText (key :: rest) text (.object (map.mergeWith mergeDelta patchMap)) :=
          ⟨"", by simp [FiniteMap.get?_mergeWith, hinner, hmember, hbelow]⟩
        simpa using hkept
      | some member =>
        have hmerged : HoldsText (key :: rest) text (.object (map.mergeWith mergeDelta patchMap)) ↔
            HoldsText rest text (mergeDelta inner member) := by
          simp [HoldsText, FiniteMap.get?_mergeWith, hinner, hmember]
        rw [hmerged, ih hbelow (hmembers member hmember)]
        simp

/-- A merge receives the text that the delta carries, behind what was there. -/
theorem mergeDelta_receives {path : List String} {piece : String} {patch : Value}
    (hpatch : patch.locate (path.map .key) = some (.string piece)) (acc : Value) :
    ∃ before, (mergeDelta acc patch).locate (path.map .key) = some (.string (before ++ piece)) := by
  induction path generalizing acc patch with
  | nil =>
    obtain rfl : patch = .string piece := Option.some.inj hpatch
    cases acc with
    | string text => exact ⟨text, rfl⟩
    | _ => exact ⟨"", by simp [mergeDelta]⟩
  | cons key rest ih =>
    obtain ⟨member, hchild, hbelow⟩ := Option.bind_eq_some_iff.mp hpatch
    rw [Value.child_key] at hchild
    obtain ⟨patchMap, rfl, hmember⟩ := Value.exists_object_of_get? hchild
    cases hobject : acc.asObject with
    | none =>
      rw [mergeDelta_object_of_asObject_none hobject]
      exact ⟨"", by simp [hmember, hbelow]⟩
    | some map =>
      obtain rfl := (Value.asObject_eq_some_iff acc map).mp hobject
      cases hinner : map.get? key with
      | none => exact ⟨"", by simp [FiniteMap.get?_mergeWith, hinner, hmember, hbelow]⟩
      | some inner =>
        obtain ⟨before, hbefore⟩ := ih hbelow inner
        exact ⟨before, by simp [FiniteMap.get?_mergeWith, hinner, hmember, hbefore]⟩

/-! ## A run of merges -/

/-- A delta that may follow once text has arrived at the path. -/
def KeepsText (path : List String) (patch : Value) : Prop :=
  Continues path patch ∧ ¬ HasNull path patch

theorem HoldsText.foldl_mergeDelta {path : List String} {text : String} {acc : Value}
    (h : HoldsText path text acc) {patches : List Value}
    (hpatches : ∀ patch ∈ patches, KeepsText path patch) :
    HoldsText path text (patches.foldl mergeDelta acc) := by
  induction patches generalizing acc with
  | nil => exact h
  | cons patch patches ih =>
    obtain ⟨more, hacc⟩ := h
    obtain ⟨hcontinues, hnull⟩ := hpatches patch List.mem_cons_self
    obtain ⟨appended, hmerged⟩ := (mergeDelta_holdsText_iff hacc hcontinues).mpr hnull
    rw [List.foldl_cons]
    apply ih
    · exact ⟨more ++ appended, by rw [hmerged, String.append_assoc]⟩
    · exact fun later hlater ↦ hpatches later (List.mem_cons_of_mem patch hlater)

/-- One of the deltas carries the text at the path and those behind it keep what has arrived. -/
def Received (path : List String) (text : String) (deltas : List Value) : Prop :=
  ∃ front delta back, deltas = front ++ delta :: back ∧
    delta.locate (path.map .key) = some (.string text) ∧ ∀ later ∈ back, KeepsText path later

/-- What has been received is in the assembled value. -/
theorem Received.assemble {path : List String} {text : String} {deltas : List Value}
    (h : Received path text deltas) : ∃ call before after, assemble deltas = some call ∧
      call.locate (path.map .key) = some (.string (before ++ text ++ after)) := by
  obtain ⟨front, delta, back, rfl, hdelta, hback⟩ := h
  obtain ⟨held, before, hheld, htext⟩ : ∃ held before, Thought.assemble (front ++ [delta]) = some held ∧
      HoldsText path (before ++ text) held := by
    rw [assemble_concat]
    cases Thought.assemble front with
    | none => exact ⟨delta, "", rfl, "", by rw [hdelta]; simp⟩
    | some acc =>
      obtain ⟨before, hmerged⟩ := mergeDelta_receives hdelta acc
      exact ⟨mergeDelta acc delta, before, rfl, "", by rw [hmerged]; simp⟩
  obtain ⟨after, hcall⟩ := htext.foldl_mergeDelta hback
  refine ⟨back.foldl mergeDelta held, before, after, ?_, hcall⟩
  rw [List.append_cons]
  exact foldFirst_append hheld back

/-! ## A run of the accumulator -/

/-- The call of an index absorbs the deltas of that index and no others. -/
theorem ToolCallAccumulator.lookup_absorb {acc : ToolCallAccumulator} {index : UInt64}
    {call : Value} (h : acc.calls.lookup index = some call) (deltas : List Value) :
    (acc.absorb deltas).calls.lookup index =
      some ((deltas.filter fun delta ↦ deltaIndex delta = index).foldl mergeDelta call) :=
  lookup_foldl_upsert deltaIndex mergeDelta h deltas

theorem ToolCallAccumulator.absorb_holdsText {acc : ToolCallAccumulator} {index : UInt64}
    {path : List String} {text : String} {call : Value} (hcall : acc.calls.lookup index = some call)
    (htext : HoldsText path text call) {deltas : List Value}
    (hdeltas : ∀ delta ∈ deltas, deltaIndex delta = index → KeepsText path delta) :
    ∃ later, (acc.absorb deltas).calls.lookup index = some later ∧ HoldsText path text later := by
  refine ⟨_, lookup_absorb hcall deltas, htext.foldl_mergeDelta ?_⟩
  intro delta hdelta
  obtain ⟨hmem, hindex⟩ := List.mem_filter.mp hdelta
  exact hdeltas delta hmem (of_decide_eq_true hindex)

theorem signatureOf_eq_some_of_locate {call : Value} {sig : String}
    (h : call.locate (signaturePath.map .key) = some (.string sig)) :
    signatureOf call = some sig := by
  have hindex : ∀ token ∈ signaturePath, Value.parseIndex token = none := by decide
  unfold signatureOf
  rw [Value.pointer_eq_locate call hindex, h]
  rfl

/-- An id and a signature that both arrived for an index are packed into one id. -/
theorem ToolCallAccumulator.finish_packs_received {deltas : List Value} {index : UInt64}
    {id sig : String}
    (hid : Received ["id"] id (deltas.filter fun delta ↦ deltaIndex delta = index))
    (hsig : Received signaturePath sig (deltas.filter fun delta ↦ deltaIndex delta = index)) :
    ∃ packed ∈ (new.absorb deltas).finish, ∃ idFront idBack sigFront sigBack,
      packed.get? "id" = some (.string
        (packId (idFront ++ id ++ idBack) (some (sigFront ++ sig ++ sigBack)))) ∧
      packed.get? "extra_content" = none := by
  obtain ⟨call, idFront, idBack, hcall, hidText⟩ := hid.assemble
  obtain ⟨other, sigFront, sigBack, hother, hsigText⟩ := hsig.assemble
  obtain rfl : call = other := Option.some.inj (hcall.symm.trans hother)
  obtain ⟨entries, hfinish, -, -, hentries⟩ := finish_absorb_new deltas
  have hmem : (index, call) ∈ entries := (hentries index call).mpr hcall
  have hcallId : call.get? "id" = some (.string (idFront ++ id ++ idBack)) := by
    simpa [Value.child_key] using hidText
  have hcallSig := signatureOf_eq_some_of_locate hsigText
  refine ⟨packToolCall call, ?_, idFront, idBack, sigFront, sigBack, ?_, ?_⟩
  · rw [hfinish]
    exact List.mem_map_of_mem hmem
  · rw [get?_id_packToolCall hcallId, hcallSig]
  · exact get?_extra_content_packToolCall hcallId hcallSig

/-- **Received text stays received unless a null replaces it.** One merge keeps the text exactly
when the delta has no explicit null on the way to it. In every run whose deltas of that index have
none, the text is still there, and an id and a signature received in any order are packed. -/
theorem received_text_is_kept (path : List String) (text : String) :
    (∀ acc patch, acc.locate (path.map .key) = some (.string text) → Continues path patch →
      (HoldsText path text (mergeDelta acc patch) ↔ ¬ HasNull path patch)) ∧
    (∀ (acc : ToolCallAccumulator) (groups : List (List Value)) index call,
      acc.calls.lookup index = some call → HoldsText path text call →
      (∀ delta ∈ groups.flatten, deltaIndex delta = index →
        Continues path delta ∧ ¬ HasNull path delta) →
      ∃ later, (groups.foldl ToolCallAccumulator.absorb acc).calls.lookup index = some later ∧
        HoldsText path text later) ∧
    ∀ (groups : List (List Value)) index id sig,
      Received ["id"] id (groups.flatten.filter fun delta ↦ deltaIndex delta = index) →
      Received signaturePath sig (groups.flatten.filter fun delta ↦ deltaIndex delta = index) →
      ∃ packed ∈ (groups.foldl ToolCallAccumulator.absorb .new).finish,
        ∃ idFront idBack sigFront sigBack,
          packed.get? "id" = some (.string
            (packId (idFront ++ id ++ idBack) (some (sigFront ++ sig ++ sigBack)))) ∧
          packed.get? "extra_content" = none := by
  refine ⟨fun acc patch ↦ mergeDelta_holdsText_iff, ?_, ?_⟩
  · intro acc groups index call hcall htext hdeltas
    rw [ToolCallAccumulator.foldl_absorb]
    exact ToolCallAccumulator.absorb_holdsText hcall htext hdeltas
  · intro groups index id sig hid hsig
    rw [ToolCallAccumulator.foldl_absorb]
    exact ToolCallAccumulator.finish_packs_received hid hsig

theorem keepsText_of_absent {key : String} {rest : List String} {patch : FiniteMap String Value}
    (h : patch.get? key = none) : KeepsText (key :: rest) (.object patch) := by
  have hmember (member : Value) : patch.get? key ≠ some member := by
    rw [h]
    exact (Option.some_ne_none member).symm
  refine ⟨Or.inr ⟨patch, rfl, fun member hget ↦ absurd hget (hmember member)⟩, ?_⟩
  rw [hasNull_object_iff]
  rintro ⟨member, hget, -⟩
  exact hmember member hget

/-- The id arrives first and the signature one chunk later. -/
theorem received_text_is_kept_signature :
    (HoldsText ["id"] "call_a" (mergeDelta (idDelta 0 "call_a") (signatureDelta 0 "SIG")) ↔
      ¬ HasNull ["id"] (signatureDelta 0 "SIG")) ∧
    (∃ later, ([[signatureDelta 0 "SIG"]].foldl ToolCallAccumulator.absorb
        ⟨[(0, idDelta 0 "call_a")]⟩).calls.lookup 0 = some later ∧
      HoldsText ["id"] "call_a" later) ∧
    ∃ packed ∈ ([[idDelta 0 "call_a"], [signatureDelta 0 "SIG"]].foldl
        ToolCallAccumulator.absorb .new).finish,
      ∃ idFront idBack sigFront sigBack,
        packed.get? "id" = some (.string
          (packId (idFront ++ "call_a" ++ idBack) (some (sigFront ++ "SIG" ++ sigBack)))) ∧
        packed.get? "extra_content" = none := by
  have hkeeps : KeepsText ["id"] (signatureDelta 0 "SIG") := keepsText_of_absent rfl
  obtain ⟨hmerge, hrun, hpacked⟩ := received_text_is_kept ["id"] "call_a"
  refine ⟨hmerge _ _ rfl hkeeps.1, hrun _ [[signatureDelta 0 "SIG"]] 0 _ rfl ⟨"", rfl⟩ ?_,
    hpacked _ 0 "call_a" "SIG"
      ⟨[], idDelta 0 "call_a", [signatureDelta 0 "SIG"], rfl, rfl, ?_⟩
      ⟨[idDelta 0 "call_a"], signatureDelta 0 "SIG", [], rfl, rfl, ?_⟩⟩
  · intro delta hdelta _
    obtain rfl := List.mem_singleton.mp hdelta
    exact hkeeps
  · intro later hlater
    obtain rfl := List.mem_singleton.mp hlater
    exact hkeeps
  · exact fun later hlater ↦ absurd hlater List.not_mem_nil

/-- A delta of the first call whose id is an explicit null. -/
def nullIdDelta : Value :=
  .obj [("index", .number (.posInt 0)), ("id", .null)]

/-- An explicit null takes the received id away, and the signature is not packed either. -/
theorem received_text_lost_null :
    (idDelta 0 "call_a").locate [.key "id"] = some (.string "call_a") ∧
      Continues ["id"] nullIdDelta ∧
      ¬ HoldsText ["id"] "call_a" (mergeDelta (idDelta 0 "call_a") nullIdDelta) ∧
      ∀ call ∈ ([[idDelta 0 "call_a"], [signatureDelta 0 "SIG", nullIdDelta]].foldl
          ToolCallAccumulator.absorb .new).finish,
        call.get? "id" = some .null ∧ signatureOf call = some "SIG" := by
  refine ⟨rfl, Or.inr ⟨_, rfl, ?_⟩, ?_, ?_⟩
  · intro member hmember
    exact Or.inl (Option.some.inj hmember).symm
  · rintro ⟨more, hmore⟩
    have hnull : (mergeDelta (idDelta 0 "call_a") nullIdDelta).locate (["id"].map .key) =
        some .null := rfl
    rw [hnull] at hmore
    exact absurd hmore (by simp)
  · intro call hcall
    obtain rfl := List.mem_singleton.mp hcall
    exact ⟨rfl, rfl⟩

end VertexGateway.Thought
