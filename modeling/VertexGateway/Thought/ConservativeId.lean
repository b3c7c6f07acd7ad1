import VertexGateway.Thought.PackFrame
import VertexGateway.Thought.ToolCallAccumulator

/-!
# Packed ids stay in a conservative charset

Clients, proxies and databases validate ids. Whatever a signature contains, escaping it leaves
letters, digits, underscores and dashes, and so does the separator, so packing keeps every id
conservative that was conservative before, in a response and at the end of a stream alike.
-/

namespace VertexGateway.Thought

/-- The characters of `[A-Za-z0-9_-]`. -/
def isIdChar (c : Char) : Bool :=
  c.isAlphanum || c == '_' || c == '-'

/-- A nonempty id of such characters. -/
def Conservative (id : String) : Prop :=
  id ≠ "" ∧ id.toList.all isIdChar = true

instance decidableConservative (id : String) : Decidable (Conservative id) :=
  inferInstanceAs (Decidable (id ≠ "" ∧ id.toList.all isIdChar = true))

theorem all_isIdChar_escapeByte (byte : UInt8) : (escapeByte byte).all isIdChar = true :=
  @forall_byte (fun byte ↦ (escapeByte byte).all isIdChar = true) (by decide +kernel) byte

/-- Escaping takes every byte of every signature into the charset. -/
theorem all_isIdChar_escapeSignature (sig : String) :
    (escapeSignature sig).toList.all isIdChar = true := by
  unfold escapeSignature
  rw [String.toList_ofList, List.all_flatMap, List.all_eq_true]
  exact fun byte _ ↦ all_isIdChar_escapeByte byte

theorem Conservative.append {id more : String} (h : Conservative id)
    (hmore : more.toList.all isIdChar = true) : Conservative (id ++ more) := by
  refine ⟨fun hempty ↦ h.1 (String.append_eq_empty_iff.mp hempty).1, ?_⟩
  rw [String.toList_append, List.all_append, h.2, hmore]
  rfl

theorem conservative_packId {id : String} (h : Conservative id) (signature : Option String) :
    Conservative (packId id signature) := by
  have hmarker : marker.toList.all isIdChar = true := by decide
  cases signature with
  | none => exact h
  | some sig => exact (h.append hmarker).append (all_isIdChar_escapeSignature sig)

/-- If the call has a string id, it is conservative. -/
def HasConservativeId (call : Value) : Prop :=
  ∀ id, call.get? "id" = some (.string id) → Conservative id

theorem HasConservativeId.packToolCall {call : Value} (h : HasConservativeId call) :
    HasConservativeId (packToolCall call) := by
  intro packed hpacked
  by_cases hstring : ∃ id, call.get? "id" = some (.string id)
  · obtain ⟨id, hid⟩ := hstring
    rw [get?_id_packToolCall hid] at hpacked
    obtain rfl : packId id (signatureOf call) = packed := by simpa using hpacked
    exact conservative_packId (h id hid) (signatureOf call)
  · rw [packToolCall_of_no_id (not_exists.mp hstring)] at hpacked
    exact h packed hpacked

/-- **Packed ids stay conservative.** Where the ids of a response's calls are conservative, so are
those of the packed response; where the assembled ids of a stream are, so are those it ends in. -/
theorem packed_ids_conservative :
    (∀ body, (∀ choice index call, responseCall body choice index = some call →
        HasConservativeId call) →
      ∀ choice index call, responseCall (packResponse body) choice index = some call →
        HasConservativeId call) ∧
    ∀ groups : List (List Value),
      (∀ index call, assemble (groups.flatten.filter fun delta ↦ deltaIndex delta = index) =
        some call → HasConservativeId call) →
      ∀ call ∈ (groups.foldl ToolCallAccumulator.absorb .new).finish, HasConservativeId call := by
  constructor
  · intro body hbody choice index call hcall
    rw [responseCall_packResponse, Option.map_eq_some_iff] at hcall
    obtain ⟨source, hsource, rfl⟩ := hcall
    exact (hbody choice index source hsource).packToolCall
  · intro groups hgroups call hcall
    obtain ⟨entries, hfinish, -, -, hentries⟩ :=
      ToolCallAccumulator.finish_absorb_new groups.flatten
    rw [ToolCallAccumulator.foldl_absorb, hfinish] at hcall
    obtain ⟨⟨index, source⟩, hentry, rfl⟩ := List.mem_map.mp hcall
    exact (hgroups index source ((hentries index source).mp hentry)).packToolCall

theorem hasConservativeId_of_get? {call : Value} {id : String}
    (hid : call.get? "id" = some (.string id)) (h : Conservative id) : HasConservativeId call := by
  intro found hfound
  rw [hid] at hfound
  obtain rfl : id = found := by simpa using hfound
  exact h

theorem packed_ids_conservative_sibling :
    (∀ choice index call,
      responseCall (packResponse (responseWithCall signedCallWithSibling)) choice index =
        some call → HasConservativeId call) ∧
    ∀ call ∈ ([[idDelta 0 "call"], [idDelta 0 "_a"]].foldl
      ToolCallAccumulator.absorb .new).finish, HasConservativeId call := by
  constructor
  · apply packed_ids_conservative.1
    intro choice index call hcall
    match choice, index with
    | 0, 0 =>
      obtain rfl := Option.some.inj hcall
      exact hasConservativeId_of_get? rfl (by decide : Conservative "call_a")
    | 0, _ + 1 => exact absurd hcall.symm (Option.some_ne_none call)
    | _ + 1, _ => exact absurd hcall.symm (Option.some_ne_none call)
  · apply packed_ids_conservative.2
    intro index call hcall
    have hzero : deltaIndex (idDelta 0 "call") = 0 ∧ deltaIndex (idDelta 0 "_a") = 0 := ⟨rfl, rfl⟩
    by_cases hindex : 0 = index
    · subst hindex
      obtain rfl := Option.some.inj hcall
      exact hasConservativeId_of_get? rfl (by decide : Conservative "call_a")
    · have hnone : assemble (([[idDelta 0 "call"], [idDelta 0 "_a"]].flatten).filter
          fun delta ↦ deltaIndex delta = index) = none := by
        simp [hzero, hindex, assemble]
      rw [hnone] at hcall
      exact absurd hcall.symm (Option.some_ne_none call)

end VertexGateway.Thought
