import VertexGateway.Json.Position
import VertexGateway.Thought.PackResponse

/-!
# What packing a response leaves alone

Packing writes to signed calls with a string id and nowhere else: it replaces the id and drops the
whole carrier, so of such a call everything outside these two members stays, and everything else in
the body stays whatever its shape. Packing a packed response finds no carrier and changes nothing.
-/

namespace VertexGateway.Thought

open Value

/-- The members that packing a call writes to: those of a signed call with a string id. -/
def CallPacked (call : Value) (path : List Segment) : Prop :=
  ∃ id sig, call.get? "id" = some (.string id) ∧ signatureOf call = some sig ∧
    (path = [.key "id"] ∨ path = [.key "extra_content"])

/-- Where `choices[choice].message.tool_calls[call]` lies. -/
def responseCallPosition (choice call : ℕ) : List Segment :=
  [.key "choices", .item choice, .key "message", .key "tool_calls", .item call]

/-- The members of a response that packing it writes to. -/
def ResponsePacked (body : Value) (path : List Segment) : Prop :=
  ∃ choice index call below, responseCall body choice index = some call ∧
    CallPacked call below ∧ path = responseCallPosition choice index ++ below

theorem responseCall_eq_locate (body : Value) (choice index : ℕ) :
    responseCall body choice index = body.locate (responseCallPosition choice index) := by
  have hindex : parseIndex "message" = none ∧ parseIndex "tool_calls" = none := by decide
  simp only [responseCall, responseCallPosition, locate_cons, locate_nil, child_key, child_item,
    pointer_cons, pointer_nil, step_eq_get? _ hindex.1, step_eq_get? _ hindex.2, Option.bind_assoc,
    Option.bind_fun_some]

theorem packToolCall_of_unsigned {call : Value} (h : signatureOf call = none) :
    packToolCall call = call := by
  unfold packToolCall
  rw [h]

/-- Packing a call writes to its id and its carrier. -/
theorem packToolCall_frame (call : Value) : SameExcept (CallPacked call) call (packToolCall call) := by
  cases hsig : signatureOf call with
  | none =>
    rw [packToolCall_of_unsigned hsig]
    exact SameExcept.refl call
  | some sig =>
    cases call with
    | object obj =>
      cases hid : (obj.get? "id").bind Value.asStr with
      | none =>
        have hsame : packToolCall (.object obj) = .object obj := by simp [packToolCall, hsig, hid]
        rw [hsame]
        exact SameExcept.refl _
      | some id =>
        obtain ⟨found, hfound, hstr⟩ := Option.bind_eq_some_iff.mp hid
        obtain rfl := (asStr_eq_some_iff found id).mp hstr
        have hwritten : CallPacked (.object obj) [.key "id"] :=
          ⟨id, sig, hfound, hsig, Or.inl rfl⟩
        have hdropped : CallPacked (.object obj) [.key "extra_content"] :=
          ⟨id, sig, hfound, hsig, Or.inr rfl⟩
        rw [packToolCall_object hfound, hsig]
        exact (SameExcept.insert _ (Or.inl hwritten)).trans (SameExcept.remove hdropped)
    | _ => exact SameExcept.refl _

/-- Packing a response writes to the ids and carriers of its signed calls. -/
theorem packResponse_sameExcept (body : Value) :
    SameExcept (ResponsePacked body) body (packResponse body) := by
  have hindex : parseIndex "message" = none ∧ parseIndex "tool_calls" = none := by decide
  unfold packResponse
  apply SameExcept.modifyKey
  intro choices hchoices
  apply SameExcept.onItems
  intro choice chosen hchosen
  simp only [packChoice, modifyPointer, modifyStep_eq_modifyKey _ hindex.1]
  apply SameExcept.modifyKey
  intro message hmessage
  rw [modifyStep_eq_modifyKey _ hindex.2]
  apply SameExcept.modifyKey
  intro calls hcalls
  apply SameExcept.onItems
  intro index call hcall
  apply (packToolCall_frame call).mono
  intro below hbelow
  have hfound : responseCall body choice index = some call := by
    simp only [responseCall_eq_locate, responseCallPosition, locate_cons, locate_nil, hchoices,
      hchosen, hmessage, hcalls, hcall, Option.bind_some]
  exact ⟨choice, index, call, below, hfound, hbelow, rfl⟩

theorem packToolCall_of_no_id {call : Value} (h : ∀ id, call.get? "id" ≠ some (.string id)) :
    packToolCall call = call := by
  refine ((packToolCall_frame call).eq_of_forall_not ?_).symm
  rintro _ ⟨id, sig, hid, -, -⟩
  exact h id hid

theorem signatureOf_of_absent {call : Value} (h : call.get? "extra_content" = none) :
    signatureOf call = none := by
  have hindex : parseIndex "extra_content" = none := by decide
  unfold signatureOf signaturePath
  rw [pointer_cons, step_eq_get? _ hindex, h]
  rfl

/-- A packed call has nothing left to pack: the carrier is gone, or there was no id to write. -/
theorem not_callPacked_packToolCall (call : Value) (path : List Segment) :
    ¬ CallPacked (packToolCall call) path := by
  rintro ⟨id, sig, hid, hsig, -⟩
  by_cases hstring : ∃ source, call.get? "id" = some (.string source)
  · obtain ⟨source, hsource⟩ := hstring
    cases hsourceSig : signatureOf call with
    | none =>
      rw [packToolCall_of_unsigned hsourceSig, hsourceSig] at hsig
      exact absurd hsig.symm (Option.some_ne_none sig)
    | some sourceSig =>
      have habsent := get?_extra_content_packToolCall hsource hsourceSig
      rw [signatureOf_of_absent habsent] at hsig
      exact absurd hsig.symm (Option.some_ne_none sig)
  · have hnone := not_exists.mp hstring
    rw [packToolCall_of_no_id hnone] at hid
    exact hnone id hid

theorem packResponse_packResponse (body : Value) :
    packResponse (packResponse body) = packResponse body := by
  refine ((packResponse_sameExcept (packResponse body)).eq_of_forall_not ?_).symm
  rintro _ ⟨choice, index, call, below, hcall, hpacked, -⟩
  rw [responseCall_packResponse, Option.map_eq_some_iff] at hcall
  obtain ⟨source, -, rfl⟩ := hcall
  exact not_callPacked_packToolCall source below hpacked

/-- **Packing a response touches signed calls only.** Everything stays except the id and the
carrier of the calls that have a string id and a signature: there the id is the packed one and the
carrier is gone, with whatever else it held. A second packing changes nothing. -/
theorem packResponse_frame (body : Value) :
    SameExcept (ResponsePacked body) body (packResponse body) ∧
      (∀ choice index call id sig, responseCall body choice index = some call →
        call.get? "id" = some (.string id) → signatureOf call = some sig →
        ∃ packed, responseCall (packResponse body) choice index = some packed ∧
          packed.get? "id" = some (.string (packId id (some sig))) ∧
          packed.get? "extra_content" = none) ∧
      packResponse (packResponse body) = packResponse body := by
  refine ⟨packResponse_sameExcept body, ?_, packResponse_packResponse body⟩
  intro choice index call id sig hcall hid hsig
  refine ⟨packToolCall call, ?_, ?_, get?_extra_content_packToolCall hid hsig⟩
  · rw [responseCall_packResponse, hcall, Option.map_some]
  · rw [get?_id_packToolCall hid, hsig]

/-- A signed call whose carrier holds something else as well. -/
def signedCallWithSibling : Value :=
  .obj [("id", .string "call_a"), ("extra_content", .obj [("google",
    .obj [("thought_signature", .string "SIG"), ("something_else", .bool true)])])]

def responseWithCall (call : Value) : Value :=
  .obj [("choices", .array [.obj [("message", .obj [("tool_calls", .array [call])])]])]

theorem packResponse_frame_sibling :
    ∃ packed, responseCall (packResponse (responseWithCall signedCallWithSibling)) 0 0 =
        some packed ∧
      packed.get? "id" = some (.string (packId "call_a" (some "SIG"))) ∧
      packed.get? "extra_content" = none :=
  (packResponse_frame (responseWithCall signedCallWithSibling)).2.1 0 0 signedCallWithSibling
    "call_a" "SIG" rfl rfl rfl

/-- The other members of the carrier go with the signature. -/
theorem packResponse_drops_sibling :
    responseCall (responseWithCall signedCallWithSibling) 0 0 = some signedCallWithSibling ∧
      signedCallWithSibling.pointer ["extra_content", "google", "something_else"] =
        some (.bool true) ∧
      (responseCall (packResponse (responseWithCall signedCallWithSibling)) 0 0).map
        (·.pointer ["extra_content", "google", "something_else"]) = some none := by
  refine ⟨rfl, rfl, ?_⟩
  rw [responseCall_packResponse]
  rfl

end VertexGateway.Thought
