import VertexGateway.Thought.PackResponse

/-!
# Restoring signatures on the way back to Vertex

`restoreRequest` undoes the packing in the two places that carry a packed id: the calls of an
assistant message and the `tool_call_id` of a tool result. A decoded signature goes back under
`extra_content.google`, which is created where it is absent.
-/

namespace VertexGateway.Thought

/-- Put the signature under `extra_content.google`, through the entries the client may have left
there. An entry that is no object is left as it is, and the signature is not written. -/
def restoreSignature (obj : FiniteMap String Value) (sig : String) : FiniteMap String Value :=
  obj.updateEntry "extra_content" (.obj []) (Value.onObject fun extraContent ↦
    extraContent.updateEntry "google" (.obj []) (Value.onObject fun google ↦
      google.insert "thought_signature" (.string sig)))

def restoreToolCall (call : Value) : Value :=
  match (call.get? "id").bind Value.asStr with
  | none => call
  | some packed =>
    let (id, signature) := unpackId packed
    match call with
    | .object obj =>
      let obj := obj.insert "id" (.string id)
      match signature with
      | none => .object obj
      | some sig => .object (restoreSignature obj sig)
    | other => other

/-- Tool result: `tool_call_id` echoes the packed id. -/
def restoreToolCallId (message : Value) : Value :=
  match (message.get? "tool_call_id").bind Value.asStr with
  | none => message
  | some packed => message.onObject (·.insert "tool_call_id" (.string (unpackId packed).1))

def restoreMessage (message : Value) : Value :=
  (restoreToolCallId message).modifyKey "tool_calls" (Value.onItems restoreToolCall)

/-- Undo the packing on the way back to Vertex. -/
def restoreRequest (body : Value) : Value :=
  body.modifyKey "messages" (Value.onItems restoreMessage)

/-- The message at `messages[message]`. -/
def requestMessage (body : Value) (message : ℕ) : Option Value :=
  ((body.get? "messages").bind Value.asArray).bind (·[message]?)

/-- The tool call at `messages[message].tool_calls[call]`. -/
def requestCall (body : Value) (message call : ℕ) : Option Value :=
  (requestMessage body message).bind fun found ↦
    ((found.get? "tool_calls").bind Value.asArray).bind (·[call]?)

/-! ## Messages are restored one by one -/

theorem get?_restoreToolCallId_of_ne (message : Value) {key : String} (h : key ≠ "tool_call_id") :
    (restoreToolCallId message).get? key = message.get? key := by
  cases message with
  | object map =>
    cases hpacked : (map.get? "tool_call_id").bind Value.asStr <;>
      simp [restoreToolCallId, hpacked, Value.onObject, FiniteMap.get?_insert_of_ne _ h]
  | _ => rfl

theorem get?_tool_call_id_restoreMessage {message : Value} {packed : String}
    (h : message.get? "tool_call_id" = some (.string packed)) :
    (restoreMessage message).get? "tool_call_id" = some (.string (unpackId packed).1) := by
  have hne : "tool_call_id" ≠ "tool_calls" := by decide
  unfold restoreMessage
  rw [Value.get?_modifyKey_of_ne _ hne]
  obtain ⟨map, rfl, -⟩ := Value.exists_object_of_get? h
  have hpacked : (map.get? "tool_call_id").bind Value.asStr = some packed := by
    rw [Value.get?_object] at h
    rw [h]
    rfl
  simp [restoreToolCallId, hpacked, Value.onObject]

theorem requestMessage_restoreRequest (body : Value) (message : ℕ) :
    requestMessage (restoreRequest body) message =
      (requestMessage body message).map restoreMessage := by
  unfold requestMessage restoreRequest
  rw [Value.get?_modifyKey_self]
  cases body.get? "messages" with
  | none => rfl
  | some messages =>
    simp only [Option.map_some, Option.bind_some, Value.asArray_onItems]
    cases messages.asArray <;> simp

theorem requestCall_restoreRequest (body : Value) (message call : ℕ) :
    requestCall (restoreRequest body) message call =
      (requestCall body message call).map restoreToolCall := by
  have hne : "tool_calls" ≠ "tool_call_id" := by decide
  unfold requestCall
  rw [requestMessage_restoreRequest]
  cases requestMessage body message with
  | none => rfl
  | some found =>
    simp only [Option.map_some, Option.bind_some, restoreMessage, Value.get?_modifyKey_self,
      get?_restoreToolCallId_of_ne found hne]
    cases found.get? "tool_calls" with
    | none => rfl
    | some calls =>
      simp only [Option.map_some, Option.bind_some, Value.asArray_onItems]
      cases calls.asArray <;> simp

/-! ## One call -/

theorem restoreToolCall_object {obj : FiniteMap String Value} {packed : String}
    (hid : obj.get? "id" = some (.string packed)) :
    restoreToolCall (.object obj) =
      match (unpackId packed).2 with
      | none => .object (obj.insert "id" (.string (unpackId packed).1))
      | some sig => .object (restoreSignature (obj.insert "id" (.string (unpackId packed).1)) sig) := by
  simp only [restoreToolCall, Value.get?_object, hid, Option.bind_some, Value.asStr]

theorem get?_restoreSignature_of_ne (obj : FiniteMap String Value) (sig : String) {key : String}
    (h : key ≠ "extra_content") : (restoreSignature obj sig).get? key = obj.get? key :=
  FiniteMap.get?_updateEntry_of_ne obj h _ _

/-- The id is restored whether or not a signature could be decoded or written. -/
theorem get?_id_restoreToolCall {call : Value} {packed : String}
    (hid : call.get? "id" = some (.string packed)) :
    (restoreToolCall call).get? "id" = some (.string (unpackId packed).1) := by
  have hne : "id" ≠ "extra_content" := by decide
  obtain ⟨obj, rfl, -⟩ := Value.exists_object_of_get? hid
  rw [restoreToolCall_object hid]
  cases (unpackId packed).2 with
  | none => simp
  | some sig => simp [get?_restoreSignature_of_ne _ sig hne]

/-- Without a decoded signature the carrier keeps whatever the client sent. -/
theorem get?_extra_content_restoreToolCall {call : Value} {packed : String}
    (hid : call.get? "id" = some (.string packed)) (hsig : (unpackId packed).2 = none) :
    (restoreToolCall call).get? "extra_content" = call.get? "extra_content" := by
  have hne : "extra_content" ≠ "id" := by decide
  obtain ⟨obj, rfl, -⟩ := Value.exists_object_of_get? hid
  simp [restoreToolCall_object hid, hsig, FiniteMap.get?_insert_of_ne _ hne]

/-- The client left room for a signature: neither the carrier nor `google` in it is present as
anything but an object. -/
def AcceptsSignature (call : Value) : Prop :=
  ∀ extra, call.get? "extra_content" = some extra →
    ∃ extraContent, extra = .object extraContent ∧
      ∀ google, extraContent.get? "google" = some google → ∃ members, google = .object members

theorem acceptsSignature_of_absent {call : Value} (h : call.get? "extra_content" = none) :
    AcceptsSignature call := by
  intro extra hextra
  rw [h] at hextra
  exact absurd hextra.symm (Option.some_ne_none extra)

theorem pointer_restoreSignature (obj : FiniteMap String Value) (sig : String) :
    (Value.object (restoreSignature obj sig)).pointer signaturePath = some (.string sig) ↔
      AcceptsSignature (.object obj) := by
  have hindex : Value.parseIndex "google" = none ∧ Value.parseIndex "thought_signature" = none := by
    decide
  simp only [signaturePath, Value.pointer_cons, Value.step_object, Value.pointer_nil,
    restoreSignature, FiniteMap.get?_updateEntry_self, Option.bind_some, AcceptsSignature,
    Value.get?_object]
  cases obj.get? "extra_content" with
  | none => simp [Value.obj, Value.onObject, FiniteMap.ofList]
  | some extra =>
    cases extra with
    | object extraContent =>
      cases hgoogle : extraContent.get? "google" with
      | none => simp [Value.obj, Value.onObject, FiniteMap.ofList, hgoogle]
      | some google =>
        cases google <;>
          simp [Value.onObject, hgoogle, Value.step_eq_get? _ hindex.2, Value.get?]
    | _ => simp [Value.onObject, Value.step_eq_get? _ hindex.1, Value.get?]

theorem acceptsSignature_insert_id (obj : FiniteMap String Value) (id : String) :
    AcceptsSignature (.object (obj.insert "id" (.string id))) ↔ AcceptsSignature (.object obj) := by
  have hne : "extra_content" ≠ "id" := by decide
  simp only [AcceptsSignature, Value.get?_object, FiniteMap.get?_insert_of_ne obj hne]

/-- A decoded signature reaches its place exactly when the client left room for it. -/
theorem pointer_restoreToolCall_iff {call : Value} {packed sig : String}
    (hid : call.get? "id" = some (.string packed)) (hsig : (unpackId packed).2 = some sig) :
    (restoreToolCall call).pointer signaturePath = some (.string sig) ↔ AcceptsSignature call := by
  obtain ⟨obj, rfl, -⟩ := Value.exists_object_of_get? hid
  rw [restoreToolCall_object hid, hsig]
  simp only [pointer_restoreSignature, acceptsSignature_insert_id]

/-- A call whose id decodes to an id and a signature is restored to both exactly when its
`extra_content`, and `google` in it, are absent or objects. -/
theorem restoreRequest_restores_signature_iff (body : Value) (message index : ℕ) (call : Value)
    (packed id sig : String) (hcall : requestCall body message index = some call)
    (hid : call.get? "id" = some (.string packed)) (hunpack : unpackId packed = (id, some sig)) :
    (∃ restored, requestCall (restoreRequest body) message index = some restored ∧
      restored.get? "id" = some (.string id) ∧
      restored.pointer ["extra_content", "google", "thought_signature"] = some (.string sig)) ↔
      AcceptsSignature call := by
  have hsig : (unpackId packed).2 = some sig := by rw [hunpack]
  have hrestored : (restoreToolCall call).get? "id" = some (.string id) := by
    rw [get?_id_restoreToolCall hid, hunpack]
  rw [requestCall_restoreRequest, hcall, ← pointer_restoreToolCall_iff hid hsig]
  constructor
  · rintro ⟨restored, hfound, -, hpointer⟩
    rwa [Option.some.inj hfound]
  · exact fun hpointer ↦ ⟨_, rfl, hrestored, hpointer⟩

/-- A request with one assistant message holding one call. -/
def requestWithCall (call : Value) : Value :=
  .obj [("messages", .array [.obj [("role", .string "assistant"), ("tool_calls", .array [call])]])]

/-- The client kept another member of `google`. -/
def callWithSibling : Value :=
  .obj [("id", .string "call_a__thought__SIG"),
    ("extra_content", .obj [("google", .obj [("something_else", .bool true)])])]

theorem restoreRequest_restores_signature_iff_sibling :
    (∃ restored, requestCall (restoreRequest (requestWithCall callWithSibling)) 0 0 = some restored ∧
      restored.get? "id" = some (.string "call_a") ∧
      restored.pointer ["extra_content", "google", "thought_signature"] = some (.string "SIG")) ↔
      AcceptsSignature callWithSibling :=
  restoreRequest_restores_signature_iff (requestWithCall callWithSibling) 0 0 callWithSibling
    "call_a__thought__SIG" "call_a" "SIG" rfl rfl (by decide +kernel)

/-- The client sent the carrier as an explicit null. -/
def callWithNull : Value :=
  .obj [("id", .string "call_a__thought__SIG"), ("extra_content", .null)]

/-- On an explicit null the id is stripped and the signature it carried is gone. -/
theorem restoreRequest_drops_signature_null :
    requestCall (requestWithCall callWithNull) 0 0 = some callWithNull ∧
      unpackId "call_a__thought__SIG" = ("call_a", some "SIG") ∧
      ¬ ∃ restored, requestCall (restoreRequest (requestWithCall callWithNull)) 0 0 = some restored ∧
        restored.get? "id" = some (.string "call_a") ∧
        restored.pointer ["extra_content", "google", "thought_signature"] =
          some (.string "SIG") := by
  refine ⟨rfl, by decide +kernel, ?_⟩
  rintro ⟨restored, hfound, -, hpointer⟩
  have hnone : ((requestCall (restoreRequest (requestWithCall callWithNull)) 0 0).bind
      (·.pointer ["extra_content", "google", "thought_signature"])).isNone = true := by
    decide +kernel
  rw [hfound, Option.bind_some, hpointer] at hnone
  exact Bool.false_ne_true hnone

end VertexGateway.Thought
