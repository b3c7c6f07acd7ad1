import VertexGateway.Json.Value
import VertexGateway.Thought.PackedId

/-!
# Packing signatures into a response

`packToolCall` folds the signature of one tool call into its id and drops the carrier object;
`packResponse` does so for every tool call of a non-streaming chat completion.
-/

namespace VertexGateway.Thought

/-- Where Vertex attaches a signature to a tool call. -/
def signaturePath : List String := ["extra_content", "google", "thought_signature"]

/-- The carrier of a signature and of nothing else. -/
def signatureCarrier (sig : String) : Value :=
  .obj [("google", .obj [("thought_signature", .string sig)])]

/-- Read the signature out of a tool call object, if Vertex attached one. -/
def signatureOf (toolCall : Value) : Option String :=
  (toolCall.pointer signaturePath).bind Value.asStr

def packToolCall (toolCall : Value) : Value :=
  match signatureOf toolCall with
  | none => toolCall
  | some sig =>
    match toolCall with
    | .object obj =>
      match (obj.get? "id").bind Value.asStr with
      | some id =>
        .object ((obj.insert "id" (.string (packId id (some sig)))).remove "extra_content")
      | none => .object obj
    | other => other

def packChoice (choice : Value) : Value :=
  choice.modifyPointer ["message", "tool_calls"] (Value.onItems packToolCall)

/-- Pack every tool call in a non-streaming chat completion response. -/
def packResponse (body : Value) : Value :=
  body.modifyKey "choices" (Value.onItems packChoice)

/-- The tool call at `choices[choice].message.tool_calls[call]`. -/
def responseCall (body : Value) (choice call : ℕ) : Option Value :=
  ((body.get? "choices").bind Value.asArray).bind fun choices ↦
    (choices[choice]?).bind fun chosen ↦
      ((chosen.pointer ["message", "tool_calls"]).bind Value.asArray).bind (·[call]?)

/-! ## One call -/

/-- An id without the smuggled part for an unsigned call, with it for a signed one. -/
theorem packToolCall_object {obj : FiniteMap String Value} {id : String}
    (hid : obj.get? "id" = some (.string id)) :
    packToolCall (.object obj) =
      match signatureOf (.object obj) with
      | none => .object obj
      | some sig =>
        .object ((obj.insert "id" (.string (packId id (some sig)))).remove "extra_content") := by
  cases hsig : signatureOf (.object obj) <;> simp [packToolCall, hsig, hid, Value.asStr]

/-- The id a client sees is the packed one, whether or not the call was signed. -/
theorem get?_id_packToolCall {call : Value} {id : String}
    (hid : call.get? "id" = some (.string id)) :
    (packToolCall call).get? "id" = some (.string (packId id (signatureOf call))) := by
  obtain ⟨obj, rfl, -⟩ := Value.exists_object_of_get? hid
  rw [packToolCall_object hid]
  cases hsig : signatureOf (.object obj) with
  | none => exact hid
  | some sig =>
    have hne : "id" ≠ "extra_content" := by decide
    simp [FiniteMap.get?_remove_of_ne _ hne]

/-- The carrier is gone once the signature travels in the id. -/
theorem get?_extra_content_packToolCall {call : Value} {id sig : String}
    (hid : call.get? "id" = some (.string id)) (hsig : signatureOf call = some sig) :
    (packToolCall call).get? "extra_content" = none := by
  obtain ⟨obj, rfl, -⟩ := Value.exists_object_of_get? hid
  rw [packToolCall_object hid, hsig]
  exact FiniteMap.get?_remove_self _ _

theorem signatureOf_insert_of_ne (obj : FiniteMap String Value) {key : String}
    (hkey : "extra_content" ≠ key) (value : Value) :
    signatureOf (.object (obj.insert key value)) = signatureOf (.object obj) := by
  simp only [signatureOf, signaturePath, Value.pointer_cons, Value.step_object,
    FiniteMap.get?_insert_of_ne obj hkey]

/-- Packing neither reads nor writes members other than the id and the carrier. -/
theorem packToolCall_insert (obj : FiniteMap String Value) {key : String} (hid : "id" ≠ key)
    (hextra : "extra_content" ≠ key) (value : Value) :
    packToolCall (.object (obj.insert key value)) =
      (packToolCall (.object obj)).onObject (·.insert key value) := by
  simp only [packToolCall, signatureOf_insert_of_ne obj hextra,
    FiniteMap.get?_insert_of_ne obj hid]
  cases signatureOf (.object obj) with
  | none => rfl
  | some sig =>
    cases (obj.get? "id").bind Value.asStr with
    | none => rfl
    | some id =>
      simp only [Value.onObject]
      rw [FiniteMap.insert_comm _ (Ne.symm hid), FiniteMap.remove_insert_of_ne _ (Ne.symm hextra)]

/-! ## The whole response -/

theorem get?_choices_packResponse (body : Value) :
    ((packResponse body).get? "choices").bind Value.asArray =
      ((body.get? "choices").bind Value.asArray).map (List.map packChoice) := by
  unfold packResponse
  rw [Value.get?_modifyKey_self]
  cases body.get? "choices" with
  | none => rfl
  | some choices => exact Value.asArray_onItems choices packChoice

theorem calls_packChoice (choice : Value) :
    ((packChoice choice).pointer ["message", "tool_calls"]).bind Value.asArray =
      ((choice.pointer ["message", "tool_calls"]).bind Value.asArray).map
        (List.map packToolCall) := by
  unfold packChoice
  rw [Value.pointer_modifyPointer_self]
  cases choice.pointer ["message", "tool_calls"] with
  | none => rfl
  | some calls => exact Value.asArray_onItems calls packToolCall

theorem pointer_firstChoice {body : Value} {choices : List Value}
    (hchoices : body.get? "choices" = some (.array choices)) (path : List String) :
    body.pointer ("choices" :: "0" :: path) = (choices[0]?).bind (·.pointer path) := by
  have hindex : Value.parseIndex "choices" = none ∧ Value.parseIndex "0" = some 0 := by decide
  rw [Value.pointer_cons, Value.step_eq_get? _ hindex.1, hchoices, Option.bind_some,
    Value.pointer_cons]
  simp only [Value.step, hindex.2, Option.bind_some]

/-- The first choice's calls, as a client that asks for one choice reads them. -/
theorem pointer_packResponse {body : Value} {choices : List Value}
    (hchoices : body.get? "choices" = some (.array choices)) :
    (packResponse body).pointer ["choices", "0", "message", "tool_calls"] =
      (body.pointer ["choices", "0", "message", "tool_calls"]).map (Value.onItems packToolCall) := by
  have hpacked : (packResponse body).get? "choices" = some (.array (choices.map packChoice)) := by
    unfold packResponse
    rw [Value.get?_modifyKey_self, hchoices]
    rfl
  rw [pointer_firstChoice hpacked, pointer_firstChoice hchoices, List.getElem?_map]
  cases choices[0]? with
  | none => rfl
  | some choice => exact Value.pointer_modifyPointer_self choice ["message", "tool_calls"] _

/-- Every call of the packed response is the packed call of the response. -/
theorem responseCall_packResponse (body : Value) (choice call : ℕ) :
    responseCall (packResponse body) choice call =
      (responseCall body choice call).map packToolCall := by
  simp only [responseCall, get?_choices_packResponse]
  cases (body.get? "choices").bind Value.asArray with
  | none => rfl
  | some choices =>
    simp only [Option.map_some, Option.bind_some, List.getElem?_map]
    cases choices[choice]? with
    | none => rfl
    | some chosen =>
      simp only [Option.map_some, Option.bind_some, calls_packChoice]
      cases (chosen.pointer ["message", "tool_calls"]).bind Value.asArray with
      | none => rfl
      | some calls => simp

end VertexGateway.Thought
