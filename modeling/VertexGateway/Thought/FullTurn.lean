import VertexGateway.Thought.RestoreRequest

/-!
# A full turn of a tool-calling conversation

Vertex answers with signed calls, the gateway packs the response, a client that knows nothing of
signatures builds its next request from the packed calls, and the gateway restores that request.
The client is free in everything except that it echoes ids verbatim and drops `extra_content`.
-/

namespace VertexGateway.Thought

/-- What a standard client keeps of a call it copies into the history: the id as it received it,
and no `extra_content`. Its other members are unconstrained. -/
def CopiedFrom (copied received : Value) : Prop :=
  copied.get? "id" = received.get? "id" ∧ copied.get? "extra_content" = none

/-- A call whose id can be told apart from the separator appended to it. -/
def HasPackableId (call : Value) : Prop :=
  ∃ id, call.get? "id" = some (.string id) ∧ MarkerFirst id

/-- A copied call is restored to the id and the signature that Vertex issued. -/
theorem restoreToolCall_copied {call copied : Value} (hcall : HasPackableId call)
    (hcopied : CopiedFrom copied (packToolCall call)) :
    (restoreToolCall copied).get? "id" = call.get? "id" ∧
      (restoreToolCall copied).pointer signaturePath = (signatureOf call).map .string := by
  obtain ⟨id, hid, hfirst⟩ := hcall
  obtain ⟨hcopiedId, habsent⟩ := hcopied
  rw [get?_id_packToolCall hid] at hcopiedId
  have hunpack := unpackId_packId hfirst (signatureOf call)
  constructor
  · calc
      (restoreToolCall copied).get? "id" =
          some (.string (unpackId (packId id (signatureOf call))).1) :=
        get?_id_restoreToolCall hcopiedId
      _ = some (.string id) := by rw [hunpack]
      _ = call.get? "id" := hid.symm
  · cases hsig : signatureOf call with
    | some sig =>
      rw [hsig] at hcopiedId hunpack
      have hdecoded : (unpackId (packId id (some sig))).2 = some sig := by rw [hunpack]
      apply (pointer_restoreToolCall_iff hcopiedId hdecoded).mpr
      exact acceptsSignature_of_absent habsent
    | none =>
      rw [hsig] at hcopiedId hunpack
      have hdecoded : (unpackId (packId id none)).2 = none := by rw [hunpack]
      have hindex : Value.parseIndex "extra_content" = none := by decide
      unfold signaturePath
      rw [Value.pointer_cons, Value.step_eq_get? _ hindex,
        get?_extra_content_restoreToolCall hcopiedId hdecoded, habsent]
      rfl

/-- **Full turn.** However the client mixes the calls of a packed response into its next request,
restoring gives every copied call its own id and signature back and every answered id the id of
the call it answers. -/
theorem restoreRequest_packResponse (response request : Value)
    (hresponse : ∀ choice index call, responseCall response choice index = some call →
      HasPackableId call) :
    (∀ choice index call received message position copied,
      responseCall response choice index = some call →
      responseCall (packResponse response) choice index = some received →
      requestCall request message position = some copied → CopiedFrom copied received →
      ∃ restored, requestCall (restoreRequest request) message position = some restored ∧
        restored.get? "id" = call.get? "id" ∧
        restored.pointer ["extra_content", "google", "thought_signature"] =
          (signatureOf call).map .string) ∧
    (∀ choice index call received message answer,
      responseCall response choice index = some call →
      responseCall (packResponse response) choice index = some received →
      requestMessage request message = some answer →
      answer.get? "tool_call_id" = received.get? "id" →
      ∃ restored, requestMessage (restoreRequest request) message = some restored ∧
        restored.get? "tool_call_id" = call.get? "id") := by
  constructor
  · intro choice index call received message position copied hcall hreceived hrequest hcopied
    rw [responseCall_packResponse, hcall, Option.map_some] at hreceived
    obtain rfl := Option.some.inj hreceived
    rw [requestCall_restoreRequest, hrequest]
    exact ⟨_, rfl, restoreToolCall_copied (hresponse choice index call hcall) hcopied⟩
  · intro choice index call received message answer hcall hreceived hrequest hanswer
    rw [responseCall_packResponse, hcall, Option.map_some] at hreceived
    obtain rfl := Option.some.inj hreceived
    obtain ⟨id, hid, hfirst⟩ := hresponse choice index call hcall
    rw [get?_id_packToolCall hid] at hanswer
    rw [requestMessage_restoreRequest, hrequest]
    refine ⟨_, rfl, ?_⟩
    rw [get?_tool_call_id_restoreMessage hanswer, unpackId_packId hfirst, hid]

/-- A signed and an unsigned call in one response. -/
def mixedResponse : Value :=
  .obj [("choices", .array [.obj [("message", .obj [("tool_calls", .array [
    .obj [("id", .string "call_a"), ("extra_content",
      .obj [("google", .obj [("thought_signature", .string "A+/=")])])],
    .obj [("id", .string "call_b")]])])]])]

/-- The history a client builds from it: both calls, then the answer to the first. -/
def mixedRequest : Value :=
  .obj [("messages", .array [
    .obj [("tool_calls", .array [
      .obj [("id", .string "call_a__thought__A-2b-2f-3d"), ("type", .string "function")],
      .obj [("id", .string "call_b")]])],
    .obj [("role", .string "tool"), ("tool_call_id", .string "call_a__thought__A-2b-2f-3d")]])]

theorem mixedResponse_packable : ∀ choice index call,
    responseCall mixedResponse choice index = some call → HasPackableId call := by
  intro choice index call hcall
  have hfirst : MarkerFirst "call_a" ∧ MarkerFirst "call_b" := by
    constructor <;> exact (markerFirst_iff (by decide)).mpr (by decide)
  match choice, index with
  | 0, 0 => exact ⟨"call_a", Option.some.inj hcall ▸ rfl, hfirst.1⟩
  | 0, 1 => exact ⟨"call_b", Option.some.inj hcall ▸ rfl, hfirst.2⟩
  | 0, _ + 2 => exact absurd hcall.symm (Option.some_ne_none call)
  | _ + 1, _ => exact absurd hcall.symm (Option.some_ne_none call)

theorem restoreRequest_packResponse_mixed :
    (∃ restored, requestCall (restoreRequest mixedRequest) 0 0 = some restored ∧
      restored.get? "id" = some (.string "call_a") ∧
      restored.pointer ["extra_content", "google", "thought_signature"] =
        some (.string "A+/=")) ∧
    (∃ restored, requestMessage (restoreRequest mixedRequest) 1 = some restored ∧
      restored.get? "tool_call_id" = some (.string "call_a")) := by
  have hpacked : ((responseCall (packResponse mixedResponse) 0 0).bind (·.get? "id")).bind
      Value.asStr = some "call_a__thought__A-2b-2f-3d" := by decide +kernel
  obtain ⟨received, hreceived, hid⟩ : ∃ received,
      responseCall (packResponse mixedResponse) 0 0 = some received ∧
        received.get? "id" = some (.string "call_a__thought__A-2b-2f-3d") := by
    cases hreceived : responseCall (packResponse mixedResponse) 0 0 with
    | none => rw [hreceived] at hpacked; exact absurd hpacked.symm (Option.some_ne_none _)
    | some received =>
      rw [hreceived, Option.bind_some, Option.bind_eq_some_iff] at hpacked
      obtain ⟨id, hid, hstr⟩ := hpacked
      exact ⟨received, rfl, by rw [hid, (Value.asStr_eq_some_iff _ _).mp hstr]⟩
  have hturn := restoreRequest_packResponse mixedResponse mixedRequest mixedResponse_packable
  exact ⟨hturn.1 0 0 _ received 0 0 _ rfl hreceived rfl ⟨hid.symm, rfl⟩,
    hturn.2 0 0 _ received 1 _ rfl hreceived rfl hid.symm⟩

end VertexGateway.Thought
