import VertexGateway.Json.Position
import VertexGateway.Thought.RestoreRequest

/-!
# What restoring a request leaves alone

Restoring writes to ids that hold the separator and, where such an id decodes to a signature, to
the signature's place and the objects missing on the way to it. Everything else stays. The part of
an id before the first separator holds no separator, overlapping or not, so a restored request has
nothing left to restore.
-/

namespace VertexGateway.Thought

open Value

/-! ## What is left of an id -/

theorem hasMarker_of_unpackId {packed sig : String} (h : (unpackId packed).2 = some sig) :
    HasMarker packed := by
  by_contra hnot
  rw [unpackId_of_not_hasMarker hnot] at h
  exact absurd h.symm (Option.some_ne_none sig)

/-- The cut is at the first separator, so none is left before it. -/
theorem not_hasMarker_unpackId (packed : String) : ¬ HasMarker (unpackId packed).1 := by
  cases hsplit : splitOnce packed marker with
  | none =>
    have hnot := (splitOnce_eq_none_iff packed).mp hsplit
    rwa [unpackId_of_not_hasMarker hnot]
  | some parts =>
    have hfirst := ((splitOnce_eq_some_iff packed parts.1 parts.2).mp hsplit).2
    unfold unpackId
    rw [hsplit]
    exact not_hasMarker_of_markerFirst hfirst

/-! ## Where restoring writes -/

/-- The places below a call that restoring it writes to. -/
inductive CallRestored (call : Value) : List Segment → Prop
  | id {packed : String} (hid : call.get? "id" = some (.string packed))
      (hmarker : HasMarker packed) : CallRestored call [.key "id"]
  | signature {packed sig : String} (hid : call.get? "id" = some (.string packed))
      (hsig : (unpackId packed).2 = some sig) : CallRestored call (signaturePath.map .key)
  /-- The carrier is created where it is absent. -/
  | extraContent {packed sig : String} (hid : call.get? "id" = some (.string packed))
      (hsig : (unpackId packed).2 = some sig) (habsent : call.get? "extra_content" = none) :
      CallRestored call [.key "extra_content"]
  /-- And so is `google` in a carrier without it. -/
  | google {packed sig : String} {extraContent : FiniteMap String Value}
      (hid : call.get? "id" = some (.string packed)) (hsig : (unpackId packed).2 = some sig)
      (hextra : call.get? "extra_content" = some (.object extraContent))
      (habsent : extraContent.get? "google" = none) :
      CallRestored call [.key "extra_content", .key "google"]

/-- The places below a message that restoring it writes to. -/
inductive MessageRestored (message : Value) : List Segment → Prop
  | toolCallId {packed : String} (hid : message.get? "tool_call_id" = some (.string packed))
      (hmarker : HasMarker packed) : MessageRestored message [.key "tool_call_id"]
  | call {index : ℕ} {call : Value} {below : List Segment}
      (hcall : message.locate [.key "tool_calls", .item index] = some call)
      (hbelow : CallRestored call below) :
      MessageRestored message (.key "tool_calls" :: .item index :: below)

/-- The places of a request that restoring it writes to. -/
inductive RequestRestored (body : Value) : List Segment → Prop
  | message {index : ℕ} {message : Value} {below : List Segment}
      (hmessage : body.locate [.key "messages", .item index] = some message)
      (hbelow : MessageRestored message below) :
      RequestRestored body (.key "messages" :: .item index :: below)

theorem requestMessage_eq_locate (body : Value) (message : ℕ) :
    requestMessage body message = body.locate [.key "messages", .item message] := by
  simp only [requestMessage, locate_cons, locate_nil, child_key, child_item, Option.bind_assoc,
    Option.bind_fun_some]

theorem requestCall_eq_locate (body : Value) (message index : ℕ) :
    requestCall body message index = (requestMessage body message).bind
      (·.locate [.key "tool_calls", .item index]) := by
  simp only [requestCall, locate_cons, locate_nil, child_key, child_item, Option.bind_assoc,
    Option.bind_fun_some]

/-! ## Nothing else changes -/

/-- Writing an unpacked id changes it only if it holds the separator. -/
theorem sameExcept_insert_unpacked {exempt : List Segment → Prop} {obj : FiniteMap String Value}
    {key packed : String} (hid : obj.get? key = some (.string packed))
    (hmarker : HasMarker packed → exempt [.key key]) :
    SameExcept exempt (.object obj) (.object (obj.insert key (.string (unpackId packed).1))) := by
  apply SameExcept.insert
  by_cases h : HasMarker packed
  · exact Or.inl (hmarker h)
  · rw [unpackId_of_not_hasMarker h]
    exact Or.inr hid

/-- Putting a signature in its place goes through the entries that are there. -/
theorem restoreSignature_sameExcept {exempt : List Segment → Prop} (obj : FiniteMap String Value)
    (sig : String) (hsignature : exempt (signaturePath.map .key))
    (hextra : obj.get? "extra_content" = none → exempt [.key "extra_content"])
    (hgoogle : ∀ extraContent, obj.get? "extra_content" = some (.object extraContent) →
      extraContent.get? "google" = none → exempt [.key "extra_content", .key "google"]) :
    SameExcept exempt (.object obj) (.object (restoreSignature obj sig)) := by
  unfold restoreSignature
  apply SameExcept.updateEntry _ hextra
  intro extra hpresent
  apply SameExcept.onObject
  rintro extraContent rfl
  apply SameExcept.updateEntry _ (hgoogle extraContent hpresent)
  intro found _
  apply SameExcept.onObject
  intro google _
  exact SameExcept.insert _ (Or.inl hsignature)

theorem bind_asStr_eq_none {value : Value} {key : String}
    (h : ∀ text, value.get? key ≠ some (.string text)) : (value.get? key).bind asStr = none := by
  rw [Option.bind_eq_none_iff]
  intro found hfound
  rw [Option.eq_none_iff_forall_ne_some]
  intro text hstr
  rw [asStr_eq_some_iff] at hstr
  exact h text (hstr ▸ hfound)

theorem restoreToolCall_of_no_id {call : Value}
    (h : ∀ packed, call.get? "id" ≠ some (.string packed)) : restoreToolCall call = call := by
  unfold restoreToolCall
  rw [bind_asStr_eq_none h]

theorem restoreToolCallId_of_no_id {message : Value}
    (h : ∀ packed, message.get? "tool_call_id" ≠ some (.string packed)) :
    restoreToolCallId message = message := by
  unfold restoreToolCallId
  rw [bind_asStr_eq_none h]

theorem restoreToolCall_sameExcept (call : Value) :
    SameExcept (CallRestored call) call (restoreToolCall call) := by
  by_cases hstring : ∃ packed, call.get? "id" = some (.string packed)
  · obtain ⟨packed, hid⟩ := hstring
    cases call with
    | object obj =>
      have hne : "extra_content" ≠ "id" := by decide
      have hwritten := sameExcept_insert_unpacked hid fun hmarker ↦ CallRestored.id hid hmarker
      rw [restoreToolCall_object hid]
      cases hsig : (unpackId packed).2 with
      | none => exact hwritten
      | some sig =>
        apply hwritten.trans
        apply restoreSignature_sameExcept _ sig (CallRestored.signature hid hsig)
        · rw [FiniteMap.get?_insert_of_ne _ hne]
          exact CallRestored.extraContent hid hsig
        · intro extraContent hextra
          rw [FiniteMap.get?_insert_of_ne _ hne] at hextra
          exact CallRestored.google hid hsig hextra
    | _ => exact SameExcept.refl _
  · rw [restoreToolCall_of_no_id (not_exists.mp hstring)]
    exact SameExcept.refl call

theorem restoreToolCallId_sameExcept (message : Value) :
    SameExcept (MessageRestored message) message (restoreToolCallId message) := by
  unfold restoreToolCallId
  cases hid : (message.get? "tool_call_id").bind Value.asStr with
  | none => exact SameExcept.refl message
  | some packed =>
    obtain ⟨found, hfound, hstr⟩ := Option.bind_eq_some_iff.mp hid
    obtain rfl := (asStr_eq_some_iff found packed).mp hstr
    apply SameExcept.onObject
    rintro map rfl
    exact sameExcept_insert_unpacked hfound (MessageRestored.toolCallId hfound)

theorem restoreMessage_sameExcept (message : Value) :
    SameExcept (MessageRestored message) message (restoreMessage message) := by
  have hne : "tool_calls" ≠ "tool_call_id" := by decide
  apply (restoreToolCallId_sameExcept message).trans
  apply SameExcept.modifyKey
  intro calls hcalls
  rw [child_key, get?_restoreToolCallId_of_ne message hne, ← child_key] at hcalls
  apply SameExcept.onItems
  intro index call hcall
  apply (restoreToolCall_sameExcept call).mono
  intro below hbelow
  have hfound : message.locate [.key "tool_calls", .item index] = some call := by
    simp only [locate_cons, locate_nil, hcalls, hcall, Option.bind_some]
  exact MessageRestored.call hfound hbelow

/-- Restoring a request writes to the places of `RequestRestored`. -/
theorem restoreRequest_sameExcept (body : Value) :
    SameExcept (RequestRestored body) body (restoreRequest body) := by
  unfold restoreRequest
  apply SameExcept.modifyKey
  intro messages hmessages
  apply SameExcept.onItems
  intro index message hmessage
  apply (restoreMessage_sameExcept message).mono
  intro below hbelow
  have hfound : body.locate [.key "messages", .item index] = some message := by
    simp only [locate_cons, locate_nil, hmessages, hmessage, Option.bind_some]
  exact RequestRestored.message hfound hbelow

/-! ## What stands in the restored places -/

/-- A text cut off at its first separator. -/
def CutAtMarker (text cut : String) : Prop :=
  ∃ back, text = cut ++ marker ++ back ∧ MarkerFirst cut

theorem cutAtMarker_unpackId {packed : String} (h : HasMarker packed) :
    CutAtMarker packed (unpackId packed).1 := by
  cases hsplit : splitOnce packed marker with
  | none => exact absurd h ((splitOnce_eq_none_iff packed).mp hsplit)
  | some parts =>
    unfold unpackId
    rw [hsplit]
    exact ⟨parts.2, (splitOnce_eq_some_iff packed parts.1 parts.2).mp hsplit⟩

/-- What a restored call holds where its source had the packed id. -/
structure CallRestoration (call restored : Value) (packed : String) : Prop where
  id : restored.get? "id" = some (.string (unpackId packed).1)
  cut : HasMarker packed → CutAtMarker packed (unpackId packed).1
  signature : ∀ sig, (unpackId packed).2 = some sig →
    (restored.pointer signaturePath = some (.string sig) ↔ AcceptsSignature call)
  extraContent : ∀ sig, (unpackId packed).2 = some sig → call.get? "extra_content" = none →
    restored.get? "extra_content" = some (signatureCarrier sig)
  google : ∀ sig extraContent, (unpackId packed).2 = some sig →
    call.get? "extra_content" = some (.object extraContent) → extraContent.get? "google" = none →
    restored.locate [.key "extra_content", .key "google"] = (signatureCarrier sig).get? "google"

theorem restoreToolCall_restoration {call : Value} {packed : String}
    (hid : call.get? "id" = some (.string packed)) :
    CallRestoration call (restoreToolCall call) packed where
  id := get?_id_restoreToolCall hid
  cut := cutAtMarker_unpackId
  signature _ hsig := pointer_restoreToolCall_iff hid hsig
  extraContent sig hsig habsent := by
    have hne : "extra_content" ≠ "id" := by decide
    obtain ⟨obj, rfl, -⟩ := Value.exists_object_of_get? hid
    rw [get?_object] at habsent
    rw [restoreToolCall_object hid, hsig, get?_object, restoreSignature,
      FiniteMap.get?_updateEntry_self, FiniteMap.get?_insert_of_ne _ hne, habsent]
    rfl
  google sig extraContent hsig hextra habsent := by
    have hne : "extra_content" ≠ "id" := by decide
    obtain ⟨obj, rfl, -⟩ := Value.exists_object_of_get? hid
    rw [get?_object] at hextra
    rw [restoreToolCall_object hid, hsig, locate_cons, child_object_key, restoreSignature,
      FiniteMap.get?_updateEntry_self, FiniteMap.get?_insert_of_ne _ hne, hextra]
    simp only [Option.getD_some, onObject, Option.bind_some, locate_cons, child_object_key,
      FiniteMap.get?_updateEntry_self, habsent, Option.getD_none, locate_nil]
    rfl

/-! ## A request without separators -/

/-- No tool-call id and no answered id holds the separator. -/
def NoMarker (body : Value) : Prop :=
  (∀ message found packed, requestMessage body message = some found →
    found.get? "tool_call_id" = some (.string packed) → ¬ HasMarker packed) ∧
  ∀ message index call packed, requestCall body message index = some call →
    call.get? "id" = some (.string packed) → ¬ HasMarker packed

theorem exists_marker_of_callRestored {call : Value} {path : List Segment}
    (h : CallRestored call path) :
    ∃ packed, call.get? "id" = some (.string packed) ∧ HasMarker packed := by
  cases h with
  | id hid hmarker => exact ⟨_, hid, hmarker⟩
  | signature hid hsig => exact ⟨_, hid, hasMarker_of_unpackId hsig⟩
  | extraContent hid hsig _ => exact ⟨_, hid, hasMarker_of_unpackId hsig⟩
  | google hid hsig _ _ => exact ⟨_, hid, hasMarker_of_unpackId hsig⟩

theorem NoMarker.not_requestRestored {body : Value} (h : NoMarker body) (path : List Segment) :
    ¬ RequestRestored body path := by
  intro hrestored
  cases hrestored with
  | @message position message below hmessage hbelow =>
    rw [← requestMessage_eq_locate] at hmessage
    cases hbelow with
    | toolCallId hid hmarker => exact h.1 position message _ hmessage hid hmarker
    | @call index call below hcall hcallRestored =>
      obtain ⟨packed, hid, hmarker⟩ := exists_marker_of_callRestored hcallRestored
      have hfound : requestCall body position index = some call := by
        rw [requestCall_eq_locate, hmessage, Option.bind_some, hcall]
      exact h.2 position index call packed hfound hid hmarker

/-- Restoring is the identity on every body without separators, whatever its shape. -/
theorem NoMarker.restoreRequest_eq {body : Value} (h : NoMarker body) : restoreRequest body = body :=
  ((restoreRequest_sameExcept body).eq_of_forall_not h.not_requestRestored).symm

/-! ## Restoring twice -/

theorem not_hasMarker_id_restoreToolCall {call : Value} {id : String}
    (h : (restoreToolCall call).get? "id" = some (.string id)) : ¬ HasMarker id := by
  by_cases hstring : ∃ packed, call.get? "id" = some (.string packed)
  · obtain ⟨packed, hid⟩ := hstring
    rw [get?_id_restoreToolCall hid] at h
    obtain rfl : (unpackId packed).1 = id := by simpa using h
    exact not_hasMarker_unpackId packed
  · have hnone := not_exists.mp hstring
    rw [restoreToolCall_of_no_id hnone] at h
    exact absurd h (hnone id)

theorem not_hasMarker_toolCallId_restoreMessage {message : Value} {id : String}
    (h : (restoreMessage message).get? "tool_call_id" = some (.string id)) : ¬ HasMarker id := by
  by_cases hstring : ∃ packed, message.get? "tool_call_id" = some (.string packed)
  · obtain ⟨packed, hid⟩ := hstring
    rw [get?_tool_call_id_restoreMessage hid] at h
    obtain rfl : (unpackId packed).1 = id := by simpa using h
    exact not_hasMarker_unpackId packed
  · have hnone := not_exists.mp hstring
    have hne : "tool_call_id" ≠ "tool_calls" := by decide
    unfold restoreMessage at h
    rw [get?_modifyKey_of_ne _ hne, restoreToolCallId_of_no_id hnone] at h
    exact absurd h (hnone id)

/-- One pass leaves no separator in any id. -/
theorem noMarker_restoreRequest (body : Value) : NoMarker (restoreRequest body) := by
  constructor
  · intro message found packed hfound
    rw [requestMessage_restoreRequest, Option.map_eq_some_iff] at hfound
    obtain ⟨source, -, rfl⟩ := hfound
    exact not_hasMarker_toolCallId_restoreMessage
  · intro message index call packed hcall
    rw [requestCall_restoreRequest, Option.map_eq_some_iff] at hcall
    obtain ⟨source, -, rfl⟩ := hcall
    exact not_hasMarker_id_restoreToolCall

/-- **Restoring is idempotent.** After one pass no id holds the separator, however often and however
overlapping it was there, and the second pass changes nothing. -/
theorem restoreRequest_restoreRequest (body : Value) :
    NoMarker (restoreRequest body) ∧ restoreRequest (restoreRequest body) = restoreRequest body :=
  ⟨noMarker_restoreRequest body, (noMarker_restoreRequest body).restoreRequest_eq⟩

end VertexGateway.Thought
