import VertexGateway.Forward.Response
import VertexGateway.Thought.RestoreFrame

/-!
# The OpenAI Chat Completions protocol

`chat` shapes the request body and builds the target URL; everything after that is the forwarding.
The model name is resolved through the alias table, the fields Vertex rejects are dropped and the
signatures go back to their places. Everything else reaches Vertex as the caller wrote it.
-/

namespace VertexGateway.Protocols

open Forward (Response upstreamError)
open Value Thought

/-! ## Configuration -/

/-- The configuration needed to address Vertex AI. -/
structure Config where
  project : String
  location : String
  aliases : FiniteMap String String
  baseUrlOverride : Option String

/-- Defaults so the gateway is usable with no extra configuration. -/
def defaultAliases : FiniteMap String String :=
  FiniteMap.ofList
    [("gemini-pro", "google/gemini-2.5-pro"), ("gemini-flash", "google/gemini-2.5-flash")]

namespace Config

/-- The `global` endpoint and the built-in model aliases. -/
def new (project : String) : Config :=
  ⟨project, "global", defaultAliases, none⟩

/-- Vertex has two hostname shapes: `global` has no prefix. -/
def host (config : Config) : String :=
  match config.baseUrlOverride with
  | some base => base
  | none =>
    if config.location = "global" then "https://aiplatform.googleapis.com"
    else s!"https://{config.location}-aiplatform.googleapis.com"

/-- Base URL of the OpenAI compatibility layer. The location appears twice, in the hostname and in
the path. -/
def openaiBase (config : Config) : String :=
  s!"{config.host}/v1/projects/{config.project}/locations/{config.location}/endpoints/openapi"

end Config

/-! ## Shaping the request -/

/-- Fields an OpenAI client may send that Vertex rejects. -/
def dropFields : List String :=
  ["prompt_cache_key", "safety_identifier", "store", "metadata"]

/-- Resolve an alias, then add a publisher prefix to a bare name. A name with a slash and an
endpoint id, which is all digits, are left alone. -/
def resolveModel (aliases : FiniteMap String String) (raw : String) : String :=
  let resolved := (aliases.get? raw).getD raw
  if resolved.toList.contains '/' || resolved.toList.all Char.isDigit then resolved
  else s!"google/{resolved}"

/-- What becomes of a request: an answer of the gateway itself, or a call to `forward`. -/
inductive ChatOutcome where
  | answered (response : Response)
  | forwarded (url : String) (body : Value) (streaming : Bool)

/-- The model name as the client sent it. -/
def requestedModel (body : Value) : String :=
  ((body.get? "model").bind asStr).getD ""

/-- Set the model name and drop the fields that Vertex rejects. -/
def replaceFields (resolved : String) (body : Value) : Value :=
  body.onObject fun obj ↦ dropFields.foldl FiniteMap.remove (obj.insert "model" (.string resolved))

/-- Forward an OpenAI-shaped request to Vertex. -/
def chat (config : Config) (body : Value) : ChatOutcome :=
  let resolved := resolveModel config.aliases (requestedModel body)
  let body := restoreRequest (replaceFields resolved body)
  if ((body.get? "n").bind asU64).any (1 < ·) then
    .answered (upstreamError
      "n > 1 is not supported: tool call signatures are tracked for one choice only")
  else
    .forwarded (config.openaiBase ++ "/chat/completions") body
      (((body.get? "stream").bind asBool).getD false)

/-! ## What reaches Vertex -/

/-- The places of a forwarded request that may differ from the client's. -/
inductive RequestRewritten (body : Value) : List Segment → Prop
  | model : RequestRewritten body [.key "model"]
  | dropped {field : String} (hfield : field ∈ dropFields) : RequestRewritten body [.key field]
  | restored {path : List Segment} (hrestored : RequestRestored body path) :
      RequestRewritten body path

theorem get?_replaceFields {obj : FiniteMap String Value} (resolved key : String) :
    (replaceFields resolved (.object obj)).get? key =
      if key ∈ dropFields then none else
        if key = "model" then some (.string resolved) else obj.get? key := by
  simp only [replaceFields, onObject, get?_object, FiniteMap.get?_foldl_remove,
    FiniteMap.get?_insert]

theorem get?_messages_replaceFields (resolved : String) (body : Value) :
    (replaceFields resolved body).get? "messages" = body.get? "messages" := by
  have hkept : "messages" ∉ dropFields ∧ "messages" ≠ "model" := by decide
  cases body with
  | object obj => rw [get?_replaceFields, if_neg hkept.1, if_neg hkept.2, get?_object]
  | _ => rfl

theorem replaceFields_sameExcept (resolved : String) (body : Value) :
    SameExcept (RequestRewritten body) body (replaceFields resolved body) := by
  apply SameExcept.onObject
  rintro obj rfl
  apply SameExcept.trans (SameExcept.insert _ (Or.inl RequestRewritten.model))
  exact SameExcept.removeAll fun field hfield ↦ RequestRewritten.dropped hfield

/-- Shaping the top level leaves the messages alone, so the same ids are restored. -/
theorem requestRestored_replaceFields {resolved : String} {body : Value} {path : List Segment}
    (h : RequestRestored (replaceFields resolved body) path) : RequestRestored body path := by
  cases h with
  | message hmessage hbelow =>
    rw [locate_cons, child_key, get?_messages_replaceFields, ← child_key, ← locate_cons] at hmessage
    exact RequestRestored.message hmessage hbelow

theorem chat_forwarded {config : Config} {body sent : Value} {url : String} {streaming : Bool}
    (h : chat config body = .forwarded url sent streaming) :
    sent = restoreRequest
      (replaceFields (resolveModel config.aliases (requestedModel body)) body) := by
  unfold chat at h
  simp only at h
  split at h
  · exact absurd h (by simp)
  · exact (ChatOutcome.forwarded.inj h).2.1.symm

theorem requestMessage_replaceFields (resolved : String) (body : Value) (message : ℕ) :
    requestMessage (replaceFields resolved body) message = requestMessage body message := by
  unfold requestMessage
  rw [get?_messages_replaceFields]

/-- **Pass-through.** A forwarded body is the client's at every place except the model name, the
dropped fields, ids that hold the separator and the signatures of ids that decode to one. What
stands there instead is fixed, and restoring a body without separators is the identity. -/
theorem chat_passes_through (config : Config) (obj : FiniteMap String Value) (url : String)
    (sent : Value) (streaming : Bool)
    (h : chat config (.object obj) = .forwarded url sent streaming) :
    SameExcept (RequestRewritten (.object obj)) (.object obj) sent ∧
      sent.get? "model" =
        some (.string (resolveModel config.aliases (requestedModel (.object obj)))) ∧
      (∀ field ∈ dropFields, sent.get? field = none) ∧
      (∀ message found packed, requestMessage (.object obj) message = some found →
        found.get? "tool_call_id" = some (.string packed) → HasMarker packed →
        ∃ restored cut, requestMessage sent message = some restored ∧
          restored.get? "tool_call_id" = some (.string cut) ∧ CutAtMarker packed cut) ∧
      (∀ message index call packed, requestCall (.object obj) message index = some call →
        call.get? "id" = some (.string packed) →
        ∃ restored, requestCall sent message index = some restored ∧
          CallRestoration call restored packed) ∧
      ∀ body, NoMarker body → restoreRequest body = body := by
  obtain rfl := chat_forwarded h
  refine ⟨?_, ?_, ?_, ?_, ?_, fun body hnone ↦ hnone.restoreRequest_eq⟩
  · apply (replaceFields_sameExcept _ _).trans
    apply (restoreRequest_sameExcept _).mono
    exact fun path hrestored ↦ RequestRewritten.restored (requestRestored_replaceFields hrestored)
  · have hkept : "model" ∉ dropFields ∧ "model" ≠ "messages" := by decide
    unfold restoreRequest
    rw [get?_modifyKey_of_ne _ hkept.2, get?_replaceFields, if_neg hkept.1, if_pos rfl]
  · intro field hfield
    have hne : field ≠ "messages" := by
      rintro rfl
      exact absurd hfield (by decide)
    unfold restoreRequest
    rw [get?_modifyKey_of_ne _ hne, get?_replaceFields, if_pos hfield]
  · intro message found packed hfound hid hmarker
    rw [requestMessage_restoreRequest, requestMessage_replaceFields, hfound]
    exact ⟨_, _, rfl, get?_tool_call_id_restoreMessage hid, cutAtMarker_unpackId hmarker⟩
  · intro message index call packed hcall hid
    have hsame : requestCall (replaceFields (resolveModel config.aliases
        (requestedModel (.object obj))) (.object obj)) message index = some call := by
      rw [← hcall]
      unfold requestCall
      rw [requestMessage_replaceFields]
    rw [requestCall_restoreRequest, hsame]
    exact ⟨_, rfl, restoreToolCall_restoration hid⟩

/-- The history of a signed call and its answer, with an alias and a field to drop. -/
def packedRequest : FiniteMap String Value :=
  FiniteMap.ofList
    [("model", .string "gemini-pro"), ("store", .bool true), ("messages", .array
      [.obj [("tool_calls", .array [.obj [("id", .string "call_a__thought__SIG")]])],
        .obj [("tool_call_id", .string "call_a__thought__SIG")]])]

theorem chat_passes_through_packed : ∃ url sent streaming,
    chat (Config.new "demo") (.object packedRequest) = .forwarded url sent streaming ∧
      SameExcept (RequestRewritten (.object packedRequest)) (.object packedRequest) sent ∧
      sent.get? "model" = some (.string "google/gemini-2.5-pro") ∧
      sent.get? "store" = none ∧
      (∃ restored cut, requestMessage sent 1 = some restored ∧
        restored.get? "tool_call_id" = some (.string cut) ∧
        CutAtMarker "call_a__thought__SIG" cut) ∧
      (∃ restored, requestCall sent 0 0 = some restored ∧
        CallRestoration (.obj [("id", .string "call_a__thought__SIG")]) restored
          "call_a__thought__SIG") ∧
      restoreRequest (.obj []) = .obj [] := by
  have hmodel : resolveModel (Config.new "demo").aliases
      (requestedModel (.object packedRequest)) = "google/gemini-2.5-pro" := by decide +kernel
  have hnoMarker : NoMarker (.obj []) :=
    ⟨fun _ _ _ hfound ↦ absurd hfound.symm (Option.some_ne_none _),
      fun _ _ _ _ hcall ↦ absurd hcall.symm (Option.some_ne_none _)⟩
  have hforwarded : chat (Config.new "demo") (.object packedRequest) =
      .forwarded ((Config.new "demo").openaiBase ++ "/chat/completions")
        (restoreRequest (replaceFields (resolveModel (Config.new "demo").aliases
          (requestedModel (.object packedRequest))) (.object packedRequest))) false := rfl
  obtain ⟨hsame, hsentModel, hdropped, hanswers, hcalls, hidentity⟩ :=
    chat_passes_through (Config.new "demo") packedRequest _ _ _ hforwarded
  rw [hmodel] at hsentModel
  exact ⟨_, _, _, hforwarded, hsame, hsentModel, hdropped "store" (by decide),
    hanswers 1 _ "call_a__thought__SIG" rfl rfl (by decide), hcalls 0 0 _ _ rfl rfl,
    hidentity _ hnoMarker⟩

end VertexGateway.Protocols
