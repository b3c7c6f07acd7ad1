import VertexGateway.Routes.Auth

/-!
# Handling one request

The handler checks the gateway key and defers to the protocol, which either answers itself or
forwards. `Handled` lists what can come of it: the response together with what was done for it. A
response is a success exactly when Vertex's answer was one, and only such a response may be a
stream: every failure reaches the client as one JSON body.
-/

namespace VertexGateway.Routes

open Forward (Exchange Forwarded Relays Response answerEvent errorJson forward forward_forwarded
  isSuccess isSuccess_statusFromU16 jsonResponse statusFromU16 upstreamError)
open Protocols (chat requestedModel)
open State (AppState Effect GatewayConfig Reply)

/-- Forward an OpenAI-shaped request to Vertex. -/
def chatExchange (serde : SerdeJson) (st : AppState) (body : Value) (duration : ℕ)
    (room : Option ℕ) : Exchange :=
  match chat st.config.toConfig body with
  | .answered response => ⟨response, []⟩
  | .forwarded url sent streaming => forward serde st url sent streaming duration room

/-- The handler checks the gateway key, then defers to `chatExchange`. -/
def chatCompletions (serde : SerdeJson) (st : AppState) (headers : HeaderMap) (body : Value)
    (duration : ℕ) (room : Option ℕ) : Exchange :=
  if checkAuth st.config headers then chatExchange serde st body duration room
  else ⟨unauthorized, []⟩

/-- A request with what the world has in store for it: the token source's and Vertex's answers, the
time it takes and how much of a stream the client stays for. -/
structure Request where
  headers : HeaderMap
  body : Value
  token : Except String String
  post : String → String → Value → Except String Reply
  duration : ℕ
  room : Option ℕ

structure Server where
  config : GatewayConfig
  observed : Bool

def Server.state (server : Server) (request : Request) : AppState :=
  ⟨server.config, request.token, request.post, server.observed⟩

section State

variable (server : Server) (request : Request)

@[simp]
theorem Server.state_config : (server.state request).config = server.config := rfl

@[simp]
theorem Server.state_token : (server.state request).token = request.token := rfl

@[simp]
theorem Server.state_post : (server.state request).post = request.post := rfl

@[simp]
theorem Server.state_observed : (server.state request).observed = server.observed := rfl

end State

def handle (serde : SerdeJson) (server : Server) (request : Request) : Exchange :=
  chatCompletions serde (server.state request) request.headers request.body request.duration
    request.room

/-! ## What comes of a request -/

/-- The call that a request makes: the address, the token, the body and whether a stream is asked
for. -/
structure Calls (server : Server) (request : Request) (url token : String) (sent : Value)
    (streaming : Bool) : Prop where
  admitted : Admitted server.config request.headers
  token_eq : request.token = .ok token
  chat_eq : chat server.config.toConfig request.body = .forwarded url sent streaming
  url_eq : url = server.config.openaiBase ++ "/chat/completions"

/-- The completion that a request amounts to, if its call is answered. -/
def completion? (serde : SerdeJson) (server : Server) (request : Request) :
    Option CompletionEvent :=
  if checkAuth server.config request.headers then
    match chat server.config.toConfig request.body, request.token with
    | .forwarded url sent streaming, .ok token =>
      match request.post url token sent with
      | .ok reply => some (answerEvent serde reply (requestedModel sent)
          (streaming && isSuccess reply.status) request.duration request.room)
      | .error _ => none
    | _, _ => none
  else none

theorem url_of_forwarded {config : Protocols.Config} {body sent : Value} {url : String}
    {streaming : Bool} (h : chat config body = .forwarded url sent streaming) :
    url = config.openaiBase ++ "/chat/completions" := by
  unfold chat at h
  simp only at h
  split at h
  · exact absurd h (by simp)
  · exact (Protocols.ChatOutcome.forwarded.inj h).1.symm

/-- What the protocol answers itself is an error. -/
theorem answered_of_chat {config : Protocols.Config} {body : Value} {response : Response}
    (h : chat config body = .answered response) : ∃ message, response = upstreamError message := by
  unfold chat at h
  simp only at h
  split at h
  · exact ⟨_, (Protocols.ChatOutcome.answered.inj h).symm⟩
  · exact absurd h (by simp)

theorem Calls.completion?_eq {serde : SerdeJson} {server : Server} {request : Request}
    {url token : String} {sent : Value} {streaming : Bool} {reply : Reply}
    (h : Calls server request url token sent streaming)
    (hpost : request.post url token sent = .ok reply) :
    completion? serde server request = some (answerEvent serde reply (requestedModel sent)
      (streaming && isSuccess reply.status) request.duration request.room) := by
  rw [completion?, if_pos ((checkAuth_eq_true_iff _ _).mpr h.admitted), h.chat_eq, h.token_eq]
  simp only [hpost]

/-- The ways of handling a request: without asking Vertex, with a call that is not answered, and
with one that is. -/
inductive Handled (serde : SerdeJson) (server : Server) (request : Request) : Exchange → Prop where
  | refused {status : UInt16} {message : String} {effects : List Effect}
      (hnone : completion? serde server request = none) (hstatus : isSuccess status = false)
      (heffects : effects <+: [.tokenRequested]) :
      Handled serde server request ⟨jsonResponse status (errorJson message), effects⟩
  | unanswered {message url token : String} {sent : Value} {streaming : Bool}
      (hcalls : Calls server request url token sent streaming)
      (hnone : completion? serde server request = none) :
      Handled serde server request
        ⟨upstreamError message, [.tokenRequested, .posted url token sent]⟩
  | answered {response : Response} {url token : String} {sent : Value} {streaming : Bool}
      {reply : Reply} {event : CompletionEvent}
      (hcalls : Calls server request url token sent streaming)
      (hpost : request.post url token sent = .ok reply)
      (hrelays : Relays serde reply streaming response)
      (hevent : completion? serde server request = some event)
      (hstatus : event.status = response.status)
      (hstreamed : event.streamed = response.body.isStream) :
      Handled serde server request ⟨response,
        [.tokenRequested, .posted url token sent] ++ (server.state request).notify event⟩

section Relays

variable {serde : SerdeJson} {reply : Reply} {streaming : Bool} {response : Response}

/-- Relaying keeps a success a success and a failure a failure. -/
theorem isSuccess_of_relays (h : Relays serde reply streaming response) :
    isSuccess response.status = isSuccess reply.status := by
  cases h with
  | failed _ => exact isSuccess_statusFromU16 reply.status
  | whole _ _ _ => rfl
  | streamed _ _ _ _ => rfl

theorem status_of_relays (h : Relays serde reply streaming response) :
    response.status = (statusFromU16 reply.status).getD 502 := by
  cases h with
  | failed _ => rfl
  | whole hsuccess _ _ => rw [Forward.statusFromU16_of_isSuccess hsuccess]; rfl
  | streamed hsuccess _ _ _ => rw [Forward.statusFromU16_of_isSuccess hsuccess]; rfl

/-- A stream is what a success is relayed as when a stream was asked for. -/
theorem isStream_of_relays (h : Relays serde reply streaming response) :
    response.body.isStream = (streaming && isSuccess reply.status) := by
  cases h with
  | failed hfailed => rw [hfailed, Bool.and_false]; rfl
  | whole _ hstreaming _ => rw [hstreaming]; rfl
  | streamed hsuccess hstreaming _ _ => rw [hsuccess, hstreaming]; rfl

end Relays

theorem Handled.of_forwarded {serde : SerdeJson} {server : Server} {request : Request}
    {url : String} {sent : Value} {streaming : Bool} {exchange : Exchange}
    (hauth : checkAuth server.config request.headers = true)
    (hchat : chat server.config.toConfig request.body = .forwarded url sent streaming)
    (h : Forwarded serde (server.state request) url sent streaming request.duration request.room
      exchange) : Handled serde server request exchange := by
  have hcalls {token : String} (htoken : request.token = .ok token) :
      Calls server request url token sent streaming :=
    ⟨(checkAuth_eq_true_iff _ _).mp hauth, htoken, hchat, url_of_forwarded hchat⟩
  cases h with
  | tokenless htoken =>
    rw [Server.state_token] at htoken
    have hnone : completion? serde server request = none := by
      simp [completion?, hauth, hchat, htoken]
    exact .refused hnone (by decide) (List.prefix_refl _)
  | unanswered htoken hpost =>
    rw [Server.state_token] at htoken
    rw [Server.state_post] at hpost
    exact .unanswered (hcalls htoken) (by simp [completion?, hauth, hchat, htoken, hpost])
  | answered htoken hpost hrelays =>
    rw [Server.state_token] at htoken
    rw [Server.state_post] at hpost
    refine .answered (hcalls htoken) hpost hrelays ?_ (status_of_relays hrelays).symm rfl
    rw [(hcalls htoken).completion?_eq hpost, isStream_of_relays hrelays, requestedModel]

theorem handle_handled (serde : SerdeJson) (server : Server) (request : Request) :
    Handled serde server request (handle serde server request) := by
  rw [handle, chatCompletions, chatExchange, Server.state_config]
  by_cases hauth : checkAuth server.config request.headers = true
  · rw [if_pos hauth]
    cases hchat : chat server.config.toConfig request.body with
    | answered response =>
      obtain ⟨message, rfl⟩ := answered_of_chat hchat
      exact .refused (by simp [completion?, hchat]) (by decide) List.nil_prefix
    | forwarded url sent streaming =>
      exact .of_forwarded hauth hchat (forward_forwarded serde _ url sent streaming _ _)
  · rw [if_neg hauth]
    exact .refused (by simp [completion?, hauth]) (by decide) List.nil_prefix

/-! ## Failures -/

section Failures

variable {serde : SerdeJson} {server : Server} {request : Request} {exchange : Exchange}

theorem Calls.unique {url token otherUrl otherToken : String} {sent otherSent : Value}
    {streaming otherStreaming : Bool} (h : Calls server request url token sent streaming)
    (other : Calls server request otherUrl otherToken otherSent otherStreaming) :
    url = otherUrl ∧ token = otherToken ∧ sent = otherSent ∧ streaming = otherStreaming := by
  have htoken := h.token_eq.symm.trans other.token_eq
  have hchat := h.chat_eq.symm.trans other.chat_eq
  obtain ⟨hurl, hsent, hstreaming⟩ := Protocols.ChatOutcome.forwarded.inj hchat
  exact ⟨hurl, Except.ok.inj htoken, hsent, hstreaming⟩

theorem Calls.not_answered {url token : String} {sent : Value} {streaming : Bool} {reply : Reply}
    (h : Calls server request url token sent streaming)
    (hnone : completion? serde server request = none) :
    request.post url token sent ≠ .ok reply :=
  fun hpost ↦ Option.some_ne_none _ ((h.completion?_eq hpost).symm.trans hnone)

theorem Handled.isSuccess_iff (h : Handled serde server request exchange) :
    isSuccess exchange.response.status = true ↔ ∃ url token sent streaming reply,
      Calls server request url token sent streaming ∧ request.post url token sent = .ok reply ∧
        isSuccess reply.status = true := by
  cases h with
  | refused hnone hstatus _ =>
    apply iff_of_false (Bool.not_eq_true _ ▸ hstatus)
    rintro ⟨url, token, sent, streaming, reply, hcalls, hpost, -⟩
    exact hcalls.not_answered hnone hpost
  | unanswered _ hnone =>
    apply iff_of_false (show ¬ isSuccess 502 = true by decide)
    rintro ⟨url, token, sent, streaming, reply, hcalls, hpost, -⟩
    exact hcalls.not_answered hnone hpost
  | answered hcalls hpost hrelays _ _ _ =>
    rw [isSuccess_of_relays hrelays]
    constructor
    · exact fun hsuccess ↦ ⟨_, _, _, _, _, hcalls, hpost, hsuccess⟩
    · rintro ⟨url, token, sent, streaming, reply, hother, hreplied, hsuccess⟩
      obtain ⟨rfl, rfl, rfl, rfl⟩ := hcalls.unique hother
      rwa [Except.ok.inj (hpost.symm.trans hreplied)]

theorem Handled.failure (h : Handled serde server request exchange)
    (hfailed : isSuccess exchange.response.status = false) :
    ∃ payload, exchange.response = jsonResponse exchange.response.status payload ∧
      ((∃ message, payload = errorJson message) ∨ ∃ url token sent streaming reply,
        Calls server request url token sent streaming ∧ request.post url token sent = .ok reply ∧
          serde.fromStr (reply.text.getD "") = some payload ∧
          exchange.response.status = (statusFromU16 reply.status).getD 502) := by
  cases h with
  | refused _ _ _ => exact ⟨_, rfl, Or.inl ⟨_, rfl⟩⟩
  | unanswered _ _ => exact ⟨_, rfl, Or.inl ⟨_, rfl⟩⟩
  | @answered response url token sent streaming reply event hcalls hpost hrelays _ _ _ =>
    have hsame := isSuccess_of_relays hrelays
    cases hrelays with
    | failed _ =>
      refine ⟨_, rfl, ?_⟩
      cases hparse : serde.fromStr (reply.text.getD "") with
      | none => exact Or.inl ⟨_, rfl⟩
      | some payload => exact Or.inr ⟨url, token, sent, streaming, reply, hcalls, hpost, hparse, rfl⟩
    | whole hsuccess _ _ => exact absurd hsuccess (Bool.not_eq_true _ ▸ hsame ▸ hfailed)
    | streamed hsuccess _ _ _ => exact absurd hsuccess (Bool.not_eq_true _ ▸ hsame ▸ hfailed)

theorem Handled.isStream_iff (h : Handled serde server request exchange) :
    exchange.response.body.isStream = true ↔ isSuccess exchange.response.status = true ∧
      ∃ url sent, chat server.config.toConfig request.body = .forwarded url sent true := by
  cases h with
  | refused _ hstatus _ =>
    exact iff_of_false Bool.false_ne_true fun h ↦ Bool.false_ne_true (hstatus.symm.trans h.1)
  | unanswered _ _ =>
    exact iff_of_false Bool.false_ne_true fun h ↦ absurd h.1 (show ¬ isSuccess 502 = true by decide)
  | answered hcalls _ hrelays _ _ _ =>
    rw [isSuccess_of_relays hrelays, isStream_of_relays hrelays, Bool.and_eq_true, and_comm]
    refine and_congr_right fun _ ↦ ⟨?_, ?_⟩
    · rintro rfl
      exact ⟨_, _, hcalls.chat_eq⟩
    · rintro ⟨url, sent, hchat⟩
      exact (Protocols.ChatOutcome.forwarded.inj (hcalls.chat_eq.symm.trans hchat)).2.2

end Failures

/-- **Failures are told as failures.** For every request, the client gets a success exactly when it
was let in and Vertex answered with one. Every other response is one JSON body, never a stream: what
Vertex said, under its status, or an error object. A stream is what a request for one gets when it
succeeds, and nothing else. -/
theorem handle_truthful (serde : SerdeJson) (server : Server) (request : Request) :
    (isSuccess (handle serde server request).response.status = true ↔
      ∃ url token sent streaming reply, Calls server request url token sent streaming ∧
        request.post url token sent = .ok reply ∧ isSuccess reply.status = true) ∧
      (isSuccess (handle serde server request).response.status = false →
        ∃ payload, (handle serde server request).response =
            jsonResponse (handle serde server request).response.status payload ∧
          ((∃ message, payload = errorJson message) ∨ ∃ url token sent streaming reply,
            Calls server request url token sent streaming ∧
              request.post url token sent = .ok reply ∧
              serde.fromStr (reply.text.getD "") = some payload ∧
              (handle serde server request).response.status =
                (statusFromU16 reply.status).getD 502)) ∧
      ((handle serde server request).response.body.isStream = true ↔
        isSuccess (handle serde server request).response.status = true ∧
          ∃ url sent, chat server.config.toConfig request.body = .forwarded url sent true) :=
  have hhandled := handle_handled serde server request
  ⟨hhandled.isSuccess_iff, hhandled.failure, hhandled.isStream_iff⟩

end VertexGateway.Routes
