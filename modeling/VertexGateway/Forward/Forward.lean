import VertexGateway.Forward.Backpressure
import VertexGateway.Forward.Response
import VertexGateway.State.AppState

/-!
# The forwarding core

`forward` attaches a token, makes the call, decides between an answer read whole and an open
stream, and relays the body. The decision falls before any byte is sent: a status that is no
success is answered whole even where a stream was asked for.
-/

namespace VertexGateway.Forward

open State (AppState Effect)
open Thought (packResponse)

/-- A response with what was done for it, in order. -/
structure Exchange where
  response : Response
  effects : List Effect

/-- The codes that `StatusCode` can hold. -/
def statusFromU16 (code : UInt16) : Option UInt16 :=
  if 100 ≤ code ∧ code < 1000 then some code else none

def isSuccess (status : UInt16) : Bool :=
  200 ≤ status && status < 300

/-- Send `body` to `url` on Vertex and relay the response back to the client. -/
def forward (serde : SerdeJson) (st : AppState) (url : String) (body : Value) (streaming : Bool)
    (duration : ℕ) (room : Option ℕ) : Exchange :=
  let model := ((body.get? "model").bind Value.asStr).getD ""
  match st.token with
  | .error e => ⟨upstreamError e, [.tokenRequested]⟩
  | .ok token =>
    let sent : List Effect := [.tokenRequested, .posted url token body]
    match st.post url token body with
    | .error e => ⟨upstreamError ("request to Vertex failed: " ++ e), sent⟩
    | .ok reply =>
      let status := (statusFromU16 reply.status).getD 502
      -- On failure the whole body is read and returned as JSON, also when a stream was asked for.
      if !streaming || !isSuccess status then
        let text := reply.text.getD ""
        let payload := (serde.fromStr text).getD (errorJson text)
        let usage := (usageOf payload).map parseUsage
        let payload := if isSuccess status then packResponse payload else payload
        ⟨jsonResponse status payload,
          sent ++ st.notify { model, status, streamed := false, duration, usage }⟩
      else
        let (items, event) := streamResponse serde model status duration room reply.parts
        ⟨⟨status, [("content-type", "text/event-stream"), ("cache-control", "no-cache")],
            .stream items⟩,
          sent ++ st.notify event⟩

/-- A successful status is one that `StatusCode` holds. -/
theorem statusFromU16_of_isSuccess {status : UInt16} (h : isSuccess status = true) :
    statusFromU16 status = some status := by
  unfold isSuccess at h
  simp only [Bool.and_eq_true, decide_eq_true_eq, UInt16.le_iff_toNat_le,
    UInt16.lt_iff_toNat_lt] at h
  have hrange : 100 ≤ status ∧ status < 1000 := by
    simp only [UInt16.le_iff_toNat_le, UInt16.lt_iff_toNat_lt]
    exact ⟨le_trans (by decide) h.1, lt_trans h.2 (by decide)⟩
  rw [statusFromU16, if_pos hrange]

/-- A status that `StatusCode` does not hold is answered as a bad gateway, which is no success. -/
theorem isSuccess_statusFromU16 (status : UInt16) :
    isSuccess ((statusFromU16 status).getD 502) = isSuccess status := by
  by_cases h : isSuccess status = true
  · rw [statusFromU16_of_isSuccess h, Option.getD_some]
  · rw [statusFromU16]
    split
    · rfl
    · rw [Bool.eq_false_of_not_eq_true h]
      decide

/-- How an answer of Vertex reaches the client: a failure whole and unpacked, a success whole and
packed or as a stream. -/
inductive Relays (serde : SerdeJson) (reply : State.Reply) (streaming : Bool) : Response → Prop where
  | failed (hfailed : isSuccess reply.status = false) :
      Relays serde reply streaming (jsonResponse ((statusFromU16 reply.status).getD 502)
        ((serde.fromStr (reply.text.getD "")).getD (errorJson (reply.text.getD ""))))
  | whole (hsuccess : isSuccess reply.status = true) (hstreaming : streaming = false)
      (payload : Value) : Relays serde reply streaming (jsonResponse reply.status payload)
  | streamed (hsuccess : isSuccess reply.status = true) (hstreaming : streaming = true)
      (headers : List (String × String)) (items : List Item) :
      Relays serde reply streaming ⟨reply.status, headers, .stream items⟩

/-- What the observer is told of an answer. The usage is that of the whole body, or the last one in
the lines of the stream up to the first frame that the client did not stay for. -/
def answerEvent (serde : SerdeJson) (reply : State.Reply) (model : String) (streamed : Bool)
    (duration : ℕ) (room : Option ℕ) : CompletionEvent where
  model
  status := (statusFromU16 reply.status).getD 502
  streamed
  duration
  usage :=
    if streamed then
      ((linesSeen serde room (receive reply.parts .new).lines).filterMap (lineUsage serde)).getLast?
    else
      (usageOf ((serde.fromStr (reply.text.getD "")).getD
        (errorJson (reply.text.getD "")))).map parseUsage

/-- The ways a call can end: without a token, without an answer, and with an answer that is relayed
and told. -/
inductive Forwarded (serde : SerdeJson) (st : AppState) (url : String) (body : Value)
    (streaming : Bool) (duration : ℕ) (room : Option ℕ) : Exchange → Prop where
  | tokenless {e : String} (htoken : st.token = .error e) :
      Forwarded serde st url body streaming duration room ⟨upstreamError e, [.tokenRequested]⟩
  | unanswered {token e : String} (htoken : st.token = .ok token)
      (hpost : st.post url token body = .error e) :
      Forwarded serde st url body streaming duration room
        ⟨upstreamError ("request to Vertex failed: " ++ e),
          [.tokenRequested, .posted url token body]⟩
  | answered {token : String} {reply : State.Reply} {response : Response} (htoken : st.token = .ok token)
      (hpost : st.post url token body = .ok reply) (hrelays : Relays serde reply streaming response) :
      Forwarded serde st url body streaming duration room ⟨response,
        [.tokenRequested, .posted url token body] ++ st.notify (answerEvent serde reply
          (((body.get? "model").bind Value.asStr).getD "") response.body.isStream duration room)⟩

theorem forward_forwarded (serde : SerdeJson) (st : AppState) (url : String) (body : Value)
    (streaming : Bool) (duration : ℕ) (room : Option ℕ) :
    Forwarded serde st url body streaming duration room
      (forward serde st url body streaming duration room) := by
  unfold forward
  cases htoken : st.token with
  | error e => exact .tokenless htoken
  | ok token =>
    cases hpost : st.post url token body with
    | error e => simpa [hpost] using Forwarded.unanswered htoken hpost
    | ok reply =>
      simp only [hpost]
      have hsame := isSuccess_statusFromU16 reply.status
      split
      · next hwhole =>
        refine .answered htoken hpost ?_
        by_cases hsuccess : isSuccess reply.status = true
        · rw [statusFromU16_of_isSuccess hsuccess]
          simp only [hsame, hsuccess, Bool.not_true, Bool.or_false, Bool.not_eq_true'] at hwhole
          exact .whole hsuccess hwhole _
        · rw [if_neg (hsame ▸ hsuccess)]
          exact .failed (Bool.eq_false_of_not_eq_true hsuccess)
      · next hstream =>
        simp only [hsame, Bool.or_eq_true, Bool.not_eq_true', not_or, Bool.not_eq_false] at hstream
        rw [streamResponse_event]
        refine .answered htoken hpost ?_
        rw [statusFromU16_of_isSuccess hstream.2]
        exact .streamed hstream.2 hstream.1 _ _

section Answered

variable {serde : SerdeJson} {st : AppState} {url token : String} {body : Value} {reply : State.Reply}

/-- An answer read whole. -/
theorem forward_whole (duration : ℕ) (room : Option ℕ) (htoken : st.token = .ok token)
    (hpost : st.post url token body = .ok reply) (hsuccess : isSuccess reply.status = true)
    {text : String} (htext : reply.text = some text) {payload : Value}
    (hpayload : serde.fromStr text = some payload) :
    forward serde st url body false duration room =
      ⟨jsonResponse reply.status (packResponse payload),
        [.tokenRequested, .posted url token body] ++ st.notify
          { model := ((body.get? "model").bind Value.asStr).getD "", status := reply.status
            streamed := false, duration, usage := (usageOf payload).map parseUsage }⟩ := by
  simp [forward, htoken, hpost, statusFromU16_of_isSuccess hsuccess, hsuccess, htext, hpayload]

/-- An open stream. -/
theorem forward_stream (duration : ℕ) (room : Option ℕ) (htoken : st.token = .ok token)
    (hpost : st.post url token body = .ok reply) (hsuccess : isSuccess reply.status = true) :
    forward serde st url body true duration room =
      let relayed := streamResponse serde (((body.get? "model").bind Value.asStr).getD "")
        reply.status duration room reply.parts
      ⟨⟨reply.status, [("content-type", "text/event-stream"), ("cache-control", "no-cache")],
          .stream relayed.1⟩,
        [.tokenRequested, .posted url token body] ++ st.notify relayed.2⟩ := by
  simp [forward, htoken, hpost, statusFromU16_of_isSuccess hsuccess, hsuccess]

end Answered

end VertexGateway.Forward
