import VertexGateway.Forward.StreamResponse
import VertexGateway.Protocols.OpenAi

/-!
# Shared state

What every request is handled with: the configuration, the source of access tokens, the HTTP client
and, perhaps, an observer. Google's side enters through the token source and the client, which are
parameters: a token or an error text, and for each call an answer or an error text.
-/

namespace VertexGateway.State

open Forward (Part)
open Protocols (Config)

/-- The configuration with the shared secret clients must present. An empty key disables the
check. -/
structure GatewayConfig extends Config where
  gatewayKey : String

/-- An answer of Vertex: the status and the body, as `text` reads it whole, which may fail, and as
`bytes_stream` reads it part by part. -/
structure Reply where
  status : UInt16
  text : Option String
  parts : List Part

structure AppState where
  config : GatewayConfig
  token : Except String String
  /-- The answer to a body posted to a URL with a bearer token. Redirects that the HTTP client
  follows on the way are not seen. -/
  post : String → String → Value → Except String Reply
  observed : Bool

/-- What a request makes the gateway do besides answering it. -/
inductive Effect where
  | tokenRequested
  | posted (url token : String) (body : Value)
  | notified (event : CompletionEvent)

/-- The event an observer is told. -/
def Effect.event? : Effect → Option CompletionEvent
  | .notified event => some event
  | _ => none

namespace AppState

/-- Hand an event to the observer, if one is attached. -/
def notify (st : AppState) (event : CompletionEvent) : List Effect :=
  if st.observed then [.notified event] else []

theorem notify_eq_map (st : AppState) (event : CompletionEvent) :
    st.notify event = (if st.observed then [event] else []).map Effect.notified := by
  unfold notify
  split <;> rfl

theorem filterMap_notify (st : AppState) (event : CompletionEvent) :
    (st.notify event).filterMap Effect.event? = if st.observed then [event] else [] := by
  unfold notify
  split <;> rfl

end AppState

end VertexGateway.State
