import VertexGateway.Forward.StreamResponse

/-!
# Responses

What a client is answered: a status, headers and a body, which is one JSON value or a stream of
items. Whatever goes wrong before Vertex has answered is answered by `upstreamError`, from the
protocol that refuses a request as well as from the forwarding that fails.
-/

namespace VertexGateway.Forward

/-- The body of a response: one JSON value, or items relayed as they come. -/
inductive Body where
  | json (payload : Value)
  | stream (items : List Item)

def Body.isStream : Body → Bool
  | .json _ => false
  | .stream _ => true

structure Response where
  status : UInt16
  headers : List (String × String)
  body : Body

def jsonResponse (status : UInt16) (payload : Value) : Response :=
  ⟨status, [("content-type", "application/json")], .json payload⟩

/-- An error raised while calling Vertex, shaped like an OpenAI error object so clients can display
it. -/
def upstreamError (message : String) : Response :=
  jsonResponse 502 (errorJson message)

end VertexGateway.Forward
