import VertexGateway.Forward.Forward

/-!
# Authentication

The gateway key is the only secret of the gateway's own. A client presents it as a bearer token,
and a header value is compared with it only if it is text that may stand in a header at all: with a
key that may not, nobody gets in.
-/

namespace VertexGateway.Routes

open Forward (Response errorJson jsonResponse)
open State (GatewayConfig)
open Utf8 (bytes fromUtf8 fromUtf8_eq_some_iff)

/-! ## Header values -/

/-- The headers of a request in order of arrival, with their names in lower case. A name may be
repeated. -/
structure HeaderMap where
  entries : List (String × List UInt8)

/-- The first value under a name. -/
def HeaderMap.get (headers : HeaderMap) (name : String) : Option (List UInt8) :=
  (headers.entries.find? fun entry ↦ entry.1 = name).map Prod.snd

def isVisibleAscii (byte : UInt8) : Bool :=
  (0x20 ≤ byte && byte < 0x7F) || byte = 0x09

/-- A header value as text, if it is visible ASCII. -/
def toStr (value : List UInt8) : Option String :=
  if value.all isVisibleAscii then fromUtf8 value else none

theorem toStr_eq_some_iff (value : List UInt8) (text : String) :
    toStr value = some text ↔ value = bytes text ∧ ∀ byte ∈ value, isVisibleAscii byte = true := by
  rw [toStr, ← List.all_eq_true]
  split
  · next hvisible => rw [fromUtf8_eq_some_iff, and_iff_left hvisible]
  · next hvisible =>
    exact iff_of_false (Option.some_ne_none text).symm fun h ↦ hvisible h.2

/-! ## The check -/

/-- The answer to a caller without the gateway key. -/
def unauthorized : Response :=
  jsonResponse 401 (errorJson "Invalid gateway API key")

/-- Check the caller's bearer token against the configured gateway key. -/
def checkAuth (config : GatewayConfig) (headers : HeaderMap) : Bool :=
  let expected := config.gatewayKey
  if expected.isEmpty then true
  else (((headers.get "authorization").bind toStr).bind (Sse.stripPrefix · "Bearer ")).any
    (· == expected)

/-- What the check is for: there is no key, or the first authorization header is exactly the key's
bearer token, and that is text which may stand in a header. -/
def Admitted (config : GatewayConfig) (headers : HeaderMap) : Prop :=
  config.gatewayKey = "" ∨
    headers.get "authorization" = some (bytes ("Bearer " ++ config.gatewayKey)) ∧
      ∀ byte ∈ bytes ("Bearer " ++ config.gatewayKey), isVisibleAscii byte = true

theorem checkAuth_eq_true_iff (config : GatewayConfig) (headers : HeaderMap) :
    checkAuth config headers = true ↔ Admitted config headers := by
  unfold checkAuth Admitted
  by_cases hkey : config.gatewayKey = ""
  · simp [hkey]
  · have hnonempty : config.gatewayKey.isEmpty = false := by simpa using hkey
    simp only [hnonempty, hkey, Bool.false_eq_true, if_false, false_or, Option.any_eq_true,
      Option.bind_eq_some_iff, beq_iff_eq, toStr_eq_some_iff, Sse.stripPrefix_eq_some_iff]
    constructor
    · rintro ⟨key, ⟨text, ⟨value, hvalue, rfl, hvisible⟩, rfl⟩, rfl⟩
      exact ⟨hvalue, hvisible⟩
    · rintro ⟨hvalue, hvisible⟩
      exact ⟨_, ⟨_, ⟨_, hvalue, rfl, hvisible⟩, rfl⟩, rfl⟩

end VertexGateway.Routes
