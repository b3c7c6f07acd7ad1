import VertexGateway.Json.Value

/-!
# Token usage and completion events

Token counts as Vertex reports them and the event an observer is told once per completion. The
counts are parsed from the `usage` object of a chunk and written back as one by the stream's
ending, so `parseUsage_usageJson` is what makes the two readings of one usage agree.
-/

namespace VertexGateway

/-- Token counts as reported by Vertex. -/
structure Usage where
  promptTokens : UInt64
  completionTokens : UInt64
  /-- Spent on internal reasoning: billed, but never shown to the user. -/
  reasoningTokens : UInt64
  deriving DecidableEq

/-- What happened during one completion; the duration is in nanoseconds. -/
structure CompletionEvent where
  model : String
  status : UInt16
  streamed : Bool
  duration : ℕ
  /-- None when the token counts are unknown, deliberately not defaulted to zero. -/
  usage : Option Usage
  deriving DecidableEq

/-- Parse the `usage` object from a Vertex response. Reasoning tokens live in a nested object
rather than at the top level. -/
def parseUsage (usage : FiniteMap String Value) : Usage :=
  let num (value : Option Value) : UInt64 := (value.bind Value.asU64).getD 0
  { promptTokens := num (usage.get? "prompt_tokens")
    completionTokens := num (usage.get? "completion_tokens")
    reasoningTokens := num ((usage.get? "completion_tokens_details").bind
      (·.get? "reasoning_tokens")) }

/-- Pull `usage` out of a chunk, if this is the one carrying it. -/
def usageOf (chunk : Value) : Option (FiniteMap String Value) :=
  (chunk.get? "usage").bind Value.asObject

/-- The `usage` object rebuilt from the counts. -/
def usageJson (usage : Usage) : FiniteMap String Value :=
  FiniteMap.ofList
    [("prompt_tokens", .number (.posInt usage.promptTokens)),
      ("completion_tokens", .number (.posInt usage.completionTokens)),
      ("completion_tokens_details",
        .obj [("reasoning_tokens", .number (.posInt usage.reasoningTokens))])]

theorem parseUsage_usageJson (usage : Usage) : parseUsage (usageJson usage) = usage := rfl

end VertexGateway
