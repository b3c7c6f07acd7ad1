import VertexGateway.Forward.Frame

/-!
# What the ending carries

The chunks the task itself puts together at the end: the consolidated tool calls, which never end
the turn, and the terminal chunk, which always does, whether it was held back or synthesized.
-/

namespace VertexGateway.Forward

/-- The text of the delta. -/
def contentOf (chunk : Value) : String :=
  ((chunk.pointer ["choices", "0", "delta", "content"]).bind Value.asStr).getD ""

theorem isTerminal_errorJson (message : String) : isTerminal (errorJson message) = false := rfl

theorem toolDeltas_errorJson (message : String) : toolDeltas (errorJson message) = none := rfl

/-! ## The terminal chunk -/

theorem isTerminal_synthesizedChunk (model : String) (hadToolCalls : Bool) :
    isTerminal (synthesizedChunk model hadToolCalls) = true := rfl

/-- Attaching usage changes nothing below `choices`. -/
theorem pointer_choices_attachUsage (usage : Option Usage) (chunk : Value) (path : List String) :
    (attachUsage usage chunk).pointer ("choices" :: path) = chunk.pointer ("choices" :: path) := by
  cases usage with
  | none => rfl
  | some usage =>
    rw [attachUsage]
    split
    · rw [Value.pointer_cons, Value.step_assign_of_ne _ _ (by decide), Value.pointer_cons]
    · rfl

theorem isTerminal_attachUsage (usage : Option Usage) (chunk : Value) :
    isTerminal (attachUsage usage chunk) = isTerminal chunk := by
  unfold isTerminal
  rw [pointer_choices_attachUsage]

theorem isTerminal_of_lineTerminal {serde : SerdeJson} {line : String} {chunk : Value}
    (h : lineTerminal serde line = some chunk) : isTerminal chunk = true := by
  obtain ⟨original, horiginal, rfl⟩ := Option.map_eq_some_iff.mp h
  rw [isTerminal_stripTools]
  exact (Option.filter_eq_some_iff.mp horiginal).2

/-- Every chunk held back ends the turn. -/
theorem isTerminal_of_finishChunk {serde : SerdeJson} {lines : List String} {chunk : Value}
    (h : (processLines serde lines .new).1.finishChunk = some chunk) : isTerminal chunk = true := by
  rw [processLines_eq] at h
  obtain ⟨line, -, hline⟩ := List.mem_filterMap.mp (List.mem_of_getLast? h)
  exact isTerminal_of_lineTerminal hline

theorem isTerminal_terminalChunk (serde : SerdeJson) (model : String) (lines : List String) :
    isTerminal (terminalChunk model (processLines serde lines .new).1) = true := by
  unfold terminalChunk
  rw [isTerminal_attachUsage]
  cases hheld : (processLines serde lines .new).1.finishChunk with
  | none => exact isTerminal_synthesizedChunk _ _
  | some held => exact isTerminal_of_finishChunk hheld

/-! ## The consolidated tool calls -/

/-- The chunk the tool calls take their metadata from is an object, so nothing panics. -/
theorem exists_object_reference (serde : SerdeJson) (lines : List String) :
    ∃ map, (processLines serde lines .new).1.finishChunk.getD (.obj []) = .object map := by
  cases hheld : (processLines serde lines .new).1.finishChunk with
  | none => exact ⟨_, rfl⟩
  | some held => exact exists_object_of_isTerminal (isTerminal_of_finishChunk hheld)

theorem pointer_toolCallsJson (map : FiniteMap String Value) (calls : List Value)
    (path : List String) :
    (toolCallsJson (.object map) calls).pointer ("choices" :: path) =
      (Value.array [.obj
        [("index", .number (.posInt 0)),
          ("delta", .obj [("role", .string "assistant"), ("tool_calls", .array calls)]),
          ("finish_reason", .null)]]).pointer path := by
  unfold toolCallsJson
  rw [Value.pointer_cons, Value.step_onObject_remove_of_ne _ (by decide), Value.assign,
    Value.step_object, FiniteMap.get?_insert_self, Option.bind_some]

theorem toolDeltas_toolCallsJson (map : FiniteMap String Value) (calls : List Value) :
    toolDeltas (toolCallsJson (.object map) calls) = some calls := by
  unfold toolDeltas
  rw [pointer_toolCallsJson]
  rfl

theorem isTerminal_toolCallsJson (map : FiniteMap String Value) (calls : List Value) :
    isTerminal (toolCallsJson (.object map) calls) = false := by
  unfold isTerminal
  rw [pointer_toolCallsJson]
  rfl

theorem contentOf_toolCallsJson (map : FiniteMap String Value) (calls : List Value) :
    contentOf (toolCallsJson (.object map) calls) = "" := by
  unfold contentOf
  rw [pointer_toolCallsJson]
  rfl

end VertexGateway.Forward
