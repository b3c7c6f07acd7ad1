import VertexGateway.Forward.Ending
import VertexGateway.Forward.Upstream

/-!
# The shape of a completed stream

A stream that ends cleanly is relayed as the frames of its lines, at most one chunk with the
consolidated tool calls, exactly one terminal chunk and the terminator, in this order. Which lines
are forwarded, and as what, is `forwarded`; everything else is determined by the deltas, the last
usage and the last terminal chunk of the upstream.
-/

namespace VertexGateway.Forward

open Thought (ToolCallAccumulator assemble deltaIndex packToolCall)

/-- The chunk that stands for all deltas: one call for each distinct index, in strictly ascending
order, each the packed assembly of the deltas of its index. -/
structure ConsolidatesTools (deltas : List Value) (chunk : Value) : Prop where
  not_terminal : isTerminal chunk = false
  calls : ∃ entries : List (UInt64 × Value),
    toolDeltas chunk = some (entries.map fun entry ↦ packToolCall entry.2) ∧
      entries.Pairwise (fun left right ↦ left.1 < right.1) ∧
      (∀ index, index ∈ entries.map Prod.fst ↔ ∃ delta ∈ deltas, deltaIndex delta = index) ∧
      ∀ index call, (index, call) ∈ entries ↔
        assemble (deltas.filter fun delta ↦ deltaIndex delta = index) = some call

/-- The items sent for the lines of a completed stream, with the consolidated tool calls and the
terminal chunk named. -/
structure CompletedShape (serde : SerdeJson) (model : String) (lines : List String)
    (tools : List Value) (terminal : Value) (items : List Item) : Prop where
  items_eq : items = (lines.filterMap (forwarded serde) ++ tools.map (sseLine serde) ++
    [sseLine serde terminal] ++ [doneFrame]).map .ok
  forwarded_not_terminal : ∀ frame ∈ lines.filterMap (forwarded serde), ∀ chunk,
    frameChunk serde frame = some chunk → isTerminal chunk = false ∧ toolDeltas chunk = none
  no_tools : lines.flatMap (lineDeltas serde) = [] → tools = []
  one_tools : lines.flatMap (lineDeltas serde) ≠ [] →
    ∃ chunk, tools = [chunk] ∧ ConsolidatesTools (lines.flatMap (lineDeltas serde)) chunk
  terminal_ends : isTerminal terminal = true
  terminal_eq : terminal = attachUsage (lines.filterMap (lineUsage serde)).getLast?
    ((lines.filterMap (lineTerminal serde)).getLast?.getD
      (synthesizedChunk model !(lines.flatMap (lineDeltas serde)).isEmpty))

theorem consolidatesTools (map : FiniteMap String Value) (deltas : List Value) :
    ConsolidatesTools deltas
      (toolCallsJson (.object map) (ToolCallAccumulator.new.absorb deltas).finish) := by
  obtain ⟨entries, hfinish, hsorted, hkeys, hcalls⟩ := ToolCallAccumulator.finish_absorb_new deltas
  refine ⟨isTerminal_toolCallsJson map _, entries, ?_, hsorted, hkeys, hcalls⟩
  rw [toolDeltas_toolCallsJson, hfinish]

/-- **The shape of a completed stream.** However its bytes are cut into chunks, a stream that ends
cleanly is relayed as the frames of its lines, the consolidated tool calls, the terminal chunk and
the terminator. -/
theorem streamResponse_completedShape (serde : SerdeJson) (model : String) (status : UInt16)
    (duration : ℕ) (chunks : List (List UInt8)) (hcompleted : Completed chunks)
    (hserde : Legible serde Value.eraseDoubles
      (streamResponse serde model status duration none (chunks.map .ok)).1) :
    ∃ tools terminal, CompletedShape serde model (Sse.referenceLines chunks.flatten) tools terminal
      (streamResponse serde model status duration none (chunks.map .ok)).1 := by
  have hsent := hcompleted.sent_iff serde model status duration
  rw [hcompleted.streamResponse_eq]
  let lines := Sse.referenceLines chunks.flatten
  let state := (processLines serde lines .new).1
  obtain ⟨map, hreference⟩ := exists_object_reference serde lines
  have htools : state.tools = ToolCallAccumulator.new.absorb (lines.flatMap (lineDeltas serde)) := by
    simp only [state, processLines_eq]
  have hempty : state.tools.isEmpty = (lines.flatMap (lineDeltas serde)).isEmpty := by
    rw [htools, ToolCallAccumulator.isEmpty_absorb_new]
  refine ⟨if state.tools.isEmpty then [] else [toolCallsJson (.object map) state.tools.finish],
    terminalChunk model state, ?_, ?_, ?_, ?_, ?_, ?_⟩
  · have hframes : toolFrames serde state =
        (if state.tools.isEmpty then [] else [toolCallsJson (.object map) state.tools.finish]).map
          (sseLine serde) := by
      rw [toolFrames, toolCallsChunk, hreference]
      split <;> rfl
    simp only [hframes.symm, lines, state, List.append_assoc, List.cons_append, List.nil_append]
  · intro frame hframe chunk hchunk
    obtain ⟨line, -, hline⟩ := List.mem_filterMap.mp hframe
    exact hserde.of_forwarded hline ((hsent frame).mpr (Or.inl hframe)) hchunk
  · intro hdeltas
    rw [if_pos (by rw [hempty, List.isEmpty_iff, hdeltas])]
  · intro hdeltas
    rw [if_neg (by rwa [hempty, List.isEmpty_iff]), htools]
    exact ⟨_, rfl, consolidatesTools map _⟩
  · exact isTerminal_terminalChunk serde model lines
  · rw [terminalChunk, hempty]
    simp only [state, lines, processLines_eq]

/-- Text, a tool call fragment beside more text, and a usage chunk after the terminal one, cut in
the middle of the first line. -/
def mixedChunks : List (List UInt8) :=
  let choice (members : List (String × Value)) : Value := .obj [("choices", .array [.obj members])]
  let text : List UInt8 := Utf8.bytes
    (sseLine .compact (choice [("delta", .obj [("content", .string "a")])]) ++
      sseLine .compact (choice [("delta", .obj [("content", .string "b"),
        ("tool_calls", .array [.obj [("id", .string "call_1")]])])]) ++
      sseLine .compact (choice [("delta", .obj []), ("finish_reason", .string "tool_calls")]) ++
      sseLine .compact (.obj [("choices", .array []),
        ("usage", .obj [("prompt_tokens", .number (.posInt 8))])]))
  [text.take 9, text.drop 9]

theorem streamResponse_completedShape_mixed :
    ∃ tools terminal,
      CompletedShape .compact "gemini" (Sse.referenceLines mixedChunks.flatten) tools terminal
        (streamResponse .compact "gemini" 200 0 none (mixedChunks.map .ok)).1 :=
  streamResponse_completedShape .compact "gemini" 200 0 mixedChunks (by decide +kernel)
    (legible_compact _ _)

end VertexGateway.Forward
