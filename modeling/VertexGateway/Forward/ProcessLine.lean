import VertexGateway.Data.Transducer
import VertexGateway.Json.SerdeJson
import VertexGateway.Observe.CompletionEvent
import VertexGateway.Sse.LineAccumulator
import VertexGateway.Thought.ToolCallAccumulator

/-!
# Deciding what to do with one SSE line

`processLine` forwards a line, absorbs it as tool call fragments, or holds it back as the chunk
that ends the turn, and notes the usage it carries on the way. What it forwards does not depend on
what came before: `processLine_eq` separates the forwarded frame from the four updates of the
state, and `processLines_eq` carries the separation to a whole stream of lines.
-/

namespace VertexGateway.Forward

open Sse (dataPayload)
open Thought (ToolCallAccumulator)

/-- The variables of the streaming task that outlive a line. -/
structure StreamState where
  tools : ToolCallAccumulator
  usage : Option Usage
  /-- Held back so the consolidated tool calls can be emitted just before it. -/
  finishChunk : Option Value

def StreamState.new : StreamState := ⟨.new, none, none⟩

/-! ## Frames -/

def sseLine (serde : SerdeJson) (chunk : Value) : String :=
  "data: " ++ serde.display chunk ++ "\n\n"

def errorJson (message : String) : Value :=
  .obj [("error", .obj [("message", .string message)])]

def sseError (serde : SerdeJson) (message : String) : String :=
  sseLine serde (errorJson message)

/-! ## Reading a chunk -/

/-- The array of tool call fragments, when the delta has one. -/
def toolDeltas (chunk : Value) : Option (List Value) :=
  (chunk.pointer ["choices", "0", "delta", "tool_calls"]).bind Value.asArray

/-- A finish reason that is not null ends the turn. -/
def isTerminal (chunk : Value) : Bool :=
  (chunk.pointer ["choices", "0", "finish_reason"]).any fun reason ↦ !reason.isNull

/-- Remove only the `tool_calls` field; the same chunk may also carry text. -/
def removeToolCalls (chunk : Value) : Value :=
  chunk.modifyPointer ["choices", "0", "delta"] (·.onObject (·.remove "tool_calls"))

def deltaIsEmpty (chunk : Value) : Bool :=
  ((chunk.pointer ["choices", "0", "delta"]).bind Value.asObject).any (·.isEmpty)

/-! ## One line -/

/-- Hold the terminal chunk so consolidated tool calls can precede it. -/
def holdOrForward (serde : SerdeJson) (chunk : Value) (state : StreamState) :
    StreamState × Option String :=
  if isTerminal chunk then ({ state with finishChunk := some chunk }, none)
  else (state, some (sseLine serde chunk))

/-- Decide what to do with one SSE line: the frame to forward, or none when the line carries no
payload, was absorbed as fragments, or is held back. -/
def processLine (serde : SerdeJson) (line : String) (state : StreamState) :
    StreamState × Option String :=
  match dataPayload line with
  | none => (state, none)
  | some payload =>
    match serde.fromStr payload with
    -- Anything unparseable is forwarded untouched rather than dropped.
    | none => (state, some (line ++ "\n\n"))
    | some chunk =>
      let state :=
        match usageOf chunk with
        | some usage => { state with usage := some (parseUsage usage) }
        | none => state
      match toolDeltas chunk with
      | none => holdOrForward serde chunk state
      | some deltas =>
        let state := { state with tools := state.tools.absorb deltas }
        let chunk := removeToolCalls chunk
        if deltaIsEmpty chunk && !isTerminal chunk then (state, none)
        else holdOrForward serde chunk state

/-! ## What a line means on its own -/

section Lines

variable (serde : SerdeJson)

/-- The JSON chunk a line carries. -/
def lineChunk (line : String) : Option Value :=
  (dataPayload line).bind serde.fromStr

/-- The chunk without its array of tool call fragments. -/
def stripTools (chunk : Value) : Value :=
  if (toolDeltas chunk).isSome then removeToolCalls chunk else chunk

/-- Whether removing the fragments left nothing of the delta. -/
def isEmptied (chunk : Value) : Bool :=
  (toolDeltas chunk).isSome && deltaIsEmpty (removeToolCalls chunk)

/-- The frame a line is forwarded as. -/
def forwarded (line : String) : Option String :=
  match dataPayload line with
  | none => none
  | some payload =>
    match serde.fromStr payload with
    | none => some (line ++ "\n\n")
    | some chunk =>
      if isTerminal chunk || isEmptied chunk then none else some (sseLine serde (stripTools chunk))

/-- The terminal chunk a line carries, without its fragments. -/
def lineTerminal (line : String) : Option Value :=
  ((lineChunk serde line).filter isTerminal).map stripTools

def lineUsage (line : String) : Option Usage :=
  ((lineChunk serde line).bind usageOf).map parseUsage

def lineDeltas (line : String) : List Value :=
  ((lineChunk serde line).bind toolDeltas).getD []

end Lines

theorem forwarded_of_lineChunk {serde : SerdeJson} {line : String} {chunk : Value}
    (h : lineChunk serde line = some chunk) :
    forwarded serde line =
      if isTerminal chunk || isEmptied chunk then none
      else some (sseLine serde (stripTools chunk)) := by
  obtain ⟨payload, hpayload, hchunk⟩ := Option.bind_eq_some_iff.mp h
  simp only [forwarded, hpayload, hchunk]

/-! ## What removing the fragments leaves alone -/

theorem stripTools_of_none {chunk : Value} (h : toolDeltas chunk = none) :
    stripTools chunk = chunk := by
  simp [stripTools, h]

theorem stripTools_of_some {chunk : Value} {deltas : List Value}
    (h : toolDeltas chunk = some deltas) : stripTools chunk = removeToolCalls chunk := by
  simp [stripTools, h]

@[simp]
theorem isTerminal_removeToolCalls (chunk : Value) :
    isTerminal (removeToolCalls chunk) = isTerminal chunk := by
  have hreason : (removeToolCalls chunk).pointer ["choices", "0", "finish_reason"] =
      chunk.pointer ["choices", "0", "finish_reason"] :=
    Value.pointer_modifyPointer_of_ne chunk ["choices", "0"] (by decide) (by decide) [] [] _
  unfold isTerminal
  rw [hreason]

@[simp]
theorem isTerminal_stripTools (chunk : Value) :
    isTerminal (stripTools chunk) = isTerminal chunk := by
  unfold stripTools
  split
  · exact isTerminal_removeToolCalls chunk
  · rfl

/-- Members of the delta other than `tool_calls` stay. -/
theorem pointer_delta_stripTools (chunk : Value) {field : String} (h : field ≠ "tool_calls") :
    (stripTools chunk).pointer ["choices", "0", "delta", field] =
      chunk.pointer ["choices", "0", "delta", field] := by
  unfold stripTools
  split
  · have hread := Value.pointer_modifyPointer_append chunk ["choices", "0", "delta"] [field]
      (·.onObject (·.remove "tool_calls"))
    have hsplit := chunk.pointer_append ["choices", "0", "delta"] [field]
    simp only [List.cons_append, List.nil_append] at hread hsplit
    unfold removeToolCalls
    rw [hread, hsplit]
    apply Option.bind_congr
    intro delta _
    rw [Value.pointer_cons, Value.step_onObject_remove_of_ne delta h, ← Value.pointer_cons]
  · rfl

@[simp]
theorem toolDeltas_removeToolCalls (chunk : Value) : toolDeltas (removeToolCalls chunk) = none := by
  have hread := Value.pointer_modifyPointer_append chunk ["choices", "0", "delta"] ["tool_calls"]
    (·.onObject (·.remove "tool_calls"))
  simp only [List.cons_append, List.nil_append] at hread
  unfold toolDeltas removeToolCalls
  rw [hread]
  cases chunk.pointer ["choices", "0", "delta"] with
  | none => rfl
  | some delta =>
    rw [Option.bind_some, Value.pointer_cons, Value.step_onObject_remove_self delta (by decide)]
    rfl

@[simp]
theorem toolDeltas_stripTools (chunk : Value) : toolDeltas (stripTools chunk) = none := by
  cases hdeltas : toolDeltas chunk with
  | none => rw [stripTools_of_none hdeltas, hdeltas]
  | some deltas => rw [stripTools_of_some hdeltas, toolDeltas_removeToolCalls]

/-- Top-level members beside `choices` stay. -/
theorem get?_stripTools (chunk : Value) {key : String} (hkey : key ≠ "choices")
    (hindex : Value.parseIndex key = none) : (stripTools chunk).get? key = chunk.get? key := by
  unfold stripTools
  split
  · rw [← Value.step_eq_get? _ hindex, ← Value.step_eq_get? _ hindex, removeToolCalls,
      Value.modifyPointer, Value.step_modifyStep_of_ne chunk hkey (by decide)]
  · rfl

/-- A terminal chunk is an object, so assigning members of it cannot fail. -/
theorem exists_object_of_isTerminal {chunk : Value} (h : isTerminal chunk = true) :
    ∃ map, chunk = .object map := by
  cases hchoices : chunk.step "choices" with
  | none => simp [isTerminal, hchoices] at h
  | some choices => exact Value.exists_object_of_step (by decide) hchoices

/-! ## The effect of one line -/

/-- The frame depends on the line alone, and each part of the state is updated on its own. -/
theorem processLine_eq (serde : SerdeJson) (line : String) (state : StreamState) :
    processLine serde line state =
      ({ tools := state.tools.absorb (lineDeltas serde line)
         usage := (lineUsage serde line).or state.usage
         finishChunk := (lineTerminal serde line).or state.finishChunk },
        forwarded serde line) := by
  unfold processLine forwarded lineDeltas lineUsage lineTerminal lineChunk
  cases dataPayload line with
  | none => rfl
  | some payload =>
    simp only [Option.bind_some]
    cases serde.fromStr payload with
    | none => rfl
    | some chunk =>
      have husage : (match usageOf chunk with
          | some usage => { state with usage := some (parseUsage usage) }
          | none => state) =
            { state with usage := ((usageOf chunk).map parseUsage).or state.usage } := by
        cases usageOf chunk <;> rfl
      simp only [husage, Option.bind_some]
      cases hdeltas : toolDeltas chunk with
      | none =>
        cases hterminal : isTerminal chunk <;>
          simp [holdOrForward, isEmptied, stripTools_of_none, hdeltas, hterminal, Option.filter,
            ToolCallAccumulator.absorb]
      | some deltas =>
        cases hterminal : isTerminal chunk <;> cases hempty : deltaIsEmpty (removeToolCalls chunk) <;>
          simp [holdOrForward, isEmptied, stripTools_of_some hdeltas, hdeltas, hterminal, hempty,
            Option.filter]

/-! ## A stream of lines -/

def processLines (serde : SerdeJson) : List String → StreamState → StreamState × List String :=
  Transducer.run (processLine serde)

theorem foldl_update (serde : SerdeJson) (lines : List String) (state : StreamState) :
    lines.foldl (fun (state : StreamState) line ↦
        { tools := state.tools.absorb (lineDeltas serde line)
          usage := (lineUsage serde line).or state.usage
          finishChunk := (lineTerminal serde line).or state.finishChunk }) state =
      { tools := state.tools.absorb (lines.flatMap (lineDeltas serde))
        usage := ((lines.filterMap (lineUsage serde)).getLast?).or state.usage
        finishChunk := ((lines.filterMap (lineTerminal serde)).getLast?).or state.finishChunk } := by
  rw [← Transducer.foldl_or, ← Transducer.foldl_or, List.flatMap_def,
    ← ToolCallAccumulator.foldl_absorb, List.foldl_map]
  induction lines generalizing state with
  | nil => rfl
  | cons line lines ih => simp only [List.foldl_cons, ih]

/-- A run forwards the frames of its lines, absorbs all fragments in order and keeps the last
usage and the last terminal chunk. -/
theorem processLines_eq (serde : SerdeJson) (lines : List String) :
    processLines serde lines .new =
      ({ tools := ToolCallAccumulator.new.absorb (lines.flatMap (lineDeltas serde))
         usage := (lines.filterMap (lineUsage serde)).getLast?
         finishChunk := (lines.filterMap (lineTerminal serde)).getLast? },
        lines.filterMap (forwarded serde)) := by
  unfold processLines
  rw [Transducer.run_eq_of_separable (processLine_eq serde), foldl_update]
  simp only [StreamState.new, Option.or_none]

end VertexGateway.Forward
