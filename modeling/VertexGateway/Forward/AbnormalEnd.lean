import VertexGateway.Forward.Ending
import VertexGateway.Forward.Upstream

/-!
# Streams that end abnormally

A client must not be handed a possibly incomplete tool call, nor an end of turn, for a turn that
failed. The task withholds both when a fragment is left over in its line accumulator. A transport
error that strikes on a line boundary leaves none: the task then reports the error and still sends
what it has accumulated and a terminal chunk.
-/

namespace VertexGateway.Forward

/-- After the frames of the complete lines the client is sent error frames and the error that
breaks the body off, and nowhere a consolidated tool call or the end of a turn. -/
structure ReportsFailure (serde : SerdeJson) (lines : List String) (items : List Item) : Prop where
  shape : ∃ messages : List String, items = (lines.filterMap (forwarded serde)).map .ok ++
    messages.map (fun message ↦ .ok (sseError serde message)) ++ [.error endError]
  not_terminal : ∀ frame chunk, .ok frame ∈ items → frameChunk serde frame = some chunk →
    isTerminal chunk = false
  no_toolDeltas : ∀ frame chunk, .ok frame ∈ items → frameChunk serde frame = some chunk →
    toolDeltas chunk = none

variable {serde : SerdeJson}

theorem reportsFailure_of_shape {lines : List String} {items : List Item}
    (hserde : Legible serde Value.eraseDoubles items) (messages : List String)
    (h : items = (lines.filterMap (forwarded serde)).map .ok ++
      messages.map (fun message ↦ .ok (sseError serde message)) ++ [.error endError]) :
    ReportsFailure serde lines items := by
  have hread : ∀ frame chunk, .ok frame ∈ items → frameChunk serde frame = some chunk →
      isTerminal chunk = false ∧ toolDeltas chunk = none := by
    intro frame chunk hsent hchunk
    have hframe := hsent
    rw [h] at hframe
    rcases List.mem_append.mp hframe with hframe | hframe
    · rcases List.mem_append.mp hframe with hframe | hframe
      · obtain ⟨_, hmem, heq⟩ := List.mem_map.mp hframe
        obtain rfl := Except.ok.inj heq
        obtain ⟨line, -, hline⟩ := List.mem_filterMap.mp hmem
        exact hserde.of_forwarded hline hsent hchunk
      · obtain ⟨message, -, heq⟩ := List.mem_map.mp hframe
        obtain rfl := Except.ok.inj heq
        have hkind := hserde.chunkKind_sseLine hsent hchunk
        simpa [chunkKind, isTerminal_errorJson, toolDeltas_errorJson] using hkind
    · exact absurd (List.mem_singleton.mp hframe) (by simp)
  exact ⟨⟨messages, h⟩, fun frame chunk hframe hchunk ↦ (hread frame chunk hframe hchunk).1,
    fun frame chunk hframe hchunk ↦ (hread frame chunk hframe hchunk).2⟩

/-- Without a fragment the terminal chunk is sent. -/
theorem not_reportsFailure_of_boundary (model : String) (status : UInt16) (duration : ℕ)
    {upstream : List Part}
    (hserde : Legible serde Value.eraseDoubles
      (streamResponse serde model status duration none upstream).1)
    (h : ¬ (PushFails upstream ∨ leftover upstream ≠ [])) :
    ¬ ReportsFailure serde (receive upstream .new).lines
      (streamResponse serde model status duration none upstream).1 := by
  intro hreports
  have htruncated : (receive upstream .new).acc.finish.2.isSome = false := by
    rw [← Bool.not_eq_true, finish_receive_isSome_iff]
    exact h
  let state := (processLines serde (receive upstream .new).lines .new).1
  have hsent : .ok (sseLine serde (terminalChunk model state)) ∈
      (streamResponse serde model status duration none upstream).1 := by
    rw [streamResponse_eq]
    simp [ending, htruncated, state]
  obtain ⟨chunk, hchunk, -⟩ := Option.map_eq_some_iff.mp (hserde.frameChunk_sseLine hsent)
  have hkind := hserde.chunkKind_sseLine hsent hchunk
  have hterminal : isTerminal chunk = true :=
    (congrArg Prod.fst hkind).trans (isTerminal_terminalChunk serde model _)
  rw [hreports.not_terminal _ _ hsent hchunk] at hterminal
  exact absurd hterminal (by decide)

/-- **Which failures are reported as such.** Whatever way a stream ends, the client is sent error
frames and nothing else after the frames of the complete lines if and only if the stream was cut
inside a line: a push failed, or bytes other than one CR came after the last newline. -/
theorem streamResponse_reportsFailure_iff (serde : SerdeJson) (model : String) (status : UInt16)
    (duration : ℕ) (upstream : List Part)
    (hserde : Legible serde Value.eraseDoubles
      (streamResponse serde model status duration none upstream).1) :
    ReportsFailure serde (receive upstream .new).lines
        (streamResponse serde model status duration none upstream).1 ↔
      PushFails upstream ∨ leftover upstream ≠ [] := by
  constructor
  · intro hreports
    by_contra hboundary
    exact not_reportsFailure_of_boundary model status duration hserde hboundary hreports
  · intro hcut
    have htruncated := (finish_receive_isSome_iff upstream).mpr hcut
    apply reportsFailure_of_shape hserde
      ((receive upstream .new).failure.toList ++ [truncatedMessage])
    rw [streamResponse_eq]
    simp [processLines_eq, ending, htruncated]

/-- A call whose arguments have only just begun. -/
def begunCall : Value :=
  .obj [("index", .number (.posInt 0)), ("id", .string "call_1"),
    ("function", .obj [("arguments", .string "[")])]

/-- The line with the call's first fragment. -/
def begunLine : List UInt8 :=
  Utf8.bytes (sseLine .compact (.obj [("choices",
    .array [.obj [("delta", .obj [("tool_calls", .array [begunCall])])]])]))

/-- The connection breaks in the middle of the line that goes on with the call. -/
def midLineCut : List Part :=
  [.ok (begunLine ++ begunLine.take 20), .error "connection reset"]

theorem streamResponse_reportsFailure_iff_midLine :
    ReportsFailure .compact (receive midLineCut .new).lines
        (streamResponse .compact "gemini" 200 0 none midLineCut).1 ↔
      PushFails midLineCut ∨ leftover midLineCut ≠ [] :=
  streamResponse_reportsFailure_iff .compact "gemini" 200 0 midLineCut (legible_compact _ _)

/-- The connection breaks behind the line. -/
def boundaryCut : List Part :=
  [.ok begunLine, .error "connection reset"]

/-- The client is handed the incomplete call and told that the turn ended with it. -/
theorem streamResponse_boundaryCut :
    EndsAbnormally boundaryCut ∧
      (streamResponse .compact "gemini" 200 0 none boundaryCut).1 =
        [.ok (sseError .compact "upstream stream failed: connection reset"),
          .ok (sseLine .compact (toolCallsJson (.obj []) [begunCall])),
          .ok (sseLine .compact (synthesizedChunk "gemini" true)),
          .error endError] ∧
      ¬ ReportsFailure .compact (receive boundaryCut .new).lines
        (streamResponse .compact "gemini" 200 0 none boundaryCut).1 := by
  refine ⟨Or.inl ⟨"connection reset", by simp [boundaryCut]⟩, by decide +kernel, ?_⟩
  apply not_reportsFailure_of_boundary "gemini" 200 0 (legible_compact _ _)
  rw [← finish_receive_isSome_iff]
  decide +kernel

end VertexGateway.Forward
