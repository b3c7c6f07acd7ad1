import VertexGateway.Forward.ProcessLine

/-!
# Relaying an SSE stream

The task behind a streaming response reads the upstream part by part, sends what `processLine`
forwards, and closes with an ending sequence that depends on how the stream ended. `receive` says
what reading the upstream yields apart from any sending, and `streamResponse_eq` gives the whole
output in terms of it when every send succeeds: the frames of the received lines, an error frame
if reading failed, and the ending.
-/

namespace VertexGateway.Forward

open Sse (LineAccumulator)
open Thought (ToolCallAccumulator)

/-! ## The channel to the client -/

inductive IoError where
  | unexpectedEof (message : String)
  deriving DecidableEq

/-- One item of the response body: bytes, which are always text here, or an error that breaks the
body off. -/
abbrev Item := Except IoError String

/-- The sending half of the channel. A client that hangs up takes only so many items more; with
`room := none` it never does. -/
structure Sender where
  sent : List Item
  room : Option ℕ

/-- Send one item; the flag says whether the client was still there. -/
def Sender.send (tx : Sender) (item : Item) : Sender × Bool :=
  match tx.room with
  | none => ({ tx with sent := tx.sent ++ [item] }, true)
  | some 0 => (tx, false)
  | some (room + 1) => ({ sent := tx.sent ++ [item], room := some room }, true)

/-! ## Reading the upstream -/

/-- A part of the upstream body: a chunk of bytes, or the text of a transport error. -/
abbrev Part := Except String (List UInt8)

/-- Send the frames of some complete lines, up to the first send that fails. -/
def relayLines (serde : SerdeJson) :
    List String → StreamState → Sender → StreamState × Sender × Bool
  | [], state, tx => (state, tx, true)
  | line :: lines, state, tx =>
    match processLine serde line state with
    | (state, none) => relayLines serde lines state tx
    | (state, some out) =>
      match tx.send (.ok out) with
      | (tx, true) => relayLines serde lines state tx
      | (tx, false) => (state, tx, false)

/-- The variables of the streaming task. -/
structure Relay where
  lines : LineAccumulator
  state : StreamState
  /-- Set when the stream ends abnormally, so the terminator can be withheld. -/
  failed : Bool
  tx : Sender

/-- The reading loop: it stops at the end of the upstream, at a transport error, at a line beyond
the cap, or when the client hung up. -/
def relay (serde : SerdeJson) : List Part → Relay → Relay
  | [], task => task
  | .error e :: _, task =>
    let (tx, _) := task.tx.send (.ok (sseError serde ("upstream stream failed: " ++ e)))
    { task with tx, failed := true }
  | .ok part :: upstream, task =>
    match task.lines.push part with
    | (lines, .error e) =>
      let (tx, _) := task.tx.send (.ok (sseError serde e))
      { task with lines, tx, failed := true }
    | (lines, .ok complete) =>
      match relayLines serde complete task.state task.tx with
      | (state, tx, true) => relay serde upstream { task with lines, state, tx }
      | (state, tx, false) => { task with lines, state, tx }

/-! ## The ending -/

/-- A chunk carrying the consolidated tool calls, reusing the id and metadata of the chunk it will
precede. -/
def toolCallsJson (reference : Value) (calls : List Value) : Value :=
  (reference.assign "choices" (.array [.obj
    [("index", .number (.posInt 0)),
      ("delta", .obj [("role", .string "assistant"), ("tool_calls", .array calls)]),
      ("finish_reason", .null)]])).onObject (·.remove "usage")

def toolCallsChunk (serde : SerdeJson) (reference : Value) (calls : List Value) : String :=
  sseLine serde (toolCallsJson reference calls)

/-- The terminal chunk for an upstream that never sent one. The reason is inferred from what
actually happened rather than defaulted. -/
def synthesizedChunk (model : String) (hadToolCalls : Bool) : Value :=
  .obj
    [("object", .string "chat.completion.chunk"),
      ("model", .string model),
      ("choices", .array [.obj
        [("index", .number (.posInt 0)),
          ("delta", .obj []),
          ("finish_reason", .string (if hadToolCalls then "tool_calls" else "stop"))]])]

/-- Re-attach usage so clients reading it from the final chunk are unaffected by the reordering. -/
def attachUsage (usage : Option Usage) (chunk : Value) : Value :=
  match usage with
  | some usage =>
    if (chunk.get? "usage").isNone then chunk.assign "usage" (.object (usageJson usage)) else chunk
  | none => chunk

def truncatedMessage : String := "upstream ended before the response completed"

def doneFrame : String := "data: [DONE]\n\n"

def endError : IoError := .unexpectedEof "stream ended before completion"

/-- What the task sends once reading is over. -/
def conclude (serde : SerdeJson) (model : String) (task : Relay) : Sender :=
  let truncated := task.lines.finish.2.isSome
  let tx :=
    -- Cut mid-event: accumulated tool calls may have incomplete arguments.
    if truncated then (task.tx.send (.ok (sseError serde truncatedMessage))).1
    else
      let hadToolCalls := !task.state.tools.isEmpty
      let tx :=
        if hadToolCalls then
          let reference := task.state.finishChunk.getD (.obj [])
          (task.tx.send (.ok (toolCallsChunk serde reference task.state.tools.finish))).1
        else task.tx
      let chunk := task.state.finishChunk.getD (synthesizedChunk model hadToolCalls)
      (tx.send (.ok (sseLine serde (attachUsage task.state.usage chunk)))).1
  if task.failed || truncated then (tx.send (.error endError)).1
  else (tx.send (.ok doneFrame)).1

/-- Relay an SSE stream: the items sent to the client and the event the observer is told. -/
def streamResponse (serde : SerdeJson) (model : String) (status : UInt16) (duration : ℕ)
    (room : Option ℕ) (upstream : List Part) : List Item × CompletionEvent :=
  let task := relay serde upstream
    { lines := .new, state := .new, failed := false, tx := { sent := [], room } }
  ((conclude serde model task).sent,
    { model, status, streamed := true, duration, usage := task.state.usage })

/-! ## What reading yields -/

/-- The complete lines read, why reading stopped early, and the accumulator at the end. -/
structure Reception where
  lines : List String
  failure : Option String
  acc : LineAccumulator

def receive : List Part → LineAccumulator → Reception
  | [], acc => ⟨[], none, acc⟩
  | .error e :: _, acc => ⟨[], some ("upstream stream failed: " ++ e), acc⟩
  | .ok part :: upstream, acc =>
    match acc.push part with
    | (acc, .error e) => ⟨[], some e, acc⟩
    | (acc, .ok lines) =>
      let rest := receive upstream acc
      { rest with lines := lines ++ rest.lines }

/-- A sender whose client never hangs up. -/
def openSender (sent : List Item) : Sender := ⟨sent, none⟩

@[simp]
theorem openSender_sent (sent : List Item) : (openSender sent).sent = sent := rfl

@[simp]
theorem openSender_send (sent : List Item) (item : Item) :
    (openSender sent).send item = (openSender (sent ++ [item]), true) := rfl

theorem relayLines_open (serde : SerdeJson) (lines : List String) (state : StreamState)
    (sent : List Item) :
    relayLines serde lines state (openSender sent) =
      ((processLines serde lines state).1,
        openSender (sent ++ (processLines serde lines state).2.map .ok), true) := by
  induction lines generalizing state sent with
  | nil => simp [relayLines, processLines, Transducer.run]
  | cons line lines ih =>
    rw [relayLines, processLines, Transducer.run]
    rcases processLine serde line state with ⟨next, _ | out⟩
    · exact ih next sent
    · simp only [openSender_send, ih, processLines, Option.toList_some, List.singleton_append,
        List.map_cons, List.append_assoc]

/-- With an open channel the loop sends the frames of the lines received and an error frame for
the failure that stopped it. -/
theorem relay_open (serde : SerdeJson) (upstream : List Part) (acc : LineAccumulator)
    (state : StreamState) (sent : List Item) :
    relay serde upstream ⟨acc, state, false, openSender sent⟩ =
      let reception := receive upstream acc
      let (state, frames) := processLines serde reception.lines state
      { lines := reception.acc
        state
        failed := reception.failure.isSome
        tx := openSender (sent ++ frames.map .ok ++
          reception.failure.toList.map fun e ↦ .ok (sseError serde e)) } := by
  induction upstream generalizing acc state sent with
  | nil => simp [relay, receive, processLines, Transducer.run]
  | cons part upstream ih =>
    cases part with
    | error e => simp [relay, receive, processLines, Transducer.run]
    | ok part =>
      rw [relay, receive]
      rcases acc.push part with ⟨next, e | lines⟩
      · simp [processLines, Transducer.run]
      · simp only [relayLines_open, ih]
        simp only [processLines, Transducer.run_append, List.map_append, List.append_assoc]

/-! ## What the ending consists of -/

/-- The chunk that ends the turn. -/
def terminalChunk (model : String) (state : StreamState) : Value :=
  attachUsage state.usage (state.finishChunk.getD (synthesizedChunk model !state.tools.isEmpty))

/-- The consolidated tool calls, if any fragment was absorbed. -/
def toolFrames (serde : SerdeJson) (state : StreamState) : List String :=
  if state.tools.isEmpty then []
  else [toolCallsChunk serde (state.finishChunk.getD (.obj [])) state.tools.finish]

theorem eq_of_mem_toolFrames {serde : SerdeJson} {state : StreamState} {frame : String}
    (h : frame ∈ toolFrames serde state) :
    frame = toolCallsChunk serde (state.finishChunk.getD (.obj [])) state.tools.finish := by
  unfold toolFrames at h
  split at h
  · exact absurd h List.not_mem_nil
  · exact List.mem_singleton.mp h

def ending (serde : SerdeJson) (model : String) (state : StreamState) (failed truncated : Bool) :
    List Item :=
  (if truncated then [.ok (sseError serde truncatedMessage)]
    else (toolFrames serde state ++ [sseLine serde (terminalChunk model state)]).map .ok) ++
  [if failed || truncated then .error endError else .ok doneFrame]

theorem conclude_open (serde : SerdeJson) (model : String) (task : Relay) (sent : List Item)
    (h : task.tx = openSender sent) :
    (conclude serde model task).sent =
      sent ++ ending serde model task.state task.failed task.lines.finish.2.isSome := by
  simp only [conclude, h, openSender_send, ending, toolFrames, terminalChunk]
  cases task.lines.finish.2.isSome <;> cases task.failed <;> cases task.state.tools.isEmpty <;>
    simp

/-- The output of a run in which every send succeeds. -/
theorem streamResponse_eq (serde : SerdeJson) (model : String) (status : UInt16) (duration : ℕ)
    (upstream : List Part) :
    streamResponse serde model status duration none upstream =
      let reception := receive upstream .new
      let (state, frames) := processLines serde reception.lines .new
      (frames.map .ok ++ (reception.failure.toList.map fun e ↦ .ok (sseError serde e)) ++
        ending serde model state reception.failure.isSome reception.acc.finish.2.isSome,
      { model, status, streamed := true, duration, usage := state.usage }) := by
  have hrelay := relay_open serde upstream .new .new []
  simp only [List.nil_append] at hrelay
  simp only [streamResponse]
  rw [show ({ sent := [], room := none } : Sender) = openSender [] from rfl, hrelay,
    conclude_open serde model _ _ rfl]

end VertexGateway.Forward
