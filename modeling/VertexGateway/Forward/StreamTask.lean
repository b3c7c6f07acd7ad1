import VertexGateway.Data.BoundedChannel
import VertexGateway.Forward.StreamResponse

/-!
# The streaming task, one suspension at a time

The task behind a streaming response is suspended whenever it waits: for the next part of the
upstream, or for the bounded channel to take an item. `streamTask` is that task with its
suspension points, so that the client and the upstream may move between any two of them, and
`run_streamTask` says that on its own it does what `streamResponse` computes in one go.
-/

namespace VertexGateway.Forward

open BoundedChannel
open Sse (LineAccumulator)

/-- How many processed chunks may sit in flight before the reader pauses. -/
def channelDepth : ℕ := 16

/-- Where the task is suspended, with the variables it still needs. -/
inductive Point where
  /-- At the head of the reading loop, waiting for the upstream. -/
  | next (lines : LineAccumulator) (state : StreamState)
  /-- Sending a processed line, with the lines behind it still to process. -/
  | forward (out : String) (rest : List String) (lines : LineAccumulator) (state : StreamState)
  /-- Sending the error that ends the reading loop. -/
  | report (message : String) (lines : LineAccumulator) (state : StreamState)
  | truncated (state : StreamState)
  | toolCalls (failed : Bool) (state : StreamState)
  | terminal (hadToolCalls failed : Bool) (state : StreamState)
  /-- Sending the terminator, or the error that stands in its place. -/
  | terminator (failed : Bool) (state : StreamState)
  | notified (state : StreamState)

namespace Point

/-- Process complete lines up to the first frame to send. -/
def advance (serde : SerdeJson) (lines : LineAccumulator) : StreamState → List String → Point
  | state, [] => next lines state
  | state, line :: rest =>
    match processLine serde line state with
    | (state, none) => advance serde lines state rest
    | (state, some out) => forward out rest lines state

/-- The reading loop is over. -/
def conclude (lines : LineAccumulator) (failed : Bool) (state : StreamState) : Point :=
  if lines.finish.2.isSome then truncated state
  else if state.tools.isEmpty then terminal false failed state
  else toolCalls failed state

/-- The body of the reading loop up to its first suspension. -/
def received (serde : SerdeJson) (lines : LineAccumulator) (state : StreamState) :
    Option Part → Point
  | none => conclude lines false state
  | some (.error e) => report ("upstream stream failed: " ++ e) lines state
  | some (.ok part) =>
    match lines.push part with
    | (lines, .error e) => report e lines state
    | (lines, .ok complete) => advance serde lines state complete

/-- What the task waits for at a point, and where it goes on. -/
def resume (serde : SerdeJson) (model : String) (status : UInt16) (duration : ℕ) :
    Point → Await Part Item CompletionEvent Point
  | next lines state => .receive (received serde lines state)
  | forward out rest lines state => .send (.ok out) fun sent ↦
    -- A client that hung up breaks the outer loop.
    if sent then advance serde lines state rest else conclude lines false state
  | report message lines state => .send (.ok (sseError serde message)) fun _ ↦
    conclude lines true state
  | truncated state => .send (.ok (sseError serde truncatedMessage)) fun _ ↦
    terminator true state
  | toolCalls failed state =>
    .send (.ok (toolCallsChunk serde (state.finishChunk.getD (.obj [])) state.tools.finish)) fun _ ↦
      terminal true failed state
  | terminal hadToolCalls failed state =>
    let chunk := state.finishChunk.getD (synthesizedChunk model hadToolCalls)
    .send (.ok (sseLine serde (attachUsage state.usage chunk))) fun _ ↦ terminator failed state
  | terminator failed state =>
    .send (if failed then .error endError else .ok doneFrame) fun _ ↦ notified state
  | notified state => .done { model, status, streamed := true, duration, usage := state.usage }

/-- How far the task is from its end while no further part arrives. -/
def stage : Point → ℕ
  | forward _ rest _ _ => rest.length + 6
  | next _ _ => 5
  | report _ _ _ => 4
  | truncated _ => 3
  | toolCalls _ _ => 3
  | terminal _ _ _ => 2
  | terminator _ _ => 1
  | notified _ => 0

theorem stage_forward (out : String) (rest : List String) (lines : LineAccumulator)
    (state : StreamState) : (forward out rest lines state).stage = rest.length + 6 := rfl

theorem stage_advance_le (serde : SerdeJson) (lines : LineAccumulator) (state : StreamState)
    (complete : List String) : (advance serde lines state complete).stage ≤ complete.length + 5 := by
  induction complete generalizing state with
  | nil => exact Nat.le_refl 5
  | cons line rest ih =>
    rw [advance]
    split
    · exact (ih _).trans (by simp)
    · simp [stage]

theorem stage_conclude_le (lines : LineAccumulator) (failed : Bool) (state : StreamState) :
    (conclude lines failed state).stage ≤ 3 := by
  unfold conclude
  split_ifs <;> simp [stage]

end Point

/-- The task, given by its suspension points. -/
def streamTask (serde : SerdeJson) (model : String) (status : UInt16) (duration : ℕ) :
    Program Part Item CompletionEvent Point where
  resume := Point.resume serde model status duration
  rank upstream point := toLex (upstream.length, point.stage)
  receive_lt _ part upstream := by
    rw [Prod.Lex.toLex_lt_toLex]
    exact Or.inl (Nat.lt_succ_self upstream.length)
  receive_end_lt {point next} hpoint := by
    cases point with
    | next lines state =>
      obtain rfl := Await.receive.inj hpoint
      rw [Prod.Lex.toLex_lt_toLex]
      exact Or.inr ⟨rfl, (Point.stage_conclude_le lines false state).trans_lt (by decide : 3 < 5)⟩
    | _ => exact absurd hpoint (by simp [Point.resume])
  send_lt {point item next} hpoint upstream taken := by
    rw [Prod.Lex.toLex_lt_toLex]
    refine Or.inr ⟨rfl, ?_⟩
    cases point with
    | next lines state => exact absurd hpoint (by simp [Point.resume])
    | notified state => exact absurd hpoint (by simp [Point.resume])
    | forward out rest lines state =>
      obtain ⟨-, rfl⟩ := Await.send.inj hpoint
      have hadvance := Point.stage_advance_le serde lines state rest
      have hconclude := Point.stage_conclude_le lines false state
      rw [Point.stage_forward]
      cases taken
      · exact hconclude.trans_lt (by omega)
      · exact hadvance.trans_lt (by omega)
    | report message lines state =>
      obtain ⟨-, rfl⟩ := Await.send.inj hpoint
      exact (Point.stage_conclude_le lines true state).trans_lt (Nat.lt_succ_self 3)
    | _ =>
      obtain ⟨-, rfl⟩ := Await.send.inj hpoint
      simp [Point.stage]

variable {serde : SerdeJson} {model : String} {status : UInt16} {duration : ℕ}

/-- The task returns with its last notification only. -/
theorem resume_eq_done {point : Point} {event : CompletionEvent}
    (h : (streamTask serde model status duration).resume point = .done event) :
    ∃ state, point = .notified state ∧
      event = { model, status, streamed := true, duration, usage := state.usage } := by
  cases point with
  | notified state => exact ⟨state, rfl, (Await.done.inj h).symm⟩
  | _ => exact absurd h (by simp [streamTask, Point.resume])

/-! ## The task on its own -/

/-- Sending depends on the room alone. -/
theorem send_eq (tx : Sender) (item : Item) :
    tx.send item =
      (⟨tx.sent ++ (if tx.room = some 0 then [] else [item]), tx.room.map (· - 1)⟩,
        decide (tx.room ≠ some 0)) := by
  rcases tx with ⟨sent, _ | _ | room⟩ <;> simp [Sender.send]

/-- An outcome behind items that are already sent. -/
def behind (sent : List Item) (outcome : List Item × CompletionEvent) : List Item × CompletionEvent :=
  (sent ++ outcome.1, outcome.2)

/-- A task that goes on from a send, as the sender sees it. -/
theorem behind_run_send {point : Point} {item : Item} {next : Bool → Point}
    (h : Point.resume serde model status duration point = .send item next) (tx : Sender)
    (upstream : List Part) :
    behind tx.sent ((streamTask serde model status duration).run tx.room upstream point) =
      behind (tx.send item).1.sent ((streamTask serde model status duration).run
        (tx.send item).1.room upstream (next (tx.send item).2)) := by
  have hpoint : (streamTask serde model status duration).resume point = .send item next := h
  rw [Program.run_send_eq hpoint, send_eq]
  simp only [behind, List.append_assoc]

theorem run_notified (room : Option ℕ) (upstream : List Part) (state : StreamState) :
    (streamTask serde model status duration).run room upstream (.notified state) =
      ([], { model, status, streamed := true, duration, usage := state.usage }) :=
  Program.run_done rfl room upstream

/-- What `streamResponse` makes of the variables with which the reading loop ends. -/
def concluded (serde : SerdeJson) (model : String) (status : UInt16) (duration : ℕ) (task : Relay) :
    List Item × CompletionEvent :=
  ((conclude serde model task).sent,
    { model, status, streamed := true, duration, usage := task.state.usage })

theorem behind_run_conclude (lines : LineAccumulator) (state : StreamState) (failed : Bool)
    (tx : Sender) (upstream : List Part) :
    behind tx.sent ((streamTask serde model status duration).run tx.room upstream
        (.conclude lines failed state)) =
      concluded serde model status duration ⟨lines, state, failed, tx⟩ := by
  unfold Point.conclude concluded conclude
  cases htruncated : lines.finish.2.isSome with
  | true =>
    simp only [if_true, Bool.or_true]
    rw [behind_run_send rfl, behind_run_send rfl, run_notified]
    simp [behind]
  | false =>
    cases hempty : state.tools.isEmpty with
    | true =>
      simp only [Bool.false_eq_true, if_false, if_true, Bool.or_false, Bool.not_true]
      rw [behind_run_send rfl, behind_run_send rfl, run_notified]
      cases failed <;> simp [behind]
    | false =>
      simp only [Bool.false_eq_true, if_false, if_true, Bool.or_false, Bool.not_false]
      rw [behind_run_send rfl, behind_run_send rfl, behind_run_send rfl, run_notified]
      cases failed <;> simp [behind]

/-- The lines of one part are sent as `relayLines` sends them. -/
theorem behind_run_advance (lines : LineAccumulator) (complete : List String)
    (state : StreamState) (tx : Sender) (upstream : List Part) :
    behind tx.sent ((streamTask serde model status duration).run tx.room upstream
        (.advance serde lines state complete)) =
      match relayLines serde complete state tx with
      | (state, tx, true) =>
        behind tx.sent ((streamTask serde model status duration).run tx.room upstream
          (.next lines state))
      | (state, tx, false) => concluded serde model status duration ⟨lines, state, false, tx⟩ := by
  induction complete generalizing state tx with
  | nil => rfl
  | cons line rest ih =>
    rw [Point.advance, relayLines]
    rcases processLine serde line state with ⟨state, _ | out⟩
    · exact ih state tx
    · simp only
      rw [behind_run_send rfl]
      rcases tx.send (.ok out) with ⟨tx, taken⟩
      cases taken with
      | true => exact ih state tx
      | false => exact behind_run_conclude lines state false tx upstream

/-- The reading loop reads and sends as `relay` does. -/
theorem behind_run_next (lines : LineAccumulator) (state : StreamState) (tx : Sender)
    (upstream : List Part) :
    behind tx.sent ((streamTask serde model status duration).run tx.room upstream
        (.next lines state)) =
      concluded serde model status duration (relay serde upstream ⟨lines, state, false, tx⟩) := by
  induction upstream generalizing lines state tx with
  | nil =>
    rw [Program.run_receive rfl]
    exact behind_run_conclude lines state false tx []
  | cons part upstream ih =>
    rw [Program.run_receive rfl, List.head?_cons, List.tail_cons]
    cases part with
    | error e =>
      rw [behind_run_send rfl, behind_run_conclude]
      rfl
    | ok part =>
      rw [relay, Point.received]
      rcases lines.push part with ⟨lines, e | complete⟩
      · simp only
        rw [behind_run_send rfl, behind_run_conclude]
      · simp only
        rw [behind_run_advance]
        rcases relayLines serde complete state tx with ⟨state, tx, _ | _⟩
        · rfl
        · exact ih lines state tx

/-- On its own, with a client that takes `room` items, the task does what `streamResponse` does. -/
theorem run_streamTask (serde : SerdeJson) (model : String) (status : UInt16) (duration : ℕ)
    (room : Option ℕ) (upstream : List Part) :
    (streamTask serde model status duration).run room upstream (.next .new .new) =
      streamResponse serde model status duration room upstream := by
  exact behind_run_next .new .new ⟨[], room⟩ upstream

end VertexGateway.Forward
