import VertexGateway.Forward.StreamTask

/-!
# Slow clients, fast clients, clients that leave

The client reads when it likes and may hang up at any time, and the upstream delivers when it
likes. Between them stands a channel of bounded depth, so a client that stops reading stops the
task, and the task buffers no more than the channel holds. None of this shows in what is
delivered: over every schedule the client is handed the output of `streamResponse` from its
beginning, and all of it if it stays.
-/

namespace VertexGateway.Forward

open BoundedChannel
open Sse (LineAccumulator)

/-- The task about to read its first part, its channel empty and its client there. -/
def streamStart (upstream : List Part) : System Part Item Point :=
  start upstream (.next .new .new)

/-! ## What has been read when a client is gone -/

section

variable (serde : SerdeJson)

/-- The lines processed when the client takes `room` frames: up to the one whose frame it no longer
takes, or all of them. -/
def linesRead : ℕ → List String → List String
  | _, [] => []
  | room, line :: lines =>
    match forwarded serde line, room with
    | none, room => line :: linesRead room lines
    | some _, 0 => [line]
    | some _, room + 1 => line :: linesRead room lines

variable {serde}

theorem linesRead_append (room : ℕ) (first second : List String) :
    linesRead serde room (first ++ second) =
      if (first.filterMap (forwarded serde)).length ≤ room then
        first ++ linesRead serde (room - (first.filterMap (forwarded serde)).length) second
      else linesRead serde room first := by
  induction first generalizing room with
  | nil => simp
  | cons line first ih =>
    cases hframe : forwarded serde line with
    | none =>
      rw [List.filterMap_cons_none hframe]
      simp only [List.cons_append, linesRead, hframe, ih]
      split <;> rfl
    | some frame =>
      rw [List.filterMap_cons_some hframe, List.length_cons]
      cases room with
      | zero => simp [linesRead, hframe]
      | succ room =>
        simp only [List.cons_append, linesRead, hframe, ih, Nat.add_le_add_iff_right,
          Nat.add_sub_add_right]
        split <;> rfl

theorem linesRead_of_le {room : ℕ} {lines : List String}
    (h : (lines.filterMap (forwarded serde)).length ≤ room) : linesRead serde room lines = lines := by
  have hall : linesRead serde room (lines ++ []) = _ := linesRead_append room lines []
  rw [if_pos h, List.append_nil, linesRead, List.append_nil] at hall
  exact hall

/-- Relaying lines to a client with room for some more frames. -/
theorem relayLines_room (lines : List String) (state : StreamState) (sent : List Item) (room : ℕ) :
    relayLines serde lines state ⟨sent, some room⟩ =
      ((processLines serde (linesRead serde room lines) state).1,
        ⟨sent ++ ((lines.filterMap (forwarded serde)).take room).map .ok,
          some (room - (lines.filterMap (forwarded serde)).length)⟩,
        decide ((lines.filterMap (forwarded serde)).length ≤ room)) := by
  induction lines generalizing state sent room with
  | nil => simp [relayLines, linesRead, processLines, Transducer.run]
  | cons line lines ih =>
    have hframe : (processLine serde line state).2 = forwarded serde line := by
      rw [processLine_eq]
    rcases hprocess : processLine serde line state with ⟨next, _ | out⟩
    · rw [hprocess] at hframe
      rw [List.filterMap_cons_none hframe.symm]
      simp [relayLines, hprocess, ih, linesRead, ← hframe, processLines, Transducer.run]
    · rw [hprocess] at hframe
      rw [List.filterMap_cons_some hframe.symm]
      cases room with
      | zero =>
        simp [relayLines, hprocess, Sender.send, linesRead, ← hframe, processLines, Transducer.run]
      | succ room =>
        simp [relayLines, hprocess, Sender.send, ih, linesRead, ← hframe, processLines,
          Transducer.run]

/-- The reading loop ends with what has been read by then. -/
theorem relay_room_state (upstream : List Part) (lines : LineAccumulator) (state : StreamState)
    (sent : List Item) (room : ℕ) :
    (relay serde upstream ⟨lines, state, false, ⟨sent, some room⟩⟩).state =
      (processLines serde (linesRead serde room (receive upstream lines).lines) state).1 := by
  induction upstream generalizing lines state sent room with
  | nil => rfl
  | cons part upstream ih =>
    cases part with
    | error e => rfl
    | ok part =>
      rw [relay, receive]
      rcases lines.push part with ⟨lines, e | complete⟩
      · rfl
      · simp only [relayLines_room, linesRead_append]
        by_cases hroom : (complete.filterMap (forwarded serde)).length ≤ room
        · simp only [hroom, decide_true, if_true, ih, linesRead_of_le hroom]
          simp only [processLines, Transducer.run_append]
        · simp only [hroom, decide_false, if_false]

/-- What the observer is told about a client that takes only some of the items. -/
theorem streamResponse_room_event (model : String) (status : UInt16) (duration : ℕ)
    (upstream : List Part) (room : ℕ) :
    (streamResponse serde model status duration (some room) upstream).2 =
      { model, status, streamed := true, duration
        usage := ((linesRead serde room (receive upstream .new).lines).filterMap
          (lineUsage serde)).getLast? } := by
  simp only [streamResponse, relay_room_state, processLines_eq]

/-- The lines processed when the client takes as many frames as it has room for. -/
def linesSeen (serde : SerdeJson) : Option ℕ → List String → List String
  | none, lines => lines
  | some room, lines => linesRead serde room lines

theorem streamResponse_event (model : String) (status : UInt16) (duration : ℕ) (room : Option ℕ)
    (upstream : List Part) :
    (streamResponse serde model status duration room upstream).2 =
      { model, status, streamed := true, duration
        usage := ((linesSeen serde room (receive upstream .new).lines).filterMap
          (lineUsage serde)).getLast? } := by
  cases room with
  | none => simp only [streamResponse_eq, processLines_eq, linesSeen]
  | some room => exact streamResponse_room_event model status duration upstream room

end

/-! ## Every schedule -/

namespace Point

/-- The accumulator of a task that is still reading. -/
def reading : Point → Option LineAccumulator
  | next lines _ => some lines
  | forward _ _ lines _ => some lines
  | _ => none

theorem reading_advance (serde : SerdeJson) (lines : LineAccumulator) (state : StreamState)
    (complete : List String) : (advance serde lines state complete).reading = some lines := by
  induction complete generalizing state with
  | nil => rfl
  | cons line rest ih =>
    rw [advance]
    split
    · exact ih _
    · rfl

theorem reading_conclude (lines : LineAccumulator) (failed : Bool) (state : StreamState) :
    (conclude lines failed state).reading = none := by
  unfold conclude
  split_ifs <;> rfl

end Point

/-- While the task reads, it holds no more of an unfinished line than the cap. -/
def WithinCap (point : Point) : Prop :=
  ∀ lines, point.reading = some lines →
    lines.limit = Sse.defaultMaxLineBytes ∧ lines.buf.length ≤ Sse.defaultMaxLineBytes

theorem withinCap_conclude (lines : LineAccumulator) (failed : Bool) (state : StreamState) :
    WithinCap (.conclude lines failed state) := by
  intro held hheld
  rw [Point.reading_conclude] at hheld
  exact absurd hheld.symm (Option.some_ne_none held)

theorem withinCap_advance {serde : SerdeJson} (lines : LineAccumulator)
    (hlimit : lines.limit = Sse.defaultMaxLineBytes)
    (hbuf : lines.buf.length ≤ Sse.defaultMaxLineBytes) (state : StreamState)
    (complete : List String) : WithinCap (.advance serde lines state complete) := by
  intro held hheld
  rw [Point.reading_advance] at hheld
  obtain rfl := Option.some.inj hheld
  exact ⟨hlimit, hbuf⟩

/-- A push that leaves too much in the buffer ends the reading. -/
theorem withinCap_received {serde : SerdeJson} {lines : LineAccumulator} {state : StreamState}
    (h : WithinCap (.next lines state)) (part : Option Part) :
    WithinCap (.received serde lines state part) := by
  obtain ⟨hlimit, -⟩ := h lines rfl
  match part with
  | none => exact withinCap_conclude lines false state
  | some (.error e) => exact fun held hheld ↦ absurd hheld.symm (Option.some_ne_none held)
  | some (.ok chunk) =>
    rw [Point.received, LineAccumulator.push_eq]
    split_ifs with hover
    · exact fun held hheld ↦ absurd hheld.symm (Option.some_ne_none held)
    · rw [hlimit] at hover
      exact withinCap_advance ⟨Framing.remainder 0x0A (lines.buf ++ chunk), lines.limit⟩ hlimit
        (Nat.le_of_not_lt hover) state _

theorem WithinCap.sent {serde : SerdeJson} {model : String} {status : UInt16} {duration : ℕ}
    {point : Point} {item : Item} {next : Bool → Point} (h : WithinCap point)
    (hpoint : (streamTask serde model status duration).resume point = .send item next)
    (taken : Bool) : WithinCap (next taken) := by
  cases point with
  | next lines state => exact absurd hpoint (by simp [streamTask, Point.resume])
  | notified state => exact absurd hpoint (by simp [streamTask, Point.resume])
  | forward out rest lines state =>
    obtain ⟨-, rfl⟩ := Await.send.inj hpoint
    obtain ⟨hlimit, hbuf⟩ := h lines rfl
    cases taken
    · exact withinCap_conclude lines false state
    · exact withinCap_advance lines hlimit hbuf state rest
  | report message lines state =>
    obtain ⟨-, rfl⟩ := Await.send.inj hpoint
    exact withinCap_conclude lines true state
  | _ =>
    obtain ⟨-, rfl⟩ := Await.send.inj hpoint
    exact fun held hheld ↦ absurd hheld.symm (Option.some_ne_none held)

theorem WithinCap.step {serde : SerdeJson} {model : String} {status : UInt16} {duration : ℕ}
    {action : Action} {system after : System Part Item Point} (h : WithinCap system.point)
    (hstep : (streamTask serde model status duration).step channelDepth action system =
      some after) : WithinCap after.point := by
  rcases system with ⟨point, inputs, queue, delivered, connected⟩
  obtain ⟨next, -, hpoint, rfl⟩ | ⟨item, next, -, hpoint, -, rfl⟩ |
    ⟨item, next, -, hpoint, -, -, rfl⟩ | ⟨item, queue, -, -, rfl⟩ | ⟨-, -, rfl⟩ :=
    Program.step_cases hstep
  · cases point with
    | next lines state =>
      obtain rfl := Await.receive.inj hpoint
      exact withinCap_received h inputs.head?
    | _ => exact absurd hpoint (by simp [streamTask, Point.resume])
  · exact h.sent hpoint false
  · exact h.sent hpoint true
  · exact h
  · exact h

theorem withinCap_of_exec {serde : SerdeJson} {model : String} {status : UInt16} {duration : ℕ}
    {upstream : List Part} {schedule : List Action} {system : System Part Item Point}
    (h : (streamTask serde model status duration).exec channelDepth schedule
      (streamStart upstream) = some system) : WithinCap system.point := by
  refine Program.exec_invariant (fun system ↦ WithinCap system.point)
    (fun _ _ _ hwithin hstep ↦ hwithin.step hstep) h ?_
  intro lines hlines
  obtain rfl := Option.some.inj hlines
  exact ⟨rfl, Nat.zero_le _⟩

/-- **Backpressure.** However the task, the upstream and the client take turns, at most
`channelDepth` items are in flight and the unfinished line is within its cap, and what the client
has taken, with the items in flight behind it, is the beginning of the stream's output. A task that
cannot move although it has not returned is waiting for the client to take one of `channelDepth`
items. -/
theorem streamTask_backpressure (serde : SerdeJson) (model : String) (status : UInt16)
    (duration : ℕ) (upstream : List Part) (schedule : List Action) (system : System Part Item Point)
    (h : (streamTask serde model status duration).exec channelDepth schedule
      (streamStart upstream) = some system) :
    system.queue.length ≤ channelDepth ∧
      (∀ lines, system.point.reading = some lines →
        lines.buf.length ≤ Sse.defaultMaxLineBytes) ∧
      system.delivered ++ system.queue <+:
        (streamResponse serde model status duration none upstream).1 ∧
      ((streamTask serde model status duration).step channelDepth .receive system = none →
        (streamTask serde model status duration).step channelDepth .send system = none →
        (∃ state, system.point = .notified state) ∨
          system.connected = true ∧ system.queue.length = channelDepth) := by
  have hbounded := Program.queue_length_le h
  refine ⟨hbounded, fun lines hlines ↦ (withinCap_of_exec h lines hlines).2, ?_,
    fun hreceive hsend ↦ ?_⟩
  · rw [← run_streamTask]
    exact Program.delivered_prefix h
  · rcases Program.blocked_cases hreceive hsend with ⟨event, hdone⟩ | ⟨hthere, hfull⟩
    · obtain ⟨state, hpoint, -⟩ := resume_eq_done hdone
      exact Or.inl ⟨state, hpoint⟩
    · exact Or.inr ⟨hthere, Nat.le_antisymm hbounded hfull⟩

/-- A line that carries nothing but a count. -/
def countLine (tokens : UInt64) : String :=
  sseLine .compact (.obj [("usage", .obj [("prompt_tokens", .number (.posInt tokens))])])

/-- More frames than the channel holds, with a count near the beginning and one at the end. -/
def countedUpstream : List Part :=
  [.ok (Utf8.bytes ("data: a\n\n" ++ countLine 4 ++
    String.join (List.replicate 18 "data: b\n\n") ++ countLine 9))]

/-- The task fills the channel, the client takes one item and the task fills it again. -/
def fillTwice : List Action :=
  .receive :: List.replicate channelDepth .send ++ [.deliver, .send]

theorem streamTask_backpressure_full :
    ∃ system, (streamTask .compact "gemini" 200 0).exec channelDepth fillTwice
        (streamStart countedUpstream) = some system ∧
      system.queue.length = channelDepth ∧ system.delivered.length = 1 ∧
      system.queue.length ≤ channelDepth ∧
      (∀ lines, system.point.reading = some lines →
        lines.buf.length ≤ Sse.defaultMaxLineBytes) ∧
      system.delivered ++ system.queue <+:
        (streamResponse .compact "gemini" 200 0 none countedUpstream).1 ∧
      ((streamTask .compact "gemini" 200 0).step channelDepth .receive system = none →
        (streamTask .compact "gemini" 200 0).step channelDepth .send system = none →
        (∃ state, system.point = .notified state) ∨
          system.connected = true ∧ system.queue.length = channelDepth) := by
  have hrun : ((streamTask .compact "gemini" 200 0).exec channelDepth fillTwice
      (streamStart countedUpstream)).any (fun system ↦
        system.queue.length = channelDepth ∧ system.delivered.length = 1) = true := by
    decide +kernel
  obtain ⟨system, hexec, hlengths⟩ := Option.any_eq_true _ _ |>.mp hrun
  obtain ⟨hqueue, hdelivered⟩ := of_decide_eq_true hlengths
  exact ⟨system, hexec, hqueue, hdelivered,
    streamTask_backpressure .compact "gemini" 200 0 countedUpstream fillTwice system hexec⟩

/-- **A client that stays gets everything.** No schedule goes on for ever. One in which the client
has not hung up can always be brought to its end without its doing so, and wherever nothing but
hanging up is left to happen, the client has been handed the whole output, every item once and in
order, and the observer is told what belongs to it. -/
theorem streamTask_delivers (serde : SerdeJson) (model : String) (status : UInt16) (duration : ℕ) :
    (WellFounded fun after system ↦ ∃ action,
      (streamTask serde model status duration).step channelDepth action system = some after) ∧
    ∀ upstream schedule system, .hangUp ∉ schedule →
      (streamTask serde model status duration).exec channelDepth schedule
        (streamStart upstream) = some system →
      (∃ more after, .hangUp ∉ more ∧
        (streamTask serde model status duration).exec channelDepth more system = some after ∧
        ∀ action, action ≠ .hangUp →
          (streamTask serde model status duration).step channelDepth action after = none) ∧
      ((∀ action, action ≠ .hangUp →
          (streamTask serde model status duration).step channelDepth action system = none) →
        ∃ state, system.point = .notified state ∧
          streamResponse serde model status duration none upstream =
            (system.delivered,
              { model, status, streamed := true, duration, usage := state.usage })) := by
  have hdepth : 0 < channelDepth := by decide
  refine ⟨Program.wellFounded_step _ _, fun upstream schedule system hschedule h ↦ ⟨?_, ?_⟩⟩
  · obtain ⟨more, after, hmore, hexec, ⟨event, hdone⟩, hqueue⟩ :=
      (streamTask serde model status duration).exists_rest hdepth system
    exact ⟨more, after, hmore, hexec, fun action ↦ Program.step_eq_none_of_rest hdone hqueue⟩
  · intro hrest
    obtain ⟨event, hdone, hrun⟩ := Program.delivered_all hdepth hschedule h hrest
    obtain ⟨state, hpoint, rfl⟩ := resume_eq_done hdone
    rw [run_streamTask] at hrun
    exact ⟨state, hpoint, hrun⟩

/-- The client takes each item as it comes, to the end. -/
def takeEach : List Action :=
  .receive :: (List.replicate 21 [.send, .deliver]).flatten ++
    [.receive, .send, .deliver, .send, .deliver]

theorem streamTask_delivers_counted :
    ∃ system state, (streamTask .compact "gemini" 200 0).exec channelDepth takeEach
        (streamStart countedUpstream) = some system ∧
      system.delivered.length = 23 ∧ system.point = .notified state ∧
      streamResponse .compact "gemini" 200 0 none countedUpstream =
        (system.delivered, { model := "gemini", status := 200, streamed := true, duration := 0
                             usage := state.usage }) := by
  have hrun : ((streamTask .compact "gemini" 200 0).exec channelDepth takeEach
      (streamStart countedUpstream)).any (fun system ↦ system.delivered.length = 23 ∧
        ∀ action ∈ [.receive, .send, .deliver],
          ((streamTask .compact "gemini" 200 0).step channelDepth action system).isNone) =
        true := by
    decide +kernel
  obtain ⟨system, hexec, hend⟩ := Option.any_eq_true _ _ |>.mp hrun
  obtain ⟨hlength, hstuck⟩ := of_decide_eq_true hend
  have hdelivers := (streamTask_delivers .compact "gemini" 200 0).2 countedUpstream takeEach system
    (by decide) hexec
  obtain ⟨state, hpoint, houtput⟩ := hdelivers.2 fun action haction ↦ by
    cases action with
    | hangUp => exact absurd rfl haction
    | _ => exact Option.isNone_iff_eq_none.mp (hstuck _ (by decide))
  exact ⟨system, state, hexec, hlength, hpoint, houtput⟩

/-- **A client that leaves.** When the client has hung up and the task has returned, the client has
been handed the beginning of the output, the task has sent at most `channelDepth` items that it did
not take, and the usage the observer is told is the last one in the lines processed up to the first
frame that could not be sent: it is unknown when those lines carry none. -/
theorem streamTask_hangUp (serde : SerdeJson) (model : String) (status : UInt16) (duration : ℕ)
    (upstream : List Part) (schedule : List Action) (system : System Part Item Point)
    (event : CompletionEvent)
    (h : (streamTask serde model status duration).exec channelDepth schedule
      (streamStart upstream) = some system)
    (hgone : system.connected = false)
    (hdone : (streamTask serde model status duration).resume system.point = .done event) :
    ∃ dropped : List Item, dropped.length ≤ channelDepth ∧
      system.delivered ++ dropped <+:
        (streamResponse serde model status duration none upstream).1 ∧
      event = { model, status, streamed := true, duration
                usage := ((linesRead serde (system.delivered ++ dropped).length
                  (receive upstream .new).lines).filterMap (lineUsage serde)).getLast? } := by
  obtain ⟨dropped, hdropped, hbegun, hrun⟩ := Program.returned_gone h hdone hgone
  rw [run_streamTask] at hrun hbegun
  refine ⟨dropped, hdropped, hbegun, ?_⟩
  rw [← streamResponse_room_event, hrun]

/-- The client takes one item and leaves, with the channel full behind it. -/
def takeOneAndLeave : List Action :=
  fillTwice ++ [.hangUp, .send, .send, .send]

/-- The count seen by then is told, and not the one still to come. -/
theorem streamTask_hangUp_midStream :
    ∃ (system : System Part Item Point) (event : CompletionEvent) (dropped : List Item),
      (streamTask .compact "gemini" 200 0).exec channelDepth takeOneAndLeave
        (streamStart countedUpstream) = some system ∧
      system.delivered.length = 1 ∧ event.usage = some ⟨4, 0, 0⟩ ∧
      dropped.length ≤ channelDepth ∧
      system.delivered ++ dropped <+:
        (streamResponse .compact "gemini" 200 0 none countedUpstream).1 ∧
      event = { model := "gemini", status := 200, streamed := true, duration := 0
                usage := ((linesRead .compact (system.delivered ++ dropped).length
                  (receive countedUpstream .new).lines).filterMap
                    (lineUsage .compact)).getLast? } := by
  have hrun : ((streamTask .compact "gemini" 200 0).exec channelDepth takeOneAndLeave
      (streamStart countedUpstream)).any (fun system ↦
        !system.connected && system.delivered.length == 1 &&
          match (streamTask .compact "gemini" 200 0).resume system.point with
          | .done event => event.usage == some ⟨4, 0, 0⟩
          | _ => false) = true := by
    decide +kernel
  obtain ⟨system, hexec, hend⟩ := Option.any_eq_true _ _ |>.mp hrun
  obtain ⟨hend, hresult⟩ := Bool.and_eq_true_iff.mp hend
  obtain ⟨hgone, hlength⟩ := Bool.and_eq_true_iff.mp hend
  cases hdone : (streamTask .compact "gemini" 200 0).resume system.point with
  | done event =>
    rw [hdone] at hresult
    obtain ⟨dropped, hhangUp⟩ := streamTask_hangUp .compact "gemini" 200 0 countedUpstream
      takeOneAndLeave system event hexec (by simpa using hgone) hdone
    exact ⟨system, event, dropped, hexec, eq_of_beq hlength, eq_of_beq hresult, hhangUp⟩
  | receive _ => rw [hdone] at hresult; contradiction
  | send _ _ => rw [hdone] at hresult; contradiction

end VertexGateway.Forward
