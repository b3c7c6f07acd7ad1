import Mathlib

/-!
# A task that writes to a bounded channel

A task runs from one suspension point to the next: it waits for its next input, it waits until the
channel takes one item, or it has returned. `Program.run` is what it does on its own, against a
receiver that takes a given number of items and is then gone. `Program.step` is the whole system:
the task, the inputs still to come, the queue of the channel and the receiver, each free to move
whenever it can. The two are related over every schedule: the queue stays within its depth, the
receiver sees the items of the run in order, none of them lost or twice, and every schedule ends.
-/

namespace VertexGateway.BoundedChannel

/-- What a suspended task waits for, and where it goes on. The flag of a send says whether the
receiver was still there. -/
inductive Await (ι ο ρ σ : Type*) where
  | receive (next : Option ι → σ)
  | send (item : ο) (next : Bool → σ)
  | done (result : ρ)

/-- A task given by its suspension points, ranked so that no run can go on for ever. -/
structure Program (ι ο ρ σ : Type*) where
  resume : σ → Await ι ο ρ σ
  rank : List ι → σ → ℕ ×ₗ ℕ
  receive_lt : ∀ {point next}, resume point = .receive next → ∀ input inputs,
    rank inputs (next (some input)) < rank (input :: inputs) point
  receive_end_lt : ∀ {point next}, resume point = .receive next →
    rank [] (next none) < rank [] point
  send_lt : ∀ {point item next}, resume point = .send item next → ∀ inputs taken,
    rank inputs (next taken) < rank inputs point

/-- The task at one of its points, the inputs it has not received yet, the items in the channel,
and the receiver: what it has taken, and whether it is still there. -/
structure System (ι ο σ : Type*) where
  point : σ
  inputs : List ι
  queue : List ο
  delivered : List ο
  connected : Bool

/-- Who moves next. The task moves by receiving or sending, the receiver by taking an item or by
hanging up, which drops what is still queued. -/
inductive Action where
  | receive
  | send
  | deliver
  | hangUp
  deriving DecidableEq

variable {ι ο ρ σ : Type*}

def start (inputs : List ι) (point : σ) : System ι ο σ :=
  ⟨point, inputs, [], [], true⟩

namespace Program

variable (program : Program ι ο ρ σ)

/-! ## The task on its own -/

/-- What the task sends and returns when the receiver takes `room` items; with none it takes all. -/
def run (room : Option ℕ) (inputs : List ι) (point : σ) : List ο × ρ :=
  match _hpoint : program.resume point with
  | .done result => ([], result)
  | .receive next =>
    match inputs with
    | [] => run room [] (next none)
    | input :: inputs => run room inputs (next (some input))
  | .send item next =>
    match room with
    | none =>
      let (items, result) := run none inputs (next true)
      (item :: items, result)
    | some 0 => run (some 0) inputs (next false)
    | some (room + 1) =>
      let (items, result) := run (some room) inputs (next true)
      (item :: items, result)
termination_by program.rank inputs point
decreasing_by
  · exact program.receive_end_lt _hpoint
  · exact program.receive_lt _hpoint input inputs
  · exact program.send_lt _hpoint inputs true
  · exact program.send_lt _hpoint inputs false
  · exact program.send_lt _hpoint inputs true

variable {program}

theorem run_done {point : σ} {result : ρ} (h : program.resume point = .done result)
    (room : Option ℕ) (inputs : List ι) : program.run room inputs point = ([], result) := by
  rw [run]
  split <;> simp_all

theorem run_receive {point : σ} {next : Option ι → σ} (h : program.resume point = .receive next)
    (room : Option ℕ) (inputs : List ι) :
    program.run room inputs point = program.run room inputs.tail (next inputs.head?) := by
  rw [run]
  split <;> simp_all
  cases inputs <;> rfl

/-- A receiver with room takes the item and has room for one less. -/
theorem run_send {point : σ} {item : ο} {next : Bool → σ}
    (h : program.resume point = .send item next) (room : Option ℕ) (inputs : List ι) :
    program.run (room.map (· + 1)) inputs point =
      (item :: (program.run room inputs (next true)).1, (program.run room inputs (next true)).2) := by
  rw [run]
  split <;> simp_all
  cases room <;> rfl

theorem run_send_closed {point : σ} {item : ο} {next : Bool → σ}
    (h : program.resume point = .send item next) (inputs : List ι) :
    program.run (some 0) inputs point = program.run (some 0) inputs (next false) := by
  rw [run]
  split <;> simp_all

/-- Both cases of a send at once. -/
theorem run_send_eq {point : σ} {item : ο} {next : Bool → σ}
    (h : program.resume point = .send item next) (room : Option ℕ) (inputs : List ι) :
    program.run room inputs point =
      ((if room = some 0 then [] else [item]) ++
          (program.run (room.map (· - 1)) inputs (next (decide (room ≠ some 0)))).1,
        (program.run (room.map (· - 1)) inputs (next (decide (room ≠ some 0)))).2) := by
  match room with
  | none => simpa using run_send h none inputs
  | some 0 => simpa using run_send_closed h inputs
  | some (room + 1) => simpa using run_send h (some room) inputs

theorem rank_receive_lt {point : σ} {next : Option ι → σ}
    (h : program.resume point = .receive next) (inputs : List ι) :
    program.rank inputs.tail (next inputs.head?) < program.rank inputs point := by
  cases inputs with
  | nil => exact program.receive_end_lt h
  | cons input inputs => exact program.receive_lt h input inputs

/-- A receiver that is gone takes nothing. -/
theorem run_zero (program : Program ι ο ρ σ) (inputs : List ι) (point : σ) :
    (program.run (some 0) inputs point).1 = [] := by
  cases hpoint : program.resume point with
  | done result => rw [run_done hpoint]
  | receive next =>
    rw [run_receive hpoint]
    exact run_zero program inputs.tail (next inputs.head?)
  | send item next =>
    rw [run_send_closed hpoint]
    exact run_zero program inputs (next false)
termination_by program.rank inputs point
decreasing_by
  · exact rank_receive_lt hpoint inputs
  · exact program.send_lt hpoint inputs false

/-! ## The task on its channel -/

/-- One move, if it is possible. A task that sends to a full channel waits until the receiver takes
an item or hangs up. -/
def step (program : Program ι ο ρ σ) (depth : ℕ) (action : Action) (system : System ι ο σ) :
    Option (System ι ο σ) :=
  match action with
  | .receive =>
    match program.resume system.point with
    | .receive next =>
      some { system with point := next system.inputs.head?, inputs := system.inputs.tail }
    | _ => none
  | .send =>
    match program.resume system.point with
    | .send item next =>
      if system.connected = false then some { system with point := next false }
      else if system.queue.length < depth then
        some { system with point := next true, queue := system.queue ++ [item] }
      else none
    | _ => none
  | .deliver =>
    match system.queue with
    | item :: queue => some { system with queue, delivered := system.delivered ++ [item] }
    | [] => none
  | .hangUp => if system.connected then some { system with queue := [], connected := false } else none

/-- The moves of a schedule in order, if all are possible. -/
def exec (program : Program ι ο ρ σ) (depth : ℕ) (schedule : List Action)
    (system : System ι ο σ) : Option (System ι ο σ) :=
  schedule.foldlM (fun system action ↦ program.step depth action system) system

/-- What each move needs and does. -/
theorem step_cases {program : Program ι ο ρ σ} {depth : ℕ} {action : Action}
    {system after : System ι ο σ} (h : program.step depth action system = some after) :
    (∃ next, action = .receive ∧ program.resume system.point = .receive next ∧
      after = { system with point := next system.inputs.head?, inputs := system.inputs.tail }) ∨
    (∃ item next, action = .send ∧ program.resume system.point = .send item next ∧
      system.connected = false ∧ after = { system with point := next false }) ∨
    (∃ item next, action = .send ∧ program.resume system.point = .send item next ∧
      system.connected = true ∧ system.queue.length < depth ∧
      after = { system with point := next true, queue := system.queue ++ [item] }) ∨
    (∃ item queue, action = .deliver ∧ system.queue = item :: queue ∧
      after = { system with queue, delivered := system.delivered ++ [item] }) ∨
    (action = .hangUp ∧ system.connected = true ∧
      after = { system with queue := [], connected := false }) := by
  cases action with
  | receive =>
    cases hpoint : program.resume system.point <;> simp_all [step]
  | send =>
    cases hpoint : program.resume system.point <;> simp_all [step]
    split at h <;> simp_all
  | deliver =>
    cases hqueue : system.queue <;> simp_all [step]
  | hangUp => simp_all [step]

/-! ## Every schedule is one of the task's own runs -/

/-- The items sent so far account for the system: while the receiver is there they are what it has
taken and what is queued, and the rest of any run is still ahead; once it is gone, what it took
are all but the last few of them, and the run is the one in which the receiver takes just these. -/
structure Explains (program : Program ι ο ρ σ) (depth : ℕ) (inputs : List ι) (point : σ)
    (sent : List ο) (system : System ι ο σ) : Prop where
  output : sent <+: (program.run none inputs point).1
  bounded : system.queue.length ≤ depth
  connected : system.connected = true → sent = system.delivered ++ system.queue ∧
    ∀ room, program.run (room.map (· + sent.length)) inputs point =
      (sent ++ (program.run room system.inputs system.point).1,
        (program.run room system.inputs system.point).2)
  gone : system.connected = false → system.queue = [] ∧
    (∃ dropped, sent = system.delivered ++ dropped ∧ dropped.length ≤ depth) ∧
    program.run (some sent.length) inputs point =
      (sent, (program.run (some 0) system.inputs system.point).2)

variable {program : Program ι ο ρ σ} {depth : ℕ} {inputs : List ι} {point : σ} {sent : List ο}
  {system after : System ι ο σ}

theorem explains_start (program : Program ι ο ρ σ) (depth : ℕ) (inputs : List ι) (point : σ) :
    program.Explains depth inputs point [] (start inputs point) where
  output := List.nil_prefix
  bounded := Nat.zero_le depth
  connected _ := ⟨rfl, fun room ↦ by simp [start]⟩
  gone hgone := absurd hgone (by simp [start])

/-- Receiving leaves every run ahead as it is. -/
theorem Explains.receive {next : Option ι → σ} (h : program.Explains depth inputs point sent system)
    (hpoint : program.resume system.point = .receive next) :
    program.Explains depth inputs point sent
      { system with point := next system.inputs.head?, inputs := system.inputs.tail } where
  output := h.output
  bounded := h.bounded
  connected hthere := by
    obtain ⟨hsent, hahead⟩ := h.connected hthere
    refine ⟨hsent, fun room ↦ ?_⟩
    rw [hahead room, run_receive hpoint]
  gone hgone := by
    obtain ⟨hqueue, hdropped, hrun⟩ := h.gone hgone
    refine ⟨hqueue, hdropped, ?_⟩
    rw [hrun, run_receive hpoint]

/-- A queued item is the next one of every run that still has room for it. -/
theorem Explains.send {item : ο} {next : Bool → σ}
    (h : program.Explains depth inputs point sent system)
    (hpoint : program.resume system.point = .send item next) (hthere : system.connected = true)
    (hroom : system.queue.length < depth) :
    program.Explains depth inputs point (sent ++ [item])
      { system with point := next true, queue := system.queue ++ [item] } := by
  obtain ⟨hsent, hahead⟩ := h.connected hthere
  have hruns (room : Option ℕ) :
      program.run (room.map (· + (sent ++ [item]).length)) inputs point =
        (sent ++ [item] ++ (program.run room system.inputs (next true)).1,
          (program.run room system.inputs (next true)).2) := by
    have hsucc : room.map (· + (sent ++ [item]).length) =
        (room.map (· + 1)).map (· + sent.length) := by
      cases room with
      | none => rfl
      | some room => simp [Nat.add_assoc, Nat.add_comm 1]
    rw [hsucc, hahead, run_send hpoint, List.append_assoc]
    rfl
  refine ⟨?_, ?_, fun _ ↦ ⟨?_, hruns⟩, fun hgone ↦ absurd hgone (by simp [hthere])⟩
  · have hpatient := hruns none
    rw [Option.map_none] at hpatient
    rw [hpatient]
    exact List.prefix_append _ _
  · rw [List.length_append]
    exact hroom
  · rw [hsent, List.append_assoc]

theorem Explains.send_closed {item : ο} {next : Bool → σ}
    (h : program.Explains depth inputs point sent system)
    (hpoint : program.resume system.point = .send item next) (hgone : system.connected = false) :
    program.Explains depth inputs point sent { system with point := next false } where
  output := h.output
  bounded := h.bounded
  connected hthere := absurd hthere (by simp [hgone])
  gone _ := by
    obtain ⟨hqueue, hdropped, hrun⟩ := h.gone hgone
    refine ⟨hqueue, hdropped, ?_⟩
    rw [hrun, run_send_closed hpoint]

theorem Explains.deliver {item : ο} {queue : List ο}
    (h : program.Explains depth inputs point sent system) (hqueue : system.queue = item :: queue) :
    program.Explains depth inputs point sent
      { system with queue, delivered := system.delivered ++ [item] } where
  output := h.output
  bounded := by
    have hbounded := h.bounded
    rw [hqueue, List.length_cons] at hbounded
    exact Nat.le_of_succ_le hbounded
  connected hthere := by
    obtain ⟨hsent, hahead⟩ := h.connected hthere
    refine ⟨?_, hahead⟩
    rw [hsent, hqueue, List.append_assoc]
    rfl
  gone hgone := absurd ((h.gone hgone).1) (by simp [hqueue])

/-- From the moment the receiver is gone the task is in the run that ends its output here. -/
theorem Explains.hangUp (h : program.Explains depth inputs point sent system)
    (hthere : system.connected = true) :
    program.Explains depth inputs point sent { system with queue := [], connected := false } where
  output := h.output
  bounded := Nat.zero_le depth
  connected hthere := absurd hthere (by simp)
  gone _ := by
    obtain ⟨hsent, hahead⟩ := h.connected hthere
    refine ⟨rfl, ⟨system.queue, hsent, h.bounded⟩, ?_⟩
    have hnow := hahead (some 0)
    rw [Option.map_some, Nat.zero_add, run_zero, List.append_nil] at hnow
    exact hnow

theorem Explains.step {action : Action} (h : program.Explains depth inputs point sent system)
    (hstep : program.step depth action system = some after) :
    ∃ sent, program.Explains depth inputs point sent after := by
  obtain ⟨next, -, hpoint, rfl⟩ | ⟨item, next, -, hpoint, hgone, rfl⟩ |
    ⟨item, next, -, hpoint, hthere, hroom, rfl⟩ | ⟨item, queue, -, hqueue, rfl⟩ | ⟨-, hthere, rfl⟩ :=
    step_cases hstep
  · exact ⟨sent, h.receive hpoint⟩
  · exact ⟨sent, h.send_closed hpoint hgone⟩
  · exact ⟨sent ++ [item], h.send hpoint hthere hroom⟩
  · exact ⟨sent, h.deliver hqueue⟩
  · exact ⟨sent, h.hangUp hthere⟩

theorem exec_cons {action : Action} {schedule : List Action} :
    program.exec depth (action :: schedule) system = some after ↔
      ∃ next, program.step depth action system = some next ∧
        program.exec depth schedule next = some after := by
  simp [exec, Option.bind_eq_some_iff]

/-- Whatever every possible move keeps is kept by every schedule. -/
theorem exec_invariant (invariant : System ι ο σ → Prop)
    (hstep : ∀ action system after, invariant system →
      program.step depth action system = some after → invariant after)
    {schedule : List Action} (hexec : program.exec depth schedule system = some after)
    (h : invariant system) : invariant after := by
  induction schedule generalizing system with
  | nil =>
    obtain rfl : system = after := Option.some.inj hexec
    exact h
  | cons action schedule ih =>
    obtain ⟨next, hfirst, hrest⟩ := exec_cons.mp hexec
    exact ih hrest (hstep action system next h hfirst)

theorem exec_explains {schedule : List Action}
    (h : program.exec depth schedule (start inputs point) = some system) :
    ∃ sent, program.Explains depth inputs point sent system := by
  refine exec_invariant (fun system ↦ ∃ sent, program.Explains depth inputs point sent system) ?_ h
    ⟨[], explains_start program depth inputs point⟩
  rintro action system after ⟨sent, hexplains⟩ hstep
  exact hexplains.step hstep

/-! ## What holds of every schedule -/

/-- The queue never grows beyond its depth. -/
theorem queue_length_le {schedule : List Action}
    (h : program.exec depth schedule (start inputs point) = some system) :
    system.queue.length ≤ depth := by
  obtain ⟨sent, hexplains⟩ := exec_explains h
  exact hexplains.bounded

/-- What the receiver has taken, and behind it what is queued, is the beginning of the output. -/
theorem delivered_prefix {schedule : List Action}
    (h : program.exec depth schedule (start inputs point) = some system) :
    system.delivered ++ system.queue <+: (program.run none inputs point).1 := by
  obtain ⟨sent, hexplains⟩ := exec_explains h
  cases hthere : system.connected with
  | true =>
    rw [← (hexplains.connected hthere).1]
    exact hexplains.output
  | false =>
    obtain ⟨hqueue, ⟨dropped, hsent, -⟩, -⟩ := hexplains.gone hthere
    have hdelivered : system.delivered <+: sent := hsent ▸ List.prefix_append _ _
    rw [hqueue, List.append_nil]
    exact hdelivered.trans hexplains.output

/-- A task that has returned while the receiver was there returned what it returns on its own, with
its whole output taken or queued. -/
theorem returned_connected {schedule : List Action} {result : ρ}
    (h : program.exec depth schedule (start inputs point) = some system)
    (hdone : program.resume system.point = .done result) (hthere : system.connected = true) :
    program.run none inputs point = (system.delivered ++ system.queue, result) := by
  obtain ⟨sent, hexplains⟩ := exec_explains h
  obtain ⟨hsent, hahead⟩ := hexplains.connected hthere
  have hpatient := hahead none
  rw [Option.map_none, run_done hdone, List.append_nil] at hpatient
  rw [hpatient, hsent]

/-- A task that has returned after the receiver hung up returned what it returns to a receiver that
takes a fixed number of items: all that were taken and at most a full queue more. -/
theorem returned_gone {schedule : List Action} {result : ρ}
    (h : program.exec depth schedule (start inputs point) = some system)
    (hdone : program.resume system.point = .done result) (hgone : system.connected = false) :
    ∃ dropped, dropped.length ≤ depth ∧
      system.delivered ++ dropped <+: (program.run none inputs point).1 ∧
      program.run (some (system.delivered ++ dropped).length) inputs point =
        (system.delivered ++ dropped, result) := by
  obtain ⟨sent, hexplains⟩ := exec_explains h
  obtain ⟨-, ⟨dropped, rfl, hdropped⟩, hrun⟩ := hexplains.gone hgone
  refine ⟨dropped, hdropped, hexplains.output, ?_⟩
  rw [hrun, run_done hdone]

/-! ## No schedule gets stuck or goes on for ever -/

/-- Unless the task has returned and everything is taken or dropped, something other than hanging
up can happen. -/
theorem exists_step (hdepth : 0 < depth)
    (h : ¬ ((∃ result, program.resume system.point = .done result) ∧ system.queue = [])) :
    ∃ action, action ≠ .hangUp ∧ ∃ after, program.step depth action system = some after := by
  cases hqueue : system.queue with
  | cons item queue => exact ⟨.deliver, by decide, _, by rw [step, hqueue]⟩
  | nil =>
    cases hpoint : program.resume system.point with
    | receive next => exact ⟨.receive, by decide, _, by rw [step, hpoint]⟩
    | send item next =>
      refine ⟨.send, by decide, ?_⟩
      simp only [step, hpoint, hqueue, List.length_nil, hdepth, if_true]
      split
      · exact ⟨_, rfl⟩
      · exact ⟨_, rfl⟩
    | done result => exact absurd ⟨⟨result, hpoint⟩, hqueue⟩ h

/-- A task that cannot move has returned, or waits for a receiver that leaves the queue full. -/
theorem blocked_cases (hreceive : program.step depth .receive system = none)
    (hsend : program.step depth .send system = none) :
    (∃ result, program.resume system.point = .done result) ∨
      system.connected = true ∧ depth ≤ system.queue.length := by
  cases hpoint : program.resume system.point with
  | done result => exact Or.inl ⟨result, rfl⟩
  | receive next => simp [step, hpoint] at hreceive
  | send item next =>
    cases hthere : system.connected with
    | false => simp [step, hpoint, hthere] at hsend
    | true =>
      refine Or.inr ⟨rfl, ?_⟩
      simpa [step, hpoint, hthere] using hsend

/-- At rest there is nothing to do but to hang up. -/
theorem step_eq_none_of_rest {result : ρ} {action : Action}
    (hdone : program.resume system.point = .done result) (hqueue : system.queue = [])
    (haction : action ≠ .hangUp) : program.step depth action system = none := by
  cases action with
  | hangUp => exact absurd rfl haction
  | _ => simp [step, hdone, hqueue]

/-- What every move lowers: the rank of the task, and below it what the receiver has yet to do. -/
def potential (program : Program ι ο ρ σ) (system : System ι ο σ) : (ℕ ×ₗ ℕ) ×ₗ ℕ :=
  toLex (program.rank system.inputs system.point,
    system.queue.length + if system.connected then 1 else 0)

theorem potential_lt {action : Action} (h : program.step depth action system = some after) :
    program.potential after < program.potential system := by
  unfold potential
  rw [Prod.Lex.toLex_lt_toLex]
  obtain ⟨next, -, hpoint, rfl⟩ | ⟨item, next, -, hpoint, -, rfl⟩ |
    ⟨item, next, -, hpoint, -, -, rfl⟩ | ⟨item, queue, -, hqueue, rfl⟩ | ⟨-, hthere, rfl⟩ :=
    step_cases h
  · exact Or.inl (rank_receive_lt hpoint system.inputs)
  · exact Or.inl (program.send_lt hpoint system.inputs false)
  · exact Or.inl (program.send_lt hpoint system.inputs true)
  · refine Or.inr ⟨rfl, ?_⟩
    simp only [hqueue, List.length_cons]
    omega
  · refine Or.inr ⟨rfl, ?_⟩
    simp [hthere]

/-- Every schedule ends, whoever is moved when. -/
theorem wellFounded_step (program : Program ι ο ρ σ) (depth : ℕ) :
    WellFounded fun after system ↦ ∃ action, program.step depth action system = some after :=
  (InvImage.wf program.potential wellFounded_lt).mono fun _ _ h ↦ potential_lt h.choose_spec

/-- A receiver that never hangs up is there in the end. -/
theorem connected_of_exec {schedule : List Action} (hschedule : .hangUp ∉ schedule)
    (h : program.exec depth schedule system = some after) (hthere : system.connected = true) :
    after.connected = true := by
  induction schedule generalizing system with
  | nil =>
    obtain rfl : system = after := Option.some.inj h
    exact hthere
  | cons action schedule ih =>
    obtain ⟨next, hfirst, hrest⟩ := exec_cons.mp h
    obtain ⟨haction, hlater⟩ := not_or.mp (mt List.mem_cons.mpr hschedule)
    refine ih hlater hrest ?_
    obtain ⟨_, -, -, rfl⟩ | ⟨_, _, -, -, -, rfl⟩ | ⟨_, _, -, -, -, -, rfl⟩ | ⟨_, _, -, -, rfl⟩ |
      ⟨hhangUp, -⟩ := step_cases hfirst
    · exact hthere
    · exact hthere
    · exact hthere
    · exact hthere
    · exact absurd hhangUp.symm haction

/-- Against a receiver that stays, a system at rest has delivered the whole output. -/
theorem delivered_all {schedule : List Action} (hdepth : 0 < depth)
    (hschedule : .hangUp ∉ schedule)
    (h : program.exec depth schedule (start inputs point) = some system)
    (hrest : ∀ action, action ≠ .hangUp → program.step depth action system = none) :
    ∃ result, program.resume system.point = .done result ∧
      program.run none inputs point = (system.delivered, result) := by
  have hthere : system.connected = true := connected_of_exec hschedule h rfl
  by_cases hidle : (∃ result, program.resume system.point = .done result) ∧ system.queue = []
  · obtain ⟨⟨result, hdone⟩, hqueue⟩ := hidle
    have hrun := returned_connected h hdone hthere
    rw [hqueue, List.append_nil] at hrun
    exact ⟨result, hdone, hrun⟩
  · obtain ⟨action, haction, after, hafter⟩ := exists_step hdepth hidle
    exact absurd hafter (by simp [hrest action haction])

/-- Whatever has happened, the task and the receiver can bring things to an end between them. -/
theorem exists_rest (hdepth : 0 < depth) (system : System ι ο σ) :
    ∃ schedule after, .hangUp ∉ schedule ∧ program.exec depth schedule system = some after ∧
      (∃ result, program.resume after.point = .done result) ∧ after.queue = [] := by
  induction system using (wellFounded_step program depth).induction with
  | h system ih =>
    by_cases hrest : (∃ result, program.resume system.point = .done result) ∧ system.queue = []
    · exact ⟨[], system, List.not_mem_nil, rfl, hrest⟩
    · obtain ⟨action, haction, next, hnext⟩ := exists_step hdepth hrest
      obtain ⟨schedule, after, hschedule, hexec, hafter⟩ := ih next ⟨action, hnext⟩
      refine ⟨action :: schedule, after, ?_, exec_cons.mpr ⟨next, hnext, hexec⟩, hafter⟩
      rw [List.mem_cons, not_or]
      exact ⟨Ne.symm haction, hschedule⟩

end Program

end VertexGateway.BoundedChannel
