import VertexGateway.Forward.StreamResponse

/-!
# How an upstream ends

An upstream is a list of byte chunks, possibly broken off by a transport error. Whether the stream
counts as complete is decided by its bytes alone: no transport error, no line beyond the cap, and
nothing left over after the last newline.
-/

namespace VertexGateway.Forward

open Sse

/-- The chunks that arrive before the first transport error. -/
def okChunks : List Part → List (List UInt8)
  | .ok chunk :: upstream => chunk :: okChunks upstream
  | _ => []

/-- A transport error is reported at some point. -/
def TransportFails (upstream : List Part) : Prop :=
  ∃ message, .error message ∈ upstream

/-- Some push reports a line beyond the cap. -/
def PushFails (upstream : List Part) : Prop :=
  ∃ message, (LineAccumulator.new.pushAll (okChunks upstream)).2 = .error message

/-- The bytes received after the last newline, one trailing CR stripped. -/
def leftover (upstream : List Part) : List UInt8 :=
  stripSuffixCr (Framing.remainder 0x0A (okChunks upstream).flatten)

/-- The three ways a stream ends abnormally. -/
def EndsAbnormally (upstream : List Part) : Prop :=
  TransportFails upstream ∨ PushFails upstream ∨ leftover upstream ≠ []

theorem okChunks_map_ok (chunks : List (List UInt8)) : okChunks (chunks.map .ok) = chunks := by
  induction chunks with
  | nil => rfl
  | cons chunk chunks ih => rw [List.map_cons, okChunks, ih]

theorem not_transportFails_iff (upstream : List Part) :
    ¬ TransportFails upstream ↔ upstream = (okChunks upstream).map .ok := by
  induction upstream with
  | nil => simp [TransportFails, okChunks]
  | cons part upstream ih =>
    rw [TransportFails] at ih ⊢
    cases part with
    | error message => simp [okChunks]
    | ok chunk => simpa [okChunks] using ih

/-! ## What is received -/

theorem receive_acc (upstream : List Part) (acc : LineAccumulator) :
    (receive upstream acc).acc = (acc.pushAll (okChunks upstream)).1 := by
  induction upstream generalizing acc with
  | nil => rfl
  | cons part upstream ih =>
    cases part with
    | error message => rfl
    | ok chunk =>
      rw [receive, okChunks, LineAccumulator.pushAll]
      rcases acc.push chunk with ⟨next, message | lines⟩
      · rfl
      · simp only [ih]
        rcases next.pushAll (okChunks upstream) with ⟨last, message | more⟩ <;> rfl

theorem receive_failure_eq_none_iff (upstream : List Part) (acc : LineAccumulator) :
    (receive upstream acc).failure = none ↔
      ¬ TransportFails upstream ∧ ∃ lines, (acc.pushAll (okChunks upstream)).2 = .ok lines := by
  rw [TransportFails]
  induction upstream generalizing acc with
  | nil => simp [receive, okChunks, LineAccumulator.pushAll]
  | cons part upstream ih =>
    cases part with
    | error message => simp [receive]
    | ok chunk =>
      rw [receive, okChunks, LineAccumulator.pushAll]
      rcases acc.push chunk with ⟨next, message | lines⟩
      · simp
      · simp only [ih, List.mem_cons, reduceCtorEq, false_or]
        rcases next.pushAll (okChunks upstream) with ⟨last, message | more⟩ <;> simp

theorem receive_lines {upstream : List Part} {acc : LineAccumulator} {lines : List String}
    (h : (acc.pushAll (okChunks upstream)).2 = .ok lines) :
    (receive upstream acc).lines = lines := by
  induction upstream generalizing acc lines with
  | nil => exact Except.ok.inj h
  | cons part upstream ih =>
    cases part with
    | error message => exact Except.ok.inj h
    | ok chunk =>
      rw [okChunks, LineAccumulator.pushAll] at h
      rw [receive]
      rcases hpush : acc.push chunk with ⟨next, message | found⟩
      · simp [hpush] at h
      · rcases hmore : next.pushAll (okChunks upstream) with ⟨last, message | more⟩
        · simp [hpush, hmore] at h
        · simp only [hpush, hmore, Except.ok.injEq] at h
          simp only [ih (congrArg Prod.snd hmore), h]

/-- A failing push leaves more than the cap in the buffer. -/
theorem limit_lt_of_pushAll_error {acc last : LineAccumulator} {chunks : List (List UInt8)}
    {message : String} (h : acc.pushAll chunks = (last, .error message)) :
    acc.limit < last.buf.length := by
  induction chunks generalizing acc message with
  | nil => exact absurd (Prod.mk.inj h).2 (by simp)
  | cons chunk chunks ih =>
    rw [LineAccumulator.pushAll] at h
    split at h
    · next pushed _ hpush =>
      obtain ⟨rfl, -⟩ := Prod.mk.inj h
      exact LineAccumulator.push_error hpush
    · next pushed lines hpush =>
      have hlimit : pushed.limit = acc.limit := by
        rw [← LineAccumulator.limit_push acc chunk, hpush]
      split at h
      · next hmore =>
        obtain ⟨rfl, -⟩ := Prod.mk.inj h
        rw [← hlimit]
        exact ih hmore
      · exact absurd (Prod.mk.inj h).2 (by simp)

theorem stripSuffixCr_ne_nil {raw : List UInt8} (h : 1 < raw.length) : stripSuffixCr raw ≠ [] := by
  unfold stripSuffixCr
  split
  · rw [← List.length_pos_iff, List.length_dropLast]
    omega
  · exact List.ne_nil_of_length_pos (by omega)

/-- The task finds a fragment in its accumulator exactly when a push failed or bytes are left over
after the last newline. -/
theorem finish_receive_isSome_iff (upstream : List Part) :
    (receive upstream .new).acc.finish.2.isSome = true ↔
      PushFails upstream ∨ leftover upstream ≠ [] := by
  rw [← Option.ne_none_iff_isSome, ne_eq, LineAccumulator.finish_eq_none_iff, receive_acc,
    PushFails, leftover]
  rcases hpush : LineAccumulator.new.pushAll (okChunks upstream) with ⟨last, message | lines⟩
  · have hlength := limit_lt_of_pushAll_error hpush
    have hcap : 1 ≤ LineAccumulator.new.limit := by decide
    simp [stripSuffixCr_ne_nil (hcap.trans_lt hlength)]
  · have hnew : 0x0A ∉ LineAccumulator.new.buf := List.not_mem_nil
    have hbuf := (LineAccumulator.pushAll_ok hnew hpush).1
    simp only [LineAccumulator.new, List.nil_append] at hbuf
    simp [hbuf]

theorem not_pushFails_iff (upstream : List Part) :
    ¬ PushFails upstream ↔
      ∃ lines, (LineAccumulator.new.pushAll (okChunks upstream)).2 = .ok lines := by
  unfold PushFails
  cases (LineAccumulator.new.pushAll (okChunks upstream)).2 <;> simp

/-- The two flags that guard the ending are raised by nothing but an abnormal end. -/
theorem failed_or_truncated_iff (upstream : List Part) :
    ((receive upstream .new).failure.isSome || (receive upstream .new).acc.finish.2.isSome) = true ↔
      EndsAbnormally upstream := by
  rw [Bool.or_eq_true, finish_receive_isSome_iff, ← Option.ne_none_iff_isSome, ne_eq,
    receive_failure_eq_none_iff, ← not_pushFails_iff, EndsAbnormally]
  tauto

/-! ## Completed streams -/

/-- The chunks stay within the cap and end on a line boundary. -/
structure Completed (chunks : List (List UInt8)) : Prop where
  pushes : ∃ lines, (LineAccumulator.new.pushAll chunks).2 = .ok lines
  boundary : stripSuffixCr (Framing.remainder 0x0A chunks.flatten) = []

instance (chunks : List (List UInt8)) : Decidable (Completed chunks) :=
  decidable_of_iff ((LineAccumulator.new.pushAll chunks).2.isOk = true ∧
      stripSuffixCr (Framing.remainder 0x0A chunks.flatten) = []) <| by
    constructor
    · rintro ⟨hpush, hboundary⟩
      refine ⟨?_, hboundary⟩
      cases hresult : (LineAccumulator.new.pushAll chunks).2 with
      | error message => simp [hresult, Except.isOk, Except.toBool] at hpush
      | ok lines => exact ⟨lines, rfl⟩
    · rintro ⟨⟨lines, hlines⟩, hboundary⟩
      exact ⟨by rw [hlines]; rfl, hboundary⟩

theorem Completed.not_endsAbnormally {chunks : List (List UInt8)} (h : Completed chunks) :
    ¬ EndsAbnormally (chunks.map .ok) := by
  have hpush := (not_pushFails_iff (chunks.map .ok)).mpr (by rw [okChunks_map_ok]; exact h.pushes)
  have htransport := (not_transportFails_iff (chunks.map .ok)).mpr (by rw [okChunks_map_ok])
  have hleftover : leftover (chunks.map .ok) = [] := by
    unfold leftover
    rw [okChunks_map_ok, h.boundary]
  unfold EndsAbnormally
  tauto

/-- A completed stream is read as the lines of its bytes. -/
theorem Completed.receive_lines {chunks : List (List UInt8)} (h : Completed chunks) :
    (receive (chunks.map .ok) .new).lines = referenceLines chunks.flatten := by
  obtain ⟨lines, hlines⟩ := h.pushes
  have hpush : (LineAccumulator.withLimit defaultMaxLineBytes).pushAll chunks =
      ((LineAccumulator.new.pushAll chunks).1, .ok lines) := Prod.ext rfl hlines
  have hfinish : (LineAccumulator.new.pushAll chunks).1.finish.2 = none := by
    have hacc := receive_acc (chunks.map .ok) .new
    rw [okChunks_map_ok] at hacc
    rw [← hacc, ← Option.not_isSome_iff_eq_none, finish_receive_isSome_iff]
    exact fun habnormal ↦ h.not_endsAbnormally (Or.inr habnormal)
  calc
    (receive (chunks.map .ok) .new).lines = lines :=
      Forward.receive_lines (by rw [okChunks_map_ok, hlines])
    _ = lines ++ (LineAccumulator.new.pushAll chunks).1.finish.2.toList := by
      rw [hfinish, Option.toList_none, List.append_nil]
    _ = referenceLines chunks.flatten := lines_eq_referenceLines hpush

/-- The output of a completed stream: the frames of its lines and the regular ending. -/
theorem Completed.streamResponse_eq {chunks : List (List UInt8)} (h : Completed chunks)
    (serde : SerdeJson) (model : String) (status : UInt16) (duration : ℕ) :
    streamResponse serde model status duration none (chunks.map .ok) =
      let lines := referenceLines chunks.flatten
      let state := (processLines serde lines .new).1
      ((lines.filterMap (forwarded serde) ++ toolFrames serde state ++
          [sseLine serde (terminalChunk model state), doneFrame]).map .ok,
        { model, status, streamed := true, duration,
          usage := (lines.filterMap (lineUsage serde)).getLast? }) := by
  have hflags := h.not_endsAbnormally
  rw [← failed_or_truncated_iff, Bool.or_eq_true, not_or, Bool.not_eq_true, Bool.not_eq_true] at hflags
  have hfailure : (receive (chunks.map .ok) .new).failure = none := by
    rw [← Option.isNone_iff_eq_none, ← Option.not_isSome, hflags.1]
    rfl
  rw [Forward.streamResponse_eq]
  simp [h.receive_lines, processLines_eq, ending, hfailure, hflags.2]

/-- The frames that a completed stream sends. -/
theorem Completed.sent_iff {chunks : List (List UInt8)} (h : Completed chunks) (serde : SerdeJson)
    (model : String) (status : UInt16) (duration : ℕ) (frame : String) :
    let lines := referenceLines chunks.flatten
    let state := (processLines serde lines .new).1
    .ok frame ∈ (streamResponse serde model status duration none (chunks.map .ok)).1 ↔
      frame ∈ lines.filterMap (forwarded serde) ∨ frame ∈ toolFrames serde state ∨
        frame = sseLine serde (terminalChunk model state) ∨ frame = doneFrame := by
  rw [h.streamResponse_eq]
  simp only [List.mem_map, Except.ok.injEq, exists_eq_right, List.mem_append, List.mem_cons,
    List.not_mem_nil, or_false, or_assoc]

end VertexGateway.Forward
