import VertexGateway.Forward.Upstream
import VertexGateway.Sse.LineCap

/-!
# Lines that arrive with a runaway line

A push that reports a line beyond the cap drops the lines it has already taken out of the chunk, so
the events of a chunk that also begins a runaway line never reach the client.
-/

namespace VertexGateway.Forward

open Sse Framing

/-- Reading goes on behind chunks that are accepted. -/
theorem receive_append {acc pushed : LineAccumulator} {front : List (List UInt8)}
    {lines : List String} (h : acc.pushAll front = (pushed, .ok lines)) (upstream : List Part) :
    (receive (front.map .ok ++ upstream) acc).lines = lines ++ (receive upstream pushed).lines := by
  induction front generalizing acc lines with
  | nil =>
    obtain ⟨rfl, hlines⟩ := Prod.mk.inj h
    obtain rfl := Except.ok.inj hlines
    rfl
  | cons chunk front ih =>
    obtain ⟨next, found, more, hpush, hmore, rfl⟩ := LineAccumulator.pushAll_cons_ok h
    rw [List.map_cons, List.cons_append, receive, hpush]
    simp only [ih hmore, List.append_assoc]

/-- A push beyond the cap yields no lines at all. -/
theorem receive_over {acc : LineAccumulator} {chunk : List UInt8}
    (h : acc.limit < (remainder 0x0A (acc.buf ++ chunk)).length) (upstream : List Part) :
    (receive (.ok chunk :: upstream) acc).lines = [] := by
  rw [receive, LineAccumulator.push_eq, if_pos h]

/-- The lines of a stream are those of the chunks before the one that fails. -/
theorem receive_lines_of_over {front : List (List UInt8)} {chunk : List UInt8}
    (hfront : ¬ Rejects defaultMaxLineBytes front)
    (hover : defaultMaxLineBytes < (remainder 0x0A (front ++ [chunk]).flatten).length)
    (upstream : List Part) :
    (receive ((front ++ [chunk]).map .ok ++ upstream) .new).lines =
      (frames 0x0A front.flatten).map decodeLine := by
  rcases hpush : LineAccumulator.new.pushAll front with ⟨pushed, message | lines⟩
  · exact absurd ⟨message, congrArg Prod.snd hpush⟩ hfront
  · have hnew : 0x0A ∉ LineAccumulator.new.buf := List.not_mem_nil
    obtain ⟨hbuf, hlines⟩ := LineAccumulator.pushAll_ok hnew hpush
    have hlimit : pushed.limit = defaultMaxLineBytes := LineAccumulator.limit_of_pushAll hpush
    have hopen : pushed.limit < (remainder 0x0A (pushed.buf ++ chunk)).length := by
      rw [hlimit, hbuf, ← remainder_append]
      simpa [LineAccumulator.new] using hover
    rw [List.map_append, List.append_assoc, receive_append hpush, List.map_singleton,
      List.singleton_append, receive_over hopen, List.append_nil, hlines]
    rfl

/-- **A failing push loses the lines of its chunk.** Successive pushes lose no terminated line
exactly when no chunk with a newline leaves more than the cap open; and a streaming response
processes all lines received with the first chunk that fails exactly when that chunk has no
newline. -/
theorem lines_with_runaway_line (limit : ℕ) :
    (∀ chunks, NothingLost limit chunks ↔
      ∀ front chunk, front ++ [chunk] <+: chunks →
        limit < (remainder 0x0A (front ++ [chunk]).flatten).length → 0x0A ∉ chunk) ∧
    ∀ front chunk upstream, ¬ Rejects defaultMaxLineBytes front →
      defaultMaxLineBytes < (remainder 0x0A (front ++ [chunk]).flatten).length →
      ((receive ((front ++ [chunk]).map .ok ++ upstream) .new).lines =
          (frames 0x0A (front ++ [chunk]).flatten).map decodeLine ↔
        0x0A ∉ chunk) := by
  refine ⟨nothingLost_iff limit, ?_⟩
  intro front chunk upstream hfront hover
  have hopen : 0x0A ∉ remainder 0x0A front.flatten := notMem_remainder 0x0A front.flatten
  rw [receive_lines_of_over hfront hover, List.flatten_append, List.flatten_singleton,
    frames_append, List.map_append, List.self_eq_append_right, List.map_eq_nil_iff,
    frames_eq_nil_iff, List.mem_append, not_or]
  exact and_iff_right hopen

/-- A complete line and the start of a line that is already too long. -/
def runawayChunk (limit : ℕ) : List UInt8 :=
  [0x61] ++ 0x0A :: List.replicate (limit + 1) 0x62

theorem remainder_runawayChunk (limit : ℕ) :
    remainder 0x0A (runawayChunk limit) = List.replicate (limit + 1) 0x62 := by
  have hline : (0x0A : UInt8) ∉ [0x61] := by decide
  have hopen : (0x0A : UInt8) ∉ List.replicate (limit + 1) 0x62 := by simp [List.mem_replicate]
  unfold runawayChunk
  rw [remainder_terminated hline, remainder_of_notMem hopen]

theorem lines_with_runaway_line_first :
    (receive (([] ++ [runawayChunk defaultMaxLineBytes]).map .ok ++ []) .new).lines =
        (frames 0x0A ([] ++ [runawayChunk defaultMaxLineBytes]).flatten).map decodeLine ↔
      0x0A ∉ runawayChunk defaultMaxLineBytes := by
  apply (lines_with_runaway_line 2).2 [] (runawayChunk defaultMaxLineBytes) []
  · rintro ⟨message, hmessage⟩
    exact absurd hmessage (by simp [LineAccumulator.pushAll])
  · rw [List.nil_append, List.flatten_singleton, remainder_runawayChunk, List.length_replicate]
    exact Nat.lt_succ_self _

/-- The line before the runaway line is neither returned nor kept. -/
theorem runaway_line_loses_line :
    (LineAccumulator.withLimit 2).push (runawayChunk 2) =
        (⟨[0x62, 0x62, 0x62], 2⟩, .error (LineAccumulator.exceededMessage 2)) ∧
      (frames 0x0A (runawayChunk 2)).map decodeLine = ["a"] ∧
      ¬ NothingLost 2 [runawayChunk 2] := by
  refine ⟨by decide +kernel, by decide +kernel, ?_⟩
  have hlost : ((LineAccumulator.withLimit 2).pushEach [runawayChunk 2]).2 ++
      (frames 0x0A ((LineAccumulator.withLimit 2).pushEach [runawayChunk 2]).1.buf).map decodeLine ≠
        (frames 0x0A [runawayChunk 2].flatten).map decodeLine := by
    decide +kernel
  exact hlost

end VertexGateway.Forward
