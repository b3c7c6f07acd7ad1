import VertexGateway.Forward.Frame
import VertexGateway.Forward.Upstream

/-!
# When the terminator tells the truth

`[DONE]` means that the turn completed. The task drops the upstream's own and sends one as its very
last item, exactly when the upstream ended neither with an error nor inside a line; any other stream
ends in an error item. But the gateway ends its lines at LF or CRLF only, and what is no JSON it
forwards as it stands. A client also ends lines at a CR: where a CR parts such a line, the client
may find a sentinel in it that the gateway did not look for.
-/

namespace VertexGateway.Forward

open Sse (dataPayload)

/-! ## What a client reads -/

/-- The lines of a text as a client of an event stream reads them: ended by LF, CRLF or a CR alone.
Inside a CRLF stands an empty piece, which has no payload. -/
def clientLines (text : String) : List String :=
  (text.toList.splitOnP fun c ↦ c == '\n' || c == '\r').map String.ofList

/-- One of the lines a client reads has the sentinel for its payload. -/
def HoldsDone (text : String) : Prop :=
  ∃ line ∈ clientLines text, linePayload line = some "[DONE]"

instance (text : String) : Decidable (HoldsDone text) :=
  inferInstanceAs (Decidable (∃ line ∈ clientLines text, linePayload line = some "[DONE]"))

/-- An item that a client reads as the end of a completed turn. -/
def CarriesDone : Item → Prop
  | .ok frame => HoldsDone frame
  | .error _ => False

theorem clientLines_newline (front rest : String) :
    clientLines (front ++ "\n" ++ rest) = clientLines front ++ clientLines rest := by
  have htext : (front ++ "\n" ++ rest).toList = front.toList ++ '\n' :: rest.toList := by
    rw [String.toList_append, String.toList_append, List.append_assoc]
    rfl
  unfold clientLines
  rw [htext, List.splitOnP_append_cons _ _ (by decide), List.map_append]

/-- A text without line breaks is one line. -/
theorem clientLines_of_notMem {text : String} (hnewline : '\n' ∉ text.toList)
    (hreturn : '\r' ∉ text.toList) : clientLines text = [text] := by
  have hbreak : ∀ c ∈ text.toList, (c == '\n' || c == '\r') = false := by
    intro c hc
    rw [Bool.or_eq_false_iff, beq_eq_false_iff_ne, beq_eq_false_iff_ne]
    exact ⟨fun heq ↦ hnewline (heq ▸ hc), fun heq ↦ hreturn (heq ▸ hc)⟩
  rw [clientLines, List.splitOnP_eq_singleton hbreak, List.map_singleton, String.ofList_toList]

/-- The blank line at the end of a frame adds nothing. -/
theorem holdsDone_frame (line : String) : HoldsDone (line ++ "\n\n") ↔ HoldsDone line := by
  have hblank : clientLines (line ++ "\n\n") = clientLines line ++ ["", ""] := by
    rw [show "\n\n" = "\n" ++ "\n" from rfl, ← String.append_assoc, clientLines_newline]
    rfl
  have hempty : linePayload "" = none := by decide +kernel
  simp [HoldsDone, hblank, hempty, or_and_right, exists_or]

theorem holdsDone_doneFrame : HoldsDone doneFrame := by
  decide +kernel

theorem printable_line {serde : SerdeJson} (hprint : serde.Printable) (chunk : Value) :
    Json.Printable ("data: " ++ serde.display chunk).toList := by
  rw [String.toList_append, Json.printable_append]
  exact ⟨by simp, hprint.display_printable chunk⟩

/-- Printed JSON is one line, and not the sentinel. -/
theorem not_holdsDone_sseLine {serde : SerdeJson} (hprint : serde.Printable)
    (hdone : ∀ value, serde.display value ≠ "[DONE]") (chunk : Value) :
    ¬ HoldsDone (sseLine serde chunk) := by
  have hline := printable_line hprint chunk
  rw [sseLine, holdsDone_frame, HoldsDone,
    clientLines_of_notMem (hline.notMem (by decide)) (hline.notMem (by decide))]
  simp [linePayload_data, hdone chunk]

/-- A line that is forwarded as it stands, being no JSON, although a client reads the sentinel in
it. -/
def HidesDone (serde : SerdeJson) (line : String) : Prop :=
  (∃ payload, dataPayload line = some payload ∧ serde.fromStr payload = none) ∧ HoldsDone line

/-! ## The last item -/

/-- Before the last item come frames of lines and printed chunks, and every frame of a line is among
them. The last item says how the stream ended. -/
theorem streamResponse_last (serde : SerdeJson) (model : String) (status : UInt16) (duration : ℕ)
    (upstream : List Part) :
    ∃ (frames : List String) (last : Item),
      (streamResponse serde model status duration none upstream).1 = frames.map .ok ++ [last] ∧
      (∀ frame ∈ frames, (∃ line ∈ (receive upstream .new).lines,
        forwarded serde line = some frame) ∨ ∃ chunk, frame = sseLine serde chunk) ∧
      (∀ line ∈ (receive upstream .new).lines, ∀ frame, forwarded serde line = some frame →
        frame ∈ frames) ∧
      (EndsAbnormally upstream ∧ last = .error endError ∨
        ¬ EndsAbnormally upstream ∧ last = .ok doneFrame) := by
  let reception := receive upstream .new
  let state := (processLines serde reception.lines .new).1
  refine ⟨reception.lines.filterMap (forwarded serde) ++
    (reception.failure.toList.map (sseError serde) ++
      if reception.acc.finish.2.isSome then [sseError serde truncatedMessage]
      else toolFrames serde state ++ [sseLine serde (terminalChunk model state)]),
    if reception.failure.isSome || reception.acc.finish.2.isSome then .error endError
    else .ok doneFrame, ?_, ?_, ?_, ?_⟩
  · rw [streamResponse_eq]
    simp only [processLines_eq, ending, reception, state, List.map_append, List.map_map,
      List.append_assoc]
    split <;> simp [Function.comp_def]
  · intro frame hframe
    rcases List.mem_append.mp hframe with hline | hprinted
    · obtain ⟨line, hmem, hforwarded⟩ := List.mem_filterMap.mp hline
      exact Or.inl ⟨line, hmem, hforwarded⟩
    · right
      rcases List.mem_append.mp hprinted with hfailure | hending
      · obtain ⟨message, -, rfl⟩ := List.mem_map.mp hfailure
        exact ⟨_, rfl⟩
      · split at hending
        · exact ⟨_, List.mem_singleton.mp hending⟩
        · rcases List.mem_append.mp hending with htools | hterminal
          · exact ⟨_, eq_of_mem_toolFrames htools⟩
          · exact ⟨_, List.mem_singleton.mp hterminal⟩
  · intro line hline frame hframe
    exact List.mem_append_left _ (List.mem_filterMap.mpr ⟨line, hline, hframe⟩)
  · rw [← failed_or_truncated_iff]
    split
    · next habnormal => exact Or.inl ⟨habnormal, rfl⟩
    · next hcomplete => exact Or.inr ⟨hcomplete, rfl⟩

/-- The sentinel is read at most once, in the last item, and there exactly when nothing went wrong.
Otherwise the last item is an error. -/
def TellsEnd (upstream : List Part) (items : List Item) : Prop :=
  ∃ front last, items = front ++ [last] ∧ (∀ item ∈ front, ¬ CarriesDone item) ∧
    (CarriesDone last ↔
      ¬ TransportFails upstream ∧ ¬ PushFails upstream ∧ leftover upstream = []) ∧
    (¬ CarriesDone last → ∃ error, last = .error error)

/-- The last item is truthful in every run. -/
theorem tellsEnd_of_front {upstream : List Part} {front : List Item} {last : Item}
    (hlast : EndsAbnormally upstream ∧ last = .error endError ∨
      ¬ EndsAbnormally upstream ∧ last = .ok doneFrame)
    (hfront : ∀ item ∈ front, ¬ CarriesDone item) : TellsEnd upstream (front ++ [last]) := by
  have hends : ¬ TransportFails upstream ∧ ¬ PushFails upstream ∧ leftover upstream = [] ↔
      ¬ EndsAbnormally upstream := by
    unfold EndsAbnormally
    tauto
  refine ⟨front, last, rfl, hfront, ?_, ?_⟩
  · rw [hends]
    rcases hlast with ⟨habnormal, rfl⟩ | ⟨hcomplete, rfl⟩
    · exact iff_of_false id (not_not_intro habnormal)
    · exact iff_of_true holdsDone_doneFrame hcomplete
  · rcases hlast with ⟨-, rfl⟩ | ⟨-, rfl⟩
    · exact fun _ ↦ ⟨endError, rfl⟩
    · exact fun hnot ↦ absurd holdsDone_doneFrame hnot

/-- A sentinel in the middle of the upstream is dropped, and so is the one at its end, which is cut
off before its newline. Between the two a CR alone sets a third apart from the text before it. -/
def partedDone : List Part :=
  [.ok (Utf8.bytes "data: [DONE]\ndata: x\r\rdata: [DONE]\n\ndata: [DONE]")]

/-- One CR of the two is stripped with the newline; the other keeps the line from being the
sentinel. -/
def doneBeforeCr : List Part :=
  [.ok (Utf8.bytes "data: [DONE]\r\r\n")]

end VertexGateway.Forward
