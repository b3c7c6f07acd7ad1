import VertexGateway.Forward.StreamResponse

/-!
# Reading a frame back

What a client reads in the frames it is sent: the text after `data:` and one optional space up to
the blank line, and the JSON value that text denotes. A chunk that was printed is read back as far
as printing and parsing preserve it; a line that is no JSON is forwarded as it stands.
-/

namespace VertexGateway.Forward

open Sse (dataPayload isPrefixOf?_eq_some_iff stripPrefix stripPrefix_append)

def stripSuffix (text back : String) : Option String :=
  (back.toList.reverse.isPrefixOf? text.toList.reverse).map fun rest ↦ String.ofList rest.reverse

/-- The text after `data:` and one optional space. -/
def linePayload (line : String) : Option String :=
  (stripPrefix line "data:").map fun rest ↦ (stripPrefix rest " ").getD rest

/-- The payload of a frame's line. Only the blank line that ends the frame is taken off, so a CR
before it belongs to the payload. -/
def framePayload (frame : String) : Option String :=
  (stripSuffix frame "\n\n").bind linePayload

/-- The JSON chunk a frame carries. -/
def frameChunk (serde : SerdeJson) (frame : String) : Option Value :=
  (framePayload frame).bind serde.fromStr

@[simp]
theorem stripSuffix_append (front back : String) :
    stripSuffix (front ++ back) back = some front := by
  have hlist : back.toList.reverse.isPrefixOf? (front ++ back).toList.reverse =
      some front.toList.reverse := by
    rw [isPrefixOf?_eq_some_iff, String.toList_append, List.reverse_append]
  unfold stripSuffix
  rw [hlist, Option.map_some, List.reverse_reverse, String.ofList_toList]

theorem framePayload_line (line : String) : framePayload (line ++ "\n\n") = linePayload line := by
  unfold framePayload
  rw [stripSuffix_append, Option.bind_some]

/-- A printed line has the printed text for its payload. -/
theorem linePayload_data (text : String) : linePayload ("data: " ++ text) = some text := by
  have hdata : "data: " ++ text = "data:" ++ (" " ++ text) := by
    rw [← String.append_assoc]
    rfl
  unfold linePayload
  rw [hdata, stripPrefix_append, Option.map_some, stripPrefix_append, Option.getD_some]

@[simp]
theorem framePayload_sseLine (serde : SerdeJson) (chunk : Value) :
    framePayload (sseLine serde chunk) = some (serde.display chunk) := by
  unfold sseLine
  rw [framePayload_line, linePayload_data]

theorem framePayload_doneFrame : framePayload doneFrame = some "[DONE]" := by
  decide +kernel

/-- The payload that `dataPayload` finds is the line's. -/
theorem linePayload_of_dataPayload {line payload : String} (h : dataPayload line = some payload) :
    linePayload line = some payload := by
  unfold dataPayload at h
  unfold linePayload
  cases hrest : stripPrefix line "data:" with
  | none => simp [hrest] at h
  | some rest =>
    simp only [hrest, Option.bind_eq_bind, Option.bind_some, Option.ite_none_left_eq_some,
      Option.some.injEq] at h
    rw [Option.map_some, h.2]

/-- A line is forwarded as it stands when it has a payload that is no JSON, and as the printed chunk
without its fragments when it has one that is. -/
theorem forwarded_cases {serde : SerdeJson} {line frame : String}
    (h : forwarded serde line = some frame) :
    (∃ payload, dataPayload line = some payload ∧ serde.fromStr payload = none ∧
        frame = line ++ "\n\n") ∨
      ∃ chunk, lineChunk serde line = some chunk ∧ isTerminal chunk = false ∧
        frame = sseLine serde (stripTools chunk) := by
  unfold forwarded at h
  unfold lineChunk
  cases hpayload : dataPayload line with
  | none => simp [hpayload] at h
  | some payload =>
    cases hchunk : serde.fromStr payload with
    | none =>
      simp only [hpayload, hchunk, Option.some.injEq] at h
      exact Or.inl ⟨payload, rfl, hchunk, h.symm⟩
    | some chunk =>
      simp only [hpayload, hchunk, Option.ite_none_left_eq_some, Option.some.injEq,
        Bool.or_eq_true, not_or, Bool.not_eq_true] at h
      exact Or.inr ⟨chunk, by rw [Option.bind_some, hchunk], h.1.1, h.2.symm⟩

/-- A frame that carries a line as it stands carries no chunk. -/
theorem frameChunk_of_raw {serde : SerdeJson} {line payload : String}
    (hpayload : dataPayload line = some payload) (hnone : serde.fromStr payload = none) :
    frameChunk serde (line ++ "\n\n") = none := by
  rw [frameChunk, framePayload_line, linePayload_of_dataPayload hpayload, Option.bind_some, hnone]

/-! ## Under JSON text that is read back -/

/-- What is relied on where the frames of some items are read: every chunk printed in one of them is
read back as far as `view` shows it, and the sentinel is no JSON text. -/
structure Legible (serde : SerdeJson) (view : Value → Value) (items : List Item) : Prop where
  readsBack : ∀ chunk, .ok (sseLine serde chunk) ∈ items → serde.ReadsBack view chunk
  done : serde.fromStr "[DONE]" = none

theorem legible_compact (view : Value → Value) (items : List Item) :
    Legible .compact view items :=
  ⟨fun chunk _ ↦ SerdeJson.readsBack_compact view chunk, SerdeJson.fromStr_done_compact⟩

section Legible

variable {serde : SerdeJson} {view : Value → Value} {items : List Item}

/-- Chunks that are read back exactly are read back as far as anything shows them. -/
theorem Legible.of_id (h : Legible serde id items) (view : Value → Value) :
    Legible serde view items := by
  refine ⟨fun chunk hsent ↦ ?_, h.done⟩
  have hread : serde.fromStr (serde.display chunk) = some chunk := by
    simpa [SerdeJson.ReadsBack] using h.readsBack chunk hsent
  rw [SerdeJson.ReadsBack, hread, Option.map_some]

theorem Legible.frameChunk_sseLine (h : Legible serde view items) {chunk : Value}
    (hsent : .ok (sseLine serde chunk) ∈ items) :
    (frameChunk serde (sseLine serde chunk)).map view = (some chunk).map view := by
  unfold frameChunk
  rw [framePayload_sseLine, Option.bind_some]
  exact h.readsBack chunk hsent

theorem Legible.frameChunk_doneFrame (h : Legible serde view items) :
    frameChunk serde doneFrame = none := by
  unfold frameChunk
  rw [framePayload_doneFrame, Option.bind_some, h.done]

/-- The chunk read in a forwarded frame is the line's chunk without its fragments. -/
theorem Legible.frameChunk_of_forwarded (h : Legible serde view items) {line frame : String}
    (hforwarded : forwarded serde line = some frame) (hsent : .ok frame ∈ items) :
    (frameChunk serde frame).map view = ((lineChunk serde line).map stripTools).map view := by
  rcases forwarded_cases hforwarded with ⟨payload, hpayload, hnone, rfl⟩ | ⟨chunk, hchunk, -, rfl⟩
  · rw [frameChunk_of_raw hpayload hnone, lineChunk, hpayload, Option.bind_some, hnone]
    rfl
  · rw [h.frameChunk_sseLine hsent, hchunk]
    rfl

end Legible

/-! ## What a client looks at -/

theorem isTerminal_eraseDoubles (chunk : Value) :
    isTerminal chunk.eraseDoubles = isTerminal chunk := by
  unfold isTerminal
  rw [Value.pointer_eraseDoubles]
  cases chunk.pointer ["choices", "0", "finish_reason"] <;> simp

theorem toolDeltas_eraseDoubles (chunk : Value) :
    toolDeltas chunk.eraseDoubles = (toolDeltas chunk).map (List.map Value.eraseDoubles) := by
  unfold toolDeltas
  rw [Value.pointer_eraseDoubles]
  cases chunk.pointer ["choices", "0", "delta", "tool_calls"] with
  | none => rfl
  | some deltas => exact deltas.asArray_eraseDoubles

/-- Whether a chunk ends the turn and whether it has fragments. -/
def chunkKind (chunk : Value) : Bool × Bool :=
  (isTerminal chunk, (toolDeltas chunk).isSome)

theorem chunkKind_eraseDoubles (chunk : Value) :
    chunkKind chunk.eraseDoubles = chunkKind chunk := by
  simp [chunkKind, isTerminal_eraseDoubles, toolDeltas_eraseDoubles]

section Legible

variable {serde : SerdeJson} {items : List Item} {chunk : Value}

/-- What is read in a printed frame is of the kind of what was printed. -/
theorem Legible.chunkKind_sseLine (h : Legible serde Value.eraseDoubles items) {sent : Value}
    (hsent : .ok (sseLine serde sent) ∈ items)
    (hchunk : frameChunk serde (sseLine serde sent) = some chunk) :
    chunkKind chunk = chunkKind sent := by
  have hkind := Value.map_eq_of_eraseDoubles chunkKind_eraseDoubles (h.frameChunk_sseLine hsent)
  rw [hchunk] at hkind
  exact Option.some.inj hkind

/-- Frames of lines carry neither fragments nor the end of a turn. -/
theorem Legible.of_forwarded (h : Legible serde Value.eraseDoubles items) {line frame : String}
    (hforwarded : forwarded serde line = some frame) (hsent : .ok frame ∈ items)
    (hchunk : frameChunk serde frame = some chunk) :
    isTerminal chunk = false ∧ toolDeltas chunk = none := by
  rcases forwarded_cases hforwarded with ⟨payload, hpayload, hnone, rfl⟩ | ⟨sent, -, hterminal, rfl⟩
  · rw [frameChunk_of_raw hpayload hnone] at hchunk
    exact absurd hchunk.symm (Option.some_ne_none chunk)
  · have hkind := h.chunkKind_sseLine hsent hchunk
    simpa [chunkKind, hterminal] using hkind

end Legible

end VertexGateway.Forward
