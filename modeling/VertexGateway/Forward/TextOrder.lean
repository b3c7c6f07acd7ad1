import VertexGateway.Data.HeldBack
import VertexGateway.Forward.Ending
import VertexGateway.Forward.Upstream

/-!
# The order of text

Text reaches the client by four routes: a chunk is forwarded, forwarded without its fragments,
swallowed because nothing else is in its delta, or held back as the terminal chunk. Only the last
one reorders: a terminal chunk is overtaken by the text after it and dropped when another terminal
chunk replaces it. The text sent is the text received exactly when neither matters.
-/

namespace VertexGateway.Forward

/-- The text a client reads in a frame. -/
def frameText (serde : SerdeJson) (frame : String) : String :=
  ((frameChunk serde frame).map contentOf).getD ""

def itemText (serde : SerdeJson) : Item → String
  | .ok frame => frameText serde frame
  | .error _ => ""

/-- The text of all frames in output order. -/
def sentText (serde : SerdeJson) (items : List Item) : String :=
  String.join (items.map (itemText serde))

/-- The chunks of the upstream lines. -/
def upstreamChunks (serde : SerdeJson) (lines : List String) : List Value :=
  lines.filterMap (lineChunk serde)

/-- The text of all chunks in upstream order. -/
def receivedText (chunks : List Value) : String :=
  String.join (chunks.map contentOf)

/-- With `last` the last terminal chunk, every earlier terminal chunk is without text, and the text
of `last` commutes with the text after it. -/
def TextInOrder (chunks : List Value) : Prop :=
  HeldBack.InOrder isTerminal (fun chunk ↦ (contentOf chunk).toList) chunks

/-! ## The text of each route -/

theorem contentOf_stripTools (chunk : Value) : contentOf (stripTools chunk) = contentOf chunk := by
  unfold contentOf
  rw [pointer_delta_stripTools chunk (by decide)]

theorem contentOf_of_isEmptied {chunk : Value} (h : isEmptied chunk = true) :
    contentOf chunk = "" := by
  obtain ⟨hdeltas, hempty⟩ := Bool.and_eq_true_iff.mp h
  obtain ⟨deltas, hdeltas⟩ := Option.isSome_iff_exists.mp hdeltas
  rw [← contentOf_stripTools, stripTools_of_some hdeltas, contentOf]
  rw [deltaIsEmpty, Option.any_eq_true] at hempty
  obtain ⟨map, hmap, hisEmpty⟩ := hempty
  obtain ⟨delta, hdelta, hobject⟩ := Option.bind_eq_some_iff.mp hmap
  obtain rfl := (Value.asObject_eq_some_iff delta map).mp hobject
  have hsplit := (removeToolCalls chunk).pointer_append ["choices", "0", "delta"] ["content"]
  rw [hdelta, Option.bind_some, Value.pointer_cons, Value.step_object,
    (map.isEmpty_iff.mp hisEmpty) "content"] at hsplit
  simp only [List.cons_append, List.nil_append] at hsplit
  rw [hsplit]
  rfl

theorem contentOf_attachUsage (usage : Option Usage) (chunk : Value) :
    contentOf (attachUsage usage chunk) = contentOf chunk := by
  unfold contentOf
  rw [pointer_choices_attachUsage]

theorem contentOf_eraseDoubles (chunk : Value) :
    contentOf chunk.eraseDoubles = contentOf chunk := by
  unfold contentOf
  rw [Value.pointer_eraseDoubles]
  cases chunk.pointer ["choices", "0", "delta", "content"] <;> simp

section Legible

variable {serde : SerdeJson} {items : List Item}

theorem Legible.frameText_sseLine (h : Legible serde Value.eraseDoubles items) {chunk : Value}
    (hsent : .ok (sseLine serde chunk) ∈ items) :
    frameText serde (sseLine serde chunk) = contentOf chunk := by
  unfold frameText
  rw [Value.map_eq_of_eraseDoubles contentOf_eraseDoubles (h.frameChunk_sseLine hsent)]
  rfl

/-- A line's frame carries the text of the line's chunk, unless the chunk is terminal. -/
theorem Legible.text_of_line (h : Legible serde Value.eraseDoubles items) {line : String}
    (hsent : ∀ frame, forwarded serde line = some frame → .ok frame ∈ items) :
    (forwarded serde line).toList.flatMap (fun frame ↦ (frameText serde frame).toList) =
      ((lineChunk serde line).toList.filter fun chunk ↦ !isTerminal chunk).flatMap
        fun chunk ↦ (contentOf chunk).toList := by
  cases hchunk : lineChunk serde line with
  | none =>
    cases hframe : forwarded serde line with
    | none => rfl
    | some frame =>
      have hread := h.frameChunk_of_forwarded hframe (hsent frame hframe)
      rw [hchunk, Option.map_none, Option.map_none, Option.map_eq_none_iff] at hread
      simp [frameText, hread]
  | some chunk =>
    rw [forwarded_of_lineChunk hchunk] at hsent ⊢
    cases hterminal : isTerminal chunk with
    | true => simp [hterminal]
    | false =>
      cases hempty : isEmptied chunk with
      | true => simp [hterminal, contentOf_of_isEmptied hempty]
      | false =>
        simp only [hterminal, hempty, Bool.or_self, Bool.false_eq_true, if_false,
          Option.some.injEq, forall_eq'] at hsent
        simp [hterminal, h.frameText_sseLine hsent, contentOf_stripTools]

/-- The frames of the lines carry the text of the chunks that do not end the turn. -/
theorem Legible.text_forwarded (h : Legible serde Value.eraseDoubles items) {lines : List String}
    (hsent : ∀ frame ∈ lines.filterMap (forwarded serde), .ok frame ∈ items) :
    (lines.filterMap (forwarded serde)).flatMap (fun frame ↦ (frameText serde frame).toList) =
      ((upstreamChunks serde lines).filter fun chunk ↦ !isTerminal chunk).flatMap
        fun chunk ↦ (contentOf chunk).toList := by
  simp only [upstreamChunks, List.filterMap_eq_flatMap_toList, List.filter_flatMap,
    List.flatMap_assoc]
  apply List.flatMap_congr
  intro line hline
  apply h.text_of_line
  intro frame hframe
  exact hsent frame (List.mem_filterMap.mpr ⟨line, hline, hframe⟩)

theorem Legible.text_toolFrames (h : Legible serde Value.eraseDoubles items) {lines : List String}
    (hsent : ∀ frame ∈ toolFrames serde (processLines serde lines .new).1, .ok frame ∈ items) :
    ∀ frame ∈ toolFrames serde (processLines serde lines .new).1, frameText serde frame = "" := by
  intro frame hframe
  obtain ⟨map, hreference⟩ := exists_object_reference serde lines
  have hprinted := hsent frame hframe
  rw [eq_of_mem_toolFrames hframe, toolCallsChunk] at hprinted ⊢
  rw [h.frameText_sseLine hprinted, hreference, contentOf_toolCallsJson]

end Legible

theorem filterMap_lineTerminal (serde : SerdeJson) (lines : List String) :
    lines.filterMap (lineTerminal serde) =
      ((upstreamChunks serde lines).filter isTerminal).map stripTools := by
  unfold upstreamChunks
  rw [List.filter_filterMap, List.map_filterMap]
  rfl

theorem contentOf_terminalChunk (serde : SerdeJson) (model : String) (lines : List String) :
    contentOf (terminalChunk model (processLines serde lines .new).1) =
      ((((upstreamChunks serde lines).filter isTerminal).getLast?).map contentOf).getD "" := by
  unfold terminalChunk
  rw [contentOf_attachUsage, processLines_eq]
  simp only [filterMap_lineTerminal, List.getLast?_map]
  cases ((upstreamChunks serde lines).filter isTerminal).getLast? with
  | none => rfl
  | some last => exact contentOf_stripTools last

theorem toList_sentText (serde : SerdeJson) (frames : List String) :
    (sentText serde (frames.map .ok)).toList =
      frames.flatMap fun frame ↦ (frameText serde frame).toList := by
  unfold sentText
  rw [String.toList_join, List.map_map, List.flatMap_map]
  rfl

/-- What is sent is what holding back the terminal chunks emits. -/
theorem sentText_eq_emitted (serde : SerdeJson) (model : String) (status : UInt16) (duration : ℕ)
    {chunks : List (List UInt8)} (hcompleted : Completed chunks)
    (hserde : Legible serde Value.eraseDoubles
      (streamResponse serde model status duration none (chunks.map .ok)).1) :
    (sentText serde (streamResponse serde model status duration none (chunks.map .ok)).1).toList =
      HeldBack.emitted isTerminal (fun chunk ↦ (contentOf chunk).toList)
        (upstreamChunks serde (Sse.referenceLines chunks.flatten)) := by
  let lines := Sse.referenceLines chunks.flatten
  let terminal := terminalChunk model (processLines serde lines .new).1
  have hsent := hcompleted.sent_iff serde model status duration
  have hforwarded := hserde.text_forwarded fun frame (hframe : frame ∈ lines.filterMap _) ↦
    (hsent frame).mpr (Or.inl hframe)
  have hterminal : frameText serde (sseLine serde terminal) = contentOf terminal :=
    hserde.frameText_sseLine ((hsent _).mpr (Or.inr (Or.inr (Or.inl rfl))))
  have htools : (toolFrames serde (processLines serde lines .new).1).flatMap
      (fun frame ↦ (frameText serde frame).toList) = [] := by
    rw [List.flatMap_eq_nil_iff]
    intro frame hframe
    rw [hserde.text_toolFrames (fun frame hframe ↦ (hsent frame).mpr (Or.inr (Or.inl hframe)))
      frame hframe]
    rfl
  have hdone : frameText serde doneFrame = "" := by
    unfold frameText
    rw [hserde.frameChunk_doneFrame]
    rfl
  calc
    (sentText serde (streamResponse serde model status duration none (chunks.map .ok)).1).toList =
        (lines.filterMap (forwarded serde) ++ toolFrames serde (processLines serde lines .new).1 ++
          [sseLine serde terminal, doneFrame]).flatMap
            fun frame ↦ (frameText serde frame).toList := by
      rw [hcompleted.streamResponse_eq, toList_sentText]
    _ = (((upstreamChunks serde lines).filter fun chunk ↦ !isTerminal chunk).flatMap
          fun chunk ↦ (contentOf chunk).toList) ++ (contentOf terminal).toList := by
      rw [List.flatMap_append, List.flatMap_append, htools, hforwarded, List.append_nil]
      simp only [List.flatMap_cons, List.flatMap_nil, hterminal, hdone, String.toList_empty,
        List.append_nil]
    _ = HeldBack.emitted isTerminal (fun chunk ↦ (contentOf chunk).toList)
        (upstreamChunks serde lines) := by
      unfold HeldBack.emitted
      rw [contentOf_terminalChunk]
      cases ((upstreamChunks serde lines).filter isTerminal).getLast? <;> rfl

/-- **When no text is lost or reordered.** For a stream that ends cleanly, the text read in the
output is the text of the upstream if and only if no replaced terminal chunk has text and the last
terminal chunk's text commutes with the text that comes after it. -/
theorem sentText_eq_receivedText_iff (serde : SerdeJson) (model : String) (status : UInt16)
    (duration : ℕ) (chunks : List (List UInt8)) (hcompleted : Completed chunks)
    (hserde : Legible serde Value.eraseDoubles
      (streamResponse serde model status duration none (chunks.map .ok)).1) :
    sentText serde (streamResponse serde model status duration none (chunks.map .ok)).1 =
        receivedText (upstreamChunks serde (Sse.referenceLines chunks.flatten)) ↔
      TextInOrder (upstreamChunks serde (Sse.referenceLines chunks.flatten)) := by
  rw [TextInOrder, ← HeldBack.emitted_eq_iff, ← String.toList_inj,
    sentText_eq_emitted serde model status duration hcompleted hserde, receivedText,
    String.toList_join, List.flatMap_map]

/-- A line with one choice: its text and finish reason. -/
def textLine (content : String) (reason : Value) : List UInt8 :=
  Utf8.bytes (sseLine .compact (.obj [("choices", .array [.obj
    [("delta", .obj [("content", .string content)]), ("finish_reason", reason)]])]))

theorem sentText_eq_receivedText_iff_plain :
    sentText .compact (streamResponse .compact "gemini" 200 0 none
          ([textLine "a" .null, textLine "b" (.string "stop")].map .ok)).1 =
        receivedText (upstreamChunks .compact
          (Sse.referenceLines [textLine "a" .null, textLine "b" (.string "stop")].flatten)) ↔
      TextInOrder (upstreamChunks .compact
        (Sse.referenceLines [textLine "a" .null, textLine "b" (.string "stop")].flatten)) :=
  sentText_eq_receivedText_iff .compact "gemini" 200 0 _ (by decide +kernel) (legible_compact _ _)

/-- The text of a terminal chunk is overtaken by the text that follows. -/
theorem sentText_overtaken :
    Completed [textLine "a" (.string "stop"), textLine "b" .null] ∧
      sentText .compact (streamResponse .compact "gemini" 200 0 none
        ([textLine "a" (.string "stop"), textLine "b" .null].map .ok)).1 = "ba" ∧
      receivedText (upstreamChunks .compact (Sse.referenceLines
        [textLine "a" (.string "stop"), textLine "b" .null].flatten)) = "ab" := by
  have hcompleted : Completed [textLine "a" (.string "stop"), textLine "b" .null] := by
    decide +kernel
  refine ⟨hcompleted, ?_, by decide +kernel⟩
  rw [← String.toList_inj,
    sentText_eq_emitted .compact "gemini" 200 0 hcompleted (legible_compact _ _)]
  decide +kernel

end VertexGateway.Forward
