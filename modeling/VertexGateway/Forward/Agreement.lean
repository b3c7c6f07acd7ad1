import VertexGateway.Forward.Forward
import VertexGateway.Forward.ReadBack
import VertexGateway.Forward.UsageAgreement
import VertexGateway.Thought.Reassembly

/-!
# One turn, streamed or whole

A client may ask for its answer whole or as a stream, and the two go through different code: one is
packed in place, the other taken apart, accumulated and put together again. What a client has in
hand at the end of the turn, its text, its tool calls, the finish reason and the usage, is the same
by both routes whenever it would have been the same without the gateway.
-/

namespace VertexGateway.Forward

open Sse (LineAccumulator dataPayload referenceLines)
open Thought

/-! ## What a client has at the end of a turn -/

@[ext]
structure Turn where
  text : String
  calls : List Value
  reason : Option Value
  usage : Option Usage

/-- A finish reason other than null. -/
def finishReason (chunk : Value) : Option Value :=
  (chunk.pointer ["choices", "0", "finish_reason"]).filter fun reason ↦ !reason.isNull

/-- A turn read from the chunks of a stream: text is appended, calls are assembled by index, and the
last finish reason and the last usage stand. -/
def streamedTurn (chunks : List Value) : Turn where
  text := receivedText chunks
  calls := (assembledCalls (chunks.flatMap fun chunk ↦ (toolDeltas chunk).getD [])).map Prod.snd
  reason := (chunks.filterMap finishReason).getLast?
  usage := lastUsage chunks

/-- A turn read from a whole answer, its calls tagged with their positions as a stream tags them. -/
def wholeTurn (answer : Value) : Turn where
  text := ((answer.pointer ["choices", "0", "message", "content"]).bind Value.asStr).getD ""
  calls := (((answer.pointer ["choices", "0", "message", "tool_calls"]).bind
    Value.asArray).getD []).mapIdx withIndex
  reason := finishReason answer
  usage := (usageOf answer).map parseUsage

/-- The turn with the signatures packed into the ids. -/
def Turn.packed (turn : Turn) : Turn :=
  { turn with calls := turn.calls.map packToolCall }

/-- The turn with the finish reason a stream is given when the upstream gave none. -/
def Turn.closed (turn : Turn) : Turn :=
  { turn with
    reason := some (turn.reason.getD (.string (if turn.calls.isEmpty then "stop" else "tool_calls"))) }

theorem Turn.closed_of_reason {turn : Turn} (h : turn.reason.isSome) : turn.closed = turn := by
  obtain ⟨reason, hreason⟩ := Option.isSome_iff_exists.mp h
  unfold Turn.closed
  rw [hreason, Option.getD_some, ← hreason]

theorem isSome_finishReason (chunk : Value) : (finishReason chunk).isSome = isTerminal chunk := by
  unfold finishReason isTerminal
  cases chunk.pointer ["choices", "0", "finish_reason"] with
  | none => rfl
  | some reason => cases hnull : reason.isNull <;> simp [Option.filter, hnull]

/-! ## The whole answer -/

/-- A place of the first choice that packing a choice leaves alone. -/
theorem pointer_packResponse_of_packChoice {body : Value} {choices : List Value}
    (hchoices : body.get? "choices" = some (.array choices)) (path : List String)
    (h : ∀ choice, (packChoice choice).pointer path = choice.pointer path) :
    (packResponse body).pointer ("choices" :: "0" :: path) =
      body.pointer ("choices" :: "0" :: path) := by
  have hpacked : (packResponse body).get? "choices" = some (.array (choices.map packChoice)) := by
    unfold packResponse
    rw [Value.get?_modifyKey_self, hchoices]
    rfl
  rw [pointer_firstChoice hpacked, pointer_firstChoice hchoices, List.getElem?_map]
  cases choices[0]? with
  | none => rfl
  | some choice => exact h choice

theorem usageOf_packResponse (body : Value) : usageOf (packResponse body) = usageOf body := by
  unfold usageOf packResponse
  rw [Value.get?_modifyKey_of_ne _ (by decide)]

/-- Packing the whole answer packs the turn. -/
theorem wholeTurn_packResponse {answer : Value} {choices : List Value}
    (hchoices : answer.get? "choices" = some (.array choices)) :
    wholeTurn (packResponse answer) = (wholeTurn answer).packed := by
  have hcontent := pointer_packResponse_of_packChoice hchoices ["message", "content"]
    fun choice ↦ Value.pointer_modifyPointer_of_ne choice ["message"] (by decide) (by decide) [] [] _
  have hreason := pointer_packResponse_of_packChoice hchoices ["finish_reason"]
    fun choice ↦ Value.pointer_modifyPointer_of_ne choice [] (by decide) (by decide)
      ["tool_calls"] [] _
  have hcalls : (((packResponse answer).pointer ["choices", "0", "message", "tool_calls"]).bind
      Value.asArray) = ((answer.pointer ["choices", "0", "message", "tool_calls"]).bind
        Value.asArray).map (List.map packToolCall) := by
    rw [pointer_packResponse hchoices]
    cases answer.pointer ["choices", "0", "message", "tool_calls"] with
    | none => rfl
    | some calls => exact Value.asArray_onItems calls packToolCall
  unfold wholeTurn Turn.packed finishReason
  rw [hcontent, hreason, hcalls, usageOf_packResponse]
  simp only [Turn.mk.injEq, true_and, and_true]
  cases (answer.pointer ["choices", "0", "message", "tool_calls"]).bind Value.asArray with
  | none => rfl
  | some calls =>
    simp only [Option.map_some, Option.getD_some]
    apply List.ext_getElem?
    intro position
    simp only [List.getElem?_map, List.getElem?_mapIdx]
    cases calls[position]? with
    | none => rfl
    | some call => simp [packToolCall_withIndex]

/-! ## The chunks a client receives -/

/-- The chunks in the frames of a body. -/
def sentChunks (serde : SerdeJson) (items : List Item) : List Value :=
  (bodyFrames items).filterMap (frameChunk serde)

theorem bodyFrames_map_ok (frames : List String) : bodyFrames (frames.map .ok) = frames := by
  induction frames with
  | nil => rfl
  | cons frame frames ih => rw [List.map_cons, bodyFrames, ih]

/-- The chunks that are forwarded at once, without their fragments: neither terminal nor left with an
empty delta. -/
def forwardedChunks (chunks : List Value) : List Value :=
  (chunks.filter fun chunk ↦ !isTerminal chunk && !isEmptied chunk).map stripTools

/-- The chunk with the consolidated calls, if there is one. -/
def toolChunks (state : StreamState) : List Value :=
  if state.tools.isEmpty then []
  else [toolCallsJson (state.finishChunk.getD (.obj [])) state.tools.finish]

/-- The chunks of a completed stream, in the order in which they are sent. -/
def relayedChunks (serde : SerdeJson) (model : String) (lines : List String) : List Value :=
  let state := (processLines serde lines .new).1
  forwardedChunks (upstreamChunks serde lines) ++ toolChunks state ++ [terminalChunk model state]

theorem of_mem_forwardedChunks {chunks : List Value} {chunk : Value}
    (h : chunk ∈ forwardedChunks chunks) :
    isTerminal chunk = false ∧ toolDeltas chunk = none ∧
      ∃ original ∈ chunks, chunk = stripTools original := by
  obtain ⟨original, horiginal, rfl⟩ := List.mem_map.mp h
  obtain ⟨hmem, hkept⟩ := List.mem_filter.mp horiginal
  rw [Bool.and_eq_true, Bool.not_eq_true'] at hkept
  exact ⟨(isTerminal_stripTools original).trans hkept.1, toolDeltas_stripTools original,
    original, hmem, rfl⟩

section Legible

variable {serde : SerdeJson} {items : List Item}

theorem Legible.frameChunk_eq (h : Legible serde id items) {chunk : Value}
    (hsent : .ok (sseLine serde chunk) ∈ items) :
    frameChunk serde (sseLine serde chunk) = some chunk := by
  simpa using h.frameChunk_sseLine hsent

/-- A line's frame carries the chunk that is forwarded for the line. -/
theorem Legible.chunk_of_line (h : Legible serde id items) {line : String}
    (hsent : ∀ frame, forwarded serde line = some frame → .ok frame ∈ items) :
    (forwarded serde line).bind (frameChunk serde) =
      ((lineChunk serde line).filter fun chunk ↦ !isTerminal chunk && !isEmptied chunk).map
        stripTools := by
  cases hchunk : lineChunk serde line with
  | none =>
    cases hframe : forwarded serde line with
    | none => rfl
    | some frame =>
      have hread := h.frameChunk_of_forwarded hframe (hsent frame hframe)
      rw [hchunk, Option.map_id_fun, id, Option.map_none] at hread
      exact hread
  | some chunk =>
    rw [forwarded_of_lineChunk hchunk] at hsent ⊢
    by_cases hheld : isTerminal chunk || isEmptied chunk
    · rw [if_pos hheld, Option.bind_none, Option.filter_some, ← Bool.not_or, hheld]
      rfl
    · rw [if_neg hheld] at hsent ⊢
      rw [Option.bind_some, h.frameChunk_eq (hsent _ rfl), Option.filter_some, ← Bool.not_or,
        Bool.eq_false_of_not_eq_true hheld]
      rfl

/-- What a completed stream hands the client is what was relayed. The sentinel is no chunk. -/
theorem sentChunks_completed (model : String) (status : UInt16) (duration : ℕ)
    {chunks : List (List UInt8)} (hcompleted : Completed chunks)
    (hserde : Legible serde id
      (streamResponse serde model status duration none (chunks.map .ok)).1) :
    sentChunks serde (streamResponse serde model status duration none (chunks.map .ok)).1 =
      relayedChunks serde model (referenceLines chunks.flatten) := by
  let lines := referenceLines chunks.flatten
  have hsent := hcompleted.sent_iff serde model status duration
  have hlines : (lines.filterMap (forwarded serde)).filterMap (frameChunk serde) =
      forwardedChunks (upstreamChunks serde lines) := by
    rw [forwardedChunks, upstreamChunks, List.filterMap_filterMap, List.filter_filterMap,
      List.map_filterMap]
    apply List.filterMap_congr
    intro line hline
    apply hserde.chunk_of_line
    intro frame hframe
    exact (hsent frame).mpr (Or.inl (List.mem_filterMap.mpr ⟨line, hline, hframe⟩))
  have htools : (toolFrames serde (processLines serde lines .new).1).filterMap (frameChunk serde) =
      toolChunks (processLines serde lines .new).1 := by
    have hframes := fun frame hframe ↦ (hsent frame).mpr (Or.inr (Or.inl hframe))
    unfold toolFrames at hframes ⊢
    unfold toolChunks
    split
    · rfl
    · next hempty =>
      rw [if_neg hempty] at hframes
      have hread := hserde.frameChunk_eq (hframes _ List.mem_cons_self)
      rw [toolCallsChunk, List.filterMap_cons_some hread, List.filterMap_nil]
  have hterminal := hserde.frameChunk_eq ((hsent _).mpr (Or.inr (Or.inr (Or.inl rfl))))
  rw [sentChunks, hcompleted.streamResponse_eq, relayedChunks]
  simp only [bodyFrames_map_ok, List.filterMap_append]
  rw [hlines, htools, List.filterMap_cons_some hterminal,
    List.filterMap_cons_none hserde.frameChunk_doneFrame, List.filterMap_nil]

end Legible

section Relayed

variable {serde : SerdeJson}

/-- The text of the chunks is the text of the frames. -/
theorem sentText_map_ok (frames : List String) :
    sentText serde (frames.map .ok) = receivedText (frames.filterMap (frameChunk serde)) := by
  have hframe (frame : String) : (frameText serde frame).toList =
      (frameChunk serde frame).toList.flatMap fun chunk ↦ (contentOf chunk).toList := by
    unfold frameText
    cases frameChunk serde frame <;> simp
  rw [← String.toList_inj, toList_sentText, receivedText, String.toList_join, List.flatMap_map,
    List.filterMap_eq_flatMap_toList, List.flatMap_assoc]
  exact List.flatMap_congr fun frame _ ↦ hframe frame

/-! ## The turn a stream leaves -/

theorem flatMap_lineDeltas (lines : List String) :
    lines.flatMap (lineDeltas serde) =
      (upstreamChunks serde lines).flatMap fun chunk ↦ (toolDeltas chunk).getD [] := by
  unfold upstreamChunks
  rw [List.filterMap_eq_flatMap_toList, List.flatMap_assoc]
  apply List.flatMap_congr
  intro line _
  unfold lineDeltas
  cases lineChunk serde line <;> simp

theorem toolDeltas_terminalChunk (model : String) (lines : List String) :
    toolDeltas (terminalChunk model (processLines serde lines .new).1) = none := by
  unfold toolDeltas terminalChunk
  rw [pointer_choices_attachUsage]
  change toolDeltas _ = none
  cases hheld : (processLines serde lines .new).1.finishChunk with
  | none => rfl
  | some held =>
    rw [processLines_eq] at hheld
    obtain ⟨line, -, hline⟩ := List.mem_filterMap.mp (List.mem_of_getLast? hheld)
    obtain ⟨original, -, rfl⟩ := Option.map_eq_some_iff.mp hline
    exact toolDeltas_stripTools original

theorem finish_of_isEmpty {tools : ToolCallAccumulator} (h : tools.isEmpty = true) :
    tools.finish = [] := by
  have hcalls : tools.calls = [] := List.isEmpty_iff.mp h
  simp [ToolCallAccumulator.finish, KeyedFold.sortByKey, hcalls]

theorem toolDeltas_toolChunks (lines : List String) :
    (toolChunks (processLines serde lines .new).1).flatMap (fun chunk ↦ (toolDeltas chunk).getD []) =
      (processLines serde lines .new).1.tools.finish := by
  obtain ⟨map, hmap⟩ := exists_object_reference serde lines
  unfold toolChunks
  split
  · next hempty => rw [finish_of_isEmpty hempty, List.flatMap_nil]
  · rw [hmap, List.flatMap_singleton, toolDeltas_toolCallsJson, Option.getD_some]

/-- The only deltas a client receives are the consolidated calls. -/
theorem toolDeltas_relayedChunks (model : String) (lines : List String) :
    (relayedChunks serde model lines).flatMap (fun chunk ↦ (toolDeltas chunk).getD []) =
      (ToolCallAccumulator.new.absorb ((upstreamChunks serde lines).flatMap
        fun chunk ↦ (toolDeltas chunk).getD [])).finish := by
  have hforwarded : (forwardedChunks (upstreamChunks serde lines)).flatMap
      (fun chunk ↦ (toolDeltas chunk).getD []) = [] := by
    rw [List.flatMap_eq_nil_iff]
    intro chunk hchunk
    rw [(of_mem_forwardedChunks hchunk).2.1, Option.getD_none]
  unfold relayedChunks
  rw [List.flatMap_append, List.flatMap_append, hforwarded, toolDeltas_toolChunks,
    List.flatMap_singleton, toolDeltas_terminalChunk, Option.getD_none, List.append_nil,
    List.nil_append, processLines_eq, ← flatMap_lineDeltas]

/-- Chunks that are not terminal have no finish reason. -/
theorem finishReason_eq_none_iff (chunk : Value) :
    finishReason chunk = none ↔ isTerminal chunk = false := by
  rw [← isSome_finishReason, Option.isSome_eq_false_iff, Option.isNone_iff_eq_none]

theorem finishReason_stripTools (chunk : Value) :
    finishReason (stripTools chunk) = finishReason chunk := by
  unfold finishReason stripTools
  split
  · rw [removeToolCalls, show ["choices", "0", "delta"] = ["choices", "0"] ++ ["delta"] from rfl,
      show ["choices", "0", "finish_reason"] = ["choices", "0"] ++ ["finish_reason"] from rfl,
      Value.pointer_modifyPointer_of_ne chunk ["choices", "0"] (by decide) (by decide)]
  · rfl

theorem getLast?_filterMap_finishReason (chunks : List Value) :
    (chunks.filterMap finishReason).getLast? =
      ((chunks.filter isTerminal).getLast?).bind finishReason := by
  induction chunks using List.reverseRecOn with
  | nil => rfl
  | append_singleton chunks last ih =>
    rw [List.filterMap_append, List.filter_append]
    cases hterminal : isTerminal last with
    | true =>
      obtain ⟨reason, hreason⟩ := Option.isSome_iff_exists.mp
        ((isSome_finishReason last).trans hterminal)
      simp [hterminal, hreason]
    | false =>
      have hreason := (finishReason_eq_none_iff last).mpr hterminal
      simp [hterminal, hreason, ih]

theorem finishReason_attachUsage (usage : Option Usage) (chunk : Value) :
    finishReason (attachUsage usage chunk) = finishReason chunk := by
  unfold finishReason
  rw [pointer_choices_attachUsage]

theorem isEmpty_assembledCalls (deltas : List Value) :
    ((assembledCalls deltas).map Prod.snd).isEmpty = deltas.isEmpty := by
  rw [Bool.eq_iff_iff, List.isEmpty_iff, List.isEmpty_iff, List.map_eq_nil_iff, assembledCalls,
    ← List.perm_nil, (KeyedFold.sortByKey_perm _).congr_left, List.perm_nil,
    KeyedFold.run_eq_nil_iff]

/-- The finish reason sent is the last of the upstream, or one made up. -/
theorem reason_relayedChunks (model : String) (lines : List String) :
    ((relayedChunks serde model lines).filterMap finishReason).getLast? =
      (streamedTurn (upstreamChunks serde lines)).closed.reason := by
  have hterminal : finishReason (terminalChunk model (processLines serde lines .new).1) =
      (streamedTurn (upstreamChunks serde lines)).closed.reason := by
    unfold terminalChunk Turn.closed streamedTurn
    simp only [processLines_eq, finishReason_attachUsage, filterMap_lineTerminal,
      List.getLast?_map, getLast?_filterMap_finishReason, ToolCallAccumulator.isEmpty_absorb_new,
      flatMap_lineDeltas, isEmpty_assembledCalls]
    cases hlast : ((upstreamChunks serde lines).filter isTerminal).getLast? with
    | none =>
      simp only [Option.map_none, Option.getD_none, Option.bind_none]
      cases (List.flatMap (fun chunk ↦ (toolDeltas chunk).getD [])
        (upstreamChunks serde lines)).isEmpty <;> rfl
    | some last =>
      have hmem := (List.mem_filter.mp (List.mem_of_getLast? hlast)).2
      obtain ⟨reason, hreason⟩ := Option.isSome_iff_exists.mp
        ((isSome_finishReason last).trans hmem)
      simp [finishReason_stripTools, hreason]
  unfold relayedChunks
  rw [List.filterMap_append]
  simp [hterminal, Turn.closed]

/-! ## The usage -/

/-- The last usage stays the last. Either the last terminal chunk has no `usage` member and is given
it, or it is still the last one with that chunk behind the forwarded ones. -/
def UsageKept (chunks : List Value) : Prop :=
  ∀ usage terminal, lastUsage chunks = some usage →
    (chunks.filter isTerminal).getLast? = some terminal →
    terminal.get? "usage" = none ∨
      lastUsage (forwardedChunks chunks ++ [terminal]) = some usage

theorem lastUsage_append (front back : List Value) :
    lastUsage (front ++ back) = (lastUsage back).or (lastUsage front) := by
  simp [lastUsage]

theorem lastUsage_singleton (chunk : Value) :
    lastUsage [chunk] = (usageOf chunk).map parseUsage := by
  cases husage : usageOf chunk <;> simp [lastUsage, husage]

theorem lastUsage_eq_none_iff (chunks : List Value) :
    lastUsage chunks = none ↔ ∀ chunk ∈ chunks, usageOf chunk = none := by
  simp [lastUsage]

theorem usageOf_toolCallsJson (reference : Value) (calls : List Value) :
    usageOf (toolCallsJson reference calls) = none := by
  have hindex : Value.parseIndex "usage" = none := by decide
  unfold usageOf toolCallsJson
  rw [← Value.step_eq_get? _ hindex, Value.step_onObject_remove_self _ hindex]
  rfl

theorem usageOf_terminalChunk_of_none (model : String) {lines : List String}
    (h : lastUsage (upstreamChunks serde lines) = none) :
    usageOf (terminalChunk model (processLines serde lines .new).1) = none := by
  have hobserved : (lines.filterMap (lineUsage serde)).getLast? = none := by
    rw [filterMap_lineUsage]
    exact h
  unfold terminalChunk
  simp only [processLines_eq, hobserved, attachUsage, filterMap_lineTerminal, List.getLast?_map]
  cases hlast : ((upstreamChunks serde lines).filter isTerminal).getLast? with
  | none => rfl
  | some last =>
    have hmem := List.mem_of_mem_filter (List.mem_of_getLast? hlast)
    rw [Option.map_some, Option.getD_some, usageOf_stripTools]
    exact (lastUsage_eq_none_iff _).mp h last hmem

theorem lastUsage_toolChunks (state : StreamState) : lastUsage (toolChunks state) = none := by
  unfold toolChunks
  split
  · rfl
  · rw [lastUsage_singleton, usageOf_toolCallsJson]
    rfl

/-- A `usage` member of its own stays on the chunk, whatever it holds. -/
theorem attachUsage_of_isSome {chunk : Value} (h : (chunk.get? "usage").isSome = true)
    (usage : Option Usage) : attachUsage usage chunk = chunk := by
  cases usage with
  | none => rfl
  | some usage =>
    have hmember : (chunk.get? "usage").isNone = false := by rw [← Option.not_isSome, h]; rfl
    simp [attachUsage, hmember]

/-- The usage a client reads last is the upstream's exactly where the reordering keeps it the
last. -/
theorem usage_relayedChunks_iff (model : String) (lines : List String) :
    lastUsage (relayedChunks serde model lines) = lastUsage (upstreamChunks serde lines) ↔
      UsageKept (upstreamChunks serde lines) := by
  let chunks := upstreamChunks serde lines
  let terminal := terminalChunk model (processLines serde lines .new).1
  have hrelayed : lastUsage (relayedChunks serde model lines) =
      ((usageOf terminal).map parseUsage).or (lastUsage (forwardedChunks chunks)) := by
    unfold relayedChunks
    rw [lastUsage_append, lastUsage_append, lastUsage_toolChunks, lastUsage_singleton,
      Option.none_or]
  rw [hrelayed]
  cases hlast : lastUsage chunks with
  | none =>
    have hnone := (lastUsage_eq_none_iff _).mp hlast
    have hforwarded : lastUsage (forwardedChunks chunks) = none := by
      rw [lastUsage_eq_none_iff]
      intro chunk hchunk
      obtain ⟨-, -, original, horiginal, rfl⟩ := of_mem_forwardedChunks hchunk
      rw [usageOf_stripTools, hnone original horiginal]
    rw [usageOf_terminalChunk_of_none model hlast, hforwarded]
    refine iff_of_true rfl ?_
    intro usage _ husage
    exact absurd (hlast.symm.trans husage) (Option.some_ne_none usage).symm
  | some usage =>
    cases hheld : (chunks.filter isTerminal).getLast? with
    | none =>
      have hstep : UsageInStep chunks := fun _ found _ hfound ↦
        absurd (hheld.symm.trans hfound) (Option.some_ne_none found).symm
      rw [(usageOf_terminalChunk_iff serde model lines hlast).mpr hstep]
      refine iff_of_true rfl ?_
      intro _ found _ hfound
      exact absurd (hheld.symm.trans hfound) (Option.some_ne_none found).symm
    | some held =>
      have hkept : UsageKept chunks ↔ held.get? "usage" = none ∨
          lastUsage (forwardedChunks chunks ++ [held]) = some usage := by
        simp [UsageKept, hlast, hheld]
      rw [hkept]
      by_cases hmember : held.get? "usage" = none
      · have hstep : UsageInStep chunks := by
          intro _ found _ hfound
          rw [← Option.some.inj (hheld.symm.trans hfound)]
          exact Or.inl hmember
        rw [(usageOf_terminalChunk_iff serde model lines hlast).mpr hstep]
        exact iff_of_true rfl (Or.inl hmember)
      · -- The member hides the usage that was seen, even where it is no object.
        have hsome : ((stripTools held).get? "usage").isSome = true := by
          rw [get?_stripTools held (by decide) (by decide)]
          exact Option.isSome_iff_ne_none.mpr hmember
        have hterminal : terminal = stripTools held := by
          simp only [terminal, terminalChunk, processLines_eq, filterMap_lineTerminal,
            List.getLast?_map]
          rw [hheld, Option.map_some, Option.getD_some, attachUsage_of_isSome hsome]
        rw [hterminal, usageOf_stripTools, lastUsage_append, lastUsage_singleton,
          or_iff_right hmember]

end Relayed

section Turns

variable {serde : SerdeJson} {model : String} {status : UInt16} {duration : ℕ}
  {chunks : List (List UInt8)}

theorem text_sentChunks (hcompleted : Completed chunks)
    (hserde : Legible serde id
      (streamResponse serde model status duration none (chunks.map .ok)).1)
    (horder : TextInOrder (upstreamChunks serde (referenceLines chunks.flatten))) :
    receivedText (sentChunks serde
        (streamResponse serde model status duration none (chunks.map .ok)).1) =
      receivedText (upstreamChunks serde (referenceLines chunks.flatten)) := by
  have hemitted := sentText_eq_emitted serde model status duration hcompleted (hserde.of_id _)
  rw [TextInOrder, ← HeldBack.emitted_eq_iff] at horder
  rw [horder] at hemitted
  obtain ⟨frames, hframes⟩ : ∃ frames : List String,
      (streamResponse serde model status duration none (chunks.map .ok)).1 = frames.map .ok := by
    rw [hcompleted.streamResponse_eq]
    exact ⟨_, rfl⟩
  rw [← String.toList_inj]
  calc
    (receivedText (sentChunks serde
        (streamResponse serde model status duration none (chunks.map .ok)).1)).toList =
        (sentText serde
          (streamResponse serde model status duration none (chunks.map .ok)).1).toList := by
      rw [hframes, sentText_map_ok, sentChunks, bodyFrames_map_ok]
    _ = (upstreamChunks serde (referenceLines chunks.flatten)).flatMap
        fun chunk ↦ (contentOf chunk).toList := hemitted
    _ = (receivedText (upstreamChunks serde (referenceLines chunks.flatten))).toList := by
      rw [receivedText, String.toList_join, List.flatMap_map]

/-- The calls a client assembles are those of the upstream, packed. -/
theorem calls_sentChunks (hcompleted : Completed chunks)
    (hserde : Legible serde id
      (streamResponse serde model status duration none (chunks.map .ok)).1) :
    (streamedTurn (sentChunks serde
        (streamResponse serde model status duration none (chunks.map .ok)).1)).calls =
      (streamedTurn (upstreamChunks serde (referenceLines chunks.flatten))).packed.calls := by
  unfold streamedTurn Turn.packed
  simp only [sentChunks_completed model status duration hcompleted hserde,
    toolDeltas_relayedChunks, assembledCalls_finish, List.map_map]
  rfl

/-- Relaying a stream packs the turn and closes it. -/
theorem streamedTurn_sentChunks (hcompleted : Completed chunks)
    (hserde : Legible serde id
      (streamResponse serde model status duration none (chunks.map .ok)).1)
    (horder : TextInOrder (upstreamChunks serde (referenceLines chunks.flatten)))
    (hkept : UsageKept (upstreamChunks serde (referenceLines chunks.flatten))) :
    streamedTurn (sentChunks serde
        (streamResponse serde model status duration none (chunks.map .ok)).1) =
      (streamedTurn (upstreamChunks serde (referenceLines chunks.flatten))).closed.packed := by
  have hchunks := sentChunks_completed model status duration hcompleted hserde
  apply Turn.ext
  · exact text_sentChunks hcompleted hserde horder
  · exact calls_sentChunks hcompleted hserde
  · rw [streamedTurn, hchunks]
    exact reason_relayedChunks model (referenceLines chunks.flatten)
  · rw [streamedTurn, hchunks]
    exact (usage_relayedChunks_iff model (referenceLines chunks.flatten)).mpr hkept

end Turns

/-! ## From the bytes -/

/-- Every data line carries a JSON chunk. -/
def AllParse (serde : SerdeJson) (lines : List String) : Prop :=
  ∀ line ∈ lines, ∀ payload ∈ dataPayload line, (serde.fromStr payload).isSome

theorem lineChunk_blank (serde : SerdeJson) : lineChunk serde "" = none := by
  have hnone : dataPayload "" = none := by decide +kernel
  rw [lineChunk, hnone, Option.bind_none]

theorem lineChunk_sseLine {serde : SerdeJson} (hprint : serde.Printable)
    (hdone : serde.fromStr "[DONE]" = none) {chunk : Value}
    (hread : serde.fromStr (serde.display chunk) = some chunk) :
    lineChunk serde (frameLine (sseLine serde chunk)) = some chunk := by
  have hline : frameLine (sseLine serde chunk) = "data:" ++ (" " ++ serde.display chunk) := by
    rw [frameLine_sseLine hprint, ← String.append_assoc]
    rfl
  have hne : serde.display chunk ≠ "[DONE]" := by
    intro heq
    rw [← heq, hread] at hdone
    exact Option.some_ne_none chunk hdone
  have hpayload : dataPayload (frameLine (sseLine serde chunk)) = some (serde.display chunk) := by
    rw [hline, dataPayload, Sse.stripPrefix_append, Option.bind_eq_bind, Option.bind_some,
      Sse.stripPrefix_append, Option.getD_some]
    simp [hprint.display_ne_empty chunk, hne]
  rw [lineChunk, hpayload, Option.bind_some, hread]

section Wire

variable {serde : SerdeJson} {model : String} {status : UInt16} {duration : ℕ}
  {upstream : List Part}

/-- With no unparseable line upstream, a reader finds in a frame's line the chunk of the frame. -/
theorem lineChunk_frameLine (hprint : serde.Printable)
    (hserde : Legible serde id (streamResponse serde model status duration none upstream).1)
    (hparses : AllParse serde (receive upstream .new).lines) {frame : String}
    (h : .ok frame ∈ (streamResponse serde model status duration none upstream).1) :
    lineChunk serde (frameLine frame) = frameChunk serde frame := by
  have hprinted (chunk : Value) (hchunk : frame = sseLine serde chunk) :
      lineChunk serde (frameLine frame) = frameChunk serde frame := by
    have hread := hserde.frameChunk_eq (hchunk ▸ h)
    rw [hchunk, hread]
    rw [frameChunk, framePayload_sseLine, Option.bind_some] at hread
    exact lineChunk_sseLine hprint hserde.done hread
  rcases frame_cases h with ⟨line, hline, hframe⟩ | ⟨chunk, hchunk⟩ | rfl
  · rcases forwarded_cases hframe with ⟨payload, hpayload, hnone, -⟩ | ⟨chunk, -, -, hchunk⟩
    · have hsome := hparses line hline payload hpayload
      rw [hnone] at hsome
      exact absurd hsome (by decide)
    · exact hprinted _ hchunk
  · exact hprinted chunk hchunk
  · rw [hserde.frameChunk_doneFrame, lineChunk]
    have hnone : dataPayload (frameLine doneFrame) = none := by decide +kernel
    rw [hnone, Option.bind_none]

/-- A reader of the whole body has the chunks of the frames. -/
theorem lineChunks_of_wire (hprint : serde.Printable)
    (hserde : Legible serde id (streamResponse serde model status duration none upstream).1)
    (hparses : AllParse serde (receive upstream .new).lines) {limit : ℕ}
    {network : List (List UInt8)} {last : LineAccumulator} {lines : List String}
    (hnetwork : network.flatten = wire (streamResponse serde model status duration none upstream).1)
    (hlines : (LineAccumulator.withLimit limit).pushAll network = (last, .ok lines)) :
    lines.filterMap (lineChunk serde) =
      sentChunks serde (streamResponse serde model status duration none upstream).1 := by
  rw [(lines_of_wire hprint hnetwork hlines).1, sentChunks, Framing.terminate, List.flatMap_map,
    List.filterMap_flatMap, List.filterMap_eq_flatMap_toList]
  apply List.flatMap_congr
  intro frame hframe
  have hchunk := lineChunk_frameLine hprint hserde hparses (mem_of_mem_bodyFrames hframe)
  cases hread : frameChunk serde frame <;> simp [hchunk, hread, lineChunk_blank]

end Wire

/-- The bytes of a stream that prints chunks as lines. -/
def printedStream (serde : SerdeJson) (chunks : List Value) : List (List UInt8) :=
  chunks.map fun chunk ↦ Utf8.bytes (sseLine serde chunk)

theorem referenceLines_printedStream {serde : SerdeJson} (hprint : serde.Printable)
    (chunks : List Value) :
    referenceLines (printedStream serde chunks).flatten =
      chunks.flatMap fun chunk ↦ [frameLine (sseLine serde chunk), ""] := by
  have hframed : ∀ frame ∈ chunks.map (sseLine serde), WellFramed frame :=
    List.forall_mem_map.mpr fun chunk _ ↦ wellFramed_sseLine hprint chunk
  obtain ⟨hread, hopen⟩ := frames_flatMap_bytes hframed
  rw [List.flatMap_map, List.flatMap_def] at hread hopen
  rw [printedStream, Sse.referenceLines_eq, hread, hopen]
  simp [Framing.terminate, List.flatMap_map, Sse.stripSuffixCr]

/-- A stream that prints chunks as lines is read as these chunks. -/
theorem upstreamChunks_printedStream {serde : SerdeJson} (hprint : serde.Printable)
    (hdone : serde.fromStr "[DONE]" = none) {chunks : List Value}
    (hread : ∀ chunk ∈ chunks, serde.fromStr (serde.display chunk) = some chunk) :
    upstreamChunks serde (referenceLines (printedStream serde chunks).flatten) = chunks := by
  rw [referenceLines_printedStream hprint, upstreamChunks, List.filterMap_flatMap]
  calc
    (chunks.flatMap fun chunk ↦
        [frameLine (sseLine serde chunk), ""].filterMap (lineChunk serde)) =
        chunks.flatMap fun chunk ↦ [chunk] := by
      apply List.flatMap_congr
      intro chunk hchunk
      simp [lineChunk_sseLine hprint hdone (hread chunk hchunk), lineChunk_blank]
    _ = chunks := List.flatMap_singleton' chunks

theorem allParse_printedStream {serde : SerdeJson} (hprint : serde.Printable)
    (hdone : serde.fromStr "[DONE]" = none) {chunks : List Value}
    (hread : ∀ chunk ∈ chunks, serde.fromStr (serde.display chunk) = some chunk) :
    AllParse serde (referenceLines (printedStream serde chunks).flatten) := by
  rw [referenceLines_printedStream hprint]
  intro line hline payload hpayload
  obtain ⟨chunk, hchunk, hmem⟩ := List.mem_flatMap.mp hline
  rcases List.mem_cons.mp hmem with rfl | hblank
  · have hfound := lineChunk_sseLine hprint hdone (hread chunk hchunk)
    rw [lineChunk, hpayload, Option.bind_some] at hfound
    exact Option.isSome_of_eq_some hfound
  · rw [List.mem_singleton.mp hblank] at hpayload
    have hnone : dataPayload "" = none := by decide +kernel
    exact absurd (hnone.symm.trans hpayload) (Option.some_ne_none payload).symm

/-! ## Both routes -/

/-- The bytes stream an answer: read without the gateway, the two leave a client with the same
turn, and the stream is one whose text and usage survive the reordering of its last chunk. -/
structure Streams (serde : SerdeJson) (answer : Value) (chunks : List (List UInt8)) : Prop where
  completed : Completed chunks
  parses : AllParse serde (referenceLines chunks.flatten)
  same_turn : streamedTurn (upstreamChunks serde (referenceLines chunks.flatten)) = wholeTurn answer
  text_in_order : TextInOrder (upstreamChunks serde (referenceLines chunks.flatten))
  usage_kept : UsageKept (upstreamChunks serde (referenceLines chunks.flatten))

/-- **One turn, streamed or whole.** Let Vertex answer one request whole and another with a stream
of the same answer. Through the gateway, too, the client is left with the same turn by both routes:
from the bytes of the stream, however the network cuts them, and from the packed answer. It is the
turn of Vertex with the signatures packed into the ids, and the observer is told the same. -/
theorem forward_streamed_eq_whole (serde : SerdeJson) (hprint : serde.Printable)
    (st : State.AppState) (url token : String)
    (wholeBody streamBody answer : Value) (duration : ℕ) (whole stream : State.Reply)
    (text : String) (choices : List Value) (chunks : List (List UInt8))
    (hmodel : wholeBody.get? "model" = streamBody.get? "model")
    (htoken : st.token = .ok token)
    (hwhole : st.post url token wholeBody = .ok whole)
    (hstream : st.post url token streamBody = .ok stream)
    (hsuccess : isSuccess whole.status = true) (hstatus : stream.status = whole.status)
    (htext : whole.text = some text) (hanswer : serde.fromStr text = some answer)
    (hchoices : answer.get? "choices" = some (.array choices))
    (hreason : (finishReason answer).isSome)
    (hparts : stream.parts = chunks.map .ok) (hstreams : Streams serde answer chunks)
    (hserde : ∀ items, (forward serde st url streamBody true duration none).response.body =
      .stream items → Legible serde id items) :
    ∃ packed items,
      (forward serde st url wholeBody false duration none).response.body = .json packed ∧
      (forward serde st url streamBody true duration none).response.body = .stream items ∧
      wholeTurn packed = (wholeTurn answer).packed ∧
      (∀ limit network last lines, network.flatten = wire items →
        (LineAccumulator.withLimit limit).pushAll network = (last, .ok lines) →
        streamedTurn (lines.filterMap (lineChunk serde)) = wholeTurn packed) ∧
      (forward serde st url streamBody true duration none).effects.filterMap State.Effect.event? =
        ((forward serde st url wholeBody false duration none).effects.filterMap
          State.Effect.event?).map ({ · with streamed := true }) := by
  obtain ⟨hcompleted, hparses, hsame, horder, hkept⟩ := hstreams
  rw [← hstatus] at hsuccess
  rw [forward_stream duration none htoken hstream hsuccess, hparts] at hserde
  have hlegible := hserde _ rfl
  rw [forward_stream duration none htoken hstream hsuccess,
    forward_whole duration none htoken hwhole (hstatus ▸ hsuccess) htext hanswer, hparts]
  have hpacked := wholeTurn_packResponse hchoices
  refine ⟨packResponse answer, _, rfl, rfl, hpacked, ?_, ?_⟩
  · intro limit network last lines hnetwork hlines
    rw [← hcompleted.receive_lines] at hparses
    rw [lineChunks_of_wire hprint hlegible hparses hnetwork hlines,
      streamedTurn_sentChunks hcompleted hlegible horder hkept, hsame, hpacked,
      Turn.closed_of_reason hreason]
  · have husage : lastUsage (upstreamChunks serde (referenceLines chunks.flatten)) =
        (usageOf answer).map parseUsage := congrArg Turn.usage hsame
    rw [List.filterMap_append, List.filterMap_append, State.AppState.filterMap_notify,
      State.AppState.filterMap_notify, hcompleted.streamResponse_eq]
    unfold lastUsage at husage
    simp only [filterMap_lineUsage, husage, hmodel, hstatus]
    cases st.observed <;> rfl

/-- The call of the answer below. -/
def signedCall : Value :=
  signedToolCall "call_a" "S+"

/-- An answer with text, a signed call and usage. -/
def signedAnswer : Value :=
  .obj [("choices", .array [.obj
      [("message", .obj [("content", .string "ab"), ("tool_calls", .array [signedCall])]),
        ("finish_reason", .string "tool_calls")]]),
    ("usage", .obj [("prompt_tokens", .number (.posInt 8))])]

/-- The same answer in four chunks, the call beside the second piece of the text and the usage
behind a terminal chunk that says null. -/
def signedChunks : List Value :=
  [.obj [("choices", .array [.obj [("delta", .obj [("content", .string "a")])]])],
    .obj [("choices", .array [.obj [("delta", .obj [("content", .string "b"),
      ("tool_calls", .array [withIndex 0 signedCall])])]])],
    .obj [("choices", .array [.obj [("delta", .obj []), ("finish_reason", .string "tool_calls")]]),
      ("usage", .null)],
    .obj [("choices", .array []), ("usage", .obj [("prompt_tokens", .number (.posInt 8))])]]

theorem streams_signed : Streams .compact signedAnswer (printedStream .compact signedChunks) := by
  have hdisplay : ∀ chunk ∈ signedChunks, SerdeJson.compact.fromStr
      (SerdeJson.compact.display chunk) = some chunk :=
    fun chunk _ ↦ SerdeJson.fromStr_display_compact chunk
  have hread := upstreamChunks_printedStream SerdeJson.printable_compact
    SerdeJson.fromStr_done_compact hdisplay
  refine ⟨by decide +kernel, allParse_printedStream SerdeJson.printable_compact
    SerdeJson.fromStr_done_compact hdisplay, ?_, ?_, ?_⟩
  · rw [hread]
    rfl
  · rw [hread, TextInOrder, ← HeldBack.emitted_eq_iff]
    decide +kernel
  · rw [hread]
    intro usage terminal husage hterminal
    obtain rfl := Option.some.inj husage
    obtain rfl := Option.some.inj hterminal
    exact Or.inr rfl

/-- A state whose Vertex answers a streaming request with the stream and any other with the whole
answer. -/
def signedState : State.AppState where
  config := { Protocols.Config.new "demo" with gatewayKey := "" }
  token := .ok "ya29"
  post _ _ body :=
    .ok ⟨200, some (SerdeJson.compact.display signedAnswer),
      if (body.get? "stream").isSome then (printedStream .compact signedChunks).map .ok else []⟩
  observed := true

theorem forward_streamed_eq_whole_signed :
    let wholeBody : Value := .obj [("model", .string "google/gemini-2.5-pro")]
    let streamBody : Value :=
      .obj [("model", .string "google/gemini-2.5-pro"), ("stream", .bool true)]
    ∃ packed items,
      (forward .compact signedState "u" wholeBody false 0 none).response.body = .json packed ∧
      (forward .compact signedState "u" streamBody true 0 none).response.body = .stream items ∧
      wholeTurn packed = (wholeTurn signedAnswer).packed ∧
      (∀ limit network last lines, network.flatten = wire items →
        (LineAccumulator.withLimit limit).pushAll network = (last, .ok lines) →
        streamedTurn (lines.filterMap (lineChunk .compact)) = wholeTurn packed) ∧
      (forward .compact signedState "u" streamBody true 0 none).effects.filterMap
          State.Effect.event? =
        ((forward .compact signedState "u" wholeBody false 0 none).effects.filterMap
          State.Effect.event?).map ({ · with streamed := true }) :=
  forward_streamed_eq_whole .compact SerdeJson.printable_compact signedState "u" "ya29" _ _
    signedAnswer 0 _ _ _ _ (printedStream .compact signedChunks) rfl rfl rfl rfl rfl rfl rfl
    (SerdeJson.fromStr_display_compact signedAnswer) rfl rfl rfl streams_signed
    fun _ _ ↦ legible_compact _ _

end VertexGateway.Forward
