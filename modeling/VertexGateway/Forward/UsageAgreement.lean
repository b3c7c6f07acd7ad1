import VertexGateway.Forward.Ending
import VertexGateway.Forward.TextOrder

/-!
# The usage the client reads

The observer is told the last usage of the upstream, wherever it was carried. The client reads
usage from the terminal chunk, to which it is re-attached only if that chunk has no `usage` member
at all: an explicit null, or an older usage object on the terminal chunk, stays as it is.
-/

namespace VertexGateway.Forward

/-- The counts of the last usage object. -/
def lastUsage (chunks : List Value) : Option Usage :=
  (chunks.filterMap fun chunk ↦ (usageOf chunk).map parseUsage).getLast?

/-- The chunk sent just before the terminator has a usage object with these counts. -/
def ClientReads (serde : SerdeJson) (items : List Item) (usage : Usage) : Prop :=
  ∃ front frame terminal, items = front ++ [.ok frame, .ok doneFrame] ∧
    frameChunk serde frame = some terminal ∧ (usageOf terminal).map parseUsage = some usage

/-- The last terminal chunk, if there is one, has no `usage` member or a usage object with the
counts of the last usage object of all. -/
def UsageInStep (chunks : List Value) : Prop :=
  ∀ usage terminal, lastUsage chunks = some usage → (chunks.filter isTerminal).getLast? = some terminal →
    terminal.get? "usage" = none ∨ (usageOf terminal).map parseUsage = some usage

theorem filterMap_lineUsage (serde : SerdeJson) (lines : List String) :
    lines.filterMap (lineUsage serde) =
      (upstreamChunks serde lines).filterMap fun chunk ↦ (usageOf chunk).map parseUsage := by
  unfold upstreamChunks
  rw [List.filterMap_filterMap]
  congr 1
  funext line
  unfold lineUsage
  cases lineChunk serde line <;> rfl

/-- Re-attaching usage gives a chunk these counts unless a `usage` member of its own says
otherwise. -/
theorem usageOf_attachUsage_iff (usage : Usage) (map : FiniteMap String Value) :
    (usageOf (attachUsage (some usage) (.object map))).map parseUsage = some usage ↔
      map.get? "usage" = none ∨ (usageOf (.object map)).map parseUsage = some usage := by
  cases hmember : map.get? "usage" with
  | none =>
    have hattached : usageOf (attachUsage (some usage) (.object map)) = some (usageJson usage) := by
      simp [attachUsage, hmember, Value.assign, usageOf, Value.asObject]
    simp [hattached, parseUsage_usageJson]
  | some member =>
    have hkept : attachUsage (some usage) (.object map) = .object map := by
      simp [attachUsage, hmember]
    simp [hkept]

theorem usageOf_stripTools (chunk : Value) : usageOf (stripTools chunk) = usageOf chunk := by
  unfold usageOf
  rw [get?_stripTools chunk (by decide) (by decide)]

/-- The terminal chunk carries the observed usage unless a `usage` member of its own says
otherwise. -/
theorem usageOf_terminalChunk_iff (serde : SerdeJson) (model : String) (lines : List String)
    {usage : Usage} (h : lastUsage (upstreamChunks serde lines) = some usage) :
    (usageOf (terminalChunk model (processLines serde lines .new).1)).map parseUsage = some usage ↔
      UsageInStep (upstreamChunks serde lines) := by
  have hobserved : ((upstreamChunks serde lines).filterMap fun chunk ↦
      (usageOf chunk).map parseUsage).getLast? = some usage := h
  unfold terminalChunk
  rw [processLines_eq]
  simp only [filterMap_lineUsage, filterMap_lineTerminal, List.getLast?_map, hobserved]
  cases hlast : ((upstreamChunks serde lines).filter isTerminal).getLast? with
  | none =>
    have hvacuous : UsageInStep (upstreamChunks serde lines) := by
      intro _ terminal _ hterminal
      exact absurd (hlast.symm.trans hterminal) (Option.some_ne_none terminal).symm
    rw [Option.map_none, Option.getD_none, synthesizedChunk, Value.obj, usageOf_attachUsage_iff]
    exact iff_of_true (Or.inl rfl) hvacuous
  | some terminal =>
    have hstep : UsageInStep (upstreamChunks serde lines) ↔
        terminal.get? "usage" = none ∨ (usageOf terminal).map parseUsage = some usage := by
      simp [UsageInStep, h, hlast]
    have hterminal : isTerminal (stripTools terminal) = true := by
      rw [isTerminal_stripTools]
      exact (List.mem_filter.mp (List.mem_of_getLast? hlast)).2
    obtain ⟨map, hmap⟩ := exists_object_of_isTerminal hterminal
    rw [hstep, Option.map_some, Option.getD_some, hmap, usageOf_attachUsage_iff,
      ← Value.get?_object, ← hmap, get?_stripTools terminal (by decide) (by decide),
      usageOf_stripTools]

/-- Counts are integers, so they survive. -/
theorem parseUsage_eraseDoubles (chunk : Value) :
    (usageOf chunk.eraseDoubles).map parseUsage = (usageOf chunk).map parseUsage := by
  have hnum (value : Option Value) :
      (value.map Value.eraseDoubles).bind Value.asU64 = value.bind Value.asU64 := by
    cases value <;> simp
  have hmember (value : Option Value) (key : String) :
      (value.map Value.eraseDoubles).bind (·.get? key) =
        (value.bind (·.get? key)).map Value.eraseDoubles := by
    cases value <;> simp [Value.get?_eraseDoubles]
  have hcounts (usage : FiniteMap String Value) :
      parseUsage (Value.eraseMembers usage) = parseUsage usage := by
    simp only [parseUsage, Value.get?_eraseMembers, hmember, hnum]
  unfold usageOf
  rw [Value.get?_eraseDoubles]
  cases chunk.get? "usage" with
  | none => rfl
  | some usage =>
    simp only [Option.map_some, Option.bind_some, Value.asObject_eraseDoubles]
    cases usage.asObject with
    | none => rfl
    | some counts => simp [hcounts]

theorem clientReads_iff (serde : SerdeJson) (model : String) (status : UInt16) (duration : ℕ)
    {chunks : List (List UInt8)} (hcompleted : Completed chunks)
    (hserde : Legible serde Value.eraseDoubles
      (streamResponse serde model status duration none (chunks.map .ok)).1) (usage : Usage) :
    ClientReads serde (streamResponse serde model status duration none (chunks.map .ok)).1 usage ↔
      (usageOf (terminalChunk model
        (processLines serde (Sse.referenceLines chunks.flatten) .new).1)).map parseUsage =
          some usage := by
  let terminal := terminalChunk model (processLines serde (Sse.referenceLines chunks.flatten) .new).1
  have hsent : .ok (sseLine serde terminal) ∈
      (streamResponse serde model status duration none (chunks.map .ok)).1 :=
    (hcompleted.sent_iff serde model status duration _).mpr (Or.inr (Or.inr (Or.inl rfl)))
  obtain ⟨read, hread, -⟩ := Option.map_eq_some_iff.mp (hserde.frameChunk_sseLine hsent)
  have hcounts : (usageOf read).map parseUsage = (usageOf terminal).map parseUsage := by
    have hlook := @Value.map_eq_of_eraseDoubles _ (fun chunk ↦ (usageOf chunk).map parseUsage)
      parseUsage_eraseDoubles _ _ (hserde.frameChunk_sseLine hsent)
    rw [hread] at hlook
    exact Option.some.inj hlook
  rw [hcompleted.streamResponse_eq]
  simp only [List.map_append, List.map_cons, List.map_nil]
  constructor
  · rintro ⟨front, frame, found, hitems, hframe, husage⟩
    obtain ⟨-, hend⟩ := List.append_inj' hitems rfl
    simp only [List.cons.injEq, Except.ok.injEq, and_true] at hend
    rw [← hend, hread] at hframe
    rw [← Option.some.inj hframe, hcounts] at husage
    exact husage
  · intro husage
    exact ⟨_, _, read, rfl, hread, hcounts.trans husage⟩

/-- **When the client reads what the observer is told.** For a stream that ends cleanly the observer
is told the last upstream usage, and the client reads the same in the terminal chunk if and only if
the last upstream terminal chunk has no `usage` member or one with these very counts. -/
theorem usage_agrees_iff (serde : SerdeJson) (model : String) (status : UInt16) (duration : ℕ)
    (chunks : List (List UInt8)) (hcompleted : Completed chunks)
    (hserde : Legible serde Value.eraseDoubles
      (streamResponse serde model status duration none (chunks.map .ok)).1) :
    (streamResponse serde model status duration none (chunks.map .ok)).2.usage =
        lastUsage (upstreamChunks serde (Sse.referenceLines chunks.flatten)) ∧
      ((∀ usage,
          (streamResponse serde model status duration none (chunks.map .ok)).2.usage = some usage →
          ClientReads serde (streamResponse serde model status duration none (chunks.map .ok)).1 usage) ↔
        UsageInStep (upstreamChunks serde (Sse.referenceLines chunks.flatten))) := by
  have hevent : (streamResponse serde model status duration none (chunks.map .ok)).2.usage =
      lastUsage (upstreamChunks serde (Sse.referenceLines chunks.flatten)) := by
    unfold lastUsage
    rw [hcompleted.streamResponse_eq, ← filterMap_lineUsage]
  refine ⟨hevent, ?_⟩
  rw [hevent]
  constructor
  · intro hreads
    cases hlast : lastUsage (upstreamChunks serde (Sse.referenceLines chunks.flatten)) with
    | none =>
      intro usage terminal husage
      exact absurd (hlast.symm.trans husage) (Option.some_ne_none usage).symm
    | some usage =>
      exact (usageOf_terminalChunk_iff serde model _ hlast).mp
        ((clientReads_iff serde model status duration hcompleted hserde usage).mp
          (hreads usage hlast))
  · intro hstep usage husage
    rw [clientReads_iff serde model status duration hcompleted hserde usage,
      usageOf_terminalChunk_iff serde model _ husage]
    exact hstep

/-- A usage chunk after a terminal chunk that has no usage of its own. -/
def trailingUsage (own : List (String × Value)) : List (List UInt8) :=
  [Utf8.bytes (sseLine .compact (.obj (("choices", .array [.obj
      [("delta", .obj []), ("finish_reason", .string "stop")]]) :: own))),
    Utf8.bytes (sseLine .compact (.obj [("choices", .array []),
      ("usage", .obj [("prompt_tokens", .number (.posInt 8))])]))]

theorem usage_agrees_iff_trailing :
    (streamResponse .compact "gemini" 200 0 none ((trailingUsage []).map .ok)).2.usage =
        lastUsage (upstreamChunks .compact (Sse.referenceLines (trailingUsage []).flatten)) ∧
      ((∀ usage, (streamResponse .compact "gemini" 200 0 none
            ((trailingUsage []).map .ok)).2.usage = some usage →
          ClientReads .compact (streamResponse .compact "gemini" 200 0 none
            ((trailingUsage []).map .ok)).1 usage) ↔
        UsageInStep (upstreamChunks .compact (Sse.referenceLines (trailingUsage []).flatten))) :=
  usage_agrees_iff .compact "gemini" 200 0 (trailingUsage []) (by decide +kernel)
    (legible_compact _ _)

/-- With an explicit null on the terminal chunk the observer is told counts that the client does
not read there. -/
theorem usage_disagrees_on_null :
    Completed (trailingUsage [("usage", .null)]) ∧
      (streamResponse .compact "gemini" 200 0 none
        ((trailingUsage [("usage", .null)]).map .ok)).2.usage = some ⟨8, 0, 0⟩ ∧
      ¬ ClientReads .compact (streamResponse .compact "gemini" 200 0 none
        ((trailingUsage [("usage", .null)]).map .ok)).1 ⟨8, 0, 0⟩ := by
  have hcompleted : Completed (trailingUsage [("usage", .null)]) := by decide +kernel
  refine ⟨hcompleted, by decide +kernel, ?_⟩
  rw [clientReads_iff .compact "gemini" 200 0 hcompleted (legible_compact _ _)]
  decide +kernel

end VertexGateway.Forward
