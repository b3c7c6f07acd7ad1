import Mathlib

/-!
# Splitting a stream that arrives in pieces

A stream over any alphabet is cut into frames at a separator. `frames` lists the pieces that a
separator has already terminated and `remainder` is the open piece after the last separator. The
two append laws say that a reader may keep only the remainder between deliveries: the frames of a
longer stream are those already seen followed by those of the remainder with the new delivery
appended, wherever the deliveries were cut.
-/

namespace VertexGateway.Framing

variable {α : Type*} [DecidableEq α]

/-- Every stream is either free of separators or one terminated piece followed by a stream. -/
@[elab_as_elim]
theorem induction {motive : List α → Prop} (separator : α)
    (unterminated : ∀ piece, separator ∉ piece → motive piece)
    (terminated : ∀ piece rest, separator ∉ piece → motive rest →
      motive (piece ++ separator :: rest))
    (stream : List α) : motive stream := by
  by_cases hmem : separator ∈ stream
  · obtain ⟨piece, rest, hstream, hpiece⟩ := List.eq_append_cons_of_mem hmem
    have hlength : rest.length < stream.length := by
      rw [hstream, List.length_append, List.length_cons]
      omega
    rw [hstream]
    exact terminated piece rest hpiece (induction separator unterminated terminated rest)
  · exact unterminated stream hmem
termination_by stream.length

/-- The pieces of the stream that a separator terminates. -/
def frames (separator : α) (stream : List α) : List (List α) :=
  (stream.splitOn separator).dropLast

/-- The open piece after the last separator. -/
def remainder (separator : α) (stream : List α) : List α :=
  (stream.splitOn separator).getLast (List.splitOn_ne_nil separator stream)

theorem splitOn_eq (separator : α) (stream : List α) :
    stream.splitOn separator = frames separator stream ++ [remainder separator stream] :=
  (List.dropLast_append_getLast (List.splitOn_ne_nil separator stream)).symm

theorem splitOn_of_notMem {separator : α} {piece : List α} (h : separator ∉ piece) :
    piece.splitOn separator = [piece] := by
  rw [List.splitOn_eq_splitOnP]
  apply List.splitOnP_eq_singleton
  intro element helement
  simp only [beq_eq_false_iff_ne]
  exact fun heq ↦ h (heq ▸ helement)

theorem splitOn_terminated {separator : α} {piece : List α} (h : separator ∉ piece)
    (rest : List α) :
    (piece ++ separator :: rest).splitOn separator = piece :: rest.splitOn separator := by
  have hpiece := splitOn_of_notMem h
  simp only [List.splitOn_eq_splitOnP] at hpiece ⊢
  rw [List.splitOnP_append_cons piece rest (by simp), hpiece, List.singleton_append]

@[simp]
theorem frames_of_notMem {separator : α} {piece : List α} (h : separator ∉ piece) :
    frames separator piece = [] := by
  simp [frames, splitOn_of_notMem h]

@[simp]
theorem remainder_of_notMem {separator : α} {piece : List α} (h : separator ∉ piece) :
    remainder separator piece = piece := by
  simp [remainder, splitOn_of_notMem h]

theorem frames_terminated {separator : α} {piece : List α} (h : separator ∉ piece)
    (rest : List α) :
    frames separator (piece ++ separator :: rest) = piece :: frames separator rest := by
  unfold frames
  rw [splitOn_terminated h, List.dropLast_cons_of_ne_nil (List.splitOn_ne_nil _ _)]

theorem remainder_terminated {separator : α} {piece : List α} (h : separator ∉ piece)
    (rest : List α) :
    remainder separator (piece ++ separator :: rest) = remainder separator rest := by
  simp only [remainder, splitOn_terminated h]
  exact List.getLast_cons (List.splitOn_ne_nil _ _)

theorem notMem_remainder (separator : α) (stream : List α) :
    separator ∉ remainder separator stream := by
  induction stream using induction separator with
  | unterminated piece h => rwa [remainder_of_notMem h]
  | terminated piece rest h ih => rwa [remainder_terminated h]

/-- The remainder carries everything of `front` that the frames of a longer stream depend on. -/
theorem frames_append (separator : α) (front back : List α) :
    frames separator (front ++ back) =
      frames separator front ++ frames separator (remainder separator front ++ back) := by
  induction front using induction separator with
  | unterminated piece h => rw [frames_of_notMem h, remainder_of_notMem h, List.nil_append]
  | terminated piece rest h ih =>
    calc
      frames separator (piece ++ separator :: rest ++ back) =
          piece :: frames separator (rest ++ back) := by
        rw [List.append_assoc, List.cons_append, frames_terminated h]
      _ = piece ::
          (frames separator rest ++ frames separator (remainder separator rest ++ back)) := by
        rw [ih]
      _ = _ := by
        rw [frames_terminated h, remainder_terminated h, List.cons_append]

theorem remainder_append (separator : α) (front back : List α) :
    remainder separator (front ++ back) =
      remainder separator (remainder separator front ++ back) := by
  induction front using induction separator with
  | unterminated piece h => rw [remainder_of_notMem h]
  | terminated piece rest h ih =>
    calc
      remainder separator (piece ++ separator :: rest ++ back) =
          remainder separator (rest ++ back) := by
        rw [List.append_assoc, List.cons_append, remainder_terminated h]
      _ = remainder separator (remainder separator rest ++ back) := ih
      _ = _ := by rw [remainder_terminated h]

/-- Nothing is terminated in a stream without separators, and only there. -/
theorem frames_eq_nil_iff (separator : α) (stream : List α) :
    frames separator stream = [] ↔ separator ∉ stream := by
  induction stream using induction separator with
  | unterminated piece h => simp [h]
  | terminated piece rest h ih => simp [frames_terminated h]

theorem notMem_of_mem_frames {separator : α} {stream piece : List α}
    (h : piece ∈ frames separator stream) : separator ∉ piece := by
  induction stream using induction separator with
  | unterminated whole hwhole =>
    rw [frames_of_notMem hwhole] at h
    exact absurd h List.not_mem_nil
  | terminated first rest hfirst ih =>
    rw [frames_terminated hfirst] at h
    rcases List.mem_cons.mp h with rfl | hrest
    · exact hfirst
    · exact ih hrest

/-- Of a shorter stream the first frames are known. -/
theorem frames_prefix {separator : α} {front stream : List α} (h : front <+: stream) :
    frames separator front <+: frames separator stream := by
  obtain ⟨back, rfl⟩ := h
  rw [frames_append]
  exact List.prefix_append _ _

/-! ## Writing frames -/

/-- The stream that terminates every piece. -/
def terminate (separator : α) (pieces : List (List α)) : List α :=
  pieces.flatMap (· ++ [separator])

omit [DecidableEq α] in
@[simp]
theorem terminate_cons (separator : α) (piece : List α) (pieces : List (List α)) :
    terminate separator (piece :: pieces) = piece ++ separator :: terminate separator pieces := by
  simp [terminate]

/-- Pieces without separators are read back, and nothing is left open. -/
theorem frames_terminate {separator : α} {pieces : List (List α)}
    (h : ∀ piece ∈ pieces, separator ∉ piece) :
    frames separator (terminate separator pieces) = pieces ∧
      remainder separator (terminate separator pieces) = [] := by
  induction pieces with
  | nil => simp [terminate]
  | cons piece pieces ih =>
    obtain ⟨hpiece, hpieces⟩ := List.forall_mem_cons.mp h
    obtain ⟨hframes, hremainder⟩ := ih hpieces
    rw [terminate_cons, frames_terminated hpiece, remainder_terminated hpiece, hframes]
    exact ⟨rfl, hremainder⟩

/-! ## Pieces and remainders -/

/-- Cut the stream behind a piece and the piece is what is open. -/
theorem exists_prefix_of_mem_splitOn {separator : α} {stream piece : List α}
    (h : piece ∈ stream.splitOn separator) :
    ∃ front, front <+: stream ∧ remainder separator front = piece := by
  induction stream using induction separator with
  | unterminated whole hwhole =>
    rw [splitOn_of_notMem hwhole, List.mem_singleton] at h
    subst h
    exact ⟨piece, List.prefix_rfl, remainder_of_notMem hwhole⟩
  | terminated first rest hfirst ih =>
    rw [splitOn_terminated hfirst] at h
    rcases List.mem_cons.mp h with rfl | hmem
    · exact ⟨piece, List.prefix_append _ _, remainder_of_notMem hfirst⟩
    · obtain ⟨front, hfront, hopen⟩ := ih hmem
      refine ⟨first ++ separator :: front, ?_, ?_⟩
      · exact (List.prefix_append_right_inj first).mpr (List.cons_prefix_cons.mpr ⟨rfl, hfront⟩)
      · rw [remainder_terminated hfirst, hopen]

/-- What is open at some point begins a piece of the whole stream. -/
theorem exists_piece_of_remainder (separator : α) (front back : List α) :
    ∃ piece ∈ (front ++ back).splitOn separator, remainder separator front <+: piece := by
  induction front using induction separator with
  | unterminated begun hbegun =>
    rw [remainder_of_notMem hbegun]
    have hlonger (more : List α) (hmore : separator ∉ more) : separator ∉ begun ++ more := by
      rw [List.mem_append, not_or]
      exact ⟨hbegun, hmore⟩
    induction back using induction separator with
    | unterminated more hmore =>
      refine ⟨begun ++ more, ?_, List.prefix_append begun more⟩
      rw [splitOn_of_notMem (hlonger more hmore)]
      exact List.mem_singleton_self _
    | terminated more rest hmore _ =>
      refine ⟨begun ++ more, ?_, List.prefix_append begun more⟩
      rw [← List.append_assoc, splitOn_terminated (hlonger more hmore)]
      exact List.mem_cons_self
  | terminated first rest hfirst ih =>
    obtain ⟨piece, hpiece, hprefix⟩ := ih
    refine ⟨piece, ?_, ?_⟩
    · rw [List.append_assoc, List.cons_append, splitOn_terminated hfirst]
      exact List.mem_cons_of_mem first hpiece
    · rwa [remainder_terminated hfirst]

end VertexGateway.Framing
