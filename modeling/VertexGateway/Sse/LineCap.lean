import VertexGateway.Sse.LineAccumulator

/-!
# The cap on a line

The cap applies to what is left over once the complete lines of a chunk are taken out. So what
counts is how much of a line is open at the end of a chunk: `pushAll_error_iff` says it for one
chunking and `rejects_chunkings` for all chunkings of a stream. A failing push returns an error in
place of the lines it has collected, and `pushEach_lines_iff` says when lines are lost that way.
-/

namespace VertexGateway.Sse

open Framing

namespace LineAccumulator

/-! ## Which chunkings are rejected -/

theorem buf_push (acc : LineAccumulator) (chunk : List UInt8) :
    (acc.push chunk).1.buf = remainder 0x0A (acc.buf ++ chunk) := by
  rw [push_eq]

theorem notMem_buf_push (acc : LineAccumulator) (chunk : List UInt8) :
    0x0A ∉ (acc.push chunk).1.buf := by
  rw [buf_push]
  exact notMem_remainder _ _

theorem push_of_over {acc : LineAccumulator} {chunk : List UInt8}
    (h : acc.limit < (remainder 0x0A (acc.buf ++ chunk)).length) :
    (acc.push chunk).2 = .error (exceededMessage acc.limit) := by
  rw [push_eq]
  exact if_pos h

theorem push_of_fits {acc : LineAccumulator} {chunk : List UInt8}
    (h : ¬ acc.limit < (remainder 0x0A (acc.buf ++ chunk)).length) :
    (acc.push chunk).2 = .ok ((frames 0x0A (acc.buf ++ chunk)).map decodeLine) := by
  rw [push_eq]
  exact if_neg h

theorem remainder_push (acc : LineAccumulator) (chunk more : List UInt8) :
    remainder 0x0A ((acc.push chunk).1.buf ++ more) = remainder 0x0A (acc.buf ++ (chunk ++ more)) := by
  rw [buf_push, ← remainder_append, List.append_assoc]

/-- Pushing never changes the cap. -/
theorem limit_of_pushAll {acc last : LineAccumulator} {chunks : List (List UInt8)}
    {lines : List String} (h : acc.pushAll chunks = (last, .ok lines)) : last.limit = acc.limit := by
  induction chunks generalizing acc lines with
  | nil =>
    obtain ⟨rfl, -⟩ := Prod.mk.inj h
    rfl
  | cons chunk chunks ih =>
    obtain ⟨pushed, found, more, hpush, hmore, -⟩ := pushAll_cons_ok h
    rw [ih hmore, ← limit_push acc chunk, hpush]

/-- After the chunks of some non-empty prefix, counted from the first chunk on. -/
theorem exists_prefix_cons_iff {acc : LineAccumulator} (hbuf : 0x0A ∉ acc.buf)
    (hlimit : acc.buf.length ≤ acc.limit) (chunk : List UInt8) (chunks : List (List UInt8)) :
    (∃ front, front <+: chunk :: chunks ∧
        acc.limit < (remainder 0x0A (acc.buf ++ front.flatten)).length) ↔
      ∃ front, front <+: chunks ∧
        acc.limit < (remainder 0x0A ((acc.push chunk).1.buf ++ front.flatten)).length := by
  simp only [remainder_push]
  constructor
  · rintro ⟨front, hfront, hover⟩
    cases front with
    | nil =>
      rw [List.flatten_nil, List.append_nil, remainder_of_notMem hbuf] at hover
      exact absurd hover (Nat.not_lt.mpr hlimit)
    | cons first front =>
      obtain ⟨rfl, hrest⟩ := List.cons_prefix_cons.mp hfront
      exact ⟨front, hrest, hover⟩
  · rintro ⟨front, hfront, hover⟩
    exact ⟨chunk :: front, List.cons_prefix_cons.mpr ⟨rfl, hfront⟩, hover⟩

/-- Fed from an accumulator within its cap, some push fails exactly when more than the cap is open
after some of the chunks. -/
theorem pushAll_error_iff {acc : LineAccumulator} (hbuf : 0x0A ∉ acc.buf)
    (hlimit : acc.buf.length ≤ acc.limit) (chunks : List (List UInt8)) :
    (∃ message, (acc.pushAll chunks).2 = .error message) ↔
      ∃ front, front <+: chunks ∧
        acc.limit < (remainder 0x0A (acc.buf ++ front.flatten)).length := by
  induction chunks generalizing acc with
  | nil =>
    rw [← remainder_of_notMem hbuf] at hlimit
    simpa [pushAll, List.prefix_nil] using hlimit
  | cons chunk chunks ih =>
    rw [exists_prefix_cons_iff hbuf hlimit, pushAll]
    rcases hpush : acc.push chunk with ⟨pushed, result⟩
    have hpushed : (acc.push chunk).1 = pushed := by rw [hpush]
    have hresult : (acc.push chunk).2 = result := by rw [hpush]
    have hnextLimit : pushed.limit = acc.limit := by rw [← hpushed, limit_push]
    have hnextBuf : pushed.buf = remainder 0x0A (acc.buf ++ chunk) := by rw [← hpushed, buf_push]
    have hnewline : 0x0A ∉ pushed.buf := hnextBuf ▸ notMem_remainder _ _
    by_cases hover : acc.limit < (remainder 0x0A (acc.buf ++ chunk)).length
    · rw [push_of_over hover] at hresult
      subst hresult
      refine iff_of_true ⟨_, rfl⟩ ⟨[], List.nil_prefix, ?_⟩
      rwa [List.flatten_nil, List.append_nil, remainder_of_notMem hnewline, hnextBuf]
    · rw [push_of_fits hover] at hresult
      subst hresult
      have hfits : pushed.buf.length ≤ pushed.limit := by
        rw [hnextBuf, hnextLimit]
        exact Nat.not_lt.mp hover
      rw [← hnextLimit, ← ih hnewline hfits]
      simp only
      rcases pushed.pushAll chunks with ⟨last, message | more⟩ <;> simp

end LineAccumulator

/-- Some push of this chunking returns an error. -/
def Rejects (limit : ℕ) (chunks : List (List UInt8)) : Prop :=
  ∃ message, ((LineAccumulator.withLimit limit).pushAll chunks).2 = .error message

theorem rejects_iff (limit : ℕ) (chunks : List (List UInt8)) :
    Rejects limit chunks ↔
      ∃ front, front <+: chunks ∧ limit < (remainder 0x0A front.flatten).length := by
  have hbuf : 0x0A ∉ (LineAccumulator.withLimit limit).buf := List.not_mem_nil
  exact LineAccumulator.pushAll_error_iff hbuf (Nat.zero_le limit) chunks

/-- Some line of the stream, terminated or still open at its end, is longer than the limit. -/
def HasLongLine (limit : ℕ) (bytes : List UInt8) : Prop :=
  ∃ line ∈ bytes.splitOn 0x0A, limit < line.length

/-- A chunk boundary inside a long line is what makes it rejected. -/
theorem exists_rejects_iff (limit : ℕ) (bytes : List UInt8) :
    (∃ chunks, chunks.flatten = bytes ∧ Rejects limit chunks) ↔ HasLongLine limit bytes := by
  constructor
  · rintro ⟨chunks, rfl, hrejects⟩
    obtain ⟨front, ⟨back, rfl⟩, hover⟩ := (rejects_iff limit chunks).mp hrejects
    rw [List.flatten_append]
    obtain ⟨line, hline, hopen⟩ := exists_piece_of_remainder 0x0A front.flatten back.flatten
    exact ⟨line, hline, hover.trans_le hopen.length_le⟩
  · rintro ⟨line, hline, hlong⟩
    obtain ⟨front, ⟨back, rfl⟩, hopen⟩ := exists_prefix_of_mem_splitOn hline
    refine ⟨[front, back], by simp, (rejects_iff limit _).mpr ⟨[front], ?_, ?_⟩⟩
    · exact List.cons_prefix_cons.mpr ⟨rfl, List.nil_prefix⟩
    · simpa [hopen] using hlong

/-- A line that is open at the end is rejected however it arrives; of the others none is rejected
when the whole stream is one chunk. -/
theorem forall_rejects_iff (limit : ℕ) (bytes : List UInt8) :
    (∀ chunks, chunks.flatten = bytes → Rejects limit chunks) ↔
      limit < (remainder 0x0A bytes).length := by
  constructor
  · intro h
    obtain ⟨front, hfront, hover⟩ := (rejects_iff limit [bytes]).mp (h [bytes] (by simp))
    rcases List.prefix_cons_iff.mp hfront with rfl | ⟨rest, rfl, hrest⟩
    · exact absurd hover (by simp)
    · obtain rfl := List.prefix_nil.mp hrest
      simpa using hover
  · rintro hover chunks rfl
    exact (rejects_iff limit chunks).mpr ⟨chunks, List.prefix_rfl, hover⟩

/-- **The cap applies to what is left open.** A chunking is rejected exactly when more than the
limit is open after one of its chunks. So some chunking of a stream is rejected exactly when it has
a line longer than the limit, and all are exactly when its open last line is. -/
theorem rejects_chunkings (limit : ℕ) :
    (∀ chunks, Rejects limit chunks ↔
      ∃ front, front <+: chunks ∧ limit < (remainder 0x0A front.flatten).length) ∧
    (∀ bytes, (∃ chunks, chunks.flatten = bytes ∧ Rejects limit chunks) ↔
      HasLongLine limit bytes) ∧
    ∀ bytes, (∀ chunks, chunks.flatten = bytes → Rejects limit chunks) ↔
      limit < (remainder 0x0A bytes).length :=
  ⟨rejects_iff limit, exists_rejects_iff limit, forall_rejects_iff limit⟩

/-- A line beyond the limit passes in one chunk and is rejected when it arrives before its end. -/
theorem rejects_depends_on_chunking :
    [[0x61, 0x62, 0x63, 0x64, 0x0A]].flatten = [[0x61, 0x62, 0x63, 0x64], [0x0A]].flatten ∧
      HasLongLine 3 [0x61, 0x62, 0x63, 0x64, 0x0A] ∧
      ¬ Rejects 3 [[0x61, 0x62, 0x63, 0x64, 0x0A]] ∧
      Rejects 3 [[0x61, 0x62, 0x63, 0x64], [0x0A]] := by
  refine ⟨rfl, ⟨[0x61, 0x62, 0x63, 0x64], by decide, by decide⟩, ?_,
    ⟨LineAccumulator.exceededMessage 3, by decide +kernel⟩⟩
  rintro ⟨message, hmessage⟩
  have haccepted : ((LineAccumulator.withLimit 3).pushAll [[0x61, 0x62, 0x63, 0x64, 0x0A]]).2 =
      .ok ["abcd"] := by decide +kernel
  rw [haccepted] at hmessage
  exact absurd hmessage (by simp)

/-! ## Which lines a failing push loses -/

namespace LineAccumulator

/-- Successive pushes, going on after one that fails: the accumulator at the end and the lines that
the pushes returned. -/
def pushEach (acc : LineAccumulator) : List (List UInt8) → LineAccumulator × List String
  | [] => (acc, [])
  | chunk :: chunks =>
    match acc.push chunk with
    | (acc, .ok lines) =>
      let (acc, more) := acc.pushEach chunks
      (acc, lines ++ more)
    | (acc, .error _) => acc.pushEach chunks

theorem pushEach_cons (acc : LineAccumulator) (chunk : List UInt8) (chunks : List (List UInt8)) :
    acc.pushEach (chunk :: chunks) =
      (((acc.push chunk).1.pushEach chunks).1,
        (if acc.limit < (remainder 0x0A (acc.buf ++ chunk)).length then []
          else (frames 0x0A (acc.buf ++ chunk)).map decodeLine) ++
        ((acc.push chunk).1.pushEach chunks).2) := by
  have hpush := push_eq acc chunk
  by_cases hover : acc.limit < (remainder 0x0A (acc.buf ++ chunk)).length
  · rw [if_pos hover] at hpush ⊢
    rw [pushEach, hpush]
    rfl
  · rw [if_neg hover] at hpush ⊢
    rw [pushEach, hpush]

/-- The buffer never holds a complete line, whether or not a push failed. -/
theorem buf_pushEach {acc : LineAccumulator} (hbuf : 0x0A ∉ acc.buf) (chunks : List (List UInt8)) :
    (acc.pushEach chunks).1.buf = remainder 0x0A (acc.buf ++ chunks.flatten) := by
  induction chunks generalizing acc with
  | nil => simp [pushEach, hbuf]
  | cons chunk chunks ih =>
    rw [pushEach_cons]
    simp only [ih (notMem_buf_push acc chunk), remainder_push, List.flatten_cons]

theorem frames_push (acc : LineAccumulator) (chunk more : List UInt8) :
    frames 0x0A (acc.buf ++ (chunk ++ more)) =
      frames 0x0A (acc.buf ++ chunk) ++ frames 0x0A ((acc.push chunk).1.buf ++ more) := by
  rw [buf_push, ← List.append_assoc, frames_append]

/-- Nothing is returned that was not received. -/
theorem pushEach_lines_sublist (acc : LineAccumulator) (chunks : List (List UInt8)) :
    (acc.pushEach chunks).2.Sublist ((frames 0x0A (acc.buf ++ chunks.flatten)).map decodeLine) := by
  induction chunks generalizing acc with
  | nil => simp [pushEach]
  | cons chunk chunks ih =>
    rw [pushEach_cons, List.flatten_cons, frames_push, List.map_append]
    apply List.Sublist.append _ (ih _)
    split
    · exact List.nil_sublist _
    · exact List.Sublist.refl _

/-- One push: the run loses nothing if this push returns its lines or has none, and the rest of the
run loses nothing. -/
theorem pushEach_lines_cons_iff {acc : LineAccumulator} (hbuf : 0x0A ∉ acc.buf)
    (chunk : List UInt8) (chunks : List (List UInt8)) :
    (acc.pushEach (chunk :: chunks)).2 =
        (frames 0x0A (acc.buf ++ (chunk :: chunks).flatten)).map decodeLine ↔
      (acc.limit < (remainder 0x0A (acc.buf ++ chunk)).length → 0x0A ∉ chunk) ∧
        ((acc.push chunk).1.pushEach chunks).2 =
          (frames 0x0A ((acc.push chunk).1.buf ++ chunks.flatten)).map decodeLine := by
  rw [pushEach_cons, List.flatten_cons, frames_push, List.map_append]
  by_cases hover : acc.limit < (remainder 0x0A (acc.buf ++ chunk)).length
  · have hlength := (pushEach_lines_sublist (acc.push chunk).1 chunks).length_le
    have hnothing : (frames 0x0A (acc.buf ++ chunk)).map decodeLine = [] ↔ 0x0A ∉ chunk := by
      rw [List.map_eq_nil_iff, frames_eq_nil_iff, List.mem_append, not_or]
      exact and_iff_right hbuf
    simp only [hover, if_true, List.nil_append, true_imp_iff]
    rw [← hnothing]
    constructor
    · intro h
      have hshort := congrArg List.length h
      rw [List.length_append] at hshort
      have hnil : (frames 0x0A (acc.buf ++ chunk)).map decodeLine = [] := by
        rw [← List.length_eq_zero_iff]
        omega
      rw [hnil, List.nil_append] at h
      exact ⟨hnil, h⟩
    · rintro ⟨hnil, h⟩
      rw [hnil, List.nil_append, h]
  · simp [hover]

/-- The lines returned are all lines terminated so far exactly when no chunk with a newline leaves
more than the cap open. -/
theorem pushEach_lines_iff {acc : LineAccumulator} (hbuf : 0x0A ∉ acc.buf)
    (chunks : List (List UInt8)) :
    (acc.pushEach chunks).2 = (frames 0x0A (acc.buf ++ chunks.flatten)).map decodeLine ↔
      ∀ front chunk, front ++ [chunk] <+: chunks →
        acc.limit < (remainder 0x0A (acc.buf ++ (front ++ [chunk]).flatten)).length →
        0x0A ∉ chunk := by
  induction chunks generalizing acc with
  | nil => simp [pushEach, hbuf]
  | cons chunk chunks ih =>
    rw [pushEach_lines_cons_iff hbuf, ih (notMem_buf_push acc chunk)]
    simp only [remainder_push, limit_push]
    constructor
    · rintro ⟨hhere, hlater⟩ front last hfront hover
      cases front with
      | nil =>
        obtain ⟨rfl, -⟩ := List.cons_prefix_cons.mp hfront
        exact hhere (by simpa using hover)
      | cons first front =>
        obtain ⟨rfl, hrest⟩ := List.cons_prefix_cons.mp hfront
        exact hlater front last hrest hover
    · intro h
      constructor
      · intro hover
        apply h [] chunk (List.cons_prefix_cons.mpr ⟨rfl, List.nil_prefix⟩)
        simpa using hover
      · intro front last hfront hover
        exact h (chunk :: front) last (List.cons_prefix_cons.mpr ⟨rfl, hfront⟩) hover

end LineAccumulator

/-- Every line terminated so far has been returned by a push or is still in the buffer. -/
def NothingLost (limit : ℕ) (chunks : List (List UInt8)) : Prop :=
  let (acc, lines) := (LineAccumulator.withLimit limit).pushEach chunks
  lines ++ (frames 0x0A acc.buf).map decodeLine = (frames 0x0A chunks.flatten).map decodeLine

theorem nothingLost_iff (limit : ℕ) (chunks : List (List UInt8)) :
    NothingLost limit chunks ↔
      ∀ front chunk, front ++ [chunk] <+: chunks →
        limit < (remainder 0x0A (front ++ [chunk]).flatten).length → 0x0A ∉ chunk := by
  have hbuf : 0x0A ∉ (LineAccumulator.withLimit limit).buf := List.not_mem_nil
  have hheld : frames 0x0A ((LineAccumulator.withLimit limit).pushEach chunks).1.buf = [] := by
    rw [frames_eq_nil_iff, LineAccumulator.buf_pushEach hbuf]
    exact notMem_remainder _ _
  simp only [NothingLost, hheld, List.map_nil, List.append_nil]
  exact LineAccumulator.pushEach_lines_iff hbuf chunks

end VertexGateway.Sse
