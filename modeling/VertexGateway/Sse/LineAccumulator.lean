import VertexGateway.Data.Framing
import VertexGateway.Text.Utf8

/-!
# Turning a byte stream into SSE lines

The accumulator keeps the raw bytes after the last newline and decodes only whole lines, so a
chunk may be cut anywhere, inside a UTF-8 character or between CR and LF. `push` scans its buffer
once by running offsets; `scan_eq` states what that loop computes in terms of framing, and from
there on only the framing laws are used.
-/

namespace VertexGateway.Sse

open Framing

/-- A cap turns an unbounded memory leak into a clean error. -/
def defaultMaxLineBytes : ℕ := 32 * 1024 * 1024

/-- `buf` holds the bytes received since the last newline. -/
structure LineAccumulator where
  buf : List UInt8
  limit : ℕ
  deriving DecidableEq

/-- One trailing CR is part of the line ending. -/
def stripSuffixCr (raw : List UInt8) : List UInt8 :=
  if raw.getLast? = some 0x0D then raw.dropLast else raw

def decodeLine (raw : List UInt8) : String :=
  Utf8.fromUtf8Lossy (stripSuffixCr raw)

namespace LineAccumulator

def new : LineAccumulator := ⟨[], defaultMaxLineBytes⟩

def withLimit (limit : ℕ) : LineAccumulator := ⟨[], limit⟩

/-- The scanning loop of `push` from offset `start`: the lines it finds and the offset after the
last newline. -/
def scan (buf : List UInt8) (start : ℕ) : List String × ℕ :=
  match _hnewline : (buf.drop start).findIdx? (· == 0x0A) with
  | none => ([], start)
  | some rel =>
    let stop := start + rel
    let (lines, rest) := scan buf (stop + 1)
    (decodeLine ((buf.take stop).drop start) :: lines, rest)
termination_by buf.length - start
decreasing_by
  have hrel := (List.findIdx?_eq_some_iff_getElem.mp _hnewline).1
  rw [List.length_drop] at hrel
  omega

/-- The error text for a line that outgrows the cap. -/
def exceededMessage (limit : ℕ) : String :=
  s!"SSE line exceeded {limit} bytes without a newline; aborting stream"

/-- Feed one chunk, get back whatever complete lines it finished. The buffer is drained before the
cap is checked, so it also changes when the result is an error. -/
def push (acc : LineAccumulator) (chunk : List UInt8) :
    LineAccumulator × Except String (List String) :=
  let buf := acc.buf ++ chunk
  let (lines, start) := scan buf 0
  let buf := if 0 < start then buf.drop start else buf
  if acc.limit < buf.length then ({ acc with buf }, .error (exceededMessage acc.limit))
  else ({ acc with buf }, .ok lines)

/-- Anything left when the stream ends without a trailing newline. -/
def finish (acc : LineAccumulator) : LineAccumulator × Option String :=
  if acc.buf.isEmpty then (acc, none)
  else
    let line := decodeLine acc.buf
    ({ acc with buf := [] }, if line.isEmpty then none else some line)

/-- Successive pushes, up to the first that fails. -/
def pushAll (acc : LineAccumulator) :
    List (List UInt8) → LineAccumulator × Except String (List String)
  | [] => (acc, .ok [])
  | chunk :: chunks =>
    match acc.push chunk with
    | (acc, .error message) => (acc, .error message)
    | (acc, .ok lines) =>
      match acc.pushAll chunks with
      | (acc, .error message) => (acc, .error message)
      | (acc, .ok more) => (acc, .ok (lines ++ more))

/-! ## The loop frames the bytes -/

/-- The loop started at `start` returns the frames of the bytes from there on, and stops at the
remainder. -/
theorem scan_eq (buf : List UInt8) (start : ℕ) (h : start ≤ buf.length) :
    (scan buf start).1 = (frames 0x0A (buf.drop start)).map decodeLine ∧
      buf.drop (scan buf start).2 = remainder 0x0A (buf.drop start) ∧
      start ≤ (scan buf start).2 := by
  rw [scan]
  split
  · next hnone =>
    have hnot : 0x0A ∉ buf.drop start := by
      intro hmem
      exact absurd (List.findIdx?_eq_none_iff.mp hnone 0x0A hmem) (by decide)
    simp [hnot]
  · next rel hsome =>
    obtain ⟨hrel, hnewline, hbefore⟩ := List.findIdx?_eq_some_iff_getElem.mp hsome
    have hlength : start + rel < buf.length := by
      rw [List.length_drop] at hrel
      omega
    have hpiece : (buf.take (start + rel)).drop start = (buf.drop start).take rel := by
      rw [List.drop_take, Nat.add_sub_cancel_left]
    have hnot : (0x0A : UInt8) ∉ (buf.drop start).take rel := by
      intro hmem
      obtain ⟨position, hposition, heq⟩ := List.mem_iff_getElem.mp hmem
      have hlt : position < rel := by
        rw [List.length_take] at hposition
        omega
      apply hbefore position hlt
      rw [List.getElem_take] at heq
      simp [heq]
    have hsplit : buf.drop start =
        (buf.drop start).take rel ++ 0x0A :: buf.drop (start + rel + 1) := by
      have hhead : (buf.drop start)[rel] = 0x0A := by simpa using hnewline
      rw [← hhead, Nat.add_assoc, ← List.drop_drop, List.getElem_cons_drop,
        List.take_append_drop]
    obtain ⟨hlines, hrest, hle⟩ := scan_eq buf (start + rel + 1) (by omega)
    refine ⟨?_, ?_, by simp only; omega⟩
    · rw [hsplit, frames_terminated hnot, List.map_cons, ← hlines, ← hpiece]
    · rw [hsplit, remainder_terminated hnot, ← hrest]
termination_by buf.length - start

theorem push_eq (acc : LineAccumulator) (chunk : List UInt8) :
    acc.push chunk =
      ({ acc with buf := remainder 0x0A (acc.buf ++ chunk) },
        if acc.limit < (remainder 0x0A (acc.buf ++ chunk)).length then
          .error (exceededMessage acc.limit)
        else .ok ((frames 0x0A (acc.buf ++ chunk)).map decodeLine)) := by
  obtain ⟨hlines, hrest, -⟩ := scan_eq (acc.buf ++ chunk) 0 (Nat.zero_le _)
  rw [List.drop_zero] at hlines hrest
  have hdrained : (if 0 < (scan (acc.buf ++ chunk) 0).2 then
      (acc.buf ++ chunk).drop (scan (acc.buf ++ chunk) 0).2 else acc.buf ++ chunk) =
        remainder 0x0A (acc.buf ++ chunk) := by
    split
    · exact hrest
    · next hzero =>
      rw [Nat.eq_zero_of_not_pos hzero] at hrest
      exact hrest
  simp only [push, hdrained, hlines]
  split <;> rfl

@[simp]
theorem limit_push (acc : LineAccumulator) (chunk : List UInt8) :
    (acc.push chunk).1.limit = acc.limit := by
  rw [push_eq]

/-- A push that succeeds returns the frames completed so far and keeps the remainder. -/
theorem push_ok {acc pushed : LineAccumulator} {chunk : List UInt8} {found : List String}
    (h : acc.push chunk = (pushed, .ok found)) :
    pushed.buf = remainder 0x0A (acc.buf ++ chunk) ∧
      found = (frames 0x0A (acc.buf ++ chunk)).map decodeLine := by
  rw [push_eq] at h
  obtain ⟨rfl, hfound⟩ := Prod.mk.inj h
  split at hfound
  · exact absurd hfound (by simp)
  · exact ⟨rfl, (Except.ok.inj hfound).symm⟩

/-- A push that fails leaves more than the cap in the buffer. -/
theorem push_error {acc pushed : LineAccumulator} {chunk : List UInt8} {message : String}
    (h : acc.push chunk = (pushed, .error message)) : acc.limit < pushed.buf.length := by
  rw [push_eq] at h
  obtain ⟨rfl, hresult⟩ := Prod.mk.inj h
  split at hresult
  · next hlimit => exact hlimit
  · exact absurd hresult (by simp)

theorem finish_eq (acc : LineAccumulator) :
    acc.finish.2 = if stripSuffixCr acc.buf = [] then none else some (decodeLine acc.buf) := by
  by_cases hbuf : acc.buf = []
  · simp [finish, hbuf, stripSuffixCr]
  · simp only [finish, List.isEmpty_iff, hbuf, if_false, String.isEmpty_iff, decodeLine,
      Utf8.fromUtf8Lossy_eq_empty_iff]

theorem finish_eq_none_iff (acc : LineAccumulator) :
    acc.finish.2 = none ↔ stripSuffixCr acc.buf = [] := by
  rw [finish_eq]
  split <;> simp [*]

/-! ## Chunking is invisible -/

theorem pushAll_cons_ok {acc last : LineAccumulator} {chunk : List UInt8}
    {chunks : List (List UInt8)} {lines : List String}
    (h : acc.pushAll (chunk :: chunks) = (last, .ok lines)) :
    ∃ pushed found more, acc.push chunk = (pushed, .ok found) ∧
      pushed.pushAll chunks = (last, .ok more) ∧ lines = found ++ more := by
  rw [pushAll] at h
  split at h
  · exact absurd (Prod.mk.inj h).2 (by simp)
  · next pushed found hpush =>
    split at h
    · exact absurd (Prod.mk.inj h).2 (by simp)
    · next reached more hmore =>
      obtain ⟨rfl, hlines⟩ := Prod.mk.inj h
      exact ⟨pushed, found, more, hpush, hmore, (Except.ok.inj hlines).symm⟩

/-- While no push fails, the buffer is the remainder of all bytes fed so far and the lines are
their frames. -/
theorem pushAll_ok {acc : LineAccumulator} (hbuf : 0x0A ∉ acc.buf) {chunks : List (List UInt8)}
    {last : LineAccumulator} {lines : List String} (h : acc.pushAll chunks = (last, .ok lines)) :
    last.buf = remainder 0x0A (acc.buf ++ chunks.flatten) ∧
      lines = (frames 0x0A (acc.buf ++ chunks.flatten)).map decodeLine := by
  induction chunks generalizing acc lines with
  | nil =>
    obtain ⟨rfl, hlines⟩ := Prod.mk.inj h
    obtain rfl := Except.ok.inj hlines
    simp [hbuf]
  | cons chunk chunks ih =>
    obtain ⟨pushed, found, more, hpush, hmore, hlines⟩ := pushAll_cons_ok h
    obtain ⟨hpushed, hfound⟩ := push_ok hpush
    obtain ⟨hlast, hrest⟩ := ih (hpushed ▸ notMem_remainder _ _) hmore
    rw [hpushed] at hlast hrest
    rw [List.flatten_cons, ← List.append_assoc]
    constructor
    · calc
        last.buf = remainder 0x0A (remainder 0x0A (acc.buf ++ chunk) ++ chunks.flatten) := hlast
        _ = remainder 0x0A (acc.buf ++ chunk ++ chunks.flatten) := (remainder_append _ _ _).symm
    · calc
        lines = (frames 0x0A (acc.buf ++ chunk) ++
            frames 0x0A (remainder 0x0A (acc.buf ++ chunk) ++ chunks.flatten)).map decodeLine := by
          rw [hlines, hfound, hrest, List.map_append]
        _ = (frames 0x0A (acc.buf ++ chunk ++ chunks.flatten)).map decodeLine := by
          rw [← frames_append]

end LineAccumulator

/-- What a byte string holds as lines: split at every newline, strip one CR from each piece,
decode, and drop the last piece if nothing is left of it. -/
def referenceLines (bytes : List UInt8) : List String :=
  let pieces := (bytes.splitOn 0x0A).map stripSuffixCr
  (if pieces.getLast? = some [] then pieces.dropLast else pieces).map Utf8.fromUtf8Lossy

theorem referenceLines_eq (bytes : List UInt8) :
    referenceLines bytes = (frames 0x0A bytes).map decodeLine ++
      (if stripSuffixCr (remainder 0x0A bytes) = [] then none
        else some (decodeLine (remainder 0x0A bytes))).toList := by
  simp only [referenceLines, splitOn_eq, List.map_append, List.map_singleton,
    List.getLast?_concat, Option.some.injEq]
  split <;> simp [decodeLine, Function.comp_def]

theorem lines_eq_referenceLines {limit : ℕ} {chunks : List (List UInt8)} {last : LineAccumulator}
    {lines : List String} (h : (LineAccumulator.withLimit limit).pushAll chunks = (last, .ok lines)) :
    lines ++ last.finish.2.toList = referenceLines chunks.flatten := by
  have hbuf : 0x0A ∉ (LineAccumulator.withLimit limit).buf := List.not_mem_nil
  obtain ⟨hlast, hlines⟩ := LineAccumulator.pushAll_ok hbuf h
  simp only [LineAccumulator.withLimit, List.nil_append] at hlast hlines
  calc
    lines ++ last.finish.2.toList =
        (frames 0x0A chunks.flatten).map decodeLine ++
          (if stripSuffixCr (remainder 0x0A chunks.flatten) = [] then none
            else some (decodeLine (remainder 0x0A chunks.flatten))).toList := by
      rw [LineAccumulator.finish_eq, hlast, hlines]
    _ = referenceLines chunks.flatten := (referenceLines_eq chunks.flatten).symm

/-- **Chunking is invisible.** However the bytes are cut into chunks, as long as no push fails the
lines pushed out followed by the one `finish` returns are the reference lines of the bytes. Hence
any other such chunking of the same bytes gives the same lines. -/
theorem pushAll_chunking_invisible (limit : ℕ) (chunks : List (List UInt8))
    (last : LineAccumulator) (lines : List String)
    (h : (LineAccumulator.withLimit limit).pushAll chunks = (last, .ok lines)) :
    lines ++ last.finish.2.toList = referenceLines chunks.flatten ∧
      ∀ otherLimit otherChunks otherLast otherLines, otherChunks.flatten = chunks.flatten →
        (LineAccumulator.withLimit otherLimit).pushAll otherChunks = (otherLast, .ok otherLines) →
        otherLines ++ otherLast.finish.2.toList = lines ++ last.finish.2.toList := by
  refine ⟨lines_eq_referenceLines h, ?_⟩
  intro otherLimit otherChunks otherLast otherLines hbytes hother
  rw [lines_eq_referenceLines hother, lines_eq_referenceLines h, hbytes]

/-- A three-byte character cut after each byte, and a CR cut apart from its LF. -/
def cutChunks : List (List UInt8) :=
  [[0x61, 0xE4], [], [0xBD], [0xA0, 0x0D], [0x0A, 0x62]]

theorem pushAll_chunking_invisible_cut :
    ["a你"] ++ (LineAccumulator.mk [0x62] 8).finish.2.toList = referenceLines cutChunks.flatten ∧
      ∀ otherLimit otherChunks otherLast otherLines, otherChunks.flatten = cutChunks.flatten →
        (LineAccumulator.withLimit otherLimit).pushAll otherChunks = (otherLast, .ok otherLines) →
        otherLines ++ otherLast.finish.2.toList =
          ["a你"] ++ (LineAccumulator.mk [0x62] 8).finish.2.toList :=
  pushAll_chunking_invisible 8 cutChunks ⟨[0x62], 8⟩ ["a你"] (by decide +kernel)

/-! ## Data payloads -/

def stripPrefix (text front : String) : Option String :=
  (front.toList.isPrefixOf? text.toList).map String.ofList

/-- The `data:` payload of a line: none for comments, blank lines and the `[DONE]` sentinel. -/
def dataPayload (line : String) : Option String := do
  let rest ← stripPrefix line "data:"
  -- Exactly one leading space is stripped, not all whitespace.
  let rest := (stripPrefix rest " ").getD rest
  if rest.isEmpty || rest == "[DONE]" then none else some rest

theorem isPrefixOf?_eq_some_iff (pattern list tail : List Char) :
    pattern.isPrefixOf? list = some tail ↔ list = pattern ++ tail := by
  induction pattern generalizing list with
  | nil => simp [List.isPrefixOf?]
  | cons head pattern ih =>
    cases list with
    | nil => simp [List.isPrefixOf?]
    | cons first list =>
      by_cases hhead : head = first
      · simp [List.isPrefixOf?, hhead, ih]
      · simp [List.isPrefixOf?, hhead, Ne.symm hhead]

theorem stripPrefix_eq_some_iff (text front rest : String) :
    stripPrefix text front = some rest ↔ text = front ++ rest := by
  unfold stripPrefix
  rw [Option.map_eq_some_iff]
  constructor
  · rintro ⟨tail, htail, rfl⟩
    rw [← String.toList_inj, String.toList_append, String.toList_ofList,
      (isPrefixOf?_eq_some_iff _ _ _).mp htail]
  · rintro rfl
    exact ⟨rest.toList, (isPrefixOf?_eq_some_iff _ _ _).mpr String.toList_append,
      String.ofList_toList⟩

@[simp]
theorem stripPrefix_append (front rest : String) : stripPrefix (front ++ rest) front = some rest :=
  (stripPrefix_eq_some_iff _ _ _).mpr rfl

/-- Only a `data:` line has a payload. -/
theorem exists_rest_of_dataPayload {line payload : String} (h : dataPayload line = some payload) :
    ∃ rest, line = "data:" ++ rest := by
  unfold dataPayload at h
  obtain ⟨rest, hrest, -⟩ := Option.bind_eq_some_iff.mp h
  exact ⟨rest, (stripPrefix_eq_some_iff _ _ _).mp hrest⟩

end VertexGateway.Sse
