import VertexGateway.Forward.Terminator

/-!
# Reading the body back

The body reaches the client as bytes, cut by the network wherever it pleases and perhaps broken off
in the middle. The reader here ends its lines where the gateway's own accumulator ends them, at LF
or CRLF, and dispatches an event at every blank line. What it dispatches are the frames that were
sent, in order, each as an event of one line: nothing in an upstream line or in a JSON string can
end a frame early, run two frames together or start one of its own. A client that ends lines at a CR
alone as well reads the same lines unless a line that is no JSON holds a CR.
-/

namespace VertexGateway.Forward

open Framing (frames terminate)
open Sse (LineAccumulator decodeLine stripSuffixCr)

/-! ## Lines of text as lines of bytes -/

/-- One trailing CR is part of the line ending. -/
def stripCr (line : String) : String :=
  if line.toList.getLast? = some '\r' then String.ofList line.toList.dropLast else line

theorem stripCr_concat (line : String) : stripCr (line ++ "\r") = line := by
  simp [stripCr, String.toList_append]

theorem stripCr_of_ne {line : String} (h : line.toList.getLast? ≠ some '\r') :
    stripCr line = line := by
  simp [stripCr, h]

/-- Either there is no CR to strip or it is put back. -/
theorem stripCr_cases (line : String) : stripCr line = line ∨ stripCr line ++ "\r" = line := by
  by_cases hlast : line.toList.getLast? = some '\r'
  · obtain ⟨front, hfront⟩ := List.getLast?_eq_some_iff.mp hlast
    have hline : String.ofList front ++ "\r" = line := by
      rw [← String.toList_inj, String.toList_append, String.toList_ofList, hfront]
      rfl
    right
    rw [← hline, stripCr_concat]
  · exact Or.inl (stripCr_of_ne hlast)

/-- The last byte of a text is a CR only if its last character is one. -/
theorem getLast?_bytes_ne {line : String} (h : line.toList.getLast? ≠ some '\r') :
    (Utf8.bytes line).getLast? ≠ some 0x0D := by
  unfold Utf8.bytes
  rcases List.eq_nil_or_concat' line.toList with hchars | ⟨front, last, hchars⟩
  · simp [hchars]
  · rw [hchars, List.getLast?_concat] at h
    rw [hchars, List.flatMap_append, List.flatMap_singleton]
    intro hlast
    rw [List.getLast?_append_of_ne_nil _ String.utf8EncodeChar_ne_nil] at hlast
    have hcr : ('\r' : Char).toNat < 0x80 := by decide
    exact h (congrArg some (Utf8.eq_of_mem_encodeChar hcr (List.mem_of_getLast? hlast)))

/-- A reader of whole lines decodes what was encoded. -/
theorem decodeLine_bytes (line : String) : decodeLine (Utf8.bytes line) = stripCr line := by
  by_cases hlast : line.toList.getLast? = some '\r'
  · obtain ⟨front, hfront⟩ := List.getLast?_eq_some_iff.mp hlast
    have hbytes : Utf8.bytes line = Utf8.bytes (String.ofList front) ++ [0x0D] := by
      rw [Utf8.bytes, hfront, Utf8.bytes_ofList, List.flatMap_append]
      rfl
    have hline : stripCr line = String.ofList front := by
      simp [stripCr, hfront]
    rw [hline, hbytes, decodeLine, stripSuffixCr, List.getLast?_concat, if_pos rfl,
      List.dropLast_concat, Utf8.fromUtf8Lossy_bytes]
  · rw [stripCr_of_ne hlast, decodeLine, stripSuffixCr, if_neg (getLast?_bytes_ne hlast),
      Utf8.fromUtf8Lossy_bytes]

/-- Lines read from a stream hold no line break. -/
theorem newline_notMem_decodeLine {raw : List UInt8} (h : 0x0A ∉ raw) :
    '\n' ∉ (decodeLine raw).toList := by
  intro hmem
  unfold decodeLine Utf8.fromUtf8Lossy at hmem
  rw [String.toList_ofList] at hmem
  have hnewline : ('\n' : Char).toNat < 0x80 := by decide
  have hbyte := Utf8.mem_of_mem_decodeLossy hnewline _ _ hmem
  unfold stripSuffixCr at hbyte
  split at hbyte
  · exact h (List.mem_of_mem_dropLast hbyte)
  · exact h hbyte

theorem newline_notMem_receive (upstream : List Part) (acc : LineAccumulator) :
    ∀ line ∈ (receive upstream acc).lines, '\n' ∉ line.toList := by
  induction upstream generalizing acc with
  | nil => simp [receive]
  | cons part upstream ih =>
    cases part with
    | error e => simp [receive]
    | ok part =>
      rw [receive]
      rcases hpush : acc.push part with ⟨pushed, e | found⟩
      · simp
      · obtain ⟨-, rfl⟩ := LineAccumulator.push_ok hpush
        intro line hline
        rcases List.mem_append.mp hline with hfound | hrest
        · obtain ⟨raw, hraw, rfl⟩ := List.mem_map.mp hfound
          exact newline_notMem_decodeLine (Framing.notMem_of_mem_frames hraw)
        · exact ih pushed line hrest

/-! ## Frames are single lines -/

/-- A data line without a line break and the blank line that ends the event. -/
def WellFramed (frame : String) : Prop :=
  ∃ rest, frame = "data:" ++ rest ++ "\n\n" ∧ '\n' ∉ rest.toList

/-- The line of a frame. -/
def rawLine (frame : String) : String :=
  (stripSuffix frame "\n\n").getD frame

/-- The line of a frame as a reader of lines sees it. -/
def frameLine (frame : String) : String :=
  stripCr (rawLine frame)

@[simp]
theorem rawLine_append (line : String) : rawLine (line ++ "\n\n") = line := by
  simp [rawLine]

theorem WellFramed.rawLine_append {frame : String} (h : WellFramed frame) :
    rawLine frame ++ "\n\n" = frame := by
  obtain ⟨rest, rfl, -⟩ := h
  rw [Forward.rawLine_append]

theorem WellFramed.newline_notMem {frame : String} (h : WellFramed frame) :
    '\n' ∉ (rawLine frame).toList := by
  obtain ⟨rest, rfl, hrest⟩ := h
  rw [Forward.rawLine_append, String.toList_append, List.mem_append, not_or]
  exact ⟨by decide, hrest⟩

/-- The line of a frame is not blank, so it ends no event. -/
theorem WellFramed.frameLine_ne_empty {frame : String} (h : WellFramed frame) :
    frameLine frame ≠ "" := by
  obtain ⟨rest, rfl, -⟩ := h
  unfold frameLine
  rw [Forward.rawLine_append]
  intro hempty
  rcases stripCr_cases ("data:" ++ rest) with hkept | hcut
  · rw [hempty] at hkept
    simpa [String.toList_append] using congrArg String.toList hkept
  · rw [hempty] at hcut
    simpa [String.toList_append] using congrArg String.toList hcut

theorem WellFramed.bytes_eq {frame : String} (h : WellFramed frame) :
    Utf8.bytes frame = terminate 0x0A [Utf8.bytes (rawLine frame), []] := by
  have hblank : "\n\n".toList.flatMap String.utf8EncodeChar = [0x0A, 0x0A] := by decide +kernel
  conv_lhs => rw [← h.rawLine_append]
  rw [Utf8.bytes, String.toList_append, List.flatMap_append, ← Utf8.bytes, hblank]
  simp [terminate]

section Printed

variable {serde : SerdeJson}

theorem wellFramed_sseLine (hprint : serde.Printable) (chunk : Value) :
    WellFramed (sseLine serde chunk) := by
  refine ⟨" " ++ serde.display chunk, ?_, ?_⟩
  · rw [sseLine, ← String.append_assoc]
    rfl
  · have hdisplay := (hprint.display_printable chunk).notMem (c := '\n') (by decide)
    rw [String.toList_append, List.mem_append, not_or]
    exact ⟨by decide, hdisplay⟩

theorem wellFramed_doneFrame : WellFramed doneFrame :=
  ⟨" [DONE]", by decide +kernel, by decide +kernel⟩

/-- A line that is forwarded as it stands is a data line. -/
theorem wellFramed_forwarded (hprint : serde.Printable) {line frame : String}
    (hline : '\n' ∉ line.toList) (h : forwarded serde line = some frame) : WellFramed frame := by
  rcases forwarded_cases h with ⟨payload, hpayload, -, rfl⟩ | ⟨chunk, -, -, rfl⟩
  · obtain ⟨rest, rfl⟩ := Sse.exists_rest_of_dataPayload hpayload
    rw [String.toList_append, List.mem_append, not_or] at hline
    exact ⟨rest, rfl, hline.2⟩
  · exact wellFramed_sseLine hprint _

/-- A printed frame has no CR to lose. -/
theorem frameLine_sseLine (hprint : serde.Printable) (chunk : Value) :
    frameLine (sseLine serde chunk) = "data: " ++ serde.display chunk := by
  have hcr := (printable_line hprint chunk).notMem (c := '\r') (by decide)
  rw [frameLine, sseLine, rawLine_append,
    stripCr_of_ne fun hlast ↦ hcr (List.mem_of_getLast? hlast)]

theorem frameLine_sseLine_append (hprint : serde.Printable) (chunk : Value) :
    frameLine (sseLine serde chunk) ++ "\n\n" = sseLine serde chunk := by
  rw [frameLine_sseLine hprint, sseLine]

/-- Stripping a CR loses something only in a line that is no JSON text and is forwarded as it
stands. -/
theorem frameLine_forwarded (hprint : serde.Printable) {line frame : String}
    (h : forwarded serde line = some frame) :
    frameLine frame ++ "\n\n" = frame ∨
      frameLine frame ++ "\r\n\n" = frame ∧ frameChunk serde frame = none := by
  rcases forwarded_cases h with ⟨payload, hpayload, hnone, rfl⟩ | ⟨chunk, -, -, rfl⟩
  · rw [frameLine, rawLine_append]
    rcases stripCr_cases line with hkept | hcut
    · exact Or.inl (by rw [hkept])
    · refine Or.inr ⟨?_, frameChunk_of_raw hpayload hnone⟩
      rw [show "\r\n\n" = "\r" ++ "\n\n" from rfl, ← String.append_assoc, hcut]
  · exact Or.inl (frameLine_sseLine_append hprint _)

end Printed

/-! ## The frames of a response -/

/-- A frame is a line forwarded, a chunk printed, or the sentinel. -/
theorem frame_cases {serde : SerdeJson} {model : String} {status : UInt16} {duration : ℕ}
    {upstream : List Part} {frame : String}
    (h : .ok frame ∈ (streamResponse serde model status duration none upstream).1) :
    (∃ line ∈ (receive upstream .new).lines, forwarded serde line = some frame) ∨
      (∃ chunk, frame = sseLine serde chunk) ∨ frame = doneFrame := by
  obtain ⟨frames, last, hitems, hframes, -, hlast⟩ :=
    streamResponse_last serde model status duration upstream
  rw [hitems] at h
  rcases List.mem_append.mp h with hfront | hend
  · obtain ⟨_, hmem, heq⟩ := List.mem_map.mp hfront
    obtain rfl := Except.ok.inj heq
    rcases hframes _ hmem with hline | hprinted
    · exact Or.inl hline
    · exact Or.inr (Or.inl hprinted)
  · rcases hlast with ⟨-, rfl⟩ | ⟨-, rfl⟩
    · exact absurd (List.mem_singleton.mp hend) (by simp)
    · exact Or.inr (Or.inr (Except.ok.inj (List.mem_singleton.mp hend)))

section Response

variable {serde : SerdeJson} {model : String} {status : UInt16} {duration : ℕ}
  {upstream : List Part} {frame : String}

theorem wellFramed_of_mem (hprint : serde.Printable)
    (h : .ok frame ∈ (streamResponse serde model status duration none upstream).1) :
    WellFramed frame := by
  rcases frame_cases h with ⟨line, hline, hframe⟩ | ⟨chunk, rfl⟩ | rfl
  · exact wellFramed_forwarded hprint (newline_notMem_receive upstream .new line hline) hframe
  · exact wellFramed_sseLine hprint chunk
  · exact wellFramed_doneFrame

theorem frameLine_of_mem (hprint : serde.Printable)
    (h : .ok frame ∈ (streamResponse serde model status duration none upstream).1) :
    frameLine frame ++ "\n\n" = frame ∨
      frameLine frame ++ "\r\n\n" = frame ∧ frameChunk serde frame = none := by
  rcases frame_cases h with ⟨line, -, hframe⟩ | ⟨chunk, rfl⟩ | rfl
  · exact frameLine_forwarded hprint hframe
  · exact Or.inl (frameLine_sseLine_append hprint chunk)
  · exact Or.inl (by decide +kernel)

end Response

/-! ## What a reader dispatches -/

/-- The frames of a body, up to the error that breaks it off. -/
def bodyFrames : List Item → List String
  | .ok frame :: items => frame :: bodyFrames items
  | _ => []

/-- The bytes of a body. -/
def wire (items : List Item) : List UInt8 :=
  (bodyFrames items).flatMap Utf8.bytes

/-- The lines before each blank line, which a reader dispatches there. Fed with the lines of the
gateway's own accumulator it is a reader that ends lines at LF or CRLF and at nothing else. -/
def events (lines : List String) : List (List String) :=
  frames "" lines

theorem mem_of_mem_bodyFrames {items : List Item} {frame : String} (h : frame ∈ bodyFrames items) :
    .ok frame ∈ items := by
  fun_induction bodyFrames items with
  | case1 head items ih =>
    rcases List.mem_cons.mp h with rfl | hmem
    · exact List.mem_cons_self
    · exact List.mem_cons_of_mem _ (ih hmem)
  | case2 => exact absurd h List.not_mem_nil

/-- Frames are bytes terminated twice over: pieces ended by newlines, and events of one line ended
by blank lines. -/
theorem flatMap_bytes_eq {body : List String} (h : ∀ frame ∈ body, WellFramed frame) :
    body.flatMap Utf8.bytes =
      terminate 0x0A (body.flatMap fun frame ↦ [Utf8.bytes (rawLine frame), []]) := by
  rw [terminate, List.flatMap_assoc]
  apply List.flatMap_congr
  intro frame hframe
  rw [(h frame hframe).bytes_eq, terminate]

theorem frames_flatMap_bytes {body : List String} (h : ∀ frame ∈ body, WellFramed frame) :
    (frames 0x0A (body.flatMap Utf8.bytes)).map decodeLine =
        terminate "" (body.map fun frame ↦ [frameLine frame]) ∧
      Framing.remainder 0x0A (body.flatMap Utf8.bytes) = [] := by
  have hnewline : ('\n' : Char).toNat < 0x80 := by decide
  have hpieces : ∀ piece ∈ body.flatMap fun frame ↦ [Utf8.bytes (rawLine frame), []],
      (0x0A : UInt8) ∉ piece := by
    intro piece hpiece
    obtain ⟨frame, hframe, hmem⟩ := List.mem_flatMap.mp hpiece
    rcases List.mem_cons.mp hmem with rfl | hblank
    · exact fun hbyte ↦ (h frame hframe).newline_notMem ((Utf8.mem_bytes_iff hnewline _).mp hbyte)
    · rw [List.mem_singleton.mp hblank]
      exact List.not_mem_nil
  have hblank : decodeLine [] = "" := by decide
  obtain ⟨hframes, hremainder⟩ := Framing.frames_terminate hpieces
  rw [flatMap_bytes_eq h]
  refine ⟨?_, hremainder⟩
  rw [hframes, List.map_flatMap, terminate, List.flatMap_map]
  apply List.flatMap_congr
  intro frame _
  simp [decodeLine_bytes, frameLine, hblank]

/-- The frames' lines are not blank, so the blank lines tell them apart. -/
theorem events_of_frames {body : List String} (h : ∀ frame ∈ body, WellFramed frame) :
    let dispatched := body.map fun frame ↦ [frameLine frame]
    frames "" (terminate "" dispatched) = dispatched ∧
      Framing.remainder "" (terminate "" dispatched) = [] := by
  apply Framing.frames_terminate
  intro piece hpiece
  obtain ⟨frame, hframe, rfl⟩ := List.mem_map.mp hpiece
  simpa using (h frame hframe).frameLine_ne_empty.symm

/-- Without a CR in any frame, ending lines at a CR as well makes no difference. -/
theorem clientLines_join {body : List String} (h : ∀ frame ∈ body, WellFramed frame)
    (hcr : ∀ frame ∈ body, '\r' ∉ frame.toList) :
    clientLines (String.join body) = (body.flatMap fun frame ↦ [frameLine frame, ""]) ++ [""] := by
  induction body with
  | nil => rfl
  | cons frame body ih =>
    obtain ⟨hframe, hbody⟩ := List.forall_mem_cons.mp h
    obtain ⟨hreturn, hrest⟩ := List.forall_mem_cons.mp hcr
    have hraw : '\r' ∉ (rawLine frame).toList := by
      rw [← hframe.rawLine_append, String.toList_append, List.mem_append, not_or] at hreturn
      exact hreturn.1
    have hline : frameLine frame = rawLine frame :=
      stripCr_of_ne fun hlast ↦ hraw (List.mem_of_getLast? hlast)
    have htext : String.join (frame :: body) =
        rawLine frame ++ "\n" ++ ("" ++ "\n" ++ String.join body) := by
      conv_lhs => rw [String.join_cons, ← hframe.rawLine_append]
      simp only [String.append_assoc, String.empty_append]
      rfl
    have hblank : clientLines "" = [""] := rfl
    rw [htext, clientLines_newline, clientLines_newline, hblank, ih hbody hrest,
      clientLines_of_notMem hframe.newline_notMem hraw, List.flatMap_cons, hline]
    rfl

section Wire

variable {serde : SerdeJson} {model : String} {status : UInt16} {duration : ℕ}
  {upstream : List Part}

theorem wellFramed_bodyFrames (hprint : serde.Printable) :
    ∀ frame ∈ bodyFrames (streamResponse serde model status duration none upstream).1,
      WellFramed frame :=
  fun _ hframe ↦ wellFramed_of_mem hprint (mem_of_mem_bodyFrames hframe)

/-- The lines of the whole body are those of its frames, a blank line behind each. -/
theorem lines_of_wire (hprint : serde.Printable) {limit : ℕ} {chunks : List (List UInt8)}
    {last : LineAccumulator} {lines : List String}
    (hchunks : chunks.flatten = wire (streamResponse serde model status duration none upstream).1)
    (hlines : (LineAccumulator.withLimit limit).pushAll chunks = (last, .ok lines)) :
    lines = terminate "" ((bodyFrames
        (streamResponse serde model status duration none upstream).1).map
          fun frame ↦ [frameLine frame]) ∧
      last.buf = [] := by
  have hframed : ∀ frame ∈ bodyFrames (streamResponse serde model status duration none upstream).1,
      WellFramed frame := wellFramed_bodyFrames hprint
  obtain ⟨hread, hopen⟩ := frames_flatMap_bytes hframed
  have hempty : 0x0A ∉ (LineAccumulator.withLimit limit).buf := List.not_mem_nil
  obtain ⟨hlast, hpushed⟩ := LineAccumulator.pushAll_ok hempty hlines
  simp only [LineAccumulator.withLimit, List.nil_append, hchunks] at hlast hpushed
  exact ⟨hpushed.trans hread, hlast.trans hopen⟩

end Wire

/-- **Reading back.** However the network cuts the body into chunks and wherever it breaks off, a
reader that ends lines at LF or CRLF dispatches a prefix of the frames sent, each as one event of
one line. From the whole body it dispatches all of them and has nothing left over. The line it sees
is the frame's own, except that a line which is no JSON text and which the upstream ended in more
than one CR loses one. Where no frame holds a CR, a client that ends lines at a CR alone as well
reads these same lines, and a blank one behind each. -/
theorem wire_readBack (serde : SerdeJson) (hprint : serde.Printable) (model : String)
    (status : UInt16) (duration : ℕ) (upstream : List Part) (limit : ℕ)
    (chunks : List (List UInt8)) (last : LineAccumulator) (lines : List String)
    (hchunks : chunks.flatten <+: wire (streamResponse serde model status duration none upstream).1)
    (hlines : (LineAccumulator.withLimit limit).pushAll chunks = (last, .ok lines)) :
    let body := bodyFrames (streamResponse serde model status duration none upstream).1
    events lines <+: body.map (fun frame ↦ [frameLine frame]) ∧
      (chunks.flatten = wire (streamResponse serde model status duration none upstream).1 →
        events lines = body.map (fun frame ↦ [frameLine frame]) ∧
          Framing.remainder "" lines = [] ∧ last.buf = []) ∧
      (∀ frame ∈ body, frameLine frame ++ "\n\n" = frame ∨
        frameLine frame ++ "\r\n\n" = frame ∧ frameChunk serde frame = none) ∧
      ((∀ frame ∈ body, '\r' ∉ frame.toList) →
        clientLines (String.join body) =
          (body.flatMap fun frame ↦ [frameLine frame, ""]) ++ [""]) := by
  intro body
  have hframed : ∀ frame ∈ body, WellFramed frame := wellFramed_bodyFrames hprint
  obtain ⟨hdispatched, hrest⟩ := events_of_frames hframed
  refine ⟨?_, ?_, ?_, clientLines_join hframed⟩
  · have hread := (frames_flatMap_bytes hframed).1
    have hempty : 0x0A ∉ (LineAccumulator.withLimit limit).buf := List.not_mem_nil
    have hpushed := (LineAccumulator.pushAll_ok hempty hlines).2
    simp only [LineAccumulator.withLimit, List.nil_append] at hpushed
    rw [← hdispatched, ← hread, events, hpushed]
    exact Framing.frames_prefix ((Framing.frames_prefix hchunks).map decodeLine)
  · intro hwhole
    obtain ⟨rfl, hlast⟩ := lines_of_wire hprint hwhole hlines
    exact ⟨hdispatched, hrest, hlast⟩
  · exact fun frame hframe ↦ frameLine_of_mem hprint (mem_of_mem_bodyFrames hframe)

/-- Two lines that are no JSON text, the second ended in an extra CR, and a cut inside the first
frame. -/
theorem wire_readBack_cut :
    let upstream : List Part := [.ok (Utf8.bytes "data: a\ndata: b\r\r\n")]
    let items := (streamResponse .compact "gemini" 200 0 none upstream).1
    let chunks := [(wire items).take 5, ((wire items).drop 5).take 20]
    events ["data: a", "", "data: b", ""] <+:
        (bodyFrames items).map (fun frame ↦ [frameLine frame]) ∧
      (chunks.flatten = wire items →
        events ["data: a", "", "data: b", ""] =
            (bodyFrames items).map (fun frame ↦ [frameLine frame]) ∧
          Framing.remainder "" ["data: a", "", "data: b", ""] = [] ∧
          (LineAccumulator.mk (Utf8.bytes "data: ") 100).buf = []) ∧
      (∀ frame ∈ bodyFrames items, frameLine frame ++ "\n\n" = frame ∨
        frameLine frame ++ "\r\n\n" = frame ∧ frameChunk .compact frame = none) ∧
      ((∀ frame ∈ bodyFrames items, '\r' ∉ frame.toList) →
        clientLines (String.join (bodyFrames items)) =
          ((bodyFrames items).flatMap fun frame ↦ [frameLine frame, ""]) ++ [""]) :=
  wire_readBack .compact SerdeJson.printable_compact "gemini" 200 0 _ 100 _ _ _
    (by decide +kernel) (by decide +kernel)

end VertexGateway.Forward
