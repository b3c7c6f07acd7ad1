import VertexGateway.Forward.Agreement
import VertexGateway.Thought.FullTurn

/-!
# Conversations over many turns

The gateway keeps no state between requests: what Vertex issued with a tool call travels through
the client and back inside ids. Here a client holds a conversation of any length, with whole and
streamed answers in any order, copies the calls of each turn into its history, answers some of them,
says other things in between and forgets what it likes. As long as the answers it copies are
complete and the ids in them can be packed, a request that reaches Vertex presents the calls still
in the history exactly as they were issued, in order, and answers only calls that were issued.
-/

namespace VertexGateway.Protocols

open Forward (Body Turn forward isSuccess streamedTurn wholeTurn)
open Sse (LineAccumulator referenceLines)
open State (AppState Reply)
open Thought Value

/-- What Vertex issues with a call, and must be presented with when it comes back: the id, and the
signature if there is one. -/
abbrev Record := String × Option String

def recordOf (call : Value) : Record :=
  (((call.get? "id").bind Value.asStr).getD "", signatureOf call)

/-- The calls of a message. -/
def messageCalls (message : Value) : List Value :=
  ((message.get? "tool_calls").bind Value.asArray).getD []

/-! ## One exchange -/

section Exchange

variable (serde : SerdeJson)

/-- The turn that Vertex takes with an answer, which it gives whole or as a stream. -/
inductive Says (reply : Reply) : Bool → Turn → Prop where
  | whole {text : String} {answer : Value} {choices : List Value} (htext : reply.text = some text)
      (hanswer : serde.fromStr text = some answer)
      (hchoices : answer.get? "choices" = some (.array choices)) :
      Says reply false (wholeTurn answer)
  | streamed {chunks : List (List UInt8)} (hparts : reply.parts = chunks.map .ok)
      (hcompleted : Forward.Completed chunks)
      (hparses : Forward.AllParse serde (referenceLines chunks.flatten)) :
      Says reply true
        (streamedTurn (Forward.upstreamChunks serde (referenceLines chunks.flatten)))

/-- The turn a client reads in a response: in one JSON value, or in the lines of a stream whose
bytes the network may cut anywhere. The chunks printed in the stream are read back as they were. -/
inductive Reads : Body → Turn → Prop where
  | json (payload : Value) : Reads (.json payload) (wholeTurn payload)
  | stream {items : List Forward.Item} {limit : ℕ} {network : List (List UInt8)}
      {last : LineAccumulator} {lines : List String}
      (hlegible : Forward.Legible serde id items)
      (hnetwork : network.flatten = Forward.wire items)
      (hlines : (LineAccumulator.withLimit limit).pushAll network = (last, .ok lines)) :
      Reads (.stream items) (streamedTurn (lines.filterMap (Forward.lineChunk serde)))

variable {serde}

/-- A client receives the calls that Vertex made, packed, by both routes. -/
theorem calls_of_reads (hprint : serde.Printable) {st : AppState}
    {url token : String} {sent : Value} {streaming : Bool} {duration : ℕ} {reply : Reply}
    {vertex received : Turn} (htoken : st.token = .ok token)
    (hpost : st.post url token sent = .ok reply) (hsuccess : isSuccess reply.status = true)
    (hsaid : Says serde reply streaming vertex)
    (hreads : Reads serde (forward serde st url sent streaming duration none).response.body
      received) : received.calls = vertex.calls.map packToolCall := by
  cases hsaid with
  | whole htext hanswer hchoices =>
    rw [Forward.forward_whole duration none htoken hpost hsuccess htext hanswer] at hreads
    cases hreads
    rw [Forward.wholeTurn_packResponse hchoices]
    rfl
  | streamed hparts hcompleted hparses =>
    rw [Forward.forward_stream duration none htoken hpost hsuccess, hparts] at hreads
    cases hreads with
    | stream hlegible hnetwork hlines =>
      rw [← hcompleted.receive_lines] at hparses
      rw [Forward.lineChunks_of_wire hprint hlegible hparses hnetwork hlines,
        Forward.calls_sentChunks hcompleted hlegible]
      rfl

end Exchange

/-! ## The conversation -/

/-- A message of the history, with the records issued for the calls it copies. -/
structure Entry where
  message : Value
  records : List Record

/-- The client's history, everything Vertex has issued so far, and whether the client has ever
dropped a message. -/
structure Dialog where
  history : List Entry
  issued : List Record
  forgetful : Bool

def Dialog.start : Dialog := ⟨[], [], false⟩

/-- A request whose messages are the history. -/
def Dialog.Requests (dialog : Dialog) (request : Value) : Prop :=
  request.get? "messages" = some (.array (dialog.history.map Entry.message))

/-- What may happen next. An exchange is one that goes well: the answer is whole and has choices, or
it is a stream that ends cleanly with nothing but JSON in its lines, every id issued in it can be
packed (`HasPackableId`), and the chunks that the gateway prints are read back as they were. The
client then copies all the calls of the turn into one message, the way `CopiedFrom` allows. A turn
of which it copies nothing is something that it says. Everything else in its messages, and in its
requests, is its own. -/
inductive Step (serde : SerdeJson) (dialog : Dialog) : Dialog → Prop where
  /-- A request is forwarded, answered and read, and the calls are copied into the history. -/
  | exchanged {st : AppState} {request sent : Value} {url token : String} {streaming : Bool}
      {reply : Reply} {duration : ℕ} {vertex received : Turn} {message : Value}
      {copied : List Value} (hrequest : dialog.Requests request)
      (hsent : chat st.config.toConfig request = .forwarded url sent streaming)
      (htoken : st.token = .ok token) (hpost : st.post url token sent = .ok reply)
      (hsuccess : isSuccess reply.status = true) (hsaid : Says serde reply streaming vertex)
      (hids : ∀ call ∈ vertex.calls, HasPackableId call)
      (hreads : Reads serde (forward serde st url sent streaming duration none).response.body
        received)
      (hcalls : message.get? "tool_calls" = some (.array copied))
      (hcopied : List.Forall₂ CopiedFrom copied received.calls)
      (hanswers : message.get? "tool_call_id" = none) :
      Step serde dialog { dialog with
        history := dialog.history ++ [⟨message, vertex.calls.map recordOf⟩]
        issued := dialog.issued ++ vertex.calls.map recordOf }
  /-- The client answers a call in its history. -/
  | answered {entry : Entry} {call message : Value} (hentry : entry ∈ dialog.history)
      (hcall : call ∈ messageCalls entry.message)
      (hid : message.get? "tool_call_id" = call.get? "id")
      (hcalls : message.get? "tool_calls" = none) :
      Step serde dialog { dialog with history := dialog.history ++ [⟨message, []⟩] }
  /-- The client says something else. -/
  | said {message : Value} (hcalls : message.get? "tool_calls" = none)
      (hanswers : message.get? "tool_call_id" = none) :
      Step serde dialog { dialog with history := dialog.history ++ [⟨message, []⟩] }
  /-- The client drops messages from its history. -/
  | forgot {kept : List Entry} (hkept : kept.Sublist dialog.history) :
      Step serde dialog { dialog with history := kept, forgetful := true }

/-- The conversations that such steps lead to. -/
def Reachable (serde : SerdeJson) : Dialog → Prop :=
  Relation.ReflTransGen (Step serde) .start

/-! ## What one message presents -/

theorem messageCalls_restoreMessage (message : Value) :
    messageCalls (restoreMessage message) = (messageCalls message).map restoreToolCall := by
  have hne : "tool_calls" ≠ "tool_call_id" := by decide
  unfold messageCalls restoreMessage
  rw [get?_modifyKey_self, get?_restoreToolCallId_of_ne message hne]
  cases message.get? "tool_calls" with
  | none => rfl
  | some calls =>
    rw [Option.map_some, Option.bind_some, asArray_onItems, Option.bind_some]
    cases calls.asArray <;> rfl

/-- A copied call is presented as it was issued. -/
theorem recordOf_restoreToolCall {call copied : Value} (hcall : HasPackableId call)
    (hcopied : CopiedFrom copied (packToolCall call)) :
    recordOf (restoreToolCall copied) = recordOf call := by
  obtain ⟨hid, hsignature⟩ := restoreToolCall_copied hcall hcopied
  unfold recordOf
  rw [hid, Prod.mk.injEq]
  refine ⟨rfl, ?_⟩
  rw [signatureOf, hsignature]
  cases signatureOf call <;> rfl

theorem get?_id_of_copied {call copied : Value} (hcall : HasPackableId call)
    (hcopied : CopiedFrom copied (packToolCall call)) :
    MarkerFirst (recordOf call).1 ∧
      copied.get? "id" = some (.string (packId (recordOf call).1 (recordOf call).2)) := by
  obtain ⟨id, hid, hfirst⟩ := hcall
  have hrecord : recordOf call = (id, signatureOf call) := by
    rw [recordOf, hid]
    rfl
  rw [hrecord, hcopied.1, get?_id_packToolCall hid]
  exact ⟨hfirst, rfl⟩

/-! ## What holds in every conversation -/

/-- What the client holds for a record: the packed id. -/
def Packs (record : Record) (value : Value) : Prop :=
  MarkerFirst record.1 ∧ value = .string (packId record.1 record.2)

/-- Restoring the message presents its records, and the ids in it pack issued ones. -/
structure Entry.Sound (issued : List Record) (entry : Entry) : Prop where
  presents : (messageCalls (restoreMessage entry.message)).map recordOf = entry.records
  packed : ∀ call ∈ messageCalls entry.message, ∃ record ∈ issued, ∃ value,
    call.get? "id" = some value ∧ Packs record value
  answers : ∀ value, entry.message.get? "tool_call_id" = some value →
    ∃ record ∈ issued, Packs record value

structure Dialog.Sound (dialog : Dialog) : Prop where
  entries : ∀ entry ∈ dialog.history, entry.Sound dialog.issued
  in_order : (dialog.history.flatMap Entry.records).Sublist dialog.issued
  complete : dialog.forgetful = false → dialog.history.flatMap Entry.records = dialog.issued

theorem Entry.Sound.mono {issued : List Record} {entry : Entry} (h : entry.Sound issued)
    (more : List Record) : entry.Sound (issued ++ more) where
  presents := h.presents
  packed call hcall := by
    obtain ⟨record, hrecord, hvalue⟩ := h.packed call hcall
    exact ⟨record, List.mem_append_left more hrecord, hvalue⟩
  answers value hvalue := by
    obtain ⟨record, hrecord, hpacks⟩ := h.answers value hvalue
    exact ⟨record, List.mem_append_left more hrecord, hpacks⟩

/-- A message without calls presents nothing. -/
theorem Entry.sound_of_no_calls {issued : List Record} {message : Value}
    (hcalls : message.get? "tool_calls" = none)
    (hanswers : ∀ value, message.get? "tool_call_id" = some value →
      ∃ record ∈ issued, Packs record value) : Entry.Sound issued ⟨message, []⟩ := by
  have hnone : messageCalls message = [] := by
    rw [messageCalls, hcalls]
    rfl
  refine ⟨?_, ?_, hanswers⟩
  · rw [messageCalls_restoreMessage, hnone]
    rfl
  · intro call hcall
    rw [hnone] at hcall
    exact absurd hcall List.not_mem_nil

/-- A message that copies the calls of a turn presents what was issued with them. -/
theorem Entry.sound_of_copied {message : Value} {calls copied : List Value}
    (hids : ∀ call ∈ calls, HasPackableId call)
    (hcalls : message.get? "tool_calls" = some (.array copied))
    (hcopied : List.Forall₂ CopiedFrom copied (calls.map packToolCall))
    (hanswers : message.get? "tool_call_id" = none) (issued : List Record) :
    Entry.Sound (issued ++ calls.map recordOf) ⟨message, calls.map recordOf⟩ := by
  have hmessage : messageCalls message = copied := by
    rw [messageCalls, hcalls]
    rfl
  rw [List.forall₂_map_right_iff] at hcopied
  refine ⟨?_, ?_, ?_⟩
  · rw [messageCalls_restoreMessage, hmessage, List.map_map]
    clear hcalls hmessage
    induction hcopied with
    | nil => rfl
    | cons hhead htail ih =>
      obtain ⟨hfirst, hrest⟩ := List.forall_mem_cons.mp hids
      rw [List.map_cons, List.map_cons, ih hrest, Function.comp_apply,
        recordOf_restoreToolCall hfirst hhead]
  · intro call hcall
    rw [hmessage] at hcall
    obtain ⟨position, hposition, rfl⟩ := List.getElem_of_mem hcall
    have horiginal : position < calls.length := hcopied.length_eq ▸ hposition
    have hmem := List.getElem_mem horiginal
    obtain ⟨hfirst, hid⟩ := get?_id_of_copied (hids _ hmem) (hcopied.get hposition horiginal)
    exact ⟨recordOf calls[position], List.mem_append_right issued (List.mem_map_of_mem hmem),
      _, hid, hfirst, rfl⟩
  · intro value hvalue
    rw [hanswers] at hvalue
    exact absurd hvalue.symm (Option.some_ne_none value)

/-! ## Every step keeps it -/

theorem Dialog.sound_start : Dialog.start.Sound := by
  refine ⟨?_, List.Sublist.refl _, fun _ ↦ rfl⟩
  exact fun entry hentry ↦ absurd hentry List.not_mem_nil

/-- A message without calls of its own leaves what is presented as it is. -/
theorem Dialog.Sound.append {dialog : Dialog} (h : dialog.Sound) {message : Value}
    (hentry : Entry.Sound dialog.issued ⟨message, []⟩) :
    Dialog.Sound { dialog with history := dialog.history ++ [⟨message, []⟩] } := by
  refine ⟨?_, ?_, ?_⟩
  · intro entry hmem
    rcases List.mem_append.mp hmem with hold | hnew
    · exact h.entries entry hold
    · rw [List.mem_singleton.mp hnew]
      exact hentry
  · simpa using h.in_order
  · simpa using h.complete

theorem Step.sound {serde : SerdeJson} (hprint : serde.Printable) {dialog next : Dialog}
    (hstep : Step serde dialog next) (h : dialog.Sound) : next.Sound := by
  cases hstep with
  | @exchanged st request sent url token streaming reply duration vertex received message copied
      hrequest hsent htoken hpost hsuccess hsaid hids hreads hcalls hcopied hanswers =>
    rw [calls_of_reads hprint htoken hpost hsuccess hsaid hreads] at hcopied
    refine ⟨?_, ?_, ?_⟩
    · intro entry hmem
      rcases List.mem_append.mp hmem with hold | hnew
      · exact (h.entries entry hold).mono _
      · rw [List.mem_singleton.mp hnew]
        exact Entry.sound_of_copied hids hcalls hcopied hanswers dialog.issued
    · simpa using h.in_order.append (List.Sublist.refl (vertex.calls.map recordOf))
    · intro hforgetful
      simpa using h.complete hforgetful
  | @answered entry call message hentry hcall hid hcalls =>
    apply h.append
    apply Entry.sound_of_no_calls hcalls
    intro value hvalue
    obtain ⟨record, hrecord, found, hfound, hpacks⟩ := (h.entries entry hentry).packed call hcall
    rw [hid, hfound] at hvalue
    exact ⟨record, hrecord, Option.some.inj hvalue ▸ hpacks⟩
  | @said message hcalls hanswers =>
    apply h.append
    apply Entry.sound_of_no_calls hcalls
    intro value hvalue
    rw [hanswers] at hvalue
    exact absurd hvalue.symm (Option.some_ne_none value)
  | @forgot kept hkept =>
    refine ⟨fun entry hentry ↦ h.entries entry (hkept.subset hentry), ?_, ?_⟩
    · exact (hkept.flatMap Entry.records).trans h.in_order
    · exact fun hforgetful ↦ absurd hforgetful (by simp)

theorem Reachable.sound {serde : SerdeJson} (hprint : serde.Printable) {dialog : Dialog}
    (h : Reachable serde dialog) : dialog.Sound := by
  induction h with
  | refl => exact Dialog.sound_start
  | tail _ hstep ih => exact hstep.sound hprint ih

/-! ## What Vertex is presented with -/

theorem get?_tool_call_id_of_none {message : Value} (h : message.get? "tool_call_id" = none) :
    (restoreMessage message).get? "tool_call_id" = none := by
  have hne : "tool_call_id" ≠ "tool_calls" := by decide
  have hsame : restoreToolCallId message = message := by simp [restoreToolCallId, h]
  rw [restoreMessage, get?_modifyKey_of_ne _ hne, hsame, h]

theorem messages_of_forwarded {config : Config} {dialog : Dialog} {request sent : Value}
    {url : String} {streaming : Bool} (hrequest : dialog.Requests request)
    (hsent : chat config request = .forwarded url sent streaming) :
    sent.get? "messages" =
      some (.array (dialog.history.map fun entry ↦ restoreMessage entry.message)) := by
  rw [chat_forwarded hsent, restoreRequest, get?_modifyKey_self, get?_messages_replaceFields,
    hrequest, Option.map_some, onItems, List.map_map]
  rfl

/-- **Conversations.** In every conversation of such steps, a request that is forwarded presents
message by message the records that Vertex issued with the turns still in the history: a sublist, in
order, of everything issued, and all of it if the client never dropped a message. Every id it
answers is one that was issued. -/
theorem conversation_presents_issued (serde : SerdeJson) (hprint : serde.Printable)
    (dialog : Dialog) (hreachable : Reachable serde dialog) (config : Config)
    (request sent : Value) (url : String) (streaming : Bool)
    (hrequest : dialog.Requests request)
    (hsent : chat config request = .forwarded url sent streaming) :
    ∃ messages, sent.get? "messages" = some (.array messages) ∧
      messages.map (fun message ↦ (messageCalls message).map recordOf) =
        dialog.history.map Entry.records ∧
      (messages.flatMap fun message ↦ (messageCalls message).map recordOf).Sublist dialog.issued ∧
      (dialog.forgetful = false →
        messages.flatMap (fun message ↦ (messageCalls message).map recordOf) = dialog.issued) ∧
      ∀ message ∈ messages, ∀ value, message.get? "tool_call_id" = some value →
        ∃ record ∈ dialog.issued, value = .string record.1 := by
  have hsound := hreachable.sound hprint
  have hpresented : (dialog.history.map fun entry ↦ restoreMessage entry.message).map
      (fun message ↦ (messageCalls message).map recordOf) = dialog.history.map Entry.records := by
    rw [List.map_map]
    exact List.map_congr_left fun entry hentry ↦ (hsound.entries entry hentry).presents
  have hall : (dialog.history.map fun entry ↦ restoreMessage entry.message).flatMap
      (fun message ↦ (messageCalls message).map recordOf) =
        dialog.history.flatMap Entry.records := by
    rw [List.flatMap_def, hpresented, List.flatMap_def]
  refine ⟨_, messages_of_forwarded hrequest hsent, hpresented, ?_, ?_, ?_⟩
  · rw [hall]
    exact hsound.in_order
  · rw [hall]
    exact hsound.complete
  · intro message hmessage value hvalue
    obtain ⟨entry, hentry, rfl⟩ := List.mem_map.mp hmessage
    cases hanswers : entry.message.get? "tool_call_id" with
    | none =>
      rw [get?_tool_call_id_of_none hanswers] at hvalue
      exact absurd hvalue.symm (Option.some_ne_none value)
    | some answered =>
      obtain ⟨record, hrecord, hfirst, rfl⟩ := (hsound.entries entry hentry).answers answered hanswers
      rw [get?_tool_call_id_restoreMessage hanswers, unpackId_packId hfirst] at hvalue
      exact ⟨record, hrecord, (Option.some.inj hvalue).symm⟩

/-- A client's copy of the signed call, and its answer to it. -/
def copiedMessage : Value :=
  .obj [("role", .string "assistant"),
    ("tool_calls", .array [.obj [("id", .string (packId "call_a" (some "S+")))]])]

def resultMessage : Value :=
  .obj [("role", .string "tool"), ("tool_call_id", .string (packId "call_a" (some "S+")))]

def requestOf (messages : List Value) : Value :=
  .obj [("model", .string "gemini-pro"), ("messages", .array messages)]

/-- One turn with a signed call, copied and answered. -/
def answeredDialog : Dialog :=
  ⟨[⟨copiedMessage, [("call_a", some "S+")]⟩, ⟨resultMessage, []⟩], [("call_a", some "S+")], false⟩

theorem reachable_answeredDialog : Reachable .compact answeredDialog := by
  have hpackable : ∀ call ∈ (wholeTurn Forward.signedAnswer).calls, HasPackableId call := by
    intro call hcall
    obtain rfl := List.mem_singleton.mp hcall
    exact ⟨"call_a", rfl, (markerFirst_iff (by decide)).mpr (by decide)⟩
  let reply : Reply := ⟨200, some (SerdeJson.compact.display Forward.signedAnswer), []⟩
  have hparses := SerdeJson.fromStr_display_compact Forward.signedAnswer
  have hsaid : Says .compact reply false (wholeTurn Forward.signedAnswer) := .whole rfl hparses rfl
  have hreads (url : String) (sent : Value)
      (hpost : Forward.signedState.post url "ya29" sent = .ok reply) :
      Reads .compact (forward .compact Forward.signedState url sent false 0 none).response.body
        (wholeTurn (packResponse Forward.signedAnswer)) := by
    rw [Forward.forward_whole 0 none rfl hpost (by decide) rfl hparses]
    exact .json _
  have hcopied : List.Forall₂ CopiedFrom [.obj [("id", .string (packId "call_a" (some "S+")))]]
      (wholeTurn (packResponse Forward.signedAnswer)).calls := by
    have hid : (withIndex 0 Forward.signedCall).get? "id" = some (.string "call_a") := rfl
    rw [Forward.wholeTurn_packResponse rfl]
    exact .cons ⟨(get?_id_packToolCall hid).symm, rfl⟩ .nil
  have hexchanged : Step .compact .start
      ⟨[⟨copiedMessage, [("call_a", some "S+")]⟩], [("call_a", some "S+")], false⟩ :=
    @Step.exchanged .compact .start Forward.signedState (requestOf []) _ _ "ya29" false reply 0 _ _
      copiedMessage _ rfl rfl rfl rfl (by decide) hsaid hpackable (hreads _ _ rfl) rfl hcopied rfl
  have hanswered : Step .compact
      ⟨[⟨copiedMessage, [("call_a", some "S+")]⟩], [("call_a", some "S+")], false⟩
      answeredDialog :=
    .answered List.mem_cons_self List.mem_cons_self rfl rfl
  exact (Relation.ReflTransGen.single hexchanged).tail hanswered

theorem conversation_presents_issued_answered :
    ∃ (sent : Value) (messages : List Value), sent.get? "messages" = some (.array messages) ∧
      messages.map (fun message ↦ (messageCalls message).map recordOf) =
        answeredDialog.history.map Entry.records ∧
      (messages.flatMap fun message ↦ (messageCalls message).map recordOf).Sublist
        answeredDialog.issued ∧
      (answeredDialog.forgetful = false →
        messages.flatMap (fun message ↦ (messageCalls message).map recordOf) =
          answeredDialog.issued) ∧
      ∀ message ∈ messages, ∀ value, message.get? "tool_call_id" = some value →
        ∃ record ∈ answeredDialog.issued, value = .string record.1 :=
  ⟨_, conversation_presents_issued .compact SerdeJson.printable_compact answeredDialog
    reachable_answeredDialog (Config.new "demo") (requestOf [copiedMessage, resultMessage]) _ _ _
    rfl rfl⟩

end VertexGateway.Protocols
