import VertexGateway.Data.Interleaving
import VertexGateway.Routes.Handler

/-!
# The server

Requests arrive while others are being handled, and the effects of all of them mix in any order. The
state they share is never written, so nothing of one request can leak into another: a body reaches
Vertex only for a caller who was let in, at the configured address, with the token that was obtained
for that very request. The observer learns of every answered call once.
-/

namespace VertexGateway.Routes

open Forward (Exchange)
open Interleaving (Action Pool done exec)
open State (AppState Effect)

/-! ## Many requests -/

/-- What happens on the server: a request arrives, or one that is being handled gets on. -/
inductive Event where
  | arrives (request : Request)
  | advances (index : ℕ)

def Event.request? : Event → Option Request
  | .arrives request => some request
  | .advances _ => none

def Event.action (serde : SerdeJson) (server : Server) : Event → Action Effect
  | .arrives request => .start (handle serde server request).effects
  | .advances index => .advance index

/-- The requests in order of arrival. -/
def arrivals (events : List Event) : List Request :=
  events.filterMap Event.request?

/-- There is no event for a client that goes away before its answer is read, whose handler the
server drops where it stands: here such a request only stops getting on. -/
def run (serde : SerdeJson) (server : Server) (events : List Event) : Option (Pool Effect) :=
  exec (events.map (Event.action serde server)) .empty

/-! ## A request under way -/

section Performed

variable {serde : SerdeJson} {server : Server} {request : Request} {exchange : Exchange}
  {performed : List Effect}

/-- A first part of a call that does more than ask for a token is the call and a first part of what
is told. -/
theorem exists_told_of_begun {call effect : Effect} {told : List CompletionEvent}
    (h : performed <+: [.tokenRequested, call] ++ told.map .notified)
    (hmem : effect ∈ performed) (hne : effect ≠ .tokenRequested) :
    ∃ first, first <+: told ∧ performed = [.tokenRequested, call] ++ first.map .notified := by
  rcases List.prefix_cons_iff.mp h with rfl | ⟨tail, rfl, htail⟩
  · exact absurd hmem List.not_mem_nil
  rcases List.prefix_cons_iff.mp htail with rfl | ⟨rest, rfl, hrest⟩
  · exact absurd (List.mem_singleton.mp hmem) hne
  obtain ⟨first, hfirst, rfl⟩ := List.prefix_map_iff.mp hrest
  exact ⟨first, hfirst, rfl⟩

theorem not_mem_of_refused {effects : List Effect} {effect : Effect}
    (hbegun : performed <+: effects) (heffects : effects <+: [.tokenRequested])
    (hne : effect ≠ .tokenRequested) : effect ∉ performed :=
  fun hmem ↦ hne (List.mem_singleton.mp ((hbegun.trans heffects).subset hmem))

/-- A post in what has been done so far is the call of this request, and at most one event has been
told after it. -/
theorem Handled.of_posted (h : Handled serde server request exchange)
    (hbegun : performed <+: exchange.effects) {url token : String} {sent : Value}
    (hposted : .posted url token sent ∈ performed) :
    (∃ streaming, Calls server request url token sent streaming) ∧
      ∃ told : List CompletionEvent, told.length ≤ 1 ∧ performed =
        [.tokenRequested, .posted url token sent] ++ told.map .notified := by
  have hne : Effect.posted url token sent ≠ .tokenRequested := Effect.noConfusion
  have hcall {first : List CompletionEvent} {otherUrl otherToken : String} {otherSent : Value}
      (hmem : Effect.posted url token sent ∈
        [.tokenRequested, .posted otherUrl otherToken otherSent] ++ first.map .notified) :
      url = otherUrl ∧ token = otherToken ∧ sent = otherSent := by
    simpa using hmem
  cases h with
  | refused _ _ heffects => exact absurd hposted (not_mem_of_refused hbegun heffects hne)
  | unanswered hcalls _ =>
    obtain ⟨first, hfirst, rfl⟩ := @exists_told_of_begun _ _ _ [] hbegun hposted hne
    obtain ⟨rfl, rfl, rfl⟩ := hcall hposted
    exact ⟨⟨_, hcalls⟩, first, hfirst.length_le.trans (Nat.zero_le 1), rfl⟩
  | answered hcalls _ _ _ _ _ =>
    rw [AppState.notify_eq_map] at hbegun
    obtain ⟨first, hfirst, rfl⟩ := exists_told_of_begun hbegun hposted hne
    obtain ⟨rfl, rfl, rfl⟩ := hcall hposted
    refine ⟨⟨_, hcalls⟩, first, hfirst.length_le.trans ?_, rfl⟩
    split <;> simp

/-- What the observer is told is told last, of an answer to the call of this request. -/
theorem Handled.of_notified (h : Handled serde server request exchange)
    (hbegun : performed <+: exchange.effects) {event : CompletionEvent}
    (hnotified : .notified event ∈ performed) :
    server.observed = true ∧ ∃ url token sent streaming reply,
      performed = [.tokenRequested, .posted url token sent, .notified event] ∧
      Calls server request url token sent streaming ∧ request.post url token sent = .ok reply ∧
      completion? serde server request = some event ∧
      event.status = exchange.response.status ∧
      event.streamed = exchange.response.body.isStream := by
  have hne : Effect.notified event ≠ .tokenRequested := Effect.noConfusion
  cases h with
  | refused _ _ heffects => exact absurd hnotified (not_mem_of_refused hbegun heffects hne)
  | unanswered _ _ => exact absurd (hbegun.subset hnotified) (by simp)
  | answered hcalls hpost _ hevent hstatus hstreamed =>
    rw [AppState.notify_eq_map, Server.state_observed] at hbegun
    obtain ⟨first, hfirst, rfl⟩ := exists_told_of_begun hbegun hnotified hne
    have hmem : event ∈ first := by simpa using hnotified
    by_cases hobserved : server.observed = true
    · rw [if_pos hobserved] at hfirst
      obtain rfl := List.mem_singleton.mp (hfirst.subset hmem)
      obtain rfl : first = [event] := hfirst.eq_of_length_le (List.length_pos_of_mem hmem)
      exact ⟨hobserved, _, _, _, _, _, rfl, hcalls, hpost, hevent, hstatus, hstreamed⟩
    · rw [if_neg hobserved] at hfirst
      exact absurd (hfirst.subset hmem) List.not_mem_nil

/-- Altogether the observer is told of the completion, or of nothing. -/
theorem Handled.told (h : Handled serde server request exchange) :
    exchange.effects.filterMap Effect.event? =
      if server.observed then (completion? serde server request).toList else [] := by
  cases h with
  | refused hnone _ heffects =>
    rw [hnone]
    rcases List.prefix_cons_iff.mp heffects with rfl | ⟨rest, rfl, hrest⟩
    · simp
    · rw [List.prefix_nil.mp hrest]
      simp [Effect.event?]
  | unanswered _ hnone =>
    rw [hnone]
    simp [Effect.event?]
  | answered _ _ _ hevent _ _ =>
    rw [hevent, List.filterMap_append, AppState.filterMap_notify, Server.state_observed]
    split <;> simp [Effect.event?]

end Performed

/-! ## Every schedule -/

theorem programs_of_events (serde : SerdeJson) (server : Server) (events : List Event) :
    (events.map (Event.action serde server)).filterMap Action.program? =
      (arrivals events).map fun request ↦ (handle serde server request).effects := by
  induction events with
  | nil => rfl
  | cons event events ih =>
    cases event with
    | arrives request => exact congrArg ((handle serde server request).effects :: ·) ih
    | advances index => exact ih

/-- What is logged is a first part of what its request does. -/
theorem exists_request_of_run {serde : SerdeJson} {server : Server} {events : List Event}
    {pool : Pool Effect} (hrun : run serde server events = some pool) {index : ℕ} {effect : Effect}
    (hentry : (index, effect) ∈ pool.log) :
    ∃ request, (arrivals events)[index]? = some request ∧
      done pool.log index <+: (handle serde server request).effects := by
  have hsplits := Interleaving.splits_of_exec hrun
  rw [programs_of_events] at hsplits
  obtain ⟨program, hprogram, -⟩ := hsplits.exists_program hentry
  have hbegun := hsplits.done_prefix hprogram
  rw [List.getElem?_map, Option.map_eq_some_iff] at hprogram
  obtain ⟨request, hrequest, rfl⟩ := hprogram
  exact ⟨request, hrequest, hbegun⟩

/-- All that the observer is told when every request is handled to its end. -/
theorem told_of_requests (serde : SerdeJson) (server : Server) (requests : List Request) :
    (requests.map fun request ↦ (handle serde server request).effects).flatten.filterMap
        Effect.event? =
      if server.observed then requests.filterMap (completion? serde server) else [] := by
  induction requests with
  | nil => simp
  | cons request requests ih =>
    rw [List.map_cons, List.flatten_cons, List.filterMap_append, ih,
      (handle_handled serde server request).told]
    split
    · cases hevent : completion? serde server request <;> simp [hevent]
    · rfl

/-- **Requests are kept apart.** However the handling of many requests is interleaved, and wherever
each of them has got to, a post is the only call of an admitted request, to the configured address,
with that request's own token and body, and what the observer is told it is told once, afterwards,
of the answer to that very call. Once everything is done, every answered call has been told. -/
theorem server_keeps_requests_apart (serde : SerdeJson) (server : Server) (events : List Event)
    (pool : Pool Effect) (hrun : run serde server events = some pool) :
    (∀ index url token sent, (index, .posted url token sent) ∈ pool.log →
      ∃ request, (arrivals events)[index]? = some request ∧
        (∃ streaming, Calls server request url token sent streaming) ∧
        ∃ told : List CompletionEvent, told.length ≤ 1 ∧ done pool.log index =
          [.tokenRequested, .posted url token sent] ++ told.map .notified) ∧
      (∀ index event, (index, .notified event) ∈ pool.log → server.observed = true ∧
        ∃ request url token sent streaming reply, (arrivals events)[index]? = some request ∧
          done pool.log index = [.tokenRequested, .posted url token sent, .notified event] ∧
          Calls server request url token sent streaming ∧
          request.post url token sent = .ok reply ∧
          completion? serde server request = some event ∧
          event.status = (handle serde server request).response.status ∧
          event.streamed = (handle serde server request).response.body.isStream) ∧
      ((∀ rest ∈ pool.pending, rest = []) →
        (pool.log.filterMap fun entry ↦ entry.2.event?).Perm
          (if server.observed then (arrivals events).filterMap (completion? serde server)
            else [])) := by
  refine ⟨?_, ?_, ?_⟩
  · intro index url token sent hentry
    obtain ⟨request, hrequest, hbegun⟩ := exists_request_of_run hrun hentry
    have hposted := (Interleaving.mem_done_iff _ _ _).mpr hentry
    exact ⟨request, hrequest, (handle_handled serde server request).of_posted hbegun hposted⟩
  · intro index event hentry
    obtain ⟨request, hrequest, hbegun⟩ := exists_request_of_run hrun hentry
    have hnotified := (Interleaving.mem_done_iff _ _ _).mpr hentry
    obtain ⟨hobserved, url, token, sent, streaming, reply, hdone, hevent⟩ :=
      (handle_handled serde server request).of_notified hbegun hnotified
    exact ⟨hobserved, request, url, token, sent, streaming, reply, hrequest, hdone, hevent⟩
  · intro hrest
    have hsplits := Interleaving.splits_of_exec hrun
    rw [programs_of_events] at hsplits
    have hperm := (hsplits.log_perm_of_rest hrest).filterMap Effect.event?
    rwa [List.filterMap_map, told_of_requests] at hperm

def guardedServer : Server :=
  ⟨{ Protocols.Config.new "demo" with gatewayKey := "secret" }, true⟩

/-- A request that Vertex answers with an error. -/
def knock (entries : List (String × List UInt8)) (model token : String) (status : UInt16) :
    Request where
  headers := ⟨entries⟩
  body := .obj [("model", .string model)]
  token := .ok token
  post _ _ _ := .ok ⟨status, none, []⟩
  duration := 0
  room := none

/-- A request with the gateway's key. -/
def welcome (model token : String) (status : UInt16) : Request :=
  knock [("authorization", Utf8.bytes "Bearer secret")] model token status

def firstWelcome : Request := welcome "gemini-pro" "ya29.first" 404

def secondWelcome : Request := welcome "gemini-flash" "ya29.second" 503

/-- A stranger's request arrives and two others behind it, which get on in turn. The one that came
last is done first. -/
def inTurn : List Event :=
  [.arrives (knock [] "gemini-pro" "ya29" 200), .arrives firstWelcome, .arrives secondWelcome,
    .advances 1, .advances 2, .advances 1, .advances 2, .advances 2, .advances 1]

def guardedUrl : String :=
  guardedServer.config.openaiBase ++ "/chat/completions"

def sentFor (request : Request) (resolved : String) : Value :=
  Thought.restoreRequest (Protocols.replaceFields resolved request.body)

def firstSent : Value := sentFor firstWelcome "google/gemini-2.5-pro"

def secondSent : Value := sentFor secondWelcome "google/gemini-2.5-flash"

def firstEvent : CompletionEvent := ⟨"google/gemini-2.5-pro", 404, false, 0, none⟩

def secondEvent : CompletionEvent := ⟨"google/gemini-2.5-flash", 503, false, 0, none⟩

theorem checkAuth_welcome (model token : String) (status : UInt16) :
    checkAuth guardedServer.config (welcome model token status).headers = true :=
  (checkAuth_eq_true_iff _ _).mpr (Or.inr ⟨rfl, by decide +kernel⟩)

theorem effects_firstWelcome : (handle .compact guardedServer firstWelcome).effects =
    [.tokenRequested, .posted guardedUrl "ya29.first" firstSent, .notified firstEvent] := by
  rw [handle, chatCompletions, Server.state_config, firstWelcome, if_pos (checkAuth_welcome _ _ _)]
  rfl

theorem effects_secondWelcome : (handle .compact guardedServer secondWelcome).effects =
    [.tokenRequested, .posted guardedUrl "ya29.second" secondSent, .notified secondEvent] := by
  rw [handle, chatCompletions, Server.state_config, secondWelcome, if_pos (checkAuth_welcome _ _ _)]
  rfl

theorem effects_stranger :
    (handle .compact guardedServer (knock [] "gemini-pro" "ya29" 200)).effects = [] := rfl

theorem run_inTurn : run .compact guardedServer inTurn =
    some ⟨[[], [], []],
      [(1, .tokenRequested), (2, .tokenRequested),
        (1, .posted guardedUrl "ya29.first" firstSent),
        (2, .posted guardedUrl "ya29.second" secondSent), (2, .notified secondEvent),
        (1, .notified firstEvent)]⟩ := by
  simp only [run, inTurn, List.map_cons, List.map_nil, Event.action, effects_firstWelcome,
    effects_secondWelcome, effects_stranger]
  rfl

theorem server_keeps_requests_apart_inTurn :
    (∃ request, (arrivals inTurn)[1]? = some request ∧
      ∃ streaming, Calls guardedServer request guardedUrl "ya29.first" firstSent streaming) ∧
      (∃ request, (arrivals inTurn)[2]? = some request ∧
        ∃ streaming, Calls guardedServer request guardedUrl "ya29.second" secondSent streaming) ∧
      [secondEvent, firstEvent].Perm
        ((arrivals inTurn).filterMap (completion? .compact guardedServer)) := by
  obtain ⟨hposted, -, hrest⟩ :=
    server_keeps_requests_apart .compact guardedServer inTurn _ run_inTurn
  refine ⟨?_, ?_, hrest (by simp)⟩
  · obtain ⟨request, hrequest, hcalls, -⟩ :=
      hposted 1 guardedUrl "ya29.first" firstSent (by simp)
    exact ⟨request, hrequest, hcalls⟩
  · obtain ⟨request, hrequest, hcalls, -⟩ :=
      hposted 2 guardedUrl "ya29.second" secondSent (by simp)
    exact ⟨request, hrequest, hcalls⟩

end VertexGateway.Routes
