import Docsage.Frontend.EventStream
import Docsage.Library.Table
import Docsage.Library.Transition

/-! # The chat page

The state of `ChatPage`, with the calls it awaits and the streams it reads. Handlers
and effects see the values of the last render, and an effect runs at some time
after the render that changed its key. One action is one turn of the event loop.
-/

namespace Docsage
open Relational Ranking

namespace ChatPage

structure Session where
  id : Uuid
  scope : ChatScope
  createdAt : Timestamp
deriving DecidableEq

/-- The id of a message: given by the server, or made from the clock. -/
inductive MessageId where
  | stored (id : Uuid)
  /-- `local-${Date.now()}`. -/
  | localUser (now : Timestamp)
  /-- `assistant-${Date.now()}`. -/
  | assistant (now : Timestamp)
deriving DecidableEq

/-- A message of the list. The conversation it is part of is history, and so is the call of `send`
that posted it, for the local message as for its stored copy. -/
structure Message where
  id : MessageId
  role : ChatRole
  content : String
  citations : List (Citation String) := []
  createdAt : Timestamp
  sessionId : Uuid
  post : Option ℕ := none
deriving DecidableEq

/-- A call of `createChatSession`; `send` awaits it with the content it goes on to post. -/
structure Creation where
  ticket : ℕ
  scope : ChatScope
  content : Option String
deriving DecidableEq

/-- A `send` between `ensureSession` and the rest of it. -/
structure Resumed where
  ticket : ℕ
  sessionId : Uuid
  content : String
deriving DecidableEq

/-- A call of `listChatMessages` by the transcript effect, with the effect's `cancelled`. -/
structure TranscriptFetch where
  ticket : ℕ
  sessionId : Uuid
  cancelled : Bool := false
  aborted : Bool := false
deriving DecidableEq

structure AnswerStream where
  ticket : ℕ
  sid : Uuid
  accumulated : String := ""
  citations : List (Citation String) := []
  finalId : Option Uuid := none
  streamError : Option String := none
  aborted : Bool := false
  /-- In `signOut`, after a 401. -/
  signingOut : Bool := false
deriving DecidableEq

/-- What the handlers and effects of the last render close over. -/
structure View where
  activeId : Option Uuid := none
  selectionNonce : ℕ := 0
  streaming : Bool := false
deriving DecidableEq

def View.key (v : View) : Option Uuid × ℕ := (v.activeId, v.selectionNonce)

end ChatPage

structure ChatPage where
  sessions : List ChatPage.Session := []
  activeId : Option Uuid := none
  selectionNonce : ℕ := 0
  messages : List ChatPage.Message := []
  messagesLoading : Bool := false
  streaming : Bool := false
  streamText : String := ""
  streamCitations : List (Citation String) := []
  /-- The stream whose controller `abortRef` holds. -/
  abortRef : Option ℕ := none
  /-- The fetch whose controller `transcriptAbortRef` holds. -/
  transcriptAbortRef : Option ℕ := none
  view : ChatPage.View := {}
  /-- The key that the transcript effect last ran for, and the fetch its cleanup cancels. -/
  effectKey : Option (Option Uuid × ℕ) := none
  effectFetch : Option ℕ := none
  /-- Controllers and calls are told apart by tickets. -/
  tickets : ℕ := 1
  /-- The call of `listChatSessions` that is not cancelled; the first is made on mount. -/
  listing : Option ℕ := some 0
  creations : List ChatPage.Creation := []
  resumed : List ChatPage.Resumed := []
  fetches : List ChatPage.TranscriptFetch := []
  streams : List ChatPage.AnswerStream := []
deriving DecidableEq

namespace ChatPage

inductive Action where
  /-- React renders the state as it is. -/
  | render
  /-- Retry of the conversation list; the call before it is cancelled. -/
  | retry
  | listed (ticket : ℕ) (response : Except Exc (List Session))
  /-- The transcript effect runs for the last render. -/
  | transcriptEffect
  /-- A transcript fetch settles. An aborted one is rejected whatever the server answered. -/
  | transcript (ticket : ℕ) (response : Except Exc (List Message))
  | send (content : String) (now : Timestamp)
  | handleNew (scope : ChatScope)
  | created (ticket : ℕ) (response : Except Exc Session)
  /-- A `send` goes on with the conversation that was created for it. -/
  | resume (ticket : ℕ) (now : Timestamp)
  /-- A stream calls `onEvent`. -/
  | event (ticket : ℕ) (e : ChatEvent String)
  /-- The promise of `streamChatMessage` settles. -/
  | streamEnds (ticket : ℕ) (outcome : Except Frontend.Rejection Unit) (now : Timestamp)
  | signedOut (ticket : ℕ)
  /-- The Stop button of the composer. -/
  | stop
  | handleSelect (id : Uuid)

def abortTranscript (p : ChatPage) : ChatPage :=
  match p.transcriptAbortRef with
  | none => p
  | some ticket =>
    { p with
      fetches := update TranscriptFetch.ticket ticket (fun f => { f with aborted := true })
        p.fetches }

def cleanup (p : ChatPage) : ChatPage :=
  match p.effectFetch with
  | none => { p with effectKey := some p.view.key }
  | some ticket =>
    { p with
      fetches := update TranscriptFetch.ticket ticket
        (fun f => { f with cancelled := true, aborted := true }) p.fetches
      effectFetch := none
      effectKey := some p.view.key }

/-- `listChatMessages(activeId, controller.signal)` with a new controller. -/
def fetchTranscript (p : ChatPage) (activeId : Uuid) : ChatPage :=
  { p with
    tickets := p.tickets + 1
    transcriptAbortRef := some p.tickets
    effectFetch := some p.tickets
    fetches := p.fetches ++ [{ ticket := p.tickets, sessionId := activeId }] }

def transcriptEffect (p : ChatPage) : Option ChatPage :=
  if p.effectKey = some p.view.key then none
  else
    match p.view.activeId with
    | none => some p.cleanup
    | some activeId => some (p.cleanup.abortTranscript.fetchTranscript activeId)

def settleFetch (p : ChatPage) (f : TranscriptFetch) : ChatPage :=
  { p with fetches := delete TranscriptFetch.ticket f.ticket p.fetches }

/-- The callbacks of a transcript fetch. The server lists the messages of that conversation. -/
def transcript (p : ChatPage) (f : TranscriptFetch) (response : Except Exc (List Message)) :
    ChatPage :=
  if f.cancelled then p.settleFetch f
  else
    match f.aborted, response with
    | false, .ok items =>
      { p.settleFetch f with
        messages := items.map fun m => { m with sessionId := f.sessionId }
        messagesLoading := false }
    | _, _ => { p.settleFetch f with messagesLoading := false }

/-- The callbacks of `listChatSessions`, newest conversation first. -/
def listed (p : ChatPage) (response : Except Exc (List Session)) : ChatPage :=
  match response with
  | .error _ => { p with listing := none }
  | .ok items =>
    let sessions := rank Session.createdAt items
    { p with
      listing := none
      sessions
      activeId := p.activeId <|> sessions.head?.map (·.id)
      messagesLoading := if sessions = [] then p.messagesLoading else true }

def createSession (p : ChatPage) (scope : ChatScope) (content : Option String) : ChatPage :=
  { p with
    tickets := p.tickets + 1
    creations := p.creations ++ [⟨p.tickets, scope, content⟩] }

def ensureSession (p : ChatPage) (session : Session) : ChatPage :=
  { p with
    sessions := session :: p.sessions
    activeId := some session.id
    messages := []
    messagesLoading := false }

def settleCreation (p : ChatPage) (c : Creation) : ChatPage :=
  { p with creations := delete Creation.ticket c.ticket p.creations }

def created (p : ChatPage) (c : Creation) (response : Except Exc Session) : ChatPage :=
  match response with
  | .error _ => p.settleCreation c
  | .ok session =>
    { (p.settleCreation c).ensureSession session with
      resumed := p.resumed ++
        (c.content.map fun content => ⟨c.ticket, session.id, content⟩).toList }

/-- The rest of `send`, up to its call of `streamChatMessage`. -/
def post (p : ChatPage) (sid : Uuid) (content : String) (now : Timestamp) : ChatPage :=
  { p.abortTranscript with
    messages := p.messages ++
      [{ id := .localUser now, role := .user, content, createdAt := now, sessionId := sid
         post := some p.tickets }]
    tickets := p.tickets + 1
    abortRef := some p.tickets
    streaming := true
    streamText := ""
    streamCitations := []
    streams := p.streams ++ [{ ticket := p.tickets, sid }] }

def send (p : ChatPage) (content : String) (now : Timestamp) : ChatPage :=
  if p.view.streaming then p
  else
    match p.view.activeId with
    | none => p.createSession .personal (some content)
    | some sid => p.post sid content now

def event (p : ChatPage) (s : AnswerStream) (e : ChatEvent String) : ChatPage :=
  let put s' := update AnswerStream.ticket s.ticket (fun _ => s') p.streams
  match e with
  | .delta text =>
    { p with
      streams := put { s with accumulated := s.accumulated ++ text }
      streamText := s.accumulated ++ text }
  | .citations citations =>
    { p with streams := put { s with citations }, streamCitations := citations }
  | .done messageId => { p with streams := put { s with finalId := some messageId } }
  | .error message => { p with streams := put { s with streamError := some message } }

def AnswerStream.answer (s : AnswerStream) (id : MessageId) (now : Timestamp) : Message where
  id := id
  role := .assistant
  content := s.accumulated
  citations := s.citations
  createdAt := now
  sessionId := s.sid

def finish (p : ChatPage) (s : AnswerStream) : ChatPage :=
  { p with
    streams := delete AnswerStream.ticket s.ticket p.streams
    streaming := false
    streamText := ""
    streamCitations := []
    abortRef := none }

/-- The message that a stream leaves when it ends this way. -/
def AnswerStream.leaves (s : AnswerStream) (now : Timestamp) :
    Except Frontend.Rejection Unit → Option Message
  | .ok () => some (s.answer ((s.finalId.map .stored).getD (.assistant now)) now)
  | .error _ =>
    -- the reader stopped the generation: what streamed so far is kept
    if s.aborted ∧ s.accumulated ≠ "" then some (s.answer (.assistant now) now) else none

/-- The rest of `send` after its call of `streamChatMessage`. -/
def streamEnds (p : ChatPage) (s : AnswerStream) (outcome : Except Frontend.Rejection Unit)
    (now : Timestamp) : ChatPage :=
  match s.aborted, outcome with
  | false, .error (.apiError 401 _) =>
    { p with
      streams := update AnswerStream.ticket s.ticket (fun _ => { s with signingOut := true })
        p.streams }
  | _, _ => { p with messages := p.messages ++ (s.leaves now outcome).toList }.finish s

def abortStream (p : ChatPage) : ChatPage :=
  match p.abortRef with
  | none => p
  | some ticket =>
    { p with
      streams := update AnswerStream.ticket ticket (fun s => { s with aborted := true })
        p.streams }

def handleSelect (p : ChatPage) (id : Uuid) : ChatPage :=
  { if p.view.streaming then p.abortStream else p with
    messages := []
    messagesLoading := true
    activeId := some id
    selectionNonce := p.selectionNonce + 1 }

def step (p : ChatPage) : Action → Option ChatPage
  | .render => some { p with view := ⟨p.activeId, p.selectionNonce, p.streaming⟩ }
  | .retry => some { p with listing := some p.tickets, tickets := p.tickets + 1 }
  | .listed ticket response => if p.listing = some ticket then some (p.listed response) else none
  | .transcriptEffect => p.transcriptEffect
  | .transcript ticket response =>
    (lookup TranscriptFetch.ticket ticket p.fetches).map fun f => p.transcript f response
  | .send content now => some (p.send content now)
  | .handleNew scope => some (p.createSession scope none)
  | .created ticket response =>
    (lookup Creation.ticket ticket p.creations).map fun c => p.created c response
  | .resume ticket now =>
    (lookup Resumed.ticket ticket p.resumed).map fun r =>
      { p with resumed := delete Resumed.ticket ticket p.resumed }.post r.sessionId r.content now
  | .event ticket e =>
    (lookup AnswerStream.ticket ticket p.streams).bind fun s =>
      if s.aborted ∨ s.signingOut then none else some (p.event s e)
  | .streamEnds ticket outcome now =>
    (lookup AnswerStream.ticket ticket p.streams).bind fun s =>
      if s.signingOut then none else some (p.streamEnds s outcome now)
  | .signedOut ticket =>
    (lookup AnswerStream.ticket ticket p.streams).bind fun s =>
      if s.signingOut then some (p.finish s) else none
  | .stop => some p.abortStream
  | .handleSelect id =>
    -- the sidebar offers the conversations it knows
    if id ∈ p.sessions.map (·.id) then some (p.handleSelect id) else none

def mounted : ChatPage := {}

inductive Steps (p : ChatPage) : Action → ChatPage → Prop where
  | render : p.Steps .render { p with view := ⟨p.activeId, p.selectionNonce, p.streaming⟩ }
  | retry : p.Steps .retry { p with listing := some p.tickets, tickets := p.tickets + 1 }
  | listed {ticket : ℕ} (response : Except Exc (List Session)) (awaited : p.listing = some ticket) :
    p.Steps (.listed ticket response) (p.listed response)
  | transcriptEffect {p' : ChatPage} (h : p.transcriptEffect = some p') :
    p.Steps .transcriptEffect p'
  | transcript {ticket : ℕ} (f : TranscriptFetch) (response : Except Exc (List Message))
    (found : lookup TranscriptFetch.ticket ticket p.fetches = some f) :
    p.Steps (.transcript ticket response) (p.transcript f response)
  | send (content : String) (now : Timestamp) : p.Steps (.send content now) (p.send content now)
  | handleNew (scope : ChatScope) : p.Steps (.handleNew scope) (p.createSession scope none)
  | created {ticket : ℕ} (c : Creation) (response : Except Exc Session)
    (found : lookup Creation.ticket ticket p.creations = some c) :
    p.Steps (.created ticket response) (p.created c response)
  | resume {ticket : ℕ} (r : Resumed) (now : Timestamp)
    (found : lookup Resumed.ticket ticket p.resumed = some r) :
    p.Steps (.resume ticket now)
      ({ p with resumed := delete Resumed.ticket ticket p.resumed }.post r.sessionId r.content now)
  | event {ticket : ℕ} (s : AnswerStream) (e : ChatEvent String)
    (found : lookup AnswerStream.ticket ticket p.streams = some s)
    (reading : ¬ (s.aborted ∨ s.signingOut)) : p.Steps (.event ticket e) (p.event s e)
  | streamEnds {ticket : ℕ} (s : AnswerStream) (outcome : Except Frontend.Rejection Unit)
    (now : Timestamp) (found : lookup AnswerStream.ticket ticket p.streams = some s)
    (awaited : ¬ s.signingOut) : p.Steps (.streamEnds ticket outcome now)
      (p.streamEnds s outcome now)
  | signedOut {ticket : ℕ} (s : AnswerStream)
    (found : lookup AnswerStream.ticket ticket p.streams = some s) (signingOut : s.signingOut) :
    p.Steps (.signedOut ticket) (p.finish s)
  | stop : p.Steps .stop p.abortStream
  | handleSelect (id : Uuid) (offered : id ∈ p.sessions.map (·.id)) :
    p.Steps (.handleSelect id) (p.handleSelect id)

theorem step_cases {p p' : ChatPage} {a : Action} (h : p.step a = some p') : p.Steps a p' := by
  cases a with
  | render =>
    obtain rfl := Option.some.inj h
    exact .render
  | retry =>
    obtain rfl := Option.some.inj h
    exact .retry
  | listed ticket response =>
    obtain ⟨hlisting, h⟩ := Option.ite_none_right_eq_some.mp h
    obtain rfl := Option.some.inj h
    exact .listed response hlisting
  | transcriptEffect => exact .transcriptEffect h
  | transcript ticket response =>
    obtain ⟨f, hf, rfl⟩ := Option.map_eq_some_iff.mp h
    exact .transcript f response hf
  | send content now =>
    obtain rfl := Option.some.inj h
    exact .send content now
  | handleNew scope =>
    obtain rfl := Option.some.inj h
    exact .handleNew scope
  | created ticket response =>
    obtain ⟨c, hc, rfl⟩ := Option.map_eq_some_iff.mp h
    exact .created c response hc
  | resume ticket now =>
    obtain ⟨r, hr, rfl⟩ := Option.map_eq_some_iff.mp h
    exact .resume r now hr
  | event ticket e =>
    obtain ⟨s, hs, h⟩ := Option.bind_eq_some_iff.mp h
    obtain ⟨hreading, h⟩ := Option.ite_none_left_eq_some.mp h
    obtain rfl := Option.some.inj h
    exact .event s e hs hreading
  | streamEnds ticket outcome now =>
    obtain ⟨s, hs, h⟩ := Option.bind_eq_some_iff.mp h
    obtain ⟨hawaited, h⟩ := Option.ite_none_left_eq_some.mp h
    obtain rfl := Option.some.inj h
    exact .streamEnds s outcome now hs hawaited
  | signedOut ticket =>
    obtain ⟨s, hs, h⟩ := Option.bind_eq_some_iff.mp h
    obtain ⟨hout, h⟩ := Option.ite_none_right_eq_some.mp h
    obtain rfl := Option.some.inj h
    exact .signedOut s hs hout
  | stop =>
    obtain rfl := Option.some.inj h
    exact .stop
  | handleSelect id =>
    obtain ⟨hoffered, h⟩ := Option.ite_none_right_eq_some.mp h
    obtain rfl := Option.some.inj h
    exact .handleSelect id hoffered

/-! A transcript that is not cancelled is the one the effect fetched last, and its
controller is the one that `send` aborts. -/

structure Listening (p : ChatPage) : Prop where
  issued : ∀ f ∈ p.fetches, f.ticket < p.tickets
  effect : ∀ f ∈ p.fetches, f.cancelled = false → p.effectFetch = some f.ticket
  key : ∀ f ∈ p.fetches, f.cancelled = false →
    ∃ nonce, p.effectKey = some (some f.sessionId, nonce)
  controller : ∀ f ∈ p.fetches, f.cancelled = false → p.transcriptAbortRef = some f.ticket

variable {p p' : ChatPage} {f : TranscriptFetch} {s : AnswerStream} {a : Action}

/-- The same fetch, whose controller may have been aborted meanwhile. -/
structure SameFetch (f₀ f : TranscriptFetch) : Prop where
  ticket : f.ticket = f₀.ticket
  sessionId : f.sessionId = f₀.sessionId
  cancelled : f.cancelled = f₀.cancelled
  aborted : f₀.aborted = true → f.aborted = true

theorem SameFetch.refl (f : TranscriptFetch) : SameFetch f f := ⟨rfl, rfl, rfl, id⟩

theorem mem_abortTranscript (h : f ∈ p.abortTranscript.fetches) :
    ∃ f₀ ∈ p.fetches, SameFetch f₀ f := by
  unfold abortTranscript at h
  split at h
  · exact ⟨f, h, .refl f⟩
  · obtain ⟨f₀, hf₀, rfl⟩ := mem_update.mp h
    refine ⟨f₀, hf₀, ?_⟩
    split
    · exact ⟨rfl, rfl, rfl, fun _ => rfl⟩
    · exact .refl f₀

/-- After the abort nobody waits for the answer to a fetch that is listened to. -/
theorem Listening.aborted (listening : p.Listening) (h : f ∈ p.abortTranscript.fetches)
    (live : f.cancelled = false) : f.aborted = true := by
  obtain ⟨f₀, hf₀, same⟩ := mem_abortTranscript h
  have hcontroller := listening.controller f₀ hf₀ (same.cancelled.symm.trans live)
  rw [← same.ticket] at hcontroller
  simp only [abortTranscript, hcontroller] at h
  obtain ⟨f₁, -, hf₁⟩ := mem_update.mp h
  by_cases hsame : f₁.ticket = f.ticket
  · rw [if_pos hsame] at hf₁
    rw [← hf₁]
  · rw [if_neg hsame] at hf₁
    exact absurd (congrArg TranscriptFetch.ticket hf₁) hsame

theorem Listening.cleanup (listening : p.Listening) (h : f ∈ p.cleanup.fetches) :
    f.cancelled = true ∧ f.ticket < p.tickets := by
  unfold ChatPage.cleanup at h
  split at h
  · next hnone =>
    refine ⟨?_, listening.issued f h⟩
    cases hlive : f.cancelled with
    | true => rfl
    | false => simpa [hnone] using listening.effect f h hlive
  · next ticket hsome =>
    obtain ⟨f₀, hf₀, rfl⟩ := mem_update.mp h
    split
    · exact ⟨rfl, listening.issued f₀ hf₀⟩
    · next hne =>
      refine ⟨?_, listening.issued f₀ hf₀⟩
      cases hlive : f₀.cancelled with
      | true => rfl
      | false =>
        have heffect := hsome.symm.trans (listening.effect f₀ hf₀ hlive)
        exact absurd (Option.some.inj heffect).symm hne

/-- The effect is not run: the fetches are among those there were. -/
structure EffectRests (p p' : ChatPage) : Prop where
  fetches : ∀ f ∈ p'.fetches, ∃ f₀ ∈ p.fetches, SameFetch f₀ f
  tickets : p.tickets ≤ p'.tickets
  effectFetch : p'.effectFetch = p.effectFetch
  effectKey : p'.effectKey = p.effectKey
  controller : p'.transcriptAbortRef = p.transcriptAbortRef

theorem Listening.rest (listening : p.Listening) (rests : p.EffectRests p') : p'.Listening where
  issued f hf := by
    obtain ⟨f₀, hf₀, same⟩ := rests.fetches f hf
    rw [same.ticket]
    exact (listening.issued f₀ hf₀).trans_le rests.tickets
  effect f hf live := by
    obtain ⟨f₀, hf₀, same⟩ := rests.fetches f hf
    rw [rests.effectFetch, same.ticket]
    exact listening.effect f₀ hf₀ (same.cancelled.symm.trans live)
  key f hf live := by
    obtain ⟨f₀, hf₀, same⟩ := rests.fetches f hf
    rw [rests.effectKey, same.sessionId]
    exact listening.key f₀ hf₀ (same.cancelled.symm.trans live)
  controller f hf live := by
    obtain ⟨f₀, hf₀, same⟩ := rests.fetches f hf
    rw [rests.controller, same.ticket]
    exact listening.controller f₀ hf₀ (same.cancelled.symm.trans live)

/-! What the steps that concern a controller or the effect change, and nothing else. -/

theorem abortTranscript_eq :
    p.abortTranscript = { p with fetches := p.abortTranscript.fetches } := by
  unfold abortTranscript
  split <;> rfl

theorem abortStream_eq : p.abortStream = { p with streams := p.abortStream.streams } := by
  unfold abortStream
  split <;> rfl

theorem cleanup_eq : p.cleanup = { p with
    fetches := p.cleanup.fetches
    effectFetch := none
    effectKey := some p.view.key } := by
  unfold ChatPage.cleanup
  split
  · next hnone => rw [← hnone]
  · rfl

theorem transcriptEffect_eq (h : p.transcriptEffect = some p') :
    ∃ fetches tickets controller effectFetch, p' = { p with
      fetches := fetches
      tickets := tickets
      transcriptAbortRef := controller
      effectFetch := effectFetch
      effectKey := some p.view.key } := by
  unfold ChatPage.transcriptEffect at h
  split at h
  · cases h
  split at h
  · obtain rfl := Option.some.inj h
    rw [cleanup_eq]
    exact ⟨_, _, _, _, rfl⟩
  · obtain rfl := Option.some.inj h
    rw [fetchTranscript, abortTranscript_eq, cleanup_eq]
    exact ⟨_, _, _, _, rfl⟩

theorem transcript_eq {response : Except Exc (List Message)} :
    ∃ messages messagesLoading, p.transcript f response = { p.settleFetch f with
      messages := messages
      messagesLoading := messagesLoading } := by
  unfold ChatPage.transcript
  split
  · exact ⟨_, _, rfl⟩
  · split <;> exact ⟨_, _, rfl⟩

theorem Listening.transcriptEffect (listening : p.Listening)
    (h : p.transcriptEffect = some p') : p'.Listening := by
  unfold ChatPage.transcriptEffect at h
  split at h
  · cases h
  split at h
  · obtain rfl := Option.some.inj h
    refine ⟨fun f hf => ?_, fun f hf live => ?_, fun f hf live => ?_, fun f hf live => ?_⟩
    · rw [cleanup_eq]
      exact (listening.cleanup hf).2
    all_goals simp [(listening.cleanup hf).1] at live
  · next activeId hview =>
    obtain rfl := Option.some.inj h
    have htickets : p.cleanup.abortTranscript.tickets = p.tickets := by
      rw [abortTranscript_eq, cleanup_eq]
    -- the new fetch, or one that the cleanup cancelled
    have hcases (f : TranscriptFetch)
        (hf : f ∈ (p.cleanup.abortTranscript.fetchTranscript activeId).fetches) :
        f = { ticket := p.tickets, sessionId := activeId } ∨
          f.cancelled = true ∧ f.ticket < p.tickets := by
      rcases List.mem_append.mp hf with hf | hf
      · obtain ⟨f₀, hf₀, same⟩ := mem_abortTranscript hf
        rw [same.ticket, same.cancelled]
        exact .inr (listening.cleanup hf₀)
      · rw [List.mem_singleton.mp hf, htickets]
        exact .inl rfl
    have hnew (f : TranscriptFetch)
        (hf : f ∈ (p.cleanup.abortTranscript.fetchTranscript activeId).fetches)
        (live : f.cancelled = false) : f = { ticket := p.tickets, sessionId := activeId } :=
      (hcases f hf).resolve_right fun h => by simp [h.1] at live
    refine ⟨fun f hf => ?_, fun f hf live => ?_, fun f hf live => ?_, fun f hf live => ?_⟩
    · refine Nat.lt_succ_of_le ?_
      rw [htickets]
      rcases hcases f hf with rfl | ⟨-, hlt⟩
      · exact le_rfl
      · exact hlt.le
    · obtain rfl := hnew f hf live
      exact congrArg some htickets
    · obtain rfl := hnew f hf live
      refine ⟨p.view.selectionNonce, ?_⟩
      change p.cleanup.abortTranscript.effectKey = _
      rw [abortTranscript_eq, cleanup_eq, View.key, hview]
    · obtain rfl := hnew f hf live
      exact congrArg some htickets

theorem streamEnds_messages {outcome : Except Frontend.Rejection Unit} {now : Timestamp} :
    (p.streamEnds s outcome now).messages = p.messages ++ (s.leaves now outcome).toList ∧
      (p.streamEnds s outcome now).activeId = p.activeId := by
  unfold ChatPage.streamEnds
  split
  · next haborted => simp [AnswerStream.leaves, haborted]
  · exact ⟨rfl, rfl⟩

theorem EffectRests.of_subset (fetches : p'.fetches ⊆ p.fetches) (tickets : p.tickets ≤ p'.tickets)
    (effectFetch : p'.effectFetch = p.effectFetch) (effectKey : p'.effectKey = p.effectKey)
    (controller : p'.transcriptAbortRef = p.transcriptAbortRef) : p.EffectRests p' :=
  ⟨fun f hf => ⟨f, fetches hf, .refl f⟩, tickets, effectFetch, effectKey, controller⟩

theorem EffectRests.of_same (fetches : p'.fetches = p.fetches) (tickets : p.tickets ≤ p'.tickets)
    (effectFetch : p'.effectFetch = p.effectFetch) (effectKey : p'.effectKey = p.effectKey)
    (controller : p'.transcriptAbortRef = p.transcriptAbortRef) : p.EffectRests p' :=
  .of_subset (fetches ▸ List.Subset.refl _) tickets effectFetch effectKey controller

theorem EffectRests.post {sid : Uuid} {content : String} {now : Timestamp} :
    p.EffectRests (p.post sid content now) where
  fetches _ := mem_abortTranscript
  tickets := Nat.le_succ _
  effectFetch := by rw [ChatPage.post, abortTranscript_eq]
  effectKey := by rw [ChatPage.post, abortTranscript_eq]
  controller := by rw [ChatPage.post, abortTranscript_eq]

theorem EffectRests.transcript {response : Except Exc (List Message)} :
    p.EffectRests (p.transcript f response) := by
  obtain ⟨messages, messagesLoading, heq⟩ := @transcript_eq p f response
  rw [heq]
  exact .of_subset (List.filter_subset_self _) le_rfl rfl rfl rfl

theorem EffectRests.step (h : p.step a = some p') (other : a ≠ .transcriptEffect) :
    p.EffectRests p' := by
  cases step_cases h with
  | transcriptEffect => exact absurd rfl other
  | render | signedOut => exact .of_same rfl le_rfl rfl rfl rfl
  | retry | handleNew => exact .of_same rfl (Nat.le_succ _) rfl rfl rfl
  | stop =>
    rw [abortStream_eq]
    exact .of_same rfl le_rfl rfl rfl rfl
  | listed response => cases response <;> exact .of_same rfl le_rfl rfl rfl rfl
  | transcript f response => exact .transcript
  | send content now =>
    unfold ChatPage.send
    split
    · exact .of_same rfl le_rfl rfl rfl rfl
    · split
      · exact .of_same rfl (Nat.le_succ _) rfl rfl rfl
      · exact .post
  | created c response => cases response <;> exact .of_same rfl le_rfl rfl rfl rfl
  | @resume ticket r now =>
    obtain ⟨hfetches, htickets, heffect, hkey, hcontroller⟩ := @EffectRests.post
      { p with resumed := delete Resumed.ticket ticket p.resumed } r.sessionId r.content now
    exact ⟨hfetches, htickets, heffect, hkey, hcontroller⟩
  | event s e => cases e <;> exact .of_same rfl le_rfl rfl rfl rfl
  | streamEnds s outcome now =>
    unfold ChatPage.streamEnds
    split <;> exact .of_same rfl le_rfl rfl rfl rfl
  | handleSelect id =>
    rw [ChatPage.handleSelect, abortStream_eq]
    split <;> exact .of_same rfl le_rfl rfl rfl rfl

theorem Listening.step (listening : p.Listening) (h : p.step a = some p') : p'.Listening := by
  by_cases heffect : a = .transcriptEffect
  · subst heffect
    exact listening.transcriptEffect h
  · exact listening.rest (.step h heffect)

theorem mounted_listening : mounted.Listening := ⟨by simp [mounted], by simp [mounted],
  by simp [mounted], by simp [mounted]⟩

end ChatPage

end Docsage
