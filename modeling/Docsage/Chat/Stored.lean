import Docsage.Chat.Protocol
import Docsage.Library.Transition

/-! # What `done` promises

A client that has received `done` may ask for the transcript at once. Its request
runs between any two steps of the server. The .NET server stores the answer
before it sends `done`, the FastAPI server afterwards.
-/

namespace Docsage
open Effects Ranking Text Transition

variable {τ : Type}

/-- A GET of the transcript: what the client had received, and what it got. -/
structure TranscriptRead (τ : Type) where
  received : List (ChatEvent τ)
  messages : List (ChatMessage τ)

/-- A turn that is being served, beside a client that reads the transcript. -/
structure Turn (τ : Type) where
  body : ChatBody τ
  chat : ChatStore τ
  received : List (ChatEvent τ) := []
  reads : List (TranscriptRead τ) := []

inductive TurnAction where
  /-- The server performs its next step, under an injected fault. -/
  | serve (fault : Option Exc)
  /-- The client gets the transcript of the session. -/
  | readTranscript

def Answers (messageId : Uuid) (messages : List (ChatMessage τ)) : Prop :=
  ∃ m ∈ messages, m.id = messageId ∧ m.role = .assistant

/-- What `done` says about the store: the transcript has the answer. -/
def Promised (transcript : ChatStore τ → List (ChatMessage τ)) (event : ChatEvent τ)
    (chat : ChatStore τ) : Prop :=
  ∀ messageId, event = .done messageId → Answers messageId (transcript chat)

namespace Turn

def step (transcript : ChatStore τ → List (ChatMessage τ)) (t : Turn τ) :
    TurnAction → Option (Turn τ)
  | .serve fault =>
    (t.body.resume fault t.chat).map fun r =>
      { t with body := r.2.1, chat := r.2.2, received := t.received ++ r.1 }
  | .readTranscript => some { t with reads := t.reads ++ [⟨t.received, transcript t.chat⟩] }

def Reaches (transcript : ChatStore τ → List (ChatMessage τ)) (t t' : Turn τ) : Prop :=
  Run (step transcript) (fun _ _ => True) t t'

/-- Whoever has received `done` finds the answer stored, and found it in every transcript. -/
structure DoneStored (transcript : ChatStore τ → List (ChatMessage τ)) (t : Turn τ) : Prop where
  stored : ∀ event ∈ t.received, Promised transcript event t.chat
  reads : ∀ r ∈ t.reads, ∀ messageId, .done messageId ∈ r.received → Answers messageId r.messages

variable {transcript : ChatStore τ → List (ChatMessage τ)} {t t' : Turn τ}

/-- The response honours its promises from here on, and so far it has. -/
def Honest (transcript : ChatStore τ → List (ChatMessage τ)) (t : Turn τ) : Prop :=
  (∃ P, t.body.Honours (Promised transcript) P ∧ P t.chat) ∧ DoneStored transcript t

theorem Honest.step (honest : Honest transcript t) {a : TurnAction}
    (h : t.step transcript a = some t') : Honest transcript t' := by
  obtain ⟨⟨P, honours, holds⟩, kept⟩ := honest
  cases a with
  | serve fault =>
    obtain ⟨⟨sent, b, chat⟩, hresume, rfl⟩ := Option.map_eq_some_iff.mp h
    obtain ⟨hrest, hkept⟩ := honours.resume holds kept.stored hresume
    exact ⟨hrest, hkept, kept.reads⟩
  | readTranscript =>
    obtain rfl := Option.some.inj h
    refine ⟨⟨P, honours, holds⟩, kept.stored, fun r hr id hid => ?_⟩
    rcases List.mem_append.mp hr with hr | hr
    · exact kept.reads r hr id hid
    · obtain rfl := List.mem_singleton.mp hr
      exact kept.stored _ hid id rfl

/-- A response that honours its promises keeps them under every interleaving. -/
theorem doneStored_of_honours {P : ChatStore τ → Prop} {b : ChatBody τ} {chat : ChatStore τ}
    (honours : b.Honours (Promised transcript) P) (holds : P chat)
    (run : Reaches transcript { body := b, chat } t) : DoneStored transcript t := by
  have hstart : Honest transcript { body := b, chat } :=
    ⟨⟨P, honours, holds⟩, List.forall_mem_nil _, List.forall_mem_nil _⟩
  exact (run.invariant hstart fun _ _ _ honest _ taken => honest.step taken).2

end Turn

section FastApi

variable {sessionId messageId : Uuid} {retrieved : List RetrievedChunk}
  {deltas : Generator Exc String} {state : StreamState} {chat : ChatStore String}

/-- A generator that raises ends in an error event, which promises nothing. -/
theorem eventStream_honours {transcript : ChatStore String → List (ChatMessage String)} {exc : Exc}
    (h : deltas.failure = some exc) (open_ : state.completed = false) :
    (eventStream sessionId messageId (relayAnswer retrieved messageId deltas) state).Honours
      (Promised transcript) fun _ => True := by
  induction deltas generalizing state with
  | stop => cases h
  | raised e =>
    refine .emit (fun _ _ _ hdone => by cases hdone) ?_
    simp only [eventStream, StreamState.observe, persistAnswer, open_, Bool.false_eq_true, if_false]
    exact .ended
  | yields text rest ih => exact .emit (fun _ _ _ hdone => by cases hdone) (ih h open_)

/-- The server can send everything, `done` included, before anything is stored. -/
theorem reaches_done (transcript : ChatStore String → List (ChatMessage String))
    (sessionId messageId : Uuid) (retrieved : List RetrievedChunk) (state : StreamState)
    (chat : ChatStore String) (received : List (ChatEvent String)) (h : deltas.failure = none) :
    ∃ t', Turn.Reaches transcript
        { body := eventStream sessionId messageId (relayAnswer retrieved messageId deltas) state
          chat, received } t' ∧
      .done messageId ∈ t'.received ∧ t'.chat = chat := by
  induction deltas generalizing state received with
  | stop =>
    refine ⟨_, .tail (.serve none) (.tail (.serve none) (.refl _) trivial rfl) trivial rfl, ?_, rfl⟩
    simp
  | raised e => cases h
  | yields text rest ih =>
    obtain ⟨t', hrun, hdone, hchat⟩ :=
      ih (state.observe (.delta text)) (received ++ [.delta text]) h
    exact ⟨t', (Run.tail (.serve none) (.refl _) trivial rfl).trans hrun, hdone, hchat⟩

/-- A fresh id names no message of the session before the answer is stored. -/
theorem not_answers (fresh : ∀ m ∈ chat.messages, m.id ≠ messageId) :
    ¬ Answers messageId (chat.listMessages sessionId) := by
  rintro ⟨m, hm, hid, -⟩
  exact fresh m (ChatStore.mem_listMessages.mp hm).1 hid

end FastApi

/-- `done` means stored, over all interleavings and all outcomes of the insert, exactly when the
answer generator raises and no `done` is sent. -/
theorem done_stored_iff (settings : Settings) (service : AnswerService) (question : String)
    (retrieved : List RetrievedChunk) {sessionId messageId : Uuid} {chat : ChatStore String}
    (fresh : ∀ m ∈ chat.messages, m.id ≠ messageId) :
    (∀ t, Turn.Reaches (·.listMessages sessionId)
        { body := answerStream settings service question retrieved sessionId messageId, chat } t →
      t.DoneStored (·.listMessages sessionId)) ↔
      (answerDeltas settings service question retrieved).failure.isSome := by
  constructor
  · intro h
    by_contra hnone
    obtain ⟨t, hrun, hdone, hchat⟩ := reaches_done (·.listMessages sessionId) sessionId messageId
      retrieved {} chat [] (Option.not_isSome_iff_eq_none.mp hnone)
    have hstored := (h t hrun).stored _ hdone messageId rfl
    rw [hchat] at hstored
    exact not_answers fresh hstored
  · intro hsome t hrun
    obtain ⟨exc, hexc⟩ := Option.isSome_iff_exists.mp hsome
    exact Turn.doneStored_of_honours (eventStream_honours hexc rfl) trivial hrun

theorem done_stored_iff_offline :
    (∀ t, Turn.Reaches (·.listMessages 1)
        { body := answerStream { demoMode := false, openaiApiKey := "sk" } Conversation.answers
            "telework?" [] 1 9
          chat := Conversation.chat } t → t.DoneStored (·.listMessages 1)) ↔
      (answerDeltas { demoMode := false, openaiApiKey := "sk" } Conversation.answers
        "telework?" []).failure.isSome :=
  done_stored_iff _ Conversation.answers "telework?" [] (List.forall_mem_nil _)

/-- A demo answer is done, and its transcript is read before the server takes the next step. -/
theorem done_not_stored :
    ¬ ∀ (settings : Settings) (service : AnswerService) (question : String)
      (retrieved : List RetrievedChunk) (sessionId messageId : Uuid) (chat : ChatStore String),
      (chat.session? sessionId).isSome → (∀ m ∈ chat.messages, m.id ≠ messageId) →
      ∀ t, Turn.Reaches (·.listMessages sessionId)
          { body := answerStream settings service question retrieved sessionId messageId
            chat } t → t.DoneStored (·.listMessages sessionId) := by
  intro h
  obtain ⟨t, hrun, hdone, hchat⟩ := reaches_done (·.listMessages 1) 1 9 [] {}
    Conversation.chat [] (show (streamDemo "telework?" []).failure = none by
      rw [streamDemo, Generator.failure_ofList])
  have hstored := (h {} Conversation.answers "telework?" [] 1 9 Conversation.chat (by decide)
    (List.forall_mem_nil _) t hrun).stored _ hdone 9 rfl
  rw [hchat] at hstored
  exact not_answers (List.forall_mem_nil _) hstored

namespace DotNet

/-- The SELECT of the .NET transcript, its ties in the order of the database. -/
def listMessages (order : OrderBy (ChatMessage Utf16) Timestamp) (sessionId : Uuid)
    (s : ChatStore Utf16) : List (ChatMessage Utf16) :=
  order.sort (·.createdAt) (s.messages.filter fun m => m.sessionId = sessionId)

variable {order : OrderBy (ChatMessage Utf16) Timestamp} {sessionId messageId : Uuid}
  {chat chat' : ChatStore Utf16} {citations : List (Citation Utf16)} {role : ChatRole}
  {content : Utf16}

theorem mem_listMessages {m : ChatMessage Utf16} :
    m ∈ listMessages order sessionId chat ↔ m ∈ chat.messages ∧ m.sessionId = sessionId := by
  rw [listMessages, (order.perm _ _).mem_iff]
  simp

theorem promised_insert {id : Uuid} {s : Uuid} (event : ChatEvent Utf16)
    (chat chat' : ChatStore Utf16)
    (h : Promised (listMessages order sessionId) event chat)
    (inserted : insertMessage id s role content citations chat = .ok chat') :
    Promised (listMessages order sessionId) event chat' := by
  intro messageId hdone
  obtain ⟨m, hm, hrest⟩ := h messageId hdone
  obtain ⟨hmem, hsession⟩ := mem_listMessages.mp hm
  refine ⟨m, mem_listMessages.mpr ⟨?_, hsession⟩, hrest⟩
  rw [insertMessage_ok inserted]
  exact List.mem_append_left _ hmem

theorem relayAnswer_honours {answer : Utf16} {deltas : Generator Exc Utf16} :
    (relayAnswer sessionId messageId citations answer deltas).Honours
      (Promised (listMessages order sessionId)) fun _ => True := by
  induction deltas generalizing answer with
  | stop =>
    refine .commit (Q := fun chat => Answers messageId (listMessages order sessionId chat))
      (fun event s s' => promised_insert event s s') (fun s s' _ h => ?_) ?_ fun e => .raised e
    · refine ⟨⟨messageId, sessionId, .assistant, answer, citations, s.now⟩,
        mem_listMessages.mpr ⟨?_, rfl⟩, rfl, rfl⟩
      rw [insertMessage_ok h]
      exact List.mem_append_right _ (List.mem_singleton_self _)
    · refine .emit (fun _ _ _ hdone => by cases hdone) (.emit (fun s hs id hdone => ?_) .ended)
      obtain rfl := ChatEvent.done.inj hdone
      exact hs
  | raised e => exact .raised e
  | yields text rest ih => exact .emit (fun _ _ _ hdone => by cases hdone) ih

/-- In a .NET turn `done` always means stored. -/
theorem done_stored (options : ChatOptions) (calls : TurnCalls) (sessionId : Uuid)
    (content : Utf16) (retrieved : Except Exc (List RetrievedChunk)) {t : Turn Utf16}
    (run : Turn.Reaches (listMessages order sessionId)
      { body := processAsync options calls sessionId content retrieved, chat } t) :
    t.DoneStored (listMessages order sessionId) := by
  refine Turn.doneStored_of_honours (P := fun _ => True) (.guard ?_ fun exc P => ?_) trivial run
  · refine .commit (Q := fun _ => True) (fun event s s' => promised_insert event s s')
      (fun _ _ _ _ => trivial) ?_ fun e => .raised e
    cases retrieved with
    | error exc => exact .raised exc
    | ok retrieved => exact relayAnswer_honours
  · exact .emit (fun _ _ _ hdone => by cases hdone) .ended

end DotNet

end Docsage
