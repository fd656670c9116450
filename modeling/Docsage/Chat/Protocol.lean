import Docsage.Chat.Turn

/-! # The stream protocol

Whatever the answer generator does, a stream is a list of deltas that ends in
citations and `done`, or in one error, and the session gains the answer exactly
when it ends in `done`.
-/

namespace Docsage
open Effects Text

variable {τ : Type}

/-- `delta*`, then `citations` and `done`, or a single `error`. -/
inductive ChatGrammar : List (ChatEvent τ) → Prop where
  | delta (text : τ) {rest : List (ChatEvent τ)} (tail : ChatGrammar rest) :
      ChatGrammar (.delta text :: rest)
  | done (citations : List (Citation τ)) (messageId : Uuid) :
      ChatGrammar [.citations citations, .done messageId]
  | error (message : τ) : ChatGrammar [.error message]

def ChatEvent.deltaText? : ChatEvent τ → Option τ
  | .delta text => some text
  | _ => none

/-- What a client that reads the stream to its end has seen, and what the session has gained. -/
structure TurnProtocol (join : List τ → τ) (sessionId : Uuid) (events : List (ChatEvent τ))
    (gained : List (ChatMessage τ)) : Prop where
  grammar : ChatGrammar events
  /-- A completed answer is stored as it was streamed. -/
  answered : ∀ messageId, .done messageId ∈ events →
    ∃ message, gained = [message] ∧ message.id = messageId ∧ message.sessionId = sessionId ∧
      message.role = .assistant ∧ message.content = join (events.filterMap ChatEvent.deltaText?) ∧
      .citations message.citations ∈ events
  /-- Nothing else is stored. -/
  unanswered : (∀ messageId, .done messageId ∉ events) → gained = []

theorem ChatGrammar.deltas {events : List (ChatEvent τ)} (tail : ChatGrammar events)
    (texts : List τ) : ChatGrammar (texts.map .delta ++ events) := by
  induction texts with
  | nil => exact tail
  | cons text texts ih => exact .delta text ih

theorem filterMap_deltas (texts : List τ) :
    (texts.map ChatEvent.delta).filterMap ChatEvent.deltaText? = texts := by
  induction texts with
  | nil => rfl
  | cons text texts ih => simpa [ChatEvent.deltaText?] using ih

theorem TurnProtocol.done {join : List τ → τ} {texts : List τ} {citations : List (Citation τ)}
    {sessionId messageId : Uuid} {createdAt : Timestamp} :
    TurnProtocol join sessionId (texts.map .delta ++ [.citations citations, .done messageId])
      [⟨messageId, sessionId, .assistant, join texts, citations, createdAt⟩] where
  grammar := (ChatGrammar.done citations messageId).deltas texts
  answered id hid := by
    obtain rfl : id = messageId := by simpa using hid
    refine ⟨_, rfl, rfl, rfl, rfl, ?_, by simp⟩
    rw [List.filterMap_append, filterMap_deltas]
    exact (congrArg join (List.append_nil texts)).symm
  unanswered hnone := by
    refine absurd ?_ (hnone messageId)
    simp

theorem TurnProtocol.error {join : List τ → τ} {texts : List τ} {message : τ} {sessionId : Uuid} :
    TurnProtocol join sessionId (texts.map .delta ++ [.error message]) [] where
  grammar := (ChatGrammar.error message).deltas texts
  answered id hid := by simp at hid
  unanswered _ := rfl

section FastApi

variable {fault : ChatCommit → Option Exc} {retrieved : List RetrievedChunk}
  {sessionId messageId : Uuid} {chat : ChatStore String} {deltas : Generator Exc String}

theorem persistAnswer_events (state : StreamState) :
    ((persistAnswer sessionId messageId state).exec fault chat).events = [] := by
  unfold persistAnswer
  split
  · unfold Body.exec
    generalize (attempt (fault .assistant) _ chat).1 = outcome
    cases outcome <;> rfl
  · rfl

/-- The generator ends normally: everything is sent, and then the answer is stored. -/
theorem eventStream_exec_done (state : StreamState) (h : deltas.failure = none) :
    (eventStream sessionId messageId (relayAnswer retrieved messageId deltas) state).exec
        fault chat =
      { (persistAnswer sessionId messageId
          { textParts := state.textParts ++ deltas.items
            citations := buildCitations retrieved
            completed := true }).exec fault chat with
        events := deltas.items.map .delta ++
          [.citations (buildCitations retrieved), .done messageId] } := by
  induction deltas generalizing state with
  | stop =>
    simp only [relayAnswer, eventStream, Body.exec, StreamState.observe, persistAnswer_events,
      Generator.items, List.append_nil, List.map_nil, List.nil_append]
  | raised e => cases h
  | yields text rest ih =>
    simp only [relayAnswer, eventStream, Body.exec, ih _ h, StreamState.observe, Generator.items,
      List.map_cons, List.cons_append, List.append_assoc, List.nil_append]

/-- The generator raises: its exception is the last event, and nothing is stored. -/
theorem eventStream_exec_error (state : StreamState) {exc : Exc} (h : deltas.failure = some exc)
    (open_ : state.completed = false) :
    (eventStream sessionId messageId (relayAnswer retrieved messageId deltas) state).exec
        fault chat =
      ⟨deltas.items.map .delta ++ [.error ("answer generation failed: " ++ exc.message)],
        none, chat⟩ := by
  induction deltas generalizing state with
  | stop => cases h
  | raised e =>
    obtain rfl := Option.some.inj h
    simp [relayAnswer, eventStream, StreamState.observe, persistAnswer, open_, Body.exec,
      Generator.items]
  | yields text rest ih =>
    simp only [relayAnswer, eventStream, Body.exec, Generator.items, List.map_cons,
      List.cons_append, ih (state.observe (.delta text)) h open_]

/-- The stream of a FastAPI turn, when the answer can be stored. -/
theorem answerStream_protocol {settings : Settings} {service : AnswerService} {question : String}
    (owned : (chat.session? sessionId).isSome) (commits : fault .assistant = none) :
    let served := (answerStream settings service question retrieved sessionId messageId).exec
      fault chat
    ∃ gained, served.store.messages = chat.messages ++ gained ∧
      TurnProtocol String.join sessionId served.events gained := by
  intro served
  let deltas := answerDeltas settings service question retrieved
  cases h : deltas.failure with
  | none =>
    have hserved : served = _ := eventStream_exec_done {} h
    rw [hserved]
    refine ⟨[⟨messageId, sessionId, .assistant, String.join deltas.items,
      buildCitations retrieved, chat.now⟩], ?_, .done⟩
    simp only [persistAnswer, if_true, Body.exec, attempt, commits,
      ChatStore.insertMessage_of_session _ _ _ _ owned]
    rfl
  | some exc =>
    have hserved : served = _ := eventStream_exec_error {} h rfl
    rw [hserved]
    exact ⟨[], (List.append_nil _).symm, .error⟩

end FastApi

namespace DotNet

variable {fault : ChatCommit → Option Exc} {sessionId messageId : Uuid}
  {citations : List (Citation Utf16)} {deltas : Generator Exc Utf16} {chat chat' : ChatStore Utf16}

theorem insertMessage_ok {role : ChatRole} {content : Utf16}
    (h : insertMessage messageId sessionId role content citations chat = .ok chat') :
    chat' = { chat with
      messages := chat.messages ++
        [⟨messageId, sessionId, role, content, citations, chat.now⟩] } := by
  unfold insertMessage at h
  split at h
  · cases h
  · exact ChatStore.insertMessage_ok h

/-- The loop sends every delta, and then stores and sends the rest, or raises and stores nothing. -/
theorem relayAnswer_exec (answer : Utf16) :
    let served := (relayAnswer sessionId messageId citations answer deltas).exec fault chat
    (served.failure = none ∧
      served.events = deltas.items.map .delta ++ [.citations citations, .done messageId] ∧
      served.store.messages = chat.messages ++
        [⟨messageId, sessionId, .assistant, answer ++ deltas.items.flatten, citations,
          chat.now⟩]) ∨
    ∃ exc, served.failure = some exc ∧ served.events = deltas.items.map .delta ∧
      served.store = chat := by
  induction deltas generalizing answer with
  | stop =>
    simp only [relayAnswer, Body.exec]
    rcases attempt_cases (fault .assistant)
      (insertMessage messageId sessionId .assistant answer citations) chat with
      ⟨hr, ht⟩ | ⟨⟨exc, hr⟩, hs⟩
    · left
      rw [hr, insertMessage_ok ht]
      exact ⟨rfl, rfl, by simp [Body.exec, Generator.items]⟩
    · right
      rw [hr, hs]
      exact ⟨exc, rfl, rfl, rfl⟩
  | raised exc => exact .inr ⟨exc, rfl, rfl, rfl⟩
  | yields text rest ih =>
    simp only [relayAnswer, Body.exec, Generator.items, List.map_cons, List.cons_append,
      List.flatten_cons]
    rcases ih (answer ++ text) with ⟨hf, he, hs⟩ | ⟨exc, hf, he, hs⟩
    · exact .inl ⟨hf, by rw [he], by rw [hs, List.append_assoc]⟩
    · exact .inr ⟨exc, hf, by rw [he], hs⟩

/-- An exception of the enumeration after some deltas, with nothing stored since. -/
theorem guard_protocol (b : ChatBody Utf16) (texts : List Utf16) {exc : Exc}
    (failure : (b.exec fault chat).failure = some exc)
    (events : (b.exec fault chat).events = texts.map .delta)
    (store : (b.exec fault chat).store = chat) :
    let served := (b.guard reportException).exec fault chat
    ∃ gained, served.store.messages = chat.messages ++ gained ∧
      TurnProtocol List.flatten sessionId served.events gained := by
  intro served
  have hserved : served = _ := Body.exec_guard_of_some failure
  rw [hserved, events, store]
  exact ⟨[], (List.append_nil _).symm, .error⟩

theorem relayAnswer_protocol :
    let served := ((relayAnswer sessionId messageId citations [] deltas).guard
      reportException).exec fault chat
    ∃ gained, served.store.messages = chat.messages ++ gained ∧
      TurnProtocol List.flatten sessionId served.events gained := by
  intro served
  rcases relayAnswer_exec [] with ⟨hf, he, hs⟩ | ⟨exc, hf, he, hs⟩
  · have hserved : served = _ := Body.exec_guard_of_none hf
    rw [hserved, he, hs]
    exact ⟨_, rfl, .done⟩
  · exact guard_protocol _ _ hf he hs

/-- The stream of a .NET turn. A failed insert is one of the errors. -/
theorem processAsync_protocol {options : ChatOptions} {calls : TurnCalls} {content : Utf16}
    {retrieved : Except Exc (List RetrievedChunk)} :
    let served := (processAsync options calls sessionId content retrieved).exec fault chat
    ∃ asked gained, served.store.messages = chat.messages ++ asked ++ gained ∧
      (∀ message ∈ asked, message.role = .user) ∧
      TurnProtocol List.flatten sessionId served.events gained := by
  simp only [processAsync, coreAsync, Body.guard, Body.exec]
  rcases attempt_cases (fault .user)
    (insertMessage calls.userMessageId sessionId .user content []) chat with
    ⟨hr, ht⟩ | ⟨⟨exc, hr⟩, hs⟩
  · rw [hr, insertMessage_ok ht]
    refine ⟨[⟨calls.userMessageId, sessionId, .user, content, [], chat.now⟩], ?_⟩
    have hasked : ∀ message ∈ [(⟨calls.userMessageId, sessionId, .user, content, [], chat.now⟩ :
        ChatMessage Utf16)], message.role = .user := by simp
    cases retrieved with
    | error exc =>
      obtain ⟨gained, hstore, hprotocol⟩ := guard_protocol (.raised exc) [] rfl rfl rfl
      exact ⟨gained, hstore, hasked, hprotocol⟩
    | ok retrieved =>
      obtain ⟨gained, hstore, hprotocol⟩ := relayAnswer_protocol
      exact ⟨gained, hstore, hasked, hprotocol⟩
  · rw [hr, hs]
    obtain ⟨gained, hstore, hprotocol⟩ := guard_protocol (.raised exc) [] rfl rfl rfl
    refine ⟨[], gained, ?_, List.forall_mem_nil _, hprotocol⟩
    rw [List.append_nil]
    exact hstore

end DotNet

/-- In both backends, whatever was retrieved and whatever the answer generator does: the events
are deltas that end in citations and `done` or in one error, and the session gains an answer
exactly with `done`, under its id, with the text that was streamed and the citations that were
sent. -/
theorem chat_protocol {fault : ChatCommit → Option Exc} (commits : fault .assistant = none) :
    (∀ (settings : Settings) (service : AnswerService) (question : String)
      (retrieved : List RetrievedChunk) (sessionId messageId : Uuid) (chat : ChatStore String),
      (chat.session? sessionId).isSome →
      let served := (answerStream settings service question retrieved sessionId messageId).exec
        fault chat
      ∃ gained, served.store.messages = chat.messages ++ gained ∧
        TurnProtocol String.join sessionId served.events gained) ∧
    ∀ (options : DotNet.ChatOptions) (calls : DotNet.TurnCalls) (sessionId : Uuid)
      (content : Utf16) (retrieved : Except Exc (List RetrievedChunk)) (chat : ChatStore Utf16),
      let served := (DotNet.processAsync options calls sessionId content retrieved).exec fault chat
      ∃ asked gained, served.store.messages = chat.messages ++ asked ++ gained ∧
        (∀ message ∈ asked, message.role = .user) ∧
        TurnProtocol List.flatten sessionId served.events gained :=
  ⟨fun _ _ _ _ _ _ _ owned => answerStream_protocol owned commits,
    fun _ _ _ _ _ _ => DotNet.processAsync_protocol⟩

namespace Conversation

/-- One personal session of user 1, with nothing said yet. -/
def session : ChatSession := ⟨1, 1, .personal⟩

def chat : ChatStore String := { now := 0, sessions := [session] }

def answers : AnswerService where
  openai _ _ := .raised { message := "no key" }
  gemini _ _ := .raised { message := "no key" }

end Conversation

theorem chat_protocol_demo :
    let served := (answerStream {} Conversation.answers "telework?" [] 1 9).exec (fun _ => none)
      Conversation.chat
    ∃ gained, served.store.messages = Conversation.chat.messages ++ gained ∧
      TurnProtocol String.join 1 served.events gained :=
  (chat_protocol rfl).1 {} Conversation.answers "telework?" [] 1 9 Conversation.chat (by decide)

end Docsage
