import Docsage.Api.Access
import Docsage.Chat.Answer
import Docsage.Ingestion.DotNet
import Docsage.Retrieval.Completeness

/-! # One chat turn

`POST /chat/sessions/{session_id}/messages` in both backends. The user's message
is stored first. FastAPI retrieves before it answers the request and stores the
answer when its stream is over; .NET does both inside the stream.
-/

namespace Docsage
open Effects Text

/-- The inserts of a turn, as fault injection names them. -/
inductive ChatCommit where
  | user
  | assistant
deriving DecidableEq, Repr

abbrev ChatBody (τ : Type) := Body (ChatStore τ) Exc ChatCommit (ChatEvent τ)

/-- What a posted message is answered with: a status code, or a stream under status 200. -/
inductive PostResponse (τ : Type) where
  | refused (error : HttpError)
  | stream (body : ChatBody τ)

structure RetrievalFaults where
  listing : Option Exc := none
  vectorQuery : ProviderName → Option Exc := fun _ => none

def orRaise (fault : Option Exc) : Except Exc Unit :=
  match fault with
  | some exc => .error exc
  | none => .ok ()

def chatSessionNotFound : HttpError := ⟨404, "Chat session not found"⟩

/-- `retrieve` with its statements failing where the database says so. -/
def retrieveUnder (faults : RetrievalFaults) (index : VectorIndex) (settings : Settings)
    (service : EmbeddingService) (s : Store) (user : User) (scope : ChatScope) (question : String)
    (k : ℕ) : Except Exc (List RetrievedChunk) := do
  let visible := candidateFilter user.id scope
  orRaise faults.listing
  let merged ← ((visibleProviders s visible).take 2).mapM fun providerName => do
    let query ← queryVector settings service question providerName
    orRaise (faults.vectorQuery providerName)
    return retrieveSpace index s visible k query providerName
  return mergeRanked k merged.flatten

theorem retrieveUnder_none (index : VectorIndex) (settings : Settings) (service : EmbeddingService)
    (s : Store) (user : User) (scope : ChatScope) (question : String) (k : ℕ) :
    retrieveUnder {} index settings service s user scope question k =
      retrieve index settings service s user scope question k := rfl

structure StreamState where
  textParts : List String := []
  citations : List (Citation String) := []
  completed : Bool := false

def StreamState.observe (state : StreamState) : ChatEvent String → StreamState
  | .delta text => { state with textParts := state.textParts ++ [text] }
  | .citations citations => { state with citations }
  | .done _ => { state with completed := true }
  | .error _ => state

/-- The `finally` block: a failed insert is raised out of the stream. -/
def persistAnswer (sessionId messageId : Uuid) (state : StreamState) : ChatBody String :=
  if state.completed then
    .commit .assistant
      (ChatStore.insertMessage messageId sessionId .assistant (String.join state.textParts)
        state.citations) fun
      | .ok () => .ended
      | .error exc => .raised exc
  else .ended

/-- `event_stream`: an event is observed before it is sent. -/
def eventStream (sessionId messageId : Uuid) :
    Generator Exc (ChatEvent String) → StreamState → ChatBody String
  | .stop, state => persistAnswer sessionId messageId state
  | .raised _, state =>
    .emit (.error "answer generation failed") (persistAnswer sessionId messageId state)
  | .yields event rest, state =>
    .emit event (eventStream sessionId messageId rest (state.observe event))

/-- The stream of a turn over the passages that were retrieved. -/
def answerStream (settings : Settings) (service : AnswerService) (question : String)
    (retrieved : List RetrievedChunk) (sessionId messageId : Uuid) : ChatBody String :=
  eventStream sessionId messageId (service.stream settings question retrieved messageId) {}

structure TurnCalls where
  embedding : EmbeddingService
  answer : AnswerService
  userMessageId : Uuid
  assistantMessageId : Uuid
  storeUser : Option Exc := none
  retrieval : RetrievalFaults := {}

def postChecks (chat : ChatStore String) (user : User) (sessionId : Uuid) :
    Except HttpError ChatSession := do
  let session ← orRefuse ((chat.session? sessionId).filter (·.userId = user.id))
    chatSessionNotFound
  refuse (session.scope = .admin ∧ ¬ user.isAdmin) 403 "Admin chat scope requires the admin role"
  return session

/-- `post_message`, on content that the request model let through. -/
def postMessage (index : VectorIndex) (settings : Settings) (calls : TurnCalls) (s : Store)
    (user : User) (sessionId : Uuid) (content : String) (chat : ChatStore String) :
    PostResponse String × ChatStore String :=
  match postChecks chat user sessionId with
  | .error error => (.refused error, chat)
  | .ok session =>
    match attempt calls.storeUser
        (ChatStore.insertMessage calls.userMessageId session.id .user content []) chat with
    | (.error _, chat) => (.refused internalError, chat)
    | (.ok (), chat) =>
      match retrieveUnder calls.retrieval index settings calls.embedding s user session.scope
          content topKDefault with
      | .error _ => (.refused internalError, chat)
      | .ok retrieved =>
        (.stream (answerStream settings calls.answer content retrieved session.id
          calls.assistantMessageId), chat)

namespace DotNet

/-- A text parameter is encoded when it is bound, and the encoder is strict. -/
def insertMessage (id sessionId : Uuid) (role : ChatRole) (content : Utf16)
    (citations : List (Citation Utf16)) (s : ChatStore Utf16) : Except Exc (ChatStore Utf16) :=
  match decode? content with
  | none => .error invalidText
  | some _ => ChatStore.insertMessage id sessionId role content citations s

/-- The loop of `CoreAsync` and what follows it; `answer` is what was written so far. -/
def relayAnswer (sessionId messageId : Uuid) (citations : List (Citation Utf16)) :
    Utf16 → Generator Exc Utf16 → ChatBody Utf16
  | _, .raised exc => .raised exc
  | answer, .yields delta rest =>
    .emit (.delta delta) (relayAnswer sessionId messageId citations (answer ++ delta) rest)
  | answer, .stop =>
    .commit .assistant (insertMessage messageId sessionId .assistant answer citations) fun
      | .error exc => .raised exc
      | .ok () => .emit (.citations citations) (.emit (.done messageId) .ended)

structure TurnCalls where
  openAiAnswer : OpenAiAnswer
  userMessageId : Uuid
  assistantMessageId : Uuid

def coreAsync (options : ChatOptions) (calls : TurnCalls) (sessionId : Uuid) (content : Utf16)
    (retrieved : Except Exc (List RetrievedChunk)) : ChatBody Utf16 :=
  .commit .user (insertMessage calls.userMessageId sessionId .user content []) fun
    | .error exc => .raised exc
    | .ok () =>
      match retrieved with
      | .error exc => .raised exc
      | .ok retrieved =>
        relayAnswer sessionId calls.assistantMessageId (retrieved.map citation) []
          (answerDeltas options calls.openAiAnswer content (passages retrieved))

def reportException (exc : Exc) : ChatBody Utf16 :=
  .emit (.error (truncate 300 (utf16 exc.message))) .ended

/-- `ProcessAsync`: an exception of the enumeration becomes the last event. -/
def processAsync (options : ChatOptions) (calls : TurnCalls) (sessionId : Uuid) (content : Utf16)
    (retrieved : Except Exc (List RetrievedChunk)) : ChatBody Utf16 :=
  (coreAsync options calls sessionId content retrieved).guard reportException

end DotNet

end Docsage
