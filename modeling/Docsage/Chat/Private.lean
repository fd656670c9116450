import Docsage.Api.Documents
import Docsage.Chat.Failures
import Docsage.Chat.Scope
import Docsage.Chat.Stored

/-! # Conversations are private

The chat requests of all users interleave with the streams of their turns. A user is
told, and has stored, what a run without anybody else would have told and stored.
-/

namespace Docsage
open Effects Relational Ranking Text Transition

structure ChatSessionRow extends ChatSession where
  title : String := "New conversation"
  createdAt : Timestamp
deriving DecidableEq

section

variable {τ : Type} {π : Type*}

/-- `_own_session`, and the SELECT of `FindOwnSessionAsync`. -/
def findOwnSession (chat : ChatStore τ) (user : User) (sessionId : Uuid) :
    Except HttpError ChatSession :=
  orRefuse ((chat.session? sessionId).filter (·.userId = user.id)) chatSessionNotFound

/-- The requests of the chat router. Ids are drawn by the handlers; a turn brings what it reads
beside the chat tables. -/
inductive ChatRequest (τ : Type) (π : Type*) where
  | createSession (scope : Option String) (id : Uuid)
  | listSessions
  | listMessages (sessionId : Uuid)
  | postMessage (sessionId : Uuid) (content : τ) (turn : π)

/-- What a user is told: the answer of a request, or an event of a stream. -/
inductive Told (τ : Type) where
  | session (created : Except HttpError ChatSessionRow)
  | sessions (items : List ChatSessionRow)
  | messages (items : Except HttpError (List (ChatMessage τ)))
  | posted (refused : Option HttpError)
  | event (event : ChatEvent τ)

structure ChatRouter (τ : Type) (π : Type*) where
  createSession : User → Option String → Uuid → Except HttpError ChatSession
  /-- The order of the SELECT that lists the sessions of a user. -/
  listSessions : List ChatSessionRow → List ChatSessionRow
  listMessages : ChatStore τ → Uuid → List (ChatMessage τ)
  answerId : π → Uuid
  postMessage : π → User → Uuid → τ → ChatStore τ → PostResponse τ × ChatStore τ

/-- A turn that is being answered, under the id of its answer. -/
structure OpenStream (τ : Type) where
  messageId : Uuid
  userId : Uuid
  body : ChatBody τ

/-- The chat tables, the open streams, and what was sent to whom. -/
structure Chats (τ : Type) where
  now : Timestamp
  sessions : List ChatSessionRow := []
  messages : List (ChatMessage τ) := []
  streams : List (OpenStream τ) := []
  told : List (Uuid × Told τ) := []

/-- A request is answered as the user that `get_current_user` found. -/
inductive ChatsAction (τ : Type) (π : Type*) where
  | clock (now : Timestamp)
  | request (user : User) (request : ChatRequest τ π)
  /-- A stream performs its next step. -/
  | serve (userId messageId : Uuid) (fault : Option Exc)

namespace Chats

def store (w : Chats τ) : ChatStore τ := ⟨w.now, w.sessions.map (·.toChatSession), w.messages⟩

/-- What a turn leaves in the tables: it writes messages only. -/
def keep (w : Chats τ) (chat : ChatStore τ) : Chats τ := { w with messages := chat.messages }

def tell (w : Chats τ) (userId : Uuid) (items : List (Told τ)) : Chats τ :=
  { w with told := w.told ++ items.map fun item => (userId, item) }

def ownSessions (w : Chats τ) (userId : Uuid) : List ChatSessionRow :=
  w.sessions.filter (·.userId = userId)

def insertSession (w : Chats τ) (session : ChatSession) : Chats τ :=
  { w with sessions := w.sessions ++ [{ session with createdAt := w.now }] }

def openStream (w : Chats τ) (messageId userId : Uuid) (body : ChatBody τ) : Chats τ :=
  { w with streams := w.streams ++ [⟨messageId, userId, body⟩] }

def put (w : Chats τ) (messageId : Uuid) (body : ChatBody τ) : Chats τ :=
  { w with
    streams := update OpenStream.messageId messageId (fun stream => { stream with body })
      w.streams }

def answer (router : ChatRouter τ π) (w : Chats τ) (user : User) :
    ChatRequest τ π → Option (Chats τ)
  | .createSession scope id =>
    if id ∈ w.sessions.map (·.id) then none
    else
      match router.createSession user scope id with
      | .error error => some (w.tell user.id [.session (.error error)])
      | .ok session =>
        some ((w.insertSession session).tell user.id
          [.session (.ok { session with createdAt := w.now })])
  | .listSessions =>
    some (w.tell user.id [.sessions (router.listSessions (w.ownSessions user.id))])
  | .listMessages sessionId =>
    some (w.tell user.id [.messages ((findOwnSession w.store user sessionId).map fun session =>
      router.listMessages w.store session.id)])
  | .postMessage sessionId content turn =>
    if router.answerId turn ∈ w.streams.map (·.messageId) then none
    else
      match router.postMessage turn user sessionId content w.store with
      | (.refused error, chat) => some ((w.keep chat).tell user.id [.posted (some error)])
      | (.stream body, chat) =>
        some (((w.keep chat).openStream (router.answerId turn) user.id body).tell user.id
          [.posted none])

def step (router : ChatRouter τ π) (w : Chats τ) : ChatsAction τ π → Option (Chats τ)
  | .clock now => if w.now ≤ now then some { w with now } else none
  | .request user request => w.answer router user request
  | .serve userId messageId fault =>
    (lookup OpenStream.messageId messageId w.streams).bind fun stream =>
      if stream.userId = userId then
        (stream.body.resume fault w.store).map fun r =>
          ((w.put messageId r.2.1).keep r.2.2).tell userId (r.1.map .event)
      else none

def toldTo (w : Chats τ) (userId : Uuid) : List (Told τ) :=
  w.told.filterMap fun entry => if entry.1 = userId then some entry.2 else none

def ownMessages (w : Chats τ) (userId : Uuid) : List (ChatMessage τ) :=
  w.messages.filter fun m => m.sessionId ∈ (w.ownSessions userId).map (·.id)

end Chats

def ChatsAction.concerns (userId : Uuid) : ChatsAction τ π → Bool
  | .clock _ => true
  | .request user _ => user.id = userId
  | .serve other _ _ => other = userId

end

structure TurnContext where
  index : VectorIndex
  settings : Settings
  calls : TurnCalls
  store : Store

/-- `routers/chat.py`. -/
def chatRouter (order : TimeOrder) : ChatRouter String TurnContext where
  createSession user scope id := createSession user (scope.getD "personal") id
  listSessions := (order _).sort fun row => -row.createdAt
  listMessages := ChatStore.listMessages
  answerId turn := turn.calls.assistantMessageId
  postMessage turn := postMessage turn.index turn.settings turn.calls turn.store

namespace DotNet

structure TurnContext where
  index : VectorIndex
  options : ChatOptions
  service : EmbeddingService
  calls : TurnCalls
  store : Store

def postMessage (turn : TurnContext) (user : User) (sessionId : Uuid) (content : Utf16)
    (chat : ChatStore Utf16) : PostResponse Utf16 × ChatStore Utf16 :=
  if content.all isWhiteSpaceUnit = true then (.refused ⟨422, "content is required"⟩, chat)
  else
    match findOwnSession chat user sessionId with
    | .error error => (.refused error, chat)
    | .ok session =>
      (.stream (processAsync turn.options turn.calls session.id content
        (retrieveAsync turn.index turn.options.toDocsageOptions turn.service turn.store
          session.userId session.scope content)), chat)

def chatEndpoints (order : TimeOrder) : ChatRouter Utf16 TurnContext where
  createSession := createSession
  listSessions := (order _).sort fun row => -row.createdAt
  listMessages chat sessionId := listMessages (order _) sessionId chat
  answerId turn := turn.calls.assistantMessageId
  postMessage := postMessage

end DotNet

section

variable {τ : Type} {π : Type*}

/-- A transaction that ends alike and adds the same messages to a session that is there, whatever
else the tables hold. -/
def InsertsInto (sessionId : Uuid) (t : ChatStore τ → Except Exc (ChatStore τ)) : Prop :=
  ∀ fault, ∃ r, ∃ added : Timestamp → List (ChatMessage τ),
    (∀ now, ∀ m ∈ added now, m.sessionId = sessionId) ∧
    ∀ s, (s.session? sessionId).isSome →
      attempt fault t s = (r, { s with messages := s.messages ++ added s.now })

/-- The response to a posted message, and the messages it adds. -/
structure Posting (τ : Type) where
  response : PostResponse τ
  added : Timestamp → List (ChatMessage τ) := fun _ => []

/-- The posting writes to this session only, now and in its stream. -/
structure Posting.StaysIn (posting : Posting τ) (sessionId : Uuid) : Prop where
  added : ∀ now, ∀ m ∈ posting.added now, m.sessionId = sessionId
  stream : ∀ body, posting.response = .stream body → body.Commits (InsertsInto sessionId)

structure Posting.Refuses (posting : Posting τ) : Prop where
  added : posting.added = fun _ => []
  response : ∀ body, posting.response ≠ .stream body

/-- What is answered and written depends on the user's own session only. -/
structure ChatRouter.Scoped (router : ChatRouter τ π) : Prop where
  created : ∀ {user scope id session}, router.createSession user scope id = .ok session →
    session.id = id ∧ session.userId = user.id
  listed : ∀ {chat chat' : ChatStore τ} {sessionId},
    chat.messages.filter (·.sessionId = sessionId) =
    chat'.messages.filter (·.sessionId = sessionId) →
    router.listMessages chat sessionId = router.listMessages chat' sessionId
  posted : ∀ turn user sessionId content, ∃ answer : Except HttpError ChatSession → Posting τ,
    (∀ chat, router.postMessage turn user sessionId content chat =
      ((answer (findOwnSession chat user sessionId)).response,
        { chat with
          messages := chat.messages ++
            (answer (findOwnSession chat user sessionId)).added chat.now })) ∧
    (∀ error, (answer (.error error)).Refuses) ∧
    ∀ session, (answer (.ok session)).StaysIn session.id

theorem insertsInto_insertMessage (id sessionId : Uuid) (role : ChatRole) (content : τ)
    (citations : List (Citation τ)) :
    InsertsInto sessionId (ChatStore.insertMessage id sessionId role content citations) := by
  intro fault
  cases fault with
  | some exc =>
    refine ⟨.error exc, fun _ => [], by simp, fun s _ => ?_⟩
    rw [List.append_nil]
    rfl
  | none =>
    refine ⟨.ok (), fun now => [⟨id, sessionId, role, content, citations, now⟩], by simp, ?_⟩
    intro s found
    exact attempt_none (ChatStore.insertMessage_of_session id role content citations found)

theorem insertsInto_error (sessionId : Uuid) (exc : Exc) :
    InsertsInto sessionId fun _ : ChatStore τ => .error exc := by
  intro fault
  cases fault with
  | some exc' => exact ⟨.error exc', fun _ => [], by simp, fun s _ => by rw [List.append_nil]; rfl⟩
  | none => exact ⟨.error exc, fun _ => [], by simp, fun s _ => by rw [List.append_nil]; rfl⟩

theorem findOwnSession_ok {chat : ChatStore τ} {user : User} {sessionId : Uuid}
    {session : ChatSession} (h : findOwnSession chat user sessionId = .ok session) :
    session.userId = user.id ∧ chat.session? session.id = some session := by
  unfold findOwnSession orRefuse at h
  cases hfound : (chat.session? sessionId).filter (·.userId = user.id) with
  | none =>
    rw [hfound] at h
    cases h
  | some found =>
    rw [hfound] at h
    obtain rfl := Except.ok.inj h
    obtain ⟨hsession, howner⟩ := Option.filter_eq_some_iff.mp hfound
    refine ⟨by simpa using howner, ?_⟩
    rwa [(lookup_some hsession).2]

end

theorem eventStream_commits (sessionId messageId : Uuid) (events : Generator Exc (ChatEvent String))
    (state : StreamState) :
    (eventStream sessionId messageId events state).Commits (InsertsInto sessionId) := by
  have hpersist (state : StreamState) :
      (persistAnswer sessionId messageId state).Commits (InsertsInto sessionId) := by
    unfold persistAnswer
    split
    · refine .commit (insertsInto_insertMessage _ _ _ _ _) fun r => ?_
      cases r with
      | ok => exact .ended
      | error exc => exact .raised exc
    · exact .ended
  induction events generalizing state with
  | stop => exact hpersist state
  | raised exc => exact .emit (hpersist state)
  | yields event rest ih => exact .emit (ih _)

def postingOf (turn : TurnContext) (user : User) (content : String) :
    Except HttpError ChatSession → Posting String
  | .error error => { response := .refused error }
  | .ok session =>
    if session.scope = .admin ∧ ¬ user.isAdmin then
      { response := .refused ⟨403, "Admin chat scope requires the admin role"⟩ }
    else
      match turn.calls.storeUser with
      | some _ => { response := .refused internalError }
      | none =>
        { response :=
            match retrieveUnder turn.calls.retrieval turn.index turn.settings turn.calls.embedding
              turn.store user session.scope content topKDefault with
            | .error _ => .refused internalError
            | .ok retrieved =>
              .stream (answerStream turn.settings turn.calls.answer content retrieved session.id
                turn.calls.assistantMessageId)
          added := fun now =>
            [⟨turn.calls.userMessageId, session.id, .user, content, [], now⟩] }

theorem postMessage_posting (turn : TurnContext) (user : User) (sessionId : Uuid) (content : String)
    (chat : ChatStore String) :
    let posting := postingOf turn user content (findOwnSession chat user sessionId)
    postMessage turn.index turn.settings turn.calls turn.store user sessionId content chat =
      (posting.response, { chat with messages := chat.messages ++ posting.added chat.now }) := by
  have hchecks : postChecks chat user sessionId = (findOwnSession chat user sessionId >>=
      fun session => refuse (session.scope = .admin ∧ ¬ user.isAdmin) 403
        "Admin chat scope requires the admin role" >>= fun _ => pure session) := rfl
  have hsame : ({ chat with messages := chat.messages ++ [] } : ChatStore String) = chat := by
    rw [List.append_nil]
  unfold postMessage
  rw [hchecks]
  cases hfound : findOwnSession chat user sessionId with
  | error error => exact congrArg _ hsame.symm
  | ok session =>
    have hsession : (chat.session? session.id).isSome := by rw [(findOwnSession_ok hfound).2]; rfl
    have hbind : (Except.ok session >>= fun session : ChatSession =>
        refuse (session.scope = .admin ∧ ¬ user.isAdmin) 403
          "Admin chat scope requires the admin role" >>= fun _ => pure session) =
        if session.scope = .admin ∧ ¬ user.isAdmin then
          .error ⟨403, "Admin chat scope requires the admin role"⟩ else .ok session := by
      change (refuse _ _ _ >>= fun _ => _) = _
      split_ifs with h
      · exact refuse_bind_of h
      · exact refuse_bind_of_not h
    rw [hbind, postingOf]
    split_ifs with hadmin
    · exact congrArg _ hsame.symm
    · cases hstore : turn.calls.storeUser with
      | some exc => exact congrArg _ hsame.symm
      | none =>
        simp only [attempt_none (ChatStore.insertMessage_of_session turn.calls.userMessageId .user
          content [] hsession)]
        cases retrieveUnder turn.calls.retrieval turn.index turn.settings turn.calls.embedding
          turn.store user session.scope content topKDefault <;> rfl

theorem chatRouter_scoped (order : TimeOrder) : (chatRouter order).Scoped where
  created h := by
    obtain ⟨scope, -, h⟩ := bind_ok h
    obtain ⟨-, h⟩ := refuse_bind_ok h
    obtain rfl := Except.ok.inj h
    exact ⟨rfl, rfl⟩
  listed h := congrArg _ h
  posted turn user sessionId content := by
    refine ⟨postingOf turn user content, postMessage_posting turn user sessionId content, ?_, ?_⟩
    · intro error
      exact ⟨rfl, fun body h => by cases h⟩
    · intro session
      rw [postingOf]
      split_ifs
      · exact ⟨by simp, fun body h => by cases h⟩
      · cases turn.calls.storeUser with
        | some exc => exact ⟨by simp, fun body h => by cases h⟩
        | none =>
          refine ⟨by simp, fun body h => ?_⟩
          simp only at h
          split at h
          · cases h
          · obtain rfl := PostResponse.stream.inj h
            exact eventStream_commits _ _ _ _

namespace DotNet

theorem insertsInto_insertMessage (id sessionId : Uuid) (role : ChatRole) (content : Utf16)
    (citations : List (Citation Utf16)) :
    InsertsInto sessionId (insertMessage id sessionId role content citations) := by
  cases hcontent : decode? content with
  | none =>
    have herror : insertMessage id sessionId role content citations =
        fun _ => .error invalidText := by
      funext s
      rw [insertMessage, hcontent]
    exact herror ▸ insertsInto_error sessionId invalidText
  | some text =>
    have hinsert : insertMessage id sessionId role content citations =
        ChatStore.insertMessage id sessionId role content citations := by
      funext s
      rw [insertMessage, hcontent]
    exact hinsert ▸ Docsage.insertsInto_insertMessage id sessionId role content citations

theorem relayAnswer_commits (sessionId messageId : Uuid) (citations : List (Citation Utf16))
    (answer : Utf16) (deltas : Generator Exc Utf16) :
    (relayAnswer sessionId messageId citations answer deltas).Commits (InsertsInto sessionId) := by
  induction deltas generalizing answer with
  | stop =>
    refine .commit (insertsInto_insertMessage _ _ _ _ _) fun r => ?_
    cases r with
    | ok => exact .emit (.emit .ended)
    | error exc => exact .raised exc
  | raised exc => exact .raised exc
  | yields delta rest ih => exact .emit (ih _)

theorem processAsync_commits (options : ChatOptions) (calls : TurnCalls) (sessionId : Uuid)
    (content : Utf16) (retrieved : Except Exc (List RetrievedChunk)) :
    (processAsync options calls sessionId content retrieved).Commits (InsertsInto sessionId) := by
  refine .guard (.commit (insertsInto_insertMessage _ _ _ _ _) fun r => ?_) fun exc =>
    .emit .ended
  cases r with
  | error exc => exact .raised exc
  | ok =>
    cases retrieved with
    | error exc => exact .raised exc
    | ok retrieved => exact relayAnswer_commits _ _ _ _ _

/-- `POST /api/chat/sessions/{id}/messages`, by the session that was found. -/
def postingOf (turn : TurnContext) (content : Utf16) (found : Except HttpError ChatSession) :
    Posting Utf16 :=
  if content.all isWhiteSpaceUnit = true then
    { response := .refused ⟨422, "content is required"⟩ }
  else
    match found with
    | .error error => { response := .refused error }
    | .ok session =>
      { response := .stream (processAsync turn.options turn.calls session.id content
          (retrieveAsync turn.index turn.options.toDocsageOptions turn.service turn.store
            session.userId session.scope content)) }

theorem chatEndpoints_scoped (order : TimeOrder) : (chatEndpoints order).Scoped where
  created h := by
    obtain ⟨scope, -, h⟩ := bind_ok h
    obtain ⟨-, h⟩ := refuse_bind_ok h
    obtain rfl := Except.ok.inj h
    exact ⟨rfl, rfl⟩
  listed h := congrArg _ h
  posted turn user sessionId content := by
    refine ⟨postingOf turn content, fun chat => ?_, fun error => ?_, fun session => ?_⟩
    · have hsame : ({ chat with messages := chat.messages ++ [] } : ChatStore Utf16) = chat := by
        rw [List.append_nil]
      simp only [chatEndpoints, postMessage, postingOf]
      split_ifs
      · exact congrArg _ hsame.symm
      · cases findOwnSession chat user sessionId <;> exact congrArg _ hsame.symm
    · unfold postingOf
      split_ifs
      · exact ⟨rfl, fun body h => by cases h⟩
      · exact ⟨rfl, fun body h => by cases h⟩
    · unfold postingOf
      split_ifs
      · exact ⟨by simp, fun body h => by cases h⟩
      · refine ⟨by simp, fun body h => ?_⟩
        obtain rfl := PostResponse.stream.inj h
        exact processAsync_commits _ _ _ _ _

end DotNet

namespace Chats

section

variable {τ : Type} {π : Type*} {w p : Chats τ} {u v : Uuid}

/-- What every step keeps: ids are keys, messages have their session, a stream writes to a session
of its user. -/
structure Sound (w : Chats τ) : Prop where
  sessions : (w.sessions.map (·.id)).Nodup
  linked : ∀ m ∈ w.messages, m.sessionId ∈ w.sessions.map (·.id)
  streams : (w.streams.map (·.messageId)).Nodup
  bodies : ∀ s ∈ w.streams, ∃ row ∈ w.ownSessions s.userId, s.body.Commits (InsertsInto row.id)

/-- The run `p` without the others beside the run `w`, as the user `u` sees them. -/
structure Purged (u : Uuid) (w p : Chats τ) : Prop where
  sound : w.Sound
  sound' : p.Sound
  now : p.now = w.now
  ownSessions : p.ownSessions u = w.ownSessions u
  ownMessages : p.ownMessages u = w.ownMessages u
  streams : p.streams = w.streams.filter (·.userId = u)
  told : p.toldTo u = w.toldTo u
  known : p.sessions ⊆ w.sessions

def addMessages (w : Chats τ) (added : List (ChatMessage τ)) : Chats τ :=
  { w with messages := w.messages ++ added }

@[simp] theorem mem_ownSessions {row : ChatSessionRow} :
    row ∈ w.ownSessions u ↔ row ∈ w.sessions ∧ row.userId = u := by
  simp [Chats.ownSessions]

theorem Sound.owner_unique (sound : w.Sound) {row row' : ChatSessionRow} (h : row ∈ w.ownSessions u)
    (h' : row' ∈ w.ownSessions v) (same : row.id = row'.id) : u = v := by
  obtain ⟨hmem, rfl⟩ := mem_ownSessions.mp h
  obtain ⟨hmem', rfl⟩ := mem_ownSessions.mp h'
  rw [List.inj_on_of_nodup_map sound.sessions hmem hmem' same]

theorem Sound.findOwnSession (sound : w.Sound) (user : User) (sessionId : Uuid) :
    findOwnSession w.store user sessionId =
      orRefuse ((lookup (fun row : ChatSessionRow => row.id) sessionId
        (w.ownSessions user.id)).map (·.toChatSession)) chatSessionNotFound := by
  have hrows : w.store.session? sessionId = (lookup (fun row : ChatSessionRow => row.id) sessionId
      w.sessions).map (·.toChatSession) := by
    simp only [Chats.store, ChatStore.session?, lookup, List.find?_map, Function.comp_def]
  rw [Docsage.findOwnSession, hrows, Chats.ownSessions, lookup_filter sound.sessions,
    Option.filter_map]
  rfl

theorem Sound.found_own (sound : w.Sound) {user : User} {sessionId : Uuid} {session : ChatSession}
    (h : Docsage.findOwnSession w.store user sessionId = .ok session) :
    ∃ row ∈ w.ownSessions user.id, row.id = session.id := by
  rw [sound.findOwnSession] at h
  cases hrow : lookup (fun row : ChatSessionRow => row.id) sessionId (w.ownSessions user.id) with
  | none =>
    rw [hrow] at h
    cases h
  | some row =>
    rw [hrow] at h
    obtain rfl := Except.ok.inj h
    exact ⟨row, (lookup_some hrow).1, rfl⟩

theorem session?_isSome {row : ChatSessionRow} (h : row ∈ w.sessions) :
    (w.store.session? row.id).isSome := by
  cases hfound : w.store.session? row.id with
  | some session => rfl
  | none => exact absurd rfl (lookup_none.mp hfound row.toChatSession (List.mem_map_of_mem h))

theorem Purged.findOwnSession (purged : Purged u w p) {user : User} (huser : user.id = u)
    (sessionId : Uuid) :
    Docsage.findOwnSession p.store user sessionId =
      Docsage.findOwnSession w.store user sessionId := by
  rw [purged.sound.findOwnSession, purged.sound'.findOwnSession, huser, purged.ownSessions]

theorem transcript_eq {row : ChatSessionRow} (h : row ∈ w.ownSessions u) :
    w.messages.filter (·.sessionId = row.id) =
      (w.ownMessages u).filter (·.sessionId = row.id) := by
  rw [Chats.ownMessages, List.filter_filter]
  refine List.filter_congr fun m _ => ?_
  by_cases hm : m.sessionId = row.id
  · have hmem : row.id ∈ (w.ownSessions u).map (·.id) := List.mem_map_of_mem h
    simp [hm, hmem]
  · simp [hm]

theorem Purged.transcript (purged : Purged u w p) {row : ChatSessionRow}
    (h : row ∈ w.ownSessions u) :
    p.messages.filter (·.sessionId = row.id) = w.messages.filter (·.sessionId = row.id) := by
  rw [transcript_eq h, transcript_eq (purged.ownSessions ▸ h), purged.ownMessages]

theorem toldTo_tell (w : Chats τ) (userId : Uuid) (items : List (Told τ)) :
    (w.tell userId items).toldTo u = w.toldTo u ++ if userId = u then items else [] := by
  have hitems : (items.map fun item => (userId, item)).filterMap
      (fun entry => if entry.1 = u then some entry.2 else none) =
      if userId = u then items else [] := by
    rw [List.filterMap_map]
    split_ifs with h <;> simp [h]
  simp only [Chats.toldTo, Chats.tell, List.filterMap_append, hitems]

theorem Sound.tell (sound : w.Sound) (userId : Uuid) (items : List (Told τ)) :
    (w.tell userId items).Sound :=
  ⟨sound.sessions, sound.linked, sound.streams, sound.bodies⟩

theorem Purged.tell (purged : Purged u w p) (items : List (Told τ)) :
    Purged u (w.tell u items) (p.tell u items) where
  sound := purged.sound.tell u items
  sound' := purged.sound'.tell u items
  now := purged.now
  ownSessions := purged.ownSessions
  ownMessages := purged.ownMessages
  streams := purged.streams
  told := by rw [toldTo_tell, toldTo_tell, purged.told]
  known := purged.known

theorem Purged.tell_ne (purged : Purged u w p) (hv : v ≠ u) (items : List (Told τ)) :
    Purged u (w.tell v items) p where
  sound := purged.sound.tell v items
  sound' := purged.sound'
  now := purged.now
  ownSessions := purged.ownSessions
  ownMessages := purged.ownMessages
  streams := purged.streams
  told := by rw [toldTo_tell, if_neg hv, List.append_nil, purged.told]
  known := purged.known

section

variable {added : List (ChatMessage τ)} {row : ChatSessionRow}

theorem ownMessages_addMessages (h : row ∈ w.ownSessions u)
    (inside : ∀ m ∈ added, m.sessionId = row.id) :
    (w.addMessages added).ownMessages u = w.ownMessages u ++ added := by
  have hmem : row.id ∈ (w.ownSessions u).map (·.id) := List.mem_map_of_mem h
  have hkept : added.filter (fun m => m.sessionId ∈ (w.ownSessions u).map (·.id)) = added := by
    refine List.filter_eq_self.mpr fun m hm => ?_
    rw [inside m hm]
    exact decide_eq_true hmem
  exact (List.filter_append ..).trans (congrArg _ hkept)

theorem Sound.ownMessages_addMessages_ne (sound : w.Sound) (h : row ∈ w.ownSessions v) (hv : v ≠ u)
    (inside : ∀ m ∈ added, m.sessionId = row.id) :
    (w.addMessages added).ownMessages u = w.ownMessages u := by
  have hdropped : added.filter (fun m => m.sessionId ∈ (w.ownSessions u).map (·.id)) = [] := by
    refine List.filter_eq_nil_iff.mpr fun m hm hown => ?_
    obtain ⟨row', hrow', hid⟩ := List.mem_map.mp (of_decide_eq_true hown)
    rw [inside m hm] at hid
    exact hv (sound.owner_unique h hrow' hid.symm)
  exact (List.filter_append ..).trans ((congrArg _ hdropped).trans (List.append_nil _))

theorem Sound.addMessages (sound : w.Sound) (h : row ∈ w.sessions)
    (inside : ∀ m ∈ added, m.sessionId = row.id) : (w.addMessages added).Sound where
  sessions := sound.sessions
  linked m hm := by
    rcases List.mem_append.mp hm with hm | hm
    · exact sound.linked m hm
    · rw [inside m hm]
      exact List.mem_map_of_mem h
  streams := sound.streams
  bodies := sound.bodies

theorem Purged.addMessages (purged : Purged u w p) (h : row ∈ w.ownSessions u)
    (inside : ∀ m ∈ added, m.sessionId = row.id) :
    Purged u (w.addMessages added) (p.addMessages added) where
  sound := purged.sound.addMessages (mem_ownSessions.mp h).1 inside
  sound' := purged.sound'.addMessages (mem_ownSessions.mp (purged.ownSessions ▸ h)).1 inside
  now := purged.now
  ownSessions := purged.ownSessions
  ownMessages := by
    rw [ownMessages_addMessages h inside,
      ownMessages_addMessages (purged.ownSessions ▸ h) inside, purged.ownMessages]
  streams := purged.streams
  told := purged.told
  known := purged.known

theorem Purged.addMessages_ne (purged : Purged u w p) (h : row ∈ w.ownSessions v) (hv : v ≠ u)
    (inside : ∀ m ∈ added, m.sessionId = row.id) : Purged u (w.addMessages added) p where
  sound := purged.sound.addMessages (mem_ownSessions.mp h).1 inside
  sound' := purged.sound'
  now := purged.now
  ownSessions := purged.ownSessions
  ownMessages := by
    rw [purged.sound.ownMessages_addMessages_ne h hv inside, purged.ownMessages]
  streams := purged.streams
  told := purged.told
  known := purged.known

end

section

variable {session : ChatSession}

theorem ownSessions_insertSession (w : Chats τ) (session : ChatSession) :
    (w.insertSession session).ownSessions u = w.ownSessions u ++
      if session.userId = u then [{ session with createdAt := w.now }] else [] := by
  refine (List.filter_append ..).trans (congrArg _ ?_)
  split_ifs with h <;> simp [h]

theorem Sound.insertSession (sound : w.Sound) (fresh : session.id ∉ w.sessions.map (·.id)) :
    (w.insertSession session).Sound where
  sessions := by
    have hids : (w.insertSession session).sessions.map (·.id) =
        w.sessions.map (·.id) ++ [session.id] := List.map_append
    rw [hids]
    exact sound.sessions.append (List.nodup_singleton _) (by simpa using fresh)
  linked m hm := by
    have hlinked := sound.linked m hm
    exact List.map_append ▸ List.mem_append_left _ hlinked
  streams := sound.streams
  bodies s hs := by
    obtain ⟨row, hrow, hbody⟩ := sound.bodies s hs
    refine ⟨row, ?_, hbody⟩
    rw [ownSessions_insertSession]
    exact List.mem_append_left _ hrow

theorem Sound.ownMessages_insertSession (sound : w.Sound)
    (fresh : session.id ∉ w.sessions.map (·.id)) :
    (w.insertSession session).ownMessages u = w.ownMessages u := by
  refine List.filter_congr fun m hm => ?_
  have hne : m.sessionId ≠ session.id := fun h => fresh (h ▸ sound.linked m hm)
  rw [ownSessions_insertSession]
  split_ifs <;> simp [hne]

theorem Purged.insertSession (purged : Purged u w p) (fresh : session.id ∉ w.sessions.map (·.id)) :
    Purged u (w.insertSession session) (p.insertSession session) where
  sound := purged.sound.insertSession fresh
  sound' := purged.sound'.insertSession fun h => fresh (List.map_subset _ purged.known h)
  now := purged.now
  ownSessions := by
    rw [ownSessions_insertSession, ownSessions_insertSession, purged.ownSessions, purged.now]
  ownMessages := by
    rw [purged.sound.ownMessages_insertSession fresh, purged.sound'.ownMessages_insertSession
      fun h => fresh (List.map_subset _ purged.known h), purged.ownMessages]
  streams := purged.streams
  told := purged.told
  known := by
    rw [Chats.insertSession, Chats.insertSession, purged.now]
    intro row hrow
    exact (List.mem_append.mp hrow).elim (fun h => List.mem_append_left _ (purged.known h))
      (List.mem_append_right _)

theorem Purged.insertSession_ne (purged : Purged u w p)
    (fresh : session.id ∉ w.sessions.map (·.id)) (hv : session.userId ≠ u) :
    Purged u (w.insertSession session) p where
  sound := purged.sound.insertSession fresh
  sound' := purged.sound'
  now := purged.now
  ownSessions := by
    rw [ownSessions_insertSession, if_neg hv, List.append_nil, purged.ownSessions]
  ownMessages := by rw [purged.sound.ownMessages_insertSession fresh, purged.ownMessages]
  streams := purged.streams
  told := purged.told
  known row hrow := List.mem_append_left _ (purged.known hrow)

end

section

variable {messageId : Uuid} {body : ChatBody τ} {row : ChatSessionRow} {stream : OpenStream τ}

theorem Sound.openStream (sound : w.Sound) (fresh : messageId ∉ w.streams.map (·.messageId))
    (h : row ∈ w.ownSessions v) (commits : body.Commits (InsertsInto row.id)) :
    (w.openStream messageId v body).Sound where
  sessions := sound.sessions
  linked := sound.linked
  streams := by
    have hids : (w.openStream messageId v body).streams.map (·.messageId) =
        w.streams.map (·.messageId) ++ [messageId] := List.map_append
    rw [hids]
    exact sound.streams.append (List.nodup_singleton _) (by simpa using fresh)
  bodies s hs := by
    rcases List.mem_append.mp hs with hs | hs
    · exact sound.bodies s hs
    · obtain rfl := List.mem_singleton.mp hs
      exact ⟨row, h, commits⟩

theorem Purged.openStream (purged : Purged u w p)
    (fresh : messageId ∉ w.streams.map (·.messageId)) (h : row ∈ w.ownSessions u)
    (commits : body.Commits (InsertsInto row.id)) :
    Purged u (w.openStream messageId u body) (p.openStream messageId u body) where
  sound := purged.sound.openStream fresh h commits
  sound' := by
    refine purged.sound'.openStream (fun hp => fresh ?_) (purged.ownSessions ▸ h) commits
    rw [purged.streams] at hp
    exact List.map_subset _ (List.filter_subset_self _) hp
  now := purged.now
  ownSessions := purged.ownSessions
  ownMessages := purged.ownMessages
  streams := by
    have hown : ([⟨messageId, u, body⟩] : List (OpenStream τ)).filter (·.userId = u) =
        [⟨messageId, u, body⟩] := by simp
    rw [Chats.openStream, Chats.openStream, List.filter_append, hown, purged.streams]
  told := purged.told
  known := purged.known

theorem Purged.openStream_ne (purged : Purged u w p)
    (fresh : messageId ∉ w.streams.map (·.messageId)) (h : row ∈ w.ownSessions v) (hv : v ≠ u)
    (commits : body.Commits (InsertsInto row.id)) : Purged u (w.openStream messageId v body) p where
  sound := purged.sound.openStream fresh h commits
  sound' := purged.sound'
  now := purged.now
  ownSessions := purged.ownSessions
  ownMessages := purged.ownMessages
  streams := by
    have hother : ([⟨messageId, v, body⟩] : List (OpenStream τ)).filter (·.userId = u) = [] := by
      simp [hv]
    rw [Chats.openStream, List.filter_append, hother, List.append_nil, purged.streams]
  told := purged.told
  known := purged.known

theorem Sound.put (sound : w.Sound)
    (found : lookup OpenStream.messageId messageId w.streams = some stream)
    (h : row ∈ w.ownSessions stream.userId) (commits : body.Commits (InsertsInto row.id)) :
    (w.put messageId body).Sound where
  sessions := sound.sessions
  linked := sound.linked
  streams := by
    have hids : (w.put messageId body).streams.map (·.messageId) = w.streams.map (·.messageId) :=
      map_key_update fun _ => rfl
    rw [hids]
    exact sound.streams
  bodies s hs := by
    obtain ⟨s₀, hs₀, rfl⟩ := mem_update.mp hs
    split_ifs with hid
    · obtain ⟨hstream, hkey⟩ := lookup_some found
      rw [List.inj_on_of_nodup_map sound.streams hs₀ hstream (hid.trans hkey.symm)]
      exact ⟨row, h, commits⟩
    · exact sound.bodies s₀ hs₀

/-- A stream of the user is open in the run without the others as well. -/
theorem Purged.found (purged : Purged u w p)
    (found : lookup OpenStream.messageId messageId w.streams = some stream)
    (huser : stream.userId = u) :
    lookup OpenStream.messageId messageId p.streams = some stream := by
  rw [purged.streams, lookup_filter purged.sound.streams, found]
  simp [huser]

theorem Purged.put (purged : Purged u w p)
    (found : lookup OpenStream.messageId messageId w.streams = some stream)
    (huser : stream.userId = u) (h : row ∈ w.ownSessions u)
    (commits : body.Commits (InsertsInto row.id)) :
    Purged u (w.put messageId body) (p.put messageId body) where
  sound := purged.sound.put found (huser ▸ h) commits
  sound' := by
    have hrow : row ∈ p.ownSessions stream.userId := by
      rw [huser, purged.ownSessions]
      exact h
    exact purged.sound'.put (purged.found found huser) hrow commits
  now := purged.now
  ownSessions := purged.ownSessions
  ownMessages := purged.ownMessages
  streams := by
    have hfilter : (w.put messageId body).streams.filter (·.userId = u) =
        update OpenStream.messageId messageId (fun stream => { stream with body })
          (w.streams.filter (·.userId = u)) := filter_update fun _ => rfl
    rw [hfilter, ← purged.streams]
    rfl
  told := purged.told
  known := purged.known

theorem Purged.put_ne (purged : Purged u w p)
    (found : lookup OpenStream.messageId messageId w.streams = some stream)
    (hv : stream.userId ≠ u) (h : row ∈ w.ownSessions stream.userId)
    (commits : body.Commits (InsertsInto row.id)) : Purged u (w.put messageId body) p where
  sound := purged.sound.put found h commits
  sound' := purged.sound'
  now := purged.now
  ownSessions := purged.ownSessions
  ownMessages := purged.ownMessages
  streams := by
    have hothers : ∀ s ∈ w.streams.filter (·.userId = u), s.messageId ≠ messageId := by
      intro s hs hid
      obtain ⟨hmem, howner⟩ := List.mem_filter.mp hs
      obtain ⟨hstream, hkey⟩ := lookup_some found
      rw [List.inj_on_of_nodup_map purged.sound.streams hmem hstream
          (hid.trans hkey.symm)] at howner
      exact hv (of_decide_eq_true howner)
    have hfilter : (w.put messageId body).streams.filter (·.userId = u) =
        update OpenStream.messageId messageId (fun stream => { stream with body })
          (w.streams.filter (·.userId = u)) := filter_update fun _ => rfl
    rw [hfilter, update_eq_self hothers, purged.streams]
  told := purged.told
  known := purged.known

end

/-- The next step of a stream that keeps to a session is the same in all tables that have it. -/
theorem resume_of_commits {sessionId : Uuid} {body : ChatBody τ}
    (commits : body.Commits (InsertsInto sessionId)) (fault : Option Exc) :
    (∀ s, body.resume fault s = none) ∨
      ∃ sent rest, ∃ added : Timestamp → List (ChatMessage τ),
        rest.Commits (InsertsInto sessionId) ∧
        (∀ now, ∀ m ∈ added now, m.sessionId = sessionId) ∧
        ∀ s, (s.session? sessionId).isSome →
          body.resume fault s =
            some (sent, rest, { s with messages := s.messages ++ added s.now }) := by
  cases commits with
  | ended => exact .inl fun _ => rfl
  | raised exc => exact .inl fun _ => rfl
  | @emit event rest later =>
    refine .inr ⟨[event], rest, fun _ => [], later, by simp, fun s _ => ?_⟩
    rw [List.append_nil]
    rfl
  | commit first later =>
    obtain ⟨r, added, hadded, hattempt⟩ := first fault
    refine .inr ⟨[], _, added, later r, hadded, fun s found => ?_⟩
    rw [Body.resume, hattempt s found]

variable {router : ChatRouter τ π} {w' : Chats τ} {posting : Posting τ}

/-- A posted message is refused, or stays in a session of its user. -/
def Posts (w : Chats τ) (userId : Uuid) (posting : Posting τ) : Prop :=
  posting.Refuses ∨ ∃ row ∈ w.ownSessions userId, posting.StaysIn row.id

theorem Purged.post (purged : Purged u w p) (posts : w.Posts u posting) :
    Purged u (w.addMessages (posting.added w.now)) (p.addMessages (posting.added p.now)) := by
  rw [purged.now]
  rcases posts with refuses | ⟨row, hrow, stays⟩
  · simpa [refuses.added, Chats.addMessages] using purged
  · exact purged.addMessages hrow (stays.added _)

theorem Purged.post_ne (purged : Purged u w p) (hv : v ≠ u) (posts : w.Posts v posting) :
    Purged u (w.addMessages (posting.added w.now)) p := by
  rcases posts with refuses | ⟨row, hrow, stays⟩
  · simpa [refuses.added, Chats.addMessages] using purged
  · exact purged.addMessages_ne hrow hv (stays.added _)

/-- What a posted message does is decided by the session that is found. -/
theorem postMessage_posts (lawful : router.Scoped) (turn : π) (user : User) (sessionId : Uuid)
    (content : τ) :
    ∃ answer : Except HttpError ChatSession → Posting τ, ∀ w : Chats τ, w.Sound →
      w.Posts user.id (answer (Docsage.findOwnSession w.store user sessionId)) ∧
      (router.postMessage turn user sessionId content w.store).1 =
        (answer (Docsage.findOwnSession w.store user sessionId)).response ∧
      w.keep (router.postMessage turn user sessionId content w.store).2 =
        w.addMessages ((answer (Docsage.findOwnSession w.store user sessionId)).added w.now) := by
  obtain ⟨answer, hpost, hrefuses, hstays⟩ := lawful.posted turn user sessionId content
  refine ⟨answer, fun w sound => ?_⟩
  rw [hpost]
  refine ⟨?_, rfl, rfl⟩
  cases hfound : Docsage.findOwnSession w.store user sessionId with
  | error error => exact .inl (hrefuses error)
  | ok session =>
    obtain ⟨row, hrow, hid⟩ := sound.found_own hfound
    exact .inr ⟨row, hrow, hid ▸ hstays session⟩

theorem Purged.answer (purged : Purged u w p) (lawful : router.Scoped) {user : User}
    (huser : user.id = u) {request : ChatRequest τ π} (h : w.answer router user request = some w') :
    ∃ p', p.answer router user request = some p' ∧ Purged u w' p' := by
  subst huser
  cases request with
  | createSession scope id =>
    obtain ⟨hfresh, h⟩ := Option.ite_none_left_eq_some.mp h
    have hfresh' : id ∉ p.sessions.map (·.id) := fun hp =>
      hfresh (List.map_subset _ purged.known hp)
    simp only [Chats.answer, if_neg hfresh']
    cases hcreated : router.createSession user scope id with
    | error error =>
      rw [hcreated] at h
      obtain rfl := Option.some.inj h
      exact ⟨_, rfl, purged.tell _⟩
    | ok session =>
      rw [hcreated] at h
      obtain rfl := Option.some.inj h
      obtain ⟨rfl, howner⟩ := lawful.created hcreated
      refine ⟨_, rfl, ?_⟩
      rw [purged.now]
      exact (purged.insertSession hfresh).tell _
  | listSessions =>
    obtain rfl := Option.some.inj h
    refine ⟨_, rfl, ?_⟩
    rw [purged.ownSessions]
    exact purged.tell _
  | listMessages sessionId =>
    obtain rfl := Option.some.inj h
    refine ⟨_, rfl, ?_⟩
    have hsame : (Docsage.findOwnSession p.store user sessionId).map (fun session =>
        router.listMessages p.store session.id) =
        (Docsage.findOwnSession w.store user sessionId).map fun session =>
          router.listMessages w.store session.id := by
      rw [purged.findOwnSession rfl]
      cases hfound : Docsage.findOwnSession w.store user sessionId with
      | error error => rfl
      | ok session =>
        obtain ⟨row, hrow, hid⟩ := purged.sound.found_own hfound
        have htranscript := purged.transcript hrow
        rw [hid] at htranscript
        exact congrArg Except.ok (lawful.listed htranscript)
    rw [hsame]
    exact purged.tell _
  | postMessage sessionId content turn =>
    obtain ⟨hfresh, h⟩ := Option.ite_none_left_eq_some.mp h
    have hfresh' : router.answerId turn ∉ p.streams.map (·.messageId) := by
      rw [purged.streams]
      exact fun hp => hfresh (List.map_subset _ (List.filter_subset_self _) hp)
    obtain ⟨answer, hposts⟩ := postMessage_posts lawful turn user sessionId content
    obtain ⟨posts, hresponse, hkeep⟩ := hposts w purged.sound
    obtain ⟨-, hresponse', hkeep'⟩ := hposts p purged.sound'
    rw [purged.findOwnSession rfl] at hresponse' hkeep'
    have purged₁ := purged.post posts
    rw [← hkeep, ← hkeep'] at purged₁
    simp only [Chats.answer, if_neg hfresh']
    generalize router.postMessage turn user sessionId content w.store = posted at *
    generalize router.postMessage turn user sessionId content p.store = posted' at *
    obtain ⟨response, chat⟩ := posted
    obtain ⟨response', chat'⟩ := posted'
    simp only at hresponse hresponse' purged₁
    obtain rfl : response' = response := hresponse'.trans hresponse.symm
    cases response' with
    | refused error =>
      obtain rfl := Option.some.inj h
      exact ⟨_, rfl, purged₁.tell _⟩
    | stream body =>
      obtain rfl := Option.some.inj h
      refine ⟨_, rfl, ?_⟩
      rcases posts with refuses | ⟨row, hrow, stays⟩
      · exact absurd hresponse.symm (refuses.response body)
      · exact (purged₁.openStream hfresh hrow (stays.stream body hresponse.symm)).tell _

theorem Purged.answer_ne (purged : Purged u w p) (lawful : router.Scoped) {user : User}
    (huser : user.id ≠ u) {request : ChatRequest τ π}
    (h : w.answer router user request = some w') : Purged u w' p := by
  cases request with
  | createSession scope id =>
    obtain ⟨hfresh, h⟩ := Option.ite_none_left_eq_some.mp h
    cases hcreated : router.createSession user scope id with
    | error error =>
      rw [hcreated] at h
      obtain rfl := Option.some.inj h
      exact purged.tell_ne huser _
    | ok session =>
      rw [hcreated] at h
      obtain rfl := Option.some.inj h
      obtain ⟨rfl, howner⟩ := lawful.created hcreated
      exact (purged.insertSession_ne hfresh (howner.trans_ne huser)).tell_ne huser _
  | listSessions | listMessages sessionId =>
    obtain rfl := Option.some.inj h
    exact purged.tell_ne huser _
  | postMessage sessionId content turn =>
    obtain ⟨hfresh, h⟩ := Option.ite_none_left_eq_some.mp h
    obtain ⟨answer, hposts⟩ := postMessage_posts lawful turn user sessionId content
    obtain ⟨posts, hresponse, hkeep⟩ := hposts w purged.sound
    have purged₁ := purged.post_ne huser posts
    rw [← hkeep] at purged₁
    generalize router.postMessage turn user sessionId content w.store = posted at *
    obtain ⟨response, chat⟩ := posted
    cases response with
    | refused error =>
      obtain rfl := Option.some.inj h
      exact purged₁.tell_ne huser _
    | stream body =>
      obtain rfl := Option.some.inj h
      rcases posts with refuses | ⟨row, hrow, stays⟩
      · exact absurd hresponse.symm (refuses.response body)
      · exact (purged₁.openStream_ne hfresh hrow huser
          (stays.stream body hresponse.symm)).tell_ne huser _

/-- A step that concerns the user can be taken without the others, with the same effect on them. -/
theorem Purged.step (purged : Purged u w p) (lawful : router.Scoped) {a : ChatsAction τ π}
    (concerns : a.concerns u = true) (h : w.step router a = some w') :
    ∃ p', p.step router a = some p' ∧ Purged u w' p' := by
  cases a with
  | clock now =>
    obtain ⟨hlater, h⟩ := Option.ite_none_right_eq_some.mp h
    obtain rfl := Option.some.inj h
    refine ⟨_, if_pos (purged.now ▸ hlater), ?_⟩
    exact ⟨⟨purged.sound.sessions, purged.sound.linked, purged.sound.streams, purged.sound.bodies⟩,
      ⟨purged.sound'.sessions, purged.sound'.linked, purged.sound'.streams, purged.sound'.bodies⟩,
      rfl, purged.ownSessions, purged.ownMessages, purged.streams, purged.told, purged.known⟩
  | request user request => exact purged.answer lawful (of_decide_eq_true concerns) h
  | serve userId messageId fault =>
    obtain rfl : userId = u := of_decide_eq_true concerns
    obtain ⟨stream, hfound, h⟩ := Option.bind_eq_some_iff.mp h
    obtain ⟨howner, h⟩ := Option.ite_none_right_eq_some.mp h
    obtain ⟨⟨sent, rest, chat⟩, hresume, rfl⟩ := Option.map_eq_some_iff.mp h
    obtain ⟨row, hrow, hcommits⟩ := purged.sound.bodies stream (lookup_some hfound).1
    rw [howner] at hrow
    rcases resume_of_commits hcommits fault with hnone | ⟨sent', rest', added, hrest, hadded, hstep⟩
    · rw [hnone] at hresume
      cases hresume
    · have hrow' : row ∈ p.ownSessions userId := purged.ownSessions ▸ hrow
      have hstep' := hstep _ (session?_isSome (mem_ownSessions.mp hrow').1)
      rw [hstep _ (session?_isSome (mem_ownSessions.mp hrow).1)] at hresume
      obtain ⟨rfl, rfl, rfl⟩ := by simpa using hresume
      have hput := purged.put hfound howner hrow hrest
      refine ⟨((p.put messageId rest').addMessages (added p.now)).tell userId (sent'.map .event),
        ?_, ?_⟩
      · simp only [Chats.step, purged.found hfound howner, Option.bind_some, if_pos howner, hstep',
          Option.map_some]
        rfl
      · rw [purged.now]
        exact (hput.addMessages hrow (hadded w.now)).tell _

theorem Purged.step_ne (purged : Purged u w p) (lawful : router.Scoped) {a : ChatsAction τ π}
    (concerns : a.concerns u = false) (h : w.step router a = some w') : Purged u w' p := by
  cases a with
  | clock now => cases concerns
  | request user request => exact purged.answer_ne lawful (of_decide_eq_false concerns) h
  | serve userId messageId fault =>
    obtain ⟨stream, hfound, h⟩ := Option.bind_eq_some_iff.mp h
    obtain ⟨rfl, h⟩ := Option.ite_none_right_eq_some.mp h
    obtain ⟨⟨sent, rest, chat⟩, hresume, rfl⟩ := Option.map_eq_some_iff.mp h
    have hv : stream.userId ≠ u := of_decide_eq_false concerns
    obtain ⟨row, hrow, hcommits⟩ := purged.sound.bodies stream (lookup_some hfound).1
    rcases resume_of_commits hcommits fault with hnone | ⟨sent', rest', added, hrest, hadded, hstep⟩
    · rw [hnone] at hresume
      cases hresume
    · rw [hstep _ (session?_isSome (mem_ownSessions.mp hrow).1)] at hresume
      obtain ⟨rfl, rfl, rfl⟩ := by simpa using hresume
      have hput := purged.put_ne hfound hv hrow hrest
      exact (hput.addMessages_ne hrow hv (hadded w.now)).tell_ne hv _

/-- Tables with keys, and no turn under way. -/
structure Initial (w : Chats τ) : Prop where
  sessions : (w.sessions.map (·.id)).Nodup
  linked : ∀ m ∈ w.messages, m.sessionId ∈ w.sessions.map (·.id)
  streams : w.streams = []

theorem Initial.purged (initial : w.Initial) : Purged u w w := by
  have hsound : w.Sound := by
    refine ⟨initial.sessions, initial.linked, ?_, ?_⟩
    · rw [initial.streams]
      exact List.nodup_nil
    · rw [initial.streams]
      exact List.forall_mem_nil _
  exact ⟨hsound, hsound, rfl, rfl, rfl, by rw [initial.streams]; rfl, rfl, List.Subset.refl _⟩

/-- A run, and the run of what concerns the user only: the user is told the same, and the same is
stored for them. -/
def PrivateTo (router : ChatRouter τ π) (u : Uuid) (w : Chats τ)
    (actions : List (ChatsAction τ π)) :
    Prop :=
  ∀ w', execute (step router) w actions = some w' →
    ∃ p', execute (step router) w (actions.filter (·.concerns u)) = some p' ∧
      p'.toldTo u = w'.toldTo u ∧ p'.ownSessions u = w'.ownSessions u ∧
      p'.ownMessages u = w'.ownMessages u

theorem privateTo (lawful : router.Scoped) (initial : w.Initial) (u : Uuid)
    (actions : List (ChatsAction τ π)) : PrivateTo router u w actions := by
  intro w' done
  have matched (w p : Chats τ) (a : ChatsAction τ π) (w' : Chats τ) (purged : Purged u w p)
      (kept : a.concerns u = true) (taken : step router w a = some w') :
      ∃ p', step router p a = some p' ∧ Purged u w' p' := purged.step lawful kept taken
  have skipped (w p : Chats τ) (a : ChatsAction τ π) (w' : Chats τ) (purged : Purged u w p)
      (dropped : a.concerns u = false) (taken : step router w a = some w') : Purged u w' p :=
    purged.step_ne lawful dropped taken
  obtain ⟨p', hdone, purged⟩ := execute_filter matched skipped initial.purged done
  exact ⟨p', hdone, purged.told, purged.ownSessions, purged.ownMessages⟩

end

end Chats

/-- In both backends a user is told, and has stored, in every run what the run without anybody
else's requests and streams would have told and stored. -/
theorem chats_private (order : TimeOrder) (u : Uuid) :
    (∀ w : Chats String, w.Initial → ∀ actions, Chats.PrivateTo (chatRouter order) u w actions) ∧
      ∀ w : Chats Utf16, w.Initial →
        ∀ actions, Chats.PrivateTo (DotNet.chatEndpoints order) u w actions :=
  ⟨fun _ initial => Chats.privateTo (chatRouter_scoped order) initial u,
    fun _ initial => Chats.privateTo (DotNet.chatEndpoints_scoped order) initial u⟩

namespace Neighbours

/-! Ada and Ben chat at the same time, and Ben tries to post to Ada's conversation. -/

def ada : User := ⟨1, "ada@agency.test", "", "Ada", .user⟩
def ben : User := ⟨2, "ben@agency.test", "", "Ben", .user⟩

def turn (userMessageId assistantMessageId : Uuid) : TurnContext where
  index := Mixed.index
  settings := {}
  calls := { Conversation.calls with userMessageId, assistantMessageId }
  store := { now := 0, users := [ada, ben] }

def actions : List (ChatsAction String TurnContext) :=
  [.request ada (.createSession none 1), .request ben (.createSession none 2),
    .request ada (.postMessage 1 "telework?" (turn 11 12)),
    .request ben (.postMessage 1 "and mine?" (turn 21 22)),
    .request ben (.postMessage 2 "and mine?" (turn 23 24)),
    .serve 1 12 none, .serve 2 24 none, .serve 1 12 none, .serve 2 24 none, .serve 1 12 none,
    .clock 5, .serve 2 24 none, .serve 1 12 none, .serve 1 12 none,
    .request ben (.listMessages 1), .request ada (.listMessages 1), .request ada .listSessions]

def start : Chats String := { now := 0 }

def isRefusal : Told String → Bool
  | .posted (some _) => true
  | _ => false

end Neighbours

/-- Ben is refused Ada's conversation, and Ada is told the same without him. -/
theorem chats_private_neighbours :
    ∃ w, execute (Chats.step (chatRouter fun _ => .stable)) Neighbours.start Neighbours.actions =
        some w ∧
      (w.toldTo 2).any Neighbours.isRefusal = true ∧ (w.ownMessages 1).length = 2 ∧
      ∃ p, execute (Chats.step (chatRouter fun _ => .stable)) Neighbours.start
          (Neighbours.actions.filter (·.concerns 1)) = some p ∧
        p.toldTo 1 = w.toldTo 1 ∧ p.ownSessions 1 = w.ownSessions 1 ∧
        p.ownMessages 1 = w.ownMessages 1 := by
  have initial : Neighbours.start.Initial := ⟨List.nodup_nil, List.forall_mem_nil _, rfl⟩
  have hrun : ((execute (Chats.step (chatRouter fun _ => .stable)) Neighbours.start
      Neighbours.actions).map fun w =>
        ((w.toldTo 2).any Neighbours.isRefusal, (w.ownMessages 1).length)) = some (true, 2) := by
    decide +kernel
  obtain ⟨w, hw, htold⟩ := Option.map_eq_some_iff.mp hrun
  obtain ⟨hben, hada⟩ := Prod.mk.inj htold
  exact ⟨w, hw, hben, hada,
    (chats_private (fun _ => .stable) 1).1 _ initial Neighbours.actions w hw⟩

end Docsage
