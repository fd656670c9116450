import Docsage.Chat.Turn
import Docsage.Library.Transition
import Docsage.Text.Units

/-! # The scope of a chat session and the role of its owner

A session keeps the scope it was created with; a user does not keep a role.
Creating a session in admin scope asks for the role in both backends. Posting to
one asks for it again in FastAPI only.
-/

namespace Docsage
open Effects Text Transition Relational

def ChatScope.ofString? : String → Option ChatScope
  | "personal" => some .personal
  | "admin" => some .admin
  | _ => none

def createSession (user : User) (scope : String) (id : Uuid) : Except HttpError ChatSession := do
  let scope ← orRefuse (ChatScope.ofString? scope) ⟨422, "scope must be 'personal' or 'admin'"⟩
  refuse (scope = .admin ∧ ¬ user.isAdmin) 403 "Admin chat scope requires the admin role"
  return ⟨id, user.id, scope⟩

/-- A post that passed its checks stores the message of the user before it retrieves. -/
def storeUserMessage (storeUser : Option Exc)
    (insert : ChatSession → ChatStore String → Except Exc (ChatStore String))
    (checks : Except HttpError ChatSession) (chat : ChatStore String) :
    Except HttpError ChatSession × ChatStore String :=
  match checks with
  | .error error => (.error error, chat)
  | .ok session =>
    match attempt storeUser (insert session) chat with
    | (.error _, chat) => (.error internalError, chat)
    | (.ok (), chat) => (.ok session, chat)

/-- `post_message` up to its retrieval: the session whose scope is searched. -/
def admitMessage (storeUser : Option Exc) (messageId : Uuid) (user : User) (sessionId : Uuid)
    (content : String) (chat : ChatStore String) :
    Except HttpError ChatSession × ChatStore String :=
  storeUserMessage storeUser
    (fun session => ChatStore.insertMessage messageId session.id .user content [])
    (postChecks chat user sessionId) chat

/-- A message that is admitted is answered from a retrieval in the scope of its session. -/
theorem postMessage_eq (index : VectorIndex) (settings : Settings) (calls : TurnCalls) (s : Store)
    (user : User) (sessionId : Uuid) (content : String) (chat : ChatStore String) :
    postMessage index settings calls s user sessionId content chat =
      match admitMessage calls.storeUser calls.userMessageId user sessionId content chat with
      | (.error error, chat) => (.refused error, chat)
      | (.ok session, chat) =>
        match retrieveUnder calls.retrieval index settings calls.embedding s user session.scope
            content topKDefault with
        | .error _ => (.refused internalError, chat)
        | .ok retrieved =>
          (.stream (answerStream settings calls.answer content retrieved session.id
            calls.assistantMessageId), chat) := by
  unfold postMessage admitMessage storeUserMessage
  cases postChecks chat user sessionId with
  | error error => rfl
  | ok session =>
    simp only
    rcases attempt calls.storeUser
      (ChatStore.insertMessage calls.userMessageId session.id .user content []) chat with
      ⟨exc | ⟨⟩, chat'⟩ <;> rfl

namespace DotNet

/-- `POST /api/chat/sessions`. A missing scope is the personal one. -/
def createSession (user : User) (scope : Option String) (id : Uuid) :
    Except HttpError ChatSession := do
  let scope := (scope.filter (· ≠ "")).getD "personal"
  let scope ← orRefuse (ChatScope.ofString? scope) ⟨422, "scope must be 'personal' or 'admin'"⟩
  refuse (scope = .admin ∧ ¬ user.isAdmin) 403 "Admin role required for admin chat scope"
  return ⟨id, user.id, scope⟩

/-- `FindOwnSessionAsync`, behind the check of the content. -/
def postChecks (chat : ChatStore String) (user : User) (sessionId : Uuid) (content : Utf16) :
    Except HttpError ChatSession := do
  refuse (content.all isWhiteSpaceUnit = true) 422 "content is required"
  orRefuse ((chat.session? sessionId).filter (·.userId = user.id)) chatSessionNotFound

/-- The INSERT of the shared table, which holds what the code units encode. -/
def insertShared (id sessionId : Uuid) (role : ChatRole) (content : Utf16)
    (chat : ChatStore String) : Except Exc (ChatStore String) :=
  match decode? content with
  | none => .error invalidText
  | some content => ChatStore.insertMessage id sessionId role content [] chat

/-- The request and `CoreAsync` up to its retrieval: the session whose scope is searched. -/
def admitMessage (storeUser : Option Exc) (messageId : Uuid) (user : User) (sessionId : Uuid)
    (content : Utf16) (chat : ChatStore String) : Except HttpError ChatSession × ChatStore String :=
  storeUserMessage storeUser
    (fun session => insertShared messageId session.id .user content)
    (postChecks chat user sessionId content) chat

end DotNet

/-- A retrieval that a posted message triggered: the user as the request found them. -/
structure ScopedRetrieval where
  user : User
  scope : ChatScope

/-- The accounts and the chat tables that both backends share. `demoted` holds the users whose last
change of role took the admin role from them. -/
structure ChatHistory where
  users : List User
  chat : ChatStore String
  demoted : List Uuid := []
  retrievals : List ScopedRetrieval := []

inductive ChatAction where
  /-- Nothing in the two backends changes a role; it is done in the database. -/
  | changeRole (userId : Uuid) (role : Role)
  | createFastApi (userId : Uuid) (scope : String) (id : Uuid)
  | createDotNet (userId : Uuid) (scope : Option String) (id : Uuid)
  | postFastApi (userId sessionId messageId : Uuid) (content : String) (storeUser : Option Exc)
  | postDotNet (userId sessionId messageId : Uuid) (content : Utf16) (storeUser : Option Exc)

namespace ChatHistory

def user? (w : ChatHistory) (id : Uuid) : Option User := lookup User.id id w.users

def changeRole (w : ChatHistory) (userId : Uuid) (role : Role) : ChatHistory :=
  { w with
    users := update User.id userId (fun user => { user with role }) w.users
    demoted :=
      if role = .admin then w.demoted.filter (· ≠ userId)
      else if (w.user? userId).any User.isAdmin then userId :: w.demoted else w.demoted }

def insertSession (w : ChatHistory) (created : Except HttpError ChatSession) : ChatHistory :=
  match created with
  | .error _ => w
  | .ok session =>
    if (w.chat.session? session.id).isSome then w
    else { w with chat := { w.chat with sessions := w.chat.sessions ++ [session] } }

/-- A message is refused, or its retrieval is on record. -/
def answerPost (w : ChatHistory) (user : User)
    (admitted : Except HttpError ChatSession × ChatStore String) : ChatHistory :=
  match admitted with
  | (.error _, chat) => { w with chat }
  | (.ok session, chat) =>
    { w with chat, retrievals := w.retrievals ++ [⟨user, session.scope⟩] }

def asUser (w : ChatHistory) (userId : Uuid) (request : User → ChatHistory) : ChatHistory :=
  match w.user? userId with
  | none => w
  | some user => request user

/-- One change of a role, or one request to one of the backends. -/
def step (w : ChatHistory) : ChatAction → Option ChatHistory
  | .changeRole userId role => some (w.changeRole userId role)
  | .createFastApi userId scope id =>
    some (w.asUser userId fun user => w.insertSession (createSession user scope id))
  | .createDotNet userId scope id =>
    some (w.asUser userId fun user => w.insertSession (DotNet.createSession user scope id))
  | .postFastApi userId sessionId messageId content storeUser =>
    some (w.asUser userId fun user =>
      w.answerPost user (admitMessage storeUser messageId user sessionId content w.chat))
  | .postDotNet userId sessionId messageId content storeUser =>
    some (w.asUser userId fun user =>
      w.answerPost user (DotNet.admitMessage storeUser messageId user sessionId content w.chat))

/-- No session yet; the accounts and their roles are arbitrary. -/
structure Initial (w : ChatHistory) : Prop where
  sessions : w.chat.sessions = []
  demoted : w.demoted = []
  retrievals : w.retrievals = []

/-- Every retrieval in admin scope was asked for by a user who was an admin then. -/
def AdminsOnly (w : ChatHistory) : Prop :=
  ∀ r ∈ w.retrievals, r.scope = .admin → r.user.isAdmin = true

/-- A user who lost the admin role posts a message to an own session of admin scope in .NET, and
the message is stored. -/
def DemotedPosts (w : ChatHistory) : ChatAction → Prop
  | .postDotNet userId sessionId _ content storeUser =>
    userId ∈ w.demoted ∧ (w.user? userId).isSome = true ∧
      (∃ session, w.chat.session? sessionId = some session ∧ session.userId = userId ∧
        session.scope = .admin) ∧
      content.all isWhiteSpaceUnit = false ∧ (decode? content).isSome = true ∧ storeUser = none
  | _ => False

structure Sound (w : ChatHistory) : Prop where
  owners : ∀ session ∈ w.chat.sessions, session.scope = .admin →
    ∀ user, w.user? session.userId = some user → user.isAdmin = true ∨ user.id ∈ w.demoted
  demoted : ∀ userId ∈ w.demoted, ∀ user, w.user? userId = some user → user.isAdmin = false

theorem Initial.sound {w : ChatHistory} (initial : w.Initial) : w.Sound where
  owners := by simp [initial.sessions]
  demoted := by simp [initial.demoted]

variable {w : ChatHistory}

theorem user?_id {userId : Uuid} {user : User} (h : w.user? userId = some user) :
    user.id = userId := (lookup_some h).2

theorem user?_changeRole (userId : Uuid) (role : Role) (id : Uuid) :
    (w.changeRole userId role).user? id =
      if id = userId then (w.user? id).map fun user => { user with role } else w.user? id := by
  split_ifs with h
  · subst h
    exact lookup_update fun _ => rfl
  · exact lookup_update_ne (f := fun user : User => { user with role }) (fun _ => rfl) h

theorem mem_demoted_changeRole {userId : Uuid} {role : Role} {id : Uuid} :
    id ∈ (w.changeRole userId role).demoted ↔
      if id = userId then role ≠ .admin ∧ ((w.user? userId).any User.isAdmin ∨ id ∈ w.demoted)
      else id ∈ w.demoted := by
  unfold ChatHistory.changeRole
  by_cases hrole : role = .admin <;> by_cases hid : id = userId <;>
    cases (w.user? userId).any User.isAdmin <;> simp [hrole, hid]

theorem Sound.changeRole (sound : w.Sound) (userId : Uuid) (role : Role) :
    (w.changeRole userId role).Sound := by
  have hrole : ∀ user : User, ({ user with role } : User).isAdmin = decide (role = .admin) :=
    fun _ => rfl
  constructor
  · intro session hsession hscope user huser
    rw [user?_changeRole] at huser
    rw [mem_demoted_changeRole]
    split_ifs at huser with hid
    · obtain ⟨before, hbefore, rfl⟩ := Option.map_eq_some_iff.mp huser
      have hown := sound.owners session hsession hscope before hbefore
      have hbeforeId : before.id = userId := (user?_id hbefore).trans hid
      rw [hid] at hbefore
      by_cases hadmin : role = .admin
      · left
        rw [hrole, decide_eq_true hadmin]
      · right
        simpa [hadmin, hbefore, hbeforeId] using hown
    · rw [if_neg (by rwa [user?_id huser])]
      exact sound.owners session hsession hscope user huser
  · intro id hdemoted user huser
    rw [user?_changeRole] at huser
    rw [mem_demoted_changeRole] at hdemoted
    split_ifs at huser hdemoted with hid
    · obtain ⟨before, -, rfl⟩ := Option.map_eq_some_iff.mp huser
      simp [hrole, hdemoted.1]
    · exact sound.demoted id hdemoted user huser

theorem Sound.insertSession (sound : w.Sound) {created : Except HttpError ChatSession} {user : User}
    (huser : w.user? user.id = some user)
    (asked : ∀ session, created = .ok session → session.userId = user.id ∧
      (session.scope = .admin → user.isAdmin = true)) : (w.insertSession created).Sound := by
  unfold ChatHistory.insertSession
  split
  · exact sound
  · next session =>
    split
    · exact sound
    · refine ⟨fun session' hsession' hscope owner howner => ?_, sound.demoted⟩
      rcases List.mem_append.mp hsession' with hold | hnew
      · exact sound.owners session' hold hscope owner howner
      · obtain rfl := List.mem_singleton.mp hnew
        obtain ⟨hown, hadmin⟩ := asked session' rfl
        change w.user? session'.userId = some owner at howner
        rw [hown, huser] at howner
        obtain rfl := Option.some.inj howner
        exact .inl (hadmin hscope)

theorem createSession_ok {user : User} {scope : String} {id : Uuid} {session : ChatSession}
    (h : createSession user scope id = .ok session) :
    session.userId = user.id ∧ (session.scope = .admin → user.isAdmin = true) := by
  obtain ⟨scope, -, h⟩ := orRefuse_bind_ok h
  obtain ⟨hrole, h⟩ := refuse_bind_ok h
  obtain rfl := Except.ok.inj h
  simpa using hrole

theorem dotNet_createSession_ok {user : User} {scope : Option String} {id : Uuid}
    {session : ChatSession} (h : DotNet.createSession user scope id = .ok session) :
    session.userId = user.id ∧ (session.scope = .admin → user.isAdmin = true) := by
  obtain ⟨scope, -, h⟩ := orRefuse_bind_ok h
  obtain ⟨hrole, h⟩ := refuse_bind_ok h
  obtain rfl := Except.ok.inj h
  simpa using hrole

theorem Sound.answerPost (sound : w.Sound) {user : User}
    {admitted : Except HttpError ChatSession × ChatStore String}
    (same : admitted.2.sessions = w.chat.sessions) : (w.answerPost user admitted).Sound := by
  obtain ⟨result, chat⟩ := admitted
  change chat.sessions = w.chat.sessions at same
  have owners := sound.owners
  rw [← same] at owners
  cases result with
  | error error => exact ⟨owners, sound.demoted⟩
  | ok session => exact ⟨owners, sound.demoted⟩

section Admit

variable {storeUser : Option Exc} {messageId : Uuid} {user : User} {sessionId : Uuid}
  {chat chat' : ChatStore String} {session : ChatSession}
  {insert : ChatSession → ChatStore String → Except Exc (ChatStore String)}
  {checks : Except HttpError ChatSession}

theorem storeUserMessage_ok :
    (storeUserMessage storeUser insert checks chat).1 = .ok session ↔
      checks = .ok session ∧ storeUser = none ∧ ∃ chat', insert session chat = .ok chat' := by
  cases checks with
  | error error => simp [storeUserMessage]
  | ok found =>
    cases storeUser with
    | some exc => simp [storeUserMessage, attempt]
    | none =>
      cases hinsert : insert found chat with
      | error exc =>
        simp only [storeUserMessage, attempt, hinsert, true_and]
        refine iff_of_false (fun herror => by cases herror) ?_
        rintro ⟨hfound, chat', hok⟩
        obtain rfl := Except.ok.inj hfound
        rw [hinsert] at hok
        cases hok
      | ok chat' =>
        simp only [storeUserMessage, attempt, hinsert, true_and]
        refine ⟨fun h => ⟨h, chat', ?_⟩, And.left⟩
        rw [← Except.ok.inj h, hinsert]

theorem storeUserMessage_sessions
    (keeps : ∀ session chat', insert session chat = .ok chat' → chat'.sessions = chat.sessions) :
    (storeUserMessage storeUser insert checks chat).2.sessions = chat.sessions := by
  cases checks with
  | error error => rfl
  | ok session =>
    simp only [storeUserMessage]
    rcases hattempt : attempt storeUser (insert session) chat with ⟨exc | ⟨⟩, chat'⟩
    · rw [attempt_eq_error hattempt]
    · exact keeps session chat' (attempt_eq_ok hattempt)

theorem admitMessage_isAdmin {content : String}
    (h : (admitMessage storeUser messageId user sessionId content chat).1 = .ok session)
    (hscope : session.scope = .admin) : user.isAdmin = true := by
  obtain ⟨hchecks, -⟩ := storeUserMessage_ok.mp h
  obtain ⟨own, -, hchecks⟩ := orRefuse_bind_ok hchecks
  obtain ⟨hrole, hchecks⟩ := refuse_bind_ok hchecks
  obtain rfl := Except.ok.inj hchecks
  simpa [hscope] using hrole

theorem insertShared_ok {id : Uuid} {role : ChatRole} {content : Utf16}
    (h : DotNet.insertShared id sessionId role content chat = .ok chat') :
    chat'.sessions = chat.sessions := by
  unfold DotNet.insertShared at h
  split at h
  · cases h
  · rw [ChatStore.insertMessage_ok h]

theorem dotNet_postChecks_ok {content : Utf16} :
    DotNet.postChecks chat user sessionId content = .ok session ↔
      content.all isWhiteSpaceUnit = false ∧ chat.session? sessionId = some session ∧
        session.userId = user.id := by
  unfold DotNet.postChecks
  cases hblank : content.all isWhiteSpaceUnit with
  | true => simp [refuse_bind_of]
  | false =>
    rw [refuse_bind_of_not nofun]
    have hsome : orRefuse ((chat.session? sessionId).filter (·.userId = user.id))
        chatSessionNotFound = .ok session ↔
        (chat.session? sessionId).filter (·.userId = user.id) = some session := by
      cases (chat.session? sessionId).filter (·.userId = user.id) <;> simp [orRefuse]
    rw [hsome, Option.filter_eq_some_iff]
    simp

/-- .NET asks who owns the session and for content that can be stored, and not for the role. -/
theorem dotNet_admitMessage_ok {content : Utf16} :
    (DotNet.admitMessage storeUser messageId user sessionId content chat).1 = .ok session ↔
      (content.all isWhiteSpaceUnit = false ∧ chat.session? sessionId = some session ∧
        session.userId = user.id) ∧ (decode? content).isSome = true ∧ storeUser = none := by
  rw [DotNet.admitMessage, storeUserMessage_ok, dotNet_postChecks_ok]
  refine and_congr_right fun hchecks => ?_
  have hsession := hchecks.2.1
  obtain rfl : session.id = sessionId := (lookup_some hsession).2
  have hsome : (chat.session? session.id).isSome := by simp [hsession]
  unfold DotNet.insertShared
  cases decode? content with
  | none => simp
  | some text => simp [ChatStore.insertMessage_of_session _ _ _ _ hsome]

end Admit

theorem adminsOnly_answerPost {user : User}
    {admitted : Except HttpError ChatSession × ChatStore String} :
    (w.answerPost user admitted).AdminsOnly ↔ w.AdminsOnly ∧
      ∀ session, admitted.1 = .ok session → session.scope = .admin → user.isAdmin = true := by
  obtain ⟨result, chat⟩ := admitted
  cases result with
  | error error => simp [ChatHistory.answerPost, AdminsOnly]
  | ok session => simp [ChatHistory.answerPost, AdminsOnly, or_imp, forall_and]

theorem adminsOnly_insertSession {created : Except HttpError ChatSession} :
    (w.insertSession created).AdminsOnly ↔ w.AdminsOnly := by
  unfold ChatHistory.insertSession
  split
  · rfl
  · split <;> rfl

/-- In .NET it is the owner of the session that the history knows to be an admin, or demoted. -/
theorem Sound.isAdmin_of_not_demoted (sound : w.Sound) {userId sessionId messageId : Uuid}
    {content : Utf16} {storeUser : Option Exc} {user : User} (hu : w.user? userId = some user) :
    (∀ session, (DotNet.admitMessage storeUser messageId user sessionId content w.chat).1 =
        .ok session → session.scope = .admin → user.isAdmin = true) ↔
      ¬ w.DemotedPosts (.postDotNet userId sessionId messageId content storeUser) := by
  obtain rfl := user?_id hu
  constructor
  · rintro admins ⟨hdemoted, -, ⟨session, hsession, hown, hscope⟩, hcontent, hdecode, hstore⟩
    have hadmin := admins session
      (dotNet_admitMessage_ok.mpr ⟨⟨hcontent, hsession, hown⟩, hdecode, hstore⟩) hscope
    rw [sound.demoted _ hdemoted user hu] at hadmin
    cases hadmin
  · intro undemoted session hadmitted hscope
    obtain ⟨⟨hcontent, hsession, hown⟩, hdecode, hstore⟩ := dotNet_admitMessage_ok.mp hadmitted
    have howner : w.user? session.userId = some user := by rw [hown, hu]
    refine (sound.owners session (lookup_some hsession).1 hscope user howner).resolve_right
      fun hdemoted => undemoted ?_
    exact ⟨hdemoted, by simp [hu], ⟨session, hsession, hown, hscope⟩, hcontent, hdecode, hstore⟩

theorem Sound.step {a : ChatAction} {w' : ChatHistory} (sound : w.Sound) (h : w.step a = some w') :
    w'.Sound := by
  have huser {userId : Uuid} {user : User} (hu : w.user? userId = some user) :
      w.user? user.id = some user := by rw [user?_id hu, hu]
  cases a with
  | changeRole userId role =>
    obtain rfl := Option.some.inj h
    exact sound.changeRole userId role
  | createFastApi userId scope id =>
    obtain rfl := Option.some.inj h
    unfold asUser
    split
    · exact sound
    · next user hu => exact sound.insertSession (huser hu) fun _ => createSession_ok
  | createDotNet userId scope id =>
    obtain rfl := Option.some.inj h
    unfold asUser
    split
    · exact sound
    · next user hu => exact sound.insertSession (huser hu) fun _ => dotNet_createSession_ok
  | postFastApi userId sessionId messageId content storeUser =>
    obtain rfl := Option.some.inj h
    unfold asUser
    split
    · exact sound
    · refine sound.answerPost (storeUserMessage_sessions fun session chat' hinsert => ?_)
      rw [ChatStore.insertMessage_ok hinsert]
  | postDotNet userId sessionId messageId content storeUser =>
    obtain rfl := Option.some.inj h
    unfold asUser
    split
    · exact sound
    · exact sound.answerPost (storeUserMessage_sessions fun _ _ => insertShared_ok)

/-- One step lets somebody else than an admin search in admin scope when a demoted user posts. -/
theorem adminsOnly_step {a : ChatAction} {w' : ChatHistory} (sound : w.Sound)
    (h : w.step a = some w') : w'.AdminsOnly ↔ w.AdminsOnly ∧ ¬ w.DemotedPosts a := by
  cases a with
  | changeRole userId role =>
    obtain rfl := Option.some.inj h
    simp [DemotedPosts, AdminsOnly, ChatHistory.changeRole]
  | createFastApi userId scope id =>
    obtain rfl := Option.some.inj h
    unfold asUser
    split <;> simp [DemotedPosts, adminsOnly_insertSession]
  | createDotNet userId scope id =>
    obtain rfl := Option.some.inj h
    unfold asUser
    split <;> simp [DemotedPosts, adminsOnly_insertSession]
  | postFastApi userId sessionId messageId content storeUser =>
    obtain rfl := Option.some.inj h
    unfold asUser
    split
    · simp [DemotedPosts]
    · simp only [adminsOnly_answerPost, DemotedPosts, not_false_iff, and_true]
      exact and_iff_left fun session => admitMessage_isAdmin
  | postDotNet userId sessionId messageId content storeUser =>
    obtain rfl := Option.some.inj h
    unfold asUser
    split
    · next hnone => simp [DemotedPosts, hnone]
    · next user hu =>
      rw [adminsOnly_answerPost]
      exact and_congr_right fun _ => sound.isAdmin_of_not_demoted hu

/-- In a history from the first session on, everybody who searched in admin scope was an admin
exactly when no message was posted by a demoted user. -/
theorem admin_scope_by_admins_iff {start final : ChatHistory} {actions : List ChatAction}
    (initial : start.Initial) (done : execute ChatHistory.step start actions = some final) :
    final.AdminsOnly ↔
      Obeys ChatHistory.step (fun w a => ¬ w.DemotedPosts a) start actions := by
  have htracks := obeys_iff (fun w a w' (sound : w.Sound) h => sound.step h)
    (fun w a w' sound h => adminsOnly_step sound h) initial.sound done
  rw [htracks]
  exact and_iff_right (by simp [AdminsOnly, initial.retrievals])

namespace Demotion

/-! An admin creates an admin session, loses the role, and asks in .NET. -/

def admin : User := ⟨1, "ada@agency.test", "", "Ada", .admin⟩
def former : User := { admin with role := .user }
def session : ChatSession := ⟨5, 1, .admin⟩

def content : Utf16 := [63]

def actions : List ChatAction :=
  [.createDotNet 1 (some "admin") 5, .changeRole 1 .user, .postDotNet 1 5 9 content none]

def start : ChatHistory := { users := [admin], chat := { now := 0 } }
def created : ChatHistory := { users := [admin], chat := { now := 0, sessions := [session] } }
def demoted : ChatHistory := { created with users := [former], demoted := [1] }

def searched : ChatHistory :=
  { demoted with
    chat := { demoted.chat with messages := [⟨9, 5, .user, "?", [], 0⟩] }
    retrievals := [⟨former, .admin⟩] }

theorem initial : start.Initial := ⟨rfl, rfl, rfl⟩

theorem post_stored : (DotNet.admitMessage none 9 former 5 content demoted.chat) =
    (.ok session, searched.chat) := by
  have hchecks : DotNet.postChecks demoted.chat former 5 content = .ok session :=
    dotNet_postChecks_ok.mpr ⟨by decide, rfl, rfl⟩
  rw [DotNet.admitMessage, hchecks]
  rfl

theorem executed : execute ChatHistory.step start actions = some searched := by
  have hcreate : start.step (.createDotNet 1 (some "admin") 5) = some created := rfl
  have hdemote : created.step (.changeRole 1 .user) = some demoted := rfl
  have hpost : demoted.step (.postDotNet 1 5 9 content none) = some searched := by
    change some (demoted.answerPost former
      (DotNet.admitMessage none 9 former 5 content demoted.chat)) = some searched
    rw [post_stored]
    rfl
  simp only [execute, actions, hcreate, hdemote, hpost, Option.bind_some]

end Demotion

theorem admin_scope_by_admins_iff_demotion : Demotion.searched.AdminsOnly ↔
    Obeys ChatHistory.step (fun w a => ¬ w.DemotedPosts a) Demotion.start Demotion.actions :=
  admin_scope_by_admins_iff Demotion.initial Demotion.executed

theorem admin_scope_by_demoted :
    ¬ ∀ (start final : ChatHistory) (actions : List ChatAction), start.Initial →
      execute ChatHistory.step start actions = some final → final.AdminsOnly := by
  intro h
  have hadmins := h Demotion.start Demotion.searched Demotion.actions Demotion.initial
    Demotion.executed
  have hadmin := hadmins ⟨Demotion.former, .admin⟩ (List.mem_singleton_self _) rfl
  cases hadmin

end ChatHistory

end Docsage
