import Docsage.Library.Stream
import Docsage.Retrieval.Retrieve
import Mathlib.Data.Prod.Lex

/-! # Chat sessions, messages and events

The text type is that of the runtime: a Python string, or the code units of a
.NET one. The `citations` column holds the list that the citations event sends.
-/

namespace Docsage
open Effects Relational Ranking

structure ChatSession where
  id : Uuid
  userId : Uuid
  scope : ChatScope
deriving DecidableEq

/-- `ck_chat_messages_role`. -/
inductive ChatRole where
  | user
  | assistant
deriving DecidableEq, Repr

/-- A citation, in the order the answer numbers its passages. -/
structure Citation (τ : Type) where
  chunkId : Uuid
  documentId : Uuid
  documentTitle : τ
  snippet : τ
  score : ℚ
  page : Option ℕ
deriving DecidableEq

structure ChatMessage (τ : Type) where
  id : Uuid
  sessionId : Uuid
  role : ChatRole
  content : τ
  citations : List (Citation τ) := []
  createdAt : Timestamp
deriving DecidableEq

inductive ChatEvent (τ : Type) where
  | delta (text : τ)
  | citations (citations : List (Citation τ))
  | done (messageId : Uuid)
  | error (message : τ)
deriving DecidableEq

def ChatEvent.terminal {τ : Type} : ChatEvent τ → Bool
  | .done _ | .error _ => true
  | .delta _ | .citations _ => false

structure ChatStore (τ : Type) where
  now : Timestamp
  sessions : List ChatSession := []
  messages : List (ChatMessage τ) := []
deriving DecidableEq

namespace ChatStore

variable {τ : Type}

def session? (s : ChatStore τ) (id : Uuid) : Option ChatSession :=
  lookup ChatSession.id id s.sessions

/-- The INSERT into `chat_messages`; `created_at` defaults to `now()`. -/
def insertMessage (id sessionId : Uuid) (role : ChatRole) (content : τ)
    (citations : List (Citation τ)) (s : ChatStore τ) : Except Exc (ChatStore τ) :=
  if (s.session? sessionId).isSome then
    .ok { s with
      messages := s.messages ++ [⟨id, sessionId, role, content, citations, s.now⟩] }
  else .error Store.foreignKeyViolation

def listMessages (s : ChatStore τ) (sessionId : Uuid) : List (ChatMessage τ) :=
  OrderBy.stable.sort (fun m => toLex (m.createdAt, m.id))
    (s.messages.filter fun m => m.sessionId = sessionId)

variable {s s' : ChatStore τ} {id sessionId : Uuid} {role : ChatRole} {content : τ}
  {citations : List (Citation τ)} {m : ChatMessage τ}

theorem insertMessage_of_session (id : Uuid) (role : ChatRole) (content : τ)
    (citations : List (Citation τ)) (h : (s.session? sessionId).isSome) :
    insertMessage id sessionId role content citations s =
      .ok { s with
        messages := s.messages ++ [⟨id, sessionId, role, content, citations, s.now⟩] } :=
  if_pos h

theorem insertMessage_ok (h : insertMessage id sessionId role content citations s = .ok s') :
    s' = { s with
      messages := s.messages ++ [⟨id, sessionId, role, content, citations, s.now⟩] } := by
  unfold insertMessage at h
  split at h
  · exact (Except.ok.inj h).symm
  · cases h

@[simp] theorem mem_listMessages :
    m ∈ s.listMessages sessionId ↔ m ∈ s.messages ∧ m.sessionId = sessionId := by
  rw [listMessages, (OrderBy.stable.perm _ _).mem_iff]
  simp

end ChatStore

end Docsage
