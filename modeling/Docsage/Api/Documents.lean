import Docsage.Api.Access
import Docsage.Library.Ranking
import Docsage.Retrieval.Retrieve

/-! # Lists, details and deletions of documents

The requests that read documents, each with its own visibility filter. The
order of rows with equal timestamps belongs to the database and is a parameter.
-/

namespace Docsage
open Ranking

abbrev TimeOrder := ∀ α, OrderBy α Timestamp

def newestFirst (order : TimeOrder) (rows : List Document) : List Document :=
  (order Document).sort (fun doc => -doc.createdAt) rows

@[simp] theorem mem_newestFirst {order : TimeOrder} {rows : List Document} {doc : Document} :
    doc ∈ newestFirst order rows ↔ doc ∈ rows := ((order Document).perm _ rows).mem_iff

/-- The WHERE clause of `list_documents`. -/
def listFilter (user : User) (scope : Scope) (smeTopics : List Uuid) (doc : Document) : Bool :=
  match scope with
  | .personal => doc.ownerId = user.id
  | .library =>
    if user.isAdmin then true
    else
      doc.scope = .library && (doc.reviewStatus = .approved || topicAmong doc.topicId smeTopics)

def listedDocuments (order : TimeOrder) (s : Store) (user : User) (scope : Scope) : List Document :=
  newestFirst order (s.documents.filter (listFilter user scope (s.smeTopicIds user.id)))

def listDocuments (order : TimeOrder) (s : Store) (user : User) (scope : String) :
    Except HttpError (List DocumentSummary) := do
  let scope ← orRefuse (Scope.ofString? scope) ⟨422, "scope must be 'personal' or 'library'"⟩
  return (listedDocuments order s user scope).map fun doc =>
    summarize s doc user (s.smeTopicIds user.id)

structure ApprovalOut where
  reviewer : String
  decision : Decision
  note : String
  decidedAt : Timestamp
deriving DecidableEq

structure DocumentDetail where
  summary : DocumentSummary
  enrichments : List (EnrichmentKind × String)
  approvals : List ApprovalOut
deriving DecidableEq

/-- The approvals of a document joined with their reviewers, `order_by(Approval.decided_at)`. -/
def approvalsOut (order : TimeOrder) (s : Store) (documentId : Uuid) : List ApprovalOut :=
  let joined := (s.approvalsOf documentId).filterMap fun row =>
    (s.user? row.reviewerId).map fun reviewer =>
      ({ reviewer := reviewer.displayName, decision := row.decision, note := row.note
         decidedAt := row.decidedAt } : ApprovalOut)
  (order ApprovalOut).sort (·.decidedAt) joined

/-- `doc is None or not can_view_document(...)` is answered like a document that does not exist. -/
def viewDocument (s : Store) (user : User) (documentId : Uuid) : Except HttpError Document := do
  let doc ← orRefuse (s.document? documentId) documentNotFound
  refuse (canViewDocument user doc (s.smeTopicIds user.id) = false) documentNotFound.status
    documentNotFound.detail
  return doc

def documentDetail (order : TimeOrder) (s : Store) (user : User) (documentId : Uuid) :
    Except HttpError DocumentDetail := do
  let doc ← viewDocument s user documentId
  return {
    summary := summarize s doc user (s.smeTopicIds user.id)
    enrichments := (s.enrichmentsOf documentId).map fun row => (row.kind, row.content)
    approvals := approvalsOut order s documentId }

def deleteDocument (s : Store) (user : User) (documentId : Uuid) : Except HttpError Store := do
  let doc ← viewDocument s user documentId
  refuse (doc.ownerId ≠ user.id ∧ ¬ user.isAdmin) 403
    "Only the owner or an admin can delete a document"
  return s.deleteDocument doc.id

def pendingReviews (order : TimeOrder) (s : Store) (user : User) : List DocumentSummary :=
  let smeTopics := s.smeTopicIds user.id
  let documents := newestFirst order (s.documents.filter fun doc =>
    doc.reviewStatus = .pendingSme && (user.isAdmin || topicAmong doc.topicId smeTopics))
  if ¬ user.isAdmin ∧ smeTopics.isEmpty then []
  else documents.map fun doc => summarize s doc user smeTopics

namespace DotNet

/-- The WHERE clauses of `ListAsync`. -/
def listFilter (s : Store) (user : User) (scope : Scope) (doc : Document) : Bool :=
  match scope with
  | .library =>
    doc.scope = .library && (user.isAdmin || doc.reviewStatus = .approved ||
      s.smeDesignations.any fun r => r.userId = user.id)
  | .personal => doc.ownerId = user.id && doc.scope = .personal

def listedDocuments (order : TimeOrder) (s : Store) (user : User) (scope : Scope) : List Document :=
  newestFirst order (s.documents.filter (listFilter s user scope))

end DotNet

variable {order : TimeOrder} {s : Store} {user : User} {scope : Scope} {doc : Document}

theorem mem_listedDocuments : doc ∈ listedDocuments order s user scope ↔
    doc ∈ s.documents ∧ listFilter user scope (s.smeTopicIds user.id) doc = true := by
  rw [listedDocuments, mem_newestFirst, List.mem_filter]

/-- A list shows documents of its scope only, and personal ones to their owner only. -/
def ScopesKept (listed : Scope → List Document) (user : User) : Prop :=
  ∀ scope, ∀ doc ∈ listed scope, doc.scope = scope ∧ (doc.scope = .personal → doc.ownerId = user.id)

inductive View where
  | list (scope : Scope)
  | detail
  | pendingReviews
  | chat (scope : ChatScope)
deriving DecidableEq

def ComesAcross (order : TimeOrder) (s : Store) (user : User) (doc : Document) : View → Prop
  | .list scope => doc ∈ listedDocuments order s user scope
  | .detail => ∃ detail, documentDetail order s user doc.id = .ok detail
  | .pendingReviews => ∃ summary ∈ pendingReviews order s user, summary.id = doc.id
  | .chat scope => candidateFilter user.id scope doc = true

/-- An admin comes across the personal documents of others in the admin chat scope only. -/
def AdminSeesInChatOnly (order : TimeOrder) (s : Store) (user : User) : Prop :=
  user.isAdmin = true → ∀ doc ∈ s.documents, doc.scope = .personal → doc.ownerId ≠ user.id →
    ∀ view, ComesAcross order s user doc view → view = .chat .admin

/-- The user owns no library document, and if the user is an admin there is no personal one. -/
def Unmixed (s : Store) (user : User) : Prop :=
  (∀ doc ∈ s.documents, doc.ownerId = user.id → doc.scope = .personal) ∧
    (user.isAdmin = true → ∀ doc ∈ s.documents, doc.scope = .library)

/-- The lists keep the scopes apart exactly when there is nothing to mix. -/
theorem personal_documents_kept_iff (order : TimeOrder) (s : Store) (user : User) :
    (ScopesKept (listedDocuments order s user) user ∧ AdminSeesInChatOnly order s user) ↔
      Unmixed s user := by
  constructor
  · rintro ⟨kept, -⟩
    refine ⟨fun doc hdoc howner => ?_, fun hadmin doc hdoc => ?_⟩
    · exact (kept .personal doc (mem_listedDocuments.mpr ⟨hdoc, by simp [listFilter, howner]⟩)).1
    · exact (kept .library doc (mem_listedDocuments.mpr ⟨hdoc, by simp [listFilter, hadmin]⟩)).1
  · rintro ⟨hown, hadmin⟩
    refine ⟨fun scope doc hlisted => ?_, fun h doc hdoc hpersonal => ?_⟩
    · obtain ⟨hdoc, hfilter⟩ := mem_listedDocuments.mp hlisted
      cases scope with
      | personal =>
        have howner : doc.ownerId = user.id := by simpa [listFilter] using hfilter
        exact ⟨hown doc hdoc howner, fun _ => howner⟩
      | library =>
        have hlibrary : doc.scope = .library := by
          cases h : user.isAdmin with
          | true => exact hadmin h doc hdoc
          | false => simp [listFilter, h] at hfilter; exact hfilter.1
        exact ⟨hlibrary, fun h => by rw [hlibrary] at h; cases h⟩
    · rw [hadmin h doc hdoc] at hpersonal
      cases hpersonal

namespace Diary

/-! A personal document, its writer, an admin and a colleague. -/

def admin : User := ⟨1, "ada@agency.test", "", "Ada", .admin⟩
def writer : User := ⟨2, "sam@agency.test", "", "Sam", .user⟩
def colleague : User := ⟨3, "bo@agency.test", "", "Bo", .user⟩

def diary : Document where
  id := 5
  ownerId := writer.id
  scope := .personal
  title := "Diary"
  sourceFilename := "diary.txt"
  mimeType := "text/plain"
  sizeBytes := 4
  embeddingProvider := .demo
  topicId := none
  createdAt := 0
  updatedAt := 0

def shelf (documents : List Document) : Store :=
  { now := 0, users := [admin, writer, colleague], documents }

end Diary

/-- The diary is in the admin's library list. -/
theorem personal_documents_mixed :
    ¬ ∀ (order : TimeOrder) (s : Store) (user : User),
      ScopesKept (listedDocuments order s user) user ∧ AdminSeesInChatOnly order s user := by
  intro h
  have hlisted : Diary.diary ∈
      listedDocuments (fun _ => .stable) (Diary.shelf [Diary.diary]) Diary.admin .library :=
    mem_listedDocuments.mpr ⟨List.mem_singleton_self _, rfl⟩
  have hscope := ((h (fun _ => .stable) _ Diary.admin).1 .library Diary.diary hlisted).1
  cases hscope

/-- The .NET lists keep the scopes apart in every store. -/
theorem DotNet.scopesKept (order : TimeOrder) (s : Store) (user : User) :
    ScopesKept (DotNet.listedDocuments order s user) user := by
  intro scope doc hlisted
  have hfilter := (List.mem_filter.mp (mem_newestFirst.mp hlisted)).2
  cases scope with
  | personal =>
    have h : doc.ownerId = user.id ∧ doc.scope = .personal := by simpa [listFilter] using hfilter
    exact ⟨h.2, fun _ => h.1⟩
  | library =>
    have h : doc.scope = .library := by
      simp only [listFilter, Bool.and_eq_true, decide_eq_true_eq] at hfilter
      exact hfilter.1
    exact ⟨h, fun hp => by rw [h] at hp; cases hp⟩

end Docsage
