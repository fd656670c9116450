import Docsage.Api.Hidden
import Docsage.Api.Listed

/-! # The .NET document requests

What `DocumentEndpoints` and `ReviewEndpoints` answer to a signed-in user. The four
endpoints filter on their own, and `DELETE` does not ask whether the user may see
the document.
-/

namespace Docsage.DotNet
open Ranking

def toSummary (row : DocumentListRow) : DocumentSummary where
  id := row.document.id
  title := row.document.title
  sourceFilename := row.document.sourceFilename
  mimeType := row.document.mimeType
  scope := row.document.scope
  status := row.document.status
  statusError := row.document.statusError
  embeddingProvider := row.document.embeddingProvider
  embeddingModel := row.document.embeddingModel
  topic := row.document.topicId.bind fun id => row.topicName.map fun name => (id, name)
  reviewStatus := row.document.reviewStatus
  chunkCount := row.document.chunkCount
  sizeBytes := row.document.sizeBytes
  createdAt := row.document.createdAt
  owner := (row.ownerDisplayName.filter (· ≠ "")).map fun name => (row.document.ownerId, name)
  pendingReviewer := row.pendingReviewer

/-- `GET /api/documents`. -/
def listDocuments (order : TimeOrder) (s : Store) (user : User) (scope : Option String) :
    Except HttpError (List DocumentSummary) := do
  let effectiveScope := if scope.getD "" = "" then "personal" else scope.getD ""
  refuse (effectiveScope ≠ "personal" ∧ effectiveScope ≠ "library") 422
    "scope must be 'personal' or 'library'"
  return (listAsync order s user effectiveScope).map toSummary

def findSummary (s : Store) (user : User) (id : Uuid) : Option DocumentListRow :=
  (s.document? id).map (selectBase s user)

/-- `ApprovalsAsync`, the latest first. -/
def approvalsAsync (order : TimeOrder) (s : Store) (documentId : Uuid) : List ApprovalOut :=
  let joined := (s.approvalsOf documentId).filterMap fun row =>
    (s.user? row.reviewerId).map fun reviewer =>
      ({ reviewer := reviewer.displayName, decision := row.decision, note := row.note
         decidedAt := row.decidedAt } : ApprovalOut)
  (order ApprovalOut).sort (fun row => -row.decidedAt) joined

/-- `GET /api/documents/{id}`. -/
def documentDetail (order : TimeOrder) (s : Store) (user : User) (id : Uuid) :
    Except HttpError DocumentDetail := do
  let row ← orRefuse (findSummary s user id) documentNotFound
  refuse (canView user row = false) documentNotFound.status documentNotFound.detail
  return {
    summary := toSummary row
    enrichments := (s.enrichmentsOf id).map fun row => (row.kind, row.content)
    approvals := approvalsAsync order s id }

def canDelete (user : User) (row : DocumentListRow) : Bool :=
  row.document.ownerId = user.id || user.isAdmin

/-- `DELETE /api/documents/{id}`, but for the files. -/
def deleteDocument (s : Store) (user : User) (id : Uuid) : Except HttpError Store := do
  let row ← orRefuse (findSummary s user id) documentNotFound
  refuse (canDelete user row = false) 403 "Only the owner or an admin can delete a document"
  return s.deleteDocument id

/-- `GET /api/reviews/pending`. -/
def pendingReviews (order : TimeOrder) (s : Store) (user : User) :
    Except HttpError (List DocumentSummary) := do
  refuse (¬ user.isAdmin ∧ ¬ isSme s user) 403 "SME designation or admin role required"
  return (pendingReviewsAsync order s user).map toSummary

end Docsage.DotNet
