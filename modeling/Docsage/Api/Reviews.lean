import Docsage.Api.Access
import Docsage.Store.Edit
import Docsage.Text.Whitespace

/-! # Review decisions

`POST /reviews/{document_id}` in both backends. A request reads the store, is
answered or let through by its checks, and then writes: in one transaction in
the FastAPI backend, in two statements of their own in the .NET one. Nothing
locks the row between the read and the writes.
-/

namespace Docsage
open Effects Text

structure ReviewRequest where
  userId : Uuid
  documentId : Uuid
  decision : String
  note : String := ""

def ReviewStatus.text : ReviewStatus → String
  | .notRequired => "not_required"
  | .pendingSme => "pending_sme"
  | .approved => "approved"
  | .rejected => "rejected"

/-- The checks of `decide`, on the store the request read. -/
def decideChecks (s : Store) (request : ReviewRequest) : Except HttpError Decision := do
  let user ← orRefuse (s.user? request.userId) notAuthenticated
  let decision ← orRefuse (Decision.ofString? request.decision)
    ⟨422, "decision must be 'approved' or 'rejected'"⟩
  let doc ← orRefuse (s.document? request.documentId) documentNotFound
  refuse (¬ (user.isAdmin || topicAmong doc.topicId (s.smeTopicIds user.id))) 403
    "Only an SME of the document's topic or an admin can review it"
  refuse (doc.ownerId = user.id) 403 "The uploader cannot review their own document"
  refuse (doc.reviewStatus ≠ .pendingSme) 409
    ("document is not awaiting review (review_status='" ++ doc.reviewStatus.text ++ "')")
  return decision

/-- The row `decide` adds, dated by the transaction its reads began. -/
def decideApproval (began : Timestamp) (request : ReviewRequest) (decision : Decision) :
    Approval where
  documentId := request.documentId
  reviewerId := request.userId
  decision := decision
  note := strip request.note
  decidedAt := began

/-- `db.commit()`: the approval and the new review status together. -/
def decideCommit (began : Timestamp) (request : ReviewRequest) (decision : Decision) (s : Store) :
    Except Exc Store := do
  let s ← Store.insertApproval (decideApproval began request decision) s
  return s.setDocument request.documentId
    (DocumentPatch.apply { reviewStatus := some decision.reviewStatus } began)

namespace DotNet

def decideChecks (s : Store) (request : ReviewRequest) : Except HttpError Decision := do
  let user ← orRefuse (s.user? request.userId) notAuthenticated
  let decision ← orRefuse (Decision.ofString? request.decision)
    ⟨422, "decision must be 'approved' or 'rejected'"⟩
  let row ← orRefuse (s.document? request.documentId) documentNotFound
  refuse (row.scope ≠ .library ∨ row.reviewStatus ≠ .pendingSme) 409
    "Document is not pending SME review"
  refuse (¬ user.isAdmin ∧ ¬ pendingReviewer s user row) 403
    "Only an SME of this topic or an admin can review"
  refuse (row.ownerId = user.id) 403 "The uploader cannot review their own document"
  return decision

def decideApproval (now : Timestamp) (request : ReviewRequest) (decision : Decision) :
    Approval where
  documentId := request.documentId
  reviewerId := request.userId
  decision := decision
  note := request.note
  decidedAt := now

/-- The INSERT into `approvals`, committed on its own. -/
def insertDecision (request : ReviewRequest) (decision : Decision) (s : Store) :
    Except Exc Store :=
  Store.insertApproval (decideApproval s.now request decision) s

/-- The UPDATE of `review_status`, committed on its own. -/
def updateDecision (request : ReviewRequest) (decision : Decision) (s : Store) :
    Except Exc Store :=
  .ok (s.updateDocument request.documentId { reviewStatus := some decision.reviewStatus })

end DotNet

/-- An admin, or a designated SME of the document's topic. -/
def Authorized (s : Store) (userId : Uuid) (doc : Document) : Prop :=
  ∃ user, s.user? userId = some user ∧
    (user.role = .admin ∨ ∃ topic, doc.topicId = some topic ∧ topic ∈ s.smeTopicIds userId)

/-- What a request let through found in the store it read. -/
structure Passed (s : Store) (request : ReviewRequest) (decision : Decision) (doc : Document) :
    Prop where
  found : s.document? request.documentId = some doc
  decision : Decision.ofString? request.decision = some decision
  pending : doc.reviewStatus = .pendingSme
  notOwner : doc.ownerId ≠ request.userId
  authorized : Authorized s request.userId doc

theorem topicAmong_eq_true {topicId : Option Uuid} {topics : List Uuid} :
    topicAmong topicId topics = true ↔ ∃ topic, topicId = some topic ∧ topic ∈ topics := by
  cases topicId <;> simp [topicAmong]

variable {s : Store} {request : ReviewRequest} {decision : Decision}

theorem user?_id {userId : Uuid} {user : User} (h : s.user? userId = some user) :
    user.id = userId := (Relational.lookup_some h).2

theorem decideChecks_ok (h : decideChecks s request = .ok decision) :
    ∃ doc, Passed s request decision doc := by
  obtain ⟨user, huser, h⟩ := orRefuse_bind_ok h
  obtain ⟨d, hd, h⟩ := orRefuse_bind_ok h
  obtain ⟨doc, hdoc, h⟩ := orRefuse_bind_ok h
  obtain ⟨hauth, h⟩ := refuse_bind_ok h
  obtain ⟨howner, h⟩ := refuse_bind_ok h
  obtain ⟨hpending, h⟩ := refuse_bind_ok h
  obtain rfl := Except.ok.inj h
  rw [user?_id huser] at hauth howner
  refine ⟨doc, hdoc, hd, not_not.mp hpending, howner, user, huser, ?_⟩
  simpa [User.isAdmin, topicAmong_eq_true, or_iff_not_imp_left] using hauth

theorem DotNet.decideChecks_ok (h : DotNet.decideChecks s request = .ok decision) :
    ∃ doc, Passed s request decision doc := by
  obtain ⟨user, huser, h⟩ := orRefuse_bind_ok h
  obtain ⟨d, hd, h⟩ := orRefuse_bind_ok h
  obtain ⟨doc, hdoc, h⟩ := orRefuse_bind_ok h
  obtain ⟨hpending, h⟩ := refuse_bind_ok h
  obtain ⟨hauth, h⟩ := refuse_bind_ok h
  obtain ⟨howner, h⟩ := refuse_bind_ok h
  obtain rfl := Except.ok.inj h
  rw [user?_id huser] at howner
  push Not at hpending
  refine ⟨doc, hdoc, hd, hpending.2, howner, user, huser, ?_⟩
  by_cases hadmin : user.role = .admin
  · exact .inl hadmin
  · right
    have hsme : DotNet.designated s user.id doc.topicId = true := by
      simpa [User.isAdmin, hadmin, DotNet.pendingReviewer, hpending.2] using hauth
    rwa [DotNet.designated_eq, topicAmong_eq_true, user?_id huser] at hsme

def decisionEdit (approval : Approval) (decision : Decision) (now : Timestamp) : Edit where
  row := DocumentPatch.apply { reviewStatus := some decision.reviewStatus } now
  fixed _ := rfl
  approvals := [approval]

def approvalEdit (approval : Approval) : Edit where
  row r := r
  fixed _ := rfl
  approvals := [approval]

theorem decideCommit_ok {began : Timestamp} {s' : Store}
    (h : decideCommit began request decision s = .ok s') :
    let e := decisionEdit (decideApproval began request decision) decision began
    e.Fits request.documentId s ∧ s' = e.apply request.documentId s := by
  unfold decideCommit at h
  obtain ⟨s₁, hs₁, h⟩ := bind_ok h
  obtain ⟨hdoc, rfl⟩ := Store.insertApproval_ok hs₁
  obtain rfl := Except.ok.inj h
  refine ⟨⟨by simp [decisionEdit], by simp [decisionEdit], ?_, by simp [decisionEdit],
    fun _ => hdoc⟩, by simp [decisionEdit, Edit.apply, Store.setDocument]⟩
  simp [decisionEdit, decideApproval]

theorem DotNet.insertDecision_ok {s' : Store}
    (h : DotNet.insertDecision request decision s = .ok s') :
    let e := approvalEdit (DotNet.decideApproval s.now request decision)
    e.Fits request.documentId s ∧ s' = e.apply request.documentId s := by
  obtain ⟨hdoc, rfl⟩ := Store.insertApproval_ok h
  refine ⟨⟨by simp [approvalEdit], by simp [approvalEdit], ?_, by simp [approvalEdit],
    fun _ => hdoc⟩, by simp [approvalEdit, Edit.apply, Relational.update]⟩
  simp [approvalEdit, DotNet.decideApproval]

theorem DotNet.updateDecision_ok {s' : Store}
    (h : DotNet.updateDecision request decision s = .ok s') :
    s' = (Edit.ofPatch { reviewStatus := some decision.reviewStatus } s.now).apply
      request.documentId s := by
  obtain rfl := Except.ok.inj h
  exact Store.updateDocument_eq_apply _

/-! On a document that exists, no write is refused. -/

theorem insertApproval_exists {approval : Approval} (h : (s.document? approval.documentId).isSome) :
    ∃ s', Store.insertApproval approval s = .ok s' := ⟨_, if_pos h⟩

theorem decideCommit_exists (began : Timestamp) (decision : Decision)
    (h : (s.document? request.documentId).isSome) :
    ∃ s', decideCommit began request decision s = .ok s' := by
  obtain ⟨s', hs'⟩ := insertApproval_exists (s := s) (show
    (s.document? (decideApproval began request decision).documentId).isSome from h)
  exact ⟨_, by rw [decideCommit, hs']; rfl⟩

theorem DotNet.insertDecision_exists (decision : Decision)
    (h : (s.document? request.documentId).isSome) :
    ∃ s', DotNet.insertDecision request decision s = .ok s' := insertApproval_exists h

end Docsage
