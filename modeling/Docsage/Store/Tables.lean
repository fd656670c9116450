import Docsage.Library.Table
import Docsage.Store.Schema

/-! # The store and its statements

The state shared by both backends, with the statements they send to it. An
insert checks the foreign key that the schema declares; a delete cascades.
-/

namespace Docsage
open Relational

structure Store where
  now : Timestamp
  users : List User := []
  sessions : List Session := []
  topics : List Topic := []
  smeDesignations : List SmeDesignation := []
  documents : List Document := []
  chunks : List Chunk := []
  enrichments : List Enrichment := []
  approvals : List Approval := []
deriving DecidableEq

/-- An instance of `Exception`. Only the class tested by an `except` clause is kept. -/
structure Exc where
  isValueError : Bool := false
  message : String
deriving DecidableEq, Repr

/-- New values for the columns of one `documents` row; `none` leaves a column alone. -/
structure DocumentPatch where
  status : Option Status := none
  statusError : Option (Option String) := none
  embeddingModel : Option String := none
  reviewStatus : Option ReviewStatus := none
  chunkCount : Option ℕ := none
  pageCount : Option (Option ℕ) := none
deriving DecidableEq

/-- `UPDATE documents SET ..., updated_at = now()` on one row. -/
def DocumentPatch.apply (patch : DocumentPatch) (now : Timestamp) (row : Document) : Document :=
  { row with
    status := patch.status.getD row.status
    statusError := patch.statusError.getD row.statusError
    embeddingModel := patch.embeddingModel.getD row.embeddingModel
    reviewStatus := patch.reviewStatus.getD row.reviewStatus
    chunkCount := patch.chunkCount.getD row.chunkCount
    pageCount := patch.pageCount.getD row.pageCount
    updatedAt := now }

namespace Store

def document? (s : Store) (id : Uuid) : Option Document := lookup Document.id id s.documents

def user? (s : Store) (id : Uuid) : Option User := lookup User.id id s.users

def topic? (s : Store) (id : Uuid) : Option Topic := lookup Topic.id id s.topics

def chunksOf (s : Store) (id : Uuid) : List Chunk := select Chunk.documentId id s.chunks

def enrichmentsOf (s : Store) (id : Uuid) : List Enrichment :=
  select Enrichment.documentId id s.enrichments

def approvalsOf (s : Store) (id : Uuid) : List Approval :=
  select Approval.documentId id s.approvals

def smeTopicIds (s : Store) (userId : Uuid) : List Uuid :=
  (s.smeDesignations.filter fun r => r.userId = userId).map (·.topicId)

def setDocument (s : Store) (id : Uuid) (f : Document → Document) : Store :=
  { s with documents := update Document.id id f s.documents }

def insertDocument (s : Store) (row : Document) : Store :=
  { s with documents := s.documents ++ [row] }

/-- The row goes, and ON DELETE CASCADE takes its chunks, enrichments and approvals. -/
def deleteDocument (s : Store) (id : Uuid) : Store :=
  { s with
    documents := delete Document.id id s.documents
    chunks := delete Chunk.documentId id s.chunks
    enrichments := delete Enrichment.documentId id s.enrichments
    approvals := delete Approval.documentId id s.approvals }

/-- A raw SQL `UPDATE documents ... WHERE id = @id`: a vanished row is zero rows, not an error. -/
def updateDocument (id : Uuid) (patch : DocumentPatch) (s : Store) : Store :=
  s.setDocument id (patch.apply s.now)

/-- `insert or update on table violates foreign key constraint`. -/
def foreignKeyViolation : Exc := { message := "violates foreign key constraint" }

def insertEnrichments (rows : List Enrichment) (s : Store) : Except Exc Store :=
  if rows.all fun r => (s.document? r.documentId).isSome then
    .ok { s with enrichments := s.enrichments ++ rows }
  else .error foreignKeyViolation

def insertChunks (rows : List Chunk) (s : Store) : Except Exc Store :=
  if rows.all fun r => (s.document? r.documentId).isSome then
    .ok { s with chunks := s.chunks ++ rows }
  else .error foreignKeyViolation

def insertApproval (row : Approval) (s : Store) : Except Exc Store :=
  if (s.document? row.documentId).isSome then
    .ok { s with approvals := s.approvals ++ [row] }
  else .error foreignKeyViolation

end Store

namespace DocumentPatch

variable (patch : DocumentPatch) (now : Timestamp) (row : Document)

@[simp] theorem apply_status :
    (patch.apply now row).status = patch.status.getD row.status := rfl
@[simp] theorem apply_reviewStatus :
    (patch.apply now row).reviewStatus = patch.reviewStatus.getD row.reviewStatus := rfl
@[simp] theorem apply_chunkCount :
    (patch.apply now row).chunkCount = patch.chunkCount.getD row.chunkCount := rfl

end DocumentPatch

namespace Store

variable {s : Store} {id : Uuid}

@[simp] theorem document?_deleteDocument : (s.deleteDocument id).document? id = none :=
  lookup_delete

theorem document?_deleteDocument_ne {j : Uuid} (hj : j ≠ id) :
    (s.deleteDocument id).document? j = s.document? j := lookup_delete_ne hj

theorem document?_id {row : Document} (h : s.document? id = some row) : row.id = id :=
  (lookup_some h).2

theorem document?_mem {row : Document} (h : s.document? id = some row) : row ∈ s.documents :=
  (lookup_some h).1

theorem document?_insertDocument {row : Document} (fresh : s.document? row.id = none) (j : Uuid) :
    (s.insertDocument row).document? j = if row.id = j then some row else s.document? j := by
  unfold document? insertDocument lookup at *
  rw [List.find?_append]
  split_ifs with h
  · subst h; simp [fresh]
  · cases List.find? (fun r => decide (r.id = j)) s.documents <;> simp [h]

/-! What a statement leaves in the rows of one document. -/

@[simp] theorem chunksOf_deleteDocument : (s.deleteDocument id).chunksOf id = [] := select_delete

@[simp] theorem approvalsOf_deleteDocument : (s.deleteDocument id).approvalsOf id = [] :=
  select_delete

theorem chunksOf_deleteDocument_ne {j : Uuid} (hj : j ≠ id) :
    (s.deleteDocument id).chunksOf j = s.chunksOf j := select_delete_ne hj

theorem approvalsOf_deleteDocument_ne {j : Uuid} (hj : j ≠ id) :
    (s.deleteDocument id).approvalsOf j = s.approvalsOf j := select_delete_ne hj

theorem insertEnrichments_ok {rows : List Enrichment} {s' : Store}
    (h : insertEnrichments rows s = .ok s') :
    (∀ r ∈ rows, (s.document? r.documentId).isSome) ∧
      s' = { s with enrichments := s.enrichments ++ rows } := by
  unfold insertEnrichments at h
  split at h
  · exact ⟨by simpa using ‹(rows.all _) = true›, (Except.ok.inj h).symm⟩
  · cases h

theorem insertChunks_ok {rows : List Chunk} {s' : Store} (h : insertChunks rows s = .ok s') :
    (∀ r ∈ rows, (s.document? r.documentId).isSome) ∧
      s' = { s with chunks := s.chunks ++ rows } := by
  unfold insertChunks at h
  split at h
  · exact ⟨by simpa using ‹(rows.all _) = true›, (Except.ok.inj h).symm⟩
  · cases h

theorem insertApproval_ok {row : Approval} {s' : Store} (h : insertApproval row s = .ok s') :
    (s.document? row.documentId).isSome ∧ s' = { s with approvals := s.approvals ++ [row] } := by
  unfold insertApproval at h
  split at h
  · exact ⟨‹_›, (Except.ok.inj h).symm⟩
  · cases h

end Store
end Docsage
