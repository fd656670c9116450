import Docsage.Store.Tables

/-! # Edits under one document

Every statement of the pipelines and the review endpoints changes one document
row and appends rows under it. `Edit` carries that no such change touches the
columns fixed at upload, so a frame fact is proved once for all statements.
-/

namespace Docsage
open Relational

structure FixedColumns where
  id : Uuid
  ownerId : Uuid
  scope : Scope
  topicId : Option Uuid
  embeddingProvider : ProviderName
deriving DecidableEq

def Document.fixed (r : Document) : FixedColumns :=
  ⟨r.id, r.ownerId, r.scope, r.topicId, r.embeddingProvider⟩

/-- A new value for one row, and rows appended under it. -/
structure Edit where
  row : Document → Document
  fixed : ∀ r, (row r).fixed = r.fixed
  enrichments : List Enrichment := []
  chunks : List Chunk := []
  approvals : List Approval := []

namespace Edit

variable (e : Edit) (r : Document)

theorem row_id : (e.row r).id = r.id := congrArg FixedColumns.id (e.fixed r)
theorem row_scope : (e.row r).scope = r.scope := congrArg FixedColumns.scope (e.fixed r)
theorem row_topicId : (e.row r).topicId = r.topicId := congrArg FixedColumns.topicId (e.fixed r)
theorem row_embeddingProvider : (e.row r).embeddingProvider = r.embeddingProvider :=
  congrArg FixedColumns.embeddingProvider (e.fixed r)

def ofPatch (patch : DocumentPatch) (now : Timestamp) : Edit where
  row := patch.apply now
  fixed _ := rfl

def apply (e : Edit) (id : Uuid) (s : Store) : Store :=
  { s with
    documents := update Document.id id e.row s.documents
    enrichments := s.enrichments ++ e.enrichments
    chunks := s.chunks ++ e.chunks
    approvals := s.approvals ++ e.approvals }

/-- The appended rows belong to the document, and the document exists if there are any. -/
structure Fits (e : Edit) (id : Uuid) (s : Store) : Prop where
  enrichments : ∀ r ∈ e.enrichments, r.documentId = id
  chunks : ∀ r ∈ e.chunks, r.documentId = id
  approvals : ∀ r ∈ e.approvals, r.documentId = id
  exists_of_chunks : e.chunks ≠ [] → (s.document? id).isSome
  exists_of_approvals : e.approvals ≠ [] → (s.document? id).isSome

theorem Fits.ofPatch (patch : DocumentPatch) (now : Timestamp) (id : Uuid) (s : Store) :
    (ofPatch patch now).Fits id s := by
  constructor <;> simp [Edit.ofPatch]

variable {e} {id j : Uuid} {s : Store}

theorem document?_apply : (e.apply id s).document? id = (s.document? id).map e.row :=
  lookup_update e.row_id

theorem document?_apply_ne (hj : j ≠ id) : (e.apply id s).document? j = s.document? j :=
  lookup_update_ne e.row_id hj

theorem chunksOf_apply (fits : e.Fits id s) :
    (e.apply id s).chunksOf id = s.chunksOf id ++ e.chunks := by
  rw [Store.chunksOf, apply, select_append, select_eq_self fits.chunks]
  rfl

theorem chunksOf_apply_ne (fits : e.Fits id s) (hj : j ≠ id) :
    (e.apply id s).chunksOf j = s.chunksOf j := by
  have hnone : select Chunk.documentId j e.chunks = [] :=
    select_eq_nil fun r hr => by rw [fits.chunks r hr]; exact Ne.symm hj
  rw [Store.chunksOf, apply, select_append, hnone, List.append_nil]
  rfl

theorem enrichmentsOf_apply (owned : ∀ r ∈ e.enrichments, r.documentId = id) :
    (e.apply id s).enrichmentsOf id = s.enrichmentsOf id ++ e.enrichments := by
  rw [Store.enrichmentsOf, apply, select_append, select_eq_self owned]
  rfl

theorem approvalsOf_apply (fits : e.Fits id s) :
    (e.apply id s).approvalsOf id = s.approvalsOf id ++ e.approvals := by
  rw [Store.approvalsOf, apply, select_append, select_eq_self fits.approvals]
  rfl

theorem approvalsOf_apply_ne (fits : e.Fits id s) (hj : j ≠ id) :
    (e.apply id s).approvalsOf j = s.approvalsOf j := by
  have hnone : select Approval.documentId j e.approvals = [] :=
    select_eq_nil fun r hr => by rw [fits.approvals r hr]; exact Ne.symm hj
  rw [Store.approvalsOf, apply, select_append, hnone, List.append_nil]
  rfl

end Edit

/-! The statements are edits. -/

namespace Store

variable {id : Uuid} {s s' : Store}

theorem updateDocument_eq_apply (patch : DocumentPatch) :
    s.updateDocument id patch = (Edit.ofPatch patch s.now).apply id s := by
  simp [updateDocument, setDocument, Edit.apply, Edit.ofPatch]

end Store

end Docsage
