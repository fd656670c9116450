import Mathlib.Data.Rat.Defs

/-! # Rows of the shared database

One structure per table of the schema that both backends use, with the columns
some modelled function reads or writes. Columns under a CHECK constraint are
enumerations; every other text column is a string. Timestamps count microseconds.
-/

namespace Docsage

abbrev Uuid := ℕ
abbrev Timestamp := ℤ

/-- `check (role in ('user','admin'))`. -/
inductive Role where
  | user
  | admin
deriving DecidableEq, Repr

/-- `check (scope in ('personal','library'))`. -/
inductive Scope where
  | personal
  | library
deriving DecidableEq, Repr

/-- `ck_documents_status`, in pipeline order. -/
inductive Status where
  | queued
  | extracting
  | enriching
  | embedding
  | ready
  | failed
deriving DecidableEq, Repr

/-- `ck_documents_review_status`. -/
inductive ReviewStatus where
  | notRequired
  | pendingSme
  | approved
  | rejected
deriving DecidableEq, Repr

/-- `ck_approvals_decision`. -/
inductive Decision where
  | approved
  | rejected
deriving DecidableEq, Repr

/-- `ck_documents_embedding_provider`. -/
inductive ProviderName where
  | gemini
  | openai
  | demo
deriving DecidableEq, Repr

/-- `ck_chunks_kind`. -/
inductive ChunkKind where
  | text
  | table
  | imageDescription
deriving DecidableEq, Repr

/-- `ck_enrichments_kind`. -/
inductive EnrichmentKind where
  | summary
  | keywords
  | questions
  | caption
deriving DecidableEq, Repr

def Scope.ofString? : String → Option Scope
  | "personal" => some .personal
  | "library" => some .library
  | _ => none

def Decision.ofString? : String → Option Decision
  | "approved" => some .approved
  | "rejected" => some .rejected
  | _ => none

/-- `doc.review_status = payload.decision`: the two columns share the words. -/
def Decision.reviewStatus : Decision → ReviewStatus
  | .approved => .approved
  | .rejected => .rejected

def ProviderName.ofString? : String → Option ProviderName
  | "gemini" => some .gemini
  | "openai" => some .openai
  | "demo" => some .demo
  | _ => none

/-- The statuses only a pipeline run leaves. -/
def Status.transient : Status → Bool
  | .queued | .extracting | .enriching | .embedding => true
  | .ready | .failed => false

def Status.terminal (s : Status) : Bool := !s.transient

@[simp] theorem Decision.reviewStatus_ne_notRequired (d : Decision) :
    d.reviewStatus ≠ .notRequired := by cases d <;> decide

@[simp] theorem Decision.reviewStatus_ne_pendingSme (d : Decision) :
    d.reviewStatus ≠ .pendingSme := by cases d <;> decide

/-- A stored or query vector. `implementation` records which embedding implementation computed
it; the database stores the components only. -/
structure Vector where
  implementation : ProviderName
  components : List ℚ
deriving DecidableEq

structure User where
  id : Uuid
  email : String
  passwordHash : String
  displayName : String
  role : Role
deriving DecidableEq

structure Session where
  token : String
  userId : Uuid
  expiresAt : Timestamp
deriving DecidableEq

structure Topic where
  id : Uuid
  name : String
deriving DecidableEq

structure SmeDesignation where
  topicId : Uuid
  userId : Uuid
deriving DecidableEq

structure Document where
  id : Uuid
  ownerId : Uuid
  scope : Scope
  title : String
  sourceFilename : String
  mimeType : String
  sizeBytes : ℕ
  status : Status := .queued
  statusError : Option String := none
  embeddingProvider : ProviderName
  embeddingModel : String := ""
  topicId : Option Uuid
  reviewStatus : ReviewStatus := .notRequired
  chunkCount : ℕ := 0
  pageCount : Option ℕ := none
  createdAt : Timestamp
  updatedAt : Timestamp
deriving DecidableEq

structure Chunk where
  id : Uuid
  documentId : Uuid
  ordinal : ℕ
  content : String
  kind : ChunkKind
  page : Option ℕ
  tokenCount : ℕ
  embedding : Option Vector
deriving DecidableEq

structure Enrichment where
  documentId : Uuid
  kind : EnrichmentKind
  content : String
deriving DecidableEq

structure Approval where
  documentId : Uuid
  reviewerId : Uuid
  decision : Decision
  note : String
  decidedAt : Timestamp
deriving DecidableEq

end Docsage
