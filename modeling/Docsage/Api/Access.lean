import Docsage.Library.Program
import Docsage.Store.Tables

/-! # Who may see and review a document

The access predicates of both backends, each written separately in the source.
SME authority is a designation for the topic of the document, not a role.
-/

namespace Docsage
open Effects

/-- `HTTPException`, and the JSON error of the .NET backend. -/
structure HttpError where
  status : ℕ
  detail : String
deriving DecidableEq, Repr

def notAuthenticated : HttpError := ⟨401, "Not authenticated"⟩
def documentNotFound : HttpError := ⟨404, "Document not found"⟩
/-- An exception that leaves the handler. -/
def internalError : HttpError := ⟨500, "Internal Server Error"⟩

/-- `if condition: raise HTTPException(status, detail)`. -/
def refuse (condition : Prop) [Decidable condition] (status : ℕ) (detail : String) :
    Except HttpError Unit :=
  if condition then .error ⟨status, detail⟩ else .ok ()

/-- A check that also yields a value: the row or the parsed literal, or the refusal. -/
def orRefuse {α : Type} (value : Option α) (error : HttpError) : Except HttpError α :=
  match value with
  | some a => .ok a
  | none => .error error

theorem refuse_bind_ok {condition : Prop} [Decidable condition] {status : ℕ} {detail : String}
    {β : Type} {f : Unit → Except HttpError β} {b : β}
    (h : (refuse condition status detail >>= f) = .ok b) : ¬ condition ∧ f () = .ok b := by
  obtain ⟨⟨⟩, hr, hf⟩ := bind_ok h
  refine ⟨fun hc => ?_, hf⟩
  rw [refuse, if_pos hc] at hr
  cases hr

theorem refuse_bind_of {condition : Prop} [Decidable condition] {status : ℕ} {detail : String}
    {β : Type} {f : Unit → Except HttpError β} (h : condition) :
    (refuse condition status detail >>= f) = .error ⟨status, detail⟩ := by
  rw [refuse, if_pos h]
  rfl

theorem refuse_bind_of_not {condition : Prop} [Decidable condition] {status : ℕ} {detail : String}
    {β : Type} {f : Unit → Except HttpError β} (h : ¬ condition) :
    (refuse condition status detail >>= f) = f () := by
  rw [refuse, if_neg h]
  rfl

/-- A request that was refused, by this check or by a later one. -/
theorem refuse_bind_error {condition : Prop} [Decidable condition] {status : ℕ} {detail : String}
    {β : Type} {f : Unit → Except HttpError β} {e : HttpError}
    (h : (refuse condition status detail >>= f) = .error e) :
    e.status = status ∨ f () = .error e := by
  unfold refuse at h
  split at h
  · left
    obtain rfl := Except.error.inj h
    rfl
  · exact .inr h

theorem orRefuse_bind_some {α β : Type} {value : Option α} {a : α} {error : HttpError}
    {f : α → Except HttpError β} (h : value = some a) : (orRefuse value error >>= f) = f a := by
  rw [h]
  rfl

theorem orRefuse_bind_ok {α β : Type} {value : Option α} {error : HttpError}
    {f : α → Except HttpError β} {b : β} (h : (orRefuse value error >>= f) = .ok b) :
    ∃ a, value = some a ∧ f a = .ok b := by
  cases value with
  | none => cases h
  | some a => exact ⟨a, rfl, h⟩

def User.isAdmin (user : User) : Bool := user.role = .admin

/-- `topic_id is not None and topic_id in sme_topics`. -/
def topicAmong (topicId : Option Uuid) (smeTopics : List Uuid) : Bool :=
  match topicId with
  | none => false
  | some topic => topic ∈ smeTopics

def pendingReviewer (user : User) (doc : Document) (smeTopics : List Uuid) : Bool :=
  doc.reviewStatus = .pendingSme && (user.isAdmin || topicAmong doc.topicId smeTopics)

def canViewDocument (user : User) (doc : Document) (smeTopics : List Uuid) : Bool :=
  if doc.ownerId = user.id ∨ user.isAdmin then true
  else if doc.scope ≠ .library then false
  else if doc.reviewStatus = .approved then true
  else topicAmong doc.topicId smeTopics

/-- `DocumentSummary`, with the names of the joined topic and owner. -/
structure DocumentSummary where
  id : Uuid
  title : String
  sourceFilename : String
  mimeType : String
  scope : Scope
  status : Status
  statusError : Option String
  embeddingProvider : ProviderName
  embeddingModel : String
  topic : Option (Uuid × String)
  reviewStatus : ReviewStatus
  chunkCount : ℕ
  sizeBytes : ℕ
  createdAt : Timestamp
  owner : Option (Uuid × String)
  pendingReviewer : Bool
deriving DecidableEq

/-- `summarize`, over the rows that `joinedload` fetches. -/
def summarize (s : Store) (doc : Document) (user : User) (smeTopics : List Uuid) :
    DocumentSummary where
  id := doc.id
  title := doc.title
  sourceFilename := doc.sourceFilename
  mimeType := doc.mimeType
  scope := doc.scope
  status := doc.status
  statusError := doc.statusError
  embeddingProvider := doc.embeddingProvider
  embeddingModel := doc.embeddingModel
  topic := (doc.topicId.bind s.topic?).map fun t => (t.id, t.name)
  reviewStatus := doc.reviewStatus
  chunkCount := doc.chunkCount
  sizeBytes := doc.sizeBytes
  createdAt := doc.createdAt
  owner := (s.user? doc.ownerId).map fun u => (u.id, u.displayName)
  pendingReviewer := pendingReviewer user doc smeTopics

namespace DotNet

/-- `EXISTS (SELECT 1 FROM sme_designations WHERE user_id = @UserId AND topic_id = d.topic_id)`. -/
def designated (s : Store) (userId : Uuid) (topicId : Option Uuid) : Bool :=
  s.smeDesignations.any fun r => r.userId = userId && topicId = some r.topicId

def pendingReviewer (s : Store) (user : User) (doc : Document) : Bool :=
  doc.reviewStatus = .pendingSme && (user.isAdmin || designated s user.id doc.topicId)

end DotNet

/-- The two backends mean the same by a designation for the topic. -/
theorem DotNet.designated_eq (s : Store) (userId : Uuid) (topicId : Option Uuid) :
    DotNet.designated s userId topicId = topicAmong topicId (s.smeTopicIds userId) := by
  cases topicId with
  | none => simp [designated, topicAmong]
  | some t =>
    have hmem : t ∈ s.smeTopicIds userId ↔
        ∃ r ∈ s.smeDesignations, r.userId = userId ∧ t = r.topicId := by
      simp only [Store.smeTopicIds, List.mem_map, List.mem_filter, decide_eq_true_eq]
      constructor
      · rintro ⟨r, ⟨hr, hu⟩, ht⟩
        exact ⟨r, hr, hu, ht.symm⟩
      · rintro ⟨r, hr, hu, ht⟩
        exact ⟨r, ⟨hr, hu⟩, ht.symm⟩
    rw [Bool.eq_iff_iff]
    simp [designated, topicAmong, hmem]

end Docsage
