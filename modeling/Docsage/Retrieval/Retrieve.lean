import Docsage.Library.Ranking
import Docsage.Providers.Embedding
import Docsage.Store.Tables

/-! # Chat retrieval

One nearest-neighbour query per visible provider space, at most two of them,
merged by similarity. pgvector's cosine distance and the order it returns ties
in belong to the database and are parameters.
-/

namespace Docsage
open Ranking

inductive ChatScope where
  | personal
  | admin
deriving DecidableEq, Repr

def topKDefault : ℕ := 6

def realProviderCutoff : ℚ := 15 / 100

def candidateFilter (userId : Uuid) (scope : ChatScope) (doc : Document) : Bool :=
  match scope with
  | .admin => doc.status ≠ .failed
  | .personal =>
    (doc.scope = .personal && doc.ownerId = userId) ||
      (doc.scope = .library && doc.reviewStatus = .approved)

/-- What the database contributes: the `<=>` operator and the order of equal distances. -/
structure VectorIndex where
  distance : List ℚ → List ℚ → ℚ
  orderBy : ∀ α, OrderBy α ℚ

/-- `SELECT DISTINCT embedding_provider ... ORDER BY embedding_provider`, before the cut. -/
def visibleProviders (s : Store) (visible : Document → Bool) : List ProviderName :=
  [.demo, .gemini, .openai].filter fun p =>
    s.documents.any fun d => visible d && d.embeddingProvider = p

structure Candidate where
  chunk : Chunk
  document : Document
  vector : Vector

/-- The row of a chunk in `chunks JOIN documents`, if the WHERE clause keeps it. -/
def candidate? (s : Store) (visible : Document → Bool) (providerName : ProviderName)
    (chunk : Chunk) : Option Candidate :=
  match s.document? chunk.documentId, chunk.embedding with
  | some document, some vector =>
    if visible document && document.embeddingProvider = providerName then
      some ⟨chunk, document, vector⟩
    else none
  | _, _ => none

def candidates (s : Store) (visible : Document → Bool) (providerName : ProviderName) :
    List Candidate :=
  s.chunks.filterMap (candidate? s visible providerName)

structure RetrievedChunk where
  chunkId : Uuid
  documentId : Uuid
  documentTitle : String
  content : String
  page : Option ℕ
  similarity : ℚ
  provider : ProviderName
deriving DecidableEq

namespace Candidate

def similarity (index : VectorIndex) (query : Vector) (c : Candidate) : ℚ :=
  1 - index.distance query.components c.vector.components

def retrieved (index : VectorIndex) (query : Vector) (providerName : ProviderName)
    (c : Candidate) : RetrievedChunk where
  chunkId := c.chunk.id
  documentId := c.document.id
  documentTitle := c.document.title
  content := c.chunk.content
  page := c.chunk.page
  similarity := c.similarity index query
  provider := providerName

end Candidate

/-- The `LIMIT k` query of one space. -/
def nearestCandidates (index : VectorIndex) (s : Store) (visible : Document → Bool)
    (providerName : ProviderName) (query : Vector) (k : ℕ) : List Candidate :=
  (index.orderBy Candidate).nearest
    (fun c => index.distance query.components c.vector.components) k
    (candidates s visible providerName)

/-- `REAL_PROVIDER_CUTOFF if provider_name != "demo" else -1.0`. -/
def cutoff (providerName : ProviderName) : ℚ :=
  if providerName ≠ .demo then realProviderCutoff else -1

def retrieveSpace (index : VectorIndex) (s : Store) (visible : Document → Bool) (k : ℕ)
    (query : Vector) (providerName : ProviderName) : List RetrievedChunk :=
  ((nearestCandidates index s visible providerName query k).filter fun c =>
    ¬ c.similarity index query < cutoff providerName).map (·.retrieved index query providerName)

def queryVector (settings : Settings) (service : EmbeddingService) (question : String)
    (providerName : ProviderName) : Except Exc Vector := do
  let provider ← getProvider providerName settings service
  provider.embedQuery question

/-- `merged.sort(key=similarity, reverse=True)` and the final cut. -/
def mergeRanked (k : ℕ) (merged : List RetrievedChunk) : List RetrievedChunk :=
  (rank (·.similarity) merged).take k

def retrieve (index : VectorIndex) (settings : Settings) (service : EmbeddingService) (s : Store)
    (user : User) (scope : ChatScope) (question : String) (k : ℕ) :
    Except Exc (List RetrievedChunk) := do
  let visible := candidateFilter user.id scope
  let merged ← ((visibleProviders s visible).take 2).mapM fun providerName => do
    let query ← queryVector settings service question providerName
    return retrieveSpace index s visible k query providerName
  return mergeRanked k merged.flatten

namespace DotNet

def candidatePredicate (userId : Uuid) (scope : ChatScope) (doc : Document) : Bool :=
  ((scope = .admin) && doc.status ≠ .failed) ||
    (!(scope = .admin) &&
      ((doc.ownerId = userId && doc.scope = .personal) ||
        (doc.scope = .library && doc.reviewStatus = .approved)))

/-- `OrderBy(p => p, StringComparer.Ordinal).Take(2)` over the distinct names. -/
def providerNames (s : Store) (userId : Uuid) (scope : ChatScope) : List ProviderName :=
  (visibleProviders s (candidatePredicate userId scope)).take 2

/-- The query vector of a space, from whatever provider is resolved for it. -/
def queryVector (options : DocsageOptions) (service : EmbeddingService) (question : Text.Utf16)
    (providerName : ProviderName) : Except Exc Vector :=
  (resolve options service providerName).embedQuery question

/-- One iteration of the loop: the demo space has no cutoff. -/
def retrieveSpace (index : VectorIndex) (s : Store) (visible : Document → Bool)
    (query : Vector) (providerName : ProviderName) : List RetrievedChunk :=
  ((nearestCandidates index s visible providerName query topKDefault).filter fun c =>
    providerName = .demo ∨ c.similarity index query ≥ realProviderCutoff).map
      (·.retrieved index query providerName)

def retrieveAsync (index : VectorIndex) (options : DocsageOptions) (service : EmbeddingService)
    (s : Store) (userId : Uuid) (scope : ChatScope) (question : Text.Utf16) :
    Except Exc (List RetrievedChunk) := do
  let visible := candidatePredicate userId scope
  let merged ← (providerNames s userId scope).mapM fun providerName => do
    let query ← queryVector options service question providerName
    return retrieveSpace index s visible query providerName
  return mergeRanked topKDefault merged.flatten

end DotNet

/-- One evaluation of `<=>`: the two vectors, and the space the document names. -/
structure Comparison where
  query : Vector
  stored : Vector
  provider : ProviderName
deriving DecidableEq

/-- The comparisons of the nearest-neighbour query of one space. -/
def comparisons (s : Store) (visible : Document → Bool) (providerName : ProviderName)
    (query : Vector) : List Comparison :=
  (candidates s visible providerName).map fun c =>
    ⟨query, c.vector, c.document.embeddingProvider⟩

/-- Both vectors come from the implementation that the document names. -/
def Comparison.SameSpace (c : Comparison) : Prop :=
  c.query.implementation = c.provider ∧ c.stored.implementation = c.provider

instance (c : Comparison) : Decidable c.SameSpace := instDecidableAnd

theorem mem_candidates {s : Store} {visible : Document → Bool} {p : ProviderName}
    {c : Candidate} : c ∈ candidates s visible p ↔
      c.chunk ∈ s.chunks ∧ s.document? c.chunk.documentId = some c.document ∧
        c.chunk.embedding = some c.vector ∧ visible c.document = true ∧
        c.document.embeddingProvider = p := by
  simp only [candidates, candidate?, List.mem_filterMap]
  constructor
  · rintro ⟨chunk, hchunk, h⟩
    split at h
    · next document vector hdoc hvec =>
      split at h
      · next hv =>
        obtain rfl := Option.some.inj h
        exact ⟨hchunk, hdoc, hvec, by simpa using hv⟩
      · cases h
    · cases h
  · rintro ⟨hchunk, hdoc, hvec, hvis, hp⟩
    exact ⟨c.chunk, hchunk, by simp [hdoc, hvec, hvis, hp]⟩

end Docsage
