import Docsage.Library.Program
import Docsage.Retrieval.Retrieve
import Mathlib.Algebra.Order.Ring.Rat

/-! # What retrieval leaves out

The limit of a space, its floor and the final cut drop a chunk only for chunks
that are at least as similar. The cut of the provider list is different: it
drops whole spaces, whatever their scores.
-/

namespace Docsage
open Effects Ranking

/-- The floor of a space; the demo space has none. -/
def passesFloor (providerName : ProviderName) (similarity : ℚ) : Bool :=
  providerName = .demo || realProviderCutoff ≤ similarity

/-- The visible chunks of a space that pass its floor, for the query vector of each space. -/
def offered (index : VectorIndex) (s : Store) (visible : Document → Bool)
    (query : ProviderName → Vector) (providerName : ProviderName) : List RetrievedChunk :=
  ((candidates s visible providerName).filter fun c =>
    passesFloor providerName (c.similarity index (query providerName))).map
      (·.retrieved index (query providerName) providerName)

/-- The spaces that are asked: the first two, in alphabetical order, with a visible document. -/
def queriedSpaces (s : Store) (visible : Document → Bool) : List ProviderName :=
  (visibleProviders s visible).take 2

def SimilaritiesBounded (index : VectorIndex) (s : Store) (visible : Document → Bool)
    (query : ProviderName → Vector) : Prop :=
  ∀ p, ∀ c ∈ candidates s visible p,
    -1 ≤ c.similarity index (query p) ∧ c.similarity index (query p) ≤ 1

section Best

variable {index : VectorIndex} {settings : Settings} {service : EmbeddingService} {s : Store}
  {visible : Document → Bool} {query : ProviderName → Vector} {p : ProviderName} {k : ℕ}

theorem nearestCandidates_best (q : Vector) :
    BestOf (·.similarity index q) k (candidates s visible p)
      (nearestCandidates index s visible p q k) := by
  refine .nearest (index.orderBy Candidate) fun a b h => ?_
  exact sub_le_sub_left h 1

theorem passesFloor_mono {σ τ : ℚ} (h : passesFloor p σ = true) (hle : σ ≤ τ) :
    passesFloor p τ = true := by
  by_cases hp : p = .demo
  · simp [passesFloor, hp]
  · simp only [passesFloor, hp, decide_false, Bool.false_or, decide_eq_true_eq] at h ⊢
    exact h.trans hle

/-- One iteration of the loop cuts below the floor; that of the demo space cuts nothing. -/
theorem retrieveSpace_eq_floor {q : Vector}
    (low : ∀ c ∈ candidates s visible p, -1 ≤ c.similarity index q) :
    retrieveSpace index s visible k q p =
      ((nearestCandidates index s visible p q k).filter fun c =>
        passesFloor p (c.similarity index q)).map (·.retrieved index q p) := by
  rw [retrieveSpace]
  congr 1
  apply List.filter_congr
  intro c hc
  have hlow := low c ((index.orderBy Candidate).mem_of_mem_nearest hc)
  by_cases hp : p = .demo
  · simp [passesFloor, cutoff, hp, hlow]
  · simp [passesFloor, cutoff, hp]

theorem retrieveSpace_best (bounded : SimilaritiesBounded index s visible query) :
    BestOf (·.similarity) k (offered index s visible query p)
      (retrieveSpace index s visible k (query p) p) := by
  rw [retrieveSpace_eq_floor fun c hc => (bounded p c hc).1]
  exact ((nearestCandidates_best (query p)).filter fun a b => passesFloor_mono).map fun _ => rfl

/-- Over the spaces that are asked, retrieval returns the best chunks. -/
theorem retrieve_best (user : User) (scope : ChatScope) (question : String)
    (available : ∀ p, queryVector settings service question p = .ok (query p))
    (bounded : SimilaritiesBounded index s (candidateFilter user.id scope) query) :
    ∃ result, retrieve index settings service s user scope question k = .ok result ∧
      BestOf (·.similarity) k ((queriedSpaces s (candidateFilter user.id scope)).flatMap
        (offered index s (candidateFilter user.id scope) query)) result := by
  refine ⟨_, ?_, .merge fun p _ => retrieveSpace_best bounded⟩
  rw [retrieve, mapM_eq_ok fun p _ => by rw [available p]; rfl]
  rfl

namespace DotNet

theorem retrieveSpace_best : BestOf (·.similarity) topKDefault (offered index s visible query p)
    (DotNet.retrieveSpace index s visible (query p) p) := by
  have hkept : (fun c : Candidate =>
      decide (p = .demo ∨ c.similarity index (query p) ≥ realProviderCutoff)) =
      fun c => passesFloor p (c.similarity index (query p)) := by
    funext c
    simp [passesFloor]
  rw [DotNet.retrieveSpace, hkept]
  exact ((nearestCandidates_best (query p)).filter fun a b => passesFloor_mono).map fun _ => rfl

/-- The .NET retrieval returns the best chunks of the spaces it asks, too. -/
theorem retrieveAsync_best {options : DocsageOptions} {service : EmbeddingService} (userId : Uuid)
    (scope : ChatScope) (question : Text.Utf16)
    (available : ∀ p, DotNet.queryVector options service question p = .ok (query p)) :
    ∃ result, retrieveAsync index options service s userId scope question = .ok result ∧
      BestOf (·.similarity) topKDefault ((providerNames s userId scope).flatMap
        (offered index s (candidatePredicate userId scope) query)) result := by
  refine ⟨_, ?_, .merge fun p _ => retrieveSpace_best⟩
  rw [retrieveAsync, mapM_eq_ok fun p _ => by rw [available p]; rfl]
  rfl

end DotNet

end Best

namespace Mixed

/-! A corpus with a chunk in each of the three spaces, all keys configured. Similarity is the
component of the chunk. -/

def owner : User := ⟨1, "ada@agency.test", "", "Ada", .user⟩

def document (id : Uuid) (space : ProviderName) : Document where
  id := id
  ownerId := owner.id
  scope := .personal
  title := "Notes"
  sourceFilename := "notes.txt"
  mimeType := "text/plain"
  sizeBytes := 4
  status := .ready
  embeddingProvider := space
  topicId := none
  chunkCount := 1
  createdAt := 0
  updatedAt := 0

def chunk (id documentId : Uuid) (space : ProviderName) (similarity : ℚ) : Chunk where
  id := id
  documentId := documentId
  ordinal := 0
  content := ""
  kind := .text
  page := none
  tokenCount := 0
  embedding := some ⟨space, [similarity]⟩

def corpus : Store where
  now := 0
  users := [owner]
  documents := [document 11 .demo, document 12 .gemini, document 13 .openai]
  chunks := [chunk 21 11 .demo 0, chunk 22 12 .gemini (1 / 2), chunk 23 13 .openai 1]

def index : VectorIndex where
  distance _ stored := 1 - stored.headD 0
  orderBy _ := .stable

def settings : Settings := { demoMode := false, geminiApiKey := "g", openaiApiKey := "o" }

def service : EmbeddingService :=
  { offlineService with embedTexts := fun _ _ texts => .ok (texts.map fun _ => [1]) }

def query (p : ProviderName) : Vector :=
  match p with
  | .demo => ⟨.demo, service.demoVector "?"⟩
  | p => ⟨p, [1]⟩

theorem available (p : ProviderName) : queryVector settings service "?" p = .ok (query p) := by
  cases p <;> rfl

theorem bounded :
    SimilaritiesBounded index corpus (candidateFilter owner.id .personal) query := by
  intro p
  cases p <;> decide +kernel

theorem retrieve_eq : retrieve index settings service corpus owner .personal "?" 6 =
    .ok [⟨22, 12, "Notes", "", none, 1 / 2, .gemini⟩, ⟨21, 11, "Notes", "", none, 0, .demo⟩] := by
  decide +kernel

end Mixed

theorem retrieve_best_mixed : ∃ result,
    retrieve Mixed.index Mixed.settings Mixed.service Mixed.corpus Mixed.owner .personal "?" 6 =
      .ok result ∧
    BestOf (·.similarity) 6
      ((queriedSpaces Mixed.corpus (candidateFilter Mixed.owner.id .personal)).flatMap
        (offered Mixed.index Mixed.corpus (candidateFilter Mixed.owner.id .personal) Mixed.query))
      result :=
  retrieve_best Mixed.owner .personal "?" Mixed.available Mixed.bounded

/-- The openai chunk is left out, although it is the most similar and the answer is not full. -/
theorem retrieve_omits_third_space :
    ¬ ∀ (index : VectorIndex) (settings : Settings) (service : EmbeddingService) (s : Store)
      (user : User) (scope : ChatScope) (question : String) (k : ℕ) (query : ProviderName → Vector),
      (∀ p, queryVector settings service question p = .ok (query p)) →
      SimilaritiesBounded index s (candidateFilter user.id scope) query →
      ∃ result, retrieve index settings service s user scope question k = .ok result ∧
        BestOf (·.similarity) k ([.gemini, .openai, .demo].flatMap
          (offered index s (candidateFilter user.id scope) query)) result := by
  intro h
  obtain ⟨result, hresult, best⟩ := h Mixed.index Mixed.settings Mixed.service Mixed.corpus
    Mixed.owner .personal "?" 6 Mixed.query Mixed.available Mixed.bounded
  obtain rfl := Except.ok.inj (Mixed.retrieve_eq.symm.trans hresult)
  have hoffered : (⟨23, 13, "Notes", "", none, 1, .openai⟩ : RetrievedChunk) ∈
      [.gemini, .openai, .demo].flatMap (offered Mixed.index Mixed.corpus
        (candidateFilter Mixed.owner.id .personal) Mixed.query) := by
    decide +kernel
  have hfull := (best _ hoffered (by simp)).1
  exact absurd hfull (by decide)

end Docsage
