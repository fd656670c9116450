import Docsage.Retrieval.Completeness

/-! # The two retrievals agree

The .NET retrieval filters, limits, floors and merges like the FastAPI one. When
both embed the question alike, they return the same list, ties included.
-/

namespace Docsage
open Effects Ranking

variable {index : VectorIndex} {s : Store} {visible : Document → Bool} {p : ProviderName}

/-- The two candidate predicates let the same documents through. -/
theorem candidatePredicate_eq (userId : Uuid) (scope : ChatScope) :
    DotNet.candidatePredicate userId scope = candidateFilter userId scope := by
  funext doc
  cases scope with
  | admin => simp [DotNet.candidatePredicate, candidateFilter]
  | personal =>
    simp [DotNet.candidatePredicate, candidateFilter, Bool.and_comm (decide (doc.ownerId = userId))]

/-- A space is ranked by the components of the query vector only. -/
theorem nearestCandidates_congr {q q' : Vector} (h : q'.components = q.components) (k : ℕ) :
    nearestCandidates index s visible p q' k = nearestCandidates index s visible p q k := by
  rw [nearestCandidates, nearestCandidates, h]

/-- One iteration of the two loops: the finite floor of the demo space cuts nothing that the
infinite one lets through. -/
theorem DotNet.retrieveSpace_eq {q q' : Vector} (h : q'.components = q.components)
    (bounded : ∀ c ∈ candidates s visible p, -1 ≤ c.similarity index q) :
    DotNet.retrieveSpace index s visible q' p =
      Docsage.retrieveSpace index s visible topKDefault q p := by
  have hsim (c : Candidate) : c.similarity index q' = c.similarity index q := by
    rw [Candidate.similarity, Candidate.similarity, h]
  have hretrieved : (fun c : Candidate => c.retrieved index q' p) =
      fun c => c.retrieved index q p := by
    funext c
    simp only [Candidate.retrieved, hsim]
  rw [DotNet.retrieveSpace, Docsage.retrieveSpace, nearestCandidates_congr h, hretrieved]
  congr 1
  apply List.filter_congr
  intro c hc
  have hlow := bounded c ((index.orderBy Candidate).mem_of_mem_nearest hc)
  by_cases hp : p = .demo
  · subst hp
    simp [cutoff, hlow]
  · simp [cutoff, hp, hsim]

/-- With the same query vector for every space that is asked, the two backends return the same
chunks in the same order with the same scores. -/
theorem retrievals_agree {settings : Settings} {service : EmbeddingService}
    {options : DotNet.DocsageOptions} {service' : DotNet.EmbeddingService} (user : User)
    (scope : ChatScope) (question : String) (query query' : ProviderName → Vector)
    (fastApi : ∀ p ∈ queriedSpaces s (candidateFilter user.id scope),
      queryVector settings service question p = .ok (query p))
    (dotNet : ∀ p ∈ queriedSpaces s (candidateFilter user.id scope),
      DotNet.queryVector options service' (Text.utf16 question) p = .ok (query' p))
    (same : ∀ p ∈ queriedSpaces s (candidateFilter user.id scope),
      (query' p).components = (query p).components)
    (bounded : ∀ p ∈ queriedSpaces s (candidateFilter user.id scope),
      ∀ c ∈ candidates s (candidateFilter user.id scope) p,
        -1 ≤ c.similarity index (query p) ∧ c.similarity index (query p) ≤ 1) :
    ∃ result,
      retrieve index settings service s user scope question topKDefault = .ok result ∧
      DotNet.retrieveAsync index options service' s user.id scope (Text.utf16 question) =
        .ok result := by
  refine ⟨mergeRanked topKDefault ((queriedSpaces s (candidateFilter user.id scope)).map fun p =>
    retrieveSpace index s (candidateFilter user.id scope) topKDefault (query p) p).flatten, ?_, ?_⟩
  · rw [retrieve, mapM_eq_ok fun p hp => by rw [fastApi p hp]; rfl]
    rfl
  · rw [DotNet.retrieveAsync, DotNet.providerNames, candidatePredicate_eq,
      mapM_eq_ok fun p hp => by
        rw [dotNet p hp]
        exact congrArg Except.ok
          (DotNet.retrieveSpace_eq (same p hp) fun c hc => (bounded p hp c hc).1)]
    rfl

namespace Mixed

def tied : Store :=
  { corpus with chunks := [chunk 21 11 .demo (1 / 2), chunk 22 12 .gemini (1 / 2)] }

def options : DotNet.DocsageOptions := { geminiApiKey := some "g", openAiApiKey := some "o" }

def dotNetService : DotNet.EmbeddingService where
  demoVector _ := [1]
  embedTexts _ texts := .ok (texts.map fun _ => [1])
  embedQuery _ _ := .ok [1]

theorem dotNet_available (p : ProviderName) :
    DotNet.queryVector options dotNetService (Text.utf16 "?") p = .ok (query p) := by
  cases p <;> rfl

end Mixed

theorem retrievals_agree_tied : ∃ result,
    retrieve Mixed.index Mixed.settings Mixed.service Mixed.tied Mixed.owner .personal "?"
      topKDefault = .ok result ∧
    DotNet.retrieveAsync Mixed.index Mixed.options Mixed.dotNetService Mixed.tied Mixed.owner.id
      .personal (Text.utf16 "?") = .ok result :=
  retrievals_agree Mixed.owner .personal "?" Mixed.query Mixed.query
    (fun p _ => Mixed.available p) (fun p _ => Mixed.dotNet_available p) (fun _ _ => rfl)
    (by decide +kernel)

end Docsage
