import Docsage.Retrieval.Completeness

/-! # The limits of the spaces and of the answer

`retrieve` limits every space before its floor, merges what is left, and limits it
again. The answer is the first rows of one list all the same: the visible chunks of
the spaces that are asked, those below their floor left out, ranked together.
-/

namespace Docsage
open Effects Ranking

def retrieveVisible (index : VectorIndex) (settings : Settings) (service : EmbeddingService)
    (s : Store) (visible : Document → Bool) (question : String) (k : ℕ) :
    Except Exc (List RetrievedChunk) := do
  let merged ← ((visibleProviders s visible).take 2).mapM fun providerName => do
    let query ← queryVector settings service question providerName
    return retrieveSpace index s visible k query providerName
  return mergeRanked k merged.flatten

variable {index : VectorIndex} {settings : Settings} {service : EmbeddingService} {s : Store}
  {visible : Document → Bool} {query : ProviderName → Vector} {p : ProviderName} {k : ℕ}

theorem retrieve_eq_visible (user : User) (scope : ChatScope) (question : String) :
    retrieve index settings service s user scope question k =
      retrieveVisible index settings service s (candidateFilter user.id scope) question k := rfl

/-- One iteration of the loop returns the first chunks of its space. -/
theorem retrieveSpace_top (low : ∀ c ∈ candidates s visible p, -1 ≤ c.similarity index (query p)) :
    TopOf (·.similarity) k (offered index s visible query p)
      (retrieveSpace index s visible k (query p) p) := by
  have hnearest : TopOf (·.similarity index (query p)) k (candidates s visible p)
      (nearestCandidates index s visible p (query p) k) :=
    .nearest (index.orderBy Candidate) fun a b h => sub_le_sub_left h 1
  rw [retrieveSpace_eq_floor low]
  exact (hnearest.filter fun a b => passesFloor_mono).map fun _ => rfl

/-- For every visibility predicate, those of the chat scopes among them, retrieval returns the
first `k` of all visible chunks that pass the floor of their space, ranked by similarity. -/
theorem retrieve_top (user : User) (scope : ChatScope) (visible : Document → Bool)
    (question : String) (k : ℕ)
    (available : ∀ p ∈ queriedSpaces s visible,
      queryVector settings service question p = .ok (query p))
    (bounded : ∀ p ∈ queriedSpaces s visible, ∀ c ∈ candidates s visible p,
      -1 ≤ c.similarity index (query p) ∧ c.similarity index (query p) ≤ 1) :
    ∃ result, retrieveVisible index settings service s visible question k = .ok result ∧
      (visible = candidateFilter user.id scope →
        retrieve index settings service s user scope question k = .ok result) ∧
      TopOf (·.similarity) k
        ((queriedSpaces s visible).flatMap (offered index s visible query)) result := by
  have hresult : retrieveVisible index settings service s visible question k =
      .ok (mergeRanked k ((queriedSpaces s visible).map fun p =>
        retrieveSpace index s visible k (query p) p).flatten) := by
    rw [retrieveVisible, mapM_eq_ok fun p hp => by rw [available p hp]; rfl]
    rfl
  refine ⟨_, hresult, ?_, .merge fun p hp => retrieveSpace_top fun c hc => (bounded p hp c hc).1⟩
  rintro rfl
  rw [retrieve_eq_visible, hresult]

/-- The demo chunk has no floor, and the gemini chunk comes before it. -/
theorem retrieve_top_mixed : ∃ result,
    retrieve Mixed.index Mixed.settings Mixed.service Mixed.corpus Mixed.owner .personal "?" 6 =
      .ok result ∧
    TopOf (·.similarity) 6
      ((queriedSpaces Mixed.corpus (candidateFilter Mixed.owner.id .personal)).flatMap
        (offered Mixed.index Mixed.corpus (candidateFilter Mixed.owner.id .personal) Mixed.query))
      result := by
  obtain ⟨result, -, hretrieve, top⟩ := @retrieve_top Mixed.index _ _ _ _ Mixed.owner .personal
    (candidateFilter Mixed.owner.id .personal) "?" 6 (fun p _ => Mixed.available p)
    fun p _ => Mixed.bounded p
  exact ⟨result, hretrieve rfl, top⟩

end Docsage
