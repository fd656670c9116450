import Docsage.Ingestion.DotNetExtract
import Docsage.Ingestion.DotNetOutcome
import Docsage.Retrieval.Agreement

/-! # Ready means searchable in .NET

No extraction is empty there, so a document that a run left ready has a chunk, and
the retrieval of either backend returns it to its owner.
-/

namespace Docsage.DotNet
open Effects Text

/-- Whichever accesses of the program fail and wherever it is cut off, it leaves such a store. -/
def Leaves (post : Store → Prop) (p : IngestionProgram) (s : Store) : Prop :=
  ∀ faults, post (p.perform faults s).2

section

variable {d : Uuid} {s s₀ : Store} {next : IngestionProgram} {options : DocsageOptions}
  {calls : PipelineCalls} {row : Document} {parts : List ExtractedPart} {plan : EnrichmentPlan}
  {post : Store → Prop}

theorem execute_leaves {point : CommitPoint} {statement : Store → Except Exc Store} (here : post s)
    (failed : ∀ exc, Leaves post (catchAll d exc) s)
    (done : ∀ s', statement s = .ok s' → Leaves post next s') :
    Leaves post (execute point d statement next) s := by
  intro faults
  cases faults with
  | nil => exact here
  | cons fault faults =>
    rw [execute]
    simp only [Program.perform, Program.resume]
    rcases attempt_cases fault statement s with ⟨hr, hs⟩ | ⟨⟨exc, hr⟩, hs⟩
    · rw [hr]
      exact done _ hs faults
    · rw [hr, hs]
      exact failed exc faults

theorem unpublished_update {patch : DocumentPatch} (h : Unpublished s₀ d s)
    (status : patch.status ≠ some .ready) (review : patch.reviewStatus = none) :
    Unpublished s₀ d (s.updateDocument d patch) := by
  rw [Store.updateDocument_eq_apply]
  refine ⟨?_, (corpus_edit _ _ _).trans h.corpus, fun row' hrow' => ?_⟩
  · rw [← h.chunks, Edit.apply, Edit.ofPatch, List.append_nil]
  · rw [Edit.document?_apply] at hrow'
    obtain ⟨row, hrow, rfl⟩ := Option.map_eq_some_iff.mp hrow'
    change (patch.apply s.now row).status ≠ .ready ∧
      (patch.apply s.now row).reviewStatus ≠ .approved
    rw [DocumentPatch.apply_status, DocumentPatch.apply_reviewStatus, review]
    exact ⟨getD_ne status (h.unready row hrow).1, (h.unready row hrow).2⟩

theorem catchAll_leaves (unpublished : ∀ s', Unpublished s₀ d s' → post s')
    (h : Unpublished s₀ d s) (exc : Exc) : Leaves post (catchAll d exc) s := by
  intro faults
  rw [catchAll]
  cases decode? ((utf16 exc.message).take 500) with
  | none =>
    rw [Program.perform_of_ended rfl]
    exact unpublished s h
  | some error =>
    cases faults with
    | nil => exact unpublished s h
    | cons fault faults =>
      simp only [Program.perform, Program.resume, perform_ret]
      cases fault with
      | some exc => exact unpublished s h
      | none => exact unpublished _ (unpublished_update h (by simp) rfl)

/-- What a run leaves at any time: the document unpublished, or with the rows of what was
extracted. -/
def EndsIndexed (options : DocsageOptions) (calls : PipelineCalls) (s₀ : Store) (row : Document)
    (s : Store) : Prop :=
  Unpublished s₀ row.id s ∨ ∃ parts plan rows,
    calls.extract row.id row.sourceFilename row.mimeType = .ok parts ∧
    indexRows options calls row plan
      (chunk (fillCaptions plan parts) plan.tablePreambles) = .ok rows ∧ Indexed s₀ row.id rows s

theorem setStatusAsync_leaves {status : Status} (unpublished : ∀ s', Unpublished s₀ d s' → post s')
    (h : Unpublished s₀ d s) (unready : status ≠ .ready)
    (done : ∀ s', Unpublished s₀ d s' → Leaves post next s') :
    Leaves post (setStatusAsync d status next) s := by
  refine execute_leaves (unpublished s h) (catchAll_leaves unpublished h) fun s' hs' => ?_
  obtain rfl := Except.ok.inj hs'
  exact done _ (unpublished_update h (fun hready => unready (Option.some.inj hready)) rfl)

theorem insertEnrichments_leaves (unpublished : ∀ s', Unpublished s₀ d s' → post s')
    (rows : List (EnrichmentKind × Utf16)) (h : Unpublished s₀ d s)
    (done : ∀ s', Unpublished s₀ d s' → Leaves post next s') :
    Leaves post (insertEnrichments d next rows) s := by
  induction rows generalizing s with
  | nil => exact done s h
  | cons row rest ih =>
    rw [insertEnrichments]
    cases decode? row.2 with
    | none => exact catchAll_leaves unpublished h _
    | some content =>
      refine execute_leaves (unpublished s h) (catchAll_leaves unpublished h) fun s' hs' => ih ?_
      obtain ⟨-, rfl⟩ := Store.insertEnrichments_ok hs'
      exact ⟨h.chunks, h.corpus, h.unready⟩

/-- The last transaction adds the rows and publishes the document without approving it. -/
theorem indexed_of_transaction {rows : List Chunk} {pageCount : Option ℕ} {s' : Store}
    (h : Unpublished s₀ d s) (done : indexTransaction d rows pageCount s = .ok s') :
    Indexed s₀ d rows s' := by
  obtain ⟨s₁, hi, done⟩ := bind_ok done
  obtain rfl := Except.ok.inj done
  obtain ⟨-, rfl⟩ := Store.insertChunks_ok hi
  let e : Edit :=
    { row := markReady rows.length pageCount s.now, fixed := fun _ => rfl, chunks := rows }
  have happly : Store.setDocument { s with chunks := s.chunks ++ rows } d
      (markReady rows.length pageCount s.now) = e.apply d s := by
    simp [Edit.apply, Store.setDocument, e]
  change Indexed s₀ d rows (Store.setDocument { s with chunks := s.chunks ++ rows } d
    (markReady rows.length pageCount s.now))
  rw [happly]
  refine ⟨congrArg (· ++ rows) h.chunks, (corpus_edit e d s).trans h.corpus, fun row' hrow' => ?_⟩
  rw [Edit.document?_apply] at hrow'
  obtain ⟨row, hrow, rfl⟩ := Option.map_eq_some_iff.mp hrow'
  have hreview : (e.row row).reviewStatus =
      if row.scope = .library then .pendingSme else row.reviewStatus := by
    by_cases hl : row.scope = .library <;> simp [e, markReady, hl]
  rw [hreview]
  split
  · decide
  · exact (h.unready row hrow).2

theorem embedStage_leaves (h : Unpublished s₀ row.id s)
    (extracted : calls.extract row.id row.sourceFilename row.mimeType = .ok parts) :
    Leaves (EndsIndexed options calls s₀ row)
      (embedStage options calls row (fillCaptions plan parts) plan) s := by
  refine setStatusAsync_leaves (fun _ => .inl) h (by decide) fun s₁ h₁ => ?_
  cases hrows : indexRows options calls row plan
      (chunk (fillCaptions plan parts) plan.tablePreambles) with
  | error exc => exact catchAll_leaves (fun _ => .inl) h₁ exc
  | ok rows =>
    refine execute_leaves (.inl h₁) (catchAll_leaves (fun _ => .inl) h₁) fun s₂ hs₂ faults => ?_
    rw [perform_ret]
    exact .inr ⟨parts, plan, rows, extracted, hrows, indexed_of_transaction h₁ hs₂⟩

/-- Whichever of its accesses fail, a run leaves the document unpublished or fully indexed. -/
theorem runAsync_leaves (options : DocsageOptions) (calls : PipelineCalls)
    (hrow : s.document? row.id = some row) (unready : row.status ≠ .ready)
    (unapproved : row.reviewStatus ≠ .approved) :
    Leaves (EndsIndexed options calls s row) (runAsync options calls row.id) s := by
  have h : Unpublished s row.id s := by
    refine ⟨rfl, rfl, fun row' hrow' => ?_⟩
    obtain rfl := Option.some.inj (hrow.symm.trans hrow')
    exact ⟨unready, unapproved⟩
  have hextract : Leaves (EndsIndexed options calls s row) (extractStage options calls row) s := by
    refine setStatusAsync_leaves (fun _ => .inl) h (by decide) fun s₁ h₁ => ?_
    cases hparts : calls.extract row.id row.sourceFilename row.mimeType with
    | error exc => exact catchAll_leaves (fun _ => .inl) h₁ exc
    | ok parts =>
      refine setStatusAsync_leaves (fun _ => .inl) h₁ (by decide) fun s₂ h₂ => ?_
      cases calls.generate (utf16 row.title) parts with
      | error exc => exact catchAll_leaves (fun _ => .inl) h₂ exc
      | ok plan =>
        exact insertEnrichments_leaves (fun _ => .inl) _ h₂ fun s₃ h₃ => embedStage_leaves h₃ hparts
  intro faults
  cases faults with
  | nil => exact .inl h
  | cons fault faults =>
    cases fault with
    | some exc => exact catchAll_leaves (fun _ => .inl) h exc faults
    | none =>
      simp only [runAsync, Program.perform, Program.resume, hrow]
      exact hextract faults

theorem chunkText_ne_nil (content : Utf16) : chunkText content ≠ [] := by
  unfold chunkText
  split
  · exact List.cons_ne_nil _ _
  · next hlong =>
    rw [Windows.windows, ne_eq, List.map_eq_nil_iff, Windows.starts_succ (by decide) (by omega)]
    exact List.cons_ne_nil _ _

theorem partBodies_ne_nil (tablePreambles : List (ℕ × Utf16)) (part : ExtractedPart) (index : ℕ) :
    partBodies tablePreambles part index ≠ [] := by
  unfold partBodies
  split <;> simp [chunkText_ne_nil]

theorem chunk_ne_nil (h : parts ≠ []) (tablePreambles : List (ℕ × Utf16)) :
    chunk parts tablePreambles ≠ [] := by
  obtain ⟨part, rest, rfl⟩ := List.exists_cons_of_ne_nil h
  simp [chunk, partBodies_ne_nil, List.zipIdx_cons]

theorem indexRows_embedded {rows : List Chunk}
    (h : indexRows options calls row plan (chunk parts plan.tablePreambles) = .ok rows) :
    ∀ r ∈ rows, r.embedding.isSome := fun r hr =>
  let ⟨_, hv, _⟩ := (indexRows_ok h).2.embeddings r hr
  Option.isSome_of_eq_some hv

theorem indexRows_ne_nil {rows : List Chunk} (hparts : parts ≠ [])
    (h : indexRows options calls row plan (chunk parts plan.tablePreambles) = .ok rows) :
    rows ≠ [] := by
  obtain ⟨vectors, hvectors, h⟩ := bind_ok h
  have hlength := (embedChunks_ok (resolve_embedsIn options calls.service row.embeddingProvider)
    hvectors).1
  have hrows := (forall₂_of_mapM_ok h).length_eq
  rw [List.length_zip, hlength, Nat.min_self] at hrows
  rw [← List.length_pos_iff, ← hrows]
  exact List.length_pos_iff.mpr (chunk_ne_nil hparts _)

/-- Over a corpus that is all demo, .NET returns a chunk exactly when one is visible. -/
theorem retrieveAsync_demo (index : VectorIndex) (options : DocsageOptions)
    (service : EmbeddingService) (userId : Uuid) (question : Utf16)
    (demo : ∀ r ∈ s.documents, r.embeddingProvider = .demo) :
    ∃ answer, retrieveAsync index options service s userId .personal question = .ok answer ∧
      (answer = [] ↔ candidates s (candidateFilter userId .personal) .demo = []) := by
  have hspace (query : Vector) :
      retrieveSpace index s (candidateFilter userId .personal) query .demo = [] ↔
        candidates s (candidateFilter userId .personal) .demo = [] := by
    rw [retrieveSpace, List.map_eq_nil_iff, List.filter_eq_self.mpr fun c _ => by simp]
    exact nearest_eq_nil _ (by decide)
  rw [retrieveAsync, providerNames, candidatePredicate_eq]
  obtain hproviders | ⟨hproviders, hnone⟩ := visibleProviders_demo demo <;> rw [hproviders]
  · exact ⟨_, rfl, by simpa [mergeRanked, rank_eq_nil, topKDefault] using hspace _⟩
  · exact ⟨mergeRanked topKDefault [], rfl,
      iff_of_true (by simp [mergeRanked, rank_eq_nil]) hnone⟩

/-- Whatever the owner asks in personal scope, .NET returns a chunk. -/
def FoundByOwner (index : VectorIndex) (options : DocsageOptions) (service : EmbeddingService)
    (ownerId : Uuid) (s : Store) : Prop :=
  ∀ question, ∃ answer,
    retrieveAsync index options service s ownerId .personal question = .ok answer ∧ answer ≠ []

theorem foundByOwner_iff {index : VectorIndex} {service : EmbeddingService} {ownerId : Uuid}
    (demo : ∀ r ∈ s.documents, r.embeddingProvider = .demo) :
    FoundByOwner index options service ownerId s ↔
      candidates s (candidateFilter ownerId .personal) .demo ≠ [] := by
  have hdemo (question : Utf16) :=
    retrieveAsync_demo index options service ownerId question demo
  constructor
  · intro found
    obtain ⟨answer, hanswer, hne⟩ := found []
    obtain ⟨answer', hanswer', hiff⟩ := hdemo []
    obtain rfl := Except.ok.inj (hanswer.symm.trans hanswer')
    exact fun h => hne (hiff.mpr h)
  · intro hne question
    obtain ⟨answer, hanswer, hiff⟩ := hdemo question
    exact ⟨answer, hanswer, fun h => hne (hiff.mp h)⟩

/-- Whatever its file holds and whichever of its accesses fail, a document that a .NET run left
ready has a chunk with a vector, and either backend finds it for its owner, if it is a personal
one: a library document waits for its approval. -/
theorem ready_searchable {index : VectorIndex} (cosine : index.Cosine) (asked : Settings)
    (askedService : Docsage.EmbeddingService) (asked' options : DocsageOptions)
    (askedService' : EmbeddingService) {calls : PipelineCalls} (faults : List (Option Exc))
    {s : Store} {d : Uuid} {row : Document} (platform : Platform) (file : StoredFile)
    (hrow : s.document? d = some row) (uploaded : Uploaded d row) (new : s.chunksOf d = [])
    (extracted : calls.extract d row.sourceFilename row.mimeType =
      dispatch platform file row.mimeType)
    (ready : ∃ row', ((runAsync options calls d).perform faults s).2.document? d = some row' ∧
      row'.status = .ready) :
    Searchable d ((runAsync options calls d).perform faults s).2 ∧
    (s.documents = [row] → row.embeddingProvider = .demo →
      (Docsage.FoundByOwner index asked askedService row.ownerId
          ((runAsync options calls d).perform faults s).2 ↔ row.scope = .personal) ∧
      (FoundByOwner index asked' askedService' row.ownerId
          ((runAsync options calls d).perform faults s).2 ↔ row.scope = .personal)) := by
  obtain rfl := uploaded.id
  obtain ⟨row', hrow', hready⟩ := ready
  rcases runAsync_leaves options calls hrow (by simp [uploaded.status])
    (by simp [uploaded.reviewStatus]) faults with
    unpublished | ⟨parts, plan, rows, hparts, hrows, indexed⟩
  · exact absurd hready (unpublished.unready row' hrow').1
  · have hfound : parts ≠ [] := dispatch_ne_nil (extracted.symm.trans hparts)
    have hfilled : fillCaptions plan parts ≠ [] := by simpa [fillCaptions] using hfound
    have hne := indexRows_ne_nil hfilled hrows
    have owned := (indexRows_ok hrows).1
    have embedded := indexRows_embedded hrows
    refine ⟨?_, fun only demo => ?_⟩
    · obtain ⟨c, hc⟩ := List.exists_mem_of_ne_nil rows hne
      exact ⟨c, (indexed.chunksOf new owned) ▸ hc, embedded c hc⟩
    · obtain ⟨row', hdocuments, hfixed⟩ := indexed.documents only
      have hspace : row'.embeddingProvider = .demo :=
        (congrArg FixedColumns.embeddingProvider hfixed).trans demo
      have hdemo : ∀ r ∈ ((runAsync options calls row.id).perform faults s).2.documents,
          r.embeddingProvider = .demo := by simp [hdocuments, hspace]
      have hcandidates := indexed.candidates_eq_nil rfl new owned embedded only demo
      rw [Docsage.foundByOwner_iff cosine asked askedService hdemo, foundByOwner_iff hdemo, ne_eq,
        hcandidates, not_not, and_iff_right hne]
      exact ⟨Iff.rfl, Iff.rfl⟩

end

/-! A scanned page without text. -/

namespace Scan

def file : StoredFile where
  name := utf16 "scan.pdf"
  bytes := .ok []
  text := .ok []
  docx := .error { message := "File contains corrupted data." }
  xlsx := .error { message := "File contains corrupted data." }
  pdf := .ok [[]]

def calls : PipelineCalls where
  service := chartCalls.service
  extract _ _ mimeType := dispatch .unix file mimeType
  generate title _ := .ok
    { summary := title, keywords := [], questions := [], captions := [], tablePreambles := [] }
  chunkIds position := position

/-- The read, three statuses, the summary and the transaction. -/
def faultless : List (Option Exc) := List.replicate 6 none

theorem ready : ∃ row', ((runAsync {} calls 1).perform faultless
    Docsage.Scan.store).2.document? 1 = some row' ∧ row'.status = .ready := by
  have hstatus : (((runAsync {} calls 1).perform faultless
      Docsage.Scan.store).2.document? 1).map (·.status) = some .ready := by decide +kernel
  exact Option.map_eq_some_iff.mp hstatus

end Scan

/-- The page that FastAPI leaves without a chunk is found, by either backend. -/
theorem ready_searchable_scan :
    Searchable 1 ((runAsync {} Scan.calls 1).perform Scan.faultless Docsage.Scan.store).2 ∧
    Docsage.FoundByOwner Docsage.Scan.index {} offlineService 7
      ((runAsync {} Scan.calls 1).perform Scan.faultless Docsage.Scan.store).2 ∧
    FoundByOwner Docsage.Scan.index {} Scan.calls.service 7
      ((runAsync {} Scan.calls 1).perform Scan.faultless Docsage.Scan.store).2 := by
  have cosine : Docsage.Scan.index.Cosine := fun _ _ => show (0 : ℚ) ≤ 2 by decide
  have hscan := ready_searchable cosine {} offlineService {} {} Scan.calls.service Scan.faultless
    .unix Scan.file (by decide : Docsage.Scan.store.document? 1 = some Docsage.Scan.row)
    Docsage.Scan.uploaded (by decide) rfl Scan.ready
  obtain ⟨hfastApi, hdotNet⟩ := hscan.2 rfl rfl
  exact ⟨hscan.1, hfastApi.mpr rfl, hdotNet.mpr rfl⟩

end Docsage.DotNet
