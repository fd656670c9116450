import Docsage.Ingestion.Contents
import Docsage.Ingestion.DotNetOutcome
import Docsage.Ingestion.PlanParity
import Docsage.Providers.EmbeddedTexts

/-! # One document in the two pipelines

The pipelines are written apart: one is a session that sends what it changed, the
other a row of single statements, and their strings are counted in different units.
What a run leaves of a demo document is the same, where every part is cut alike.
-/

namespace Docsage
open Effects Text Windows

/-- The store while a run that began on another store is under way on the document: the chunks are
the same, and the enrichments are added. -/
structure Underway (s₀ : Store) (row : Document) (added : List Enrichment) (s : Store) : Prop where
  document : ∃ r, s.document? row.id = some r ∧ r.scope = row.scope ∧
    r.reviewStatus = .notRequired ∧ r.chunkCount = 0
  chunks : s.chunksOf row.id = s₀.chunksOf row.id
  enrichments : s.enrichmentsOf row.id = s₀.enrichmentsOf row.id ++ added

/-- The store behind a run that has published the document. -/
structure Published (s₀ : Store) (row : Document) (added : List Enrichment) (rows : List Chunk)
    (s : Store) : Prop where
  document : ∃ r, s.document? row.id = some r ∧ r.status = .ready ∧ r.chunkCount = rows.length ∧
    r.reviewStatus = if row.scope = .library then .pendingSme else .notRequired
  chunks : s.chunksOf row.id = s₀.chunksOf row.id ++ rows
  enrichments : s.enrichmentsOf row.id = s₀.enrichmentsOf row.id ++ added

section

variable {s₀ s : Store} {row : Document} {added : List Enrichment} {e : Edit} {space : ProviderName}

theorem Underway.advance (h : Underway s₀ row added s) (advances : Advances e)
    (owned : ∀ r ∈ e.enrichments, r.documentId = row.id) :
    Underway s₀ row (added ++ e.enrichments) (e.apply row.id s) := by
  obtain ⟨r, hr, hscope, hreview, hcount⟩ := h.document
  refine ⟨⟨e.row r, ?_, (e.row_scope r).trans hscope, (advances.reviewStatus r).trans hreview,
    (advances.chunkCount r).trans hcount⟩, ?_, ?_⟩
  · rw [Edit.document?_apply, hr]
    rfl
  · rw [← h.chunks, Store.chunksOf, Edit.apply, advances.chunks, List.append_nil]
    rfl
  · rw [Edit.enrichmentsOf_apply owned, h.enrichments, List.append_assoc]

theorem Underway.publish (h : Underway s₀ row added s) (publishes : Publishes row.scope space e)
    (owned : ∀ r ∈ e.chunks, r.documentId = row.id) (enrichments : e.enrichments = []) :
    Published s₀ row added e.chunks (e.apply row.id s) := by
  obtain ⟨r, hr, hscope, hreview, hcount⟩ := h.document
  refine ⟨⟨e.row r, ?_, publishes.status r, publishes.chunkCount r hcount,
    publishes.reviewStatus r hscope hreview⟩, ?_, ?_⟩
  · rw [Edit.document?_apply, hr]
    rfl
  · rw [← h.chunks, Store.chunksOf, Edit.apply, Relational.select_append,
      Relational.select_eq_self owned]
    rfl
  · rw [← h.enrichments, Store.enrichmentsOf, Edit.apply, enrichments, List.append_nil]
    rfl

end

def faultless (_ : CommitPoint) : Option Exc := none

section FastApi

variable {s₀ s : Store} {row : Document} {added : List Enrichment} {document : OrmDocument}
  {calls : IngestionCalls} {provider : EmbeddingProvider} {result : ExtractionResult}
  {enrichment : EnrichmentResult} {space : ProviderName}

theorem Underway.setStatus {status : Status} {began : Option Timestamp} {error : Option String}
    {next : OrmDocument → IngestionProgram} {post : Store → Prop} (h : Underway s₀ row added s)
    (clean : document.Clean) (hid : document.id = row.id) (transient : status.transient = true)
    (done : ∀ s', Underway s₀ row added s' →
      post ((next (document.withStatus status error)).exec faultless s').2) :
    post ((setStatus began document status error next).exec faultless s).2 := by
  let u : UnitOfWork := { document := document.assignStatus status error, began }
  have hexists : (s.document? u.document.id).isSome := by
    obtain ⟨r, hr, -⟩ := h.document
    exact Option.isSome_of_eq_some ((congrArg s.document? hid).trans hr)
  have hrow := statusEdit_row clean status error began s.now
  have hadvances : Advances (u.edit s.now) := by
    refine ⟨rfl, rfl, fun r => (hrow r).1, fun r => (hrow r).2.1, fun r => ?_⟩
    refine (hrow r).2.2.1.imp_right fun hstatus => ?_
    rw [hstatus]
    exact transient
  have hunderway := h.advance hadvances (List.forall_mem_nil _)
  rw [show (u.edit s.now).enrichments = [] from rfl, List.append_nil, ← hid] at hunderway
  have hexec : (Docsage.setStatus began document status error next).exec faultless s =
      (next (.withStatus document status error)).exec faultless
        ((u.edit s.now).apply document.id s) := by
    rw [← UnitOfWork.committed_assignStatus clean began status error]
    exact commitSession_exec ⟨List.forall_mem_nil _, List.forall_mem_nil _⟩ hexists rfl
  rw [hexec]
  exact done _ hunderway

theorem Underway.embedAndFinish {rows : List Chunk} (h : Underway s₀ row added s)
    (embeds : provider.EmbedsIn space) (fresh : Fresh row.id row.scope document)
    (hs : document.status.committed = some .embedding)
    (hrows : embedRows provider document.id calls.chunkIds document.title result.parts enrichment =
      .ok rows) :
    Published s₀ row added rows
      ((embedAndFinish calls provider result enrichment document).exec faultless s).2 := by
  have howned : ∀ r ∈ rows, r.documentId = document.id := embedRows_owned embeds hrows
  let u : UnitOfWork := { document := document.finish provider result rows, chunks := rows }
  have hexists : (s.document? u.document.id).isSome := by
    obtain ⟨r, hr, -⟩ := h.document
    exact Option.isSome_of_eq_some ((congrArg s.document? fresh.id).trans hr)
  have hpublishes : Publishes row.scope space (u.edit s.now) :=
    finish_publishes fresh (embedRows_complete embeds hrows) hs s.now
  have hpublished := h.publish hpublishes (fun r hr => (howned r hr).trans fresh.id) rfl
  rw [Docsage.embedAndFinish, hrows]
  dsimp only
  rw [commitSession_exec ⟨List.forall_mem_nil _, howned⟩ hexists rfl]
  rw [← fresh.id] at hpublished
  exact hpublished

end FastApi

namespace DotNet

variable {s₀ s : Store} {row : Document} {added : List Enrichment} {options : DocsageOptions}
  {calls : PipelineCalls} {parts : List Docsage.ExtractedPart} {enrichment : EnrichmentResult}
  {next : IngestionProgram} {post : Store → Prop}

def boundRow (documentId : Uuid) (rowIds : ℕ → Uuid) (plan : ChunkPlan) (vector : Vector) :
    Chunk where
  id := rowIds plan.ordinal
  documentId := documentId
  ordinal := plan.ordinal
  content := (decode? plan.content).getD ""
  kind := plan.kind
  page := plan.page
  tokenCount := plan.tokenCount
  embedding := some vector

theorem chunkRow_eq_ok_iff {documentId : Uuid} {rowIds : ℕ → Uuid} {plan : ChunkPlan}
    {vector : Vector} {r : Chunk} : chunkRow documentId rowIds plan vector = .ok r ↔
      r = boundRow documentId rowIds plan vector ∧ (decode? plan.content).isSome := by
  unfold chunkRow unitsOrThrow
  cases hcontent : decode? plan.content with
  | none => simp [bind, Except.bind]
  | some content =>
    simp [bind, Except.bind, pure, Except.pure, boundRow, hcontent, eq_comm]

/-- The vector that a planned chunk gets from the demo provider. -/
def demoVectorOf (service : EmbeddingService) (header : Utf16) (plan : ChunkPlan) : Vector :=
  ⟨.demo, service.demoVector (embeddingText header plan.content)⟩

/-- The embed stage binds every planned chunk, unless a cut has left half a character. -/
theorem indexRows_demo_iff (demo : row.embeddingProvider = .demo) {plan : EnrichmentPlan}
    {chunks : List ChunkPlan} {rows : List Chunk} :
    indexRows options calls row plan chunks = .ok rows ↔
      rows = chunks.map (fun c => boundRow row.id calls.chunkIds c
        (demoVectorOf calls.service (header (utf16 row.title) plan) c)) ∧
        ∀ c ∈ chunks, (decode? c.content).isSome := by
  have hprovider : resolve options calls.service row.embeddingProvider =
      demoEmbeddingProvider calls.service := by rw [demo]; rfl
  have hvectors : embedChunks (demoEmbeddingProvider calls.service)
      (header (utf16 row.title) plan) chunks =
        .ok (chunks.map (demoVectorOf calls.service (header (utf16 row.title) plan))) := by
    simp only [embedChunks, demoEmbeddingProvider, List.length_map, ne_eq, not_true, if_false,
      List.map_map]
    rfl
  have hzip : chunks.zip
      (chunks.map (demoVectorOf calls.service (header (utf16 row.title) plan))) =
        chunks.map fun c => (c, demoVectorOf calls.service (header (utf16 row.title) plan) c) :=
    List.map_prod_left_eq_zip.symm
  rw [indexRows, hprovider, hvectors]
  change List.mapM _ (chunks.zip _) = _ ↔ _
  rw [hzip, mapM_eq_ok_iff fun p r => chunkRow_eq_ok_iff, List.map_map, List.forall_mem_map]
  rfl

end DotNet

section

variable {s s' s₀ : Store} {row : Document} {result : ExtractionResult}
  {enrichment : EnrichmentResult} {calls : IngestionCalls} {calls' : DotNet.PipelineCalls}
  {rows rows' : List Chunk} {added added' : List Enrichment}

/-- The rows that FastAPI makes of a demo document, each with the vector of its own text. -/
theorem embedRows_demo (service : EmbeddingService) (documentId : Uuid) (rowIds : ℕ → Uuid)
    (title : String) (parts : List ExtractedPart) (enrichment : EnrichmentResult) :
    ∃ rows, embedRows (demoEmbeddingProvider service) documentId rowIds title parts enrichment =
        .ok rows ∧
      rows.map Chunk.view = (bareRows documentId rowIds parts enrichment).map Chunk.view ∧
      ∀ r ∈ rows, r.embedding = some ⟨.demo, service.demoVector
        (embeddingText (embeddingHeader title enrichment) r.content)⟩ := by
  obtain ⟨rows, hrows, hbare, hvectors⟩ := embedRows_texts (demoEmbeddingProvider service)
    (fun _ text => ⟨.demo, service.demoVector text⟩) (fun _ _ => rfl) (fun _ _ _ => rfl) documentId
    rowIds parts enrichment
  refine ⟨rows, hrows, ?_, fun r hr => ?_⟩
  · rw [← hbare, List.map_map]
    rfl
  · obtain ⟨-, hvector⟩ := hvectors r hr
    exact hvector

theorem view_boundRow {documentId : Uuid} {rowIds : ℕ → Uuid} {plan : DotNet.ChunkPlan}
    {vector : Vector} (h : (decode? plan.content).isSome) :
    (DotNet.boundRow documentId rowIds plan vector).view = plan.view := by
  obtain ⟨content, hcontent⟩ := Option.isSome_iff_exists.mp h
  simp [Chunk.view, DotNet.boundRow, DotNet.ChunkPlan.view, hcontent]

/-- Where the parts are ingested alike, no cut has left half a character. -/
theorem decodes_of_alike {parts : List ExtractedPart}
    (alike : ∀ p ∈ parts.zipIdx, IngestsAlike enrichment p.1 p.2) :
    ∀ c ∈ DotNet.planned parts enrichment, (decode? c.content).isSome := by
  intro c hc
  have hviews := (planned_iff 0 id parts).mpr alike
  have hview : c.view ∈ (bareRows 0 id parts enrichment).map Chunk.view :=
    hviews ▸ List.mem_map_of_mem hc
  obtain ⟨r, -, hr⟩ := List.mem_map.mp hview
  have hcontent : decode? c.content = some r.content :=
    (congrArg (fun v : ChunkView => v.content) hr).symm
  exact Option.isSome_of_eq_some hcontent

def ChunkView.demoVector (service : EmbeddingService) (header : String) (v : ChunkView) :
    Option Vector :=
  v.content.map fun content => ⟨.demo, service.demoVector (embeddingText header content)⟩

/-- A planned chunk is embedded by the text that FastAPI embeds it by. -/
theorem demoVectorOf_eq {service : EmbeddingService} {service' : DotNet.EmbeddingService}
    (hashed : ∀ text, service'.demoVector (utf16 text) = service.demoVector text) (header : String)
    {plan : DotNet.ChunkPlan} (h : (decode? plan.content).isSome) :
    some (DotNet.demoVectorOf service' (utf16 header) plan) =
      plan.view.demoVector service header := by
  obtain ⟨content, hcontent⟩ := Option.isSome_iff_exists.mp h
  have hunits : plan.content = utf16 content := decode?_eq_some.mp hcontent
  have htext : DotNet.embeddingText (utf16 header) plan.content =
      utf16 (embeddingText header content) := by
    rw [utf16_embeddingText, hunits]
  simp only [DotNet.demoVectorOf, ChunkView.demoVector, DotNet.ChunkPlan.view, hcontent,
    Option.map_some, htext, hashed]

theorem view_boundRows {documentId : Uuid} {rowIds : ℕ → Uuid} {chunks : List DotNet.ChunkPlan}
    (vector : DotNet.ChunkPlan → Vector) (decodes : ∀ c ∈ chunks, (decode? c.content).isSome) :
    (chunks.map fun c => DotNet.boundRow documentId rowIds c (vector c)).map Chunk.view =
      chunks.map DotNet.ChunkPlan.view := by
  rw [List.map_map]
  exact List.map_congr_left fun c hc => view_boundRow (decodes c hc)

/-- Under one header, planned chunks that are those of FastAPI have its vectors. -/
theorem embeddings_eq {service : EmbeddingService} {service' : DotNet.EmbeddingService}
    (hashed : ∀ text, service'.demoVector (utf16 text) = service.demoVector text)
    {header : String} {rows : List Chunk} {chunks : List DotNet.ChunkPlan}
    {documentId : Uuid} {rowIds : ℕ → Uuid}
    (vectors : ∀ r ∈ rows, r.embedding =
      some ⟨.demo, service.demoVector (embeddingText header r.content)⟩)
    (decodes : ∀ c ∈ chunks, (decode? c.content).isSome)
    (views : rows.map Chunk.view = chunks.map DotNet.ChunkPlan.view) :
    rows.map (·.embedding) = (chunks.map fun c => DotNet.boundRow documentId rowIds c
      (DotNet.demoVectorOf service' (utf16 header) c)).map (·.embedding) := by
  have hrows : rows.map (·.embedding) =
      (rows.map Chunk.view).map (ChunkView.demoVector service header) := by
    rw [List.map_map]
    exact List.map_congr_left vectors
  rw [hrows, views, List.map_map, List.map_map]
  exact List.map_congr_left fun c hc => (demoVectorOf_eq hashed header (decodes c hc)).symm

end

namespace Memo

def row : Document where
  id := 1
  ownerId := 7
  scope := .library
  title := "Memo"
  sourceFilename := "memo.docx"
  mimeType := "application/vnd.openxmlformats-officedocument.wordprocessingml.document"
  sizeBytes := 512
  embeddingProvider := .demo
  topicId := some 3
  createdAt := 0
  updatedAt := 0

def result : ExtractionResult where
  parts :=
    [{ kind := .text, content := "Telework is fine." }, { kind := .image, filename := "a.png" }]

def enrichment : EnrichmentResult := { summary := "Telework.", keywords := ["telework"] }

def calls : IngestionCalls where
  service := { offlineService with demoVector := fun text => [((utf16 text).length : ℚ)] }
  extract _ _ _ := .ok result
  enrich _ _ _ := .ok enrichment
  chunkIds position := position

end Memo

end Docsage
