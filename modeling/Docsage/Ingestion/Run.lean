import Docsage.Ingestion.Chunks
import Docsage.Ingestion.Orm

/-! # `run_ingestion`

The FastAPI pipeline as a program over the store. Each raise point inside a
stage is a field of `IngestionCalls`; each commit is an access of the program
and may fail on its own.
-/

namespace Docsage
open Effects

structure IngestionCalls where
  service : EmbeddingService
  extract : Uuid → String → String → Except Exc ExtractionResult
  enrich : String → List ExtractedPart → ProviderName → Except Exc EnrichmentResult
  chunkIds : ℕ → Uuid

/-- The handler of a failed stage: `_set_status(db, document, "failed", ...)` and return. -/
def failWith (began : Option Timestamp) (document : OrmDocument) (reason : String) :
    IngestionProgram :=
  setStatus began document .failed (some reason) fun _ => .ret ()

/-- The attributes assigned beside the chunk rows, all in the final unit of work. -/
def OrmDocument.finish (document : OrmDocument) (provider : EmbeddingProvider)
    (result : ExtractionResult) (rows : List Chunk) : OrmDocument :=
  { document with
    chunkCount := document.chunkCount.assign rows.length
    pageCount := document.pageCount.assign result.pageCount
    embeddingModel := document.embeddingModel.assign provider.modelId
    reviewStatus :=
      if document.scope = .library then document.reviewStatus.assign .pendingSme
      else document.reviewStatus
    status := document.status.assign .ready
    statusError := document.statusError.assign none }

def embedAndFinish (calls : IngestionCalls) (provider : EmbeddingProvider)
    (result : ExtractionResult) (enrichment : EnrichmentResult) (document : OrmDocument) :
    IngestionProgram :=
  match embedRows provider document.id calls.chunkIds document.title result.parts enrichment with
  | .error exc => failWith none document.rollback ("embedding failed: " ++ exc.message)
  | .ok rows =>
    commitSession .chunks { document := document.finish provider result rows, chunks := rows } fun
      | .ok _ => .ret ()
      | .error exc => failWith none document.rollback ("embedding failed: " ++ exc.message)

/-- From the caption rows on. Their commit has no handler. -/
def captionAndEmbed (calls : IngestionCalls) (provider : EmbeddingProvider)
    (result : ExtractionResult) (enrichment : EnrichmentResult) (document : OrmDocument) :
    IngestionProgram :=
  commitSession .captions
    { document, enrichments := captionEnrichments document.id result.parts enrichment } fun
    | .error exc => .raised exc
    | .ok document =>
      setStatus none document .embedding none (embedAndFinish calls provider result enrichment)

/-- The guarded part of the enrich stage, and what follows it. -/
def enrichAndPersist (calls : IngestionCalls) (provider : EmbeddingProvider)
    (result : ExtractionResult) (document : OrmDocument) : IngestionProgram :=
  match calls.enrich document.title result.parts document.embeddingProvider with
  | .error exc => failWith none document.rollback ("enrichment failed: " ++ exc.message)
  | .ok enrichment =>
    commitSession .enrichments
      { document, enrichments := persistEnrichments document.id enrichment } fun
      | .error exc => failWith none document.rollback ("enrichment failed: " ++ exc.message)
      | .ok document => captionAndEmbed calls provider result enrichment document

/-- The guarded part of the extract stage, and what follows it. -/
def extractAndEnrich (calls : IngestionCalls) (provider : EmbeddingProvider)
    (document : OrmDocument) : IngestionProgram :=
  match calls.extract document.id document.sourceFilename document.mimeType with
  | .error exc => failWith none document ("extraction failed: " ++ exc.message)
  | .ok result => setStatus none document .enriching none (enrichAndPersist calls provider result)

/-- The run once its document is loaded, in a transaction that began at `began`. The first
handler catches a ValueError only. -/
def ingest (settings : Settings) (calls : IngestionCalls) (began : Timestamp)
    (document : OrmDocument) : IngestionProgram :=
  match getProvider document.embeddingProvider settings calls.service with
  | .error exc =>
    if exc.isValueError then failWith (some began) document exc.message else .raised exc
  | .ok provider =>
    setStatus (some began) document .extracting none (extractAndEnrich calls provider)

def runIngestion (settings : Settings) (calls : IngestionCalls) (documentId : Uuid) :
    IngestionProgram :=
  .read fun
    | .error exc => .raised exc
    | .ok s =>
      match s.document? documentId with
      | none => .ret ()
      | some row => ingest settings calls s.now (.load row)

end Docsage
