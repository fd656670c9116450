import Docsage.Ingestion.Orm
import Docsage.Library.Windows
import Docsage.Providers.Embedding

/-! # `IngestionPipeline.RunAsync`

The .NET pipeline over the same store. It writes with single SQL statements:
an UPDATE that matches no row is no error, every enrichment row is a commit of
its own, and the chunks share one transaction with the `ready` status.
-/

namespace Docsage.DotNet
open Effects Text Windows

def maxChars : ℕ := 4000
def overlapChars : ℕ := 600

/-- The kinds of `PartKinds` are those of the chunks. -/
structure ExtractedPart where
  kind : ChunkKind
  content : Utf16
  page : Option ℕ := none
  imageName : Option Utf16 := none

structure EnrichmentPlan where
  summary : Utf16
  keywords : List Utf16
  questions : List Utf16
  captions : List (ℕ × Utf16)
  tablePreambles : List (ℕ × Utf16)

structure ChunkPlan where
  ordinal : ℕ
  content : Utf16
  kind : ChunkKind
  page : Option ℕ
  tokenCount : ℕ

def chunkText (content : Utf16) : List Utf16 :=
  if content.length ≤ maxChars then [content]
  else windows (maxChars - overlapChars) maxChars content

def partBodies (tablePreambles : List (ℕ × Utf16)) (part : ExtractedPart) (index : ℕ) :
    List Utf16 :=
  match part.kind with
  | .imageDescription => [part.content]
  | .text => chunkText part.content
  | .table => (chunkText part.content).map fun piece =>
      match tablePreambles.lookup index with
      | some preamble => preamble ++ utf16 "\n\n" ++ piece
      | none => piece

def chunk (parts : List ExtractedPart) (tablePreambles : List (ℕ × Utf16)) : List ChunkPlan :=
  let bodies := parts.zipIdx.flatMap fun p =>
    (partBodies tablePreambles p.1 p.2).map fun body => (p.1, body)
  bodies.zipIdx.map fun p =>
    { ordinal := p.2, content := p.1.2, kind := p.1.1.kind, page := p.1.1.page
      tokenCount := p.1.2.length / 4 }

structure PipelineCalls where
  service : EmbeddingService
  extract : Uuid → String → String → Except Exc (List ExtractedPart)
  generate : Utf16 → List ExtractedPart → Except Exc EnrichmentPlan
  chunkIds : ℕ → Uuid

def joinComma (items : List Utf16) : Utf16 := (utf16 ", ").intercalate items

/-- Image parts carry their caption as content, or a placeholder. -/
def fillCaptions (plan : EnrichmentPlan) (parts : List ExtractedPart) : List ExtractedPart :=
  parts.zipIdx.map fun p =>
    if p.1.kind = .imageDescription then
      { p.1 with
        content := (plan.captions.lookup p.2).getD
          (utf16 "Image " ++ p.1.imageName.getD (utf16 "attachment") ++
            utf16 " extracted from the document.") }
    else p.1

def enrichmentRows (plan : EnrichmentPlan) : List (EnrichmentKind × Utf16) :=
  (.summary, plan.summary) ::
    ((if plan.keywords.length > 0 then [(.keywords, joinComma plan.keywords)] else []) ++
      plan.questions.map fun question => (.questions, question))

def header (title : Utf16) (plan : EnrichmentPlan) : Utf16 :=
  title ++ utf16 " | " ++ plan.summary.take 120 ++ utf16 " | keywords: " ++
    joinComma (plan.keywords.take 6)

/-- `parts.Select(p => p.Page).Where(p => p is not null).DefaultIfEmpty(0).Max()`, and 0 as null. -/
def pageCount (parts : List ExtractedPart) : Option ℕ :=
  let last := (parts.filterMap (·.page)).foldl max 0
  if last = 0 then none else some last

/-- A parameter with a lone surrogate cannot be encoded. -/
def invalidText : Exc where
  message := "Unable to translate Unicode character to specified code page."

def unitsOrThrow (units : Utf16) : Except Exc String :=
  match decode? units with
  | some text => .ok text
  | none => .error invalidText

def wrongVectorCount (vectors chunks : ℕ) : Exc where
  message := "embedding provider returned " ++ toString vectors ++ " vectors for " ++
    toString chunks ++ " chunks"

/-- The catch-all: write the failure, and only log if that fails too. -/
def catchAll (documentId : Uuid) (exc : Exc) : IngestionProgram :=
  match decode? ((utf16 exc.message).take 500) with
  | none => .ret ()
  | some error =>
    .commit .status (fun s => .ok (s.updateDocument documentId
      { status := some .failed, statusError := some (some error) })) fun _ => .ret ()

/-- One awaited statement inside the `try`. -/
def execute (point : CommitPoint) (documentId : Uuid) (statement : Store → Except Exc Store)
    (next : IngestionProgram) : IngestionProgram :=
  .commit point statement fun
    | .ok () => next
    | .error exc => catchAll documentId exc

def setStatusAsync (documentId : Uuid) (status : Status) (next : IngestionProgram) :
    IngestionProgram :=
  execute .status documentId
    (fun s => .ok (s.updateDocument documentId { status := some status })) next

/-- The INSERTs into `enrichments`, each on its own. -/
def insertEnrichments (documentId : Uuid) (next : IngestionProgram) :
    List (EnrichmentKind × Utf16) → IngestionProgram
  | [] => next
  | (kind, units) :: rest =>
    match decode? units with
    | none => catchAll documentId invalidText
    | some content =>
      execute .enrichments documentId (Store.insertEnrichments [{ documentId, kind, content }])
        (insertEnrichments documentId next rest)

def chunkRow (documentId : Uuid) (rowIds : ℕ → Uuid) (plan : ChunkPlan) (vector : Vector) :
    Except Exc Chunk := do
  let content ← unitsOrThrow plan.content
  return { id := rowIds plan.ordinal, documentId, ordinal := plan.ordinal, content
           kind := plan.kind, page := plan.page, tokenCount := plan.tokenCount
           embedding := some vector }

/-- The final UPDATE: ready, and pending review if the row says library. -/
def markReady (chunkCount : ℕ) (pageCount : Option ℕ) (now : Timestamp) (row : Document) :
    Document :=
  DocumentPatch.apply
    { status := some .ready
      statusError := some none
      chunkCount := some chunkCount
      pageCount := some pageCount
      reviewStatus := if row.scope = .library then some .pendingSme else none } now row

def indexTransaction (documentId : Uuid) (rows : List Chunk) (pageCount : Option ℕ) (s : Store) :
    Except Exc Store := do
  let s ← Store.insertChunks rows s
  return s.setDocument documentId (markReady rows.length pageCount s.now)

/-- The vectors of the chunks, one for each or an exception. -/
def embedChunks (provider : EmbeddingProvider) (header : Utf16) (chunks : List ChunkPlan) :
    Except Exc (List Vector) :=
  match provider.embedDocuments (chunks.map fun c => header ++ utf16 "\n" ++ c.content) with
  | .error exc => .error exc
  | .ok vectors =>
    if vectors.length ≠ chunks.length then .error (wrongVectorCount vectors.length chunks.length)
    else .ok vectors

/-- The rows of the embed stage, every value computed and bound. -/
def indexRows (options : DocsageOptions) (calls : PipelineCalls) (row : Document)
    (plan : EnrichmentPlan) (chunks : List ChunkPlan) : Except Exc (List Chunk) := do
  let provider := resolve options calls.service row.embeddingProvider
  let vectors ← embedChunks provider (header (utf16 row.title) plan) chunks
  (chunks.zip vectors).mapM fun p => chunkRow row.id calls.chunkIds p.1 p.2

def embedStage (options : DocsageOptions) (calls : PipelineCalls) (row : Document)
    (parts : List ExtractedPart) (plan : EnrichmentPlan) : IngestionProgram :=
  setStatusAsync row.id .embedding <|
    match indexRows options calls row plan (chunk parts plan.tablePreambles) with
    | .error exc => catchAll row.id exc
    | .ok rows => execute .chunks row.id (indexTransaction row.id rows (pageCount parts)) (.ret ())

def enrichStage (options : DocsageOptions) (calls : PipelineCalls) (row : Document)
    (parts : List ExtractedPart) : IngestionProgram :=
  setStatusAsync row.id .enriching <|
    match calls.generate (utf16 row.title) parts with
    | .error exc => catchAll row.id exc
    | .ok plan => insertEnrichments row.id
        (embedStage options calls row (fillCaptions plan parts) plan) (enrichmentRows plan)

def extractStage (options : DocsageOptions) (calls : PipelineCalls) (row : Document) :
    IngestionProgram :=
  setStatusAsync row.id .extracting <|
    match calls.extract row.id row.sourceFilename row.mimeType with
    | .error exc => catchAll row.id exc
    | .ok parts => enrichStage options calls row parts

def runAsync (options : DocsageOptions) (calls : PipelineCalls) (documentId : Uuid) :
    IngestionProgram :=
  .read fun
    | .error exc => catchAll documentId exc
    | .ok s =>
      match s.document? documentId with
      | none => .ret ()
      | some row => extractStage options calls row

end Docsage.DotNet
