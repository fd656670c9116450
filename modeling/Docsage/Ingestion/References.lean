import Docsage.Ingestion.DotNet
import Docsage.Ingestion.Run

/-! # Enrichments refer to documents that exist

The foreign key of `enrichments`, as an invariant of the store. Every transaction
of the two pipelines keeps it: they insert under a document that is there, and an
update never changes an id.
-/

namespace Docsage
open Effects Relational

def Store.Linked (s : Store) : Prop := ∀ e ∈ s.enrichments, (s.document? e.documentId).isSome

namespace Store

variable {s s' : Store} {id d : Uuid}

/-- A statement that takes no document away and adds no enrichment. -/
theorem Linked.of_documents (linked : s.Linked)
    (documents : ∀ d, (s.document? d).isSome → (s'.document? d).isSome)
    (enrichments : s'.enrichments = s.enrichments) : s'.Linked := by
  intro e he
  rw [enrichments] at he
  exact documents _ (linked e he)

theorem isSome_setDocument {f : Document → Document} (keeps : ∀ row, (f row).id = row.id) :
    ((s.setDocument id f).document? d).isSome = (s.document? d).isSome := by
  have hkeeps : ∀ row : Document, (if row.id = id then f row else row).id = row.id := by
    intro row
    split
    · exact keeps row
    · rfl
  rw [document?, setDocument, update, lookup_map hkeeps, Option.isSome_map]
  rfl

theorem Linked.setDocument {f : Document → Document} (linked : s.Linked)
    (keeps : ∀ row, (f row).id = row.id) : (s.setDocument id f).Linked :=
  linked.of_documents (fun _ h => by rwa [isSome_setDocument keeps]) rfl

theorem Linked.insertEnrichments {rows : List Enrichment} (linked : s.Linked)
    (h : Store.insertEnrichments rows s = .ok s') : s'.Linked := by
  obtain ⟨hrows, rfl⟩ := insertEnrichments_ok h
  intro e he
  rcases List.mem_append.mp he with he | he
  · exact linked e he
  · exact hrows e he

theorem Linked.insertChunks {rows : List Chunk} (linked : s.Linked)
    (h : Store.insertChunks rows s = .ok s') : s'.Linked := by
  obtain ⟨-, rfl⟩ := insertChunks_ok h
  exact linked

theorem Linked.insertApproval {row : Approval} (linked : s.Linked)
    (h : Store.insertApproval row s = .ok s') : s'.Linked := by
  obtain ⟨-, rfl⟩ := insertApproval_ok h
  exact linked

theorem Linked.insertDocument (linked : s.Linked) (row : Document) :
    (s.insertDocument row).Linked := by
  refine linked.of_documents (fun d h => ?_) rfl
  rw [document?, Store.insertDocument, lookup, List.find?_append]
  rw [document?, lookup] at h
  simp [h]

theorem Linked.deleteDocument (linked : s.Linked) : (s.deleteDocument id).Linked := by
  intro e he
  obtain ⟨he, hne⟩ := mem_delete.mp he
  rw [document?_deleteDocument_ne hne]
  exact linked e he

/-- A document that is gone has no enrichments. -/
theorem Linked.enrichmentsOf (linked : s.Linked) (gone : s.document? d = none) :
    s.enrichmentsOf d = [] := by
  refine select_eq_nil fun e he hd => ?_
  have hsome := linked e he
  rw [hd, gone] at hsome
  cases hsome

end Store

section FastApi

theorem UnitOfWork.flush_linked (u : UnitOfWork) {s s' : Store} (linked : s.Linked)
    (h : u.flush s = .ok s') : s'.Linked := by
  obtain ⟨s₁, hd, h⟩ := bind_ok h
  obtain ⟨s₂, he, h⟩ := bind_ok h
  have hlinked : s₁.Linked := by
    unfold UnitOfWork.flushDocument at hd
    split at hd
    · obtain rfl := Except.ok.inj hd
      exact linked
    · split at hd
      · obtain rfl := Except.ok.inj hd
        exact linked.setDocument fun _ => rfl
      · cases hd
  exact (hlinked.insertEnrichments he).insertChunks h

/-- A commit keeps the references, and so does what follows it. -/
theorem commitSession_linked {point : CommitPoint} {u : UnitOfWork}
    {next : Except Exc OrmDocument → IngestionProgram}
    (rest : ∀ result, (next result).Preserves Store.Linked) :
    (commitSession point u next).Preserves Store.Linked := by
  unfold commitSession
  split
  · exact rest _
  · exact .commit (fun _ _ => u.flush_linked) (rest _) fun _ => rest _

theorem setStatus_linked {began : Option Timestamp} {document : OrmDocument} {status : Status}
    {error : Option String} {next : OrmDocument → IngestionProgram}
    (rest : ∀ document, (next document).Preserves Store.Linked) :
    (setStatus began document status error next).Preserves Store.Linked := by
  refine commitSession_linked fun result => ?_
  cases result with
  | ok document => exact rest document
  | error exc => exact .raised _ _

theorem failWith_linked (began : Option Timestamp) (document : OrmDocument) (reason : String) :
    (failWith began document reason).Preserves Store.Linked := setStatus_linked fun _ => .ret () _

variable {calls : IngestionCalls} {provider : EmbeddingProvider} {result : ExtractionResult}

theorem embedAndFinish_linked (enrichment : EnrichmentResult) (document : OrmDocument) :
    (embedAndFinish calls provider result enrichment document).Preserves Store.Linked := by
  unfold embedAndFinish
  split
  · exact failWith_linked _ _ _
  · refine commitSession_linked fun result => ?_
    cases result with
    | ok document => exact .ret () _
    | error exc => exact failWith_linked _ _ _

theorem captionAndEmbed_linked (enrichment : EnrichmentResult) (document : OrmDocument) :
    (captionAndEmbed calls provider result enrichment document).Preserves Store.Linked := by
  refine commitSession_linked fun result => ?_
  cases result with
  | ok document => exact setStatus_linked (embedAndFinish_linked enrichment)
  | error exc => exact .raised _ _

theorem enrichAndPersist_linked (document : OrmDocument) :
    (enrichAndPersist calls provider result document).Preserves Store.Linked := by
  unfold enrichAndPersist
  split
  · exact failWith_linked _ _ _
  · refine commitSession_linked fun result => ?_
    cases result with
    | ok document => exact captionAndEmbed_linked _ document
    | error exc => exact failWith_linked _ _ _

theorem extractAndEnrich_linked (document : OrmDocument) :
    (extractAndEnrich calls provider document).Preserves Store.Linked := by
  unfold extractAndEnrich
  split
  · exact failWith_linked _ _ _
  · exact setStatus_linked enrichAndPersist_linked

theorem runIngestion_linked (settings : Settings) (calls : IngestionCalls) (documentId : Uuid) :
    (runIngestion settings calls documentId).Preserves Store.Linked := by
  refine .read (fun s _ => ?_) fun _ => .raised _ _
  simp only
  split
  · exact .ret () _
  · unfold ingest
    split
    · split
      · exact failWith_linked _ _ _
      · exact .raised _ _
    · exact setStatus_linked extractAndEnrich_linked

end FastApi

namespace DotNet

theorem updateDocument_linked {id : Uuid} {patch : DocumentPatch} {s s' : Store}
    (linked : s.Linked) (h : Except.ok (s.updateDocument id patch) = (.ok s' : Except Exc Store)) :
    s'.Linked := by
  obtain rfl := Except.ok.inj h
  exact linked.setDocument fun _ => rfl

theorem catchAll_linked (documentId : Uuid) (exc : Exc) :
    (catchAll documentId exc).Preserves Store.Linked := by
  unfold catchAll
  split
  · exact .ret () _
  · exact .commit (fun _ _ => updateDocument_linked) (.ret () _) fun _ => .ret () _

theorem execute_linked {point : CommitPoint} {documentId : Uuid}
    {statement : Store → Except Exc Store} {next : IngestionProgram}
    (keeps : ∀ s s', s.Linked → statement s = .ok s' → s'.Linked)
    (rest : next.Preserves Store.Linked) :
    (execute point documentId statement next).Preserves Store.Linked :=
  .commit keeps rest (catchAll_linked documentId)

theorem setStatusAsync_linked {documentId : Uuid} {status : Status} {next : IngestionProgram}
    (rest : next.Preserves Store.Linked) :
    (setStatusAsync documentId status next).Preserves Store.Linked :=
  execute_linked (fun _ _ => updateDocument_linked) rest

theorem insertEnrichments_linked {documentId : Uuid} {next : IngestionProgram}
    (rows : List (EnrichmentKind × Text.Utf16)) (rest : next.Preserves Store.Linked) :
    (insertEnrichments documentId next rows).Preserves Store.Linked := by
  induction rows with
  | nil => exact rest
  | cons row rows ih =>
    rw [insertEnrichments]
    split
    · exact catchAll_linked _ _
    · exact execute_linked (fun _ _ linked => linked.insertEnrichments) ih

theorem indexTransaction_linked {documentId : Uuid} {rows : List Chunk} {pages : Option ℕ}
    {s s' : Store} (linked : s.Linked) (h : indexTransaction documentId rows pages s = .ok s') :
    s'.Linked := by
  obtain ⟨s₁, hs₁, h⟩ := bind_ok h
  obtain rfl := Except.ok.inj h
  exact (linked.insertChunks hs₁).setDocument fun _ => rfl

theorem runAsync_linked (options : DocsageOptions) (calls : PipelineCalls) (documentId : Uuid) :
    (runAsync options calls documentId).Preserves Store.Linked := by
  refine .read (fun s _ => ?_) fun exc => catchAll_linked _ exc
  simp only
  split
  · exact .ret () _
  refine setStatusAsync_linked ?_
  split
  · exact catchAll_linked _ _
  refine setStatusAsync_linked ?_
  split
  · exact catchAll_linked _ _
  refine insertEnrichments_linked _ (setStatusAsync_linked ?_)
  split
  · exact catchAll_linked _ _
  · exact execute_linked (fun _ _ => indexTransaction_linked) (.ret () _)

end DotNet

end Docsage
