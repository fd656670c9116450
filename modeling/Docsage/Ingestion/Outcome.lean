import Docsage.Ingestion.Run

/-! # Where a run of `run_ingestion` leaves its document

The stages are guarded by handlers that write `failed`, except for two places:
the provider lookup catches a ValueError only, and the commit of the caption
rows has no handler. The document is settled exactly when neither lets an
exception through.
-/

namespace Docsage
open Effects

def Settled (documentId : Uuid) (s : Store) : Prop :=
  ∃ row, s.document? documentId = some row ∧
    (row.status = .ready ∨ row.status = .failed ∧ row.statusError.isSome)

/-- Every exception of the run meets a handler: the provider lookup raises nothing but a
ValueError, and if the run gets to commit caption rows, that commit does not fail. -/
def Guarded (settings : Settings) (calls : IngestionCalls) (fault : CommitPoint → Option Exc)
    (row : Document) : Prop :=
  match getProvider row.embeddingProvider settings calls.service with
  | .error exc => exc.isValueError = true
  | .ok _ =>
    ∀ result, calls.extract row.id row.sourceFilename row.mimeType = .ok result →
      ∀ enrichment, calls.enrich row.title result.parts row.embeddingProvider = .ok enrichment →
        fault .enrichments = none → captionEnrichments row.id result.parts enrichment ≠ [] →
        fault .captions = none

variable {settings : Settings} {calls : IngestionCalls} {fault : CommitPoint → Option Exc}
  {provider : EmbeddingProvider} {document : OrmDocument} {row : Document} {s : Store}
  {result : ExtractionResult} {enrichment : EnrichmentResult} {began : Timestamp}

theorem OrmDocument.synced_withStatus {status : Status} {error : Option String}
    (hs : row.status = status) (he : row.statusError = error) :
    (document.withStatus status error).Synced row :=
  ⟨fun _ h => hs.trans (Option.some.inj h), fun _ h => he.trans (Option.some.inj h)⟩

theorem not_settled_of_transient {d : Uuid} (hrow : s.document? d = some row)
    (ht : row.status.transient = true) : ¬ Settled d s := by
  rintro ⟨row', hrow', h⟩
  obtain rfl := Option.some.inj (hrow.symm.trans hrow')
  rcases h with h | ⟨h, -⟩ <;> simp [h, Status.transient] at ht

theorem failWith_settled {began : Option Timestamp} {reason : String} (clean : document.Clean)
    (synced : document.Synced row) (hrow : s.document? document.id = some row)
    (hf : fault .status = none) :
    Settled document.id ((failWith began document reason).exec fault s).2 := by
  obtain ⟨row', s', hexec, hrow', -, hs, he⟩ :=
    setStatus_exec began .failed (some reason) (fun _ => .ret ()) clean synced hrow hf
  rw [failWith, hexec]
  exact ⟨row', hrow', .inr ⟨hs, by simp [he]⟩⟩

/-- After a rollback the handler needs to know nothing of the document. -/
theorem failWith_rollback_settled {began : Option Timestamp} {reason : String}
    (hrow : s.document? document.id = some row) (hf : fault .status = none) :
    Settled document.id ((failWith began document.rollback reason).exec fault s).2 :=
  (failWith_settled (OrmDocument.clean_rollback document)
    (OrmDocument.synced_rollback _ row) hrow hf :)

/-- The embed stage is guarded as a whole, its own commit included. -/
theorem embedAndFinish_settled {space : ProviderName} (embeds : provider.EmbedsIn space)
    (hrow : s.document? document.id = some row)
    (synced : document.Synced row) (hf : fault .status = none) :
    Settled document.id
      ((embedAndFinish calls provider result enrichment document).exec fault s).2 := by
  unfold embedAndFinish
  split
  · exact failWith_rollback_settled hrow hf
  · next rows hrows =>
    let u : UnitOfWork := { document := document.finish provider result rows, chunks := rows }
    have howned : u.Owned := ⟨List.forall_mem_nil _, embedRows_owned embeds hrows⟩
    have hready : u.document.patch.status.getD row.status = .ready :=
      Tracked.dirty_getD synced.status
    cases hfault : fault .chunks with
    | none =>
      rw [commitSession_exec howned (by simp [u, OrmDocument.finish, hrow]) hfault]
      refine ⟨(u.edit s.now).row row, ?_, .inl ?_⟩
      · exact Edit.document?_apply.trans (by simp [u, OrmDocument.finish, hrow])
      · rw [UnitOfWork.edit_status, hready]
    | some exc =>
      cases hu : u.isEmpty with
      | true =>
        rw [show commitSession .chunks u _ = _ from if_pos hu]
        refine ⟨row, hrow, .inl ?_⟩
        simp only [UnitOfWork.isEmpty, Bool.and_eq_true, decide_eq_true_eq] at hu
        simpa [hu.1.1] using hready
      | false =>
        rw [commitSession_exec_fault hu hfault]
        exact failWith_rollback_settled hrow hf

theorem embedStage_settled {space : ProviderName} (embeds : provider.EmbedsIn space)
    (clean : document.Clean) (hrow : s.document? document.id = some row)
    (synced : document.Synced row) (hf : fault .status = none) :
    Settled document.id ((setStatus none document .embedding none
      (embedAndFinish calls provider result enrichment)).exec fault s).2 := by
  obtain ⟨row', s', hexec, hrow', -, hs, he⟩ :=
    setStatus_exec none .embedding none (embedAndFinish calls provider result enrichment) clean
      synced hrow hf
  rw [hexec]
  change Settled (document.withStatus .embedding none).id _
  exact embedAndFinish_settled embeds hrow' (OrmDocument.synced_withStatus hs he) hf

/-- A unit of work that only adds rows leaves the document where it was. -/
theorem document?_edit_of_clean {u : UnitOfWork} (clean : u.document.Clean)
    (hrow : s.document? u.document.id = some row) :
    ((u.edit s.now).apply u.document.id s).document? u.document.id = some row := by
  rw [Edit.document?_apply, hrow]
  simp [UnitOfWork.edit, clean.patch]

theorem committed_of_clean {u : UnitOfWork} (clean : u.document.Clean) :
    u.committed = u.document := by
  unfold UnitOfWork.committed
  split
  · rfl
  · exact clean.flushed

/-- From the caption rows on, the document is settled unless their commit fails. -/
theorem captionAndEmbed_settled_iff {space : ProviderName} (embeds : provider.EmbedsIn space)
    (clean : document.Clean) (hrow : s.document? document.id = some row)
    (synced : document.Synced row) (ht : row.status.transient = true)
    (hf : fault .status = none) :
    Settled document.id
        ((captionAndEmbed calls provider result enrichment document).exec fault s).2 ↔
      (captionEnrichments document.id result.parts enrichment ≠ [] → fault .captions = none) := by
  let u : UnitOfWork :=
    { document, enrichments := captionEnrichments document.id result.parts enrichment }
  have hempty : u.isEmpty = true ↔ captionEnrichments document.id result.parts enrichment = [] := by
    simp [UnitOfWork.isEmpty, u, clean.patch]
  have howned : u.Owned := by
    refine ⟨fun r hr => ?_, List.forall_mem_nil _⟩
    obtain ⟨c, -, rfl⟩ := List.mem_map.mp hr
    rfl
  cases hfault : fault .captions with
  | none =>
    rw [captionAndEmbed, commitSession_exec howned (by simp [u, hrow]) hfault,
      committed_of_clean clean]
    exact iff_of_true
      (embedStage_settled embeds clean (document?_edit_of_clean clean hrow) synced hf) fun _ => rfl
  | some exc =>
    by_cases hrows : captionEnrichments document.id result.parts enrichment = []
    · rw [captionAndEmbed, commitSession, if_pos (hempty.mpr hrows)]
      exact iff_of_true (embedStage_settled embeds clean hrow synced hf) fun h => absurd hrows h
    · rw [captionAndEmbed, commitSession_exec_fault
        (Bool.eq_false_iff.mpr fun h => hrows (hempty.mp h)) hfault]
      refine iff_of_false (not_settled_of_transient hrow ht) fun h => ?_
      exact Option.some_ne_none _ (h hrows)

/-- After extraction the document is settled unless the caption commit is reached and fails. -/
theorem enrichAndPersist_settled_iff {space : ProviderName} (embeds : provider.EmbedsIn space)
    (clean : document.Clean) (hrow : s.document? document.id = some row)
    (synced : document.Synced row) (ht : row.status.transient = true)
    (hf : fault .status = none) :
    Settled document.id ((enrichAndPersist calls provider result document).exec fault s).2 ↔
      ∀ enrichment, calls.enrich document.title result.parts document.embeddingProvider =
          .ok enrichment → fault .enrichments = none →
        captionEnrichments document.id result.parts enrichment ≠ [] → fault .captions = none := by
  unfold enrichAndPersist
  cases henrich : calls.enrich document.title result.parts document.embeddingProvider with
  | error exc => exact iff_of_true (failWith_rollback_settled hrow hf) fun _ h => by cases h
  | ok enrichment =>
    let u : UnitOfWork :=
      { document, enrichments := persistEnrichments document.id enrichment }
    have howned : u.Owned := ⟨persistEnrichments_owned, List.forall_mem_nil _⟩
    have hne : u.isEmpty = false := by simp [UnitOfWork.isEmpty, u, persistEnrichments]
    change Settled document.id ((commitSession .enrichments u _).exec fault s).2 ↔ _
    cases hfault : fault .enrichments with
    | none =>
      rw [commitSession_exec howned (by simp [u, hrow]) hfault, committed_of_clean clean]
      refine (captionAndEmbed_settled_iff embeds clean
        (document?_edit_of_clean (u := u) clean hrow) synced ht hf).trans ?_
      simp
    | some exc =>
      rw [commitSession_exec_fault hne hfault]
      exact iff_of_true (failWith_rollback_settled hrow hf) fun _ _ h => by cases h

theorem extractAndEnrich_settled_iff {space : ProviderName} (embeds : provider.EmbedsIn space)
    (clean : document.Clean) (hrow : s.document? document.id = some row)
    (synced : document.Synced row) (hf : fault .status = none) :
    Settled document.id ((extractAndEnrich calls provider document).exec fault s).2 ↔
      ∀ result, calls.extract document.id document.sourceFilename document.mimeType = .ok result →
        ∀ enrichment, calls.enrich document.title result.parts document.embeddingProvider =
            .ok enrichment → fault .enrichments = none →
          captionEnrichments document.id result.parts enrichment ≠ [] →
          fault .captions = none := by
  unfold extractAndEnrich
  cases hextract : calls.extract document.id document.sourceFilename document.mimeType with
  | error exc => exact iff_of_true (failWith_settled clean synced hrow hf) fun _ h => by cases h
  | ok result =>
    obtain ⟨row', s', hexec, hrow', -, hs, he⟩ :=
      setStatus_exec none .enriching none (enrichAndPersist calls provider result) clean synced
        hrow hf
    change Settled document.id ((setStatus none document .enriching none _).exec fault s).2 ↔ _
    rw [hexec]
    change Settled (document.withStatus .enriching none).id _ ↔ _
    rw [enrichAndPersist_settled_iff embeds (clean.withStatus _ _) hrow'
      (OrmDocument.synced_withStatus hs he) (by rw [hs]; rfl) hf]
    simp [OrmDocument.withStatus]

/-- `run_ingestion` settles an existing queued document exactly when it is guarded. -/
theorem runIngestion_settled_iff {documentId : Uuid} (hrow : s.document? documentId = some row)
    (queued : row.status = .queued) (hf : fault .status = none) :
    Settled documentId ((runIngestion settings calls documentId).exec fault s).2 ↔
      Guarded settings calls fault row := by
  obtain rfl := Store.document?_id hrow
  have clean := OrmDocument.clean_load row
  have synced := OrmDocument.synced_load row
  simp only [runIngestion, Program.exec, hrow]
  unfold ingest Guarded
  cases hp : getProvider row.embeddingProvider settings calls.service with
  | error exc =>
    simp only [OrmDocument.load, hp]
    split
    · exact iff_of_true (failWith_settled clean synced hrow hf :) ‹_›
    · exact iff_of_false
        (not_settled_of_transient hrow (by rw [queued]; rfl)) ‹_›
  | ok provider =>
    have embeds := getProvider_embedsIn hp
    obtain ⟨row', s', hexec, hrow', -, hs, he⟩ :=
      setStatus_exec (some s.now) .extracting none (extractAndEnrich calls provider) clean
        synced hrow hf
    simp only [OrmDocument.load, hp]
    simp only [OrmDocument.load] at hexec
    rw [hexec]
    change Settled ((OrmDocument.load row).withStatus .extracting none).id _ ↔ _
    exact extractAndEnrich_settled_iff embeds (clean.withStatus _ _) hrow'
      (OrmDocument.synced_withStatus hs he) hf

/-! The upload of one image. The caption rows are written after the handlers of the enrich stage
and before those of the embed stage. -/

def chartRow : Document where
  id := 1
  ownerId := 7
  scope := .personal
  title := "Chart"
  sourceFilename := "chart.png"
  mimeType := "image/png"
  sizeBytes := 512
  embeddingProvider := .demo
  topicId := none
  createdAt := 0
  updatedAt := 0

def chartStore : Store := { now := 0, documents := [chartRow] }

def chartCalls : IngestionCalls where
  service := offlineService
  extract _ _ _ := .ok { parts := [{ kind := .image, filename := "chart.png" }] }
  enrich _ _ _ := .ok { summary := "Chart", captions := [(0, "Image chart.png (demo caption)")] }
  chunkIds position := position

/-- The connection is lost while the caption rows are committed. -/
def captionFault : CommitPoint → Option Exc
  | .captions => some { message := "server closed the connection unexpectedly" }
  | _ => none

theorem runIngestion_settled_iff_chart :
    Settled 1 ((runIngestion {} chartCalls 1).exec captionFault chartStore).2 ↔
      Guarded {} chartCalls captionFault chartRow :=
  runIngestion_settled_iff (by decide : chartStore.document? 1 = some chartRow) rfl rfl

theorem runIngestion_unsettled :
    ¬ ∀ (settings : Settings) (calls : IngestionCalls) (fault : CommitPoint → Option Exc)
      (s : Store) (documentId : Uuid) (row : Document), s.document? documentId = some row →
      row.status = .queued → fault .status = none →
      Settled documentId ((runIngestion settings calls documentId).exec fault s).2 := by
  intro h
  obtain ⟨row, hrow, hend⟩ := h {} chartCalls captionFault chartStore 1 chartRow (by decide) rfl rfl
  have hstatus : (((runIngestion {} chartCalls 1).exec captionFault chartStore).2.document? 1).map
      (·.status) = some .enriching := by decide
  rw [hrow] at hstatus
  obtain hrs : row.status = .enriching := Option.some.inj hstatus
  rcases hend with h | ⟨h, -⟩ <;> simp [hrs] at h

end Docsage
