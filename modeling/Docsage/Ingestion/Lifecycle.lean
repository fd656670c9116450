import Docsage.Ingestion.DotNet
import Docsage.Ingestion.Run

/-! # What a run may commit

The two pipelines keep one protocol. While a run is live its transactions move
the document between transient statuses and add no chunk; the last one either
fails the document or publishes it with all of its chunks; then the run is over.
The protocol is stated on edits, and both programs conform to it on every path.
-/

namespace Docsage
open Effects

inductive Phase where
  | live
  | over
deriving DecidableEq, Repr

/-- An intermediate commit. It leaves the status alone or sets a transient one. -/
structure Advances (e : Edit) : Prop where
  chunks : e.chunks = []
  approvals : e.approvals = []
  reviewStatus : ∀ r, (e.row r).reviewStatus = r.reviewStatus
  chunkCount : ∀ r, (e.row r).chunkCount = r.chunkCount
  status : ∀ r, (e.row r).status = r.status ∨ (e.row r).status.transient = true

structure Fails (e : Edit) : Prop where
  chunks : e.chunks = []
  approvals : e.approvals = []
  reviewStatus : ∀ r, (e.row r).reviewStatus = r.reviewStatus
  chunkCount : ∀ r, (e.row r).chunkCount = r.chunkCount
  status : ∀ r, (e.row r).status = .failed

/-- A list of chunk rows is a complete index in the given space: every ordinal once, every
embedding there. -/
structure Complete (space : ProviderName) (rows : List Chunk) : Prop where
  ordinals : rows.map (·.ordinal) = List.range rows.length
  embeddings : ∀ r ∈ rows, ∃ v, r.embedding = some v ∧ v.implementation = space

/-- The commit of the chunks and of `ready`, on a row no other run has published. -/
structure Publishes (scope : Scope) (space : ProviderName) (e : Edit) : Prop where
  approvals : e.approvals = []
  complete : Complete space e.chunks
  status : ∀ r, (e.row r).status = .ready
  chunkCount : ∀ r, r.chunkCount = 0 → (e.row r).chunkCount = e.chunks.length
  reviewStatus : ∀ r, r.scope = scope → r.reviewStatus = .notRequired →
    (e.row r).reviewStatus = if scope = .library then .pendingSme else .notRequired

/-- Whenever the transaction succeeds it is an edit of the kind. -/
def Performs (d : Uuid) (kind : Edit → Prop) (t : Store → Except Exc Store) : Prop :=
  ∀ s s', t s = .ok s' → ∃ e : Edit, e.Fits d s ∧ kind e ∧ s' = e.apply d s

/-- The transactions of a run on document `d` of the given scope, embedding into `space`. -/
inductive Allowed (d : Uuid) (scope : Scope) (space : ProviderName) :
    Phase → (Store → Except Exc Store) → Phase → Prop where
  | advance {t : Store → Except Exc Store} (h : Performs d Advances t) :
      Allowed d scope space .live t .live
  | fail {t : Store → Except Exc Store} (h : Performs d Fails t) :
      Allowed d scope space .live t .over
  | publish {t : Store → Except Exc Store} (h : Performs d (Publishes scope space) t) :
      Allowed d scope space .live t .over

/-- What a live run finds when it reads its document: the row as the upload left it, its status
apart. `place` maps the provider named by the row to the space its run embeds into. -/
def Sees (place : ProviderName → ProviderName) (d : Uuid) (scope : Scope) (space : ProviderName)
    (phase : Phase) (s : Store) : Prop :=
  phase = .live → ∀ row, s.document? d = some row → row.scope = scope ∧
    place row.embeddingProvider = space ∧ row.reviewStatus = .notRequired ∧ row.chunkCount = 0

/-- The program keeps the protocol from the given phase on. -/
abbrev Keeps (place : ProviderName → ProviderName) (d : Uuid) (scope : Scope)
    (space : ProviderName) (phase : Phase) (p : IngestionProgram) : Prop :=
  p.Conforms (Allowed d scope space) (Sees place d scope space) phase

section FastApi

variable {place : ProviderName → ProviderName} {d : Uuid} {scope : Scope} {space : ProviderName}

/-- The session's document while its run is live: nothing pending, and the columns of the final
unit of work still as the upload left them. -/
structure Fresh (d : Uuid) (scope : Scope) (document : OrmDocument) : Prop where
  id : document.id = d
  scope : document.scope = scope
  clean : document.Clean
  reviewStatus : document.reviewStatus.committed = some .notRequired ∨
    document.reviewStatus.committed = none
  chunkCount : document.chunkCount.committed = some 0 ∨ document.chunkCount.committed = none

variable {document : OrmDocument} {status : Status} {error : Option String}

theorem Fresh.withStatus (h : Fresh d scope document) :
    Fresh d scope (document.withStatus status error) :=
  ⟨h.id, h.scope, h.clean.withStatus _ _, h.reviewStatus, h.chunkCount⟩

theorem Fresh.rollback (h : Fresh d scope document) : Fresh d scope document.rollback :=
  ⟨h.id, h.scope, document.clean_rollback, .inr rfl, .inr rfl⟩

theorem statusEdit_row (clean : document.Clean) (status : Status) (error : Option String)
    (began : Option Timestamp) (now : Timestamp) (r : Document) :
    let u : UnitOfWork := { document := document.assignStatus status error, began }
    ((u.edit now).row r).reviewStatus = r.reviewStatus ∧
      ((u.edit now).row r).chunkCount = r.chunkCount ∧
      (((u.edit now).row r).status = r.status ∨ ((u.edit now).row r).status = status) ∧
      (document.status.committed ≠ some status → ((u.edit now).row r).status = status) := by
  intro u
  have hpatch : u.document.patch =
      { status := (document.status.assign status).dirty
        statusError := (document.statusError.assign error).dirty } :=
    clean.patch_assignStatus status error
  by_cases hc : document.status.committed = some status
  · simp only [UnitOfWork.edit, hpatch, Tracked.dirty_assign, hc, if_true]
    split <;> simp
  · have hne : u.document.patch ≠ {} := by
      intro h
      rw [hpatch] at h
      have := congrArg DocumentPatch.status h
      simp [Tracked.dirty_assign, hc] at this
    simp only [UnitOfWork.edit, if_neg hne]
    simp [hpatch, Tracked.dirty_assign, hc]

theorem setStatus_keeps {began : Option Timestamp} {next : OrmDocument → IngestionProgram}
    (fresh : Fresh d scope document) (ht : status.transient = true)
    (done : Keeps place d scope space .live (next (document.withStatus status error))) :
    Keeps place d scope space .live (setStatus began document status error next) := by
  refine commitSession_conforms .live (fun _ => .advance fun s s' h => ?_) (fun h => ?_)
    (by rwa [fresh.clean.flushed_assignStatus]) fun _ => .raised _ _
  · obtain ⟨hfits, rfl⟩ := UnitOfWork.flush_ok ⟨by simp, by simp⟩ h
    have hrow := statusEdit_row fresh.clean status error began s.now
    refine ⟨_, fresh.id ▸ hfits, ⟨rfl, rfl, fun r => (hrow r).1, fun r => (hrow r).2.1, ?_⟩,
      congrArg (Edit.apply _ · s) fresh.id⟩
    intro r
    rcases (hrow r).2.2.1 with h | h
    · exact .inl h
    · exact .inr (by rw [h]; exact ht)
  · have hpatch : (document.assignStatus status error).patch = {} := by
      simp_all [UnitOfWork.isEmpty]
    rw [show document.assignStatus status error = _ from fresh.clean.assignStatus_of_patch hpatch]
    exact done

/-- The failure handler ends the run, whatever the document's last status was. -/
theorem failWith_keeps {began : Option Timestamp} {reason : String}
    (fresh : Fresh d scope document) :
    Keeps place d scope space .live (failWith began document reason) := by
  have hedit := fun s : Store =>
    statusEdit_row fresh.clean .failed (some reason) began s.now
  have hflush {s s' : Store} (h : UnitOfWork.flush
      { document := document.assignStatus .failed (some reason), began } s = .ok s') :=
    UnitOfWork.flush_ok ⟨by simp, by simp⟩ h
  unfold failWith setStatus
  by_cases hc : document.status.committed = some .failed
  · -- a document already loaded as failed gets a new reason only
    refine commitSession_conforms .live (fun _ => .advance fun s s' h => ?_)
      (fun _ => .ret _ _) (.ret _ _) fun _ => .raised _ _
    obtain ⟨hfits, rfl⟩ := hflush h
    refine ⟨_, fresh.id ▸ hfits, ⟨rfl, rfl, fun r => (hedit s r).1, fun r => (hedit s r).2.1, ?_⟩,
      congrArg (Edit.apply _ · s) fresh.id⟩
    intro r
    left
    simp only [UnitOfWork.edit, fresh.clean.patch_assignStatus, Tracked.dirty_assign, hc, if_true]
    split <;> simp
  · refine commitSession_conforms .over (fun _ => .fail fun s s' h => ?_)
      (fun _ => .ret _ _) (.ret _ _) fun _ => .raised _ _
    obtain ⟨hfits, rfl⟩ := hflush h
    exact ⟨_, fresh.id ▸ hfits, ⟨rfl, rfl, fun r => (hedit s r).1, fun r => (hedit s r).2.1,
      fun r => (hedit s r).2.2.2 hc⟩, congrArg (Edit.apply _ · s) fresh.id⟩

variable {provider : EmbeddingProvider} {result : ExtractionResult} {calls : IngestionCalls}
  {enrichment : EnrichmentResult}

theorem embedRows_complete (embeds : provider.EmbedsIn space) {rowIds : ℕ → Uuid} {title : String}
    {parts : List ExtractedPart} {rows : List Chunk}
    (h : embedRows provider d rowIds title parts enrichment = .ok rows) : Complete space rows := by
  obtain ⟨hbare, hsome, hspace⟩ := embedRows_ok embeds h
  refine ⟨ordinal_of_bare hbare (bareRows_ordinal parts enrichment), fun r hr => ?_⟩
  obtain ⟨v, hv⟩ := Option.isSome_iff_exists.mp (hsome r hr)
  exact ⟨v, hv, hspace r hr v hv⟩

/-- The final unit of work updates the row of a document that was not loaded as ready. -/
theorem finish_edits (provider : EmbeddingProvider) (result : ExtractionResult)
    (rows : List Chunk) (h : document.status.committed ≠ some .ready) :
    (document.finish provider result rows).patch.status = some .ready ∧
      ∀ now r, (UnitOfWork.edit
        { document := document.finish provider result rows, chunks := rows } now).row r =
        (document.finish provider result rows).patch.apply now r := by
  have hstatus : (document.finish provider result rows).patch.status = some .ready := by
    simp [OrmDocument.patch, OrmDocument.finish, Tracked.dirty_assign, h]
  refine ⟨hstatus, fun now r => if_neg fun hnone => ?_⟩
  rw [hnone] at hstatus
  cases hstatus

/-- The columns of the final unit of work, as the UPDATE leaves them. -/
theorem finish_publishes {rows : List Chunk} (fresh : Fresh d scope document)
    (complete : Complete space rows) (hs : document.status.committed = some .embedding)
    (now : Timestamp) :
    Publishes scope space (UnitOfWork.edit
      { document := document.finish provider result rows, chunks := rows } now) := by
  obtain ⟨hstatus, hrow⟩ := finish_edits provider result rows
    (show document.status.committed ≠ some .ready by simp [hs])
  refine ⟨rfl, complete, fun r => ?_, fun r hr => ?_, fun r hscope hr => ?_⟩
  · rw [hrow, DocumentPatch.apply_status, hstatus]
    rfl
  · rw [hrow, DocumentPatch.apply_chunkCount, hr]
    change (document.chunkCount.assign rows.length).dirty.getD 0 = rows.length
    rw [Tracked.dirty_assign]
    split
    · -- a document without chunks keeps the count it was loaded with
      rcases fresh.chunkCount with h | h <;> simp_all
    · rfl
  · rw [hrow, DocumentPatch.apply_reviewStatus, hr]
    by_cases hl : scope = .library
    · have hdirty : (document.reviewStatus.assign .pendingSme).dirty = some .pendingSme := by
        rcases fresh.reviewStatus with h | h <;> simp [Tracked.dirty_assign, h]
      simp [OrmDocument.patch, OrmDocument.finish, fresh.scope, hl, hdirty]
    · simp [OrmDocument.patch, OrmDocument.finish, fresh.scope, hl, fresh.clean.reviewStatus.dirty]

theorem embedAndFinish_keeps (embeds : provider.EmbedsIn space) (fresh : Fresh d scope document)
    (hs : document.status.committed = some .embedding) :
    Keeps place d scope space .live (embedAndFinish calls provider result enrichment document) := by
  unfold embedAndFinish
  split
  · exact failWith_keeps fresh.rollback
  · next rows hrows =>
    refine commitSession_conforms .over (fun _ => .publish fun s s' h => ?_)
      (fun _ => .ret _ _) (.ret _ _) fun _ => failWith_keeps fresh.rollback
    have howned : ∀ r ∈ rows, r.documentId = document.id := embedRows_owned embeds hrows
    obtain ⟨hfits, rfl⟩ := UnitOfWork.flush_ok ⟨by simp, howned⟩ h
    exact ⟨_, fresh.id ▸ hfits, finish_publishes fresh (embedRows_complete embeds hrows) hs s.now,
      congrArg (Edit.apply _ · s) fresh.id⟩

/-- A unit of work that only adds enrichment rows advances the run. -/
theorem addEnrichments_advances {rows : List Enrichment} (fresh : Fresh d scope document)
    (owned : ∀ r ∈ rows, r.documentId = document.id) :
    Performs d Advances (UnitOfWork.flush { document, enrichments := rows }) := by
  intro s s' h
  obtain ⟨hfits, rfl⟩ := UnitOfWork.flush_ok ⟨owned, by simp⟩ h
  have hrow (r : Document) :
      (UnitOfWork.edit { document, enrichments := rows } s.now).row r = r :=
    if_pos fresh.clean.patch
  exact ⟨_, fresh.id ▸ hfits, ⟨rfl, rfl, fun r => by rw [hrow], fun r => by rw [hrow],
    fun r => .inl (by rw [hrow])⟩, congrArg (Edit.apply _ · s) fresh.id⟩

theorem captionAndEmbed_keeps (embeds : provider.EmbedsIn space) (fresh : Fresh d scope document) :
    Keeps place d scope space .live
      (captionAndEmbed calls provider result enrichment document) := by
  have hnext : Keeps place d scope space .live
      (setStatus none document .embedding none (embedAndFinish calls provider result enrichment)) :=
    setStatus_keeps fresh rfl (embedAndFinish_keeps embeds fresh.withStatus rfl)
  exact commitSession_conforms .live
    (fun _ => .advance (addEnrichments_advances fresh captionEnrichments_owned)) (fun _ => hnext)
    (by rw [fresh.clean.flushed]; exact hnext) fun _ => .raised _ _

theorem enrichAndPersist_keeps (embeds : provider.EmbedsIn space) (fresh : Fresh d scope document) :
    Keeps place d scope space .live (enrichAndPersist calls provider result document) := by
  unfold enrichAndPersist
  split
  · exact failWith_keeps fresh.rollback
  · have hnext {enrichment : EnrichmentResult} : Keeps place d scope space .live
        (captionAndEmbed calls provider result enrichment document) :=
      captionAndEmbed_keeps embeds fresh
    exact commitSession_conforms .live
      (fun _ => .advance (addEnrichments_advances fresh persistEnrichments_owned)) (fun _ => hnext)
      (by rw [fresh.clean.flushed]; exact hnext) fun _ => failWith_keeps fresh.rollback

theorem extractAndEnrich_keeps (embeds : provider.EmbedsIn space) (fresh : Fresh d scope document) :
    Keeps place d scope space .live (extractAndEnrich calls provider document) := by
  unfold extractAndEnrich
  split
  · exact failWith_keeps fresh
  · exact setStatus_keeps fresh rfl (enrichAndPersist_keeps embeds fresh.withStatus)

/-- Every path of `run_ingestion` keeps the protocol, in the space its document names. -/
theorem runIngestion_keeps (settings : Settings) (calls : IngestionCalls) (d : Uuid) (scope : Scope)
    (space : ProviderName) : Keeps id d scope space .live (runIngestion settings calls d) := by
  refine .read (fun s view => ?_) fun _ => .raised _ _
  simp only
  split
  · exact .ret _ _
  · next row hrow =>
    obtain ⟨hscope, rfl, hreview, hcount⟩ := view rfl row hrow
    have fresh : Fresh d scope (.load row) :=
      ⟨Store.document?_id hrow, hscope, OrmDocument.clean_load row, .inl (congrArg some hreview),
        .inl (congrArg some hcount)⟩
    unfold ingest
    split
    · split
      · exact failWith_keeps fresh
      · exact .raised _ _
    · next provider hp =>
      exact setStatus_keeps fresh rfl
        (extractAndEnrich_keeps (getProvider_embedsIn hp) fresh.withStatus)

end FastApi

namespace DotNet

variable {place : ProviderName → ProviderName} {d : Uuid} {scope : Scope} {space : ProviderName}

theorem catchAll_keeps (exc : Exc) : Keeps place d scope space .live (catchAll d exc) := by
  unfold catchAll
  split
  · exact .ret _ _
  · refine .commit (.fail fun s s' h => ?_) (.ret _ _) fun _ => .ret _ _
    obtain rfl := Except.ok.inj h
    exact ⟨_, .ofPatch _ _ _ _, ⟨rfl, rfl, fun _ => rfl, fun _ => rfl, fun _ => rfl⟩,
      Store.updateDocument_eq_apply _⟩

/-- A statement inside the `try` may be anything the protocol allows: its failure is caught. -/
theorem execute_keeps {point : CommitPoint} {statement : Store → Except Exc Store}
    {next : IngestionProgram} {phase : Phase}
    (allowed : Allowed d scope space .live statement phase)
    (done : Keeps place d scope space phase next) :
    Keeps place d scope space .live (execute point d statement next) :=
  .commit allowed done catchAll_keeps

theorem setStatusAsync_keeps {status : Status} {next : IngestionProgram}
    (ht : status.transient = true) (done : Keeps place d scope space .live next) :
    Keeps place d scope space .live (setStatusAsync d status next) := by
  refine execute_keeps (.advance fun s s' h => ?_) done
  obtain rfl := Except.ok.inj h
  refine ⟨_, .ofPatch _ _ _ _, ⟨rfl, rfl, fun _ => rfl, fun _ => rfl, fun r => .inr ?_⟩,
    Store.updateDocument_eq_apply _⟩
  exact ht

theorem insert_advances {rows : List Enrichment} (owned : ∀ r ∈ rows, r.documentId = d) :
    Performs d Advances (Store.insertEnrichments rows) := by
  intro s s' h
  obtain ⟨-, rfl⟩ := Store.insertEnrichments_ok h
  refine ⟨{ row := id, fixed := fun _ => rfl, enrichments := rows },
    ⟨owned, by simp, by simp, by simp, by simp⟩,
    ⟨rfl, rfl, fun _ => rfl, fun _ => rfl, fun _ => .inl rfl⟩, ?_⟩
  simp [Edit.apply, Relational.update]

theorem insertEnrichments_keeps {next : IngestionProgram}
    (rows : List (EnrichmentKind × Text.Utf16))
    (done : Keeps place d scope space .live next) :
    Keeps place d scope space .live (insertEnrichments d next rows) := by
  induction rows with
  | nil => exact done
  | cons row rest ih =>
    rw [insertEnrichments]
    split
    · exact catchAll_keeps _
    · exact execute_keeps (.advance (insert_advances (by simp))) ih

theorem chunkRow_ok {rowIds : ℕ → Uuid} {plan : ChunkPlan} {vector : Vector} {row : Chunk}
    (h : chunkRow d rowIds plan vector = .ok row) :
    row.documentId = d ∧ row.ordinal = plan.ordinal ∧ row.embedding = some vector := by
  obtain ⟨content, -, h⟩ := bind_ok h
  obtain rfl := Except.ok.inj h
  exact ⟨rfl, rfl, rfl⟩

theorem chunkRows_ok {rowIds : ℕ → Uuid} {pairs : List (ChunkPlan × Vector)} {rows : List Chunk}
    (h : List.Forall₂ (fun p r => chunkRow d rowIds p.1 p.2 = .ok r) pairs rows) :
    rows.map (·.ordinal) = pairs.map (·.1.ordinal) ∧
      ∀ r ∈ rows, r.documentId = d ∧ ∃ p ∈ pairs, r.embedding = some p.2 := by
  induction h with
  | nil => exact ⟨rfl, by simp⟩
  | cons hr _ ih =>
    obtain ⟨hdoc, hord, hemb⟩ := chunkRow_ok hr
    refine ⟨by rw [List.map_cons, List.map_cons, ih.1, hord], fun r hm => ?_⟩
    rcases List.mem_cons.mp hm with rfl | hm
    · exact ⟨hdoc, _, List.mem_cons_self, hemb⟩
    · obtain ⟨hdoc, p, hp, hemb⟩ := ih.2 r hm
      exact ⟨hdoc, p, List.mem_cons_of_mem _ hp, hemb⟩

theorem chunk_ordinal (parts : List ExtractedPart) (tablePreambles : List (ℕ × Text.Utf16)) :
    (chunk parts tablePreambles).map (·.ordinal) =
      List.range (chunk parts tablePreambles).length := by
  simp only [chunk, List.map_map, List.length_map, List.length_zipIdx]
  rw [List.range_eq_range', ← List.zipIdx_map_snd 0]
  rfl

theorem embedChunks_ok {provider : EmbeddingProvider} (embeds : provider.EmbedsIn space)
    {head : Text.Utf16} {chunks : List ChunkPlan} {vectors : List Vector}
    (h : embedChunks provider head chunks = .ok vectors) :
    vectors.length = chunks.length ∧ ∀ v ∈ vectors, v.implementation = space := by
  unfold embedChunks at h
  split at h
  · cases h
  · next vs hvs =>
    split at h
    · cases h
    · obtain rfl := Except.ok.inj h
      exact ⟨not_not.mp ‹_›, embeds.documents hvs⟩

/-- The rows of the embed stage are a complete index in the space of the resolved provider. -/
theorem indexRows_ok {options : DocsageOptions} {calls : PipelineCalls} {row : Document}
    {plan : EnrichmentPlan} {parts : List ExtractedPart} {rows : List Chunk}
    (h : indexRows options calls row plan (chunk parts plan.tablePreambles) = .ok rows) :
    (∀ r ∈ rows, r.documentId = row.id) ∧
      Complete (options.implementation row.embeddingProvider) rows := by
  have embeds := resolve_embedsIn options calls.service row.embeddingProvider
  obtain ⟨vectors, hv, h⟩ := bind_ok h
  obtain ⟨hlen, hspace⟩ := embedChunks_ok embeds hv
  obtain ⟨hord, hrows⟩ := chunkRows_ok (forall₂_of_mapM_ok h)
  have hfst : ((chunk parts plan.tablePreambles).zip vectors).map (·.1) =
      chunk parts plan.tablePreambles := List.map_fst_zip (by simp [hlen])
  have hplans : rows.map (·.ordinal) = (chunk parts plan.tablePreambles).map (·.ordinal) := by
    rw [hord, ← hfst, List.map_map, hfst]
    rfl
  refine ⟨fun r hr => (hrows r hr).1, ⟨?_, fun r hr => ?_⟩⟩
  · have hcount := congrArg List.length hplans
    rw [List.length_map, List.length_map] at hcount
    rw [hplans, chunk_ordinal, hcount]
  · obtain ⟨-, p, hp, hemb⟩ := hrows r hr
    exact ⟨p.2, hemb, hspace _ (List.of_mem_zip hp).2⟩

/-- The last transaction publishes, whatever the row says meanwhile. -/
theorem indexTransaction_publishes {rows : List Chunk} {pageCount : Option ℕ}
    (owned : ∀ r ∈ rows, r.documentId = d) (complete : Complete space rows) :
    Performs d (Publishes scope space) (indexTransaction d rows pageCount) := by
  intro s s' h
  obtain ⟨s₁, hi, h⟩ := bind_ok h
  obtain rfl := Except.ok.inj h
  obtain ⟨hexists, rfl⟩ := Store.insertChunks_ok hi
  refine ⟨{ row := markReady rows.length pageCount s.now, fixed := fun _ => rfl, chunks := rows },
    ⟨by simp, owned, by simp, fun hne => ?_, by simp⟩,
    ⟨rfl, complete, fun _ => rfl, fun _ _ => rfl, fun r hscope hr => ?_⟩, ?_⟩
  · obtain ⟨r, hr⟩ := List.exists_mem_of_ne_nil _ hne
    rw [← owned r hr]
    exact hexists r hr
  · by_cases hl : r.scope = .library
    · simp [markReady, hl, ← hscope]
    · simp [markReady, hl, ← hscope, hr]
  · simp [Edit.apply, Store.setDocument]

theorem embedStage_keeps {options : DocsageOptions} {calls : PipelineCalls} {row : Document}
    {parts : List ExtractedPart} {plan : EnrichmentPlan} :
    Keeps place row.id scope (options.implementation row.embeddingProvider) .live
      (embedStage options calls row parts plan) := by
  refine setStatusAsync_keeps rfl ?_
  split
  · exact catchAll_keeps _
  · next rows hrows =>
    obtain ⟨howned, hcomplete⟩ := indexRows_ok hrows
    exact execute_keeps (.publish (indexTransaction_publishes howned hcomplete)) (.ret _ _)

/-- Every path of `RunAsync` keeps the protocol, in the space its resolver picks. -/
theorem runAsync_keeps (options : DocsageOptions) (calls : PipelineCalls) (d : Uuid) (scope : Scope)
    (space : ProviderName) :
    Keeps options.implementation d scope space .live (runAsync options calls d) := by
  refine .read (fun s view => ?_) catchAll_keeps
  simp only
  split
  · exact .ret _ _
  · next row hrow =>
    obtain ⟨-, rfl, -, -⟩ := view rfl row hrow
    obtain rfl := Store.document?_id hrow
    refine setStatusAsync_keeps rfl ?_
    split
    · exact catchAll_keeps _
    · refine setStatusAsync_keeps rfl ?_
      split
      · exact catchAll_keeps _
      · exact insertEnrichments_keeps _ embedStage_keeps

end DotNet

end Docsage
