import Docsage.Ingestion.Lifecycle
import Docsage.Ingestion.Outcome

/-! # The order of the statuses

A run of `run_ingestion` that nobody interferes with takes its document through the
transient statuses one by one. It may fail at any of them, and it publishes from the
last; the review status changes with the publication only.
-/

namespace Docsage
open Effects

/-- The statuses that a document gets while the store goes through a list of stores. -/
def committedStatuses (d : Uuid) : Store → List Store → List Status
  | _, [] => []
  | s, s' :: rest =>
    if (s'.document? d).map (·.status) = (s.document? d).map (·.status) then
      committedStatuses d s' rest
    else ((s'.document? d).map (·.status)).toList ++ committedStatuses d s' rest

def stages : List Status := [.extracting, .enriching, .embedding]

/-- Some of the statuses ahead and then possibly a final one, which is `ready` only behind all of
them. -/
def InOrder (ahead statuses : List Status) : Prop :=
  ∃ done, done <+: ahead ∧
    (statuses = done ∨ statuses = done ++ [.failed] ∨ done = ahead ∧ statuses = done ++ [.ready])

/-- The review status of a document changes only where the document becomes ready, and then it is
a library document that is pending from there on. -/
def ReviewWithReady (d : Uuid) (s s' : Store) : Prop :=
  ∀ before after, s.document? d = some before → s'.document? d = some after →
    after.reviewStatus = before.reviewStatus ∨
      before.status ≠ .ready ∧ after.status = .ready ∧ after.scope = .library ∧
        after.reviewStatus = .pendingSme

inductive IngestionStage where
  | queued
  | extracting
  | enriching
  | embedding
  | over

/-- The status of the document, while the run is not over. -/
def IngestionStage.status : IngestionStage → Option Status
  | .queued => some .queued
  | .extracting => some .extracting
  | .enriching => some .enriching
  | .embedding => some .embedding
  | .over => none

def IngestionStage.ahead : IngestionStage → List Status
  | .queued => stages
  | .extracting => [.enriching, .embedding]
  | .enriching => [.embedding]
  | .embedding | .over => []

def IngestionStage.next : IngestionStage → Option IngestionStage
  | .queued => some .extracting
  | .extracting => some .enriching
  | .enriching => some .embedding
  | .embedding | .over => none

/-- The edit gives every row the status and leaves its review status alone. -/
structure Sets (status : Status) (e : Edit) : Prop where
  status : ∀ r, (e.row r).status = status
  reviewStatus : ∀ r, (e.row r).reviewStatus = r.reviewStatus

structure LeavesStatus (e : Edit) : Prop where
  status : ∀ r, (e.row r).status = r.status
  reviewStatus : ∀ r, (e.row r).reviewStatus = r.reviewStatus

/-- The edit makes a row of the scope ready, and a library row pending. -/
structure MakesReady (scope : Scope) (e : Edit) : Prop where
  status : ∀ r, (e.row r).status = .ready
  reviewStatus : ∀ r, (e.row r).reviewStatus = r.reviewStatus ∨
    scope = .library ∧ (e.row r).reviewStatus = .pendingSme

/-- The transactions of a run on document `d`, by stage. -/
inductive StageStep (d : Uuid) (scope : Scope) :
    IngestionStage → (Store → Except Exc Store) → IngestionStage → Prop
  | leave {stage : IngestionStage} {t : Store → Except Exc Store} (h : Performs d LeavesStatus t) :
    StageStep d scope stage t stage
  | advance {stage stage' : IngestionStage} {status : Status} {t : Store → Except Exc Store}
    (next : stage.next = some stage') (reached : stage'.status = some status)
    (h : Performs d (Sets status) t) : StageStep d scope stage t stage'
  | fail {stage : IngestionStage} {t : Store → Except Exc Store} (live : stage.status.isSome)
    (h : Performs d (Sets .failed) t) : StageStep d scope stage t .over
  | publish {t : Store → Except Exc Store} (h : Performs d (MakesReady scope) t) :
    StageStep d scope .embedding t .over

def AtStage (d : Uuid) (scope : Scope) (stage : IngestionStage) (s : Store) : Prop :=
  ∃ row, s.document? d = some row ∧ row.scope = scope ∧
    ∀ status, stage.status = some status → row.status = status

variable {d : Uuid} {scope : Scope} {stage stage' : IngestionStage} {s s' : Store}
  {t : Store → Except Exc Store} {kind : Edit → Prop}

theorem Performs.row (h : Performs d kind t) (done : t s = .ok s') {row : Document}
    (hrow : s.document? d = some row) : ∃ e, kind e ∧ s'.document? d = some (e.row row) := by
  obtain ⟨e, -, hkind, rfl⟩ := h s s' done
  exact ⟨e, hkind, by rw [Edit.document?_apply, hrow]; rfl⟩

theorem StageStep.row (step : StageStep d scope stage t stage') (done : t s = .ok s')
    {row : Document} (hrow : s.document? d = some row) : ∃ e : Edit,
      s'.document? d = some (e.row row) ∧
        (stage' = stage ∧ LeavesStatus e ∨
          (∃ status, stage.next = some stage' ∧ stage'.status = some status ∧ Sets status e) ∨
          (stage.status.isSome ∧ stage' = .over ∧ Sets .failed e) ∨
          stage = .embedding ∧ stage' = .over ∧ MakesReady scope e) := by
  cases step with
  | leave h =>
    obtain ⟨e, he, hrow'⟩ := h.row done hrow
    exact ⟨e, hrow', .inl ⟨rfl, he⟩⟩
  | advance next reached h =>
    obtain ⟨e, he, hrow'⟩ := h.row done hrow
    exact ⟨e, hrow', .inr (.inl ⟨_, next, reached, he⟩)⟩
  | fail live h =>
    obtain ⟨e, he, hrow'⟩ := h.row done hrow
    exact ⟨e, hrow', .inr (.inr (.inl ⟨live, rfl, he⟩))⟩
  | publish h =>
    obtain ⟨e, he, hrow'⟩ := h.row done hrow
    exact ⟨e, hrow', .inr (.inr (.inr ⟨rfl, rfl, he⟩))⟩

theorem StageStep.keeps (step : StageStep d scope stage t stage')
    (at_stage : AtStage d scope stage s) (done : t s = .ok s') : AtStage d scope stage' s' := by
  obtain ⟨row, hrow, hscope, hstatus⟩ := at_stage
  obtain ⟨e, hrow', hstep⟩ := step.row done hrow
  refine ⟨e.row row, hrow', (e.row_scope row).trans hscope, fun status hs => ?_⟩
  rcases hstep with ⟨rfl, he⟩ | ⟨reached, -, hreached, he⟩ | ⟨-, rfl, -⟩ | ⟨-, rfl, -⟩
  · rw [he.status row, hstatus status hs]
  · rw [he.status row]
    exact Option.some.inj (hreached.symm.trans hs)
  · cases hs
  · cases hs

theorem committedStatuses_cons {row row' : Document} {rest : List Store}
    (hrow : s.document? d = some row) (hrow' : s'.document? d = some row') :
    committedStatuses d s (s' :: rest) =
      if row'.status = row.status then committedStatuses d s' rest
      else row'.status :: committedStatuses d s' rest := by
  simp [committedStatuses, hrow, hrow']

theorem InOrder.cons {status : Status} {ahead statuses : List Status}
    (h : InOrder ahead statuses) : InOrder (status :: ahead) (status :: statuses) := by
  obtain ⟨done, hdone, h⟩ := h
  refine ⟨status :: done, List.cons_prefix_cons.mpr ⟨rfl, hdone⟩, ?_⟩
  rcases h with rfl | rfl | ⟨rfl, rfl⟩
  · exact .inl rfl
  · exact .inr (.inl rfl)
  · exact .inr (.inr ⟨rfl, rfl⟩)

theorem IngestionStage.ahead_of_next {status : Status} (next : stage.next = some stage')
    (reached : stage'.status = some status) :
    stage.ahead = status :: stage'.ahead ∧ stage.status ≠ some status ∧ stage.status.isSome := by
  cases stage <;> cases next <;> cases reached <;> exact ⟨rfl, by decide, rfl⟩

theorem IngestionStage.status_ne {status : Status} (final : status = .failed ∨ status = .ready) :
    stage.status ≠ some status := by
  rcases final with rfl | rfl <;> cases stage <;> decide

/-- The row of a live run has the status of the stage, and so no other one. -/
theorem row_status_ne {row : Document} {status : Status}
    (h : ∀ status, stage.status = some status → row.status = status)
    (live : stage.status.isSome) (hne : stage.status ≠ some status) : status ≠ row.status := by
  obtain ⟨reached, hreached⟩ := Option.isSome_iff_exists.mp live
  rintro rfl
  exact hne (by rw [hreached, h reached hreached])

/-- When a run is over it commits no status, and before it commits those ahead of it in order. -/
theorem path_inOrder {rest : List Store} (path : Program.Path (StageStep d scope) stage s rest)
    (at_stage : AtStage d scope stage s) :
    (stage.status.isSome → InOrder stage.ahead (committedStatuses d s rest)) ∧
      (stage.status = none → committedStatuses d s rest = []) := by
  induction path with
  | nil => exact ⟨fun _ => ⟨[], List.nil_prefix, .inl rfl⟩, fun _ => rfl⟩
  | stay behind ih =>
    rw [committedStatuses, if_pos rfl]
    exact ih at_stage
  | move step done behind ih =>
    have hbehind := ih (step.keeps at_stage done)
    obtain ⟨row, hrow, -, hstatus⟩ := at_stage
    obtain ⟨e, hrow', hstep⟩ := step.row done hrow
    rw [committedStatuses_cons hrow hrow']
    rcases hstep with ⟨rfl, he⟩ | ⟨status, next, reached, he⟩ | ⟨live, rfl, he⟩ | ⟨rfl, rfl, he⟩
    · rw [if_pos (he.status row)]
      exact hbehind
    · obtain ⟨hahead, hne, live⟩ := IngestionStage.ahead_of_next next reached
      rw [he.status row, if_neg (row_status_ne hstatus live hne), hahead]
      exact ⟨fun _ => (hbehind.1 (reached ▸ rfl)).cons, fun h => by rw [h] at live; cases live⟩
    · have hne := row_status_ne hstatus live (IngestionStage.status_ne (.inl rfl))
      rw [he.status row, if_neg hne, hbehind.2 rfl]
      refine ⟨fun _ => ⟨[], List.nil_prefix, .inr (.inl rfl)⟩, fun h => ?_⟩
      rw [h] at live
      cases live
    · rw [he.status row, hstatus _ rfl, if_neg (by decide), hbehind.2 rfl]
      exact ⟨fun _ => ⟨[], List.nil_prefix, .inr (.inr ⟨rfl, rfl⟩)⟩, nofun⟩

/-- Each access of a path keeps the review status, or publishes the document. -/
theorem path_review {rest : List Store} (path : Program.Path (StageStep d scope) stage s rest)
    (at_stage : AtStage d scope stage s) : (s :: rest).IsChain (ReviewWithReady d) := by
  induction path with
  | nil => exact .singleton _
  | stay behind ih =>
    refine List.isChain_cons_cons.mpr ⟨fun before after hb ha => ?_, ih at_stage⟩
    rw [Option.some.inj (hb.symm.trans ha)]
    exact .inl rfl
  | move step done behind ih =>
    refine List.isChain_cons_cons.mpr ⟨fun before after hb ha => ?_, ih (step.keeps at_stage done)⟩
    obtain ⟨row, hrow, hscope, hstatus⟩ := at_stage
    obtain rfl := Option.some.inj (hrow.symm.trans hb)
    obtain ⟨e, hrow', hstep⟩ := step.row done hrow
    obtain rfl := Option.some.inj (hrow'.symm.trans ha)
    rcases hstep with ⟨-, he⟩ | ⟨status, -, -, he⟩ | ⟨-, -, he⟩ | ⟨rfl, -, he⟩
    · exact .inl (he.reviewStatus row)
    · exact .inl (he.reviewStatus row)
    · exact .inl (he.reviewStatus row)
    · refine (he.reviewStatus row).imp_right fun ⟨hlibrary, hpending⟩ => ?_
      refine ⟨by rw [hstatus _ rfl]; decide, he.status row, ?_, hpending⟩
      rw [e.row_scope row, hscope, hlibrary]

/-- The session's document at a stage: nothing pending, and its status as the stage says unless it
is expired. -/
structure Staged (d : Uuid) (scope : Scope) (stage : IngestionStage) (document : OrmDocument) :
    Prop where
  id : document.id = d
  scope : document.scope = scope
  clean : document.Clean
  status : document.status.committed = stage.status ∨ document.status.committed = none

abbrev KeepsStages (d : Uuid) (scope : Scope) (stage : IngestionStage) (p : IngestionProgram) :
    Prop :=
  p.Conforms (StageStep d scope) (AtStage d scope) stage

variable {document : OrmDocument} {error : Option String} {began : Option Timestamp}
  {provider : EmbeddingProvider} {result : ExtractionResult} {calls : IngestionCalls}
  {enrichment : EnrichmentResult} {space : ProviderName}

theorem Staged.rollback (h : Staged d scope stage document) :
    Staged d scope stage document.rollback :=
  ⟨h.id, h.scope, document.clean_rollback, .inr rfl⟩

theorem Staged.withStatus {status : Status} (h : Staged d scope stage document)
    (reached : stage'.status = some status) :
    Staged d scope stage' (document.withStatus status error) :=
  ⟨h.id, h.scope, h.clean.withStatus _ _, .inl reached.symm⟩

theorem Staged.status_ne {status : Status} (h : Staged d scope stage document)
    (hne : stage.status ≠ some status) : document.status.committed ≠ some status := by
  rcases h.status with h | h
  · rw [h]
    exact hne
  · rw [h]
    nofun

theorem setStatus_sets {status : Status} (h : Staged d scope stage document)
    (hne : stage.status ≠ some status) :
    Performs d (Sets status)
      (UnitOfWork.flush { document := document.assignStatus status error, began }) := by
  intro s s' hflush
  obtain ⟨hfits, rfl⟩ := UnitOfWork.flush_ok ⟨by simp, by simp⟩ hflush
  have hrow := statusEdit_row h.clean status error began s.now
  exact ⟨_, h.id ▸ hfits, ⟨fun r => (hrow r).2.2.2 (h.status_ne hne), fun r => (hrow r).1⟩,
    congrArg (Edit.apply _ · s) h.id⟩

theorem setStatus_nonempty {status : Status} (h : Staged d scope stage document)
    (hne : stage.status ≠ some status) : UnitOfWork.isEmpty
      { document := document.assignStatus status error, began } = false := by
  have hpatch : (document.assignStatus status error).patch ≠ {} := fun hnone => by
    rw [h.clean.patch_assignStatus] at hnone
    have hstatus := congrArg DocumentPatch.status hnone
    simp [Tracked.dirty_assign, h.status_ne hne] at hstatus
  simp [UnitOfWork.isEmpty, hpatch]

/-- `_set_status` takes the step that its status belongs to, or raises. -/
theorem setStatus_keepsStages {status : Status} {next : OrmDocument → IngestionProgram}
    (h : Staged d scope stage document) (hne : stage.status ≠ some status)
    (step : ∀ t, Performs d (Sets status) t → StageStep d scope stage t stage')
    (done : KeepsStages d scope stage' (next (document.withStatus status error))) :
    KeepsStages d scope stage (setStatus began document status error next) := by
  refine commitSession_conforms stage' (fun _ => step _ (setStatus_sets h hne)) (fun hempty => ?_)
    (by rwa [h.clean.flushed_assignStatus]) fun _ => .raised _ _
  rw [setStatus_nonempty h hne] at hempty
  cases hempty

theorem advance_keepsStages {status : Status} {next : OrmDocument → IngestionProgram}
    (h : Staged d scope stage document) (hnext : stage.next = some stage')
    (reached : stage'.status = some status)
    (done : KeepsStages d scope stage' (next (document.withStatus status error))) :
    KeepsStages d scope stage (setStatus began document status error next) :=
  setStatus_keepsStages h (IngestionStage.ahead_of_next hnext reached).2.1
    (fun _ => .advance hnext reached) done

theorem failWith_keepsStages {reason : String} (h : Staged d scope stage document)
    (live : stage.status.isSome) :
    KeepsStages d scope stage (failWith began document reason) :=
  setStatus_keepsStages h (IngestionStage.status_ne (.inl rfl)) (fun _ => .fail live) (.ret _ _)

theorem addEnrichments_leaves {rows : List Enrichment} (h : Staged d scope stage document)
    (owned : ∀ r ∈ rows, r.documentId = document.id) :
    Performs d LeavesStatus (UnitOfWork.flush { document, enrichments := rows }) := by
  intro s s' hflush
  obtain ⟨hfits, rfl⟩ := UnitOfWork.flush_ok ⟨owned, by simp⟩ hflush
  have hrow (r : Document) :
      (UnitOfWork.edit { document, enrichments := rows } s.now).row r = r :=
    if_pos h.clean.patch
  exact ⟨_, h.id ▸ hfits, ⟨fun r => by rw [hrow], fun r => by rw [hrow]⟩,
    congrArg (Edit.apply _ · s) h.id⟩

theorem finish_makesReady {rows : List Chunk} (h : Staged d scope .embedding document)
    (now : Timestamp) :
    MakesReady scope (UnitOfWork.edit
      { document := document.finish provider result rows, chunks := rows } now) := by
  obtain ⟨hstatus, hrow⟩ := finish_edits provider result rows
    (h.status_ne (IngestionStage.status_ne (.inr rfl)))
  refine ⟨fun r => ?_, fun r => ?_⟩
  · rw [hrow, DocumentPatch.apply_status, hstatus]
    rfl
  · rw [hrow, DocumentPatch.apply_reviewStatus]
    by_cases hl : scope = .library
    · have hdirty : (document.finish provider result rows).patch.reviewStatus =
          if document.reviewStatus.committed = some .pendingSme then none
          else some .pendingSme := by
        simp [OrmDocument.patch, OrmDocument.finish, h.scope, hl, Tracked.dirty_assign]
      rw [hdirty]
      split
      · exact .inl rfl
      · exact .inr ⟨hl, rfl⟩
    · left
      simp [OrmDocument.patch, OrmDocument.finish, h.scope, hl, h.clean.reviewStatus.dirty]

theorem embedAndFinish_keepsStages (embeds : provider.EmbedsIn space)
    (h : Staged d scope .embedding document) :
    KeepsStages d scope .embedding
      (embedAndFinish calls provider result enrichment document) := by
  unfold embedAndFinish
  split
  · exact failWith_keepsStages h.rollback rfl
  · next rows hrows =>
    refine commitSession_conforms .over (fun _ => .publish fun s s' hflush => ?_)
      (fun _ => .ret _ _) (.ret _ _) fun _ => failWith_keepsStages h.rollback rfl
    have howned : ∀ r ∈ rows, r.documentId = document.id := embedRows_owned embeds hrows
    obtain ⟨hfits, rfl⟩ := UnitOfWork.flush_ok ⟨by simp, howned⟩ hflush
    exact ⟨_, h.id ▸ hfits, finish_makesReady h s.now, congrArg (Edit.apply _ · s) h.id⟩

theorem captionAndEmbed_keepsStages (embeds : provider.EmbedsIn space)
    (h : Staged d scope .enriching document) :
    KeepsStages d scope .enriching
      (captionAndEmbed calls provider result enrichment document) := by
  have hnext : KeepsStages d scope .enriching
      (setStatus none document .embedding none (embedAndFinish calls provider result enrichment)) :=
    advance_keepsStages h rfl rfl (embedAndFinish_keepsStages embeds (h.withStatus rfl))
  exact commitSession_conforms .enriching
    (fun _ => .leave (addEnrichments_leaves h captionEnrichments_owned)) (fun _ => hnext)
    (by rw [h.clean.flushed]; exact hnext) fun _ => .raised _ _

theorem enrichAndPersist_keepsStages (embeds : provider.EmbedsIn space)
    (h : Staged d scope .enriching document) :
    KeepsStages d scope .enriching (enrichAndPersist calls provider result document) := by
  unfold enrichAndPersist
  split
  · exact failWith_keepsStages h.rollback rfl
  · have hnext {enrichment : EnrichmentResult} : KeepsStages d scope .enriching
        (captionAndEmbed calls provider result enrichment document) :=
      captionAndEmbed_keepsStages embeds h
    exact commitSession_conforms .enriching
      (fun _ => .leave (addEnrichments_leaves h persistEnrichments_owned)) (fun _ => hnext)
      (by rw [h.clean.flushed]; exact hnext) fun _ => failWith_keepsStages h.rollback rfl

theorem extractAndEnrich_keepsStages (embeds : provider.EmbedsIn space)
    (h : Staged d scope .extracting document) :
    KeepsStages d scope .extracting (extractAndEnrich calls provider document) := by
  unfold extractAndEnrich
  split
  · exact failWith_keepsStages h rfl
  · exact advance_keepsStages h rfl rfl (enrichAndPersist_keepsStages embeds (h.withStatus rfl))

theorem runIngestion_keepsStages (settings : Settings) (calls : IngestionCalls) (d : Uuid)
    (scope : Scope) : KeepsStages d scope .queued (runIngestion settings calls d) := by
  refine .read (fun s at_stage => ?_) fun _ => .raised _ _
  obtain ⟨row, hrow, hscope, hstatus⟩ := at_stage
  have staged : Staged d scope .queued (.load row) :=
    ⟨Store.document?_id hrow, hscope, OrmDocument.clean_load row,
      .inl (congrArg some (hstatus _ rfl))⟩
  simp only [hrow]
  unfold ingest
  split
  · split
    · exact failWith_keepsStages staged rfl
    · exact .raised _ _
  · next provider hp =>
    exact advance_keepsStages staged rfl rfl
      (extractAndEnrich_keepsStages (getProvider_embedsIn hp) (staged.withStatus rfl))

/-- Whatever its steps answer and whichever of its accesses fail, a run on a queued document
commits the statuses in order, and the review status with the last of them only. -/
theorem statuses_in_order (settings : Settings) (calls : IngestionCalls) {d : Uuid} {s : Store}
    {row : Document} (hrow : s.document? d = some row) (queued : row.status = .queued)
    (faults : List (Option Exc)) :
    InOrder stages
        (committedStatuses d s (Program.stores faults (runIngestion settings calls d) s)) ∧
      (s :: Program.stores faults (runIngestion settings calls d) s).IsChain
        (ReviewWithReady d) := by
  have at_stage : AtStage d row.scope .queued s :=
    ⟨row, hrow, rfl, fun status h => queued.trans (Option.some.inj h)⟩
  have path := (runIngestion_keepsStages settings calls d row.scope).path faults at_stage
    fun _ _ _ _ _ at_stage step done => step.keeps at_stage done
  exact ⟨(path_inOrder path at_stage).1 rfl, path_review path at_stage⟩

theorem statuses_in_order_chart :
    let published :=
      Program.stores (List.replicate 7 none) (runIngestion {} chartCalls 1) chartStore
    InOrder stages (committedStatuses 1 chartStore published) ∧
      (chartStore :: published).IsChain (ReviewWithReady 1) ∧
      committedStatuses 1 chartStore published = stages ++ [.ready] :=
  have hrow : chartStore.document? 1 = some chartRow := by decide
  have hrun := statuses_in_order {} chartCalls hrow rfl (List.replicate 7 none)
  ⟨hrun.1, hrun.2, by decide⟩

end Docsage
