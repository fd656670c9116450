import Docsage.Ingestion.Run
import Docsage.Library.Outline

/-! # What a run that returns has left behind

A run of `run_ingestion` writes its last status before it returns. Its session
knows the status it last wrote, and as long as nobody else sets one, that is the
status of the row.
-/

namespace Docsage
open Effects Program

/-- A step of somebody else: the document keeps its status, or goes. -/
def Undisturbed (d : Uuid) (s s' : Store) : Prop :=
  ∀ row', s'.document? d = some row' → ∃ row, s.document? d = some row ∧ row'.status = row.status

/-- The document has reached its last status, or is gone. -/
def Over (d : Uuid) (s : Store) : Prop :=
  ∀ row, s.document? d = some row → row.status.terminal = true

/-- The row of the document has the status the session last loaded or sent. -/
def Knows (d : Uuid) (document : OrmDocument) (s : Store) : Prop :=
  ∀ row v, s.document? d = some row → document.status.committed = some v → row.status = v

structure Held (d : Uuid) (document : OrmDocument) : Prop where
  id : document.id = d
  clean : document.Clean

variable {d : Uuid} {document : OrmDocument} {s s' : Store} {post : Store → Prop}

theorem Held.withStatus (held : Held d document) (status : Status) (error : Option String) :
    Held d (document.withStatus status error) := ⟨held.id, held.clean.withStatus _ _⟩

theorem Held.rollback (held : Held d document) : Held d document.rollback :=
  ⟨held.id, document.clean_rollback⟩

theorem Undisturbed.refl (s : Store) : Undisturbed d s s := fun row hrow => ⟨row, hrow, rfl⟩

theorem Undisturbed.trans {s₁ s₂ s₃ : Store} (first : Undisturbed d s₁ s₂)
    (second : Undisturbed d s₂ s₃) : Undisturbed d s₁ s₃ := by
  intro row₃ hrow₃
  obtain ⟨row₂, hrow₂, hstatus₃⟩ := second row₃ hrow₃
  obtain ⟨row₁, hrow₁, hstatus₂⟩ := first row₂ hrow₂
  exact ⟨row₁, hrow₁, hstatus₃.trans hstatus₂⟩

theorem knows_load {row : Document} (hrow : s.document? d = some row) : Knows d (.load row) s := by
  intro row' v hrow' hv
  obtain rfl := Option.some.inj (hrow.symm.trans hrow')
  exact Option.some.inj hv

theorem stable_knows : Stable (Undisturbed d) (Knows d document) := by
  intro s s' knows undisturbed row' v hrow' hv
  obtain ⟨row, hrow, hstatus⟩ := undisturbed row' hrow'
  rw [hstatus]
  exact knows row v hrow hv

theorem knows_rollback : Knows d document.rollback s := by
  intro row v _ hv
  cases hv

theorem Knows.over {status : Status} {error : Option String}
    (knows : Knows d (document.withStatus status error) s) (terminal : status.terminal = true) :
    Over d s := by
  intro row hrow
  rw [knows row status hrow rfl]
  exact terminal

theorem Knows.flush {u : UnitOfWork} (owned : u.Owned) (hd : u.document.id = d)
    (knows : Knows d u.document s) (h : u.flush s = .ok s') : Knows d u.document.flushed s' := by
  subst hd
  obtain ⟨-, rfl⟩ := UnitOfWork.flush_ok owned h
  intro row' v hrow' hv
  rw [Edit.document?_apply] at hrow'
  obtain ⟨row, hrow, rfl⟩ := Option.map_eq_some_iff.mp hrow'
  rw [UnitOfWork.edit_status]
  change u.document.status.current = some v at hv
  change u.document.status.dirty.getD row.status = v
  unfold Tracked.dirty
  split
  · next hsame => exact knows row v hrow (hsame.symm.trans hv)
  · rw [hv]
    rfl

/-- The rule for a commit: with something pending the session goes on with what it sent. -/
theorem commitSession_outline {point : CommitPoint} {u : UnitOfWork}
    {next : Except Exc OrmDocument → IngestionProgram} (owned : u.Owned) (hd : u.document.id = d)
    (empty : u.isEmpty = true →
      Outline (Undisturbed d) post (Knows d u.document) (next (.ok u.document)))
    (done : Outline (Undisturbed d) post (Knows d u.document.flushed)
      (next (.ok u.document.flushed)))
    (failed : ∀ exc, Outline (Undisturbed d) post (Knows d u.document) (next (.error exc))) :
    Outline (Undisturbed d) post (Knows d u.document) (commitSession point u next) := by
  unfold commitSession
  split
  · exact empty ‹_›
  · exact .commit stable_knows (fun s s' knows h => knows.flush owned hd h) done failed

theorem setStatus_outline {began : Option Timestamp} {status : Status} {error : Option String}
    {next : OrmDocument → IngestionProgram} (held : Held d document)
    (done : Outline (Undisturbed d) post (Knows d (document.withStatus status error))
      (next (document.withStatus status error))) :
    Outline (Undisturbed d) post (Knows d document)
      (setStatus began document status error next) := by
  let u : UnitOfWork := { document := document.assignStatus status error, began }
  refine commitSession_outline (u := u) ⟨nofun, nofun⟩ held.id (fun h => ?_) ?_ fun _ => .raised _
  · -- nothing is sent because the session knows the row to be there already
    have hpatch : (document.assignStatus status error).patch = {} := by
      simp_all [UnitOfWork.isEmpty, u]
    have hsame : u.document = document.withStatus status error :=
      held.clean.assignStatus_of_patch hpatch
    rw [hsame]
    exact done
  · rw [held.clean.flushed_assignStatus]
    exact done

theorem failWith_outline {began : Option Timestamp} {reason : String} (held : Held d document) :
    Outline (Undisturbed d) (Over d) (Knows d document) (failWith began document reason) :=
  setStatus_outline held (.ret () fun _ knows => knows.over rfl)

theorem failWith_rollback_outline {began : Option Timestamp} {reason : String}
    {P : Store → Prop} (held : Held d document) :
    Outline (Undisturbed d) (Over d) P (failWith began document.rollback reason) :=
  (failWith_outline held.rollback).strengthen fun _ _ => knows_rollback

variable {provider : EmbeddingProvider} {result : ExtractionResult} {calls : IngestionCalls}
  {enrichment : EnrichmentResult} {space : ProviderName}

theorem embedAndFinish_outline (embeds : provider.EmbedsIn space) (held : Held d document) :
    Outline (Undisturbed d) (Over d) (Knows d document)
      (embedAndFinish calls provider result enrichment document) := by
  unfold embedAndFinish
  split
  · exact failWith_rollback_outline held
  · next rows hrows =>
    let u : UnitOfWork := { document := document.finish provider result rows, chunks := rows }
    have hready (s : Store) (knows : Knows d u.document.flushed s) : Over d s := by
      intro row hrow
      rw [knows row .ready hrow rfl]
      rfl
    refine commitSession_outline (u := u) ⟨nofun, embedRows_owned embeds hrows⟩ held.id
      (fun h => .ret () fun s knows => ?_) (.ret () hready) fun _ => failWith_rollback_outline held
    have hstatus : u.document.patch.status = none := by simp_all [UnitOfWork.isEmpty]
    have hknown : document.status.committed = some .ready := by
      by_contra hne
      simp [u, OrmDocument.patch, OrmDocument.finish, Tracked.dirty_assign, hne] at hstatus
    intro row hrow
    rw [knows row .ready hrow hknown]
    rfl

theorem addEnrichments_outline {point : CommitPoint} {rows : List Enrichment}
    {next : Except Exc OrmDocument → IngestionProgram} (held : Held d document)
    (owned : ∀ r ∈ rows, r.documentId = document.id)
    (done : Outline (Undisturbed d) post (Knows d document) (next (.ok document)))
    (failed : ∀ exc, Outline (Undisturbed d) post (Knows d document) (next (.error exc))) :
    Outline (Undisturbed d) post (Knows d document)
      (commitSession point { document, enrichments := rows } next) :=
  commitSession_outline (u := { document, enrichments := rows }) ⟨owned, nofun⟩ held.id
    (fun _ => done) (by rw [held.clean.flushed]; exact done) failed

theorem captionAndEmbed_outline (embeds : provider.EmbedsIn space) (held : Held d document) :
    Outline (Undisturbed d) (Over d) (Knows d document)
      (captionAndEmbed calls provider result enrichment document) :=
  addEnrichments_outline held captionEnrichments_owned
    (setStatus_outline held (embedAndFinish_outline embeds (held.withStatus _ _)))
    fun _ => .raised _

theorem enrichAndPersist_outline (embeds : provider.EmbedsIn space) (held : Held d document) :
    Outline (Undisturbed d) (Over d) (Knows d document)
      (enrichAndPersist calls provider result document) := by
  unfold enrichAndPersist
  split
  · exact failWith_rollback_outline held
  · exact addEnrichments_outline held persistEnrichments_owned
      (captionAndEmbed_outline embeds held) fun _ => failWith_rollback_outline held

theorem extractAndEnrich_outline (embeds : provider.EmbedsIn space) (held : Held d document) :
    Outline (Undisturbed d) (Over d) (Knows d document)
      (extractAndEnrich calls provider document) := by
  unfold extractAndEnrich
  split
  · exact failWith_outline held
  · exact setStatus_outline held (enrichAndPersist_outline embeds (held.withStatus _ _))

/-- A run that returns, at whatever point, leaves its document `ready` or `failed`. -/
theorem runIngestion_outline (settings : Settings) (calls : IngestionCalls) (d : Uuid) :
    Outline (Undisturbed d) (Over d) (fun _ => True) (runIngestion settings calls d) := by
  refine .read (Undisturbed d) (fun s s₁ s₂ => Undisturbed.trans) (fun s _ => Undisturbed.refl s)
    (fun s _ => ?_) fun _ => .raised _
  simp only
  split
  · next hnone =>
    refine .ret () fun s' undisturbed row' hrow' => ?_
    obtain ⟨row, hrow, -⟩ := undisturbed row' hrow'
    rw [hnone] at hrow
    cases hrow
  · next row hrow =>
    have held : Held d (.load row) := ⟨Store.document?_id hrow, OrmDocument.clean_load row⟩
    refine Outline.strengthen (P := Knows d (.load row)) ?_ fun s' undisturbed =>
      stable_knows s s' (knows_load hrow) undisturbed
    unfold ingest
    split
    · split
      · exact failWith_outline held
      · exact .raised _
    · next provider hp =>
      exact setStatus_outline held
        (extractAndEnrich_outline (getProvider_embedsIn hp) (held.withStatus _ _))

end Docsage
