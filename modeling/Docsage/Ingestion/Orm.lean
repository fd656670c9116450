import Docsage.Library.Program
import Docsage.Store.Edit

/-! # The session's view of a document

SQLAlchemy compares each assigned attribute with the value it last loaded or
flushed and sends only the difference, so a write of the pipeline says nothing
about columns another process changed meanwhile. `expire_on_commit=False` keeps
the values after a commit; a rollback expires them.
-/

namespace Docsage
open Effects

/-- One mapped attribute: the database value as the session knows it, and the value in memory.
`none` is an expired attribute. -/
structure Tracked (α : Type) where
  committed : Option α
  current : Option α

namespace Tracked
variable {α : Type}

def load (v : α) : Tracked α := ⟨some v, some v⟩

def assign (a : Tracked α) (v : α) : Tracked α := { a with current := some v }

/-- The value the next flush sends, if it sends one. -/
def dirty [DecidableEq α] (a : Tracked α) : Option α :=
  if a.current = a.committed then none else a.current

def flushed (a : Tracked α) : Tracked α := ⟨a.current, a.current⟩

def expired : Tracked α := ⟨none, none⟩

def Clean (a : Tracked α) : Prop := a.current = a.committed

theorem Clean.flushed {a : Tracked α} (h : a.Clean) : a.flushed = a := by
  cases a
  exact congrArg (Tracked.mk · _) h

@[simp] theorem flushed_assign (a : Tracked α) (v : α) : (a.assign v).flushed = load v := rfl

variable [DecidableEq α]

theorem Clean.dirty {a : Tracked α} (h : a.Clean) : a.dirty = none := if_pos h

theorem dirty_assign (a : Tracked α) (v : α) :
    (a.assign v).dirty = if a.committed = some v then none else some v := by
  by_cases h : a.committed = some v
  · simp [assign, dirty, h]
  · simp [assign, dirty, h, Ne.symm h]

end Tracked

/-- A loaded `Document`: the attributes the pipeline reads, and the ones it assigns. -/
structure OrmDocument where
  id : Uuid
  title : String
  sourceFilename : String
  mimeType : String
  embeddingProvider : ProviderName
  scope : Scope
  status : Tracked Status
  statusError : Tracked (Option String)
  embeddingModel : Tracked String
  reviewStatus : Tracked ReviewStatus
  chunkCount : Tracked ℕ
  pageCount : Tracked (Option ℕ)

namespace OrmDocument

def load (row : Document) : OrmDocument where
  id := row.id
  title := row.title
  sourceFilename := row.sourceFilename
  mimeType := row.mimeType
  embeddingProvider := row.embeddingProvider
  scope := row.scope
  status := .load row.status
  statusError := .load row.statusError
  embeddingModel := .load row.embeddingModel
  reviewStatus := .load row.reviewStatus
  chunkCount := .load row.chunkCount
  pageCount := .load row.pageCount

def patch (d : OrmDocument) : DocumentPatch where
  status := d.status.dirty
  statusError := d.statusError.dirty
  embeddingModel := d.embeddingModel.dirty
  reviewStatus := d.reviewStatus.dirty
  chunkCount := d.chunkCount.dirty
  pageCount := d.pageCount.dirty

def flushed (d : OrmDocument) : OrmDocument :=
  { d with
    status := d.status.flushed
    statusError := d.statusError.flushed
    embeddingModel := d.embeddingModel.flushed
    reviewStatus := d.reviewStatus.flushed
    chunkCount := d.chunkCount.flushed
    pageCount := d.pageCount.flushed }

def rollback (d : OrmDocument) : OrmDocument :=
  { d with
    status := .expired
    statusError := .expired
    embeddingModel := .expired
    reviewStatus := .expired
    chunkCount := .expired
    pageCount := .expired }

def assignStatus (d : OrmDocument) (status : Status) (error : Option String) : OrmDocument :=
  { d with status := d.status.assign status, statusError := d.statusError.assign error }

/-- The document once a status and its error are in the database. -/
def withStatus (d : OrmDocument) (status : Status) (error : Option String) : OrmDocument :=
  { d with status := .load status, statusError := .load error }

structure Clean (d : OrmDocument) : Prop where
  status : d.status.Clean
  statusError : d.statusError.Clean
  embeddingModel : d.embeddingModel.Clean
  reviewStatus : d.reviewStatus.Clean
  chunkCount : d.chunkCount.Clean
  pageCount : d.pageCount.Clean

theorem clean_load (row : Document) : (load row).Clean := ⟨rfl, rfl, rfl, rfl, rfl, rfl⟩

theorem clean_rollback (d : OrmDocument) : d.rollback.Clean := ⟨rfl, rfl, rfl, rfl, rfl, rfl⟩

variable {d : OrmDocument}

theorem Clean.withStatus (h : d.Clean) (status : Status) (error : Option String) :
    (d.withStatus status error).Clean :=
  ⟨rfl, rfl, h.embeddingModel, h.reviewStatus, h.chunkCount, h.pageCount⟩

theorem Clean.patch (h : d.Clean) : d.patch = {} := by
  simp only [OrmDocument.patch, h.status.dirty, h.statusError.dirty, h.embeddingModel.dirty,
    h.reviewStatus.dirty, h.chunkCount.dirty, h.pageCount.dirty]

theorem Clean.flushed (h : d.Clean) : d.flushed = d := by
  simp only [OrmDocument.flushed, h.status.flushed, h.statusError.flushed,
    h.embeddingModel.flushed, h.reviewStatus.flushed, h.chunkCount.flushed, h.pageCount.flushed]

/-- A status assigned to a clean document is all that its next UPDATE can send. -/
theorem Clean.patch_assignStatus (h : d.Clean) (status : Status) (error : Option String) :
    (d.assignStatus status error).patch =
      { status := (d.status.assign status).dirty
        statusError := (d.statusError.assign error).dirty } := by
  simp only [OrmDocument.patch, assignStatus, h.embeddingModel.dirty, h.reviewStatus.dirty,
    h.chunkCount.dirty, h.pageCount.dirty]

theorem Clean.flushed_assignStatus (h : d.Clean) (status : Status) (error : Option String) :
    (d.assignStatus status error).flushed = d.withStatus status error := by
  simp only [OrmDocument.flushed, assignStatus, OrmDocument.withStatus, Tracked.flushed_assign,
    h.embeddingModel.flushed, h.reviewStatus.flushed, h.chunkCount.flushed, h.pageCount.flushed]

/-- When the assignment changes nothing, the document was already there. -/
theorem Clean.assignStatus_of_patch (h : d.Clean) {status : Status} {error : Option String}
    (unchanged : (d.assignStatus status error).patch = {}) :
    d.assignStatus status error = d.withStatus status error := by
  rw [h.patch_assignStatus] at unchanged
  have hs : (d.status.assign status).dirty = none := congrArg DocumentPatch.status unchanged
  have he : (d.statusError.assign error).dirty = none :=
    congrArg DocumentPatch.statusError unchanged
  rw [Tracked.dirty_assign] at hs he
  have hs' : d.status.assign status = .load status := by
    by_cases hc : d.status.committed = some status
    · simp [Tracked.assign, Tracked.load, hc]
    · simp [hc] at hs
  have he' : d.statusError.assign error = .load error := by
    by_cases hc : d.statusError.committed = some error
    · simp [Tracked.assign, Tracked.load, hc]
    · simp [hc] at he
  simp only [assignStatus, OrmDocument.withStatus, hs', he']

end OrmDocument

/-- What a session has pending: the dirty document and the objects added to it. `began` is the
start of a transaction that an earlier statement already opened, which is what `now()` returns. -/
structure UnitOfWork where
  document : OrmDocument
  began : Option Timestamp := none
  enrichments : List Enrichment := []
  chunks : List Chunk := []

/-- `UPDATE statement on table 'documents' expected to update 1 row(s); 0 were matched.` -/
def staleData : Exc where
  message := "UPDATE statement on table 'documents' expected to update 1 row(s); 0 were matched."

namespace UnitOfWork

def isEmpty (u : UnitOfWork) : Bool :=
  u.document.patch = {} && u.enrichments.isEmpty && u.chunks.isEmpty

/-- The document's UPDATE, when it has a changed column: one row has to match. -/
def flushDocument (u : UnitOfWork) (s : Store) : Except Exc Store :=
  if u.document.patch = {} then .ok s
  else if (s.document? u.document.id).isSome then
    .ok (s.setDocument u.document.id (u.document.patch.apply (u.began.getD s.now)))
  else .error staleData

def flush (u : UnitOfWork) (s : Store) : Except Exc Store := do
  let s ← u.flushDocument s
  let s ← Store.insertEnrichments u.enrichments s
  Store.insertChunks u.chunks s

def edit (u : UnitOfWork) (now : Timestamp) : Edit where
  row r := if u.document.patch = {} then r else u.document.patch.apply (u.began.getD now) r
  fixed r := by split <;> rfl
  enrichments := u.enrichments
  chunks := u.chunks

/-- The objects added to the session all belong to its document. -/
def Owned (u : UnitOfWork) : Prop :=
  (∀ r ∈ u.enrichments, r.documentId = u.document.id) ∧ ∀ r ∈ u.chunks, r.documentId = u.document.id

variable {u : UnitOfWork} {s s' : Store}

theorem flushDocument_ok (h : u.flushDocument s = .ok s') :
    s' = { s with documents := ((u.edit s.now).apply u.document.id s).documents } := by
  unfold flushDocument at h
  split at h
  · obtain rfl := Except.ok.inj h
    simp [edit, Edit.apply, Relational.update, *]
  · split at h
    · obtain rfl := Except.ok.inj h
      simp [edit, Edit.apply, Store.setDocument, *]
    · cases h

/-- A flush that succeeds performs the edit of the unit of work. -/
theorem flush_ok (owned : u.Owned) (h : u.flush s = .ok s') :
    (u.edit s.now).Fits u.document.id s ∧ s' = (u.edit s.now).apply u.document.id s := by
  obtain ⟨s₁, hd, h⟩ := bind_ok h
  obtain ⟨s₂, he, h⟩ := bind_ok h
  obtain rfl := flushDocument_ok hd
  obtain ⟨-, rfl⟩ := Store.insertEnrichments_ok he
  obtain ⟨hchunks, rfl⟩ := Store.insertChunks_ok h
  refine ⟨⟨owned.1, owned.2, by simp [edit], ?_, by simp [edit]⟩, by simp [Edit.apply, edit]⟩
  intro hne
  obtain ⟨r, hr⟩ := List.exists_mem_of_ne_nil _ hne
  have hrow := hchunks r hr
  rw [owned.2 r hr] at hrow
  change (((u.edit s.now).apply u.document.id s).document? u.document.id).isSome at hrow
  rwa [Edit.document?_apply, Option.isSome_map] at hrow

theorem edit_status (now : Timestamp) (row : Document) :
    ((u.edit now).row row).status = u.document.patch.status.getD row.status := by
  simp only [edit]
  split
  · next h => rw [h]; rfl
  · rfl

/-- While the row exists, only a fault can stop the flush. -/
theorem flush_of_exists (owned : u.Owned) (hrow : (s.document? u.document.id).isSome) :
    u.flush s = .ok ((u.edit s.now).apply u.document.id s) := by
  have hdoc : u.flushDocument s =
      .ok { s with documents := ((u.edit s.now).apply u.document.id s).documents } := by
    unfold flushDocument
    split
    · simp [edit, Edit.apply, Relational.update, *]
    · simp [edit, Edit.apply, Store.setDocument, *]
  have hrow' : (((u.edit s.now).apply u.document.id s).document? u.document.id).isSome := by
    rw [Edit.document?_apply]
    simpa using hrow
  have henr : Store.insertEnrichments u.enrichments
      { s with documents := ((u.edit s.now).apply u.document.id s).documents } =
      .ok { s with
        documents := ((u.edit s.now).apply u.document.id s).documents
        enrichments := s.enrichments ++ u.enrichments } :=
    if_pos (List.all_eq_true.mpr fun r hr => by rw [owned.1 r hr]; exact hrow')
  have hchunk : Store.insertChunks u.chunks
      { s with
        documents := ((u.edit s.now).apply u.document.id s).documents
        enrichments := s.enrichments ++ u.enrichments } =
      .ok ((u.edit s.now).apply u.document.id s) := by
    refine (if_pos (List.all_eq_true.mpr fun r hr => ?_)).trans (by simp [Edit.apply, edit])
    rw [owned.2 r hr]
    exact hrow'
  rw [flush, hdoc]
  simp only [bind, Except.bind, henr, hchunk]

end UnitOfWork

/-- The commits of the pipelines, as fault injection names them. -/
inductive CommitPoint where
  | status
  | enrichments
  | captions
  | chunks
deriving DecidableEq, Repr

abbrev IngestionProgram := Program Store Exc CommitPoint Unit

/-- `db.commit()`. A session with nothing pending has no statement to send and cannot fail. -/
def commitSession (point : CommitPoint) (u : UnitOfWork)
    (next : Except Exc OrmDocument → IngestionProgram) : IngestionProgram :=
  if u.isEmpty then next (.ok u.document)
  else .commit point u.flush fun
    | .ok () => next (.ok u.document.flushed)
    | .error exc => next (.error exc)

/-- A commit conforms if the flush of its unit of work is an allowed transaction, both ways on
conform, and a session with nothing to send goes on in the same phase. -/
theorem commitSession_conforms {Φ : Type} {allow : Φ → (Store → Except Exc Store) → Φ → Prop}
    {sees : Φ → Store → Prop} {point : CommitPoint} {u : UnitOfWork}
    {next : Except Exc OrmDocument → IngestionProgram} {φ : Φ} (ψ : Φ)
    (allowed : u.isEmpty = false → allow φ u.flush ψ)
    (empty : u.isEmpty = true → Program.Conforms allow sees φ (next (.ok u.document)))
    (done : Program.Conforms allow sees ψ (next (.ok u.document.flushed)))
    (failed : ∀ exc, Program.Conforms allow sees φ (next (.error exc))) :
    Program.Conforms allow sees φ (commitSession point u next) := by
  unfold commitSession
  cases hu : u.isEmpty with
  | true => exact empty hu
  | false => exact .commit (allowed hu) done failed

/-- `_set_status`: assign, add, commit; a failed commit is raised to the caller. -/
def setStatus (began : Option Timestamp) (document : OrmDocument) (status : Status)
    (error : Option String) (next : OrmDocument → IngestionProgram) : IngestionProgram :=
  commitSession .status { document := document.assignStatus status error, began } fun
    | .ok document => next document
    | .error exc => .raised exc

variable {fault : CommitPoint → Option Exc} {point : CommitPoint} {u : UnitOfWork} {s : Store}

theorem UnitOfWork.edit_of_isEmpty (h : u.isEmpty = true) :
    (u.edit s.now).apply u.document.id s = s := by
  simp only [isEmpty, Bool.and_eq_true, decide_eq_true_eq, List.isEmpty_iff] at h
  obtain ⟨⟨hpatch, henr⟩, hchunks⟩ := h
  simp [edit, Edit.apply, Relational.update, hpatch, henr, hchunks]

/-- The document a session holds after a successful commit. -/
def UnitOfWork.committed (u : UnitOfWork) : OrmDocument :=
  if u.isEmpty then u.document else u.document.flushed

theorem commitSession_exec {next : Except Exc OrmDocument → IngestionProgram} (owned : u.Owned)
    (hrow : (s.document? u.document.id).isSome) (hf : fault point = none) :
    (commitSession point u next).exec fault s =
      (next (.ok u.committed)).exec fault ((u.edit s.now).apply u.document.id s) := by
  unfold commitSession UnitOfWork.committed
  split
  · rw [UnitOfWork.edit_of_isEmpty ‹_›]
  · simp only [Program.exec, hf, attempt, UnitOfWork.flush_of_exists owned hrow]

theorem commitSession_exec_fault {next : Except Exc OrmDocument → IngestionProgram} {exc : Exc}
    (hu : u.isEmpty = false) (hf : fault point = some exc) :
    (commitSession point u next).exec fault s = (next (.error exc)).exec fault s := by
  simp only [commitSession, hu, Bool.false_eq_true, if_false, Program.exec, hf, attempt]

/-- What the session knows of the row is what the row says. -/
structure OrmDocument.Synced (document : OrmDocument) (row : Document) : Prop where
  status : ∀ v, document.status.committed = some v → row.status = v
  statusError : ∀ v, document.statusError.committed = some v → row.statusError = v

theorem OrmDocument.synced_load (row : Document) : (OrmDocument.load row).Synced row :=
  ⟨fun _ h => Option.some.inj h, fun _ h => Option.some.inj h⟩

theorem OrmDocument.synced_rollback (document : OrmDocument) (row : Document) :
    document.rollback.Synced row := ⟨nofun, nofun⟩

/-- A tracked attribute that is assigned and flushed ends with the assigned value. -/
theorem Tracked.dirty_getD {α : Type} [DecidableEq α] {a : Tracked α} {v stored : α}
    (synced : ∀ w, a.committed = some w → stored = w) : (a.assign v).dirty.getD stored = v := by
  rw [dirty_assign]
  split
  · exact synced v ‹_›
  · rfl

/-- A status that is committed is what the session then knows. -/
theorem UnitOfWork.committed_assignStatus {document : OrmDocument} (clean : document.Clean)
    (began : Option Timestamp) (status : Status) (error : Option String) :
    ({ document := document.assignStatus status error, began } : UnitOfWork).committed =
      document.withStatus status error := by
  unfold UnitOfWork.committed
  split
  · exact clean.assignStatus_of_patch (by simp_all [UnitOfWork.isEmpty])
  · exact clean.flushed_assignStatus status error

/-- `_set_status` on a row that exists writes the row and goes on with the document in step. -/
theorem setStatus_exec {document : OrmDocument} {row : Document} (began : Option Timestamp)
    (status : Status) (error : Option String) (next : OrmDocument → IngestionProgram)
    (clean : document.Clean) (synced : document.Synced row)
    (hrow : s.document? document.id = some row) (hf : fault .status = none) :
    ∃ row' s', (setStatus began document status error next).exec fault s =
        (next (document.withStatus status error)).exec fault s' ∧
      s'.document? document.id = some row' ∧ row'.fixed = row.fixed ∧ row'.status = status ∧
      row'.statusError = error := by
  let u : UnitOfWork := { document := document.assignStatus status error, began }
  have howned : u.Owned := ⟨nofun, nofun⟩
  have hcommitted : u.committed = document.withStatus status error :=
    UnitOfWork.committed_assignStatus clean began status error
  refine ⟨(u.edit s.now).row row, (u.edit s.now).apply document.id s, ?_, ?_,
    (u.edit s.now).fixed row, ?_, ?_⟩
  · rw [← hcommitted]
    exact commitSession_exec howned (by simp [OrmDocument.assignStatus, hrow]) hf
  · rw [Edit.document?_apply, hrow]
    rfl
  · have hstatus : u.document.patch.status.getD row.status = status := by
      simp only [u, clean.patch_assignStatus]
      exact Tracked.dirty_getD synced.status
    simp only [UnitOfWork.edit]
    split
    · simpa [*] using hstatus
    · exact hstatus
  · have herror : u.document.patch.statusError.getD row.statusError = error := by
      simp only [u, clean.patch_assignStatus]
      exact Tracked.dirty_getD synced.statusError
    simp only [UnitOfWork.edit]
    split
    · simpa [*] using herror
    · exact herror

end Docsage
