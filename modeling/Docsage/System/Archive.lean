import Docsage.Api.Documents
import Docsage.System.World

/-! # The upload directory beside the database

The FastAPI requests that change both: an upload writes the file and then inserts
the row, a deletion removes the files and then deletes the row. Every step of
them may fail, and nothing that was done before is undone.
-/

namespace Docsage
open Effects Transition

/-- The database, and the uploaded file under `var/uploads/{id}` for every id. -/
structure Archive where
  store : Store
  files : Uuid → Option (List UInt8)
  /-- Document ids ever drawn; `uuid4` does not repeat itself. -/
  issued : List Uuid := []

/-- What fails in an upload after its checks. A write that fails leaves something, or nothing. -/
structure UploadFaults where
  mkdir : Option Exc := none
  write : Option (Exc × Option (List UInt8)) := none
  commit : Option Exc := none
  refresh : Option Exc := none

/-- What fails in a deletion after its checks. `rmtree` ignores its errors. -/
structure DeleteFaults where
  removal : Bool := false
  commit : Option Exc := none

inductive Stage where
  | mkdir
  | write
  | commit
  | refresh
deriving DecidableEq, Repr

/-- How a request ends: refused by a check, by an exception after the checks, or done. -/
inductive Ending where
  | refused (error : HttpError)
  | failed (stage : Stage)
  | done
deriving DecidableEq, Repr

def Ending.isError : Ending → Bool
  | .done => false
  | _ => true

/-- The request ended before it touched the file or the row. -/
def Ending.untouched : Ending → Bool
  | .refused _ => true
  | .failed stage => stage = .mkdir
  | .done => false

/-- What happens to the two, one request after the other. -/
inductive ArchiveAction where
  | upload (settings : Settings) (user : User) (documentId : Uuid) (calls : UploadCalls)
      (request : UploadRequest) (faults : UploadFaults)
  | delete (user : User) (documentId : Uuid) (faults : DeleteFaults)
  /-- Whatever else happens to the database; it neither inserts nor deletes documents. -/
  | elsewhere (store : Store)

def saveUpload (faults : UploadFaults) (documentId : Uuid) (data : List UInt8)
    (files : Uuid → Option (List UInt8)) : Except Stage Unit × (Uuid → Option (List UInt8)) :=
  match faults.mkdir, faults.write with
  | some _, _ => (.error .mkdir, files)
  | none, some (_, left) => (.error .write, Function.update files documentId left)
  | none, none => (.ok (), Function.update files documentId (some data))

def deleteUpload (faults : DeleteFaults) (documentId : Uuid) (files : Uuid → Option (List UInt8)) :
    Uuid → Option (List UInt8) :=
  if faults.removal then files else Function.update files documentId none

def insertRow (row : Document) (s : Store) : Except Exc Store :=
  if insertable s row then .ok (s.insertDocument row) else .error Store.foreignKeyViolation

namespace Archive

def upload (settings : Settings) (user : User) (documentId : Uuid) (calls : UploadCalls)
    (request : UploadRequest) (faults : UploadFaults) (a : Archive) : Ending × Archive :=
  match uploadDocument settings { calls with saveUpload := .ok () } a.store user documentId request
    with
  | .error error => (.refused error, a)
  | .ok row =>
    match saveUpload faults documentId request.data a.files with
    | (.error stage, files) => (.failed stage, { a with files })
    | (.ok (), files) =>
      match attempt faults.commit (insertRow row) a.store with
      | (.error _, store) => (.failed .commit, { a with files, store })
      | (.ok (), store) =>
        (if faults.refresh.isSome then .failed .refresh else .done, { a with files, store })

def delete (user : User) (documentId : Uuid) (faults : DeleteFaults) (a : Archive) :
    Ending × Archive :=
  match deleteDocument a.store user documentId with
  | .error error => (.refused error, a)
  | .ok store =>
    let files := deleteUpload faults documentId a.files
    match attempt faults.commit (fun _ => .ok store) a.store with
    | (.error _, store) => (.failed .commit, { a with files, store })
    | (.ok (), store) => (.done, { a with files, store })

def serve (a : Archive) : ArchiveAction → Ending × Archive
  | .upload settings user documentId calls request faults =>
    a.upload settings user documentId calls request faults
  | .delete user documentId faults => a.delete user documentId faults
  | .elsewhere store => (.done, { a with store })

def step (a : Archive) (action : ArchiveAction) : Option Archive :=
  match action with
  | .upload _ _ documentId _ _ _ =>
    if documentId ∈ a.issued then none
    else some { (a.serve action).2 with issued := documentId :: a.issued }
  | .delete _ _ _ => some (a.serve action).2
  | .elsewhere store =>
    if store.documents.map (·.id) = a.store.documents.map (·.id) then some (a.serve action).2
    else none

def HasRow (a : Archive) (d : Uuid) : Prop := d ∈ a.store.documents.map (·.id)

def HasFile (a : Archive) (d : Uuid) : Prop := (a.files d).isSome

/-- Store and disk agree, and every row has an id that was drawn. -/
structure Consistent (a : Archive) : Prop where
  agree : ∀ d, a.HasRow d ↔ a.HasFile d
  issued : ∀ d, a.HasRow d → d ∈ a.issued

/-- An upload of `d` that failed after it had begun to write, or a deletion of `d` whose
best-effort removal failed: the file may stay without a row. -/
def Orphans (d : Uuid) (a : Archive) (action : ArchiveAction) : Prop :=
  match action with
  | .upload _ _ documentId _ _ _ =>
    documentId = d ∧ ((a.serve action).1 = .failed .write ∨ (a.serve action).1 = .failed .commit)
  | .delete _ documentId faults =>
    documentId = d ∧ faults.removal = true ∧ (a.serve action).1 = .done
  | .elsewhere _ => False

/-- A deletion of `d` that failed after the files were removed: the row stays without a file. -/
def Loses (d : Uuid) (a : Archive) (action : ArchiveAction) : Prop :=
  match action with
  | .delete _ documentId faults =>
    documentId = d ∧ faults.removal = false ∧ (a.serve action).1 = .failed .commit
  | _ => False

variable {a t : Archive} {d : Uuid}

end Archive

theorem deleteDocument_ok {s s' : Store} {user : User} {d : Uuid}
    (h : deleteDocument s user d = .ok s') : s' = s.deleteDocument d := by
  obtain ⟨doc, hview, h⟩ := bind_ok h
  obtain ⟨-, h⟩ := refuse_bind_ok h
  obtain ⟨found, hfound, hview⟩ := orRefuse_bind_ok hview
  obtain ⟨-, hview⟩ := refuse_bind_ok hview
  obtain rfl := Except.ok.inj hview
  obtain rfl := Except.ok.inj h
  rw [Store.document?_id hfound]

namespace Archive

variable {a t : Archive} {d : Uuid} {user : User} {id : Uuid} {ending : Ending}

theorem saveUpload_cases (faults : UploadFaults) (id : Uuid) (data : List UInt8)
    (files : Uuid → Option (List UInt8)) :
    saveUpload faults id data files = (.error .mkdir, files) ∨
    (∃ left, saveUpload faults id data files = (.error .write, Function.update files id left)) ∨
    saveUpload faults id data files = (.ok (), Function.update files id (some data)) := by
  unfold saveUpload
  split
  · exact .inl rfl
  · next left _ _ => exact .inr (.inl ⟨left, rfl⟩)
  · exact .inr (.inr rfl)

theorem insertRow_ok {row : Document} {s s' : Store} (h : insertRow row s = .ok s') :
    s' = s.insertDocument row := by
  unfold insertRow at h
  split at h
  · exact (Except.ok.inj h).symm
  · cases h

/-- An upload ends early, fails while it writes, fails to insert its row, or adds both. -/
theorem upload_cases {settings : Settings} {calls : UploadCalls} {request : UploadRequest}
    {faults : UploadFaults} {t : Archive}
    (h : a.upload settings user id calls request faults = (ending, t)) :
    (ending.untouched = true ∧ t = a) ∨
    (∃ left, ending = .failed .write ∧ t = { a with files := Function.update a.files id left }) ∨
    (ending = .failed .commit ∧
      t = { a with files := Function.update a.files id (some request.data) }) ∨
    (ending = .failed .refresh ∨ ending = .done) ∧ ∃ row, row.id = id ∧
      t = { a with store := a.store.insertDocument row
                   files := Function.update a.files id (some request.data) } := by
  unfold upload at h
  split at h
  · obtain ⟨rfl, rfl⟩ := Prod.mk.inj h
    exact .inl ⟨rfl, rfl⟩
  · next row hrow =>
    rcases saveUpload_cases faults id request.data a.files with hsave | ⟨left, hsave⟩ | hsave
    · rw [hsave] at h
      obtain ⟨rfl, rfl⟩ := Prod.mk.inj h
      exact .inl ⟨rfl, rfl⟩
    · rw [hsave] at h
      obtain ⟨rfl, rfl⟩ := Prod.mk.inj h
      exact .inr (.inl ⟨left, rfl, rfl⟩)
    · rw [hsave] at h
      simp only at h
      split at h
      · next store hattempt =>
        obtain ⟨rfl, rfl⟩ := Prod.mk.inj h
        exact .inr (.inr (.inl ⟨rfl, by rw [attempt_eq_error hattempt]⟩))
      · next store hattempt =>
        obtain ⟨rfl, rfl⟩ := Prod.mk.inj h
        have hstore := insertRow_ok (attempt_eq_ok hattempt)
        refine .inr (.inr (.inr ⟨?_, row, (uploadDocument_ok hrow).id, by rw [hstore]⟩))
        split
        · exact .inl rfl
        · exact .inr rfl

/-- A deletion is refused, fails to delete the row, or deletes it. -/
theorem delete_cases {faults : DeleteFaults} {t : Archive}
    (h : a.delete user id faults = (ending, t)) :
    (ending.untouched = true ∧ t = a) ∨
    (ending = .failed .commit ∧ t = { a with files := deleteUpload faults id a.files }) ∨
    ending = .done ∧ t = { a with store := a.store.deleteDocument id
                                  files := deleteUpload faults id a.files } := by
  unfold delete at h
  split at h
  · obtain ⟨rfl, rfl⟩ := Prod.mk.inj h
    exact .inl ⟨rfl, rfl⟩
  · next store hstore =>
    obtain rfl := deleteDocument_ok hstore
    cases hcommit : faults.commit with
    | some e =>
      rw [hcommit] at h
      obtain ⟨rfl, rfl⟩ := Prod.mk.inj h
      exact .inr (.inl ⟨rfl, rfl⟩)
    | none =>
      rw [hcommit] at h
      obtain ⟨rfl, rfl⟩ := Prod.mk.inj h
      exact .inr (.inr ⟨rfl, rfl⟩)

theorem ids_insertDocument {s : Store} {row : Document} :
    d ∈ (s.insertDocument row).documents.map (·.id) ↔
      d ∈ s.documents.map (·.id) ∨ d = row.id := by
  simp [Store.insertDocument, eq_comm]

theorem ids_deleteDocument {s : Store} :
    d ∈ (s.deleteDocument id).documents.map (·.id) ↔ d ∈ s.documents.map (·.id) ∧ d ≠ id := by
  simp only [Store.deleteDocument, List.mem_map, Relational.mem_delete]
  constructor
  · rintro ⟨row, ⟨hrow, hne⟩, rfl⟩
    exact ⟨⟨row, hrow, rfl⟩, hne⟩
  · rintro ⟨⟨row, hrow, rfl⟩, hne⟩
    exact ⟨row, ⟨hrow, hne⟩, rfl⟩

def RowsIssued (a : Archive) : Prop := ∀ d, a.HasRow d → d ∈ a.issued

/-- What a step does to the row and the file of one document. -/
inductive Changes (d : Uuid) (action : ArchiveAction) (a t : Archive) : Prop where
  | nothing (row : t.HasRow d ↔ a.HasRow d) (file : t.HasFile d ↔ a.HasFile d)
  | stored (issued : d ∈ t.issued) (row : t.HasRow d) (file : t.HasFile d)
  | unstored (orphans : Orphans d a action) (fresh : d ∉ a.issued) (row : t.HasRow d ↔ a.HasRow d)
  | removed (row : ¬ t.HasRow d) (file : ¬ t.HasFile d)
  | leftBehind (orphans : Orphans d a action) (row : ¬ t.HasRow d)
  | lost (loses : Loses d a action) (row : t.HasRow d ↔ a.HasRow d) (file : ¬ t.HasFile d)

theorem Changes.of_untouched {action : ArchiveAction} {issued : List Uuid} :
    Changes d action a { a with issued } := .nothing Iff.rfl Iff.rfl

theorem hasFile_update_ne {v : Option (List UInt8)} (h : d ≠ id) :
    HasFile { a with files := Function.update a.files id v } d ↔ a.HasFile d := by
  simp only [HasFile, Function.update_of_ne h]

theorem upload_changes {settings : Settings} {calls : UploadCalls} {request : UploadRequest}
    {faults : UploadFaults}
    (h : a.step (.upload settings user id calls request faults) = some t) :
    Changes d (.upload settings user id calls request faults) a t := by
  simp only [step] at h
  split at h
  · cases h
  · next fresh =>
    obtain rfl := Option.some.inj h
    rcases hserve : a.serve (.upload settings user id calls request faults) with ⟨ending, t⟩
    have hcases := upload_cases hserve
    by_cases hd : d = id
    · subst hd
      rcases hcases with ⟨-, rfl⟩ | ⟨left, rfl, rfl⟩ | ⟨rfl, rfl⟩ | ⟨-, row, hrow, rfl⟩
      · exact .of_untouched
      · exact .unstored ⟨rfl, .inl (by rw [hserve])⟩ fresh Iff.rfl
      · exact .unstored ⟨rfl, .inr (by rw [hserve])⟩ fresh Iff.rfl
      · refine .stored List.mem_cons_self ?_ ?_
        · exact ids_insertDocument.mpr (.inr hrow.symm)
        · simp [HasFile]
    · rcases hcases with ⟨-, rfl⟩ | ⟨left, rfl, rfl⟩ | ⟨rfl, rfl⟩ | ⟨-, row, hrow, rfl⟩
      · exact .of_untouched
      · exact .nothing Iff.rfl (hasFile_update_ne hd)
      · exact .nothing Iff.rfl (hasFile_update_ne hd)
      · refine .nothing ?_ (hasFile_update_ne hd)
        exact ids_insertDocument.trans (or_iff_left (by rwa [hrow]))

theorem delete_changes {faults : DeleteFaults} (h : a.step (.delete user id faults) = some t) :
    Changes d (.delete user id faults) a t := by
  obtain rfl := Option.some.inj h
  rcases hserve : a.serve (.delete user id faults) with ⟨ending, t⟩
  have hcases := delete_cases hserve
  cases hremoval : faults.removal with
  | true =>
    have hfiles : deleteUpload faults id a.files = a.files := by simp [deleteUpload, hremoval]
    rw [hfiles] at hcases
    rcases hcases with ⟨-, rfl⟩ | ⟨rfl, rfl⟩ | ⟨rfl, rfl⟩
    · exact .nothing Iff.rfl Iff.rfl
    · exact .nothing Iff.rfl Iff.rfl
    · by_cases hd : d = id
      · subst hd
        refine .leftBehind ⟨rfl, hremoval, by rw [hserve]⟩ fun hrow => ?_
        exact (ids_deleteDocument.mp hrow).2 rfl
      · exact .nothing (ids_deleteDocument.trans (and_iff_left hd)) Iff.rfl
  | false =>
    have hfiles : deleteUpload faults id a.files = Function.update a.files id none := by
      simp [deleteUpload, hremoval]
    rw [hfiles] at hcases
    rcases hcases with ⟨-, rfl⟩ | ⟨rfl, rfl⟩ | ⟨rfl, rfl⟩
    · exact .nothing Iff.rfl Iff.rfl
    · by_cases hd : d = id
      · subst hd
        exact .lost ⟨rfl, hremoval, by rw [hserve]⟩ Iff.rfl (by simp [HasFile])
      · exact .nothing Iff.rfl (hasFile_update_ne hd)
    · by_cases hd : d = id
      · subst hd
        exact .removed (fun hrow => (ids_deleteDocument.mp hrow).2 rfl) (by simp [HasFile])
      · exact .nothing (ids_deleteDocument.trans (and_iff_left hd)) (hasFile_update_ne hd)

theorem step_changes {action : ArchiveAction} (h : a.step action = some t) :
    Changes d action a t := by
  cases action with
  | upload settings user id calls request faults => exact upload_changes h
  | delete user id faults => exact delete_changes h
  | elsewhere store =>
    simp only [step] at h
    split at h
    · next hids =>
      obtain rfl := Option.some.inj h
      refine .nothing ?_ Iff.rfl
      simp only [HasRow, serve, hids]
    · cases h

theorem step_issued {action : ArchiveAction} (h : a.step action = some t) (hd : d ∈ a.issued) :
    d ∈ t.issued := by
  cases action with
  | upload settings user id calls request faults =>
    simp only [step] at h
    split at h
    · cases h
    · obtain rfl := Option.some.inj h
      exact List.mem_cons_of_mem _ hd
  | delete user id faults =>
    obtain rfl := Option.some.inj h
    rcases hserve : a.serve (.delete user id faults) with ⟨ending, t⟩
    rcases delete_cases hserve with ⟨-, rfl⟩ | ⟨-, rfl⟩ | ⟨-, rfl⟩ <;> exact hd
  | elsewhere store =>
    simp only [step] at h
    split at h
    · obtain rfl := Option.some.inj h
      exact hd
    · cases h

theorem RowsIssued.step {action : ArchiveAction} (issued : a.RowsIssued)
    (h : a.step action = some t) : t.RowsIssued := by
  intro d hrow
  cases step_changes (d := d) h with
  | nothing row file => exact step_issued h (issued d (row.mp hrow))
  | stored fresh row file => exact fresh
  | unstored orphans fresh row => exact step_issued h (issued d (row.mp hrow))
  | removed row file => exact absurd hrow row
  | leftBehind orphans row => exact absurd hrow row
  | lost loses row file => exact step_issued h (issued d (row.mp hrow))

/-- A row keeps its file as long as no deletion of the document fails to commit. -/
theorem row_has_file {start t : Archive} (consistent : start.Consistent)
    (run : Run step (fun a action => ¬ Loses d a action) start t) :
    t.HasRow d → t.HasFile d := by
  have hkept : t.RowsIssued ∧ (t.HasRow d → t.HasFile d) := by
    refine run.invariant (I := fun t => t.RowsIssued ∧ (t.HasRow d → t.HasFile d))
      ⟨consistent.issued, (consistent.agree d).mp⟩ ?_
    rintro a action t ⟨issued, kept⟩ hguard h
    refine ⟨issued.step h, fun hrow => ?_⟩
    cases step_changes (d := d) h with
    | nothing row file => exact file.mpr (kept (row.mp hrow))
    | stored fresh row file => exact file
    | unstored orphans fresh row => exact absurd (issued d (row.mp hrow)) fresh
    | removed row file => exact absurd hrow row
    | leftBehind orphans row => exact absurd hrow row
    | lost loses row file => exact absurd loses hguard
  exact hkept.2

/-- A file has its row as long as no upload of the document fails after it had begun to write and
no removal fails. -/
theorem file_has_row {start t : Archive} (consistent : start.Consistent)
    (run : Run step (fun a action => ¬ Orphans d a action) start t) :
    t.HasFile d → t.HasRow d := by
  refine run.invariant (I := fun a => a.HasFile d → a.HasRow d) (consistent.agree d).mpr ?_
  intro a action t kept hguard h hfile
  cases step_changes (d := d) h with
  | nothing row file => exact row.mpr (kept (file.mp hfile))
  | stored fresh row file => exact row
  | unstored orphans fresh row => exact absurd orphans hguard
  | removed row file => exact absurd hfile file
  | leftBehind orphans row => exact absurd orphans hguard
  | lost loses row file => exact absurd hfile file

/-- A request that ended before it touched anything has changed nothing. -/
theorem serve_untouched {action : ArchiveAction}
    (h : (a.serve action).1.untouched = true) : (a.serve action).2 = a := by
  cases action with
  | upload settings user id calls request faults =>
    rcases hserve : a.serve (.upload settings user id calls request faults) with ⟨ending, t⟩
    rw [hserve] at h
    rcases upload_cases hserve with ⟨-, rfl⟩ | ⟨left, rfl, -⟩ | ⟨rfl, -⟩ | ⟨rfl | rfl, -⟩
    · rfl
    all_goals cases h
  | delete user id faults =>
    rcases hserve : a.serve (.delete user id faults) with ⟨ending, t⟩
    rw [hserve] at h
    rcases delete_cases hserve with ⟨-, rfl⟩ | ⟨rfl, -⟩ | ⟨rfl, -⟩
    · rfl
    all_goals cases h
  | elsewhere store => cases h

/-- An upload that fails while it writes or commits adds no row. -/
theorem upload_failed {settings : Settings} {calls : UploadCalls} {request : UploadRequest}
    {faults : UploadFaults}
    (h : (a.upload settings user id calls request faults).1 = .failed .write ∨
      (a.upload settings user id calls request faults).1 = .failed .commit) :
    (a.upload settings user id calls request faults).2.store = a.store := by
  rcases hserve : a.upload settings user id calls request faults with ⟨ending, t⟩
  rw [hserve] at h
  rcases upload_cases hserve with ⟨-, rfl⟩ | ⟨left, -, rfl⟩ | ⟨-, rfl⟩ | ⟨hending, -⟩
  · rfl
  · rfl
  · rfl
  · rcases hending with rfl | rfl <;> rcases h with h | h <;> cases h

end Archive

open Archive

namespace Agency

/-- The database of the agency, and an empty upload directory. -/
def emptyArchive : Archive where
  store := start.store
  files _ := none

def reportFile : UploadRequest where
  provider := "demo"
  scope := "library"
  topicId := some topic.id
  filename := some "report.pdf"
  contentType := some "application/pdf"
  data := [0x25, 0x50, 0x44, 0x46]

def uploadFile (documentId : Uuid) (faults : UploadFaults) : ArchiveAction :=
  .upload {} admin documentId uploadCalls reportFile faults

def archived (faults : UploadFaults) : Archive :=
  { (emptyArchive.serve (uploadFile 7 faults)).2 with issued := [7] }

def lost : UploadFaults := { commit := some { message := "connection lost" } }

def archivedTwice : Archive :=
  { ((archived {}).serve (uploadFile 8 lost)).2 with issued := [8, 7] }

theorem emptyArchive_consistent : emptyArchive.Consistent where
  agree d := by simp [HasRow, HasFile, emptyArchive, start]
  issued d h := by simp [HasRow, emptyArchive, start] at h

end Agency

/-- Between any requests, for every document: a row has its file unless a deletion of the document
failed to commit, a file has its row unless an upload of the document failed after it had begun to
write or a removal of it failed; a request that is refused by a check or fails to make the directory
changes nothing, and an upload that fails later adds no row. -/
theorem archive_agrees {start t : Archive} (consistent : start.Consistent) (d : Uuid) :
    (Run Archive.step (fun a action => ¬ Loses d a action) start t → t.HasRow d → t.HasFile d) ∧
    (Run Archive.step (fun a action => ¬ Orphans d a action) start t → t.HasFile d → t.HasRow d) ∧
    (∀ action, (t.serve action).1.untouched = true → (t.serve action).2 = t) ∧
    ∀ settings user id calls request faults,
      (t.upload settings user id calls request faults).1 = .failed .write ∨
        (t.upload settings user id calls request faults).1 = .failed .commit →
      (t.upload settings user id calls request faults).2.store = t.store :=
  ⟨row_has_file consistent, file_has_row consistent, fun _ => serve_untouched,
    fun _ _ _ _ _ _ => upload_failed⟩

/-- The failed upload leaves a file, and does not touch the report. -/
theorem archive_agrees_report :
    (Agency.archivedTwice.HasRow 7 ↔ Agency.archivedTwice.HasFile 7) ∧
    Agency.archivedTwice.HasRow 7 ∧
    (Agency.archivedTwice.HasFile 8 ∧ ¬ Agency.archivedTwice.HasRow 8) ∧
    (Agency.archivedTwice.serve (.delete Agency.admin 8 {})).2 = Agency.archivedTwice ∧
    (Agency.archivedTwice.upload {} Agency.admin 9 Agency.uploadCalls Agency.reportFile
      Agency.lost).2.store = Agency.archivedTwice.store := by
  have hrun {p : Archive → ArchiveAction → Prop}
      (hfirst : p Agency.emptyArchive (Agency.uploadFile 7 {}))
      (hsecond : p (Agency.archived {}) (Agency.uploadFile 8 Agency.lost)) :
      Run Archive.step p Agency.emptyArchive Agency.archivedTwice :=
    .tail (Agency.uploadFile 8 Agency.lost)
      (.tail (Agency.uploadFile 7 {}) (.refl _) hfirst rfl) hsecond rfl
  obtain ⟨hfile, hrow, huntouched, hfailed⟩ :=
    archive_agrees (t := Agency.archivedTwice) Agency.emptyArchive_consistent 7
  refine ⟨⟨hfile (hrun not_false not_false), hrow (hrun ?_ ?_)⟩, List.mem_singleton_self 7,
    ⟨rfl, by simp [HasRow]; decide⟩, huntouched _ rfl, hfailed {} _ 9 _ _ _ (.inr rfl)⟩
  · rintro ⟨-, h | h⟩ <;> cases h
  · rintro ⟨h, -⟩
    cases h

/-- The insert of an upload fails after the file was written, and the file stays. -/
theorem archive_disagrees :
    ¬ ∀ start t : Archive, start.Consistent → Run Archive.step (fun _ _ => True) start t →
      (∀ d, t.HasRow d ↔ t.HasFile d) ∧
      ∀ action, (t.serve action).1.isError = true →
        ∀ d, ((t.serve action).2.HasRow d ↔ t.HasRow d) ∧
          (t.serve action).2.files d = t.files d := by
  intro h
  have hrun : Run Archive.step (fun _ _ => True) Agency.emptyArchive
      (Agency.archived Agency.lost) :=
    .tail (Agency.uploadFile 7 Agency.lost) (.refl _) trivial rfl
  have hrow := ((h _ _ Agency.emptyArchive_consistent hrun).1 7).mpr rfl
  cases hrow

end Docsage
