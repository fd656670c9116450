import Docsage.Ingestion.References
import Docsage.System.Review

/-! # Deleted documents stay deleted

An id is issued once, no statement of a run or a review brings a row back, and
every foreign key refuses a row under a document that is gone.
-/

namespace Docsage
open Effects Relational Transition

/-- The enrichments of the store and of everything in flight refer to existing documents. -/
structure World.Linked (w : World) : Prop where
  store : w.store.Linked
  jobs : ∀ j ∈ w.jobs, j.program.Preserves Store.Linked

variable {w₀ w w₁ w' : World} {a : Action} {d : Uuid} {l l' : Life}

namespace World

/-- A step that leaves documents and enrichments alone and starts no run. -/
theorem Linked.frame (linked : w.Linked) (documents : w'.store.documents = w.store.documents)
    (enrichments : w'.store.enrichments = w.store.enrichments)
    (jobs : ∀ j ∈ w'.jobs, j ∈ w.jobs) : w'.Linked where
  store := linked.store.of_documents
    (fun d h => by rwa [Store.document?, documents]) enrichments
  jobs j hj := linked.jobs j (jobs j hj)

theorem accept_linked {upload : Except HttpError Document} {job : Job} (linked : w.Linked)
    (preserves : job.program.Preserves Store.Linked) (h : w.accept upload job = some w') :
    w'.Linked := by
  unfold accept at h
  split at h
  · cases h
  split at h
  · obtain rfl := Option.some.inj h
    exact linked
  split at h
  · obtain rfl := Option.some.inj h
    refine ⟨linked.store.insertDocument _, fun j hj => ?_⟩
    rcases List.mem_append.mp hj with hj | hj
    · exact linked.jobs j hj
    · obtain rfl := List.mem_singleton.mp hj
      exact preserves
  · obtain rfl := Option.some.inj h
    exact linked

theorem advance_linked {documentId : Uuid} {fault : Option Exc} (linked : w.Linked)
    (h : w.advance documentId fault = some w') : w'.Linked := by
  obtain ⟨j, hlookup, h⟩ := Option.bind_eq_some_iff.mp h
  obtain ⟨⟨p', s'⟩, hresume, rfl⟩ := Option.map_eq_some_iff.mp h
  obtain ⟨hstore, hrest⟩ := (linked.jobs j (lookup_some hlookup).1).resume linked.store hresume
  refine ⟨hstore, fun k hk => ?_⟩
  change k ∈ (if p'.ended then _ else _) at hk
  split at hk
  · exact linked.jobs k (mem_delete.mp hk).1
  · rcases mem_update_const hk with rfl | ⟨hk, -⟩
    · exact hrest
    · exact linked.jobs k hk

theorem Linked.edit {e : Edit} {id : Uuid} (linked : w.Linked) (enrichments : e.enrichments = [])
    (store : w'.store = e.apply id w.store) (jobs : w'.jobs = w.jobs) : w'.Linked where
  store := by
    rw [store]
    have hset : (w.store.setDocument id e.row).Linked := linked.store.setDocument e.row_id
    refine hset.of_documents (fun d h => h) ?_
    rw [Edit.apply, enrichments, List.append_nil]
    rfl
  jobs := by
    rw [jobs]
    exact linked.jobs

theorem write_linked {ticket : ℕ} {fault : Option Exc} (linked : w.Linked)
    (h : w.write ticket fault = some w') : w'.Linked := by
  obtain ⟨r, -, rfl⟩ := Option.map_eq_some_iff.mp h
  split
  · unfold commitReview
    split
    · next s' hattempt =>
      obtain ⟨-, rfl⟩ := decideCommit_ok (attempt_ok hattempt)
      exact linked.edit rfl rfl rfl
    · exact linked.frame rfl rfl fun _ => id
  · unfold insertReview
    split
    · next s' hattempt =>
      obtain ⟨-, rfl⟩ := DotNet.insertDecision_ok (attempt_ok hattempt)
      exact linked.edit rfl rfl rfl
    · exact linked.frame rfl rfl fun _ => id
  · unfold updateReview
    split
    · next s' hattempt =>
      obtain rfl := DotNet.updateDecision_ok (attempt_ok hattempt)
      exact linked.edit rfl rfl rfl
    · exact linked.frame rfl rfl fun _ => id

theorem sweep_linked (linked : w.Linked) :
    World.Linked { w with store := recoverOnStartup w.store } where
  store := by
    refine linked.store.of_documents (fun d h => ?_) rfl
    have hkeeps (row : Document) : (row.sweep w.store.now).id = row.id :=
      congrArg FixedColumns.id (row.sweep_fixed w.store.now)
    change (lookup Document.id d (w.store.documents.map (·.sweep w.store.now))).isSome
    rw [lookup_map hkeeps, Option.isSome_map]
    exact h
  jobs := linked.jobs

theorem Linked.step (linked : w.Linked) (h : w.step a = some w') : w'.Linked := by
  cases a with
  | tick elapsed | administer users topics smeDesignations =>
    obtain rfl := Option.some.inj h
    exact linked.frame rfl rfl fun _ => id
  | uploadFastApi user documentId upload request calls =>
    exact accept_linked linked (runIngestion_linked _ _ _) h
  | uploadDotNet user documentId saveFile request calls =>
    exact accept_linked linked (DotNet.runAsync_linked _ _ _) h
  | advance documentId fault => exact advance_linked linked h
  | restartFastApi settings | restartDotNet options =>
    obtain rfl := Option.some.inj h
    exact linked.frame rfl rfl fun _ hj => (List.mem_filter.mp hj).1
  | sweep b =>
    have hsweep := sweep_linked linked
    cases b <;> (obtain rfl := Option.some.inj h; exact hsweep)
  | delete documentId =>
    obtain rfl := Option.some.inj h
    exact ⟨linked.store.deleteDocument, linked.jobs⟩
  | review b request =>
    obtain rfl := Option.some.inj h
    unfold review
    split <;> exact linked.frame rfl rfl fun _ => id
  | write ticket fault => exact write_linked linked h
  | askFastApi service userId scope question providerName
  | askDotNet service userId scope question providerName =>
    obtain rfl := Option.some.inj h
    unfold compare
    split <;> exact linked.frame rfl rfl fun _ => id

theorem Initial.linked (initial : w.Initial) : w.Linked where
  store := by simp [Store.Linked, initial.enrichments]
  jobs := by simp [initial.jobs]

end World

def Life.Gone (l : Life) : Prop := l.issued = true ∧ l.row = none

theorem Life.Gone.step {ev : LifeEvent} (gone : l.Gone) (lawful : l.Lawful ev)
    (h : l.step ev = some l') : l'.Gone := by
  obtain ⟨hissued, hrow⟩ := gone
  cases ev with
  | create row space =>
    rw [lawful.1] at hissued
    cases hissued
  | delete =>
    obtain rfl := Option.some.inj h
    exact ⟨hissued, rfl⟩
  | halt | pass r | insert r now =>
    obtain rfl := Option.some.inj h
    exact ⟨hissued, hrow⟩
  | run e next | sweep now | update r now =>
    obtain rfl := Option.some.inj h
    exact ⟨hissued, by simp [hrow]⟩
  | commit r =>
    obtain rfl := Option.some.inj h
    exact ⟨hissued, by simp [Life.addApproval, hrow]⟩

/-- Whatever the world does after the delete, the life of the document stays over. -/
theorem World.gone_life (sound : w.Sound) (rep : Represents d w l) (good : l.Good) (gone : l.Gone)
    (run : Run World.step anyAction w w') : ∃ l', Represents d w' l' ∧ l'.Good ∧ l'.Gone := by
  refine (run.invariant (I := fun w => w.Sound ∧ ∃ l, Represents d w l ∧ l.Good ∧ l.Gone)
    ⟨sound, l, rep, good, gone⟩ ?_).2
  rintro w a w' ⟨sound, l, rep, good, gone⟩ - taken
  obtain ⟨l', hrun, rep'⟩ := World.step_matches sound rep good taken
  have hlawful := hrun.mono fun _ _ matched => matched.1
  exact ⟨sound.step taken, l', rep', good.run hlawful,
    hlawful.invariant gone fun _ _ _ gone lawful taken => gone.step lawful taken⟩

/-- In every world after the commit of a delete there is no row of the document, and no chunk,
enrichment or approval refers to it. -/
theorem deleted_stays_deleted (initial : w₀.Initial) (before : Run World.step anyAction w₀ w)
    (existed : (w.store.document? d).isSome) (deleted : w.step (.delete d) = some w₁)
    (after : Run World.step anyAction w₁ w') :
    w'.store.document? d = none ∧ w'.store.chunksOf d = [] ∧ w'.store.enrichmentsOf d = [] ∧
      w'.store.approvalsOf d = [] := by
  have hsound := initial.sound.run before
  obtain ⟨l, rep, good⟩ := hsound d
  have hissued : l.issued = true := by
    by_contra h
    rw [rep.row, good.unissued (Bool.eq_false_iff.mpr h)] at existed
    cases existed
  obtain ⟨l₁, rep₁, good₁⟩ := hsound.step deleted d
  have hrow₁ : l₁.row = none := by
    obtain rfl := Option.some.inj deleted
    rw [← rep₁.row]
    exact Store.document?_deleteDocument
  have hissued₁ : l₁.issued = true := by
    obtain rfl := Option.some.inj deleted
    exact rep₁.issued.mpr (rep.issued.mp hissued)
  obtain ⟨l', rep', good', gone'⟩ :=
    World.gone_life (hsound.step deleted) rep₁ good₁ ⟨hissued₁, hrow₁⟩ after
  have hnone : w'.store.document? d = none := rep'.row.trans gone'.2
  obtain ⟨hchunks, happrovals⟩ := good'.absent gone'.2
  have hlinked : w'.Linked :=
    ((before.tail _ trivial deleted).trans after).invariant initial.linked
      fun _ _ _ linked _ taken => World.Linked.step linked taken
  exact ⟨hnone, rep'.chunks.trans hchunks, hlinked.store.enrichmentsOf hnone,
    rep'.approvals.trans happrovals⟩

namespace Agency

/-- The report is deleted while its run still has its enrichments to write. -/
def deleteUnderRun : List Action := uploadReport :: List.replicate 3 (.advance 7 none)

theorem report_stays_deleted : ∃ w w₁ w',
    execute World.step start deleteUnderRun = some w ∧ w.step (.delete 7) = some w₁ ∧
    execute World.step w₁ (List.replicate 2 (.advance 7 none)) = some w' ∧
    w'.store.document? 7 = none ∧ w'.store.chunksOf 7 = [] ∧ w'.store.enrichmentsOf 7 = [] ∧
    w'.store.approvalsOf 7 = [] := by
  have hruns : ((execute World.step start deleteUnderRun).bind fun w =>
      (w.step (.delete 7)).bind fun w₁ =>
        (execute World.step w₁ (List.replicate 2 (.advance 7 none))).map fun _ =>
          (w.store.document? 7).isSome) = some true := by decide
  obtain ⟨w, hw, hruns⟩ := Option.bind_eq_some_iff.mp hruns
  obtain ⟨w₁, hw₁, hruns⟩ := Option.bind_eq_some_iff.mp hruns
  obtain ⟨w', hw', hexisted⟩ := Option.map_eq_some_iff.mp hruns
  exact ⟨w, w₁, w', hw, hw₁, hw', deleted_stays_deleted start_initial (reaches hw) hexisted hw₁
    (.of_execute (obeys_true _ _) hw')⟩

end Agency

end Docsage
