import Docsage.System.Refinement

/-! # Document ids are a key

An id is issued once, an edit never changes one, and nothing else inserts a document.
So the rows of a list and the rows that are looked up by their id are the same.
-/

namespace Docsage
open Effects Relational Transition

def Store.Keyed (s : Store) : Prop := (s.documents.map (·.id)).Nodup

theorem Store.Keyed.document? {s : Store} (keyed : s.Keyed) {doc : Document}
    (h : doc ∈ s.documents) : s.document? doc.id = some doc := lookup_of_mem keyed h

variable {w w' : World} {s s' : Store}

theorem Store.Keyed.of_ids (keyed : s.Keyed)
    (ids : s'.documents.map (·.id) = s.documents.map (·.id)) : s'.Keyed := by
  rw [Store.Keyed, ids]
  exact keyed

theorem Edit.ids_apply (e : Edit) (id : Uuid) (s : Store) :
    (e.apply id s).documents.map (·.id) = s.documents.map (·.id) := map_key_update e.row_id

namespace World

theorem accept_keyed {upload : Except HttpError Document} {job : Job} (sound : w.Sound)
    (keyed : w.store.Keyed) (uploaded : ∀ row, upload = .ok row → row.id = job.documentId)
    (h : w.accept upload job = some w') : w'.store.Keyed := by
  unfold accept at h
  split at h
  · cases h
  next fresh =>
  split at h
  · obtain rfl := Option.some.inj h
    exact keyed
  next row =>
  split at h
  · obtain rfl := Option.some.inj h
    have hid := uploaded row rfl
    obtain ⟨l, rep, good⟩ := sound row.id
    have hnone : w.store.document? row.id = none := by
      rw [rep.row]
      exact good.unissued (Bool.eq_false_iff.mpr fun hi => fresh (hid ▸ rep.issued.mp hi))
    rw [Store.Keyed, Store.insertDocument, List.map_append, List.map_singleton, List.nodup_append]
    refine ⟨keyed, List.nodup_singleton _, fun a ha b hb hab => ?_⟩
    obtain ⟨doc, hdoc, rfl⟩ := List.mem_map.mp ha
    exact lookup_none.mp hnone doc hdoc (hab.trans (List.mem_singleton.mp hb))
  · obtain rfl := Option.some.inj h
    exact keyed

theorem advance_keyed {documentId : Uuid} {fault : Option Exc} (sound : w.Sound)
    (keyed : w.store.Keyed) (h : w.advance documentId fault = some w') : w'.store.Keyed := by
  obtain ⟨j, hlookup, h⟩ := Option.bind_eq_some_iff.mp h
  obtain ⟨⟨p', s'⟩, hresume, rfl⟩ := Option.map_eq_some_iff.mp h
  obtain ⟨hj, rfl⟩ := lookup_some hlookup
  obtain ⟨l, rep, good⟩ := sound j.documentId
  rcases resume_cases rep good hj rfl hresume with ⟨rfl, -⟩ | ⟨e, next, -, rfl, -⟩
  · exact keyed
  · exact keyed.of_ids (e.ids_apply _ _)

theorem write_keyed {ticket : ℕ} {fault : Option Exc} (keyed : w.store.Keyed)
    (h : w.write ticket fault = some w') : w'.store.Keyed := by
  obtain ⟨r, -, rfl⟩ := Option.map_eq_some_iff.mp h
  split
  · unfold commitReview
    split
    · next s' hattempt =>
      obtain ⟨-, rfl⟩ := decideCommit_ok (attempt_ok hattempt)
      exact keyed.of_ids (Edit.ids_apply _ _ _)
    · exact keyed
  · unfold insertReview
    split
    · next s' hattempt =>
      obtain ⟨-, rfl⟩ := DotNet.insertDecision_ok (attempt_ok hattempt)
      exact keyed.of_ids (Edit.ids_apply _ _ _)
    · exact keyed
  · unfold updateReview
    split
    · next s' hattempt =>
      obtain rfl := DotNet.updateDecision_ok (attempt_ok hattempt)
      exact keyed.of_ids (Edit.ids_apply _ _ _)
    · exact keyed

theorem sweep_keyed (keyed : w.store.Keyed) : (recoverOnStartup w.store).Keyed := by
  refine keyed.of_ids ?_
  change (w.store.documents.map (·.sweep w.store.now)).map (·.id) = _
  rw [List.map_map]
  exact List.map_congr_left fun row _ =>
    congrArg FixedColumns.id (row.sweep_fixed w.store.now)

theorem step_keyed {a : Action} (sound : w.Sound) (keyed : w.store.Keyed)
    (h : w.step a = some w') : w'.store.Keyed := by
  cases a with
  | tick elapsed | administer users topics smeDesignations | restartFastApi settings
  | restartDotNet options =>
    obtain rfl := Option.some.inj h
    exact keyed
  | uploadFastApi user documentId upload request calls =>
    exact accept_keyed sound keyed (fun _ hrow => (uploadDocument_ok hrow).id) h
  | uploadDotNet user documentId saveFile request calls =>
    exact accept_keyed sound keyed (fun _ hrow => (DotNet.uploadDocument_ok hrow).1.id) h
  | advance documentId fault => exact advance_keyed sound keyed h
  | sweep b =>
    have hsweep := sweep_keyed keyed
    cases b <;> (obtain rfl := Option.some.inj h; exact hsweep)
  | delete documentId =>
    obtain rfl := Option.some.inj h
    exact (List.filter_sublist.map _).nodup keyed
  | review b request =>
    obtain rfl := Option.some.inj h
    unfold review
    split <;> exact keyed
  | write ticket fault => exact write_keyed keyed h
  | askFastApi service userId scope question providerName
  | askDotNet service userId scope question providerName =>
    obtain rfl := Option.some.inj h
    unfold compare
    split <;> exact keyed

/-- Document ids are a key in every reachable world. -/
theorem Initial.keyed {w₀ : World} {guard : World → Action → Prop} (initial : w₀.Initial)
    (run : Run World.step guard w₀ w) : w.store.Keyed := by
  refine (run.invariant (I := fun w => w.Sound ∧ w.store.Keyed) ⟨initial.sound, ?_⟩ ?_).2
  · rw [Store.Keyed, initial.documents]
    exact List.nodup_nil
  · rintro w a w' ⟨sound, keyed⟩ - taken
    exact ⟨sound.step taken, step_keyed sound keyed taken⟩

end World

end Docsage
