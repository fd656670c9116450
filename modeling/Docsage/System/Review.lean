import Docsage.System.Refinement

/-! # What holds of the documents of every reachable world

The invariant of a life, read back on the store: who stands behind a review
status, and which chunks a document has.
-/

namespace Docsage
open Transition

def anyAction : World → Action → Prop := fun _ _ => True

variable {w₀ w : World} {d : Uuid} {row : Document}

theorem reachable_good (initial : w₀.Initial) (run : Run World.step anyAction w₀ w)
    (hrow : w.store.document? d = some row) :
    ∃ l : Life, Represents d w l ∧ l.GoodRow row := by
  obtain ⟨l, rep, good⟩ := initial.sound.run run d
  exact ⟨l, rep, good.present row (rep.row.symm.trans hrow)⟩

/-- The approval behind a decided review status: by somebody else than the owner, who was an
admin or an SME of the topic in the store that the deciding request read. -/
def DecidedBy (w : World) (d : Uuid) (row : Document) (approval : Approval) : Prop :=
  approval ∈ w.store.approvalsOf d ∧ approval.decision.reviewStatus = row.reviewStatus ∧
    approval.reviewerId ≠ row.ownerId ∧
    ∃ x ∈ w.decided, x.approval = approval ∧ x.request.userId = approval.reviewerId ∧
      Authorized x.snapshot approval.reviewerId row

/-- In every reachable world, a decided document is a ready library document with a topic and an
authorized decision, a pending one is a ready library document, and a personal one was never
reviewed. -/
theorem review_sound (initial : w₀.Initial) (run : Run World.step anyAction w₀ w)
    (hrow : w.store.document? d = some row) :
    (row.reviewStatus = .approved ∨ row.reviewStatus = .rejected →
      row.scope = .library ∧ row.topicId.isSome ∧ row.status = .ready ∧
        ∃ approval, DecidedBy w d row approval) ∧
    (row.reviewStatus = .pendingSme → row.scope = .library ∧ row.status = .ready) ∧
    (row.scope = .personal → row.reviewStatus = .notRequired ∧ w.store.approvalsOf d = []) := by
  obtain ⟨l, rep, good⟩ := reachable_good initial run hrow
  have hready (h : row.reviewStatus ≠ .notRequired) : row.status = .ready := by
    by_contra hne
    exact h (good.unready hne).reviewStatus
  have hlibrary (h : row.reviewStatus ≠ .notRequired) : row.scope = .library := by
    cases hscope : row.scope with
    | library => rfl
    | personal => exact absurd ((good.ready (hready h)).personal hscope).1 h
  refine ⟨fun hdecided => ?_, fun hpending => ?_, fun hpersonal => ?_⟩
  · have hne : row.reviewStatus ≠ .notRequired := by
      rcases hdecided with h | h <;> rw [h] <;> decide
    have hnp : row.reviewStatus ≠ .pendingSme := by
      rcases hdecided with h | h <;> rw [h] <;> decide
    obtain ⟨x, hx, happroval, hstatus, backed⟩ := (good.ready (hready hne)).decided hne hnp
    refine ⟨hlibrary hne, good.topic (hlibrary hne), hready hne, x.approval, ?_⟩
    exact ⟨rep.approvals ▸ happroval, hstatus, backed.notOwner, x, rep.decided x hx, rfl,
      backed.reviewer.symm, backed.authorized⟩
  · have hne : row.reviewStatus ≠ .notRequired := by rw [hpending]; decide
    exact ⟨hlibrary hne, hready hne⟩
  · rw [rep.approvals]
    by_cases h : row.status = .ready
    · exact ⟨((good.ready h).personal hpersonal).1, ((good.ready h).personal hpersonal).2.1⟩
    · exact ⟨(good.unready h).reviewStatus, (good.unready h).approvals⟩

theorem Agency.reaches {actions : List Action} {w : World}
    (h : execute World.step Agency.start actions = some w) :
    Run World.step anyAction Agency.start w :=
  .of_execute (obeys_true actions _) h

theorem review_sound_report : ∃ w row approval,
    execute World.step Agency.start (Agency.ingestReport ++
      [.review .fastApi (Agency.approve Agency.sme), .write 0 none]) = some w ∧
    w.store.document? 7 = some row ∧ row.reviewStatus = .approved ∧ DecidedBy w 7 row approval := by
  obtain ⟨w, hw⟩ := Option.isSome_iff_exists.mp (show (execute World.step Agency.start
    (Agency.ingestReport ++ [.review .fastApi (Agency.approve Agency.sme), .write 0 none])).isSome
    by decide)
  have hstatus : ((execute World.step Agency.start (Agency.ingestReport ++
      [.review .fastApi (Agency.approve Agency.sme), .write 0 none])).bind fun w =>
        (w.store.document? 7).map (·.reviewStatus)) = some .approved := by decide
  rw [hw] at hstatus
  obtain ⟨row, hrow, happroved⟩ := Option.map_eq_some_iff.mp hstatus
  obtain ⟨-, -, -, approval, hdecided⟩ :=
    (review_sound Agency.start_initial (Agency.reaches hw) hrow).1 (.inl happroved)
  exact ⟨w, row, approval, hw, hrow, happroved, hdecided⟩

/-- In every reachable world, a document that is not ready has no chunks, and a ready one has
exactly its count of them, every ordinal once and every embedding there. -/
theorem index_all_or_nothing (initial : w₀.Initial) (run : Run World.step anyAction w₀ w)
    (hrow : w.store.document? d = some row) :
    (row.status ≠ .ready → w.store.chunksOf d = []) ∧
    (row.status = .ready →
      (w.store.chunksOf d).map (·.ordinal) = List.range row.chunkCount ∧
        ∀ chunk ∈ w.store.chunksOf d, chunk.embedding.isSome) := by
  obtain ⟨l, rep, good⟩ := reachable_good initial run hrow
  rw [rep.chunks]
  refine ⟨fun h => (good.unready h).chunks, fun h => ?_⟩
  have hready := good.ready h
  refine ⟨by rw [hready.complete.ordinals, hready.chunkCount], fun chunk hchunk => ?_⟩
  obtain ⟨v, hv, -⟩ := hready.complete.embeddings chunk hchunk
  rw [hv]
  rfl

theorem index_all_or_nothing_report : ∃ w row,
    execute World.step Agency.start Agency.ingestReport = some w ∧
    w.store.document? 7 = some row ∧ row.chunkCount = 1 ∧
    (w.store.chunksOf 7).map (·.ordinal) = List.range row.chunkCount := by
  obtain ⟨w, hw⟩ := Option.isSome_iff_exists.mp
    (show (execute World.step Agency.start Agency.ingestReport).isSome by decide)
  have hready : ((execute World.step Agency.start Agency.ingestReport).bind fun w =>
      (w.store.document? 7).map fun row => (row.status, row.chunkCount)) = some (.ready, 1) := by
    decide
  rw [hw] at hready
  obtain ⟨row, hrow, hvalues⟩ := Option.map_eq_some_iff.mp hready
  obtain ⟨hstatus, hcount⟩ := Prod.mk.inj hvalues
  exact ⟨w, row, hw, hrow, hcount,
    ((index_all_or_nothing Agency.start_initial (Agency.reaches hw) hrow).2 hstatus).1⟩

end Docsage
