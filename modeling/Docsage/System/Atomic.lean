import Docsage.System.Review

/-! # Decisions that are made by halves

The .NET handler commits the approval and the review status one after the other.
Once the approval of a pending document is in, the decision is on record and has not
been made. A request that ends there leaves it so; one that goes on makes it.
-/

namespace Docsage
open Effects Relational Transition

/-- The writes of the .NET handler, as fault injection names them. -/
inductive DecisionWrite where
  | insert
  | update
deriving DecidableEq, Repr

abbrev DecisionProgram := Program Store Exc DecisionWrite (Except HttpError Document)

/-- `POST /api/reviews/{documentId}`. The answer is the document as it is found in the end. -/
def DotNet.decide (request : ReviewRequest) : DecisionProgram :=
  .read fun
  | .error exc => .raised exc
  | .ok s =>
    match DotNet.decideChecks s request with
    | .error error => .ret (.error error)
    | .ok decision =>
      .commit .insert (DotNet.insertDecision request decision) fun
      | .error exc => .raised exc
      | .ok () =>
        .commit .update (DotNet.updateDecision request decision) fun
        | .error exc => .raised exc
        | .ok () => .read fun
          | .error exc => .raised exc
          | .ok s => .ret (orRefuse (s.document? request.documentId) documentNotFound)

/-- The request left no trace, or its approval and the review status that goes with it. -/
def AllOrNothing (request : ReviewRequest) (s s' : Store) : Prop :=
  s' = s ∨ ∃ approval decision, Decision.ofString? request.decision = some decision ∧
    approval.documentId = request.documentId ∧ approval.reviewerId = request.userId ∧
    approval.decision = decision ∧
    s' = (decisionEdit approval decision s.now).apply request.documentId s

/-- The request is cut off after its INSERT: an interruption, or a fault of its UPDATE. -/
def CutOff (request : ReviewRequest) (s : Store) (faults : List (Option Exc)) : Prop :=
  (∃ decision, DotNet.decideChecks s request = .ok decision) ∧
    faults[0]? = some none ∧ faults[1]? = some none ∧ faults[2]? ≠ some none

variable {s : Store} {request : ReviewRequest} {decision : Decision}

theorem decision_on_record_ne {approval : Approval} :
    (approvalEdit approval).apply request.documentId s ≠ s := by
  intro h
  have hlength := congrArg (fun t : Store => t.approvals.length) h
  simp [approvalEdit, Edit.apply] at hlength

/-- The two statements together are the edit of the one transaction. -/
theorem insert_update_apply (approval : Approval) (decision : Decision) :
    (Edit.ofPatch { reviewStatus := some decision.reviewStatus }
      ((approvalEdit approval).apply request.documentId s).now).apply request.documentId
        ((approvalEdit approval).apply request.documentId s) =
      (decisionEdit approval decision s.now).apply request.documentId s := by
  simp [approvalEdit, decisionEdit, Edit.apply, Edit.ofPatch, Relational.update]

theorem perform_read (faults : List (Option Exc)) (next : Except Exc Store → DecisionProgram)
    (ends : ∀ r, (next r).ended = true) (s : Store) :
    (Program.perform faults (.read next) s).2 = s := by
  cases faults with
  | nil => rfl
  | cons fault faults =>
    cases fault <;> exact congrArg Prod.snd (Program.perform_of_ended (ends _) faults s)

/-- An approval without its review status is neither all nor nothing. -/
theorem not_allOrNothing_inserted {doc : Document} (passed : Passed s request decision doc)
    (approval : Approval) :
    ¬ AllOrNothing request s ((approvalEdit approval).apply request.documentId s) := by
  rintro (hsame | ⟨approval', decision', -, -, -, -, hedit⟩)
  · exact decision_on_record_ne hsame
  · have hrow := congrArg (fun t : Store => t.document? request.documentId) hedit
    simp only [Edit.document?_apply, passed.found, Option.map_some, Option.some.injEq] at hrow
    have hstatus := congrArg Document.reviewStatus hrow
    simp [approvalEdit, decisionEdit, passed.pending] at hstatus
    exact Decision.reviewStatus_ne_pendingSme decision' hstatus.symm

theorem decide_inserted (hchecks : DotNet.decideChecks s request = .ok decision)
    (faults : List (Option Exc)) :
    (Program.perform (none :: none :: faults) (DotNet.decide request) s).2 =
      match faults with
      | none :: _ => (decisionEdit (DotNet.decideApproval s.now request decision) decision
          s.now).apply request.documentId s
      | _ => (approvalEdit (DotNet.decideApproval s.now request decision)).apply
          request.documentId s := by
  obtain ⟨doc, passed⟩ := DotNet.decideChecks_ok hchecks
  obtain ⟨s₁, hinsert⟩ := DotNet.insertDecision_exists decision
    (show (s.document? request.documentId).isSome by simp [passed.found])
  obtain ⟨-, rfl⟩ := DotNet.insertDecision_ok hinsert
  simp only [DotNet.decide, Program.perform, Program.resume, hchecks, attempt_none hinsert]
  rcases faults with _ | ⟨_ | exc, rest⟩
  · rfl
  · rw [← insert_update_apply (DotNet.decideApproval s.now request decision) decision]
    simp only [Program.perform, Program.resume, attempt, DotNet.updateDecision]
    rw [perform_read _ _ (fun r => by cases r <;> rfl), Store.updateDocument_eq_apply]
  · exact congrArg Prod.snd (Program.perform_of_ended rfl rest _)

/-- A request alone with the store is atomic exactly when it is not cut off. -/
theorem decide_atomic_iff (request : ReviewRequest) (s : Store) (faults : List (Option Exc)) :
    AllOrNothing request s (Program.perform faults (DotNet.decide request) s).2 ↔
      ¬ CutOff request s faults := by
  have nothing {s' : Store} (h : s' = s) (hcut : ¬ CutOff request s faults) :
      AllOrNothing request s s' ↔ ¬ CutOff request s faults := iff_of_true (.inl h) hcut
  rcases faults with _ | ⟨_ | exc, rest⟩
  · exact nothing rfl fun h => by simpa using h.2.1
  · cases hchecks : DotNet.decideChecks s request with
    | error error =>
      refine nothing ?_ fun h => ?_
      · simp only [DotNet.decide, Program.perform, Program.resume, hchecks]
        exact congrArg Prod.snd (Program.perform_of_ended rfl rest s)
      · obtain ⟨decision, hdecision⟩ := h.1
        cases hchecks.symm.trans hdecision
    | ok decision =>
      obtain ⟨doc, passed⟩ := DotNet.decideChecks_ok hchecks
      rcases rest with _ | ⟨_ | exc, rest⟩
      · refine nothing ?_ fun h => by simpa using h.2.2.1
        simp only [DotNet.decide, Program.perform, Program.resume, hchecks]
      · rw [decide_inserted hchecks]
        split
        · refine iff_of_true (.inr ⟨_, decision, passed.decision, rfl, rfl, rfl, rfl⟩) fun h => ?_
          simpa using h.2.2.2
        · next hrest =>
          refine iff_of_false (not_allOrNothing_inserted passed _) (not_not.mpr ?_)
          refine ⟨⟨decision, hchecks⟩, rfl, rfl, fun h => ?_⟩
          obtain ⟨tail, htail⟩ : ∃ tail, rest = none :: tail := by
            cases rest with
            | nil => cases h
            | cons fault tail => exact ⟨tail, by rw [Option.some.inj h]⟩
          exact hrest tail htail
      · refine nothing ?_ fun h => by simpa using h.2.2.1
        simp only [DotNet.decide, Program.perform, Program.resume, hchecks, attempt]
        exact congrArg Prod.snd (Program.perform_of_ended rfl rest s)
  · exact nothing (congrArg Prod.snd (Program.perform_of_ended rfl rest s)) fun h => by
      simpa using h.2.1

/-- A pending document has an approval on record. -/
def World.HalfDecided (w : World) (d : Uuid) : Prop :=
  ∃ row, w.store.document? d = some row ∧ row.reviewStatus = .pendingSme ∧
    w.store.approvalsOf d ≠ []

/-- A .NET request has written its approval of the document and goes on to the review status. -/
def World.BetweenWrites (w : World) (d : Uuid) : Prop :=
  ∃ r ∈ w.reviews, r.request.documentId = d ∧ r.backend = .dotNet ∧ r.stage = .inserted

/-- No .NET request ends between its two writes: neither does its UPDATE fail nor the backend go
down. -/
def FinishesDecisions (w : World) : Action → Prop
  | .write ticket fault =>
    ∀ r, lookup OpenReview.ticket ticket w.reviews = some r → r.backend = .dotNet →
      r.stage = .inserted → fault = none
  | .restartDotNet _ => ∀ r ∈ w.reviews, r.backend = .dotNet → r.stage = .passed
  | _ => True

structure World.Ticketed (w : World) : Prop where
  unique : (w.reviews.map OpenReview.ticket).Nodup
  issued : ∀ r ∈ w.reviews, r.ticket < w.tickets

variable {w w' : World} {d : Uuid} {a : Action} {r : OpenReview}

theorem World.HalfDecided.of_sameRows (same : SameRows d w.store w'.store) (h : w'.HalfDecided d) :
    w.HalfDecided d := by
  obtain ⟨row, hrow, hpending, happrovals⟩ := h
  rw [same.row] at hrow
  rw [same.approvals] at happrovals
  exact ⟨row, hrow, hpending, happrovals⟩

/-- The run of a document publishes it before anybody decides, so it leaves nothing half decided. -/
theorem World.HalfDecided.of_advance {documentId : Uuid} {fault : Option Exc} (sound : w.Sound)
    (h : w.advance documentId fault = some w') (half : w'.HalfDecided d) : w.HalfDecided d := by
  obtain ⟨j, hlookup, h⟩ := Option.bind_eq_some_iff.mp h
  obtain ⟨⟨p', s'⟩, hresume, rfl⟩ := Option.map_eq_some_iff.mp h
  obtain ⟨hj, rfl⟩ := lookup_some hlookup
  by_cases hd : d = j.documentId
  · obtain ⟨l, rep, good⟩ := sound d
    rcases resume_cases rep good hj hd.symm hresume with
      ⟨rfl, -⟩ | ⟨e, next, fits, rfl, happrovals, ⟨hlive, -⟩, -⟩
    · exact half
    · obtain ⟨row, hrow, -, hne⟩ := half
      change (e.apply d w.store).document? d = some row at hrow
      change (e.apply d w.store).approvalsOf d ≠ [] at hne
      rw [Edit.document?_apply, rep.row] at hrow
      obtain ⟨row₀, hrow₀, -⟩ := Option.map_eq_some_iff.mp hrow
      have hgood := good.present row₀ hrow₀
      rw [Edit.approvalsOf_apply fits, happrovals, rep.approvals,
        (hgood.unready (hgood.live hlive)).approvals] at hne
      exact absurd rfl hne
  · exact half.of_sameRows (resume_sameRows sound hj hd hresume)

/-- A document that was just uploaded has not been decided on. -/
theorem World.HalfDecided.of_accept {upload : Except HttpError Document} {job : Job}
    (uploaded : ∀ row, upload = .ok row → Uploaded job.documentId row) (sound : w.Sound)
    (h : w.accept upload job = some w') (half : w'.HalfDecided d) : w.HalfDecided d := by
  unfold World.accept at h
  split at h
  · cases h
  next hfresh =>
  split at h
  · obtain rfl := Option.some.inj h
    exact half
  next row =>
  split at h
  swap
  · obtain rfl := Option.some.inj h
    exact half
  obtain rfl := Option.some.inj h
  have hup := uploaded row rfl
  obtain ⟨l, rep, good⟩ := sound job.documentId
  have hnone : w.store.document? row.id = none := by
    rw [hup.id, rep.row]
    exact good.unissued (Bool.eq_false_iff.mpr fun hi => hfresh (rep.issued.mp hi))
  obtain ⟨row', hrow', hpending, hne⟩ := half
  change (w.store.insertDocument row).document? d = some row' at hrow'
  rw [Store.document?_insertDocument hnone] at hrow'
  split_ifs at hrow' with hd
  · obtain rfl := Option.some.inj hrow'
    rw [hup.reviewStatus] at hpending
    cases hpending
  · exact ⟨row', hrow', hpending, hne⟩

theorem World.HalfDecided.of_sweep
    (half : ({ w with store := recoverOnStartup w.store } : World).HalfDecided d) :
    w.HalfDecided d := by
  obtain ⟨row', hrow', hpending, hne⟩ := half
  have hkeeps (r : Document) : (r.sweep w.store.now).id = r.id :=
    congrArg FixedColumns.id (r.sweep_fixed w.store.now)
  change lookup Document.id d (w.store.documents.map (·.sweep w.store.now)) = some row' at hrow'
  rw [lookup_map hkeeps] at hrow'
  obtain ⟨row, hrow, rfl⟩ := Option.map_eq_some_iff.mp hrow'
  refine ⟨row, hrow, ?_, hne⟩
  unfold Document.sweep at hpending
  split at hpending <;> exact hpending

theorem World.HalfDecided.of_delete {documentId : Uuid}
    (half : ({ w with store := w.store.deleteDocument documentId } : World).HalfDecided d) :
    w.HalfDecided d := by
  by_cases hd : d = documentId
  · subst hd
    obtain ⟨row, hrow, -⟩ := half
    change (w.store.deleteDocument d).document? d = some row at hrow
    rw [Store.document?_deleteDocument] at hrow
    cases hrow
  · exact half.of_sameRows (.delete hd)

/-- Every half decided document has a request under way that finishes it. -/
structure World.Accounted (w : World) : Prop where
  ticketed : w.Ticketed
  between : ∀ d, w.HalfDecided d → w.BetweenWrites d

/-- A step that leaves the open reviews alone and decides nothing. -/
theorem World.Accounted.frame (accounted : w.Accounted) (reviews : w'.reviews = w.reviews)
    (tickets : w'.tickets = w.tickets) (half : ∀ d, w'.HalfDecided d → w.HalfDecided d) :
    w'.Accounted where
  ticketed := by
    refine ⟨by rw [reviews]; exact accounted.ticketed.unique, fun r hr => ?_⟩
    rw [tickets]
    exact accounted.ticketed.issued r (reviews ▸ hr)
  between d h := by
    obtain ⟨r, hr, hmatch⟩ := accounted.between d (half d h)
    exact ⟨r, reviews.symm ▸ hr, hmatch⟩

theorem World.Accounted.accept {upload : Except HttpError Document} {job : Job}
    (accounted : w.Accounted) (sound : w.Sound)
    (uploaded : ∀ row, upload = .ok row → Uploaded job.documentId row)
    (h : w.accept upload job = some w') : w'.Accounted := by
  have hkept : w'.reviews = w.reviews ∧ w'.tickets = w.tickets := by
    unfold World.accept at h
    split at h
    · cases h
    · split at h
      · obtain rfl := Option.some.inj h
        exact ⟨rfl, rfl⟩
      · split at h <;> (obtain rfl := Option.some.inj h; exact ⟨rfl, rfl⟩)
  exact accounted.frame hkept.1 hkept.2 fun _ half => half.of_accept uploaded sound h

theorem World.Accounted.advance {documentId : Uuid} {fault : Option Exc} (accounted : w.Accounted)
    (sound : w.Sound) (h : w.advance documentId fault = some w') : w'.Accounted := by
  have hkept : w'.reviews = w.reviews ∧ w'.tickets = w.tickets := by
    obtain ⟨j, -, h⟩ := Option.bind_eq_some_iff.mp h
    obtain ⟨-, -, rfl⟩ := Option.map_eq_some_iff.mp h
    exact ⟨rfl, rfl⟩
  exact accounted.frame hkept.1 hkept.2 fun _ half => half.of_advance sound h

/-- A backend goes down that has no request between its two writes. -/
theorem World.Accounted.kill {b : Backend} (accounted : w.Accounted)
    (finished : ∀ r ∈ w.reviews, r.backend = .dotNet → r.stage = .inserted → b ≠ .dotNet) :
    (w.kill b).Accounted where
  ticketed :=
    ⟨(List.filter_sublist.map _).nodup accounted.ticketed.unique,
      fun r hr => accounted.ticketed.issued r (List.mem_filter.mp hr).1⟩
  between d half := by
    obtain ⟨r, hr, hd, hbackend, hstage⟩ := accounted.between d half
    refine ⟨r, List.mem_filter.mpr ⟨hr, ?_⟩, hd, hbackend, hstage⟩
    simpa [hbackend] using (finished r hr hbackend hstage).symm

theorem World.Accounted.review {b : Backend} {request : ReviewRequest} (accounted : w.Accounted) :
    (w.review b request).Accounted := by
  unfold World.review
  split
  · exact accounted.frame rfl rfl fun _ half => half
  · next decision _ =>
    refine ⟨⟨?_, fun r hr => ?_⟩, fun d half => ?_⟩
    · rw [List.map_append, List.map_singleton, List.nodup_append]
      refine ⟨accounted.ticketed.unique, List.nodup_singleton _, fun t ht t' ht' => ?_⟩
      obtain ⟨r, hr, rfl⟩ := List.mem_map.mp ht
      rw [List.mem_singleton.mp ht']
      exact (accounted.ticketed.issued r hr).ne
    · rcases List.mem_append.mp hr with hr | hr
      · exact (accounted.ticketed.issued r hr).trans (Nat.lt_succ_self _)
      · rw [List.mem_singleton.mp hr]
        exact Nat.lt_succ_self _
    · obtain ⟨r, hr, hmatch⟩ := accounted.between d half
      exact ⟨r, List.mem_append_left _ hr, hmatch⟩

theorem World.Ticketed.ne (ticketed : w.Ticketed) {r' : OpenReview} (hr : r ∈ w.reviews)
    (hr' : r' ∈ w.reviews) (hne : r' ≠ r) : r'.ticket ≠ r.ticket :=
  fun h => hne (List.inj_on_of_nodup_map ticketed.unique hr' hr h)

theorem World.Accounted.answer (accounted : w.Accounted) (hr : r ∈ w.reviews) (status : ℕ)
    {s : Store} {decided : List Decided}
    (other : ∀ d, ({ w with store := s, decided } : World).HalfDecided d → w.HalfDecided d ∧
      (r.backend = .dotNet → r.stage = .inserted → r.request.documentId ≠ d)) :
    (({ w with store := s, decided } : World).answer r status).Accounted where
  ticketed :=
    ⟨(List.filter_sublist.map _).nodup accounted.ticketed.unique,
      fun r' hr' => accounted.ticketed.issued r' (mem_delete.mp hr').1⟩
  between d half := by
    obtain ⟨hhalf, hother⟩ := other d half
    obtain ⟨r', hr', hd, hbackend, hstage⟩ := accounted.between d hhalf
    refine ⟨r', mem_delete.mpr ⟨hr', accounted.ticketed.ne hr hr' ?_⟩, hd, hbackend, hstage⟩
    rintro rfl
    exact hother hbackend hstage hd

theorem not_halfDecided_of_row (decision : Decision) {e : Edit}
    (edited : w'.store = e.apply d w.store)
    (hpatch : ∀ row, (e.row row).reviewStatus = decision.reviewStatus) : ¬ w'.HalfDecided d := by
  rintro ⟨row', hrow', hpending, -⟩
  rw [edited, Edit.document?_apply] at hrow'
  obtain ⟨row, -, rfl⟩ := Option.map_eq_some_iff.mp hrow'
  rw [hpatch] at hpending
  exact Decision.reviewStatus_ne_pendingSme decision hpending

theorem World.Accounted.commitReview {fault : Option Exc} (accounted : w.Accounted)
    (hr : r ∈ w.reviews) (backend : r.backend = .fastApi) : (w.commitReview r fault).Accounted := by
  have hnever (d : Uuid) : r.backend = .dotNet → r.stage = .inserted → r.request.documentId ≠ d :=
    fun h => by rw [backend] at h; cases h
  unfold World.commitReview
  split
  · next s' hattempt =>
    obtain ⟨fits, rfl⟩ := decideCommit_ok (attempt_ok hattempt)
    refine accounted.answer hr 200 fun d half => ⟨?_, hnever d⟩
    by_cases hd : d = r.request.documentId
    · subst hd
      exact absurd half (not_halfDecided_of_row r.decision rfl fun _ => rfl)
    · exact half.of_sameRows (.edit fits hd)
  · exact accounted.answer hr 500 fun d half => ⟨half, hnever d⟩

theorem World.Accounted.updateReview (accounted : w.Accounted) (hr : r ∈ w.reviews) :
    (w.updateReview r none).Accounted := by
  have hupdate : w.updateReview r none = ({ w with
      store := (Edit.ofPatch { reviewStatus := some r.decision.reviewStatus } w.store.now).apply
        r.request.documentId w.store } : World).answer r 200 := by
    simp only [World.updateReview, attempt, DotNet.updateDecision, Store.updateDocument_eq_apply]
  rw [hupdate]
  refine World.Accounted.answer accounted hr 200 fun d half => ?_
  by_cases hd : d = r.request.documentId
  · subst hd
    exact absurd half (not_halfDecided_of_row r.decision rfl fun _ => rfl)
  · exact ⟨half.of_sameRows (.edit (.ofPatch _ _ _ _) hd), fun _ _ => Ne.symm hd⟩

/-- The ticket of a request stays with it when it has written its approval. -/
theorem tickets_update {reviews : List OpenReview} {stage : ReviewStage} :
    (update OpenReview.ticket r.ticket (fun _ => { r with stage }) reviews).map OpenReview.ticket =
      reviews.map OpenReview.ticket := by
  rw [update, List.map_map]
  apply List.map_congr_left
  intro r' _
  by_cases h : r'.ticket = r.ticket
  · simp [h]
  · simp [h]

theorem World.Accounted.insertReview {fault : Option Exc} (accounted : w.Accounted)
    (hr : r ∈ w.reviews) (backend : r.backend = .dotNet) (stage : r.stage = .passed) :
    (w.insertReview r fault).Accounted := by
  unfold World.insertReview
  split
  · next s' hattempt =>
    obtain ⟨fits, rfl⟩ := DotNet.insertDecision_ok (attempt_ok hattempt)
    refine ⟨⟨?_, fun r' hr' => ?_⟩, fun d half => ?_⟩
    · exact tickets_update.symm ▸ accounted.ticketed.unique
    · rcases mem_update_const hr' with rfl | ⟨hr', -⟩
      · exact accounted.ticketed.issued r hr
      · exact accounted.ticketed.issued r' hr'
    · by_cases hd : d = r.request.documentId
      · exact ⟨_, mem_update_const_self hr rfl, hd.symm, backend, rfl⟩
      · obtain ⟨r', hr', habout, hbackend, hstage⟩ :=
          accounted.between d (half.of_sameRows (.edit fits hd))
        refine ⟨r', mem_update_const_ne hr' ?_, habout, hbackend, hstage⟩
        refine accounted.ticketed.ne hr hr' ?_
        rintro rfl
        rw [stage] at hstage
        cases hstage
  · refine accounted.answer hr 500 fun d half => ⟨half, fun _ hstage => ?_⟩
    rw [stage] at hstage
    cases hstage

theorem World.Accounted.write {ticket : ℕ} {fault : Option Exc} (accounted : w.Accounted)
    (guard : FinishesDecisions w (.write ticket fault)) (h : w.write ticket fault = some w') :
    w'.Accounted := by
  obtain ⟨r, hlookup, rfl⟩ := Option.map_eq_some_iff.mp h
  obtain ⟨hr, -⟩ := lookup_some hlookup
  cases hbackend : r.backend with
  | fastApi => exact accounted.commitReview hr hbackend
  | dotNet =>
    cases hstage : r.stage with
    | passed => exact accounted.insertReview hr hbackend hstage
    | inserted =>
      obtain rfl := guard r hlookup hbackend hstage
      exact accounted.updateReview hr

theorem World.Accounted.step (accounted : w.Accounted) (sound : w.Sound)
    (guard : FinishesDecisions w a) (h : w.step a = some w') : w'.Accounted := by
  cases a with
  | tick elapsed =>
    obtain rfl := Option.some.inj h
    exact accounted.frame rfl rfl fun _ half => half
  | administer users topics smeDesignations =>
    obtain rfl := Option.some.inj h
    exact accounted.frame rfl rfl fun _ half => half
  | uploadFastApi user documentId upload request calls =>
    exact accounted.accept sound (fun _ => uploadDocument_ok) h
  | uploadDotNet user documentId saveFile request calls =>
    exact accounted.accept sound (fun _ hup => (DotNet.uploadDocument_ok hup).1) h
  | advance documentId fault => exact accounted.advance sound h
  | restartFastApi settings =>
    obtain rfl := Option.some.inj h
    exact (accounted.kill fun _ _ _ _ => by decide).frame rfl rfl fun _ half => half
  | restartDotNet options =>
    obtain rfl := Option.some.inj h
    refine (accounted.kill fun r hr hbackend hstage => ?_).frame rfl rfl fun _ half => half
    rw [guard r hr hbackend] at hstage
    cases hstage
  | sweep b =>
    cases b <;>
    · obtain rfl := Option.some.inj h
      exact accounted.frame rfl rfl fun _ half => half.of_sweep
  | delete documentId =>
    obtain rfl := Option.some.inj h
    exact accounted.frame rfl rfl fun _ half => half.of_delete
  | review b request =>
    obtain rfl := Option.some.inj h
    exact accounted.review
  | write ticket fault => exact accounted.write guard h
  | askFastApi service userId scope question providerName
  | askDotNet service userId scope question providerName =>
    obtain rfl := Option.some.inj h
    refine accounted.frame ?_ ?_ fun _ half => ?_
    · unfold World.compare; split <;> rfl
    · unfold World.compare; split <;> rfl
    · unfold World.compare at half; split at half <;> exact half

theorem World.Initial.accounted {w : World} (initial : w.Initial) : w.Accounted where
  ticketed := ⟨by simp [initial.reviews], by simp [initial.reviews]⟩
  between := by
    rintro d ⟨row, hrow, -⟩
    simp [Store.document?, initial.documents, lookup] at hrow

/-- In a run whose .NET decisions all finish, an approval of a pending document is one of a request
that is about to write the review status. -/
theorem World.between_of_halfDecided {w₀ : World} (initial : w₀.Initial)
    (run : Run World.step FinishesDecisions w₀ w) (half : w.HalfDecided d) : w.BetweenWrites d := by
  have hboth : w.Sound ∧ w.Accounted := by
    refine run.invariant (I := fun w => w.Sound ∧ w.Accounted)
      ⟨initial.sound, initial.accounted⟩ ?_
    rintro w a w' ⟨sound, accounted⟩ guard taken
    exact ⟨sound.step taken, accounted.step sound guard taken⟩
  exact hboth.2.between d half

/-- No pending document has an approval. -/
def World.Undivided (w : World) : Prop := ∀ d, ¬ w.HalfDecided d

/-- The INSERT of a .NET decision on a document that is still pending fails. -/
def RefusesInserts (w : World) : Action → Prop
  | .write ticket fault =>
    ∀ r ∈ lookup OpenReview.ticket ticket w.reviews, r.backend = .dotNet → r.stage = .passed →
      ∀ row ∈ w.store.document? r.request.documentId, row.reviewStatus = .pendingSme →
        fault ≠ none
  | _ => True

instance (w : World) (a : Action) : Decidable (RefusesInserts w a) := by
  cases a <;> unfold RefusesInserts <;> infer_instance

theorem World.HalfDecided.of_commitReview {fault : Option Exc}
    (half : (w.commitReview r fault).HalfDecided d) : w.HalfDecided d := by
  unfold World.commitReview at half
  split at half
  · next s' hattempt =>
    obtain ⟨fits, rfl⟩ := decideCommit_ok (attempt_ok hattempt)
    by_cases hd : d = r.request.documentId
    · subst hd
      exact absurd half (not_halfDecided_of_row r.decision rfl fun _ => rfl)
    · exact half.of_sameRows (.edit fits hd)
  · exact half

theorem World.HalfDecided.of_updateReview {fault : Option Exc}
    (half : (w.updateReview r fault).HalfDecided d) : w.HalfDecided d := by
  unfold World.updateReview at half
  split at half
  · next s' hattempt =>
    obtain rfl := DotNet.updateDecision_ok (attempt_ok hattempt)
    by_cases hd : d = r.request.documentId
    · subst hd
      exact absurd half (not_halfDecided_of_row r.decision rfl fun _ => rfl)
    · exact half.of_sameRows (.edit (.ofPatch _ _ _ _) hd)
  · exact half

/-- An INSERT that goes through halves the decision on its own document, while that is pending. -/
theorem World.HalfDecided.of_insertReview {fault : Option Exc}
    (half : (w.insertReview r fault).HalfDecided d) :
    w.HalfDecided d ∨ fault = none ∧ ∃ row, w.store.document? r.request.documentId = some row ∧
      row.reviewStatus = .pendingSme := by
  unfold World.insertReview at half
  split at half
  · next s' hattempt =>
    obtain ⟨fits, rfl⟩ := DotNet.insertDecision_ok (attempt_ok hattempt)
    by_cases hd : d = r.request.documentId
    · subst hd
      obtain ⟨edited, hedited, hpending, -⟩ := half
      change (Edit.apply _ _ w.store).document? _ = some edited at hedited
      rw [Edit.document?_apply] at hedited
      obtain ⟨row, hrow, rfl⟩ := Option.map_eq_some_iff.mp hedited
      refine .inr ⟨?_, row, hrow, hpending⟩
      cases fault with
      | none => rfl
      | some exc => cases hattempt
    · exact .inl (half.of_sameRows (.edit fits hd))
  · exact .inl half

theorem World.halfDecided_insertReview {row : Document}
    (hrow : w.store.document? r.request.documentId = some row)
    (pending : row.reviewStatus = .pendingSme) :
    (w.insertReview r none).HalfDecided r.request.documentId := by
  obtain ⟨s', hinsert⟩ := DotNet.insertDecision_exists r.decision
    (show (w.store.document? r.request.documentId).isSome by rw [hrow]; rfl)
  obtain ⟨fits, rfl⟩ := DotNet.insertDecision_ok hinsert
  simp only [World.insertReview, attempt_none hinsert]
  refine ⟨row, ?_, pending, ?_⟩
  · change (Edit.apply _ _ w.store).document? _ = some row
    rw [Edit.document?_apply, hrow]
    rfl
  · change (Edit.apply _ _ w.store).approvalsOf _ ≠ []
    rw [Edit.approvalsOf_apply fits]
    simp [approvalEdit]

theorem World.Undivided.write {ticket : ℕ} {fault : Option Exc} (undivided : w.Undivided)
    (guard : RefusesInserts w (.write ticket fault)) (h : w.write ticket fault = some w') :
    w'.Undivided := by
  obtain ⟨r, hlookup, rfl⟩ := Option.map_eq_some_iff.mp h
  intro d half
  cases hbackend : r.backend with
  | fastApi =>
    rw [hbackend] at half
    exact undivided d half.of_commitReview
  | dotNet =>
    cases hstage : r.stage with
    | passed =>
      rw [hbackend, hstage] at half
      rcases half.of_insertReview with half | ⟨hnone, row, hrow, hpending⟩
      · exact undivided d half
      · exact guard r hlookup hbackend hstage row hrow hpending hnone
    | inserted =>
      rw [hbackend, hstage] at half
      exact undivided d half.of_updateReview

theorem World.Undivided.step (undivided : w.Undivided) (sound : w.Sound)
    (guard : RefusesInserts w a) (h : w.step a = some w') : w'.Undivided := by
  cases a with
  | write ticket fault => exact undivided.write guard h
  | advance documentId fault => exact fun d half => undivided d (half.of_advance sound h)
  | uploadFastApi user documentId upload request calls =>
    exact fun d half => undivided d (half.of_accept (fun _ => uploadDocument_ok) sound h)
  | uploadDotNet user documentId saveFile request calls =>
    exact fun d half =>
      undivided d (half.of_accept (fun _ hup => (DotNet.uploadDocument_ok hup).1) sound h)
  | tick | administer | restartFastApi | restartDotNet =>
    obtain rfl := Option.some.inj h
    exact undivided
  | sweep b =>
    cases b <;>
    · obtain rfl := Option.some.inj h
      exact fun d half => undivided d half.of_sweep
  | delete documentId =>
    obtain rfl := Option.some.inj h
    exact fun d half => undivided d half.of_delete
  | review b request =>
    obtain rfl := Option.some.inj h
    unfold World.review
    split <;> exact undivided
  | askFastApi | askDotNet =>
    obtain rfl := Option.some.inj h
    unfold World.compare
    split <;> exact undivided

/-- A step keeps every document whole exactly when it is no INSERT on a pending document that goes
through. -/
theorem World.undivided_step_iff (sound : w.Sound) (undivided : w.Undivided) (a : Action) :
    RefusesInserts w a ↔ ∀ w', w.step a = some w' → w'.Undivided := by
  refine ⟨fun guard w' h => undivided.step sound guard h, fun kept => ?_⟩
  cases a with
  | write ticket fault =>
    rintro r hlookup hbackend hstage row hrow hpending rfl
    have hwrite : w.step (.write ticket none) = some (w.insertReview r none) := by
      simp only [World.step, World.write, Option.mem_def.mp hlookup, Option.map_some, hbackend,
        hstage]
    exact kept _ hwrite _ (halfDecided_insertReview hrow hpending)
  | _ => trivial

theorem World.Initial.undivided {w : World} (initial : w.Initial) : w.Undivided := by
  rintro d ⟨row, hrow, -⟩
  simp [Store.document?, initial.documents, lookup] at hrow

/-- A decision takes effect entirely or not at all exactly when its request is not cut off. In a
run, no state has an approval of a pending document exactly when no .NET decision on a pending
document gets past its INSERT. -/
theorem DotNet.decision_atomic_iff (request : ReviewRequest) (s : Store)
    (faults : List (Option Exc)) (w₀ : World) (actions : List Action) :
    (AllOrNothing request s (Program.perform faults (DotNet.decide request) s).2 ↔
      ¬ CutOff request s faults) ∧
    (w₀.Initial → (Throughout World.step World.Undivided w₀ actions ↔
      Obeys World.step RefusesInserts w₀ actions)) := by
  refine ⟨decide_atomic_iff request s faults, fun initial => ?_⟩
  exact throughout_iff (fun _ _ _ sound taken => World.Sound.step sound taken)
    (fun _ a sound undivided => World.undivided_step_iff sound undivided a)
    initial.sound initial.undivided

namespace Agency

def approveHalfway : List Action :=
  ingestReport ++ [.review .dotNet (approve sme), .write 0 none]

def connectionLost : Exc := { message := "connection lost" }

def reportReview (w : World) : Option ReviewStatus × ℕ :=
  ((w.store.document? 7).map (·.reviewStatus), (w.store.approvalsOf 7).length)

theorem halfDecided_report {w : World} (h : reportReview w = (some .pendingSme, 1)) :
    w.HalfDecided 7 := by
  obtain ⟨hstatus, hlength⟩ := Prod.mk.inj h
  obtain ⟨row, hrow, hpending⟩ := Option.map_eq_some_iff.mp hstatus
  exact ⟨row, hrow, hpending, fun hnil => by simp [hnil] at hlength⟩

theorem approve_passes :
    ∃ decision, DotNet.decideChecks reported.store (approve sme) = .ok decision :=
  ⟨.approved, rfl⟩

/-- The INSERT of the .NET backend fails, and the SME approves the report with FastAPI. -/
def approveElsewhere : List Action :=
  ingestReport ++ [.review .dotNet (approve sme), .write 0 (some connectionLost),
    .review .fastApi (approve sme), .write 1 none]

end Agency

/-- With both statements done the decision is whole, and so it is with neither. -/
theorem DotNet.decision_atomic_iff_report :
    AllOrNothing (Agency.approve Agency.sme) Agency.reported.store
      (Program.perform [none, none, none] (DotNet.decide (Agency.approve Agency.sme))
        Agency.reported.store).2 ∧
    Throughout World.step World.Undivided Agency.start Agency.approveElsewhere ∧
    (Transition.execute World.step Agency.start Agency.approveElsewhere).map Agency.reportReview =
      some (some .approved, 1) := by
  have hiff := DotNet.decision_atomic_iff (Agency.approve Agency.sme) Agency.reported.store
    [none, none, none] Agency.start Agency.approveElsewhere
  exact ⟨hiff.1.mpr fun h => h.2.2.2 rfl, (hiff.2 Agency.start_initial).mpr (by decide), by decide⟩

/-- The UPDATE fails. The request is over, its approval is on record, and the report waits for its
review. -/
theorem DotNet.decision_by_halves :
    ¬ AllOrNothing (Agency.approve Agency.sme) Agency.reported.store
      (Program.perform [none, none, some Agency.connectionLost]
        (DotNet.decide (Agency.approve Agency.sme)) Agency.reported.store).2 ∧
    ∃ w, Run World.step anyAction Agency.start w ∧ w.reviews = [] ∧ w.HalfDecided 7 := by
  refine ⟨fun h => (decide_atomic_iff _ _ _).mp h
    ⟨Agency.approve_passes, rfl, rfl, by simp⟩, ?_⟩
  have hreview : (Transition.execute World.step Agency.start (Agency.approveHalfway ++
      [.write 0 (some Agency.connectionLost)])).map (fun w =>
        (w.reviews.length, Agency.reportReview w)) = some (0, some .pendingSme, 1) := by decide
  obtain ⟨w, hw, hvalues⟩ := Option.map_eq_some_iff.mp hreview
  obtain ⟨hreviews, hhalf⟩ := Prod.mk.inj hvalues
  exact ⟨w, Agency.reaches hw, List.length_eq_zero_iff.mp hreviews,
    Agency.halfDecided_report hhalf⟩

end Docsage
