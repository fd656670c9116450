import Docsage.System.Review

/-! # One decision for each document

Between the read of a review request and its last write the row is not locked.
As long as nobody else who may decide reads the document in that window, one
request is accepted and the others are refused; two windows that overlap are
both accepted.
-/

namespace Docsage
open Effects Relational Transition

/-- Somebody entitled to decide on the document, who does not own it. -/
def MayDecide (s : Store) (userId : Uuid) (doc : Document) : Prop :=
  Authorized s userId doc ∧ doc.ownerId ≠ userId

/-- Requests of users to decide on the document, and their writes. -/
def ReviewsOf (d : Uuid) (w : World) : Action → Prop
  | .tick _ => True
  | .review _ request =>
    request.documentId = d ∧ (Decision.ofString? request.decision).isSome ∧
      (w.store.user? request.userId).isSome
  | .write _ fault => fault = none
  | _ => False

/-- While a request still has to write, nobody who may decide reads the document. -/
def OneAtATime (d : Uuid) (w : World) (a : Action) : Prop :=
  ReviewsOf d w a ∧ ∀ b request, a = .review b request → w.reviews ≠ [] →
    ∀ row, w.store.document? d = some row → ¬ MayDecide w.store request.userId row

/-- Turned down by the checks, for want of authority or because the document is not pending. -/
def ReviewAnswer.Refused (answer : ReviewAnswer) : Prop := answer.status = 403 ∨ answer.status = 409

/-- At most one request was accepted and left an approval, the others were refused, and the
document has the status that the approval says once no request is open. -/
def OneDecision (d : Uuid) (w₀ w : World) : Prop :=
  (∃ given, w.answers = w₀.answers ++ given ∧ (given.filter (·.status = 200)).length ≤ 1 ∧
    ∀ answer ∈ given, answer.status = 200 ∨ answer.Refused) ∧
  ∃ added, w.store.approvalsOf d = w₀.store.approvalsOf d ++ added ∧ added.length ≤ 1 ∧
    (w.reviews = [] → ∃ row, w.store.document? d = some row ∧
      ∀ approval ∈ added, row.reviewStatus = approval.decision.reviewStatus)

/-- What the requests left so far: so many accepted, these approvals, this status. -/
structure Progress (d : Uuid) (w₀ w : World) (accepted : ℕ) (added : List Approval)
    (status : ReviewStatus) : Prop where
  answers : ∃ given, w.answers = w₀.answers ++ given ∧
    (given.filter (·.status = 200)).length = accepted ∧
    ∀ answer ∈ given, answer.status = 200 ∨ answer.Refused
  approvals : w.store.approvalsOf d = w₀.store.approvalsOf d ++ added
  row : ∃ row, w.store.document? d = some row ∧ row.reviewStatus = status

/-- The document waits for a reviewer, one request is about to write, one has written its
approval but not the status, or it is decided. -/
inductive Reviewing (d : Uuid) (w₀ w : World) : Prop where
  | waiting (progress : Progress d w₀ w 0 [] .pendingSme) (idle : w.reviews = [])
  | deciding (r : OpenReview) (progress : Progress d w₀ w 0 [] .pendingSme)
      (alone : w.reviews = [r]) (about : r.request.documentId = d) (stage : r.stage = .passed)
  | recorded (r : OpenReview) (approval : Approval)
      (progress : Progress d w₀ w 0 [approval] .pendingSme) (alone : w.reviews = [r])
      (about : r.request.documentId = d) (backend : r.backend = .dotNet)
      (stage : r.stage = .inserted) (same : approval.decision = r.decision)
  | decided (approval : Approval)
      (progress : Progress d w₀ w 1 [approval] approval.decision.reviewStatus)
      (idle : w.reviews = [])

variable {d : Uuid} {w₀ w w' : World} {accepted : ℕ} {added : List Approval}
  {status : ReviewStatus} {r : OpenReview}

theorem Reviewing.oneDecision (h : Reviewing d w₀ w) : OneDecision d w₀ w := by
  have hanswers {n : ℕ} {added : List Approval} {status : ReviewStatus} (hn : n ≤ 1)
      (progress : Progress d w₀ w n added status) :
      ∃ given, w.answers = w₀.answers ++ given ∧ (given.filter (·.status = 200)).length ≤ 1 ∧
        ∀ answer ∈ given, answer.status = 200 ∨ answer.Refused := by
    obtain ⟨given, hgiven, hcount, hall⟩ := progress.answers
    exact ⟨given, hgiven, hcount.trans_le hn, hall⟩
  cases h with
  | waiting progress idle =>
    obtain ⟨row, hrow, -⟩ := progress.row
    exact ⟨hanswers zero_le_one progress, [], progress.approvals, zero_le_one,
      fun _ => ⟨row, hrow, nofun⟩⟩
  | deciding r progress alone about stage =>
    exact ⟨hanswers zero_le_one progress, [], progress.approvals, zero_le_one,
      fun h => by simp [alone] at h⟩
  | recorded r approval progress alone about backend stage same =>
    exact ⟨hanswers zero_le_one progress, [approval], progress.approvals, le_rfl,
      fun h => by simp [alone] at h⟩
  | decided approval progress idle =>
    obtain ⟨row, hrow, hstatus⟩ := progress.row
    refine ⟨hanswers le_rfl progress, [approval], progress.approvals, le_rfl,
      fun _ => ⟨row, hrow, ?_⟩⟩
    intro a ha
    rw [List.mem_singleton.mp ha]
    exact hstatus

theorem Progress.frame (progress : Progress d w₀ w accepted added status)
    (answers : w'.answers = w.answers) (same : SameRows d w.store w'.store) :
    Progress d w₀ w' accepted added status where
  answers := by rw [answers]; exact progress.answers
  approvals := same.approvals.trans progress.approvals
  row := by rw [same.row]; exact progress.row

theorem Progress.refuse (progress : Progress d w₀ w accepted added status) {answer : ReviewAnswer}
    (refused : answer.Refused) :
    Progress d w₀ { w with answers := w.answers ++ [answer] } accepted added status where
  answers := by
    obtain ⟨given, hgiven, hcount, hall⟩ := progress.answers
    have hne : answer.status ≠ 200 := by rcases refused with h | h <;> rw [h] <;> decide
    refine ⟨given ++ [answer], by simp [hgiven], by simp [List.filter_append, hcount, hne],
      fun a ha => ?_⟩
    rcases List.mem_append.mp ha with ha | ha
    · exact hall a ha
    · rw [List.mem_singleton.mp ha]
      exact .inr refused
  approvals := progress.approvals
  row := progress.row

theorem Progress.accept (progress : Progress d w₀ w accepted added status) :
    Progress d w₀ (w.answer r 200) (accepted + 1) added status where
  answers := by
    obtain ⟨given, hgiven, hcount, hall⟩ := progress.answers
    refine ⟨given ++ [⟨r.request, 200⟩], by simp [World.answer, hgiven],
      by simp [List.filter_append, hcount], fun a ha => ?_⟩
    rcases List.mem_append.mp ha with ha | ha
    · exact hall a ha
    · rw [List.mem_singleton.mp ha]
      exact .inl rfl
  approvals := progress.approvals
  row := progress.row

/-- An edit of the document: its approvals are added, its row has the new status. -/
theorem Progress.edit (progress : Progress d w₀ w accepted added status) {e : Edit}
    (fits : e.Fits d w.store) (answers : w'.answers = w.answers)
    (store : w'.store = e.apply d w.store) {added' : List Approval}
    (approvals : added ++ e.approvals = added') {status' : ReviewStatus}
    (hstatus : ∀ row : Document, row.reviewStatus = status → (e.row row).reviewStatus = status') :
    Progress d w₀ w' accepted added' status' where
  answers := by rw [answers]; exact progress.answers
  approvals := by
    rw [store, Edit.approvalsOf_apply fits, progress.approvals, List.append_assoc, approvals]
  row := by
    obtain ⟨row, hrow, hs⟩ := progress.row
    exact ⟨e.row row, by rw [store, Edit.document?_apply, hrow]; rfl, hstatus row hs⟩

/-- A request on an existing document, by a user and with a proper decision, can only be turned
down with 403 or 409. -/
theorem refused_of_checks {b : Backend} {s : Store} {request : ReviewRequest} {error : HttpError}
    {doc : Document} (hdoc : s.document? request.documentId = some doc)
    (hdecision : (Decision.ofString? request.decision).isSome)
    (huser : (s.user? request.userId).isSome) (h : World.checks b s request = .error error) :
    ReviewAnswer.Refused ⟨request, error.status⟩ := by
  obtain ⟨decision, hdecision⟩ := Option.isSome_iff_exists.mp hdecision
  obtain ⟨user, huser⟩ := Option.isSome_iff_exists.mp huser
  cases b with
  | fastApi =>
    simp only [World.checks, decideChecks, orRefuse_bind_some huser, orRefuse_bind_some hdecision,
      orRefuse_bind_some hdoc] at h
    rcases refuse_bind_error h with h | h
    · exact .inl h
    rcases refuse_bind_error h with h | h
    · exact .inl h
    rcases refuse_bind_error h with h | h
    · exact .inr h
    · cases h
  | dotNet =>
    simp only [World.checks, DotNet.decideChecks, orRefuse_bind_some huser,
      orRefuse_bind_some hdecision, orRefuse_bind_some hdoc] at h
    rcases refuse_bind_error h with h | h
    · exact .inr h
    rcases refuse_bind_error h with h | h
    · exact .inl h
    rcases refuse_bind_error h with h | h
    · exact .inl h
    · cases h

theorem Passed.mayDecide {s : Store} {request : ReviewRequest} {decision : Decision}
    {doc : Document} (passed : Passed s request decision doc) : MayDecide s request.userId doc :=
  ⟨passed.authorized, passed.notOwner⟩

theorem Reviewing.review (reviewing : Reviewing d w₀ w) {b : Backend} {request : ReviewRequest}
    (guard : OneAtATime d w (.review b request)) : Reviewing d w₀ (w.review b request) := by
  obtain ⟨⟨habout, hdecision, huser⟩, halone⟩ := guard
  unfold World.review
  split
  · next error hchecks =>
    have hrefused {doc : Document} (hdoc : w.store.document? d = some doc) :
        ReviewAnswer.Refused ⟨request, error.status⟩ :=
      refused_of_checks (by rw [habout]; exact hdoc) hdecision huser hchecks
    cases reviewing with
    | waiting progress idle =>
      obtain ⟨row, hrow, -⟩ := progress.row
      exact .waiting (progress.refuse (hrefused hrow)) idle
    | deciding r progress alone about stage =>
      obtain ⟨row, hrow, -⟩ := progress.row
      exact .deciding r (progress.refuse (hrefused hrow)) alone about stage
    | recorded r approval progress alone about backend stage same =>
      obtain ⟨row, hrow, -⟩ := progress.row
      exact .recorded r approval (progress.refuse (hrefused hrow)) alone about backend stage same
    | decided approval progress idle =>
      obtain ⟨row, hrow, -⟩ := progress.row
      exact .decided approval (progress.refuse (hrefused hrow)) idle
  · next decision hchecks =>
    obtain ⟨doc, passed⟩ := checks_ok hchecks
    have hdoc : w.store.document? d = some doc := habout ▸ passed.found
    have hidle : w.reviews = [] := by
      by_contra hne
      exact halone b request rfl hne doc hdoc passed.mayDecide
    cases reviewing with
    | waiting progress idle =>
      exact .deciding _ (progress.frame rfl ⟨rfl, rfl, rfl⟩) (by rw [hidle]; rfl) habout rfl
    | deciding r progress alone about stage =>
      rw [hidle] at alone
      cases alone
    | recorded r approval progress alone about backend stage same =>
      rw [hidle] at alone
      cases alone
    | decided approval progress idle =>
      -- the status is a decision already, so the checks cannot have passed
      obtain ⟨row, hrow, hstatus⟩ := progress.row
      obtain rfl := Option.some.inj (hrow.symm.trans hdoc)
      exact absurd (hstatus.symm.trans passed.pending) (by simp)

theorem Reviewing.write (reviewing : Reviewing d w₀ w) {ticket : ℕ}
    (h : w.write ticket none = some w') : Reviewing d w₀ w' := by
  obtain ⟨r', hlookup, rfl⟩ := Option.map_eq_some_iff.mp h
  obtain ⟨hr, -⟩ := lookup_some hlookup
  cases reviewing with
  | waiting progress idle | decided approval progress idle =>
    rw [idle] at hr
    cases hr
  | deciding r progress alone about stage =>
    rw [alone] at hr
    obtain rfl := List.mem_singleton.mp hr
    subst about
    obtain ⟨row, hrow, -⟩ := progress.row
    have hexists : (w.store.document? r'.request.documentId).isSome := by rw [hrow]; rfl
    cases hbackend : r'.backend with
    | fastApi =>
      obtain ⟨s', hs'⟩ := decideCommit_exists r'.snapshot.now r'.decision hexists
      obtain ⟨fits, hs⟩ := decideCommit_ok hs'
      simp only [World.commitReview, attempt_none hs']
      refine .decided (decideApproval r'.snapshot.now r'.request r'.decision)
        (Progress.accept ?_) ?_
      · exact progress.edit fits (by rfl) (by exact hs) rfl fun _ _ => rfl
      · simp [World.answer, World.record, alone, delete]
    | dotNet =>
      obtain ⟨s', hs'⟩ := DotNet.insertDecision_exists r'.decision hexists
      obtain ⟨fits, hs⟩ := DotNet.insertDecision_ok hs'
      simp only [stage, World.insertReview, attempt_none hs']
      refine .recorded { r' with stage := .inserted }
        (DotNet.decideApproval w.store.now r'.request r'.decision) ?_ ?_ rfl hbackend rfl rfl
      · exact progress.edit fits (by rfl) (by exact hs) rfl fun _ h => h
      · simp [World.record, alone, update]
  | recorded r approval progress alone about backend stage same =>
    rw [alone] at hr
    obtain rfl := List.mem_singleton.mp hr
    subst about
    have hs : DotNet.updateDecision r'.request r'.decision w.store = .ok
        (w.store.updateDocument r'.request.documentId
          { reviewStatus := some r'.decision.reviewStatus }) := rfl
    simp only [backend, stage, World.updateReview, attempt_none hs]
    refine .decided approval (Progress.accept ?_) ?_
    · exact progress.edit (.ofPatch _ _ _ _) (by rfl) (by exact DotNet.updateDecision_ok hs) rfl
        fun _ _ => by rw [same]; rfl
    · simp [World.answer, alone, delete]

theorem Reviewing.step (reviewing : Reviewing d w₀ w) {a : Action} (guard : OneAtATime d w a)
    (h : w.step a = some w') : Reviewing d w₀ w' := by
  cases a with
  | tick elapsed =>
    obtain rfl := Option.some.inj h
    cases reviewing with
    | waiting progress idle => exact .waiting (progress.frame rfl ⟨rfl, rfl, rfl⟩) idle
    | deciding r progress alone about stage =>
      exact .deciding r (progress.frame rfl ⟨rfl, rfl, rfl⟩) alone about stage
    | recorded r approval progress alone about backend stage same =>
      exact .recorded r approval (progress.frame rfl ⟨rfl, rfl, rfl⟩) alone about backend stage same
    | decided approval progress idle =>
      exact .decided approval (progress.frame rfl ⟨rfl, rfl, rfl⟩) idle
  | review b request =>
    obtain rfl := Option.some.inj h
    exact reviewing.review guard
  | write ticket fault =>
    obtain rfl : fault = none := guard.1
    exact reviewing.write h
  | administer | uploadFastApi | uploadDotNet | advance | restartFastApi | restartDotNet | sweep
  | delete | askFastApi | askDotNet => exact guard.1.elim

/-- One decision per document, as long as the requests that may decide read one at a time. -/
theorem one_decision {row : Document} (run : Run World.step (OneAtATime d) w₀ w)
    (hrow : w₀.store.document? d = some row) (pending : row.reviewStatus = .pendingSme)
    (idle : w₀.reviews = []) : OneDecision d w₀ w := by
  have hstart : Reviewing d w₀ w₀ :=
    .waiting ⟨⟨[], by simp, rfl, nofun⟩, by simp, row, hrow, pending⟩ idle
  exact (run.invariant hstart fun _ _ _ reviewing guard taken =>
    reviewing.step guard taken).oneDecision

namespace Agency

def reviewInTurn : List Action :=
  [.review .fastApi (approve sme), .write 0 none, .review .dotNet (reject secondAdmin)]

/-- Both read the pending report before either of them writes. -/
def reviewAtOnce : List Action :=
  [.review .fastApi (approve sme), .review .fastApi (reject secondAdmin), .write 0 none,
    .write 1 none]

end Agency

theorem one_decision_report : ∃ w, execute World.step Agency.reported Agency.reviewInTurn = some w ∧
    w.answers.map (·.status) = [200, 409] ∧ OneDecision 7 Agency.reported w := by
  have hanswers : ((execute World.step Agency.reported Agency.reviewInTurn).map fun w =>
      w.answers.map (·.status)) = some [200, 409] := by decide
  obtain ⟨w, hw, hstatus⟩ := Option.map_eq_some_iff.mp hanswers
  have hpending : (Agency.reported.store.document? 7).map (·.reviewStatus) = some .pendingSme := by
    decide
  obtain ⟨row, hrow, pending⟩ := Option.map_eq_some_iff.mp hpending
  have obeys : Obeys World.step (OneAtATime 7) Agency.reported Agency.reviewInTurn := by
    refine .cons ⟨⟨rfl, rfl, rfl⟩, fun _ _ _ h => absurd rfl h⟩ rfl ?_
    refine .cons ⟨rfl, fun _ _ h => by cases h⟩ rfl ?_
    exact ⟨⟨⟨rfl, rfl, rfl⟩, fun _ _ _ h => absurd rfl h⟩, fun _ _ => trivial⟩
  exact ⟨w, hw, hstatus, one_decision (.of_execute obeys hw) hrow pending rfl⟩

theorem two_decisions :
    ¬ ∀ (d : Uuid) (w₀ w : World) (row : Document), Run World.step (ReviewsOf d) w₀ w →
      w₀.store.document? d = some row → row.reviewStatus = .pendingSme → w₀.reviews = [] →
      OneDecision d w₀ w := by
  intro h
  have hanswers : ((execute World.step Agency.reported Agency.reviewAtOnce).map fun w =>
      w.answers.map (·.status)) = some [200, 200] := by decide
  obtain ⟨w, hw, hstatus⟩ := Option.map_eq_some_iff.mp hanswers
  have hpending : (Agency.reported.store.document? 7).map (·.reviewStatus) = some .pendingSme := by
    decide
  obtain ⟨row, hrow, pending⟩ := Option.map_eq_some_iff.mp hpending
  have obeys : Obeys World.step (ReviewsOf 7) Agency.reported Agency.reviewAtOnce := by
    refine .cons ⟨rfl, rfl, rfl⟩ rfl ?_
    exact ⟨⟨rfl, rfl, rfl⟩, fun _ _ => ⟨rfl, fun _ _ => ⟨rfl, fun _ _ => trivial⟩⟩⟩
  obtain ⟨⟨given, hgiven, hone, -⟩, -⟩ := h 7 _ w row (.of_execute obeys hw) hrow pending rfl
  have hcount : (w.answers.map (·.status)).filter (· = 200) = [200, 200] := by rw [hstatus]; rfl
  have hnone : Agency.reported.answers = [] := rfl
  rw [hgiven, hnone, List.nil_append, List.filter_map] at hcount
  have htwo := congrArg List.length hcount
  rw [List.length_map] at htwo
  exact absurd (htwo.symm.trans_le hone) (by decide)

end Docsage
