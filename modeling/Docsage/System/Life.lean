import Docsage.Ingestion.Lifecycle
import Docsage.System.World

/-! # The life of one document

What the system does, seen from one document: it is uploaded once, edited by its
run while that is live, swept, reviewed and deleted. The machine says which
events are lawful in which state and proves what holds of every lawful life; the
world of the two backends is shown to refine it elsewhere.
-/

namespace Docsage
open Transition

structure Life where
  issued : Bool := false
  row : Option Document := none
  chunks : List Chunk := []
  approvals : List Approval := []
  phase : Phase := .over
  scope : Scope
  space : ProviderName
  /-- The review requests let through so far, finished ones included. -/
  passed : List OpenReview := []
  decided : List Decided := []

inductive LifeEvent where
  | create (row : Document) (space : ProviderName)
  | run (edit : Edit) (next : Phase)
  | halt
  | sweep (now : Timestamp)
  | delete
  | pass (review : OpenReview)
  | commit (review : OpenReview)
  | insert (review : OpenReview) (now : Timestamp)
  | update (review : OpenReview) (now : Timestamp)

def Document.decide (decision : Decision) (now : Timestamp) (row : Document) : Document :=
  DocumentPatch.apply { reviewStatus := some decision.reviewStatus } now row

namespace Life

def addApproval (l : Life) (r : OpenReview) (approval : Approval) : Life :=
  { l with
    approvals := l.approvals ++ [approval]
    decided := ⟨r.request, r.snapshot, approval⟩ :: l.decided }

def step (l : Life) : LifeEvent → Option Life
  | .create row space =>
    some { issued := true, row := some row, scope := row.scope, space, phase := .live }
  | .run e next =>
    some { l with row := l.row.map e.row, chunks := l.chunks ++ e.chunks, phase := next }
  | .halt => some { l with phase := .over }
  | .sweep now => some { l with row := l.row.map (Document.sweep now) }
  | .delete => some { l with row := none, chunks := [], approvals := [] }
  | .pass r => some { l with passed := r :: l.passed }
  | .commit r =>
    some ({ l with row := l.row.map (Document.decide r.decision r.snapshot.now) }.addApproval r
      (decideApproval r.snapshot.now r.request r.decision))
  | .insert r now =>
    some ({ l with passed := { r with stage := .inserted } :: l.passed }.addApproval r
      (DotNet.decideApproval now r.request r.decision))
  | .update r now => some { l with row := l.row.map (Document.decide r.decision now) }

/-- Which events can happen. -/
def Lawful (l : Life) : LifeEvent → Prop
  | .create row _ => l.issued = false ∧ Uploaded row.id row
  | .run e next =>
    l.phase = .live ∧ (e.chunks ≠ [] → l.row.isSome) ∧
      (next = .live ∧ Advances e ∨ next = .over ∧ (Fails e ∨ Publishes l.scope l.space e))
  | .pass r =>
    r.stage = .passed ∧ ∃ doc, l.row = some doc ∧ Passed r.snapshot r.request r.decision doc
  | .commit r => r ∈ l.passed ∧ l.row.isSome
  | .insert r _ => r ∈ l.passed ∧ l.row.isSome
  | .update r _ => r ∈ l.passed ∧ r.stage = .inserted
  | _ => True

/-- The reviewer named by an entry of the history might decide on the document. -/
structure Backed (x : Decided) (row : Document) : Prop where
  reviewer : x.approval.reviewerId = x.request.userId
  notOwner : x.approval.reviewerId ≠ row.ownerId
  authorized : Authorized x.snapshot x.approval.reviewerId row

structure Unready (l : Life) (row : Document) : Prop where
  reviewStatus : row.reviewStatus = .notRequired
  chunkCount : row.chunkCount = 0
  chunks : l.chunks = []
  approvals : l.approvals = []
  passed : l.passed = []

/-- A document that is ready: fully indexed, and under review if it is a library document. -/
structure Ready (l : Life) (row : Document) : Prop where
  complete : Complete l.space l.chunks
  chunkCount : row.chunkCount = l.chunks.length
  personal : row.scope = .personal →
    row.reviewStatus = .notRequired ∧ l.approvals = [] ∧ l.passed = []
  decided : row.reviewStatus ≠ .notRequired → row.reviewStatus ≠ .pendingSme →
    ∃ x ∈ l.decided, x.approval ∈ l.approvals ∧
      x.approval.decision.reviewStatus = row.reviewStatus ∧ Backed x row

structure GoodRow (l : Life) (row : Document) : Prop where
  scope : row.scope = l.scope
  topic : row.scope = .library → row.topicId.isSome
  live : l.phase = .live → row.status ≠ .ready
  unready : row.status ≠ .ready → Unready l row
  ready : row.status = .ready → Ready l row
  passed : ∀ r ∈ l.passed, row.ownerId ≠ r.request.userId ∧
    Authorized r.snapshot r.request.userId row
  inserted : ∀ r ∈ l.passed, r.stage = .inserted →
    ∃ x ∈ l.decided, x.approval ∈ l.approvals ∧ x.approval.decision = r.decision ∧ Backed x row

/-- The invariant: a document not yet uploaded has no rows, and neither has a deleted one. -/
structure Good (l : Life) : Prop where
  unissued : l.issued = false → l.row = none
  absent : l.row = none → l.chunks = [] ∧ l.approvals = []
  present : ∀ row, l.row = some row → GoodRow l row

variable {l l' : Life} {row row' : Document} {r : OpenReview}

/-! Authority over a document depends on its fixed columns only. -/

theorem authorized_of_fixed {s : Store} {userId : Uuid} (h : row'.fixed = row.fixed)
    (authorized : Authorized s userId row) : Authorized s userId row' := by
  have htopic : row'.topicId = row.topicId := congrArg FixedColumns.topicId h
  simpa only [Authorized, htopic] using authorized

theorem Backed.of_fixed {x : Decided} (h : row'.fixed = row.fixed) (backed : Backed x row) :
    Backed x row' := by
  have howner : row'.ownerId = row.ownerId := congrArg FixedColumns.ownerId h
  exact ⟨backed.reviewer, howner ▸ backed.notOwner, authorized_of_fixed h backed.authorized⟩

/-- An event that leaves the row alone, and with it what the invariant says about it. -/
theorem GoodRow.frame (good : GoodRow l row) (live : l'.phase = .live → l.phase = .live)
    (scope : l'.scope = l.scope) (space : l'.space = l.space) (chunks : l'.chunks = l.chunks)
    (approvals : l'.approvals = l.approvals) (passed : l'.passed = l.passed)
    (decided : l'.decided = l.decided) : GoodRow l' row := by
  refine ⟨good.scope.trans scope.symm, good.topic, fun h => good.live (live h), fun h => ?_,
    fun h => ?_, by rw [passed]; exact good.passed,
    by rw [passed, decided, approvals]; exact good.inserted⟩
  · have hunready := good.unready h
    exact ⟨hunready.reviewStatus, hunready.chunkCount, chunks.trans hunready.chunks,
      approvals.trans hunready.approvals, passed.trans hunready.passed⟩
  · have hready := good.ready h
    refine ⟨by rw [space, chunks]; exact hready.complete, by rw [chunks]; exact hready.chunkCount,
      ?_, ?_⟩
    · rw [approvals, passed]
      exact hready.personal
    · rw [decided, approvals]
      exact hready.decided

/-- Only a ready library document ever let a review request through. -/
theorem GoodRow.reviewed (good : GoodRow l row) (hr : r ∈ l.passed) :
    row.status = .ready ∧ row.scope = .library := by
  have hready : row.status = .ready := by
    by_contra h
    have hnil := (good.unready h).passed
    rw [hnil] at hr
    cases hr
  refine ⟨hready, ?_⟩
  cases hscope : row.scope with
  | library => rfl
  | personal =>
    have hnil := ((good.ready hready).personal hscope).2.2
    rw [hnil] at hr
    cases hr

theorem GoodRow.backed (good : GoodRow l row) (hr : r ∈ l.passed) (approval : Approval)
    (h : approval.reviewerId = r.request.userId) :
    Backed ⟨r.request, r.snapshot, approval⟩ row := by
  obtain ⟨howner, hauth⟩ := good.passed r hr
  exact ⟨h, h ▸ howner.symm, h ▸ hauth⟩

theorem GoodRow.run {e : Edit} {next : Phase} (good : GoodRow l row) (hlive : l.phase = .live)
    (kind : next = .live ∧ Advances e ∨ next = .over ∧ (Fails e ∨ Publishes l.scope l.space e)) :
    GoodRow { l with row := l.row.map e.row, chunks := l.chunks ++ e.chunks, phase := next }
      (e.row row) := by
  have hunready := good.unready (good.live hlive)
  have hnone : ∀ r, r ∉ l.passed := by simp [hunready.passed]
  have hscope : (e.row row).scope = l.scope := (e.row_scope row).trans good.scope
  have htopic : (e.row row).scope = .library → (e.row row).topicId.isSome := by
    rw [e.row_scope, e.row_topicId]
    exact good.topic
  rcases kind with ⟨rfl, adv⟩ | ⟨rfl, fails | pub⟩
  · have hstatus : (e.row row).status ≠ .ready := by
      rcases adv.status row with h | h
      · rw [h]; exact good.live hlive
      · intro h'
        rw [h'] at h
        cases h
    refine ⟨hscope, htopic, fun _ => hstatus, fun _ => ?_, fun h => absurd h hstatus,
      fun r hr => absurd hr (hnone r), fun r hr => absurd hr (hnone r)⟩
    exact ⟨(adv.reviewStatus row).trans hunready.reviewStatus,
      (adv.chunkCount row).trans hunready.chunkCount, by simp [hunready.chunks, adv.chunks],
      hunready.approvals, hunready.passed⟩
  · have hstatus : (e.row row).status ≠ .ready := by rw [fails.status]; decide
    refine ⟨hscope, htopic, nofun, fun _ => ?_, fun h => absurd h hstatus,
      fun r hr => absurd hr (hnone r), fun r hr => absurd hr (hnone r)⟩
    exact ⟨(fails.reviewStatus row).trans hunready.reviewStatus,
      (fails.chunkCount row).trans hunready.chunkCount, by simp [hunready.chunks, fails.chunks],
      hunready.approvals, hunready.passed⟩
  · have hreview := pub.reviewStatus row good.scope hunready.reviewStatus
    refine ⟨hscope, htopic, nofun, fun h => absurd (pub.status row) h, fun _ => ?_,
      fun r hr => absurd hr (hnone r), fun r hr => absurd hr (hnone r)⟩
    have hchunks : l.chunks ++ e.chunks = e.chunks := by rw [hunready.chunks, List.nil_append]
    refine ⟨by simpa only [hchunks] using pub.complete,
      by simpa only [hchunks] using pub.chunkCount row hunready.chunkCount, fun h => ?_,
      fun hreq hpending => ?_⟩
    · refine ⟨?_, hunready.approvals, hunready.passed⟩
      rw [hreview, if_neg (by rw [← hscope, h]; decide)]
    · rw [hreview] at hreq hpending
      split at hreq <;> simp_all

theorem GoodRow.sweep (good : GoodRow l row) (now : Timestamp) :
    GoodRow { l with row := l.row.map (Document.sweep now) } (row.sweep now) := by
  unfold Document.sweep
  split
  · next hstale =>
    have hne : row.status ≠ .ready := by
      intro h
      simp [Document.stale, h, Status.transient] at hstale
    have hunready := good.unready hne
    refine ⟨good.scope, good.topic, fun _ => nofun, fun _ => ?_, nofun, ?_, ?_⟩
    · exact ⟨hunready.reviewStatus, hunready.chunkCount, hunready.chunks, hunready.approvals,
        hunready.passed⟩
    all_goals simp [hunready.passed]
  · exact good.frame id rfl rfl rfl rfl rfl rfl

/-- A request is let through: the document is a pending library document. -/
theorem GoodRow.pass (good : GoodRow l row) (fresh : r.stage = .passed)
    (passed : Passed r.snapshot r.request r.decision row) :
    GoodRow { l with passed := r :: l.passed } row := by
  have hready : row.status = .ready := by
    by_contra h
    exact absurd ((good.unready h).reviewStatus.symm.trans passed.pending) (by decide)
  refine ⟨good.scope, good.topic, good.live, fun h => absurd hready h, fun h => ?_, ?_, ?_⟩
  · refine ⟨(good.ready h).complete, (good.ready h).chunkCount, fun hp => ?_,
      (good.ready h).decided⟩
    exact absurd (((good.ready h).personal hp).1.symm.trans passed.pending) (by decide)
  · intro r' hr'
    rcases List.mem_cons.mp hr' with rfl | hr'
    · exact ⟨passed.notOwner, passed.authorized⟩
    · exact good.passed r' hr'
  · intro r' hr' hstage
    rcases List.mem_cons.mp hr' with rfl | hr'
    · rw [fresh] at hstage
      cases hstage
    · exact good.inserted r' hr' hstage

theorem GoodRow.addApproval (good : GoodRow l row) (hr : r ∈ l.passed) (approval : Approval) :
    GoodRow (l.addApproval r approval) row := by
  obtain ⟨hready, hlibrary⟩ := good.reviewed hr
  refine ⟨good.scope, good.topic, good.live, fun h => absurd hready h, fun h => ?_, good.passed, ?_⟩
  · refine ⟨(good.ready h).complete, (good.ready h).chunkCount, fun hp => ?_, fun h₁ h₂ => ?_⟩
    · rw [hp] at hlibrary
      cases hlibrary
    · obtain ⟨x, hx, ha, hrest⟩ := (good.ready h).decided h₁ h₂
      exact ⟨x, List.mem_cons_of_mem _ hx, List.mem_append_left _ ha, hrest⟩
  · intro r' hr' hstage
    obtain ⟨x, hx, ha, hrest⟩ := good.inserted r' hr' hstage
    exact ⟨x, List.mem_cons_of_mem _ hx, List.mem_append_left _ ha, hrest⟩

theorem GoodRow.entry (good : GoodRow l row) (hr : r ∈ l.passed) {approval : Approval}
    (hreviewer : approval.reviewerId = r.request.userId)
    (hdecision : approval.decision = r.decision) :
    ∃ x ∈ (l.addApproval r approval).decided, x.approval ∈ (l.addApproval r approval).approvals ∧
      x.approval.decision = r.decision ∧ Backed x row :=
  ⟨⟨r.request, r.snapshot, approval⟩, List.mem_cons_self,
    List.mem_append_right _ (List.mem_singleton_self _), hdecision,
    good.backed hr approval hreviewer⟩

/-- The review status of a ready library document becomes a decision that an approval backs. -/
theorem GoodRow.decide (good : GoodRow l row) (hr : r ∈ l.passed) (now : Timestamp)
    (backed : ∃ x ∈ l.decided, x.approval ∈ l.approvals ∧ x.approval.decision = r.decision ∧
      Backed x row) :
    GoodRow { l with row := l.row.map (Document.decide r.decision now) }
      (row.decide r.decision now) := by
  obtain ⟨hready, hlibrary⟩ := good.reviewed hr
  have hfixed : (row.decide r.decision now).fixed = row.fixed := rfl
  refine ⟨good.scope, good.topic, good.live, fun h => absurd hready h, fun _ => ?_, ?_, ?_⟩
  · refine ⟨(good.ready hready).complete, (good.ready hready).chunkCount, fun hp => ?_,
      fun _ _ => ?_⟩
    · exact absurd (hlibrary.symm.trans hp) (by decide)
    · obtain ⟨x, hx, ha, hd, hb⟩ := backed
      exact ⟨x, hx, ha, congrArg Decision.reviewStatus hd, hb.of_fixed hfixed⟩
  · intro r' hr'
    obtain ⟨howner, hauth⟩ := good.passed r' hr'
    exact ⟨howner, authorized_of_fixed hfixed hauth⟩
  · intro r' hr' hstage
    obtain ⟨x, hx, ha, hd, hb⟩ := good.inserted r' hr' hstage
    exact ⟨x, hx, ha, hd, hb.of_fixed hfixed⟩

theorem GoodRow.create {row : Document} (uploaded : Uploaded row.id row) (space : ProviderName) :
    GoodRow { issued := true, row := some row, scope := row.scope, space, phase := .live } row := by
  refine ⟨rfl, uploaded.topic, fun _ => ?_, fun _ => ?_, fun h => ?_, nofun, nofun⟩
  · rw [uploaded.status]; decide
  · exact ⟨uploaded.reviewStatus, uploaded.chunkCount, rfl, rfl, rfl⟩
  · rw [uploaded.status] at h
    cases h

/-- Every lawful event keeps the invariant. -/
theorem Good.step (good : Good l) {ev : LifeEvent} (lawful : Lawful l ev)
    (h : l.step ev = some l') : Good l' := by
  cases ev with
  | create row space =>
    obtain rfl := Option.some.inj h
    exact ⟨nofun, nofun, fun _ hrow => by
      obtain rfl := Option.some.inj hrow
      exact GoodRow.create lawful.2 space⟩
  | run e next =>
    obtain rfl := Option.some.inj h
    obtain ⟨hlive, hexists, kind⟩ := lawful
    refine ⟨fun hi => by simp [good.unissued hi], fun hn => ?_, fun row' hrow' => ?_⟩
    · have hnone : l.row = none := by simpa using hn
      have hchunks : e.chunks = [] := by
        by_contra hne
        simpa [hnone] using hexists hne
      simp [good.absent hnone, hchunks]
    · obtain ⟨row, hrow, rfl⟩ := Option.map_eq_some_iff.mp hrow'
      exact (good.present row hrow).run hlive kind
  | halt =>
    obtain rfl := Option.some.inj h
    refine ⟨good.unissued, good.absent, fun row hrow => ?_⟩
    exact (good.present row hrow).frame nofun rfl rfl rfl rfl rfl rfl
  | sweep now =>
    obtain rfl := Option.some.inj h
    refine ⟨fun hi => by simp [good.unissued hi], fun hn => good.absent (by simpa using hn),
      fun row' hrow' => ?_⟩
    obtain ⟨row, hrow, rfl⟩ := Option.map_eq_some_iff.mp hrow'
    exact (good.present row hrow).sweep now
  | delete =>
    obtain rfl := Option.some.inj h
    exact ⟨fun _ => rfl, fun _ => ⟨rfl, rfl⟩, fun _ hrow => by cases hrow⟩
  | pass r =>
    obtain rfl := Option.some.inj h
    obtain ⟨hfresh, doc, hdoc, hpassed⟩ := lawful
    refine ⟨good.unissued, good.absent, fun row hrow => ?_⟩
    obtain rfl := Option.some.inj (hdoc.symm.trans hrow)
    exact (good.present doc hrow).pass hfresh hpassed
  | commit r =>
    obtain rfl := Option.some.inj h
    obtain ⟨hr, hsome⟩ := lawful
    obtain ⟨row, hrow⟩ := Option.isSome_iff_exists.mp hsome
    refine ⟨fun hi => by simp [addApproval, good.unissued hi], fun hn => ?_, fun row' hrow' => ?_⟩
    · simp [addApproval, hrow] at hn
    · obtain ⟨row₀, hrow₀, rfl⟩ := Option.map_eq_some_iff.mp hrow'
      have g := (good.present row₀ hrow₀).addApproval hr
        (decideApproval r.snapshot.now r.request r.decision)
      exact g.decide hr r.snapshot.now ((good.present row₀ hrow₀).entry hr rfl rfl)
  | insert r now =>
    obtain rfl := Option.some.inj h
    obtain ⟨hr, hsome⟩ := lawful
    obtain ⟨row, hrow⟩ := Option.isSome_iff_exists.mp hsome
    refine ⟨good.unissued, fun hn => ?_, fun row' hrow' => ?_⟩
    · rw [show _ = l.row from rfl, hrow] at hn
      cases hn
    · have g₀ := good.present row' hrow'
      have g := g₀.addApproval hr (DotNet.decideApproval now r.request r.decision)
      obtain ⟨hready, hlibrary⟩ := g₀.reviewed hr
      refine ⟨g.scope, g.topic, g.live, fun h => absurd hready h, fun h => ?_, fun r' hr' => ?_,
        fun r' hr' hstage => ?_⟩
      · exact ⟨(g.ready h).complete, (g.ready h).chunkCount,
          fun hp => absurd (hlibrary.symm.trans hp) (by decide), (g.ready h).decided⟩
      · rcases List.mem_cons.mp hr' with rfl | hr'
        · exact g.passed r hr
        · exact g.passed r' hr'
      · rcases List.mem_cons.mp hr' with rfl | hr'
        · exact g₀.entry hr rfl rfl
        · exact g.inserted r' hr' hstage
  | update r now =>
    obtain rfl := Option.some.inj h
    obtain ⟨hr, hstage⟩ := lawful
    refine ⟨fun hi => by simp [good.unissued hi], fun hn => good.absent (by simpa using hn),
      fun row' hrow' => ?_⟩
    obtain ⟨row, hrow, rfl⟩ := Option.map_eq_some_iff.mp hrow'
    have g := good.present row hrow
    exact g.decide hr now (g.inserted r hr hstage)

theorem Good.run (run : Run Life.step Lawful l l') (good : Good l) : Good l' :=
  run.invariant good fun _ _ _ good lawful taken => good.step lawful taken

end Life
end Docsage
