import Docsage.Api.DotNetDocuments
import Docsage.Api.Reviews

/-! # Hidden documents in the .NET backend

A document that no list shows to a user and that the user may not open is not
observable through the lists, the details, the review queue and the retrieval. It is
through `DELETE` and the review endpoint, which look the row up before anything else
and refuse it differently from a document that does not exist.
-/

namespace Docsage.DotNet
open Effects Ranking Relational Transition

/-- `POST /api/reviews/{id}`, its two statements in one piece. -/
def postReview (s : Store) (user : User) (id : Uuid) (decision note : String) :
    Except HttpError (DocumentSummary × Store) := do
  let request : ReviewRequest := ⟨user.id, id, decision, note⟩
  let decision ← decideChecks s request
  match insertDecision request decision s >>= updateDecision request decision with
  | .error _ => .error internalError
  | .ok s' =>
    let row ← orRefuse (findSummary s' user id <|> findSummary s user id) documentNotFound
    return (toSummary row, s')

structure Serving where
  order : TimeOrder
  index : VectorIndex
  options : DocsageOptions
  service : EmbeddingService

inductive UserRequest where
  | listDocuments (scope : Option String)
  | documentDetail (id : Uuid)
  | deleteDocument (id : Uuid)
  | pendingReviews
  | decide (id : Uuid) (decision note : String)
  | retrieve (question : Text.Utf16)

inductive UserResponse where
  | documents (items : Except HttpError (List DocumentSummary))
  | detail (detail : Except HttpError DocumentDetail)
  | deleted (result : Except HttpError Unit)
  | decided (result : Except HttpError DocumentSummary)
  | retrieved (chunks : Except Exc (List RetrievedChunk))

/-- The requests of one user, chat in the personal scope. -/
def serve (env : Serving) (user : User) (s : Store) : UserRequest → UserResponse × Store
  | .listDocuments scope => (.documents (listDocuments env.order s user scope), s)
  | .documentDetail id => (.detail (documentDetail env.order s user id), s)
  | .deleteDocument id =>
    match deleteDocument s user id with
    | .ok s' => (.deleted (.ok ()), s')
    | .error error => (.deleted (.error error), s)
  | .pendingReviews => (.documents (pendingReviews env.order s user), s)
  | .decide id decision note =>
    match postReview s user id decision note with
    | .ok (summary, s') => (.decided (.ok summary), s')
    | .error error => (.decided (.error error), s)
  | .retrieve question =>
    (.retrieved (retrieveAsync env.index env.options env.service s user.id .personal question), s)

/-- No list shows the document, if it is there, and the user may not open it. -/
def Unseen (order : TimeOrder) (user : User) (d : Uuid) (s : Store) : Prop :=
  ∀ doc ∈ s.documents, doc.id = d →
    ¬ Shown order s user (selectBase s user doc) ∧ canView user (selectBase s user doc) = false

structure Blind (order : TimeOrder) (user : User) (d : Uuid) (s s' : Store) : Prop where
  differ : DifferIn d s s'
  unseen : Unseen order user d s
  unseen' : Unseen order user d s'

variable {order : TimeOrder} {user : User} {d : Uuid} {s s' : Store} {doc : Document}

theorem shown_of_listFilter {scope : Scope} (h : listFilter s user scope doc = true)
    (hdoc : doc ∈ s.documents) : Shown order s user (selectBase s user doc) := by
  refine .inl ⟨if scope = .library then "library" else "personal",
    mem_listAsync.mpr ⟨doc, hdoc, ?_, rfl⟩⟩
  cases scope <;> exact h

theorem shown_of_pendingFilter (h : pendingFilter s user doc = true) (hdoc : doc ∈ s.documents) :
    Shown order s user (selectBase s user doc) :=
  .inr (mem_pendingReviewsAsync.mpr ⟨doc, hdoc, h, rfl⟩)

theorem canView_of_candidatePredicate (h : candidatePredicate user.id .personal doc = true) :
    canView user (selectBase s user doc) = true := by
  rw [canView_selectBase]
  have h : doc.ownerId = user.id ∧ doc.scope = .personal ∨
      doc.scope = .library ∧ doc.reviewStatus = .approved := by simpa [candidatePredicate] using h
  rcases h with ⟨howner, -⟩ | ⟨hscope, happroved⟩
  · exact .inl howner
  · exact .inr (.inr ⟨hscope, .inl happroved⟩)

theorem Unseen.listFilter (unseen : Unseen order user d s) (scope : Scope) :
    ∀ doc ∈ s.documents, doc.id = d → listFilter s user scope doc = false := by
  intro doc hdoc hid
  by_contra h
  exact (unseen doc hdoc hid).1 (shown_of_listFilter (by simpa using h) hdoc)

theorem Unseen.pendingFilter (unseen : Unseen order user d s) :
    ∀ doc ∈ s.documents, doc.id = d → pendingFilter s user doc = false := by
  intro doc hdoc hid
  by_contra h
  exact (unseen doc hdoc hid).1 (shown_of_pendingFilter (by simpa using h) hdoc)

theorem Unseen.candidatePredicate (unseen : Unseen order user d s) :
    ∀ doc ∈ s.documents, doc.id = d → candidatePredicate user.id .personal doc = false := by
  intro doc hdoc hid
  by_contra h
  have hview := canView_of_candidatePredicate (s := s) (by simpa using h)
  rw [(unseen doc hdoc hid).2] at hview
  cases hview

/-- An unseen document is answered like one that does not exist. -/
theorem Unseen.documentDetail (unseen : Unseen order user d s) (order' : TimeOrder) :
    documentDetail order' s user d = .error documentNotFound := by
  unfold DotNet.documentDetail
  cases hdoc : s.document? d with
  | none => simp [findSummary, hdoc, orRefuse, bind, Except.bind]
  | some doc =>
    have hview := (unseen doc (Store.document?_mem hdoc) (Store.document?_id hdoc)).2
    have hfound : findSummary s user d = some (selectBase s user doc) := by
      rw [findSummary, hdoc]
      rfl
    rw [orRefuse_bind_some hfound, refuse_bind_of hview]

section Joined

variable (differ : DifferIn d s s')
include differ

theorem designated_of_differ : designated s' = designated s := by
  funext userId topicId
  rw [designated, differ.smeDesignations]
  rfl

theorem selectBase_of_differ : selectBase s' user = selectBase s user := by
  funext doc
  simp only [selectBase, pendingReviewer, differ.topic?, differ.user?, designated_of_differ differ]

theorem findSummary_of_differ {j : Uuid} (hj : j ≠ d) :
    findSummary s' user j = findSummary s user j := by
  rw [findSummary, findSummary, differ.document?_ne hj, selectBase_of_differ differ]

end Joined

namespace Blind

variable (blind : Blind order user d s s')
include blind

theorem listDocuments_eq (order' : TimeOrder) (scope : Option String) :
    listDocuments order' s' user scope = listDocuments order' s user scope := by
  have hfilter : listFilter s' user = listFilter s user := by
    funext scope doc
    cases scope <;> simp only [listFilter, blind.differ.smeDesignations]
  have hrows (scope : Scope) :
      listedDocuments order' s' user scope = listedDocuments order' s user scope := by
    rw [listedDocuments, listedDocuments, hfilter,
      ← blind.differ.documents.filter (blind.unseen.listFilter scope)
        (hfilter ▸ blind.unseen'.listFilter scope)]
  simp only [listDocuments, listAsync, hrows, selectBase_of_differ blind.differ]

theorem pendingReviews_eq (order' : TimeOrder) :
    pendingReviews order' s' user = pendingReviews order' s user := by
  have hfilter : pendingFilter s' user = pendingFilter s user := by
    funext doc
    rw [pendingFilter, pendingFilter, designated_of_differ blind.differ]
  have hsme : isSme s' user = isSme s user := by
    rw [isSme, isSme, blind.differ.smeDesignations]
  have hrows : pendingReviewsAsync order' s' user = pendingReviewsAsync order' s user := by
    rw [pendingReviewsAsync, pendingReviewsAsync, hfilter, selectBase_of_differ blind.differ,
      ← blind.differ.documents.filter blind.unseen.pendingFilter
        (hfilter ▸ blind.unseen'.pendingFilter)]
  rw [pendingReviews, pendingReviews, hsme, hrows]

theorem documentDetail_eq (order' : TimeOrder) (j : Uuid) :
    documentDetail order' s' user j = documentDetail order' s user j := by
  by_cases hj : j = d
  · subst hj
    rw [blind.unseen.documentDetail, blind.unseen'.documentDetail]
  · have happrovals : approvalsAsync order' s' j = approvalsAsync order' s j := by
      have hrows : s'.approvalsOf j = s.approvalsOf j :=
        (blind.differ.approvals.select_ne hj).symm
      rw [approvalsAsync, approvalsAsync, hrows, blind.differ.user?]
    have henrichments : s'.enrichmentsOf j = s.enrichmentsOf j :=
      (blind.differ.enrichments.select_ne hj).symm
    rw [documentDetail, documentDetail, findSummary_of_differ blind.differ hj, happrovals,
      henrichments]

theorem retrieveAsync_eq (index : VectorIndex) (options : DocsageOptions)
    (service : EmbeddingService) (question : Text.Utf16) :
    retrieveAsync index options service s' user.id .personal question =
      retrieveAsync index options service s user.id .personal question := by
  have hproviders := blind.differ.visibleProviders_eq blind.unseen.candidatePredicate
    blind.unseen'.candidatePredicate
  have hcandidates := blind.differ.candidates_eq blind.unseen.candidatePredicate
    blind.unseen'.candidatePredicate
  simp only [retrieveAsync, providerNames, retrieveSpace, nearestCandidates, hproviders,
    hcandidates]

end Blind

/-- A step of another document's, or of nobody's: the unseen one stays unseen. -/
theorem Unseen.of_same (unseen : Unseen order user d s) (users : s'.users = s.users)
    (topics : s'.topics = s.topics) (smeDesignations : s'.smeDesignations = s.smeDesignations)
    (documents : ∀ doc ∈ s'.documents, doc.id = d → doc ∈ s.documents) :
    Unseen order user d s' := by
  have htopic : s'.topic? = s.topic? := by
    funext id
    rw [Store.topic?, topics]
    rfl
  have hrow : selectBase s' user = selectBase s user := by
    funext doc
    simp only [selectBase, pendingReviewer, designated, htopic, Store.user?, users,
      smeDesignations]
  have hsme : isSme s' user = isSme s user := by rw [isSme, isSme, smeDesignations]
  intro doc hdoc hid
  obtain ⟨hshown, hview⟩ := unseen doc (documents doc hdoc hid) hid
  rw [hrow]
  refine ⟨fun h => hshown ?_, hview⟩
  obtain ⟨doc', -, hsame, hcond⟩ := shown_iff.mp h
  rw [hrow] at hsame
  obtain rfl : doc' = doc := congrArg DocumentListRow.document hsame
  exact shown_iff.mpr ⟨doc', documents doc' hdoc hid, rfl, hsme ▸ hcond⟩

def decisionStore (s : Store) (request : ReviewRequest) (decision : Decision) : Store :=
  { s with
    approvals := s.approvals ++ [decideApproval s.now request decision]
    documents := update Document.id request.documentId
      (DocumentPatch.apply { reviewStatus := some decision.reviewStatus } s.now) s.documents }

theorem decision_writes {request : ReviewRequest} (decision : Decision)
    (h : (s.document? request.documentId).isSome) :
    (insertDecision request decision s >>= updateDecision request decision) =
      .ok (decisionStore s request decision) := by
  have hinsert : insertDecision request decision s =
      .ok { s with approvals := s.approvals ++ [decideApproval s.now request decision] } := if_pos h
  rw [hinsert]
  rfl

theorem decideChecks_of_differ (differ : DifferIn d s s') {request : ReviewRequest}
    (h : request.documentId ≠ d) : decideChecks s' request = decideChecks s request := by
  have hreviewer : pendingReviewer s' = pendingReviewer s := by
    funext user doc
    rw [pendingReviewer, pendingReviewer, designated_of_differ differ]
  rw [decideChecks, decideChecks, differ.user?, differ.document?_ne h, hreviewer]

namespace Blind

variable (blind : Blind order user d s s')
include blind

theorem delete (j : Uuid) :
    Blind order user d (s.deleteDocument j) (s'.deleteDocument j) where
  differ := blind.differ.delete j
  unseen := blind.unseen.of_same rfl rfl rfl fun _ hdoc _ => (mem_delete.mp hdoc).1
  unseen' := blind.unseen'.of_same rfl rfl rfl fun _ hdoc _ => (mem_delete.mp hdoc).1

theorem decision {request : ReviewRequest} (decision : Decision) (hj : request.documentId ≠ d) :
    Blind order user d (decisionStore s request decision) (decisionStore s' request decision) := by
  have hkept {t : Store} : ∀ doc ∈ (decisionStore t request decision).documents, doc.id = d →
      doc ∈ t.documents := by
    intro doc hdoc hid
    obtain ⟨doc', hdoc', rfl⟩ := mem_update.mp hdoc
    by_cases hsame : doc'.id = request.documentId
    · rw [if_pos hsame] at hid
      exact absurd (hsame.symm.trans hid) hj
    · rwa [if_neg hsame]
  have hnow := blind.differ.now
  refine ⟨⟨hnow, blind.differ.users, blind.differ.sessions, blind.differ.topics,
    blind.differ.smeDesignations, ?_, blind.differ.chunks, blind.differ.enrichments, ?_⟩,
    blind.unseen.of_same rfl rfl rfl hkept, blind.unseen'.of_same rfl rfl rfl hkept⟩
  · simp only [decisionStore, hnow]
    refine blind.differ.documents.update ?_ _
    exact fun _ => rfl
  · simp only [decisionStore, hnow]
    exact blind.differ.approvals.append _

end Blind

def AwaitsReview (d : Uuid) (s : Store) : Prop :=
  ∃ doc, s.document? d = some doc ∧ doc.scope = .library ∧ doc.reviewStatus = .pendingSme

/-- The request is answered alike on two stores that differ in an unseen document. -/
def AnswersAlike (d : Uuid) (s s' : Store) : UserRequest → Prop
  | .deleteDocument id => id = d → ((s.document? d).isSome ↔ (s'.document? d).isSome)
  | .decide id decision _ => id = d → (Decision.ofString? decision).isSome →
    ((s.document? d).isSome ↔ (s'.document? d).isSome) ∧ (AwaitsReview d s ↔ AwaitsReview d s')
  | _ => True

/-- A deletion of an unseen document is refused, differently if there is none. -/
theorem Unseen.deleteDocument (unseen : Unseen order user d s) :
    deleteDocument s user d = .error
      (if (s.document? d).isSome then ⟨403, "Only the owner or an admin can delete a document"⟩
      else documentNotFound) := by
  unfold DotNet.deleteDocument findSummary
  cases hdoc : s.document? d with
  | none => rfl
  | some doc =>
    have hview := (unseen doc (Store.document?_mem hdoc) (Store.document?_id hdoc)).2
    have hdelete : canDelete user (selectBase s user doc) = false := by
      have hview : ¬ (doc.ownerId = user.id ∨ user.isAdmin = true ∨ _) := fun h => by
        rw [canView_selectBase.mpr h] at hview
        cases hview
      simp only [not_or] at hview
      simp [canDelete, selectBase, hview.1, hview.2.1]
    rw [Option.map_some, orRefuse_bind_some rfl, refuse_bind_of hdelete]
    rfl

def refusal : Option Document → HttpError
  | none => documentNotFound
  | some doc =>
    if doc.scope ≠ .library ∨ doc.reviewStatus ≠ .pendingSme then
      ⟨409, "Document is not pending SME review"⟩
    else ⟨403, "Only an SME of this topic or an admin can review"⟩

theorem Unseen.decideChecks (unseen : Unseen order user d s) (known : s.user? user.id = some user)
    {decision note : String} (valid : (Decision.ofString? decision).isSome) :
    DotNet.decideChecks s ⟨user.id, d, decision, note⟩ = .error (refusal (s.document? d)) := by
  obtain ⟨decision', hdecision⟩ := Option.isSome_iff_exists.mp valid
  rw [DotNet.decideChecks, orRefuse_bind_some known, orRefuse_bind_some hdecision]
  cases hdoc : s.document? d with
  | none => rfl
  | some doc =>
    rw [orRefuse_bind_some rfl, refusal]
    by_cases hpending : doc.scope ≠ .library ∨ doc.reviewStatus ≠ .pendingSme
    · rw [refuse_bind_of hpending, if_pos hpending]
    · rw [refuse_bind_of_not hpending, if_neg hpending]
      have hview := (unseen doc (Store.document?_mem hdoc) (Store.document?_id hdoc)).2
      rw [← Bool.not_eq_true, canView_selectBase] at hview
      rw [not_or, not_not, not_not] at hpending
      have hadmin : ¬ user.isAdmin := fun h => hview (.inr (.inl h))
      refine refuse_bind_of ⟨hadmin, fun hreviewer => hview (.inr (.inr ⟨hpending.1, .inr ?_⟩))⟩
      exact ⟨hpending.2, by simpa [pendingReviewer, hpending.2, hadmin] using hreviewer⟩

/-- The refusal tells whether there is a document, and whether it waits for a review. -/
theorem refusal_eq_iff {row row' : Option Document} : refusal row = refusal row' ↔
    (row.isSome ↔ row'.isSome) ∧
      ((∃ doc, row = some doc ∧ doc.scope = .library ∧ doc.reviewStatus = .pendingSme) ↔
        ∃ doc, row' = some doc ∧ doc.scope = .library ∧ doc.reviewStatus = .pendingSme) := by
  have hstatus (row : Option Document) : (refusal row).status ≠ 404 ↔ row.isSome := by
    cases row with
    | none => simp [refusal, documentNotFound]
    | some doc =>
      refine iff_of_true ?_ rfl
      simp only [refusal]
      split <;> exact Nat.ne_of_beq_eq_false rfl
  have hwaits (row : Option Document) : (refusal row).status = 403 ↔
      ∃ doc, row = some doc ∧ doc.scope = .library ∧ doc.reviewStatus = .pendingSme := by
    cases row with
    | none => simp [refusal, documentNotFound]
    | some doc =>
      simp only [refusal, Option.some.injEq, exists_eq_left']
      split
      · next h => exact iff_of_false (Nat.ne_of_beq_eq_false rfl) (not_and_or.mpr h)
      · next h => exact iff_of_true rfl (by simpa using h)
  constructor
  · intro h
    rw [← hstatus, ← hstatus, ← hwaits, ← hwaits, h]
    exact ⟨Iff.rfl, Iff.rfl⟩
  · rintro ⟨hsome, hboth⟩
    cases row with
    | none =>
      cases row' with
      | none => rfl
      | some doc' => simp at hsome
    | some doc =>
      cases row' with
      | none => simp at hsome
      | some doc' =>
        simp only [Option.some.injEq, exists_eq_left'] at hboth
        have hconditions : (doc.scope ≠ .library ∨ doc.reviewStatus ≠ .pendingSme) ↔
            (doc'.scope ≠ .library ∨ doc'.reviewStatus ≠ .pendingSme) := by
          rw [← not_and_or, ← not_and_or, hboth]
        simp only [refusal, hconditions]

/-- What a request leaves: the stores differ in the unseen document only, of which each keeps its
row. -/
structure Stays (order : TimeOrder) (user : User) (d : Uuid) (s s' t t' : Store) : Prop where
  blind : Blind order user d t t'
  row : t.document? d = s.document? d
  row' : t'.document? d = s'.document? d
  known : t.user? user.id = s.user? user.id

theorem Stays.trans {t t' u u' : Store} (first : Stays order user d s s' t t')
    (second : Stays order user d t t' u u') : Stays order user d s s' u u' :=
  ⟨second.blind, second.row.trans first.row, second.row'.trans first.row',
    second.known.trans first.known⟩

theorem Stays.answersAlike {t t' : Store} (stays : Stays order user d s s' t t')
    (request : UserRequest) : AnswersAlike d t t' request ↔ AnswersAlike d s s' request := by
  cases request <;> simp only [AnswersAlike, AwaitsReview, stays.row, stays.row']

theorem Blind.stays (blind : Blind order user d s s') : Stays order user d s s' s s' :=
  ⟨blind, rfl, rfl, rfl⟩

theorem Blind.serve_delete (blind : Blind order user d s s') (env : Serving) (j : Uuid) :
    ((serve env user s (.deleteDocument j)).1 = (serve env user s' (.deleteDocument j)).1 ↔
      AnswersAlike d s s' (.deleteDocument j)) ∧
    Stays order user d s s' (serve env user s (.deleteDocument j)).2
      (serve env user s' (.deleteDocument j)).2 := by
  by_cases hj : j = d
  · subst hj
    simp only [serve, blind.unseen.deleteDocument, blind.unseen'.deleteDocument, AnswersAlike]
    refine ⟨?_, blind.stays⟩
    cases (s.document? j).isSome <;> cases (s'.document? j).isSome <;> simp [documentNotFound]
  · have hsame := @findSummary_of_differ user d s s' blind.differ j hj
    simp only [serve, DotNet.deleteDocument, hsame]
    cases hfound : findSummary s user j with
    | none => exact ⟨iff_of_true rfl fun h => absurd h hj, blind.stays⟩
    | some row =>
      rw [orRefuse_bind_some rfl, orRefuse_bind_some rfl]
      by_cases hdelete : canDelete user row = false
      · rw [refuse_bind_of hdelete, refuse_bind_of hdelete]
        exact ⟨iff_of_true rfl fun h => absurd h hj, blind.stays⟩
      · rw [refuse_bind_of_not hdelete, refuse_bind_of_not hdelete]
        exact ⟨iff_of_true rfl fun h => absurd h hj, blind.delete j,
          Store.document?_deleteDocument_ne (Ne.symm hj),
          Store.document?_deleteDocument_ne (Ne.symm hj), rfl⟩

theorem document?_decisionStore {request : ReviewRequest} (decision : Decision)
    (h : d ≠ request.documentId) : (decisionStore s request decision).document? d =
      s.document? d := by
  refine lookup_update_ne ?_ h
  exact fun _ => rfl

theorem postReview_passed {j : Uuid} {decision note : String} {decided : Decision}
    (passed : decideChecks s ⟨user.id, j, decision, note⟩ = .ok decided)
    (found : (s.document? j).isSome) :
    postReview s user j decision note = (do
      let row ← orRefuse
        (findSummary (decisionStore s ⟨user.id, j, decision, note⟩ decided) user j <|>
          findSummary s user j) documentNotFound
      return (toSummary row, decisionStore s ⟨user.id, j, decision, note⟩ decided)) := by
  have hwrites := @decision_writes s ⟨user.id, j, decision, note⟩ decided found
  rw [postReview, passed]
  simp only [bind, Except.bind] at hwrites ⊢
  rw [hwrites]

theorem Blind.serve_decide (blind : Blind order user d s s') (env : Serving)
    (known : s.user? user.id = some user) (j : Uuid) (decision note : String) :
    ((serve env user s (.decide j decision note)).1 =
        (serve env user s' (.decide j decision note)).1 ↔
      AnswersAlike d s s' (.decide j decision note)) ∧
    Stays order user d s s' (serve env user s (.decide j decision note)).2
      (serve env user s' (.decide j decision note)).2 := by
  have known' : s'.user? user.id = some user := by rw [blind.differ.user?]; exact known
  by_cases hj : j = d
  · subst hj
    by_cases hvalid : (Decision.ofString? decision).isSome
    · simp only [serve, postReview, blind.unseen.decideChecks known hvalid,
        blind.unseen'.decideChecks known' hvalid, AnswersAlike, AwaitsReview]
      refine ⟨?_, blind.stays⟩
      have hanswers := @refusal_eq_iff (s.document? j) (s'.document? j)
      simpa [bind, Except.bind, hvalid] using hanswers
    · have hnone : Decision.ofString? decision = none := by simpa using hvalid
      have hrefused {t : Store} (known : t.user? user.id = some user) :
          decideChecks t ⟨user.id, j, decision, note⟩ =
            .error ⟨422, "decision must be 'approved' or 'rejected'"⟩ := by
        rw [decideChecks, orRefuse_bind_some known, hnone]
        rfl
      simp only [serve, postReview, hrefused known, hrefused known']
      exact ⟨iff_of_true rfl fun _ h => absurd h hvalid, blind.stays⟩
  · have hchecks := @decideChecks_of_differ d s s' blind.differ ⟨user.id, j, decision, note⟩ hj
    cases hpassed : decideChecks s ⟨user.id, j, decision, note⟩ with
    | error error =>
      simp only [serve, postReview, hchecks, hpassed]
      exact ⟨iff_of_true rfl fun h => absurd h hj, blind.stays⟩
    | ok decided =>
      obtain ⟨doc, passed⟩ := decideChecks_ok hpassed
      have hfound : (s.document? j).isSome := by rw [passed.found]; rfl
      have hfound' : (s'.document? j).isSome := by rw [blind.differ.document?_ne hj]; exact hfound
      have blind₁ := @Blind.decision order user d s s' blind ⟨user.id, j, decision, note⟩ decided hj
      have hrow := @findSummary_of_differ user d _ _ blind₁.differ j hj
      have hrow₀ := @findSummary_of_differ user d _ _ blind.differ j hj
      simp only [serve, postReview_passed hpassed hfound,
        postReview_passed (hchecks.trans hpassed) hfound', hrow, hrow₀]
      cases (findSummary (decisionStore s ⟨user.id, j, decision, note⟩ decided) user j <|>
          findSummary s user j) with
      | none => exact ⟨iff_of_true rfl fun h => absurd h hj, blind.stays⟩
      | some row =>
        exact ⟨iff_of_true rfl fun h => absurd h hj, blind₁,
          document?_decisionStore decided (Ne.symm hj),
          document?_decisionStore decided (Ne.symm hj), rfl⟩

/-- One request: answered alike exactly if it does not probe, and the stores stay blind. -/
theorem Blind.serve_step (blind : Blind order user d s s') (env : Serving)
    (known : s.user? user.id = some user) (request : UserRequest) :
    ((serve env user s request).1 = (serve env user s' request).1 ↔
      AnswersAlike d s s' request) ∧
    Stays order user d s s' (serve env user s request).2 (serve env user s' request).2 := by
  cases request with
  | listDocuments scope =>
    simp only [serve, blind.listDocuments_eq]
    exact ⟨iff_of_true trivial trivial, blind.stays⟩
  | documentDetail id =>
    simp only [serve, blind.documentDetail_eq]
    exact ⟨iff_of_true trivial trivial, blind.stays⟩
  | deleteDocument id => exact blind.serve_delete env id
  | pendingReviews =>
    simp only [serve, blind.pendingReviews_eq]
    exact ⟨iff_of_true trivial trivial, blind.stays⟩
  | decide id decision note => exact blind.serve_decide env known id decision note
  | retrieve question =>
    simp only [serve, blind.retrieveAsync_eq]
    exact ⟨iff_of_true trivial trivial, blind.stays⟩

/-- A user's session tells two stores apart that differ in an unseen document only if and only if it
tries to delete the document and only one store has it, or to decide on it and only one has it or
has it await a review. -/
theorem unseen_document_told_iff (env : Serving) (blind : Blind order user d s s')
    (known : s.user? user.id = some user) (requests : List UserRequest) :
    responses (serve env user) s requests = responses (serve env user) s' requests ↔
      ∀ request ∈ requests, AnswersAlike d s s' request :=
  responses_eq_iff (R := Stays order user d s s') (fun _ _ request stays => by
    have hstep := stays.blind.serve_step env (stays.known.trans known) request
    exact ⟨hstep.1.trans (stays.answersAlike request), stays.trans hstep.2⟩) blind.stays requests

/-- The colleague learns from a deletion that there is a diary, and from nothing else here. -/
theorem unseen_document_told_iff_diary :
    let env : Serving := ⟨fun _ => .stable, ⟨fun _ _ => 0, fun _ => .stable⟩, {},
      { demoVector := fun _ => [1], embedTexts := fun _ texts => .ok (texts.map fun _ => [1])
        embedQuery := fun _ _ => .ok [1] }⟩
    let asked : List UserRequest :=
      [.listDocuments none, .documentDetail 5, .pendingReviews, .retrieve []]
    let answers (s : Store) := responses (serve env Diary.colleague) s
    answers (Diary.shelf []) asked = answers (Diary.shelf [Diary.diary]) asked ∧
      answers (Diary.shelf []) (.deleteDocument 5 :: asked) ≠
        answers (Diary.shelf [Diary.diary]) (.deleteDocument 5 :: asked) := by
  have blind : Blind (fun _ => .stable) Diary.colleague 5 (Diary.shelf [])
      (Diary.shelf [Diary.diary]) := by
    refine ⟨⟨rfl, rfl, rfl, rfl, rfl, rfl, rfl, rfl, rfl⟩, fun _ h => (by cases h), ?_⟩
    intro doc hdoc _
    obtain rfl : doc = Diary.diary := by simpa [Diary.shelf] using hdoc
    refine ⟨fun h => ?_, rfl⟩
    have hview := h.opens (.inr (.inl rfl))
    cases hview
  intro env asked answers
  have told (requests : List UserRequest) :=
    unseen_document_told_iff env blind rfl requests
  refine ⟨(told asked).mpr (by simp [asked, AnswersAlike]), fun h => ?_⟩
  have hboth := (told _).mp h _ (List.mem_cons_self ..) rfl
  exact absurd (hboth.mpr rfl) (by decide)

end Docsage.DotNet
