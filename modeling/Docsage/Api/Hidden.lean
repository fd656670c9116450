import Docsage.Api.Documents
import Docsage.Library.Transition

/-! # Hidden documents are unobservable

Two stores that differ in one document which a user may not view answer each of
the user's requests alike and still differ in that document only. Every request
has a filter of its own; each of them is shown to stay within
`canViewDocument`.
-/

namespace Docsage
open Ranking Relational Transition

/-- The stores agree on everything but one document and the rows under it. -/
structure DifferIn (d : Uuid) (s s' : Store) : Prop where
  now : s'.now = s.now
  users : s'.users = s.users
  sessions : s'.sessions = s.sessions
  topics : s'.topics = s.topics
  smeDesignations : s'.smeDesignations = s.smeDesignations
  documents : Agree Document.id d s.documents s'.documents
  chunks : Agree Chunk.documentId d s.chunks s'.chunks
  enrichments : Agree Enrichment.documentId d s.enrichments s'.enrichments
  approvals : Agree Approval.documentId d s.approvals s'.approvals

def Hidden (user : User) (d : Uuid) (s : Store) : Prop :=
  ∀ doc ∈ s.documents, doc.id = d → canViewDocument user doc (s.smeTopicIds user.id) = false

/-- `pending_sme` occurs only on library documents. -/
def PendingInLibrary (s : Store) : Prop :=
  ∀ doc ∈ s.documents, doc.reviewStatus = .pendingSme → doc.scope = .library

/-- Two stores between which the user must not be able to tell. -/
structure Indistinguishable (user : User) (d : Uuid) (s s' : Store) : Prop where
  differ : DifferIn d s s'
  hidden : Hidden user d s
  hidden' : Hidden user d s'
  pending : PendingInLibrary s
  pending' : PendingInLibrary s'

structure Serving where
  order : TimeOrder
  index : VectorIndex
  settings : Settings
  service : EmbeddingService

inductive UserRequest where
  | listDocuments (scope : String)
  | documentDetail (documentId : Uuid)
  | deleteDocument (documentId : Uuid)
  | pendingReviews
  | retrieve (question : String) (k : ℕ)

inductive UserResponse where
  | documents (items : Except HttpError (List DocumentSummary))
  | detail (detail : Except HttpError DocumentDetail)
  | deleted (result : Except HttpError Unit)
  | pending (items : List DocumentSummary)
  | retrieved (chunks : Except Exc (List RetrievedChunk))

/-- The requests of one user, chat in the personal scope. -/
def serve (env : Serving) (user : User) (s : Store) : UserRequest → UserResponse × Store
  | .listDocuments scope => (.documents (listDocuments env.order s user scope), s)
  | .documentDetail documentId => (.detail (documentDetail env.order s user documentId), s)
  | .deleteDocument documentId =>
    match deleteDocument s user documentId with
    | .ok s' => (.deleted (.ok ()), s')
    | .error error => (.deleted (.error error), s)
  | .pendingReviews => (.pending (pendingReviews env.order s user), s)
  | .retrieve question k =>
    (.retrieved (retrieve env.index env.settings env.service s user .personal question k), s)

variable {user : User} {doc : Document} {smeTopics : List Uuid} {d : Uuid} {s s' : Store}

theorem canViewDocument_of_owner (h : doc.ownerId = user.id) :
    canViewDocument user doc smeTopics = true := by simp [canViewDocument, h]

theorem canViewDocument_of_library (hscope : doc.scope = .library)
    (h : doc.reviewStatus = .approved ∨ topicAmong doc.topicId smeTopics = true) :
    canViewDocument user doc smeTopics = true := by
  unfold canViewDocument
  rw [hscope]
  rcases h with h | h <;> simp [h]

theorem canViewDocument_of_listFilter (nonadmin : user.isAdmin = false) {scope : Scope}
    (h : listFilter user scope smeTopics doc = true) :
    canViewDocument user doc smeTopics = true := by
  cases scope with
  | personal => exact canViewDocument_of_owner (by simpa [listFilter] using h)
  | library =>
    have h : doc.scope = .library ∧
        (doc.reviewStatus = .approved ∨ topicAmong doc.topicId smeTopics = true) := by
      simpa [listFilter, nonadmin] using h
    exact canViewDocument_of_library h.1 h.2

theorem canViewDocument_of_candidateFilter (h : candidateFilter user.id .personal doc = true) :
    canViewDocument user doc smeTopics = true := by
  have h : doc.scope = .personal ∧ doc.ownerId = user.id ∨
      doc.scope = .library ∧ doc.reviewStatus = .approved := by simpa [candidateFilter] using h
  rcases h with ⟨-, howner⟩ | ⟨hscope, happroved⟩
  · exact canViewDocument_of_owner howner
  · exact canViewDocument_of_library hscope (.inl happroved)

/-- A filter that stays within `canViewDocument` drops a hidden document. -/
theorem Hidden.filter_false (hidden : Hidden user d s) {p : Document → Bool}
    (h : ∀ doc ∈ s.documents, p doc = true →
      canViewDocument user doc (s.smeTopicIds user.id) = true) :
    ∀ doc ∈ s.documents, doc.id = d → p doc = false := by
  intro doc hdoc hid
  by_contra hp
  rw [Bool.not_eq_false] at hp
  exact absurd (h doc hdoc hp) (by simp [hidden doc hdoc hid])

namespace DifferIn

variable (differ : DifferIn d s s')
include differ

theorem smeTopicIds (userId : Uuid) : s'.smeTopicIds userId = s.smeTopicIds userId := by
  rw [Store.smeTopicIds, differ.smeDesignations]
  rfl

theorem user? : s'.user? = s.user? := by
  funext id
  rw [Store.user?, differ.users]
  rfl

theorem topic? : s'.topic? = s.topic? := by
  funext id
  rw [Store.topic?, differ.topics]
  rfl

theorem summarize (doc : Document) (user : User) (smeTopics : List Uuid) :
    summarize s' doc user smeTopics = summarize s doc user smeTopics := by
  rw [Docsage.summarize, Docsage.summarize, differ.topic?, differ.user?]

theorem document?_ne {j : Uuid} (hj : j ≠ d) : s'.document? j = s.document? j :=
  (differ.documents.lookup_ne hj).symm

theorem approvalsOut_ne (order : TimeOrder) {j : Uuid} (hj : j ≠ d) :
    approvalsOut order s' j = approvalsOut order s j := by
  have hrows : s'.approvalsOf j = s.approvalsOf j := (differ.approvals.select_ne hj).symm
  rw [approvalsOut, approvalsOut, hrows, differ.user?]

section Retrieval

variable {visible : Document → Bool}
  (drops : ∀ doc ∈ s.documents, doc.id = d → visible doc = false)
  (drops' : ∀ doc ∈ s'.documents, doc.id = d → visible doc = false)
include drops drops'

/-- A nearest-neighbour query that drops the document has the same rows. -/
theorem candidates_eq (p : ProviderName) : candidates s' visible p = candidates s visible p := by
  have hnone {t : Store} (drops : ∀ doc ∈ t.documents, doc.id = d → visible doc = false) :
      ∀ chunk ∈ t.chunks, chunk.documentId = d → candidate? t visible p chunk = none := by
    intro chunk _ hd
    unfold candidate?
    cases hdoc : t.document? chunk.documentId with
    | none => rfl
    | some doc =>
      have hvisible := drops doc (Store.document?_mem hdoc) ((Store.document?_id hdoc).trans hd)
      cases chunk.embedding <;> simp [hvisible]
  refine (differ.chunks.filterMap (hnone drops) (hnone drops') fun chunk hd => ?_).symm
  rw [candidate?, candidate?, differ.document?_ne hd]

theorem visibleProviders_eq : visibleProviders s' visible = visibleProviders s visible := by
  have hany (t : Store) (p : ProviderName) : (t.documents.any fun doc =>
      visible doc && doc.embeddingProvider = p) =
      (t.documents.filter visible).any (·.embeddingProvider = p) := by
    rw [List.any_filter]
  simp only [visibleProviders, hany, differ.documents.filter drops drops']

end Retrieval

theorem delete (j : Uuid) : DifferIn d (s.deleteDocument j) (s'.deleteDocument j) :=
  ⟨differ.now, differ.users, differ.sessions, differ.topics, differ.smeDesignations,
    differ.documents.delete j, differ.chunks.delete j, differ.enrichments.delete j,
    differ.approvals.delete j⟩

end DifferIn

/-- A hidden document is answered like one that does not exist. -/
theorem viewDocument_hidden (hidden : Hidden user d s) :
    viewDocument s user d = .error documentNotFound := by
  unfold viewDocument
  cases hdoc : s.document? d with
  | none => rfl
  | some doc =>
    have hview := hidden doc (Store.document?_mem hdoc) (Store.document?_id hdoc)
    exact refuse_bind_of hview

theorem viewDocument_ne (hidden : Hidden user d s) {j : Uuid}
    (h : viewDocument s user j = .ok doc) : j ≠ d ∧ doc.id = j := by
  refine ⟨fun hj => ?_, ?_⟩
  · rw [hj, viewDocument_hidden hidden] at h
    cases h
  · obtain ⟨doc', hdoc, h⟩ := orRefuse_bind_ok h
    obtain ⟨-, h⟩ := refuse_bind_ok h
    obtain rfl := Except.ok.inj h
    exact Store.document?_id hdoc

namespace Indistinguishable

variable (blind : Indistinguishable user d s s')
include blind

theorem smeTopicIds : s'.smeTopicIds user.id = s.smeTopicIds user.id :=
  blind.differ.smeTopicIds user.id

theorem filter_eq {p : Document → Bool}
    (h : ∀ doc ∈ s.documents, p doc = true →
      canViewDocument user doc (s.smeTopicIds user.id) = true)
    (h' : ∀ doc ∈ s'.documents, p doc = true →
      canViewDocument user doc (s.smeTopicIds user.id) = true) :
    s'.documents.filter p = s.documents.filter p := by
  rw [← blind.smeTopicIds] at h'
  exact (blind.differ.documents.filter (blind.hidden.filter_false h)
    (blind.hidden'.filter_false h')).symm

theorem viewDocument_eq (j : Uuid) : viewDocument s' user j = viewDocument s user j := by
  by_cases hj : j = d
  · rw [hj, viewDocument_hidden blind.hidden, viewDocument_hidden blind.hidden']
  · rw [viewDocument, viewDocument, blind.differ.document?_ne hj, blind.smeTopicIds]

theorem listDocuments_eq (nonadmin : user.isAdmin = false) (order : TimeOrder) (scope : String) :
    listDocuments order s' user scope = listDocuments order s user scope := by
  have hrows (scope : Scope) :
      listedDocuments order s' user scope = listedDocuments order s user scope := by
    rw [listedDocuments, listedDocuments, blind.smeTopicIds, blind.filter_eq]
    · exact fun _ _ => canViewDocument_of_listFilter nonadmin
    · exact fun _ _ => canViewDocument_of_listFilter nonadmin
  have hsummarize (doc : Document) := blind.differ.summarize doc user (s.smeTopicIds user.id)
  simp only [listDocuments, hrows, hsummarize, blind.smeTopicIds]

theorem pendingReviews_eq (nonadmin : user.isAdmin = false) (order : TimeOrder) :
    pendingReviews order s' user = pendingReviews order s user := by
  have hview {t : Store} (pending : PendingInLibrary t) : ∀ doc ∈ t.documents,
      (doc.reviewStatus = .pendingSme &&
        (user.isAdmin || topicAmong doc.topicId (s.smeTopicIds user.id))) = true →
      canViewDocument user doc (s.smeTopicIds user.id) = true := by
    intro doc hdoc h
    have h : doc.reviewStatus = .pendingSme ∧
        topicAmong doc.topicId (s.smeTopicIds user.id) = true := by
      simpa [nonadmin] using h
    exact canViewDocument_of_library (pending doc hdoc h.1) (.inr h.2)
  have hsummarize (doc : Document) := blind.differ.summarize doc user (s.smeTopicIds user.id)
  simp only [pendingReviews, blind.smeTopicIds, hsummarize,
    blind.filter_eq (hview blind.pending) (hview blind.pending')]

theorem documentDetail_eq (order : TimeOrder) (j : Uuid) :
    documentDetail order s' user j = documentDetail order s user j := by
  rw [documentDetail, documentDetail, blind.viewDocument_eq j]
  cases h : viewDocument s user j with
  | error error => rfl
  | ok doc =>
    have hj := (viewDocument_ne blind.hidden h).1
    have henrichments : s'.enrichmentsOf j = s.enrichmentsOf j :=
      (blind.differ.enrichments.select_ne hj).symm
    simp only [blind.smeTopicIds, blind.differ.summarize, henrichments,
      blind.differ.approvalsOut_ne order hj]

theorem candidates_eq (p : ProviderName) :
    candidates s' (candidateFilter user.id .personal) p =
      candidates s (candidateFilter user.id .personal) p :=
  blind.differ.candidates_eq
    (blind.hidden.filter_false fun _ _ => canViewDocument_of_candidateFilter)
    (blind.hidden'.filter_false fun _ _ => canViewDocument_of_candidateFilter) p

theorem visibleProviders_eq :
    visibleProviders s' (candidateFilter user.id .personal) =
      visibleProviders s (candidateFilter user.id .personal) :=
  blind.differ.visibleProviders_eq
    (blind.hidden.filter_false fun _ _ => canViewDocument_of_candidateFilter)
    (blind.hidden'.filter_false fun _ _ => canViewDocument_of_candidateFilter)

theorem retrieve_eq (index : VectorIndex) (settings : Settings) (service : EmbeddingService)
    (question : String) (k : ℕ) :
    retrieve index settings service s' user .personal question k =
      retrieve index settings service s user .personal question k := by
  simp only [retrieve, retrieveSpace, nearestCandidates, blind.visibleProviders_eq,
    blind.candidates_eq]

/-- Deleting another document keeps the stores indistinguishable. -/
theorem delete (j : Uuid) :
    Indistinguishable user d (s.deleteDocument j) (s'.deleteDocument j) where
  differ := blind.differ.delete j
  hidden doc hdoc := blind.hidden doc (mem_delete.mp hdoc).1
  hidden' doc hdoc := blind.hidden' doc (mem_delete.mp hdoc).1
  pending doc hdoc := blind.pending doc (mem_delete.mp hdoc).1
  pending' doc hdoc := blind.pending' doc (mem_delete.mp hdoc).1

end Indistinguishable

/-- One request: the answer is the same, and the stores stay indistinguishable. -/
theorem serve_unwind {env : Serving} (nonadmin : user.isAdmin = false)
    (blind : Indistinguishable user d s s') (request : UserRequest) :
    (serve env user s request).1 = (serve env user s' request).1 ∧
      Indistinguishable user d (serve env user s request).2 (serve env user s' request).2 := by
  cases request with
  | listDocuments scope =>
    exact ⟨congrArg UserResponse.documents
      (blind.listDocuments_eq nonadmin env.order scope).symm, blind⟩
  | documentDetail j =>
    exact ⟨congrArg UserResponse.detail (blind.documentDetail_eq env.order j).symm, blind⟩
  | pendingReviews =>
    exact ⟨congrArg UserResponse.pending (blind.pendingReviews_eq nonadmin env.order).symm, blind⟩
  | retrieve question k =>
    exact ⟨congrArg UserResponse.retrieved
      (blind.retrieve_eq env.index env.settings env.service question k).symm, blind⟩
  | deleteDocument j =>
    simp only [serve, deleteDocument, blind.viewDocument_eq j]
    cases h : viewDocument s user j with
    | error error => exact ⟨rfl, blind⟩
    | ok doc =>
      simp only [bind, Except.bind, refuse]
      split_ifs
      · exact ⟨rfl, blind⟩
      · exact ⟨rfl, blind.delete doc.id⟩

/-- No request of a user tells two stores apart that differ in a hidden document only. -/
theorem hidden_document_unobservable (env : Serving) (nonadmin : user.isAdmin = false)
    (differ : DifferIn d s s') (hidden : Hidden user d s) (hidden' : Hidden user d s')
    (pending : PendingInLibrary s) (pending' : PendingInLibrary s') (request : UserRequest) :
    (serve env user s request).1 = (serve env user s' request).1 ∧
      DifferIn d (serve env user s request).2 (serve env user s' request).2 := by
  obtain ⟨hsame, hstill⟩ :=
    serve_unwind nonadmin ⟨differ, hidden, hidden', pending, pending'⟩ request
  exact ⟨hsame, hstill.differ⟩

namespace Diary

def manual : Document where
  id := 6
  ownerId := admin.id
  scope := .library
  title := "Manual"
  sourceFilename := "manual.txt"
  mimeType := "text/plain"
  sizeBytes := 4
  reviewStatus := .approved
  embeddingProvider := .demo
  topicId := none
  createdAt := 0
  updatedAt := 0

def chunk (id documentId : Uuid) (content : String) (similarity : ℚ) : Chunk where
  id := id
  documentId := documentId
  ordinal := 0
  content := content
  kind := .text
  page := none
  tokenCount := 0
  embedding := some ⟨.demo, [similarity]⟩

/-- A shelf that retrieval can search, the diary's chunk being nearer than the manual's. -/
def searchable (documents : List Document) (chunks : List Chunk) : Store :=
  { shelf (manual :: documents) with chunks := chunk 21 6 "Press start." (1 / 2) :: chunks }

def withDiary : Store := searchable [diary] [chunk 22 5 "Sam wrote this." 1]

def serving : Serving where
  order _ := .stable
  index := ⟨fun _ stored => 1 - stored.headD 0, fun _ => .stable⟩
  settings := {}
  service := offlineService

end Diary

/-- Sam is answered from the diary, the colleague from the manual, diary or not. -/
theorem hidden_document_unobservable_diary :
    let asked := UserRequest.retrieve "What did Sam write?" 1
    (serve Diary.serving Diary.writer Diary.withDiary asked).1 =
      .retrieved (.ok [⟨22, 5, "Diary", "Sam wrote this.", none, 1, .demo⟩]) ∧
    (serve Diary.serving Diary.colleague Diary.withDiary asked).1 =
      .retrieved (.ok [⟨21, 6, "Manual", "Press start.", none, 1 / 2, .demo⟩]) ∧
    (serve Diary.serving Diary.colleague (Diary.searchable [] []) asked).1 =
      (serve Diary.serving Diary.colleague Diary.withDiary asked).1 ∧
    DifferIn 5 (serve Diary.serving Diary.colleague (Diary.searchable [] []) asked).2
      (serve Diary.serving Diary.colleague Diary.withDiary asked).2 := by
  have differ : DifferIn 5 (Diary.searchable [] []) Diary.withDiary :=
    ⟨rfl, rfl, rfl, rfl, rfl, rfl, rfl, rfl, rfl⟩
  have hidden : Hidden Diary.colleague 5 Diary.withDiary := by unfold Hidden; decide
  exact ⟨congrArg UserResponse.retrieved (by decide +kernel),
    congrArg UserResponse.retrieved (by decide +kernel),
    hidden_document_unobservable _ rfl differ (by unfold Hidden; decide) hidden
      (by unfold PendingInLibrary; decide) (by unfold PendingInLibrary; decide) _⟩

theorem hidden_document_unobservable_session (env : Serving) (nonadmin : user.isAdmin = false)
    (blind : Indistinguishable user d s s') (requests : List UserRequest) :
    responses (serve env user) s requests = responses (serve env user) s' requests :=
  responses_eq (R := Indistinguishable user d)
    (fun _ _ b related => serve_unwind nonadmin related b) blind requests

end Docsage
