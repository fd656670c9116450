import Docsage.Api.Documents
import Mathlib.Tactic.Tauto

/-! # What the .NET lists show and what can be opened

`ListAsync`, `PendingReviewsAsync` and `CanView` are three predicates over the
same joined row. The library list asks whether the user is an SME of anything,
`CanView` whether of the topic of the document.
-/

namespace Docsage.DotNet
open Ranking

/-- A row of `SelectBase`: the document with the names and the flag joined to it. -/
structure DocumentListRow where
  document : Document
  topicName : Option String
  ownerDisplayName : Option String
  pendingReviewer : Bool

def selectBase (s : Store) (user : User) (doc : Document) : DocumentListRow where
  document := doc
  topicName := (doc.topicId.bind s.topic?).map (·.name)
  ownerDisplayName := (s.user? doc.ownerId).map (·.displayName)
  pendingReviewer := pendingReviewer s user doc

/-- `ListAsync`. Every scope but `library` is the personal one. -/
def listAsync (order : TimeOrder) (s : Store) (user : User) (scope : String) :
    List DocumentListRow :=
  (listedDocuments order s user (if scope = "library" then .library else .personal)).map
    (selectBase s user)

def pendingFilter (s : Store) (user : User) (doc : Document) : Bool :=
  doc.scope = .library && doc.reviewStatus = .pendingSme &&
    (user.isAdmin || designated s user.id doc.topicId)

/-- `PendingReviewsAsync`, oldest first. -/
def pendingReviewsAsync (order : TimeOrder) (s : Store) (user : User) : List DocumentListRow :=
  ((order Document).sort (·.createdAt) (s.documents.filter (pendingFilter s user))).map
    (selectBase s user)

def canView (user : User) (row : DocumentListRow) : Bool :=
  row.document.ownerId = user.id || user.isAdmin ||
    (row.document.scope = .library && row.document.reviewStatus = .approved) ||
    (row.document.scope = .library && row.pendingReviewer)

/-- The list of some scope or the review queue shows the row. -/
def Shown (order : TimeOrder) (s : Store) (user : User) (row : DocumentListRow) : Prop :=
  (∃ scope, row ∈ listAsync order s user scope) ∨ row ∈ pendingReviewsAsync order s user

/-- Everything shown can be opened, and no unapproved document of another topic is shown to
somebody who only has a designation. -/
structure ListsOpen (order : TimeOrder) (s : Store) (user : User) : Prop where
  canView : ∀ row, Shown order s user row → canView user row = true
  ofTopic : user.isAdmin = false → ∀ row, Shown order s user row →
    row.document.ownerId ≠ user.id → row.document.reviewStatus ≠ .approved →
      designated s user.id row.document.topicId = true

def isSme (s : Store) (user : User) : Bool := s.smeDesignations.any fun r => r.userId = user.id

/-- Of other people's library documents, the unapproved ones all wait for this SME. -/
def AllForSme (s : Store) (user : User) : Prop :=
  ∀ doc ∈ s.documents, doc.scope = .library → doc.reviewStatus ≠ .approved →
    doc.ownerId ≠ user.id → doc.reviewStatus = .pendingSme ∧ designated s user.id doc.topicId = true

variable {order : TimeOrder} {s : Store} {user : User} {doc : Document} {row : DocumentListRow}

theorem mem_listAsync {scope : String} : row ∈ listAsync order s user scope ↔
    ∃ doc ∈ s.documents,
      listFilter s user (if scope = "library" then .library else .personal) doc = true ∧
        selectBase s user doc = row := by
  simp [listAsync, listedDocuments, and_assoc]

theorem mem_pendingReviewsAsync : row ∈ pendingReviewsAsync order s user ↔
    ∃ doc ∈ s.documents, pendingFilter s user doc = true ∧ selectBase s user doc = row := by
  simp [pendingReviewsAsync, ((order Document).perm _ _).mem_iff, and_assoc]

/-- What is shown: the user's own personal documents, and of the library whatever the filter of
the list lets through. The queue adds nothing. -/
theorem shown_iff : Shown order s user row ↔ ∃ doc ∈ s.documents, selectBase s user doc = row ∧
    (doc.scope = .personal ∧ doc.ownerId = user.id ∨
      doc.scope = .library ∧
        (user.isAdmin = true ∨ doc.reviewStatus = .approved ∨ isSme s user = true)) := by
  have hlibrary (doc : Document) : listFilter s user .library doc = true ↔ doc.scope = .library ∧
      (user.isAdmin = true ∨ doc.reviewStatus = .approved ∨ isSme s user = true) := by
    simp [listFilter, isSme, or_assoc]
  have hpersonal (doc : Document) : listFilter s user .personal doc = true ↔
      doc.scope = .personal ∧ doc.ownerId = user.id := by
    simp [listFilter, and_comm]
  constructor
  · rintro (⟨scope, hlisted⟩ | hpending)
    · obtain ⟨doc, hdoc, hfilter, hrow⟩ := mem_listAsync.mp hlisted
      refine ⟨doc, hdoc, hrow, ?_⟩
      split at hfilter
      · exact .inr ((hlibrary doc).mp hfilter)
      · exact .inl ((hpersonal doc).mp hfilter)
    · obtain ⟨doc, hdoc, hfilter, hrow⟩ := mem_pendingReviewsAsync.mp hpending
      simp only [pendingFilter, Bool.and_eq_true, Bool.or_eq_true, decide_eq_true_eq] at hfilter
      refine ⟨doc, hdoc, hrow, .inr ⟨hfilter.1.1, hfilter.2.imp_right fun h => .inr ?_⟩⟩
      -- a designation for the topic is a designation
      obtain ⟨r, hr, hmatch⟩ := List.any_eq_true.mp h
      simp only [Bool.and_eq_true, decide_eq_true_eq] at hmatch
      exact List.any_eq_true.mpr ⟨r, hr, by simp [hmatch.1]⟩
  · rintro ⟨doc, hdoc, hrow, hshown⟩
    rcases hshown with h | h
    · exact .inl ⟨"personal", mem_listAsync.mpr ⟨doc, hdoc, (hpersonal doc).mpr h, hrow⟩⟩
    · exact .inl ⟨"library", mem_listAsync.mpr ⟨doc, hdoc, (hlibrary doc).mpr h, hrow⟩⟩

theorem canView_selectBase : canView user (selectBase s user doc) = true ↔
    doc.ownerId = user.id ∨ user.isAdmin = true ∨ doc.scope = .library ∧
      (doc.reviewStatus = .approved ∨
        doc.reviewStatus = .pendingSme ∧ designated s user.id doc.topicId = true) := by
  simp [canView, selectBase, pendingReviewer]
  tauto

theorem Shown.opens {order : TimeOrder} {s : Store} {user : User} {row : DocumentListRow}
    (shown : Shown order s user row)
    (h : user.isAdmin = true ∨ isSme s user = false ∨ AllForSme s user) :
    canView user row = true := by
  obtain ⟨doc, hdoc, rfl, hshown⟩ := shown_iff.mp shown
  rw [canView_selectBase]
  rcases hshown with ⟨-, howner⟩ | ⟨hscope, hshown⟩
  · exact .inl howner
  rcases h with hadmin | hsme | hall
  · exact .inr (.inl hadmin)
  · rw [hsme] at hshown
    simp only [Bool.false_eq_true, or_false] at hshown
    exact .inr (hshown.imp_right fun h => ⟨hscope, .inl h⟩)
  · by_cases howner : doc.ownerId = user.id
    · exact .inl howner
    · refine .inr (.inr ⟨hscope, ?_⟩)
      by_cases hreview : doc.reviewStatus = .approved
      · exact .inl hreview
      · exact .inr (hall doc hdoc hscope hreview howner)

/-- The lists of a user open exactly when the user is an admin, is no SME, or has every
unapproved document of the library to decide on. -/
theorem listsOpen_iff (order : TimeOrder) (s : Store) (user : User) : ListsOpen order s user ↔
    user.isAdmin = true ∨ isSme s user = false ∨ AllForSme s user := by
  constructor
  · intro lists
    by_cases hadmin : user.isAdmin = true
    · exact .inl hadmin
    · cases hsme : isSme s user with
      | false => exact .inr (.inl rfl)
      | true =>
        refine .inr (.inr fun doc hdoc hscope hreview howner => ?_)
        have hshown : Shown order s user (selectBase s user doc) :=
          shown_iff.mpr ⟨doc, hdoc, rfl, .inr ⟨hscope, .inr (.inr hsme)⟩⟩
        have hview := canView_selectBase.mp (lists.canView _ hshown)
        tauto
  · intro h
    refine ⟨fun row hrow => hrow.opens h, fun hadmin row hrow howner hreview => ?_⟩
    have hview := hrow.opens h
    obtain ⟨doc, -, rfl, -⟩ := shown_iff.mp hrow
    rw [canView_selectBase, hadmin] at hview
    simp only [selectBase] at howner hreview
    simp only [howner, hreview, Bool.false_eq_true, false_or] at hview
    exact hview.2.2

namespace Budget

/-! A library document waits for the SME of its topic; another SME lists the library. -/

def securityTopic : Topic := ⟨10, "Security"⟩
def budgetTopic : Topic := ⟨11, "Budget"⟩
def securitySme : User := ⟨2, "sam@agency.test", "", "Sam", .user⟩

def report : Document where
  id := 5
  ownerId := 1
  scope := .library
  title := "Budget report"
  sourceFilename := "budget.pdf"
  mimeType := "application/pdf"
  sizeBytes := 4
  status := .ready
  embeddingProvider := .demo
  topicId := some budgetTopic.id
  reviewStatus := .pendingSme
  createdAt := 0
  updatedAt := 0

def store : Store where
  now := 0
  users := [⟨1, "ada@agency.test", "", "Ada", .admin⟩, securitySme]
  topics := [securityTopic, budgetTopic]
  smeDesignations := [⟨securityTopic.id, securitySme.id⟩]
  documents := [report]

end Budget

/-- The budget report is in the library list of the SME for security, who cannot open it. -/
theorem lists_not_open :
    ¬ ∀ (order : TimeOrder) (s : Store) (user : User), ListsOpen order s user := by
  intro h
  have hshown : Shown (fun _ => .stable) Budget.store Budget.securitySme
      (selectBase Budget.store Budget.securitySme Budget.report) :=
    shown_iff.mpr ⟨Budget.report, List.mem_singleton_self _, rfl, by decide⟩
  have hview := (h (fun _ => .stable) Budget.store Budget.securitySme).canView _ hshown
  exact absurd hview (by decide)

end Docsage.DotNet
