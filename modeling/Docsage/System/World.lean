import Docsage.Api.Reviews
import Docsage.Api.Upload
import Docsage.Auth.Sessions
import Docsage.Ingestion.DotNet
import Docsage.Ingestion.Run
import Docsage.Library.Transition
import Docsage.Retrieval.Retrieve

/-! # The two backends over one database

A world is the shared store and what the two processes have in flight: the
ingestion runs, each suspended at its next access, and the review requests that
passed their checks and have not written yet. One action is one access by one
of them, or something done to the system from outside.
-/

namespace Docsage
open Effects Relational Transition

def staleTransientAfter : ℤ := 15 * 60 * 1000000

def interruptedMessage : String := "interrupted by server restart — re-upload"

/-- The WHERE clause of the sweep. -/
def Document.stale (now : Timestamp) (row : Document) : Bool :=
  row.status.transient && row.updatedAt < now - staleTransientAfter

def Document.sweep (now : Timestamp) (row : Document) : Document :=
  if row.stale now then
    { row with status := .failed, statusError := some interruptedMessage, updatedAt := now }
  else row

theorem Document.sweep_fixed (now : Timestamp) (row : Document) :
    (row.sweep now).fixed = row.fixed := by
  unfold Document.sweep
  split <;> rfl

def failStaleDocuments (s : Store) : Store :=
  { s with documents := s.documents.map (·.sweep s.now) }

def recoverOnStartup (s : Store) : Store := purgeExpiredSessions (failStaleDocuments s)

/-- `Recovery.SweepAsync`: the same two statements. -/
def DotNet.sweepAsync (s : Store) : Store := purgeExpiredSessions (failStaleDocuments s)

inductive Backend where
  | fastApi
  | dotNet
deriving DecidableEq, Repr

/-- The run of one document, suspended at its next access to the store. -/
structure Job where
  backend : Backend
  documentId : Uuid
  program : IngestionProgram

/-- How far a review request has written. Only the .NET handler stops between two writes. -/
inductive ReviewStage where
  | passed
  | inserted
deriving DecidableEq, Repr

/-- A review request that passed its checks on the store it read. Tickets tell requests apart. -/
structure OpenReview where
  ticket : ℕ
  backend : Backend
  request : ReviewRequest
  decision : Decision
  snapshot : Store
  stage : ReviewStage := .passed

/-- The history of an approvals row: the request behind it, and the store that request read. -/
structure Decided where
  request : ReviewRequest
  snapshot : Store
  approval : Approval

structure ReviewAnswer where
  request : ReviewRequest
  status : ℕ

structure World where
  store : Store
  settings : Settings
  options : DotNet.DocsageOptions
  /-- Document ids ever drawn; `uuid4` does not repeat itself. -/
  issued : List Uuid := []
  jobs : List Job := []
  tickets : ℕ := 0
  reviews : List OpenReview := []
  decided : List Decided := []
  answers : List ReviewAnswer := []
  /-- Every cosine comparison ever made. -/
  compared : List Comparison := []

inductive Action where
  /-- Time passes. -/
  | tick (elapsed : ℕ)
  /-- Accounts, roles, topics and designations change, by request or out of band. -/
  | administer (users : List User) (topics : List Topic) (smeDesignations : List SmeDesignation)
  /-- An upload request of a user, as the request found that user. -/
  | uploadFastApi (user : User) (documentId : Uuid) (upload : UploadCalls) (request : UploadRequest)
      (calls : IngestionCalls)
  | uploadDotNet (user : User) (documentId : Uuid) (saveFile : Except Exc Unit)
      (request : DotNet.UploadRequest) (calls : DotNet.PipelineCalls)
  /-- A run performs its next access, under an injected fault. -/
  | advance (documentId : Uuid) (fault : Option Exc)
  /-- The process ends with everything it had in flight, and starts with another configuration. -/
  | restartFastApi (settings : Settings)
  | restartDotNet (options : DotNet.DocsageOptions)
  /-- The startup sweep of a backend. -/
  | sweep (backend : Backend)
  /-- A delete request commits; its checks were made earlier. -/
  | delete (documentId : Uuid)
  /-- A review request reads the store. -/
  | review (backend : Backend) (request : ReviewRequest)
  /-- An open review performs its next write, under an injected fault. -/
  | write (ticket : ℕ) (fault : Option Exc)
  /-- The nearest-neighbour query of one space in somebody's retrieval. -/
  | askFastApi (service : EmbeddingService) (userId : Uuid) (scope : ChatScope) (question : String)
      (providerName : ProviderName)
  | askDotNet (service : DotNet.EmbeddingService) (userId : Uuid) (scope : ChatScope)
      (question : Text.Utf16) (providerName : ProviderName)

/-- The foreign keys of the INSERT into `documents`. -/
def insertable (s : Store) (row : Document) : Bool :=
  (s.user? row.ownerId).isSome && row.topicId.all fun t => (s.topic? t).isSome

namespace World

/-- The INSERT of an upload, and the run it schedules. A refused upload changes nothing. -/
def accept (w : World) (upload : Except HttpError Document) (job : Job) : Option World :=
  if job.documentId ∈ w.issued then none
  else
    match upload with
    | .error _ => some w
    | .ok row =>
      if insertable w.store row then
        some { w with
          store := w.store.insertDocument row
          issued := job.documentId :: w.issued
          jobs := w.jobs ++ [job] }
      else some w

/-- One access of the run of a document; a run that has ended is forgotten. -/
def advance (w : World) (documentId : Uuid) (fault : Option Exc) : Option World :=
  (lookup Job.documentId documentId w.jobs).bind fun job =>
    (job.program.resume fault w.store).map fun p =>
      { w with
        store := p.2
        jobs :=
          if p.1.ended then delete Job.documentId documentId w.jobs
          else update Job.documentId documentId (fun _ => { job with program := p.1 }) w.jobs }

/-- A backend goes down: its runs and its open requests are gone. -/
def kill (w : World) (backend : Backend) : World :=
  { w with
    jobs := w.jobs.filter fun job => job.backend ≠ backend
    reviews := w.reviews.filter fun review => review.backend ≠ backend }

def checks : Backend → Store → ReviewRequest → Except HttpError Decision
  | .fastApi => decideChecks
  | .dotNet => DotNet.decideChecks

/-- A review request reads the store: it is answered, or it stays open to write. -/
def review (w : World) (backend : Backend) (request : ReviewRequest) : World :=
  match checks backend w.store request with
  | .error error => { w with answers := w.answers ++ [⟨request, error.status⟩] }
  | .ok decision =>
    { w with
      tickets := w.tickets + 1
      reviews := w.reviews ++ [⟨w.tickets, backend, request, decision, w.store, .passed⟩] }

def answer (w : World) (r : OpenReview) (status : ℕ) : World :=
  { w with
    reviews := delete OpenReview.ticket r.ticket w.reviews
    answers := w.answers ++ [⟨r.request, status⟩] }

/-- An approvals row is in the store; the history says what stood behind it. -/
def record (w : World) (r : OpenReview) (approval : Approval) : World :=
  { w with decided := w.decided ++ [⟨r.request, r.snapshot, approval⟩] }

def commitReview (w : World) (r : OpenReview) (fault : Option Exc) : World :=
  match attempt fault (decideCommit r.snapshot.now r.request r.decision) w.store with
  | (.ok (), s) =>
    ({ w with store := s }.record r
      (decideApproval r.snapshot.now r.request r.decision)).answer r 200
  | (.error _, _) => w.answer r 500

def insertReview (w : World) (r : OpenReview) (fault : Option Exc) : World :=
  match attempt fault (DotNet.insertDecision r.request r.decision) w.store with
  | (.ok (), s) =>
    { w with
      store := s
      reviews := update OpenReview.ticket r.ticket (fun _ => { r with stage := .inserted })
        w.reviews }.record r (DotNet.decideApproval w.store.now r.request r.decision)
  | (.error _, _) => w.answer r 500

def updateReview (w : World) (r : OpenReview) (fault : Option Exc) : World :=
  match attempt fault (DotNet.updateDecision r.request r.decision) w.store with
  | (.ok (), s) => { w with store := s }.answer r 200
  | (.error _, _) => w.answer r 500

/-- The next write of an open review. A failed one ends the request with a server error. -/
def write (w : World) (ticket : ℕ) (fault : Option Exc) : Option World :=
  (lookup OpenReview.ticket ticket w.reviews).map fun r =>
    match r.backend, r.stage with
    | .fastApi, _ => w.commitReview r fault
    | .dotNet, .passed => w.insertReview r fault
    | .dotNet, .inserted => w.updateReview r fault

/-- The comparisons of a query, if there is a query vector to compare with. -/
def compare (w : World) (visible : Document → Bool) (providerName : ProviderName)
    (query : Except Exc Vector) : World :=
  match query with
  | .error _ => w
  | .ok vector =>
    { w with compared := w.compared ++ comparisons w.store visible providerName vector }

/-- The two backends and their environment take one step. -/
def step (w : World) : Action → Option World
  | .tick elapsed => some { w with store := { w.store with now := w.store.now + elapsed } }
  | .administer users topics smeDesignations =>
    some { w with store := { w.store with users, topics, smeDesignations } }
  | .uploadFastApi user documentId upload request calls =>
    w.accept (uploadDocument w.settings upload w.store user documentId request)
      ⟨.fastApi, documentId, runIngestion w.settings calls documentId⟩
  | .uploadDotNet user documentId saveFile request calls =>
    w.accept
      (DotNet.uploadDocument w.options calls.service saveFile w.store user documentId request)
      ⟨.dotNet, documentId, DotNet.runAsync w.options calls documentId⟩
  | .advance documentId fault => w.advance documentId fault
  | .restartFastApi settings => some { w.kill .fastApi with settings }
  | .restartDotNet options => some { w.kill .dotNet with options }
  | .sweep .fastApi => some { w with store := recoverOnStartup w.store }
  | .sweep .dotNet => some { w with store := DotNet.sweepAsync w.store }
  | .delete documentId => some { w with store := w.store.deleteDocument documentId }
  | .review backend request => some (w.review backend request)
  | .write ticket fault => w.write ticket fault
  | .askFastApi service userId scope question providerName =>
    some (w.compare (candidateFilter userId scope) providerName
      (queryVector w.settings service question providerName))
  | .askDotNet service userId scope question providerName =>
    some (w.compare (DotNet.candidatePredicate userId scope) providerName
      (DotNet.queryVector w.options service question providerName))

/-- No document was ever uploaded; accounts, topics and configurations are arbitrary. -/
structure Initial (w : World) : Prop where
  documents : w.store.documents = []
  chunks : w.store.chunks = []
  enrichments : w.store.enrichments = []
  approvals : w.store.approvals = []
  issued : w.issued = []
  jobs : w.jobs = []
  reviews : w.reviews = []
  decided : w.decided = []
  compared : w.compared = []

end World

/-! Two admins, an SME for one topic, and a one-page document, for the runs that the
results are shown on. -/

namespace Agency

def topic : Topic := ⟨10, "Finance"⟩
def admin : User := ⟨1, "ada@agency.test", "", "Ada", .admin⟩
def sme : User := ⟨2, "sam@agency.test", "", "Sam", .user⟩
def secondAdmin : User := ⟨3, "bo@agency.test", "", "Bo", .admin⟩

def start : World where
  store :=
    { now := 0, users := [admin, sme, secondAdmin], topics := [topic]
      smeDesignations := [⟨topic.id, sme.id⟩] }
  settings := {}
  options := {}

def calls : IngestionCalls where
  service := offlineService
  extract _ _ _ := .ok { parts := [{ kind := .text, content := "Revenue grew." }] }
  enrich _ _ _ := .ok { summary := "Revenue grew." }
  chunkIds position := 100 + position

def uploadCalls : UploadCalls where
  titleCase title := title
  repr _ := ""
  service := offlineService
  saveUpload := .ok ()

def uploadReport : Action :=
  .uploadFastApi admin 7 uploadCalls
    { provider := "demo", scope := "library", topicId := some topic.id
      filename := some "report.pdf", contentType := some "application/pdf"
      data := [0x25, 0x50, 0x44, 0x46] } calls

def ingestReport : List Action := uploadReport :: List.replicate 6 (.advance 7 none)

def reported : World := (execute World.step start ingestReport).getD start

def approve (user : User) : ReviewRequest := ⟨user.id, 7, "approved", "Looks right."⟩
def reject (user : User) : ReviewRequest := ⟨user.id, 7, "rejected", ""⟩

theorem start_initial : start.Initial := ⟨rfl, rfl, rfl, rfl, rfl, rfl, rfl, rfl, rfl⟩

end Agency

end Docsage
