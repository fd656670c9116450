import Docsage.Api.Documents
import Docsage.Frontend.UploadPage
import Docsage.Library.Polling

/-! # The documents page

The state of `DocumentsPage`, with the call of its list effect and the loops of
`useDocumentPolling`. The polling effect runs at some time after the render that
changed its ids. One action is one turn of the event loop.
-/

namespace Docsage
open Polling Ranking Relational

namespace DocumentsPage

structure ListCall where
  ticket : ℕ
  scope : Scope
deriving DecidableEq

end DocumentsPage

structure DocumentsPage where
  scope : Scope := .personal
  documents : List DocumentSummary := []
  loading : Bool := true
  error : Option String := none
  selected : Option DocumentSummary := none
  detailOpen : Bool := false
  /-- The call that is not cancelled; the first is made on mount. -/
  listing : Option DocumentsPage.ListCall := some ⟨0, .personal⟩
  tickets : ℕ := 1
  /-- The cards of the last render. -/
  view : List DocumentSummary := []
  polling : Poller Uuid := {}
deriving DecidableEq

namespace DocumentsPage

abbrev describeError := UploadPage.describeError

def scopeText : Scope → String
  | .personal => "personal"
  | .library => "library"

def pollIds (documents : List DocumentSummary) : List Uuid :=
  (documents.filter fun doc => doc.status ≠ .ready ∧ doc.status ≠ .failed).map (·.id)

/-- The page shows its cards, and neither skeletons nor an error. -/
def showsCards (p : DocumentsPage) : Bool := !p.loading && p.error.isNone

inductive Action where
  /-- React renders the state as it is. -/
  | render
  /-- The effect of `useDocumentPolling` runs for the last render. -/
  | pollingEffect
  | selectScope (scope : Scope)
  /-- "Try again". -/
  | retry
  | listed (ticket : ℕ) (response : Except Frontend.Rejection (List DocumentSummary))
  | pollTimer (ticket : ℕ)
  /-- A call of `getDocument` by a polling loop settles. -/
  | polled (ticket : ℕ) (id : Uuid) (response : Except Frontend.Rejection DocumentDetail)
  | openDetail (document : DocumentSummary)
  | closeDetail
  /-- The dialog calls `onUpdate`. -/
  | updated (document : DocumentSummary)
  /-- The dialog calls `onDeleted`. -/
  | deleted (id : Uuid)

/-- The handlers that load the list again, and the list effect: the call before it is cancelled. -/
def reload (p : DocumentsPage) (scope : Scope) : DocumentsPage :=
  { p with
    scope
    loading := true
    error := none
    listing := some ⟨p.tickets, scope⟩
    tickets := p.tickets + 1 }

/-- The callbacks of `listDocuments`, newest document first. -/
def listed (p : DocumentsPage) (response : Except Frontend.Rejection (List DocumentSummary)) :
    DocumentsPage :=
  match response with
  | .ok items =>
    { p with documents := rank DocumentSummary.createdAt items, loading := false, listing := none }
  | .error err => { p with error := some (describeError err), loading := false, listing := none }

/-- `prev.map((doc) => doc.id === updated.id ? { ...doc, ...updated } : doc)`. -/
def updated (p : DocumentsPage) (document : DocumentSummary) : DocumentsPage :=
  { p with
    documents := update DocumentSummary.id document.id (fun _ => document) p.documents }

/-- `onUpdateRef.current`, unless the loop was cancelled. -/
def polled (p : DocumentsPage) (loop : Loop Uuid) (id : Uuid)
    (response : Except Frontend.Rejection DocumentDetail) : DocumentsPage :=
  let p := { p with polling := p.polling.put loop.ticket (Loop.settle · id) }
  match loop.cancelled, response with
  | false, .ok detail => p.updated detail.summary
  | _, _ => p

def step (p : DocumentsPage) : Action → Option DocumentsPage
  | .render => some { p with view := p.documents }
  | .pollingEffect => (p.polling.effect (pollIds p.view)).map fun polling => { p with polling }
  -- the tabs report changes only
  | .selectScope scope => if scope = p.scope then none else some (p.reload scope)
  | .retry => if !p.loading && p.error.isSome then some (p.reload p.scope) else none
  | .listed ticket response =>
    p.listing.bind fun call => if call.ticket = ticket then some (p.listed response) else none
  | .pollTimer ticket => (p.polling.fire ticket).map fun polling => { p with polling }
  | .polled ticket id response =>
    (lookup Loop.ticket ticket p.polling.loops).bind fun loop =>
      if id ∈ loop.awaited then some (p.polled loop id response) else none
  | .openDetail document =>
    if p.showsCards && document ∈ p.view then
      some { p with selected := some document, detailOpen := true }
    else none
  | .closeDetail => some { p with detailOpen := false }
  | .updated document => some (p.updated document)
  | .deleted id => some { p with documents := delete DocumentSummary.id id p.documents }

def mounted : DocumentsPage := {}

/-- The last render and the polling effect are those of the documents. -/
def Flushed (p : DocumentsPage) : Prop :=
  p.view = p.documents ∧ p.polling.ids = pollIds p.view

inductive Steps (p : DocumentsPage) : Action → DocumentsPage → Prop where
  | render : p.Steps .render { p with view := p.documents }
  | pollingEffect {polling : Poller Uuid} (h : p.polling.effect (pollIds p.view) = some polling) :
    p.Steps .pollingEffect { p with polling }
  | selectScope (scope : Scope) : p.Steps (.selectScope scope) (p.reload scope)
  | retry : p.Steps .retry (p.reload p.scope)
  | listed (call : ListCall) (response : Except Frontend.Rejection (List DocumentSummary))
    (awaited : p.listing = some call) : p.Steps (.listed call.ticket response) (p.listed response)
  | pollTimer {ticket : ℕ} {polling : Poller Uuid} (h : p.polling.fire ticket = some polling) :
    p.Steps (.pollTimer ticket) { p with polling }
  | polled (loop : Loop Uuid) (id : Uuid) (response : Except Frontend.Rejection DocumentDetail)
    (found : lookup Loop.ticket loop.ticket p.polling.loops = some loop)
    (awaited : id ∈ loop.awaited) :
    p.Steps (.polled loop.ticket id response) (p.polled loop id response)
  | openDetail (document : DocumentSummary) : p.Steps (.openDetail document)
      { p with selected := some document, detailOpen := true }
  | closeDetail : p.Steps .closeDetail { p with detailOpen := false }
  | updated (document : DocumentSummary) : p.Steps (.updated document) (p.updated document)
  | deleted (id : Uuid) : p.Steps (.deleted id)
      { p with documents := delete DocumentSummary.id id p.documents }

theorem step_cases {p p' : DocumentsPage} {a : Action} (h : p.step a = some p') :
    p.Steps a p' := by
  cases a with
  | render =>
    obtain rfl := Option.some.inj h
    exact .render
  | pollingEffect =>
    obtain ⟨polling, hpolling, rfl⟩ := Option.map_eq_some_iff.mp h
    exact .pollingEffect hpolling
  | selectScope scope =>
    obtain ⟨-, h⟩ := Option.ite_none_left_eq_some.mp h
    obtain rfl := Option.some.inj h
    exact .selectScope scope
  | retry =>
    obtain ⟨-, h⟩ := Option.ite_none_right_eq_some.mp h
    obtain rfl := Option.some.inj h
    exact .retry
  | listed ticket response =>
    obtain ⟨call, hcall, h⟩ := Option.bind_eq_some_iff.mp h
    obtain ⟨rfl, hlisted⟩ := Option.ite_none_right_eq_some.mp h
    obtain rfl := Option.some.inj hlisted
    exact .listed call response hcall
  | pollTimer ticket =>
    obtain ⟨polling, hpolling, rfl⟩ := Option.map_eq_some_iff.mp h
    exact .pollTimer hpolling
  | polled ticket id response =>
    obtain ⟨loop, hloop, h⟩ := Option.bind_eq_some_iff.mp h
    obtain ⟨hawaited, h⟩ := Option.ite_none_right_eq_some.mp h
    obtain rfl := Option.some.inj h
    obtain ⟨-, rfl⟩ := lookup_some hloop
    exact .polled loop id response hloop hawaited
  | openDetail document =>
    obtain ⟨-, h⟩ := Option.ite_none_right_eq_some.mp h
    obtain rfl := Option.some.inj h
    exact .openDetail document
  | closeDetail =>
    obtain rfl := Option.some.inj h
    exact .closeDetail
  | updated document =>
    obtain rfl := Option.some.inj h
    exact .updated document
  | deleted id =>
    obtain rfl := Option.some.inj h
    exact .deleted id

end DocumentsPage

end Docsage
