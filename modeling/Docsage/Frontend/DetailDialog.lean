import Docsage.Frontend.LiveCards

/-! # The detail dialog

The state of `DocumentDetailDialog` over all documents that it is opened with. The
detail that was fetched last stays until the next one lands, and the dialog names
its document by it; a deletion goes by the id the dialog was opened with.
-/

namespace Docsage
open Polling Relational Transition

namespace DocumentDetailDialog

/-- `{documentId}:{reloadToken}`. -/
abbrev FetchKey := Uuid × ℕ

structure FetchState where
  key : Option FetchKey := none
  detail : Option DocumentDetail := none
  error : Option String := none
deriving DecidableEq

structure Render where
  document : Option DocumentSummary := none
  isOpen : Bool := false
  fetchState : FetchState := {}
  reloadToken : ℕ := 0
  confirmingDelete : Bool := false
  deleting : Bool := false
deriving DecidableEq

namespace Render

def documentId (v : Render) : Option Uuid := v.document.map (·.id)

def fetchKey (v : Render) : Option FetchKey :=
  if v.isOpen then v.documentId.map fun id => (id, v.reloadToken) else none

def loading (v : Render) : Bool := v.fetchKey.isSome && v.fetchState.key ≠ v.fetchKey

def doc (v : Render) : Option DocumentSummary :=
  (v.fetchState.detail.map (·.summary)) <|> v.document

def pollIds (v : Render) : List Uuid :=
  if v.isOpen then
    (v.fetchState.detail.toList.filter fun detail =>
      detail.summary.status ≠ .ready ∧ detail.summary.status ≠ .failed).map (·.summary.id)
  else []

def canDelete (v : Render) (user : Option User) : Bool :=
  match user, v.doc with
  | some user, some doc =>
    user.isAdmin || match doc.owner with
      | some owner => owner.1 = user.id
      | none => doc.scope = .personal
  | _, _ => false

end Render

/-- A call of `getDocument` by the fetch effect, with the effect's `cancelled`. -/
structure Fetch where
  ticket : ℕ
  key : FetchKey
  cancelled : Bool := false
deriving DecidableEq

/-- A deletion that was confirmed, with the render it was confirmed in. -/
structure Deletion where
  ticket : ℕ
  documentId : Uuid
  view : Render
deriving DecidableEq

end DocumentDetailDialog

open DocumentDetailDialog in
structure DocumentDetailDialog where
  user : Option User
  now : Render := {}
  /-- The last render. -/
  view : Render := {}
  /-- The key that the fetch effect ran for last, and the fetch its cleanup cancels. -/
  effectKey : Option FetchKey := none
  effectFetch : Option ℕ := none
  tickets : ℕ := 0
  fetches : List Fetch := []
  polling : Poller Uuid := {}
  awaited : List Deletion := []
  /-- Every deletion that was asked for; history. -/
  deletions : List Deletion := []
deriving DecidableEq

namespace DocumentDetailDialog

inductive Action where
  /-- The page passes other props. -/
  | props (document : Option DocumentSummary) (isOpen : Bool)
  | render
  | fetchEffect
  | fetched (ticket : ℕ) (response : Except Frontend.Rejection DocumentDetail)
  | pollingEffect
  | pollTimer (ticket : ℕ)
  | polled (ticket : ℕ) (id : Uuid) (response : Except Frontend.Rejection DocumentDetail)
  /-- "Try again". -/
  | retry
  /-- The dialog is closed by its reader. -/
  | close
  | confirm
  | cancel
  | handleDelete
  /-- A call of `deleteDocument` settles. -/
  | deleted (ticket : ℕ) (outcome : Except Frontend.Rejection Unit)

def cleanup (d : DocumentDetailDialog) : DocumentDetailDialog :=
  match d.effectFetch with
  | none => d
  | some ticket =>
    { d with
      effectFetch := none
      fetches := update Fetch.ticket ticket (fun f => { f with cancelled := true }) d.fetches }

def fetchEffect (d : DocumentDetailDialog) : Option DocumentDetailDialog :=
  if d.effectKey = d.view.fetchKey then none
  else
    match d.view.fetchKey with
    | none => some { d.cleanup with effectKey := none }
    | some key =>
      some { d.cleanup with
        effectKey := some key
        effectFetch := some d.tickets
        tickets := d.tickets + 1
        fetches := d.cleanup.fetches ++ [{ ticket := d.tickets, key }] }

def fetched (d : DocumentDetailDialog) (f : Fetch)
    (response : Except Frontend.Rejection DocumentDetail) : DocumentDetailDialog :=
  let fetches := delete Fetch.ticket f.ticket d.fetches
  if f.cancelled then { d with fetches }
  else
    let fetchState : FetchState :=
      match response with
      | .ok detail => { key := some f.key, detail := some detail }
      | .error err => { key := some f.key, error := some (DocumentsPage.describeError err) }
    { d with fetches, now := { d.now with fetchState } }

/-- `handlePolled`, up to the call of `onUpdate`. -/
def handlePolled (d : DocumentDetailDialog) (updated : DocumentDetail) : DocumentDetailDialog :=
  match d.now.fetchState.detail with
  | some detail =>
    if detail.summary.id = updated.summary.id then
      let fetchState := { d.now.fetchState with detail := some updated }
      { d with now := { d.now with fetchState } }
    else d
  | none => d

def polled (d : DocumentDetailDialog) (loop : Loop Uuid) (id : Uuid)
    (response : Except Frontend.Rejection DocumentDetail) : DocumentDetailDialog :=
  let d := { d with polling := d.polling.put loop.ticket (Loop.settle · id) }
  match loop.cancelled, response with
  | false, .ok detail => d.handlePolled detail
  | _, _ => d

def footer (d : DocumentDetailDialog) (confirming : Bool) : Bool :=
  d.view.isOpen && d.view.canDelete d.user && d.view.confirmingDelete == confirming

/-- The buttons beside the question are disabled while a deletion is awaited. -/
def answerable (d : DocumentDetailDialog) : Bool := d.footer true && !d.view.deleting

def handleDelete (d : DocumentDetailDialog) (documentId : Uuid) : DocumentDetailDialog :=
  let deletion : Deletion := ⟨d.tickets, documentId, d.view⟩
  { d with
    now := { d.now with deleting := true }
    tickets := d.tickets + 1
    awaited := d.awaited ++ [deletion]
    deletions := d.deletions ++ [deletion] }

/-- The rest of `handleDelete`. The page closes the dialog on `onOpenChange`. -/
def deleted (d : DocumentDetailDialog) (deletion : Deletion)
    (outcome : Except Frontend.Rejection Unit) : DocumentDetailDialog :=
  let awaited := delete Deletion.ticket deletion.ticket d.awaited
  match outcome with
  | .ok () =>
    { d with
      awaited
      now := { d.now with confirmingDelete := false, isOpen := false, deleting := false } }
  | .error _ => { d with awaited, now := { d.now with deleting := false } }

def step (d : DocumentDetailDialog) : Action → Option DocumentDetailDialog
  | .props document isOpen => some { d with now := { d.now with document, isOpen } }
  | .render => some { d with view := d.now }
  | .fetchEffect => d.fetchEffect
  | .fetched ticket response =>
    (lookup Fetch.ticket ticket d.fetches).map fun f => d.fetched f response
  | .pollingEffect => (d.polling.effect d.view.pollIds).map fun polling => { d with polling }
  | .pollTimer ticket => (d.polling.fire ticket).map fun polling => { d with polling }
  | .polled ticket id response =>
    (lookup Loop.ticket ticket d.polling.loops).bind fun loop =>
      if id ∈ loop.awaited then some (d.polled loop id response) else none
  | .retry =>
    if d.view.isOpen && !d.view.loading && d.view.fetchState.error.isSome then
      some { d with now := { d.now with reloadToken := d.now.reloadToken + 1 } }
    else none
  | .close =>
    if d.view.isOpen then
      some { d with now := { d.now with confirmingDelete := false, isOpen := false } }
    else none
  | .confirm =>
    if d.footer false then some { d with now := { d.now with confirmingDelete := true } }
    else none
  | .cancel =>
    if d.answerable then some { d with now := { d.now with confirmingDelete := false } }
    else none
  | .handleDelete =>
    if d.answerable then d.view.documentId.map d.handleDelete else none
  | .deleted ticket outcome =>
    (lookup Deletion.ticket ticket d.awaited).map fun deletion => d.deleted deletion outcome

def mounted (user : Option User) : DocumentDetailDialog where
  user := user

/-- A detail that arrives is about the document it was asked for. -/
def Answered (d : DocumentDetailDialog) : Action → Prop
  | .fetched ticket (.ok detail) => ∀ f, lookup Fetch.ticket ticket d.fetches = some f →
    ∃ order userId w, DetailBy order userId w f.key.1 detail
  | .polled _ id (.ok detail) => ∃ order userId w, DetailBy order userId w id detail
  | _ => True

/-- While a detail is loading, the dialog still holds that of another document. -/
def Render.holdsOther (v : Render) : Bool :=
  v.loading && v.fetchState.detail.any fun detail => v.documentId ≠ some detail.summary.id

/-- The last render and the polling effect are those of the state. -/
def Flushed (d : DocumentDetailDialog) : Prop := d.view = d.now ∧ d.polling.ids = d.view.pollIds

namespace FetchState

/-- Something was fetched for the key: the detail of its document, or an error. -/
def Landed (s : FetchState) : Prop :=
  ∀ key, s.key = some key →
    (∃ detail, s.detail = some detail ∧ detail.summary.id = key.1) ∨
      s.detail = none ∧ s.error.isSome

def Sound (s : FetchState) : Prop := s.Landed ∧ (s.key = none → s.detail = none)

end FetchState

structure Sound (d : DocumentDetailDialog) : Prop where
  now : d.now.fetchState.Sound
  view : d.view.fetchState.Sound
  polling : d.polling.Sound
  deletions : ∀ r ∈ d.deletions,
    r.view.fetchState.Sound ∧ r.view.isOpen = true ∧ r.view.documentId = some r.documentId

variable {d d' : DocumentDetailDialog} {a : Action} {v : Render}

theorem Sound.handlePolled (sound : d.Sound) (updated : DocumentDetail) :
    (d.handlePolled updated).Sound := by
  unfold DocumentDetailDialog.handlePolled
  split
  · next detail hdetail =>
    split
    · next hid =>
      refine ⟨⟨fun key hkey => .inl ⟨updated, rfl, ?_⟩, fun hnone => ?_⟩, sound.view,
        sound.polling, sound.deletions⟩
      · rcases sound.now.1 key hkey with ⟨held, hheld, hname⟩ | ⟨hnone, -⟩
        · rw [← hid, Option.some.inj (hdetail.symm.trans hheld), hname]
        · rw [hnone] at hdetail
          cases hdetail
      · rw [sound.now.2 hnone] at hdetail
        cases hdetail
    · exact sound
  · exact sound

theorem Sound.fetched (sound : d.Sound) {f : Fetch}
    {response : Except Frontend.Rejection DocumentDetail}
    (about : ∀ detail, response = .ok detail → detail.summary.id = f.key.1) :
    (d.fetched f response).Sound := by
  unfold DocumentDetailDialog.fetched
  split
  · exact ⟨sound.now, sound.view, sound.polling, sound.deletions⟩
  · cases response with
    | ok detail =>
      refine ⟨⟨fun key hkey => .inl ⟨detail, rfl, ?_⟩, fun hnone => by cases hnone⟩, sound.view,
        sound.polling, sound.deletions⟩
      rw [about detail rfl, Option.some.inj hkey]
    | error err =>
      exact ⟨⟨fun _ _ => .inr ⟨rfl, rfl⟩, fun _ => rfl⟩, sound.view, sound.polling,
        sound.deletions⟩

theorem fetchEffect_eq (h : d.fetchEffect = some d') : ∃ effectKey effectFetch tickets fetches,
    d' = { d with effectKey, effectFetch, tickets, fetches } := by
  have hcleanup : ∃ effectFetch fetches, d.cleanup = { d with effectFetch, fetches } := by
    unfold cleanup
    split
    · exact ⟨d.effectFetch, d.fetches, rfl⟩
    · exact ⟨_, _, rfl⟩
  obtain ⟨effectFetch, fetches, hcleanup⟩ := hcleanup
  unfold fetchEffect at h
  rw [hcleanup] at h
  obtain ⟨-, h⟩ := Option.ite_none_left_eq_some.mp h
  split at h <;> exact ⟨_, _, _, _, (Option.some.inj h).symm⟩

theorem Sound.step (sound : d.Sound) (answered : d.Answered a) (h : d.step a = some d') :
    d'.Sound := by
  obtain ⟨now, view, polling, deletions⟩ := sound
  cases a with
  | props document isOpen =>
    obtain rfl := Option.some.inj h
    exact ⟨now, view, polling, deletions⟩
  | render =>
    obtain rfl := Option.some.inj h
    exact ⟨now, now, polling, deletions⟩
  | fetchEffect =>
    obtain ⟨effectKey, effectFetch, tickets, fetches, rfl⟩ := fetchEffect_eq h
    exact ⟨now, view, polling, deletions⟩
  | fetched ticket response =>
    obtain ⟨f, hf, rfl⟩ := Option.map_eq_some_iff.mp h
    refine Sound.fetched ⟨now, view, polling, deletions⟩ fun detail hdetail => ?_
    subst hdetail
    obtain ⟨order, userId, w, hdetail⟩ := answered f hf
    exact hdetail.tells.1
  | pollingEffect =>
    obtain ⟨polling', heffect, rfl⟩ := Option.map_eq_some_iff.mp h
    exact ⟨now, view, (polling.effect heffect).1, deletions⟩
  | pollTimer ticket =>
    obtain ⟨polling', hfire, rfl⟩ := Option.map_eq_some_iff.mp h
    exact ⟨now, view, polling.fire hfire, deletions⟩
  | polled ticket id response =>
    obtain ⟨loop, hloop, h⟩ := Option.bind_eq_some_iff.mp h
    obtain ⟨hawaited, h⟩ := Option.ite_none_right_eq_some.mp h
    obtain rfl := Option.some.inj h
    have hsettled : Sound { d with polling := d.polling.put loop.ticket (Loop.settle · id) } :=
      ⟨now, view, polling.settle_found (lookup_some hloop).1 hawaited, deletions⟩
    unfold DocumentDetailDialog.polled
    split
    · exact hsettled.handlePolled _
    · exact hsettled
  | retry | close | confirm | cancel =>
    obtain ⟨-, h⟩ := Option.ite_none_right_eq_some.mp h
    obtain rfl := Option.some.inj h
    exact ⟨now, view, polling, deletions⟩
  | handleDelete =>
    obtain ⟨hanswerable, h⟩ := Option.ite_none_right_eq_some.mp h
    obtain ⟨documentId, hid, rfl⟩ := Option.map_eq_some_iff.mp h
    have hopen : d.view.isOpen = true := by
      simp only [answerable, footer, Bool.and_eq_true] at hanswerable
      exact hanswerable.1.1.1
    refine ⟨now, view, polling, fun r hr => ?_⟩
    rcases List.mem_append.mp hr with hr | hr
    · exact deletions r hr
    · obtain rfl := List.mem_singleton.mp hr
      exact ⟨view, hopen, hid⟩
  | deleted ticket outcome =>
    obtain ⟨deletion, -, rfl⟩ := Option.map_eq_some_iff.mp h
    unfold DocumentDetailDialog.deleted
    split <;> exact ⟨now, view, polling, deletions⟩

/-- A render of the open dialog shows the document it was opened with, or that of a detail from
before. -/
theorem Render.doc_iff (sound : v.fetchState.Sound) (isOpen : v.isOpen = true) {id : Uuid}
    (hid : v.documentId = some id) :
    v.doc.map (·.id) = some id ↔ v.holdsOther = false := by
  have hkey : v.fetchKey = some (id, v.reloadToken) := by simp [Render.fetchKey, isOpen, hid]
  cases hdetail : v.fetchState.detail with
  | none =>
    have hdoc : v.doc = v.document := by simp [Render.doc, hdetail]
    rw [hdoc]
    exact iff_of_true hid (by simp [Render.holdsOther, hdetail])
  | some detail =>
    have hdoc : v.doc = some detail.summary := by simp [Render.doc, hdetail]
    rw [hdoc, Option.map_some, Option.some_inj]
    by_cases hsame : detail.summary.id = id
    · exact iff_of_true hsame (by simp [Render.holdsOther, hdetail, hid, hsame])
    · refine iff_of_false hsame ?_
      -- a detail of another document can only be there while this one is loading
      have hloading : v.loading = true := by
        by_contra hlanded
        have hlanded : v.fetchState.key = some (id, v.reloadToken) := by
          simpa [Render.loading, hkey] using hlanded
        rcases sound.1 _ hlanded with ⟨held, hheld, hname⟩ | ⟨hnone, -⟩
        · exact hsame ((congrArg (·.summary.id) (Option.some.inj (hdetail.symm.trans hheld))).trans
            hname)
        · rw [hnone] at hdetail
          cases hdetail
      simp [Render.holdsOther, hdetail, hid, hloading, Ne.symm hsame]

/-- In every run of the dialog: a deletion deletes the document that its question named, unless the
detail of the document was still loading and that of another one was held. Once the effects have
run, the detail is polled as long as its document is being processed. -/
theorem deletions_named_iff {user : Option User} (run : Run step Answered (mounted user) d) :
    (∀ r ∈ d.deletions,
      r.view.doc.map (·.id) = some r.documentId ↔ r.view.holdsOther = false) ∧
    (d.Flushed → d.polling.Watches d.now.pollIds) := by
  have hfetch : FetchState.Sound {} := ⟨fun key hkey => (by cases hkey), fun _ => rfl⟩
  have sound : d.Sound := run.invariant
    ⟨hfetch, hfetch, Poller.sound_empty, fun r hr => absurd hr List.not_mem_nil⟩
    fun _ _ _ sound answered taken => sound.step answered taken
  refine ⟨fun r hr => ?_, fun ⟨hview, hids⟩ => ?_⟩
  · obtain ⟨hsound, hopen, hid⟩ := sound.deletions r hr
    exact Render.doc_iff hsound hopen hid
  · rw [← hview, ← hids]
    exact sound.polling.watches

namespace Swapped

/-! The admin reads the report, opens the diary from the list, and deletes it at once. -/

def diary : DocumentSummary := summarize Agency.start.store Diary.diary Agency.admin []

def report : DocumentDetail :=
  (documentDetail (fun _ => .stable) Agency.visit.world.store Agency.admin 7).toOption.getD
    ⟨diary, [], []⟩

def actions : List Action :=
  [.props (some report.summary) true, .render, .fetchEffect, .fetched 0 (.ok report), .close,
    .render, .fetchEffect, .props (some diary) true, .render, .fetchEffect, .confirm, .render,
    .handleDelete]

def dialog : DocumentDetailDialog :=
  (execute step (mounted (some Agency.admin)) actions).getD (mounted none)

theorem dialog_run : Run step Answered (mounted (some Agency.admin)) dialog := by
  have hobeys : Obeys step Answered (mounted (some Agency.admin)) actions := by
    refine ⟨trivial, fun _ h₁ => ⟨trivial, fun _ h₂ => ⟨trivial, fun _ h₃ => ⟨fun f hf => ?_,
      fun t _ => obeys_of_forall (fun a ha s => ?_) t⟩⟩⟩⟩
    · obtain rfl := Option.some.inj h₁
      obtain rfl := Option.some.inj h₂
      obtain rfl := Option.some.inj h₃
      obtain rfl := Option.some.inj hf
      exact ⟨fun _ => .stable, Agency.admin.id, Agency.visit.world, Agency.admin, rfl, .inl rfl⟩
    · simp only [List.mem_cons, List.not_mem_nil, or_false] at ha
      rcases ha with rfl | rfl | rfl | rfl | rfl | rfl | rfl | rfl | rfl <;> trivial
  exact Run.of_execute hobeys rfl

end Swapped

/-- The question named the report, and the diary was deleted. -/
theorem deletions_named_iff_swapped : ∃ r ∈ Swapped.dialog.deletions,
    r.documentId = Swapped.diary.id ∧ r.view.doc.map (·.id) ≠ some r.documentId := by
  obtain ⟨r, hr, hid, hother⟩ : ∃ r ∈ Swapped.dialog.deletions,
      r.documentId = Swapped.diary.id ∧ r.view.holdsOther = true := by decide
  refine ⟨r, hr, hid, fun hnamed => ?_⟩
  have hsame := ((deletions_named_iff Swapped.dialog_run).1 r hr).mp hnamed
  rw [hother] at hsame
  cases hsame

end DocumentDetailDialog

end Docsage
