import Docsage.Api.DotNetDocuments
import Docsage.Frontend.DocumentsPage
import Docsage.System.Keys
import Docsage.System.Terminal

/-! # Live cards

The documents page in front of the two backends. Answers may be as old as the visit:
each one was given by some state of the world so far. A card that is shown as ready or
failed is right all the same, and a card that is not is polled.
-/

namespace Docsage
open Effects Polling Ranking Relational Transition

section Answered

variable (order : TimeOrder) (userId : Uuid) (w : World)

/-- A backend answers the user's `listDocuments(scope)` so in this state. -/
def ListedBy (scope : Scope) (items : List DocumentSummary) : Prop :=
  ∃ user, w.store.user? userId = some user ∧
    (listDocuments order w.store user (DocumentsPage.scopeText scope) = .ok items ∨
      DotNet.listDocuments order w.store user (some (DocumentsPage.scopeText scope)) = .ok items)

/-- A backend answers the user's `getDocument(id)` so in this state. -/
def DetailBy (id : Uuid) (detail : DocumentDetail) : Prop :=
  ∃ user, w.store.user? userId = some user ∧
    (documentDetail order w.store user id = .ok detail ∨
      DotNet.documentDetail order w.store user id = .ok detail)

end Answered

structure Visit where
  world : World
  /-- The states of the world since the visit began; history. -/
  past : List World := []
  page : DocumentsPage := .mounted

namespace Visit

inductive Action where
  | server (a : Docsage.Action)
  | page (a : DocumentsPage.Action)

def step (v : Visit) : Action → Option Visit
  | .server a => (v.world.step a).map fun world =>
    { v with world, past := v.world :: v.past }
  | .page a => (v.page.step a).map fun page => { v with page }

def worlds (v : Visit) : List World := v.world :: v.past

/-- No sweep meets a live run, and what arrives was answered since the visit began. -/
def Allowed (order : TimeOrder) (userId : Uuid) (v : Visit) : Action → Prop
  | .server a => SparesLiveRuns v.world a
  | .page (.listed _ (.ok items)) => ∀ call, v.page.listing = some call →
    ∃ w ∈ v.worlds, ListedBy order userId w call.scope items
  | .page (.polled _ id (.ok detail)) => ∃ w ∈ v.worlds, DetailBy order userId w id detail
  | .page (.updated document) => ∃ w ∈ v.worlds, ∃ detail,
    DetailBy order userId w document.id detail ∧ detail.summary = document
  | _ => True

end Visit

def Tells (w : World) (summary : DocumentSummary) : Prop :=
  ∃ row, w.store.document? summary.id = some row ∧ summary.status = row.status

variable {order : TimeOrder} {userId : Uuid} {w₀ w w' : World}

theorem ListedBy.tells (keyed : w.store.Keyed) {scope : Scope} {items : List DocumentSummary}
    (listed : ListedBy order userId w scope items) : ∀ item ∈ items, Tells w item := by
  obtain ⟨user, -, h | h⟩ := listed
  · obtain ⟨scope, -, h⟩ := orRefuse_bind_ok h
    obtain rfl := Except.ok.inj h
    intro item hitem
    obtain ⟨doc, hdoc, rfl⟩ := List.mem_map.mp hitem
    exact ⟨doc, keyed.document? (mem_listedDocuments.mp hdoc).1, rfl⟩
  · obtain ⟨-, h⟩ := refuse_bind_ok h
    obtain rfl := Except.ok.inj h
    intro item hitem
    obtain ⟨row, hrow, rfl⟩ := List.mem_map.mp hitem
    obtain ⟨doc, hdoc, -, rfl⟩ := DotNet.mem_listAsync.mp hrow
    exact ⟨doc, keyed.document? hdoc, rfl⟩

theorem DetailBy.tells {id : Uuid} {detail : DocumentDetail}
    (answered : DetailBy order userId w id detail) :
    detail.summary.id = id ∧ Tells w detail.summary := by
  obtain ⟨user, -, h | h⟩ := answered
  · obtain ⟨doc, hview, h⟩ := bind_ok h
    obtain rfl := Except.ok.inj h
    obtain ⟨row, hrow, hview⟩ := orRefuse_bind_ok hview
    obtain ⟨-, hview⟩ := refuse_bind_ok hview
    obtain rfl := Except.ok.inj hview
    have hid := Store.document?_id hrow
    exact ⟨hid, row, hid ▸ hrow, rfl⟩
  · obtain ⟨row, hfound, h⟩ := orRefuse_bind_ok h
    obtain ⟨-, h⟩ := refuse_bind_ok h
    obtain rfl := Except.ok.inj h
    obtain ⟨doc, hdoc, rfl⟩ := Option.map_eq_some_iff.mp hfound
    have hid := Store.document?_id hdoc
    exact ⟨hid, doc, hid ▸ hdoc, rfl⟩

/-- Between two states of a run each document lives a life in which nothing comes back. -/
theorem World.Initial.final (initial : w₀.Initial) (before : Run World.step SparesLiveRuns w₀ w)
    (after : Run World.step SparesLiveRuns w w') (d : Uuid) :
    ∃ l l', Represents d w l ∧ l.Good ∧ Represents d w' l' ∧ Life.Final l l' := by
  obtain ⟨l₀, rep₀, good₀⟩ := initial.sound d
  have hquiet₀ : l₀.LiveTransient := fun hlive => by
    obtain ⟨j, hj, -⟩ := rep₀.live hlive
    rw [initial.jobs] at hj
    cases hj
  obtain ⟨l, hbefore, rep, good⟩ := World.spared_life initial.sound rep₀ good₀ before
  have hquiet : l.LiveTransient :=
    hbefore.invariant hquiet₀ fun _ _ _ quiet spared taken => quiet.step spared taken
  obtain ⟨l', hafter, rep', -⟩ := World.spared_life (initial.sound.run before) rep good after
  exact ⟨l, l', rep, good, rep', Life.Final.run hafter hquiet⟩

theorem Tells.lasts (initial : w₀.Initial) (before : Run World.step SparesLiveRuns w₀ w)
    (after : Run World.step SparesLiveRuns w w') {summary : DocumentSummary}
    (tells : Tells w summary) (terminal : summary.status.terminal = true) {row : Document}
    (h : w'.store.document? summary.id = some row) : row.status = summary.status := by
  obtain ⟨row₀, hrow₀, hstatus⟩ := tells
  obtain ⟨l, l', rep, good, rep', final⟩ := initial.final before after summary.id
  have hlrow : l.row = some row₀ := rep.row.symm.trans hrow₀
  have hissued : l.issued = true := by
    by_contra hunissued
    rw [good.unissued (Bool.eq_false_iff.mpr hunissued)] at hlrow
    cases hlrow
  rw [hstatus] at terminal ⊢
  exact (final hissued).2.2 row₀ row hlrow terminal (rep'.row.symm.trans h)

namespace Visit

/-- Some state of the visit told the status of the card. -/
def Known (v : Visit) (card : DocumentSummary) : Prop := ∃ w ∈ v.worlds, Tells w card

/-- Some state of the visit listed the card in this scope. -/
def Listed (order : TimeOrder) (userId : Uuid) (v : Visit) (scope : Scope) (id : Uuid) : Prop :=
  ∃ w ∈ v.worlds, ∃ items, ListedBy order userId w scope items ∧ id ∈ items.map (·.id)

structure Sound (order : TimeOrder) (userId : Uuid) (w₀ : World) (v : Visit) : Prop where
  runs : ∀ w ∈ v.worlds, Run World.step SparesLiveRuns w₀ w ∧
    Run World.step SparesLiveRuns w v.world
  known : ∀ card ∈ v.page.documents, v.Known card
  listed : v.page.showsCards = true → ∀ card ∈ v.page.documents,
    v.Listed order userId v.page.scope card.id
  listing : ∀ call, v.page.listing = some call →
    call.scope = v.page.scope ∧ v.page.loading = true
  polling : v.page.polling.Sound

variable {v v' : Visit}

/-- A step of the server: what was told and listed before is still history. -/
theorem Sound.server (sound : v.Sound order userId w₀) {a : Docsage.Action}
    (spares : SparesLiveRuns v.world a) (h : v.world.step a = some w) :
    ({ v with world := w, past := v.world :: v.past } : Visit).Sound order userId w₀ where
  runs w' hw' := by
    rcases List.mem_cons.mp hw' with rfl | hw'
    · exact ⟨(sound.runs v.world List.mem_cons_self).1.tail a spares h, .refl _⟩
    · obtain ⟨hbefore, hafter⟩ := sound.runs w' hw'
      exact ⟨hbefore, hafter.tail a spares h⟩
  known card hcard := by
    obtain ⟨w', hw', htells⟩ := sound.known card hcard
    exact ⟨w', List.mem_cons_of_mem _ hw', htells⟩
  listed hshows card hcard := by
    obtain ⟨w', hw', hlisted⟩ := sound.listed hshows card hcard
    exact ⟨w', List.mem_cons_of_mem _ hw', hlisted⟩
  listing := sound.listing
  polling := sound.polling

/-- A step of the page that leaves its cards and its list call alone. -/
theorem Sound.of_same (sound : v.Sound order userId w₀) (page : DocumentsPage)
    (documents : page.documents = v.page.documents) (scope : page.scope = v.page.scope)
    (loading : page.loading = v.page.loading) (error : page.error = v.page.error)
    (listing : page.listing = v.page.listing) (polling : page.polling.Sound) :
    ({ v with page } : Visit).Sound order userId w₀ where
  runs := sound.runs
  known card hcard := sound.known card (documents ▸ hcard)
  listed hshows card hcard := by
    have hshown : v.page.showsCards = true := by
      simpa only [DocumentsPage.showsCards, loading, error] using hshows
    exact scope ▸ sound.listed hshown card (documents ▸ hcard)
  listing call hcall := by
    rw [scope, loading]
    exact sound.listing call (listing ▸ hcall)
  polling := polling

theorem Sound.updated (sound : v.Sound order userId w₀) {document : DocumentSummary}
    (known : v.Known document) :
    ({ v with page := v.page.updated document } : Visit).Sound order userId w₀ where
  runs := sound.runs
  known card hcard := by
    rcases mem_update_const hcard with rfl | ⟨hcard, -⟩
    · exact known
    · exact sound.known card hcard
  listed hshows card hcard := by
    obtain ⟨card₀, hcard₀, hid⟩ : ∃ card₀ ∈ v.page.documents, card₀.id = card.id := by
      obtain ⟨card₀, hcard₀, hcard⟩ := mem_update.mp hcard
      refine ⟨card₀, hcard₀, ?_⟩
      split at hcard
      · next hid => rw [hid, hcard]
      · rw [hcard]
    exact hid ▸ sound.listed hshows card₀ hcard₀
  listing := sound.listing
  polling := sound.polling

theorem Sound.deleted (sound : v.Sound order userId w₀) (id : Uuid) :
    ({ v with page := { v.page with
        documents := delete DocumentSummary.id id v.page.documents } } : Visit).Sound
      order userId w₀ where
  runs := sound.runs
  known card hcard := sound.known card (mem_delete.mp hcard).1
  listed hshows card hcard := sound.listed hshows card (mem_delete.mp hcard).1
  listing := sound.listing
  polling := sound.polling

theorem Sound.reload (sound : v.Sound order userId w₀) (scope : Scope) :
    ({ v with page := v.page.reload scope } : Visit).Sound order userId w₀ where
  runs := sound.runs
  known := sound.known
  listed hshows := by simp [DocumentsPage.showsCards, DocumentsPage.reload] at hshows
  listing call hcall := by
    obtain rfl := Option.some.inj hcall
    exact ⟨rfl, rfl⟩
  polling := sound.polling

/-- The list arrives, in the scope that the page still shows. -/
theorem Sound.arrived (sound : v.Sound order userId w₀) (initial : w₀.Initial)
    {call : DocumentsPage.ListCall} (awaited : v.page.listing = some call)
    {response : Except Frontend.Rejection (List DocumentSummary)}
    (answered : ∀ items, response = .ok items →
      ∃ w ∈ v.worlds, ListedBy order userId w call.scope items) :
    ({ v with page := v.page.listed response } : Visit).Sound order userId w₀ := by
  cases response with
  | error err =>
    exact ⟨sound.runs, sound.known,
      fun hshows => by simp [DocumentsPage.showsCards, DocumentsPage.listed] at hshows,
      (fun _ hcall => by cases hcall), sound.polling⟩
  | ok items =>
    obtain ⟨w, hw, hlisted⟩ := answered items rfl
    have hscope := (sound.listing call awaited).1
    have hmem {card : DocumentSummary} : card ∈ rank DocumentSummary.createdAt items ↔
        card ∈ items := rank_perm.mem_iff
    refine ⟨sound.runs, fun card hcard => ?_, fun _ card hcard => ?_,
      (fun _ hcall => by cases hcall), sound.polling⟩
    · exact ⟨w, hw, hlisted.tells (initial.keyed (sound.runs w hw).1) card (hmem.mp hcard)⟩
    · exact ⟨w, hw, items, hscope ▸ hlisted, List.mem_map_of_mem (hmem.mp hcard)⟩

theorem Sound.polled (sound : v.Sound order userId w₀) {loop : Loop Uuid} {id : Uuid}
    {response : Except Frontend.Rejection DocumentDetail}
    (found : lookup Loop.ticket loop.ticket v.page.polling.loops = some loop)
    (awaited : id ∈ loop.awaited)
    (answered : ∀ detail, response = .ok detail →
      ∃ w ∈ v.worlds, DetailBy order userId w id detail) :
    ({ v with page := v.page.polled loop id response } : Visit).Sound order userId w₀ := by
  have hsettled := sound.of_same
    { v.page with polling := v.page.polling.put loop.ticket (Loop.settle · id) }
    rfl rfl rfl rfl rfl (sound.polling.settle_found (lookup_some found).1 awaited)
  unfold DocumentsPage.polled
  split
  · next detail _ =>
    obtain ⟨w, hw, hdetail⟩ := answered detail rfl
    exact hsettled.updated ⟨w, hw, hdetail.tells.2⟩
  · exact hsettled

theorem Sound.step (sound : v.Sound order userId w₀) (initial : w₀.Initial) {a : Action}
    (allowed : v.Allowed order userId a) (h : v.step a = some v') :
    v'.Sound order userId w₀ := by
  cases a with
  | server a =>
    obtain ⟨w, hw, rfl⟩ := Option.map_eq_some_iff.mp h
    exact sound.server allowed hw
  | page a =>
    obtain ⟨page, hpage, rfl⟩ := Option.map_eq_some_iff.mp h
    cases DocumentsPage.step_cases hpage with
    | render | openDetail | closeDetail =>
      exact sound.of_same _ rfl rfl rfl rfl rfl sound.polling
    | pollingEffect heffect =>
      exact sound.of_same _ rfl rfl rfl rfl rfl (sound.polling.effect heffect).1
    | pollTimer hfire => exact sound.of_same _ rfl rfl rfl rfl rfl (sound.polling.fire hfire)
    | selectScope scope => exact sound.reload scope
    | retry => exact sound.reload v.page.scope
    | listed call response awaited =>
      refine sound.arrived initial awaited fun items hitems => ?_
      subst hitems
      exact allowed call awaited
    | polled loop id response found awaited =>
      refine sound.polled found awaited fun detail hdetail => ?_
      subst hdetail
      exact allowed
    | updated document =>
      obtain ⟨w, hw, detail, hdetail, rfl⟩ := allowed
      exact sound.updated ⟨w, hw, hdetail.tells.2⟩
    | deleted id => exact sound.deleted id

theorem Sound.run (initial : w₀.Initial) (before : Run World.step SparesLiveRuns w₀ w)
    (run : Run Visit.step (Visit.Allowed order userId) { world := w } v) :
    v.Sound order userId w₀ := by
  refine run.invariant ⟨fun w' hw' => ?_, by simp [DocumentsPage.mounted],
    by simp [DocumentsPage.mounted], fun call hcall => ?_, Poller.sound_empty⟩
    fun _ _ _ sound allowed taken => sound.step initial allowed taken
  · obtain rfl := List.mem_singleton.mp hw'
    exact ⟨before, .refl _⟩
  · obtain rfl := Option.some.inj hcall
    exact ⟨rfl, rfl⟩

end Visit

namespace Visit

abbrev Replies := List (Uuid × Except Frontend.Rejection DocumentDetail)

/-- The timer of a loop fires, and its requests are answered. -/
def round (ticket : ℕ) (answers : Replies) : List Action :=
  .page (.pollTimer ticket) :: answers.map fun a => .page (.polled ticket a.1 a.2)

def refresh (documents : List DocumentSummary) : Replies → List DocumentSummary
  | [] => documents
  | (_, .error _) :: answers => refresh documents answers
  | (_, .ok detail) :: answers =>
    refresh (update DocumentSummary.id detail.summary.id (fun _ => detail.summary) documents)
      answers

theorem mem_refresh {documents : List DocumentSummary} {answers : Replies}
    (named : ∀ id detail, (id, .ok detail) ∈ answers → detail.summary.id = id)
    {card : DocumentSummary} (h : card ∈ refresh documents answers) :
    (card ∈ documents ∧ ∀ detail, (card.id, .ok detail) ∉ answers) ∨
      ∃ id detail, (id, .ok detail) ∈ answers ∧ detail.summary = card := by
  induction answers generalizing documents with
  | nil => exact .inl ⟨h, fun _ => List.not_mem_nil⟩
  | cons a answers ih =>
    have hlater := fun id detail h => named id detail (List.mem_cons_of_mem a h)
    obtain ⟨id, response⟩ := a
    cases response with
    | error err =>
      rcases ih hlater h with ⟨hmem, hnone⟩ | ⟨id', detail, hdetail, rfl⟩
      · exact .inl ⟨hmem, fun detail => by simpa using hnone detail⟩
      · exact .inr ⟨id', detail, List.mem_cons_of_mem _ hdetail, rfl⟩
    | ok detail =>
      rcases ih hlater h with ⟨hmem, hnone⟩ | ⟨id', detail', hdetail, rfl⟩
      · rcases mem_update_const hmem with rfl | ⟨hold, hne⟩
        · exact .inr ⟨id, detail, List.mem_cons_self, rfl⟩
        · rw [named id detail List.mem_cons_self] at hne
          refine .inl ⟨hold, fun detail' hdetail' => ?_⟩
          rcases List.mem_cons.mp hdetail' with heq | hdetail'
          · exact hne (congrArg Prod.fst heq)
          · exact hnone detail' hdetail'
      · exact .inr ⟨id', detail', List.mem_cons_of_mem _ hdetail, rfl⟩

/-- The answers of a round arrive, in any order. -/
theorem execute_polled {v : Visit} {loop : Loop Uuid} {answers : Replies}
    (found : lookup Loop.ticket loop.ticket v.page.polling.loops = some loop)
    (listens : loop.cancelled = false) (all : (answers.map (·.1)).Perm loop.awaited) :
    ∃ polling, execute Visit.step v
        (answers.map fun a => .page (.polled loop.ticket a.1 a.2)) =
      some { v with page := { v.page with
        documents := refresh v.page.documents answers, polling } } := by
  induction answers generalizing v loop with
  | nil => exact ⟨v.page.polling, rfl⟩
  | cons a answers ih =>
    obtain ⟨id, response⟩ := a
    have hawaited : id ∈ loop.awaited := all.subset List.mem_cons_self
    let page := v.page.polled loop id response
    have hstep : v.step (.page (.polled loop.ticket id response)) = some { v with page } := by
      simp only [Visit.step, DocumentsPage.step, found, Option.bind_some, if_pos hawaited,
        Option.map_some]
      rfl
    have hpage : page = { v.page with
        documents := refresh v.page.documents [(id, response)]
        polling := v.page.polling.put loop.ticket (Loop.settle · id) } := by
      simp only [page, DocumentsPage.polled, listens]
      cases response <;> rfl
    have hfound : lookup Loop.ticket loop.ticket page.polling.loops = some (loop.settle id) := by
      rw [hpage]
      exact Poller.lookup_put (fun _ => rfl) found
    have hrest : (answers.map (·.1)).Perm (loop.settle id).awaited := by
      have herase := all.erase id
      rwa [List.map_cons, List.erase_cons_head] at herase
    obtain ⟨polling, hpolling⟩ := @ih { v with page } (loop.settle id) hfound listens hrest
    refine ⟨polling, ?_⟩
    have hdocuments : refresh page.documents answers =
        refresh v.page.documents ((id, response) :: answers) := by
      rw [hpage]
      cases response <;> rfl
    rw [List.map_cons, execute, hstep, Option.bind_some]
    refine hpolling.trans ?_
    rw [hdocuments, hpage]

theorem terminal_of_not_polled {documents : List DocumentSummary} {card : DocumentSummary}
    (h : card ∈ documents) (hnot : card.id ∉ DocumentsPage.pollIds documents) :
    card.status.terminal = true := by
  by_contra hrunning
  refine hnot (List.mem_map_of_mem (List.mem_filter.mpr ⟨h, ?_⟩))
  cases hstatus : card.status <;> simp_all [Status.terminal, Status.transient]

end Visit

open Visit in
/-- However answers are delayed and the tabs are switched: a card with a terminal status is right,
the cards that are shown were all listed in the scope that is selected, and as soon as the effects
have run exactly one polling loop listens, for the cards that are not terminal. -/
theorem cards_settle (initial : w₀.Initial) (before : Run World.step SparesLiveRuns w₀ w)
    {v : Visit} (run : Run Visit.step (Visit.Allowed order userId) { world := w } v) :
    (∀ card ∈ v.page.documents, card.status.terminal = true → ∀ row,
      v.world.store.document? card.id = some row → row.status = card.status) ∧
    (v.page.showsCards = true → ∀ card ∈ v.page.documents,
      v.Listed order userId v.page.scope card.id) ∧
    (v.page.Flushed →
      v.page.polling.Watches (DocumentsPage.pollIds v.page.documents)) := by
  have sound := Sound.run initial before run
  refine ⟨fun card hcard hterminal row hrow => ?_, sound.listed, fun ⟨hview, hids⟩ => ?_⟩
  · obtain ⟨w', hw', htells⟩ := sound.known card hcard
    obtain ⟨hbefore, hafter⟩ := sound.runs w' hw'
    exact htells.lasts initial hbefore hafter hterminal hrow
  · rw [← hview, ← hids]
    exact sound.polling.watches

namespace Agency

/-! The admin opens the library while the report is queued, and its run goes on. -/

def uploaded : World := (execute World.step start [uploadReport]).getD start

def libraryList : List DocumentSummary :=
  (listDocuments (fun _ => .stable) uploaded.store admin "library").toOption.getD []

def openLibrary : List Visit.Action :=
  [.page (.selectScope .library), .page (.listed 1 (.ok libraryList)), .page .render,
    .page .pollingEffect] ++ List.replicate 6 (.server (.advance 7 none))

def visit : Visit := (execute Visit.step { world := uploaded } openLibrary).getD ⟨start, [], {}⟩

theorem execute_openLibrary : execute Visit.step { world := uploaded } openLibrary = some visit :=
  rfl

theorem uploaded_run : Run World.step SparesLiveRuns start uploaded :=
  .tail uploadReport (.refl start) (sparesLiveRuns_of_not_sweep fun _ h => by cases h) rfl

theorem visit_run : Run Visit.step (Visit.Allowed (fun _ => .stable) admin.id)
    { world := uploaded } visit := by
  have hobeys : Obeys Visit.step (Visit.Allowed (fun _ => .stable) admin.id) { world := uploaded }
      openLibrary := by
    refine ⟨trivial, fun t ht => ⟨fun call hcall => ?_, fun _ _ => ⟨trivial,
      fun _ _ => ⟨trivial, fun t _ => obeys_of_forall (fun a ha s => ?_) t⟩⟩⟩⟩
    · obtain rfl := Option.some.inj ht
      obtain rfl := Option.some.inj hcall
      exact ⟨uploaded, List.mem_cons_self, admin, rfl, .inl rfl⟩
    · obtain rfl := List.eq_of_mem_replicate ha
      exact sparesLiveRuns_of_not_sweep fun _ h => by cases h
  exact Run.of_execute hobeys execute_openLibrary

end Agency

theorem cards_settle_library :
    Agency.visit.page.polling.Watches [7] := by
  have hflushed : Agency.visit.page.Flushed := ⟨rfl, rfl⟩
  exact (cards_settle Agency.start_initial Agency.uploaded_run Agency.visit_run).2.2 hflushed

open Visit in
/-- Once the effects have run, a round of the loop brings the cards up to date: in whatever order
the server answers its requests, every card that was not refused one has the status of its
document. -/
theorem round_refreshes (initial : w₀.Initial) (before : Run World.step SparesLiveRuns w₀ w)
    {v : Visit} (run : Run Visit.step (Visit.Allowed order userId) { world := w } v)
    (flushed : v.page.Flushed) {loop : Loop Uuid} (hloop : loop ∈ v.page.polling.loops)
    (listens : loop.cancelled = false) (waits : loop.timer = true) {answers : Replies}
    (all : (answers.map (·.1)).Perm loop.tracked)
    (current : ∀ id detail, (id, .ok detail) ∈ answers → DetailBy order userId v.world id detail) :
    ∃ v', execute Visit.step v (round loop.ticket answers) = some v' ∧
      ∀ card ∈ v'.page.documents,
        (card.id ∈ loop.tracked → ∃ detail, (card.id, .ok detail) ∈ answers) →
        ∀ row, v.world.store.document? card.id = some row → card.status = row.status := by
  have sound := Sound.run initial before run
  have hfound := lookup_of_mem sound.polling.unique hloop
  have htracked : loop.tracked = DocumentsPage.pollIds v.page.documents := by
    rw [← flushed.1, ← flushed.2]
    exact (sound.polling.listens loop hloop listens).2.1
  let page := { v.page with polling := v.page.polling.put loop.ticket Loop.fire }
  have hstep : v.step (.page (.pollTimer loop.ticket)) = some { v with page } := by
    simp only [Visit.step, DocumentsPage.step, Poller.fire, hfound, Option.bind_some, if_pos waits,
      Option.map_some]
    rfl
  have hfired : lookup Loop.ticket loop.ticket page.polling.loops = some loop.fire :=
    Poller.lookup_put (fun _ => rfl) hfound
  obtain ⟨polling, hpolling⟩ := @execute_polled { v with page } loop.fire answers hfired listens all
  have hround := (Option.bind_eq_some_iff.mpr ⟨_, hstep, hpolling⟩ :
    execute Visit.step v (round loop.ticket answers) = some _)
  refine ⟨_, hround, fun card hcard answered row hrow => ?_⟩
  have hnamed := fun id detail h => (current id detail h).tells.1
  rcases mem_refresh hnamed hcard with ⟨hold, hnone⟩ | ⟨id, detail, hdetail, rfl⟩
  · have hterminal := terminal_of_not_polled hold (htracked ▸ fun htrack =>
      (answered htrack).elim hnone)
    obtain ⟨w', hw', htells⟩ := sound.known card hold
    obtain ⟨hbefore, hafter⟩ := sound.runs w' hw'
    exact (htells.lasts initial hbefore hafter hterminal hrow).symm
  · obtain ⟨row', hrow', hstatus⟩ := (current id detail hdetail).tells.2
    rw [hstatus, Option.some.inj (hrow'.symm.trans hrow)]

/-- The run of the report has ended, and the next round shows it. -/
theorem round_refreshes_library : ∃ detail v', execute Visit.step Agency.visit
      (Visit.round 0 [(7, .ok detail)]) = some v' ∧
    ∀ card ∈ v'.page.documents, card.id = 7 → card.status = .ready := by
  obtain ⟨detail, hdetail⟩ : ∃ detail,
      documentDetail (fun _ => .stable) Agency.visit.world.store Agency.admin 7 = .ok detail :=
    ⟨_, rfl⟩
  have hloop : (⟨0, [7], false, true, []⟩ : Loop Uuid) ∈ Agency.visit.page.polling.loops := by
    decide
  have hall : (([(7, .ok detail)] : Visit.Replies).map (·.1)).Perm [7] := .refl _
  have hcurrent (id : Uuid) (detail' : DocumentDetail)
      (h : (id, .ok detail') ∈ ([(7, .ok detail)] : Visit.Replies)) :
      DetailBy (fun _ => .stable) Agency.admin.id Agency.visit.world id detail' := by
    cases List.mem_singleton.mp h
    exact ⟨Agency.admin, rfl, .inl hdetail⟩
  obtain ⟨v', hround, hfresh⟩ := round_refreshes Agency.start_initial Agency.uploaded_run
    Agency.visit_run ⟨rfl, rfl⟩ hloop rfl rfl hall hcurrent
  refine ⟨detail, v', hround, fun card hcard hid => ?_⟩
  obtain ⟨row, hrow, hready⟩ : ∃ row,
      Agency.visit.world.store.document? 7 = some row ∧ row.status = .ready := ⟨_, rfl, rfl⟩
  rw [← hready]
  exact hfresh card hcard (fun _ => ⟨detail, hid ▸ List.mem_singleton_self _⟩) row (hid ▸ hrow)

end Docsage
