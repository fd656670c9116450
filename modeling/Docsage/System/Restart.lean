import Docsage.Ingestion.Returns
import Docsage.System.Review

/-! # Restarts of a single backend

One FastAPI process over the store. A crash ends it at any moment, with every
run it has in flight; a start recovers the store once, before the first request.
The sweep of a start takes the documents that have been quiet for fifteen
minutes, so a document that a crash has left less than that before the start is
swept by no one.
-/

namespace Docsage
open Effects Relational Transition

/-- The requests and background tasks of the FastAPI process. -/
def Action.ofFastApi : Action → Bool
  | .uploadFastApi .. | .advance .. | .delete _ | .review .fastApi _ | .write .. | .askFastApi .. =>
    true
  | _ => false

/-- What goes on without a server: time, and changes made out of band. -/
def Action.ambient : Action → Bool
  | .tick _ | .administer .. => true
  | _ => false

structure Server where
  world : World
  /-- When the process that is up was started. -/
  startedAt : Option Timestamp := none

inductive ServerAction where
  | crash
  /-- `lifespan`: the process begins with nothing in flight and recovers the store. -/
  | start (settings : Settings)
  | act (a : Action)

namespace Server

def step (x : Server) : ServerAction → Option Server
  | .crash => some { world := x.world.kill .fastApi, startedAt := none }
  | .start settings =>
    if x.startedAt.isSome then none
    else
      some
        { world :=
            { x.world.kill .fastApi with settings, store := recoverOnStartup x.world.store }
          startedAt := some x.world.store.now }
  | .act a =>
    if a.ambient || x.startedAt.isSome && a.ofFastApi then
      (x.world.step a).map fun w => { x with world := w }
    else none

/-- The server was never started, and no document was ever uploaded. -/
structure Initial (x : Server) : Prop where
  world : x.world.Initial
  down : x.startedAt = none

/-- Once the process has been up for longer than the staleness window, every document in a
transient status has a run in it. -/
def NoneStranded (x : Server) : Prop :=
  ∀ startedAt, x.startedAt = some startedAt →
    startedAt + staleTransientAfter < x.world.store.now →
    ∀ d row, x.world.store.document? d = some row → row.status.transient = true →
      ∃ j ∈ x.world.jobs, j.documentId = d

/-- The step strands no document: a start meets transient documents that are stale only, and no
run is ended by an exception while its document is there. -/
structure Recovers (x : Server) (a : ServerAction) : Prop where
  stale : ∀ settings, a = .start settings → ∀ d row, x.world.store.document? d = some row →
    row.status.transient = true → row.stale x.world.store.now = true
  handled : ∀ d fault, a = .act (.advance d fault) → (x.world.store.document? d).isSome →
    ∀ j, lookup Job.documentId d x.world.jobs = some j →
      ∀ exc s', j.program.resume fault x.world.store ≠ some (.raised exc, s')

end Server

/-- The runs in flight, each of which leaves its document in its last status if it returns. -/
structure World.Covered (w : World) : Prop where
  sound : w.Sound
  backend : ∀ j ∈ w.jobs, j.backend = .fastApi
  promises : ∀ j ∈ w.jobs,
    j.program.Promises (Undisturbed j.documentId) (Over j.documentId) w.store

def World.Attended (w : World) : Prop :=
  ∀ d row, w.store.document? d = some row → row.status.transient = true →
    ∃ j ∈ w.jobs, j.documentId = d

variable {w w' : World} {a : Action} {d : Uuid} {s s' : Store}

theorem SameRows.undisturbed (same : SameRows d s s') : Undisturbed d s s' := by
  intro row hrow
  exact ⟨row, same.row ▸ hrow, rfl⟩

theorem undisturbed_edit {e : Edit} {id : Uuid} (status : ∀ row, (e.row row).status = row.status) :
    Undisturbed d s (e.apply id s) := by
  intro row' hrow'
  by_cases hd : d = id
  · subst hd
    rw [Edit.document?_apply] at hrow'
    obtain ⟨row, hrow, rfl⟩ := Option.map_eq_some_iff.mp hrow'
    exact ⟨row, hrow, status row⟩
  · rw [Edit.document?_apply_ne hd] at hrow'
    exact ⟨row', hrow', rfl⟩

theorem undisturbed_delete {id : Uuid} : Undisturbed d s (s.deleteDocument id) := by
  intro row hrow
  by_cases hd : d = id
  · subst hd
    rw [Store.document?_deleteDocument] at hrow
    cases hrow
  · rw [Store.document?_deleteDocument_ne hd] at hrow
    exact ⟨row, hrow, rfl⟩

namespace World

/-- The step is none of a run: no status changes, and the runs are the same. -/
structure Bystands (w w' : World) : Prop where
  undisturbed : ∀ d, Undisturbed d w.store w'.store
  jobs : w'.jobs = w.jobs

theorem Bystands.same (documents : w'.store.documents = w.store.documents)
    (jobs : w'.jobs = w.jobs) : Bystands w w' where
  undisturbed d row hrow := ⟨row, by rwa [Store.document?, ← documents], rfl⟩
  jobs := jobs

theorem Bystands.covered (bystands : Bystands w w') (sound : w'.Sound) (covered : w.Covered) :
    w'.Covered where
  sound := sound
  backend j hj := covered.backend j (bystands.jobs ▸ hj)
  promises j hj := (covered.promises j (bystands.jobs ▸ hj)).interfere (bystands.undisturbed _)

theorem Bystands.attended (bystands : Bystands w w') (attended : w.Attended) : w'.Attended := by
  intro d row' hrow' ht
  obtain ⟨row, hrow, hstatus⟩ := bystands.undisturbed d row' hrow'
  rw [bystands.jobs]
  exact attended d row hrow (hstatus ▸ ht)

theorem write_bystands {ticket : ℕ} {fault : Option Exc} (h : w.write ticket fault = some w') :
    Bystands w w' := by
  obtain ⟨r, -, rfl⟩ := Option.map_eq_some_iff.mp h
  split
  · unfold commitReview
    split
    · next s' hattempt =>
      obtain ⟨-, rfl⟩ := decideCommit_ok (attempt_ok hattempt)
      exact ⟨fun d => undisturbed_edit fun _ => rfl, rfl⟩
    · exact .same rfl rfl
  · unfold insertReview
    split
    · next s' hattempt =>
      obtain ⟨-, rfl⟩ := DotNet.insertDecision_ok (attempt_ok hattempt)
      exact ⟨fun d => undisturbed_edit fun _ => rfl, rfl⟩
    · exact .same rfl rfl
  · unfold updateReview
    split
    · next s' hattempt =>
      obtain rfl := DotNet.updateDecision_ok (attempt_ok hattempt)
      exact ⟨fun d => undisturbed_edit fun _ => rfl, rfl⟩
    · exact .same rfl rfl

theorem accept_covered {upload : Except HttpError Document} {job : Job} (covered : w.Covered)
    (sound : w'.Sound) (uploaded : ∀ row, upload = .ok row → row.id = job.documentId)
    (backend : job.backend = .fastApi)
    (outline : job.program.Outline (Undisturbed job.documentId) (Over job.documentId)
      fun _ => True) (h : w.accept upload job = some w') :
    w'.Covered ∧ (w.Attended → w'.Attended) := by
  unfold accept at h
  split at h
  · cases h
  next hfresh =>
  split at h
  · obtain rfl := Option.some.inj h
    exact ⟨covered, id⟩
  next row =>
  split at h
  swap
  · obtain rfl := Option.some.inj h
    exact ⟨covered, id⟩
  obtain rfl := Option.some.inj h
  have hid := uploaded row rfl
  obtain ⟨l, rep, good⟩ := covered.sound job.documentId
  have hnone : w.store.document? row.id = none := by
    rw [hid, rep.row]
    exact good.unissued (Bool.eq_false_iff.mpr fun h => hfresh (rep.issued.mp h))
  have hrows (d : Uuid) := Store.document?_insertDocument hnone d
  refine ⟨⟨sound, fun j hj => ?_, fun j hj => ?_⟩, fun attended d row' hrow' ht => ?_⟩
  · rcases List.mem_append.mp hj with hj | hj
    · exact covered.backend j hj
    · obtain rfl := List.mem_singleton.mp hj
      exact backend
  · rcases List.mem_append.mp hj with hj | hj
    · -- the document of a run in flight has been issued, so it is another one
      have hne : row.id ≠ j.documentId := by
        intro heq
        obtain ⟨l, rep, -⟩ := covered.sound j.documentId
        exact hfresh (hid ▸ heq ▸ (rep.jobs j hj rfl).1)
      refine (covered.promises j hj).interfere fun row' hrow' => ⟨row', ?_, rfl⟩
      rwa [hrows, if_neg hne] at hrow'
    · obtain rfl := List.mem_singleton.mp hj
      exact ⟨_, fun _ _ _ _ => trivial, trivial, outline⟩
  · by_cases hd : row.id = d
    · exact ⟨job, List.mem_append_right _ (List.mem_singleton_self _), hid.symm.trans hd⟩
    · change (w.store.insertDocument row).document? d = some row' at hrow'
      rw [hrows, if_neg hd] at hrow'
      obtain ⟨j, hj, hjd⟩ := attended d row' hrow' ht
      exact ⟨j, List.mem_append_left _ hj, hjd⟩

/-- An access of a run. If it is the last one, the document is over or gone. -/
theorem advance_covered {documentId : Uuid} {fault : Option Exc} (covered : w.Covered)
    (sound : w'.Sound) (h : w.advance documentId fault = some w')
    (handled : (w.store.document? documentId).isSome → ∀ j,
      lookup Job.documentId documentId w.jobs = some j →
        ∀ exc s', j.program.resume fault w.store ≠ some (.raised exc, s')) :
    w'.Covered ∧ (w.Attended → w'.Attended) := by
  obtain ⟨j, hlookup, h⟩ := Option.bind_eq_some_iff.mp h
  obtain ⟨⟨p', s'⟩, hresume, rfl⟩ := Option.map_eq_some_iff.mp h
  obtain ⟨hj, rfl⟩ := lookup_some hlookup
  change (w.resumed j p' s').Covered ∧ (w.Attended → (w.resumed j p' s').Attended)
  have hown := (covered.promises j hj).resume hresume
  have hothers {d : Uuid} (hd : d ≠ j.documentId) : SameRows d w.store s' :=
    resume_sameRows covered.sound hj hd hresume
  have hkept {k : Job} (hk : k ∈ (w.resumed j p' s').jobs) :
      k = { j with program := p' } ∨ k ∈ w.jobs ∧ k.documentId ≠ j.documentId := by
    unfold resumed at hk
    split at hk
    · exact .inr (mem_delete.mp hk)
    · exact mem_update_const hk
  refine ⟨⟨sound, fun k hk => ?_, fun k hk => ?_⟩,
    fun attended d row' (hrow' : s'.document? d = some row') ht => ?_⟩
  · rcases hkept hk with rfl | ⟨hk, -⟩
    · exact covered.backend j hj
    · exact covered.backend k hk
  · rcases hkept hk with rfl | ⟨hk, hne⟩
    · exact hown
    · exact (covered.promises k hk).interfere (hothers hne).undisturbed
  · by_cases hd : d = j.documentId
    · subst hd
      cases hend : p'.ended with
      | false =>
        refine ⟨{ j with program := p' }, ?_, rfl⟩
        rw [resumed, hend]
        exact mem_update_const_self hj rfl
      | true =>
        cases p' with
        | ret a =>
          have hover := hown.returned row' hrow'
          rw [Status.terminal, ht] at hover
          cases hover
        | raised exc =>
          have hsome := resume_isSome covered.sound hj hresume (by rw [hrow']; rfl)
          exact absurd hresume (handled hsome j hlookup exc s')
        | read next => cases hend
        | commit label t next => cases hend
    · obtain ⟨k, hk, hkd⟩ := attended d row' ((hothers hd).row ▸ hrow') ht
      exact ⟨k, (mem_resumed_jobs (by rw [hkd]; exact hd)).mpr hk, hkd⟩

/-- A step of the world that FastAPI or its environment takes. -/
theorem Covered.step (covered : w.Covered) (ours : a.ambient = true ∨ a.ofFastApi = true)
    (handled : ∀ d fault, a = .advance d fault → (w.store.document? d).isSome → ∀ j,
      lookup Job.documentId d w.jobs = some j →
        ∀ exc s', j.program.resume fault w.store ≠ some (.raised exc, s'))
    (h : w.step a = some w') : w'.Covered ∧ (w.Attended → w'.Attended) := by
  have hsound := covered.sound.step h
  have hbystands (bystands : Bystands w w') : w'.Covered ∧ (w.Attended → w'.Attended) :=
    ⟨bystands.covered hsound covered, bystands.attended⟩
  cases a with
  | tick elapsed | administer users topics smeDesignations =>
    obtain rfl := Option.some.inj h
    exact hbystands (.same rfl rfl)
  | uploadFastApi user documentId upload request calls =>
    exact accept_covered covered hsound (fun _ hup => (uploadDocument_ok hup).id) rfl
      (runIngestion_outline w.settings calls documentId) h
  | advance documentId fault =>
    exact advance_covered covered hsound h (handled documentId fault rfl)
  | delete documentId =>
    obtain rfl := Option.some.inj h
    exact hbystands ⟨fun d => undisturbed_delete, rfl⟩
  | review b request =>
    obtain rfl := Option.some.inj h
    refine hbystands ?_
    unfold review
    split <;> exact .same rfl rfl
  | write ticket fault => exact hbystands (write_bystands h)
  | askFastApi service userId scope question providerName =>
    obtain rfl := Option.some.inj h
    refine hbystands ?_
    unfold compare
    split <;> exact .same rfl rfl
  | uploadDotNet | restartFastApi | restartDotNet | sweep | askDotNet =>
    rcases ours with h | h <;> cases h

end World

namespace Server

variable {x₀ x x' : Server} {b : ServerAction}

/-- What a server that strands nothing keeps. Nothing is promised of the documents while it is
down. -/
structure Keeping (x : Server) : Prop where
  covered : x.world.Covered
  attended : x.startedAt.isSome → x.world.Attended

theorem kill_jobs (covered : x.world.Covered) : (x.world.kill .fastApi).jobs = [] := by
  refine List.filter_eq_nil_iff.mpr fun j hj => ?_
  simp [covered.backend j hj]

theorem crash_keeping (keeping : x.Keeping) :
    Keeping { world := x.world.kill .fastApi, startedAt := none } where
  covered := by
    have hjobs := kill_jobs keeping.covered
    have hsound : (x.world.kill .fastApi).Sound :=
      keeping.covered.sound.step (a := .restartFastApi x.world.settings) rfl
    exact ⟨hsound, by simp [hjobs], by simp [hjobs]⟩
  attended := nofun

/-- After the sweep of a start nothing is in a transient status, if everything that was is stale. -/
theorem start_keeping {settings : Settings} (keeping : x.Keeping)
    (stale : ∀ d row, x.world.store.document? d = some row → row.status.transient = true →
      row.stale x.world.store.now = true) :
    Keeping
      { world := { x.world.kill .fastApi with settings, store := recoverOnStartup x.world.store }
        startedAt := some x.world.store.now } where
  covered := by
    have hjobs := kill_jobs keeping.covered
    have hsound := (keeping.covered.sound.step (a := .restartFastApi settings) rfl).step
      (a := .sweep .fastApi) rfl
    exact ⟨hsound, by simp [hjobs], by simp [hjobs]⟩
  attended _ d row' hrow' ht := by
    have hid (row : Document) : (row.sweep x.world.store.now).id = row.id :=
      congrArg FixedColumns.id (row.sweep_fixed x.world.store.now)
    change lookup Document.id d (x.world.store.documents.map (·.sweep x.world.store.now)) =
      some row' at hrow'
    rw [lookup_map hid] at hrow'
    obtain ⟨row, hrow, rfl⟩ := Option.map_eq_some_iff.mp hrow'
    cases hstale : row.stale x.world.store.now with
    | true =>
      rw [Document.sweep, hstale] at ht
      cases ht
    | false =>
      have hsame : row.sweep x.world.store.now = row := by rw [Document.sweep, hstale]; rfl
      rw [hsame] at ht
      rw [stale d row hrow ht] at hstale
      cases hstale

theorem Keeping.step (keeping : x.Keeping) (recovers : x.Recovers b) (h : x.step b = some x') :
    x'.Keeping := by
  cases b with
  | crash =>
    obtain rfl := Option.some.inj h
    exact crash_keeping keeping
  | start settings =>
    simp only [Server.step] at h
    split at h
    · cases h
    · obtain rfl := Option.some.inj h
      exact start_keeping keeping (recovers.stale settings rfl)
  | act a =>
    simp only [Server.step] at h
    split at h
    swap
    · cases h
    next hours =>
    obtain ⟨w, hw, rfl⟩ := Option.map_eq_some_iff.mp h
    have hours' : a.ambient = true ∨ a.ofFastApi = true := by
      simp only [Bool.or_eq_true, Bool.and_eq_true] at hours
      exact hours.imp_right And.right
    obtain ⟨hcovered, hattended⟩ := keeping.covered.step hours'
      (fun d fault ha => recovers.handled d fault (by rw [ha])) hw
    exact ⟨hcovered, fun hup => hattended (keeping.attended hup)⟩

theorem Initial.keeping (initial : x.Initial) : x.Keeping where
  covered := ⟨initial.world.sound, by simp [initial.world.jobs], by simp [initial.world.jobs]⟩
  attended hup := by
    rw [initial.down] at hup
    cases hup

end Server

/-- In every run of a single backend whose steps strand no document, a server that has been up for
longer than the staleness window has a run for every document in a transient status. -/
theorem none_stranded {x₀ x : Server} (initial : x₀.Initial)
    (run : Run Server.step Server.Recovers x₀ x) : x.NoneStranded := by
  intro startedAt hup _ d row hrow ht
  have keeping := run.invariant initial.keeping
    fun _ _ _ keeping recovers taken => Server.Keeping.step keeping recovers taken
  exact keeping.attended (by rw [hup]; rfl) d row hrow ht

/-- Whether a step strands no document, on the rows and runs that are there. -/
def Server.check (x : Server) : ServerAction → Bool
  | .start _ =>
    x.world.store.documents.all fun row => !row.status.transient || row.stale x.world.store.now
  | .act (.advance d fault) =>
    ((lookup Job.documentId d x.world.jobs).bind
      (·.program.resume fault x.world.store)).all fun p =>
      match p.1 with
      | .raised _ => false
      | _ => true
  | _ => true

theorem Server.recovers_of_check {x : Server} {b : ServerAction} (h : x.check b = true) :
    x.Recovers b where
  stale settings hb d row hrow ht := by
    subst hb
    have hrows := List.all_eq_true.mp h row (Store.document?_mem hrow)
    simpa [ht] using hrows
  handled d fault hb _ j hlookup exc s' hresume := by
    subst hb
    simp [Server.check, hlookup, hresume] at h

namespace Agency

def server : Server := { world := start }

/-- The report is uploaded to a server that stays up, and extracted for sixteen minutes. -/
def slowReport : List ServerAction :=
  [.start {}, .act uploadReport, .act (.advance 7 none), .act (.advance 7 none),
    .act (.tick 960000000)]

/-- The server crashes while it extracts the report, and starts again a minute later. -/
def strandReport : List ServerAction :=
  slowReport.dropLast ++ [.crash, .act (.tick 60000000), .start {}, .act (.tick 960000000)]

theorem server_initial : server.Initial := ⟨start_initial, rfl⟩

theorem slowReport_attended : ∃ x row, execute Server.step server slowReport = some x ∧
    x.world.store.document? 7 = some row ∧ row.status = .extracting ∧
    ∃ j ∈ x.world.jobs, j.documentId = 7 := by
  have hrun : (execute Server.step server slowReport).bind (fun x =>
      (x.world.store.document? 7).map fun row => (x.startedAt, x.world.store.now, row.status)) =
      some (some 0, 960000000, .extracting) := by decide
  obtain ⟨x, hx, hrun⟩ := Option.bind_eq_some_iff.mp hrun
  obtain ⟨row, hrow, hrun⟩ := Option.map_eq_some_iff.mp hrun
  obtain ⟨hup, hnow, hstatus⟩ : x.startedAt = some 0 ∧ x.world.store.now = 960000000 ∧
      row.status = .extracting := by simpa using hrun
  have hobeys : Obeys Server.step (fun x b => x.check b = true) server slowReport := by decide
  have run : Run Server.step Server.Recovers server x :=
    (Run.of_execute hobeys hx).mono fun _ _ => Server.recovers_of_check
  exact ⟨x, row, hx, hrow, hstatus, none_stranded server_initial run 0 hup
    (by rw [hnow]; decide) 7 row hrow (by rw [hstatus]; rfl)⟩

end Agency

/-- A crash strands a document if the server is up again within the staleness window. -/
theorem stranded_after_restart :
    ¬ ∀ x₀ x : Server, x₀.Initial → Run Server.step (fun _ _ => True) x₀ x → x.NoneStranded := by
  intro h
  have hstranded : (execute Server.step Agency.server Agency.strandReport).bind (fun x =>
      (x.world.store.document? 7).map fun row =>
        (x.startedAt, x.world.store.now, row.status.transient, x.world.jobs.length)) =
      some (some 60000000, 1020000000, true, 0) := by decide
  obtain ⟨x, hx, hstranded⟩ := Option.bind_eq_some_iff.mp hstranded
  obtain ⟨row, hrow, hstranded⟩ := Option.map_eq_some_iff.mp hstranded
  obtain ⟨hup, hnow, ht, hjobs⟩ : x.startedAt = some 60000000 ∧ x.world.store.now = 1020000000 ∧
      row.status.transient = true ∧ x.world.jobs.length = 0 := by simpa using hstranded
  obtain ⟨j, hj, -⟩ := h Agency.server x Agency.server_initial (.of_execute (obeys_true _ _) hx)
    60000000 hup (by rw [hnow]; decide) 7 row hrow ht
  rw [List.eq_nil_of_length_eq_zero hjobs] at hj
  cases hj

end Docsage
