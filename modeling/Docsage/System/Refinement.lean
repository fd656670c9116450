import Docsage.System.Life

/-! # The world refines the life of every document

Each step of the world is a lawful part of the life of each document. A run may
only edit its own document, so the claim is carried for all documents together
and then used for one.
-/

namespace Docsage
open Effects Relational Transition

/-- The space that a run of a backend embeds into, for a document that names the provider. -/
def World.place (w : World) : Backend → ProviderName → ProviderName
  | .fastApi => id
  | .dotNet => w.options.implementation

/-- The life `l` is what the world holds of document `d`. -/
structure Represents (d : Uuid) (w : World) (l : Life) : Prop where
  issued : l.issued = true ↔ d ∈ w.issued
  row : w.store.document? d = l.row
  chunks : w.store.chunksOf d = l.chunks
  approvals : w.store.approvalsOf d = l.approvals
  live : l.phase = .live → ∃ j ∈ w.jobs, j.documentId = d
  jobs : ∀ j ∈ w.jobs, j.documentId = d → d ∈ w.issued ∧
    Keeps (w.place j.backend) d l.scope l.space l.phase j.program ∧
    ∀ row, l.row = some row → w.place j.backend row.embeddingProvider = l.space
  reviews : ∀ r ∈ w.reviews, r.request.documentId = d → d ∈ w.issued ∧ r ∈ l.passed
  decided : ∀ x ∈ l.decided, x ∈ w.decided

/-- Every document of the world has a good life. -/
def World.Sound (w : World) : Prop := ∀ d, ∃ l, Represents d w l ∧ l.Good

variable {d : Uuid} {w w' : World} {l l' : Life} {s s' : Store}

/-- The rows of one document are the same in both stores. -/
structure SameRows (d : Uuid) (s s' : Store) : Prop where
  row : s'.document? d = s.document? d
  chunks : s'.chunksOf d = s.chunksOf d
  approvals : s'.approvalsOf d = s.approvalsOf d

theorem SameRows.edit {e : Edit} {id : Uuid} (fits : e.Fits id s) (h : d ≠ id) :
    SameRows d s (e.apply id s) :=
  ⟨Edit.document?_apply_ne h, Edit.chunksOf_apply_ne fits h, Edit.approvalsOf_apply_ne fits h⟩

theorem SameRows.delete {id : Uuid} (h : d ≠ id) : SameRows d s (s.deleteDocument id) :=
  ⟨Store.document?_deleteDocument_ne h, Store.chunksOf_deleteDocument_ne h,
    Store.approvalsOf_deleteDocument_ne h⟩

theorem Represents.frame (rep : Represents d w l) (issued : d ∈ w'.issued ↔ d ∈ w.issued)
    (same : SameRows d w.store w'.store) (options : w'.options = w.options)
    (jobs : ∀ j, j.documentId = d → (j ∈ w'.jobs ↔ j ∈ w.jobs))
    (reviews : ∀ r ∈ w'.reviews, r.request.documentId = d → r ∈ w.reviews)
    (decided : ∀ x ∈ w.decided, x ∈ w'.decided) : Represents d w' l where
  issued := rep.issued.trans issued.symm
  row := same.row.trans rep.row
  chunks := same.chunks.trans rep.chunks
  approvals := same.approvals.trans rep.approvals
  live h := by
    obtain ⟨j, hj, hd⟩ := rep.live h
    exact ⟨j, (jobs j hd).mpr hj, hd⟩
  jobs j hj hd := by
    have hplace : w'.place = w.place := by
      funext b
      cases b <;> simp [World.place, options]
    rw [hplace, issued]
    exact rep.jobs j ((jobs j hd).mp hj) hd
  reviews r hr hd := by
    rw [issued]
    exact rep.reviews r (reviews r hr hd) hd
  decided x hx := decided x (rep.decided x hx)

/-- A row that keeps its fixed columns keeps the place its run embeds into. -/
theorem Represents.jobs_map (rep : Represents d w l) (f : Document → Document)
    (fixed : ∀ row, (f row).fixed = row.fixed) {j : Job} (hj : j ∈ w.jobs) (hd : j.documentId = d) :
    d ∈ w.issued ∧ Keeps (w.place j.backend) d l.scope l.space l.phase j.program ∧
      ∀ row, l.row.map f = some row → w.place j.backend row.embeddingProvider = l.space := by
  obtain ⟨hissued, hkeeps, hspace⟩ := rep.jobs j hj hd
  refine ⟨hissued, hkeeps, fun row hrow => ?_⟩
  obtain ⟨row₀, hrow₀, rfl⟩ := Option.map_eq_some_iff.mp hrow
  have hprovider : (f row₀).embeddingProvider = row₀.embeddingProvider :=
    congrArg FixedColumns.embeddingProvider (fixed row₀)
  rw [hprovider]
  exact hspace row₀ hrow₀

/-- The space an upload puts a document in: the one it names, unless it goes to the .NET backend. -/
def Placed (w : World) (a : Action) (row : Document) (space : ProviderName) : Prop :=
  space = row.embeddingProvider ∨
    ∃ user documentId saveFile request calls,
      a = .uploadDotNet user documentId saveFile request calls ∧
        ProviderName.ofString? request.provider = some row.embeddingProvider ∧
        space = w.options.implementation row.embeddingProvider

/-- What a step says about an event: only a sweep sweeps, at the time of the step. -/
def Incident (w : World) (a : Action) (l₀ l : Life) : LifeEvent → Prop
  | .create row space => Placed w a row space
  | .sweep now => (∃ b, a = .sweep b) ∧ now = w.store.now ∧ l = l₀
  | _ => True

/-- The lawful events one step may stand for. -/
def Matched (w : World) (a : Action) (l₀ l : Life) (ev : LifeEvent) : Prop :=
  l.Lawful ev ∧ Incident w a l₀ l ev

def Matches (d : Uuid) (w : World) (a : Action) (w' : World) (l : Life) : Prop :=
  ∃ l', Run Life.step (Matched w a l) l l' ∧ Represents d w' l'

variable {a : Action}

theorem Matches.stutter (rep : Represents d w' l) : Matches d w a w' l := ⟨l, .refl l, rep⟩

theorem Matches.one (ev : LifeEvent) (lawful : l.Lawful ev) (incident : Incident w a l l ev)
    (taken : l.step ev = some l') (rep : Represents d w' l') : Matches d w a w' l :=
  ⟨l', .tail ev (.refl l) ⟨lawful, incident⟩ taken, rep⟩

theorem accept_matches {upload : Except HttpError Document} {job : Job}
    (uploaded : ∀ row, upload = .ok row → Uploaded job.documentId row)
    (placed : ∀ row, upload = .ok row → Placed w a row (w.place job.backend row.embeddingProvider))
    (keeps : ∀ scope space,
      Keeps (w.place job.backend) job.documentId scope space .live job.program)
    (rep : Represents d w l) (good : l.Good) (h : w.accept upload job = some w') :
    Matches d w a w' l := by
  unfold World.accept at h
  split at h
  · cases h
  next hfresh =>
  split at h
  · obtain rfl := Option.some.inj h
    exact .stutter rep
  next row =>
  split at h
  swap
  · obtain rfl := Option.some.inj h
    exact .stutter rep
  obtain rfl := Option.some.inj h
  have hup := uploaded row rfl
  by_cases hd : d = job.documentId
  · subst hd
    have hissued : l.issued = false := by
      rw [← Bool.not_eq_true]
      exact fun h => hfresh (rep.issued.mp h)
    have hrow := good.unissued hissued
    obtain ⟨hchunks, happrovals⟩ := good.absent hrow
    have hnone : w.store.document? row.id = none := by rw [hup.id, rep.row, hrow]
    refine .one (.create row (w.place job.backend row.embeddingProvider))
      ⟨hissued, by rw [hup.id]; exact hup⟩ (placed row rfl) rfl ?_
    refine ⟨by simp, ?_, rep.chunks.trans hchunks, rep.approvals.trans happrovals,
      fun _ => ⟨job, by simp, rfl⟩, fun j hj hjd => ?_, fun r hr hrd => ?_, by simp⟩
    · rw [Store.document?_insertDocument hnone, if_pos hup.id]
    · rcases List.mem_append.mp hj with hj | hj
      · exact absurd (rep.jobs j hj hjd).1 hfresh
      · obtain rfl := List.mem_singleton.mp hj
        refine ⟨List.mem_cons_self, keeps _ _, fun row' hrow' => ?_⟩
        obtain rfl := Option.some.inj hrow'
        rfl
    · exact absurd (rep.reviews r hr hrd).1 hfresh
  · have hid : row.id ≠ d := by rw [hup.id]; exact Ne.symm hd
    refine .stutter (rep.frame (by simp [hd]) ⟨?_, rfl, rfl⟩ rfl (fun j hj => ?_) (fun _ h _ => h)
      fun _ h => h)
    · simp [Store.document?, Store.insertDocument, lookup, List.find?_append, hid]
    · have hne : j ≠ job := fun e => hd (by rw [← hj, e])
      simp [hne]

/-- What a run finds when it reads: the document as its upload left it, its status apart. -/
theorem Represents.sees (rep : Represents d w l) (good : l.Good) {b : Backend}
    (space : ∀ row, l.row = some row → w.place b row.embeddingProvider = l.space) :
    Sees (w.place b) d l.scope l.space l.phase w.store := by
  intro hlive row hrow
  rw [rep.row] at hrow
  have g := good.present row hrow
  have hunready := g.unready (g.live hlive)
  exact ⟨g.scope, space row hrow, hunready.reviewStatus, hunready.chunkCount⟩

/-- One access of the run of a document: it leaves the store alone, or performs a lawful edit. -/
theorem resume_cases (rep : Represents d w l) (good : l.Good) {j : Job} (hj : j ∈ w.jobs)
    (hd : j.documentId = d) {fault : Option Exc} {p' : IngestionProgram}
    (h : j.program.resume fault w.store = some (p', s')) :
    (s' = w.store ∧ Keeps (w.place j.backend) d l.scope l.space l.phase p') ∨
      ∃ e next, e.Fits d w.store ∧ s' = e.apply d w.store ∧ e.approvals = [] ∧
        l.Lawful (.run e next) ∧ Keeps (w.place j.backend) d l.scope l.space next p' := by
  obtain ⟨-, keeps, space⟩ := rep.jobs j hj hd
  rcases keeps.resume (rep.sees good space) h with hidle | ⟨t, next, allowed, ht, hkeeps⟩
  · exact .inl hidle
  · right
    have hexists {e : Edit} (fits : e.Fits d w.store) : e.chunks ≠ [] → l.row.isSome := by
      rw [← rep.row]
      exact fits.exists_of_chunks
    generalize hphase : l.phase = phase at allowed
    cases allowed with
    | advance kind =>
      obtain ⟨e, fits, adv, rfl⟩ := kind _ _ ht
      exact ⟨e, _, fits, rfl, adv.approvals, ⟨hphase, hexists fits, .inl ⟨rfl, adv⟩⟩, hkeeps⟩
    | fail kind =>
      obtain ⟨e, fits, fails, rfl⟩ := kind _ _ ht
      exact ⟨e, _, fits, rfl, fails.approvals,
        ⟨hphase, hexists fits, .inr ⟨rfl, .inl fails⟩⟩, hkeeps⟩
    | publish kind =>
      obtain ⟨e, fits, pub, rfl⟩ := kind _ _ ht
      exact ⟨e, _, fits, rfl, pub.approvals, ⟨hphase, hexists fits, .inr ⟨rfl, .inr pub⟩⟩, hkeeps⟩

theorem resume_sameRows (sound : w.Sound) {j : Job} (hj : j ∈ w.jobs) (hd : d ≠ j.documentId)
    {fault : Option Exc} {p' : IngestionProgram}
    (h : j.program.resume fault w.store = some (p', s')) : SameRows d w.store s' := by
  obtain ⟨l, rep, good⟩ := sound j.documentId
  rcases resume_cases rep good hj rfl h with ⟨rfl, -⟩ | ⟨e, next, fits, rfl, -⟩
  · exact ⟨rfl, rfl, rfl⟩
  · exact .edit fits hd

theorem resume_isSome (sound : w.Sound) {j : Job} (hj : j ∈ w.jobs) {fault : Option Exc}
    {p' : IngestionProgram} (h : j.program.resume fault w.store = some (p', s'))
    (after : (s'.document? j.documentId).isSome) : (w.store.document? j.documentId).isSome := by
  obtain ⟨l, rep, good⟩ := sound j.documentId
  rcases resume_cases rep good hj rfl h with ⟨rfl, -⟩ | ⟨e, next, fits, rfl, -⟩
  · exact after
  · rwa [Edit.document?_apply, Option.isSome_map] at after

/-- The world after an access of a run, whatever the access did. -/
def World.resumed (w : World) (j : Job) (p' : IngestionProgram) (s' : Store) : World :=
  { w with
    store := s'
    jobs :=
      if p'.ended then delete Job.documentId j.documentId w.jobs
      else update Job.documentId j.documentId (fun _ => { j with program := p' }) w.jobs }

theorem mem_resumed_jobs {j k : Job} {p' : IngestionProgram} (hk : k.documentId ≠ j.documentId) :
    k ∈ (w.resumed j p' s').jobs ↔ k ∈ w.jobs := by
  unfold World.resumed
  split
  · simp [hk]
  · refine ⟨fun h => ?_, fun h => mem_update_const_ne h hk⟩
    rcases mem_update_const h with rfl | ⟨h, -⟩
    · exact absurd rfl hk
    · exact h

/-- The run of the document went on: the life it leads to is represented, and a run that has ended
leaves a document without a live run. -/
theorem Matches.resumed {j : Job} {p' : IngestionProgram} (hj : j ∈ w.jobs)
    (rep : Represents d w l) (hd : j.documentId = d) (run : Run Life.step (Matched w a l) l l')
    (row : s'.document? d = l'.row) (chunks : s'.chunksOf d = l'.chunks)
    (approvals : s'.approvalsOf d = l'.approvals)
    (kept : l'.issued = l.issued ∧ l'.passed = l.passed ∧ l'.decided = l.decided)
    (keeps : Keeps (w.place j.backend) d l'.scope l'.space l'.phase p')
    (space : ∀ row, l'.row = some row → w.place j.backend row.embeddingProvider = l'.space) :
    Matches d w a (w.resumed j p' s') l := by
  obtain ⟨hkept, hpassed, hdecided⟩ := kept
  subst hd
  have hissued : l'.issued = true ↔ j.documentId ∈ w.issued := by rw [hkept]; exact rep.issued
  cases hend : p'.ended with
  | true =>
    refine ⟨{ l' with phase := .over }, .tail .halt run ⟨trivial, trivial⟩ rfl, ?_⟩
    refine ⟨hissued, row, chunks, approvals, nofun, fun k hk hkd => ?_,
      fun r hr hrd => hpassed ▸ rep.reviews r hr hrd, fun x hx => rep.decided x (hdecided ▸ hx)⟩
    rw [World.resumed, hend] at hk
    exact absurd hkd (mem_delete.mp hk).2
  | false =>
    refine ⟨l', run, ⟨hissued, row, chunks, approvals, fun _ => ?_,
      fun k hk hkd => ?_, fun r hr hrd => hpassed ▸ rep.reviews r hr hrd,
      fun x hx => rep.decided x (hdecided ▸ hx)⟩⟩
    · refine ⟨{ j with program := p' }, ?_, rfl⟩
      rw [World.resumed, hend]
      exact mem_update_const_self hj rfl
    · rw [World.resumed, hend] at hk
      rcases mem_update_const hk with rfl | ⟨-, hne⟩
      · exact ⟨(rep.jobs j hj rfl).1, keeps, space⟩
      · exact absurd hkd hne

theorem advance_matches {documentId : Uuid} {fault : Option Exc} (sound : w.Sound)
    (rep : Represents d w l) (good : l.Good) (h : w.advance documentId fault = some w') :
    Matches d w a w' l := by
  obtain ⟨j, hlookup, h⟩ := Option.bind_eq_some_iff.mp h
  obtain ⟨⟨p', s'⟩, hresume, rfl⟩ := Option.map_eq_some_iff.mp h
  obtain ⟨hj, rfl⟩ := lookup_some hlookup
  change Matches d w a (w.resumed j p' s') l
  by_cases hd : j.documentId = d
  · obtain ⟨-, -, space⟩ := rep.jobs j hj hd
    rcases resume_cases rep good hj hd hresume with
      ⟨rfl, hkeeps⟩ | ⟨e, next, fits, rfl, happrovals, lawful, hkeeps⟩
    · exact .resumed hj rep hd (.refl l) rep.row rep.chunks rep.approvals ⟨rfl, rfl, rfl⟩ hkeeps
        space
    · refine .resumed hj rep hd (.tail (.run e next) (.refl l) ⟨lawful, trivial⟩ rfl) ?_ ?_ ?_
        ⟨rfl, rfl, rfl⟩ hkeeps fun row hrow => ?_
      · rw [Edit.document?_apply, rep.row]
      · rw [Edit.chunksOf_apply fits, rep.chunks]
      · rw [Edit.approvalsOf_apply fits, rep.approvals, happrovals, List.append_nil]
      · obtain ⟨row₀, hrow₀, rfl⟩ := Option.map_eq_some_iff.mp hrow
        rw [e.row_embeddingProvider]
        exact space row₀ hrow₀
  · have same := resume_sameRows sound hj (Ne.symm hd) hresume
    exact .stutter (rep.frame Iff.rfl same rfl
      (fun k hk => mem_resumed_jobs (by rw [hk]; exact Ne.symm hd)) (fun _ h _ => h) fun _ h => h)

/-- A backend restarts: a document whose run dies with it has no live run any more. -/
theorem kill_matches {b : Backend} (settings : Settings) (options : DotNet.DocsageOptions)
    (hplace : ∀ b', b' ≠ b → ({ w with options } : World).place b' = w.place b')
    (rep : Represents d w l) : Matches d w a { w.kill b with settings, options } l := by
  have hmem (j : Job) : j ∈ (w.kill b).jobs ↔ j ∈ w.jobs ∧ j.backend ≠ b := by
    simp [World.kill]
  have hreviews (r : OpenReview) (h : r ∈ (w.kill b).reviews) : r ∈ w.reviews :=
    (List.mem_filter.mp h).1
  by_cases hlive : ∃ j ∈ (w.kill b).jobs, j.documentId = d
  · refine .stutter ⟨rep.issued, rep.row, rep.chunks, rep.approvals, fun _ => hlive,
      fun j hj hd => ?_, fun r hr => rep.reviews r (hreviews r hr), rep.decided⟩
    obtain ⟨hj, hb⟩ := (hmem j).mp hj
    obtain ⟨hissued, hkeeps, hspace⟩ := rep.jobs j hj hd
    change _ ∧ Keeps (({ w with options } : World).place j.backend) _ _ _ _ _ ∧
      ∀ row, _ → ({ w with options } : World).place j.backend _ = _
    rw [hplace _ hb]
    exact ⟨hissued, hkeeps, hspace⟩
  · refine .one .halt trivial trivial rfl ⟨rep.issued, rep.row, rep.chunks, rep.approvals,
      nofun, fun j hj hd => absurd ⟨j, hj, hd⟩ hlive, fun r hr => rep.reviews r (hreviews r hr),
      rep.decided⟩

theorem sweep_matches {b : Backend} (rep : Represents d w l) :
    Matches d w (.sweep b) { w with store := recoverOnStartup w.store } l := by
  refine .one (.sweep w.store.now) trivial ⟨⟨b, rfl⟩, rfl, rfl⟩ rfl
    ⟨rep.issued, ?_, rep.chunks, rep.approvals, rep.live, fun j hj hd => ?_, rep.reviews,
      rep.decided⟩
  · have hkeeps (r : Document) : (r.sweep w.store.now).id = r.id :=
      congrArg FixedColumns.id (r.sweep_fixed w.store.now)
    change lookup Document.id d (w.store.documents.map (·.sweep w.store.now)) = _
    rw [lookup_map hkeeps, ← rep.row]
    rfl
  · exact rep.jobs_map _ (Document.sweep_fixed w.store.now) hj hd

theorem delete_matches {documentId : Uuid} (rep : Represents d w l) :
    Matches d w a { w with store := w.store.deleteDocument documentId } l := by
  by_cases hd : d = documentId
  · subst hd
    refine .one .delete trivial trivial rfl ⟨rep.issued, Store.document?_deleteDocument,
      Store.chunksOf_deleteDocument, Store.approvalsOf_deleteDocument, rep.live,
      fun j hj hd => ?_, rep.reviews, rep.decided⟩
    obtain ⟨hissued, hkeeps, -⟩ := rep.jobs j hj hd
    exact ⟨hissued, hkeeps, fun row hrow => by cases hrow⟩
  · exact .stutter (rep.frame Iff.rfl (.delete hd) rfl (fun _ _ => Iff.rfl) (fun _ h _ => h)
      fun _ h => h)

theorem checks_ok {b : Backend} {request : ReviewRequest} {decision : Decision}
    (h : World.checks b s request = .ok decision) : ∃ doc, Passed s request decision doc := by
  cases b with
  | fastApi => exact decideChecks_ok h
  | dotNet => exact DotNet.decideChecks_ok h

theorem review_matches {b : Backend} {request : ReviewRequest} (rep : Represents d w l)
    (good : l.Good) : Matches d w a (w.review b request) l := by
  unfold World.review
  split
  · exact .stutter ⟨rep.issued, rep.row, rep.chunks, rep.approvals, rep.live, rep.jobs, rep.reviews,
      rep.decided⟩
  · next decision hchecks =>
    obtain ⟨doc, passed⟩ := checks_ok hchecks
    by_cases hd : request.documentId = d
    · subst hd
      have hrow : l.row = some doc := rep.row.symm.trans passed.found
      have hissued : request.documentId ∈ w.issued := by
        by_contra h
        have hnone := good.unissued (Bool.eq_false_iff.mpr fun hi => h (rep.issued.mp hi))
        rw [hnone] at hrow
        cases hrow
      refine .one (.pass ⟨w.tickets, b, request, decision, w.store, .passed⟩)
        ⟨rfl, doc, hrow, passed⟩ trivial rfl ⟨rep.issued, rep.row, rep.chunks, rep.approvals,
        rep.live, rep.jobs, fun r hr hrd => ?_, rep.decided⟩
      rcases List.mem_append.mp hr with hr | hr
      · exact ⟨hissued, List.mem_cons_of_mem _ (rep.reviews r hr hrd).2⟩
      · obtain rfl := List.mem_singleton.mp hr
        exact ⟨hissued, List.mem_cons_self⟩
    · refine .stutter (rep.frame Iff.rfl ⟨rfl, rfl, rfl⟩ rfl (fun _ _ => Iff.rfl)
        (fun r hr hrd => ?_) fun _ h => h)
      rcases List.mem_append.mp hr with hr | hr
      · exact hr
      · obtain rfl := List.mem_singleton.mp hr
        exact absurd hrd hd

theorem answer_represents {r : OpenReview} {status : ℕ} (rep : Represents d w l) :
    Represents d (w.answer r status) l :=
  rep.frame Iff.rfl ⟨rfl, rfl, rfl⟩ rfl (fun _ _ => Iff.rfl)
    (fun _ h _ => (mem_delete.mp h).1) fun _ h => h

theorem commitReview_matches {r : OpenReview} {fault : Option Exc} (rep : Represents d w l)
    (hr : r ∈ w.reviews) : Matches d w a (w.commitReview r fault) l := by
  unfold World.commitReview
  split
  · next s' hattempt =>
    obtain ⟨fits, rfl⟩ := decideCommit_ok (attempt_ok hattempt)
    by_cases hd : r.request.documentId = d
    · subst hd
      have hsome : l.row.isSome := by
        rw [← rep.row]
        exact fits.exists_of_approvals (by simp [decisionEdit])
      refine .one (.commit r) ⟨(rep.reviews r hr rfl).2, hsome⟩ trivial rfl
        (answer_represents ⟨rep.issued, ?_, ?_, ?_, rep.live, fun j hj hjd => ?_, rep.reviews,
          fun x hx => ?_⟩)
      · exact Edit.document?_apply.trans (by rw [rep.row]; rfl)
      · exact (Edit.chunksOf_apply fits).trans (by rw [rep.chunks]; exact List.append_nil _)
      · exact (Edit.approvalsOf_apply fits).trans (by rw [rep.approvals]; rfl)
      · exact rep.jobs_map (Document.decide r.decision r.snapshot.now) (fun _ => rfl) hj hjd
      · rcases List.mem_cons.mp hx with rfl | hx
        · exact List.mem_append_right _ (List.mem_singleton_self _)
        · exact List.mem_append_left _ (rep.decided x hx)
    · refine .stutter (answer_represents (rep.frame Iff.rfl (.edit fits (Ne.symm hd)) rfl
        (fun _ _ => Iff.rfl) (fun _ h _ => h) fun x hx => List.mem_append_left _ hx))
  · exact .stutter (answer_represents rep)

theorem insertReview_matches {r : OpenReview} {fault : Option Exc} (rep : Represents d w l)
    (hr : r ∈ w.reviews) : Matches d w a (w.insertReview r fault) l := by
  unfold World.insertReview
  split
  · next s' hattempt =>
    obtain ⟨fits, rfl⟩ := DotNet.insertDecision_ok (attempt_ok hattempt)
    by_cases hd : r.request.documentId = d
    · subst hd
      have hsome : l.row.isSome := by
        rw [← rep.row]
        exact fits.exists_of_approvals (by simp [approvalEdit])
      refine .one (.insert r w.store.now) ⟨(rep.reviews r hr rfl).2, hsome⟩ trivial rfl
        ⟨rep.issued, ?_, ?_, ?_, rep.live, rep.jobs, fun r' hr' hrd => ?_, fun x hx => ?_⟩
      · exact Edit.document?_apply.trans (by rw [rep.row]; exact Option.map_id')
      · exact (Edit.chunksOf_apply fits).trans (by rw [rep.chunks]; exact List.append_nil _)
      · exact (Edit.approvalsOf_apply fits).trans (by rw [rep.approvals]; rfl)
      · rcases mem_update_const hr' with rfl | ⟨hr', -⟩
        · exact ⟨(rep.reviews r hr rfl).1, List.mem_cons_self⟩
        · exact ⟨(rep.reviews r' hr' hrd).1, List.mem_cons_of_mem _ (rep.reviews r' hr' hrd).2⟩
      · rcases List.mem_cons.mp hx with rfl | hx
        · exact List.mem_append_right _ (List.mem_singleton_self _)
        · exact List.mem_append_left _ (rep.decided x hx)
    · refine .stutter (rep.frame Iff.rfl (.edit fits (Ne.symm hd)) rfl (fun _ _ => Iff.rfl)
        (fun r' hr' hrd => ?_) fun x hx => List.mem_append_left _ hx)
      rcases mem_update_const hr' with rfl | ⟨hr', -⟩
      · exact absurd hrd hd
      · exact hr'
  · exact .stutter (answer_represents rep)

theorem updateReview_matches {r : OpenReview} {fault : Option Exc} (rep : Represents d w l)
    (hr : r ∈ w.reviews) (hstage : r.stage = .inserted) :
    Matches d w a (w.updateReview r fault) l := by
  unfold World.updateReview
  split
  · next s' hattempt =>
    obtain rfl := DotNet.updateDecision_ok (attempt_ok hattempt)
    by_cases hd : r.request.documentId = d
    · subst hd
      refine .one (.update r w.store.now) ⟨(rep.reviews r hr rfl).2, hstage⟩ trivial rfl
        (answer_represents ⟨rep.issued, ?_, ?_, ?_, rep.live, fun j hj hjd => ?_, rep.reviews,
          rep.decided⟩)
      · exact Edit.document?_apply.trans (by rw [rep.row]; rfl)
      · exact (Edit.chunksOf_apply (.ofPatch _ _ _ _)).trans
          (by rw [rep.chunks]; exact List.append_nil _)
      · exact (Edit.approvalsOf_apply (.ofPatch _ _ _ _)).trans
          (by rw [rep.approvals]; exact List.append_nil _)
      · exact rep.jobs_map (Document.decide r.decision w.store.now) (fun _ => rfl) hj hjd
    · exact .stutter (answer_represents (rep.frame Iff.rfl
        (.edit (.ofPatch _ _ _ _) (Ne.symm hd)) rfl (fun _ _ => Iff.rfl) (fun _ h _ => h)
        fun _ h => h))
  · exact .stutter (answer_represents rep)

theorem compare_represents {visible : Document → Bool} {p : ProviderName}
    {query : Except Exc Vector} (rep : Represents d w l) :
    Represents d (w.compare visible p query) l := by
  unfold World.compare
  split
  · exact rep
  · exact ⟨rep.issued, rep.row, rep.chunks, rep.approvals, rep.live, rep.jobs, rep.reviews,
      rep.decided⟩

/-- A step of the world is a part of the life of each document. -/
theorem World.step_matches (sound : w.Sound) (rep : Represents d w l) (good : l.Good)
    (h : w.step a = some w') : Matches d w a w' l := by
  cases a with
  | tick elapsed =>
    obtain rfl := Option.some.inj h
    exact .stutter ⟨rep.issued, rep.row, rep.chunks, rep.approvals, rep.live, rep.jobs, rep.reviews,
      rep.decided⟩
  | administer users topics smeDesignations =>
    obtain rfl := Option.some.inj h
    exact .stutter ⟨rep.issued, rep.row, rep.chunks, rep.approvals, rep.live, rep.jobs, rep.reviews,
      rep.decided⟩
  | uploadFastApi user documentId upload request calls =>
    exact accept_matches (fun _ => uploadDocument_ok) (fun _ _ => .inl rfl)
      (fun scope space => runIngestion_keeps w.settings calls documentId scope space) rep good h
  | uploadDotNet user documentId saveFile request calls =>
    exact accept_matches (fun _ h => (DotNet.uploadDocument_ok h).1)
      (fun _ h => .inr ⟨user, documentId, saveFile, request, calls, rfl,
        (DotNet.uploadDocument_ok h).2, rfl⟩)
      (fun scope space => DotNet.runAsync_keeps w.options calls documentId scope space) rep good h
  | advance documentId fault => exact advance_matches sound rep good h
  | restartFastApi settings =>
    obtain rfl := Option.some.inj h
    exact kill_matches settings w.options (fun _ _ => rfl) rep
  | restartDotNet options =>
    obtain rfl := Option.some.inj h
    refine kill_matches w.settings options (fun b hb => ?_) rep
    cases b with
    | fastApi => rfl
    | dotNet => exact absurd rfl hb
  | sweep b =>
    have hsweep := sweep_matches (b := b) rep
    cases b <;> (obtain rfl := Option.some.inj h; exact hsweep)
  | delete documentId =>
    obtain rfl := Option.some.inj h
    exact delete_matches rep
  | review b request =>
    obtain rfl := Option.some.inj h
    exact review_matches rep good
  | write ticket fault =>
    obtain ⟨r, hlookup, rfl⟩ := Option.map_eq_some_iff.mp h
    obtain ⟨hr, -⟩ := lookup_some hlookup
    split
    · exact commitReview_matches rep hr
    · exact insertReview_matches rep hr
    · exact updateReview_matches rep hr ‹_›
  | askFastApi service userId scope question providerName =>
    obtain rfl := Option.some.inj h
    exact .stutter (compare_represents rep)
  | askDotNet service userId scope question providerName =>
    obtain rfl := Option.some.inj h
    exact .stutter (compare_represents rep)

theorem World.Initial.sound (initial : w.Initial) : w.Sound := by
  intro d
  refine ⟨{ scope := .personal, space := .demo }, ⟨by simp [initial.issued], ?_, ?_, ?_, nofun, ?_,
    ?_, by simp⟩, fun _ => rfl, fun _ => ⟨rfl, rfl⟩, fun _ h => by cases h⟩
  · rw [Store.document?, initial.documents]; rfl
  · rw [Store.chunksOf, initial.chunks]; rfl
  · rw [Store.approvalsOf, initial.approvals]; rfl
  · simp [initial.jobs]
  · simp [initial.reviews]

theorem World.Sound.step (sound : w.Sound) (h : w.step a = some w') : w'.Sound := by
  intro d
  obtain ⟨l, rep, good⟩ := sound d
  obtain ⟨l', run, rep'⟩ := World.step_matches sound rep good h
  exact ⟨l', rep', good.run (run.mono fun _ _ matched => matched.1)⟩

/-- Every document of a reachable world has a good life. -/
theorem World.Sound.run {guard : World → Action → Prop} (sound : w.Sound)
    (run : Run World.step guard w w') : w'.Sound :=
  run.invariant sound fun _ _ _ sound _ taken => World.Sound.step sound taken

end Docsage
