import Docsage.Ingestion.Searchable
import Docsage.Ingestion.StatusOrder

/-! # How a run of `IngestionPipeline.RunAsync` goes and ends

The same order of statuses as in FastAPI. One handler catches everything, so the
document is left unsettled only where the failure itself cannot be written: when
its message is cut within a character, or the statement fails.
-/

namespace Docsage.DotNet
open Effects Text

variable {d : Uuid} {scope : Scope} {stage stage' : IngestionStage} {options : DocsageOptions}
  {calls : PipelineCalls} {row : Document} {parts : List ExtractedPart} {plan : EnrichmentPlan}

/-- The document at a stage, under a primary key of its own. -/
structure Keyed (d : Uuid) (scope : Scope) (stage : IngestionStage) (s : Store) : Prop where
  at_stage : AtStage d scope stage s
  keys : (s.documents.map Document.id).Nodup

/-- At a stage, the transaction does what some step of that stage does. -/
def Steps (d : Uuid) (scope : Scope) (stage : IngestionStage) (t : Store → Except Exc Store)
    (stage' : IngestionStage) : Prop :=
  ∀ s s', Keyed d scope stage s → t s = .ok s' →
    ∃ t', StageStep d scope stage t' stage' ∧ t' s = .ok s'

abbrev KeepsStages (d : Uuid) (scope : Scope) (stage : IngestionStage) (p : IngestionProgram) :
    Prop :=
  p.Conforms (Steps d scope) (Keyed d scope) stage

theorem steps_of_step {t : Store → Except Exc Store} (step : StageStep d scope stage t stage') :
    Steps d scope stage t stage' := fun _ _ _ done => ⟨t, step, done⟩

theorem Keyed.step {t : Store → Except Exc Store} {s s' : Store} (keyed : Keyed d scope stage s)
    (step : StageStep d scope stage t stage') (done : t s = .ok s') : Keyed d scope stage' s' := by
  refine ⟨step.keeps keyed.at_stage done, ?_⟩
  have hedit : ∃ e : Edit, s' = e.apply d s := by
    cases step with
    | leave h | advance _ _ h | fail _ h | publish h =>
      obtain ⟨e, -, -, hs'⟩ := h s s' done
      exact ⟨e, hs'⟩
  obtain ⟨e, rfl⟩ := hedit
  have hids : (e.apply d s).documents.map Document.id = s.documents.map Document.id := by
    have hfixed := congrArg (List.map FixedColumns.id) (corpus_edit e d s)
    rw [List.map_map, List.map_map] at hfixed
    exact hfixed
  rw [hids]
  exact keyed.keys

theorem Keyed.steps {t : Store → Except Exc Store} {s s' : Store} (keyed : Keyed d scope stage s)
    (steps : Steps d scope stage t stage') (done : t s = .ok s') : Keyed d scope stage' s' := by
  obtain ⟨t', step, done'⟩ := steps s s' keyed done
  exact keyed.step step done'

theorem path_of_steps {s : Store} {rest : List Store}
    (path : Program.Path (Steps d scope) stage s rest) (keyed : Keyed d scope stage s) :
    Program.Path (StageStep d scope) stage s rest := by
  induction path with
  | nil => exact .nil _ _
  | stay _ ih => exact .stay (ih keyed)
  | move steps done _ ih =>
    obtain ⟨t', step, done'⟩ := steps _ _ keyed done
    exact .move step done' (ih (keyed.step step done'))

theorem update_performs {kind : Edit → Prop} (patch : DocumentPatch)
    (h : ∀ now, kind (.ofPatch patch now)) :
    Performs d kind fun s => .ok (s.updateDocument d patch) := by
  intro s s' hs
  obtain rfl := Except.ok.inj hs
  exact ⟨_, .ofPatch _ _ _ _, h s.now, Store.updateDocument_eq_apply _⟩

theorem catchAll_keepsStages (live : stage.status.isSome) (exc : Exc) :
    KeepsStages d scope stage (catchAll d exc) := by
  unfold catchAll
  split
  · exact .ret _ _
  · exact .commit (steps_of_step (.fail live (update_performs _ fun _ =>
      ⟨fun _ => rfl, fun _ => rfl⟩))) (.ret _ _) fun _ => .ret _ _

theorem execute_keepsStages {point : CommitPoint} {statement : Store → Except Exc Store}
    {next : IngestionProgram} (live : stage.status.isSome)
    (allowed : Steps d scope stage statement stage') (done : KeepsStages d scope stage' next) :
    KeepsStages d scope stage (execute point d statement next) :=
  .commit allowed done (catchAll_keepsStages live)

theorem setStatusAsync_keepsStages {status : Status} {next : IngestionProgram}
    (hnext : stage.next = some stage') (reached : stage'.status = some status)
    (done : KeepsStages d scope stage' next) :
    KeepsStages d scope stage (setStatusAsync d status next) :=
  execute_keepsStages (IngestionStage.ahead_of_next hnext reached).2.2
    (steps_of_step (.advance hnext reached (update_performs _ fun _ =>
      ⟨fun _ => rfl, fun _ => rfl⟩))) done

theorem insert_leaves {rows : List Enrichment} (owned : ∀ r ∈ rows, r.documentId = d) :
    Performs d LeavesStatus (Store.insertEnrichments rows) := by
  intro s s' h
  obtain ⟨-, rfl⟩ := Store.insertEnrichments_ok h
  refine ⟨{ row := id, fixed := fun _ => rfl, enrichments := rows },
    ⟨owned, by simp, by simp, by simp, by simp⟩, ⟨fun _ => rfl, fun _ => rfl⟩, ?_⟩
  simp [Edit.apply, Relational.update]

theorem insertEnrichments_keepsStages {next : IngestionProgram} (live : stage.status.isSome)
    (rows : List (EnrichmentKind × Utf16)) (done : KeepsStages d scope stage next) :
    KeepsStages d scope stage (insertEnrichments d next rows) := by
  induction rows with
  | nil => exact done
  | cons row rest ih =>
    rw [insertEnrichments]
    split
    · exact catchAll_keepsStages live _
    · exact execute_keepsStages live (steps_of_step (.leave (insert_leaves (by simp)))) ih

/-- While the document exists, only a fault can stop the last transaction. -/
theorem indexTransaction_eq {rows : List Chunk} {s : Store} {r : Document}
    (owned : ∀ r ∈ rows, r.documentId = d) (hr : s.document? d = some r) (pageCount : Option ℕ) :
    indexTransaction d rows pageCount s =
      .ok (Store.setDocument { s with chunks := s.chunks ++ rows } d
        (markReady rows.length pageCount s.now)) := by
  have hinsert : Store.insertChunks rows s = .ok { s with chunks := s.chunks ++ rows } :=
    if_pos (List.all_eq_true.mpr fun c hc => by simp [owned c hc, hr])
  rw [indexTransaction, hinsert]
  rfl

/-- The last transaction asks the row itself whether it is a library document. -/
theorem indexTransaction_steps {rows : List Chunk} {pageCount : Option ℕ}
    (owned : ∀ r ∈ rows, r.documentId = d) :
    Steps d scope .embedding (indexTransaction d rows pageCount) .over := by
  intro s s' keyed h
  obtain ⟨row, hrow, hscope, -⟩ := keyed.at_stage
  obtain ⟨s₁, hi, h⟩ := bind_ok h
  obtain rfl := Except.ok.inj h
  obtain ⟨-, rfl⟩ := Store.insertChunks_ok hi
  let ready (r : Document) : Document :=
    if r.scope = scope then markReady rows.length pageCount s.now r else { r with status := .ready }
  let e : Edit :=
    { row := ready, chunks := rows
      fixed := fun r => by simp only [ready]; split <;> rfl }
  have hready : MakesReady scope e := by
    refine ⟨fun r => ?_, fun r => ?_⟩
    · simp only [e, ready]
      split <;> rfl
    · simp only [e, ready]
      split
      · next hr => by_cases hl : r.scope = .library <;> simp [markReady, ← hr, hl]
      · exact .inl rfl
  have happly : Store.setDocument { s with chunks := s.chunks ++ rows } d
      (markReady rows.length pageCount s.now) = e.apply d s := by
    have hdocuments : Relational.update Document.id d (markReady rows.length pageCount s.now)
        s.documents = Relational.update Document.id d ready s.documents := by
      refine List.map_congr_left fun r hr => ?_
      by_cases hid : r.id = d
      · have hlookup := Relational.lookup_of_mem keyed.keys hr
        rw [hid] at hlookup
        obtain rfl : r = row := Option.some.inj (hlookup.symm.trans hrow)
        simp [ready, hscope]
      · simp [hid]
    simp [Edit.apply, e, Store.setDocument, hdocuments]
  refine ⟨fun x => if x = s then .ok (e.apply d s) else .error invalidText, .publish ?_, ?_⟩
  · intro x x' hx
    dsimp only at hx
    split at hx
    · next heq =>
      subst heq
      exact ⟨e, ⟨by simp [e], owned, by simp [e], fun _ => by simp [hrow], by simp [e]⟩, hready,
        (Except.ok.inj hx).symm⟩
    · cases hx
  · exact (if_pos rfl).trans (congrArg Except.ok happly.symm)

theorem embedStage_keepsStages :
    KeepsStages row.id scope .enriching (embedStage options calls row parts plan) := by
  refine setStatusAsync_keepsStages rfl rfl ?_
  split
  · exact catchAll_keepsStages rfl _
  · next rows hrows =>
    exact execute_keepsStages rfl (indexTransaction_steps (indexRows_ok hrows).1) (.ret _ _)

theorem runAsync_keepsStages (options : DocsageOptions) (calls : PipelineCalls) (d : Uuid)
    (scope : Scope) : KeepsStages d scope .queued (runAsync options calls d) := by
  refine .read (fun s keyed => ?_) (catchAll_keepsStages rfl)
  obtain ⟨row, hrow, -⟩ := keyed.at_stage
  obtain rfl := Store.document?_id hrow
  simp only [hrow]
  refine setStatusAsync_keepsStages rfl rfl ?_
  split
  · exact catchAll_keepsStages rfl _
  · refine setStatusAsync_keepsStages rfl rfl ?_
    split
    · exact catchAll_keepsStages rfl _
    · exact insertEnrichments_keepsStages rfl _ embedStage_keepsStages

/-- Whatever its steps answer and whichever of its accesses fail, a run on a queued document
commits the statuses in order, and the review status with the last of them only. -/
theorem statuses_advance (options : DocsageOptions) (calls : PipelineCalls) {d : Uuid} {s : Store}
    {row : Document} (hrow : s.document? d = some row) (queued : row.status = .queued)
    (keys : (s.documents.map Document.id).Nodup) (faults : List (Option Exc)) :
    InOrder stages (committedStatuses d s (Program.stores faults (runAsync options calls d) s)) ∧
      (s :: Program.stores faults (runAsync options calls d) s).IsChain (ReviewWithReady d) := by
  have keyed : Keyed d row.scope .queued s :=
    ⟨⟨row, hrow, rfl, fun status h => queued.trans (Option.some.inj h)⟩, keys⟩
  have path := path_of_steps ((runAsync_keepsStages options calls d row.scope).path faults keyed
    fun _ _ _ _ _ keyed steps done => keyed.steps steps done) keyed
  exact ⟨(path_inOrder path keyed.at_stage).1 rfl, path_review path keyed.at_stage⟩

def chartCalls : PipelineCalls where
  service :=
    { demoVector := fun _ => [1]
      embedTexts := fun _ _ => .error { message := "no key" }
      embedQuery := fun _ _ => .error { message := "no key" } }
  extract _ _ _ := .ok [{ kind := .imageDescription, content := [] }]
  generate _ _ := .ok
    { summary := utf16 "Chart", keywords := [], questions := [], captions := [(0, utf16 "A")]
      tablePreambles := [] }
  chunkIds position := position

theorem statuses_advance_chart :
    InOrder stages (committedStatuses 1 chartStore
        (Program.stores (List.replicate 6 none) (runAsync {} chartCalls 1) chartStore)) ∧
      (chartStore :: Program.stores (List.replicate 6 none) (runAsync {} chartCalls 1)
        chartStore).IsChain (ReviewWithReady 1) ∧
      committedStatuses 1 chartStore (Program.stores (List.replicate 6 none)
        (runAsync {} chartCalls 1) chartStore) = stages ++ [.ready] :=
  have hrow : chartStore.document? 1 = some chartRow := by decide
  have hrun := statuses_advance {} chartCalls hrow rfl (by decide) (List.replicate 6 none)
  ⟨hrun.1, hrun.2, by decide⟩

/-- The failure can be written: its message, cut to 500 code units, is still a text. -/
def Writable (exc : Exc) : Prop := (decode? ((utf16 exc.message).take 500)).isSome

instance (exc : Exc) : Decidable (Writable exc) := inferInstanceAs (Decidable (_ = true))

theorem writable_of_short {exc : Exc} (h : (utf16 exc.message).length ≤ 500) : Writable exc := by
  rw [Writable, List.take_of_length_le h, decode?_eq_some.mpr rfl]
  rfl

/-- How a run ends: with the last of its steps, with a failure in front of the faults of what is
behind it, or without anybody to go on. -/
inductive RunEnd where
  | finished
  | failed (exc : Exc) (behind : List (Option Exc))
  | interrupted

/-- The first step that fails, by itself or at an access under a fault. A step is an access, or
something that raises; where the faults end, so does the process. -/
def runEnd : List (Option Exc) → List (Option Exc) → RunEnd
  | [], _ => .finished
  | some exc :: _, faults => .failed exc faults
  | none :: _, [] => .interrupted
  | none :: _, some exc :: faults => .failed exc faults
  | none :: steps, none :: faults => runEnd steps faults

/-- The failure is written by the next access, which goes through. -/
def RunEnd.Settles : RunEnd → Prop
  | .finished => True
  | .failed exc behind => Writable exc ∧ behind.head? = some none
  | .interrupted => False

instance (finish : RunEnd) : Decidable finish.Settles :=
  match finish with
  | .finished => .isTrue trivial
  | .failed exc behind => inferInstanceAs (Decidable (Writable exc ∧ behind.head? = some none))
  | .interrupted => .isFalse id

/-- The INSERT of an enrichment, which raises where the text cannot be encoded. -/
def insertStep (row : EnrichmentKind × Utf16) : Option Exc :=
  if (decode? row.2).isSome then none else some invalidText

/-- The steps of the embed stage: a status, and the transaction where there are rows for it. -/
def embedSteps (options : DocsageOptions) (calls : PipelineCalls) (row : Document)
    (parts : List ExtractedPart) (plan : EnrichmentPlan) : List (Option Exc) :=
  none :: match indexRows options calls row plan (chunk parts plan.tablePreambles) with
    | .error exc => [some exc]
    | .ok _ => [none]

/-- The steps of a run on the document: it is read, and before each call of the pipeline a status
is written. -/
def runSteps (options : DocsageOptions) (calls : PipelineCalls) (row : Document) :
    List (Option Exc) :=
  none :: none :: match calls.extract row.id row.sourceFilename row.mimeType with
    | .error exc => [some exc]
    | .ok parts =>
      none :: match calls.generate (utf16 row.title) parts with
        | .error exc => [some exc]
        | .ok plan => (enrichmentRows plan).map insertStep ++
            embedSteps options calls row (fillCaptions plan parts) plan

def Live (d : Uuid) (s : Store) : Prop :=
  ∃ row, s.document? d = some row ∧ row.status.transient = true

section

variable {s s' : Store} {faults : List (Option Exc)} {steps : List (Option Exc)}
  {next : IngestionProgram} {exc : Exc}

theorem Live.unsettled (live : Live d s) : ¬ Settled d s := by
  obtain ⟨row, hrow, htransient⟩ := live
  exact not_settled_of_transient hrow htransient

def Takes (d : Uuid) (steps : List (Option Exc)) (p : IngestionProgram) (s : Store) : Prop :=
  ∀ faults, Settled d (p.perform faults s).2 ↔ (runEnd steps faults).Settles

theorem perform_ret (faults : List (Option Exc)) (s : Store) :
    (Program.ret () : IngestionProgram).perform faults s = (.ret (), s) :=
  Program.perform_of_ended rfl faults s

theorem takes_catchAll (live : Live d s) : Takes d [some exc] (catchAll d exc) s := by
  intro faults
  rw [runEnd, RunEnd.Settles, catchAll, Writable]
  cases decode? ((utf16 exc.message).take 500) with
  | none =>
    refine iff_of_false ?_ fun h => absurd h.1 Bool.false_ne_true
    rw [Program.perform_of_ended rfl]
    exact live.unsettled
  | some error =>
    rw [Option.isSome_some, and_iff_right rfl]
    dsimp only
    cases faults with
    | nil => exact iff_of_false live.unsettled (by simp)
    | cons fault faults =>
      simp only [Program.perform, Program.resume, perform_ret]
      cases fault with
      | some exc => exact iff_of_false live.unsettled (by simp)
      | none =>
        obtain ⟨row, hrow, -⟩ := live
        refine iff_of_true ?_ rfl
        simp only [attempt, Store.updateDocument_eq_apply]
        exact ⟨_, Edit.document?_apply.trans (congrArg (Option.map _) hrow), .inr ⟨rfl, rfl⟩⟩

/-- A statement that would succeed is a step. -/
theorem takes_execute {point : CommitPoint} {statement : Store → Except Exc Store}
    (live : Live d s) (done : statement s = .ok s') (rest : Takes d steps next s') :
    Takes d (none :: steps) (execute point d statement next) s := by
  intro faults
  cases faults with
  | nil => exact iff_of_false live.unsettled id
  | cons fault faults =>
    rw [execute]
    simp only [Program.perform, Program.resume]
    cases fault with
    | some exc =>
      simp only [attempt]
      exact takes_catchAll live faults
    | none =>
      rw [attempt_none done]
      exact rest faults

theorem takes_setStatusAsync {status : Status} (live : Live d s)
    (transient : status.transient = true) (rest : ∀ s', Live d s' → Takes d steps next s') :
    Takes d (none :: steps) (setStatusAsync d status next) s := by
  refine takes_execute live rfl (rest _ ?_)
  obtain ⟨row, hrow, -⟩ := live
  rw [Store.updateDocument_eq_apply]
  exact ⟨_, Edit.document?_apply.trans (congrArg (Option.map _) hrow), transient⟩

theorem takes_insertEnrichments (live : Live d s) (rows : List (EnrichmentKind × Utf16))
    (rest : ∀ s', Live d s' → Takes d steps next s') :
    Takes d (rows.map insertStep ++ steps) (insertEnrichments d next rows) s := by
  induction rows generalizing s with
  | nil => exact rest s live
  | cons row rows ih =>
    obtain ⟨kind, units⟩ := row
    rw [List.map_cons, List.cons_append, insertEnrichments, insertStep]
    cases hunits : decode? units with
    | none =>
      -- nothing behind the row matters
      intro faults
      exact takes_catchAll live faults
    | some content =>
      have hstatement : Store.insertEnrichments [{ documentId := d, kind, content }] s =
          .ok { s with enrichments := s.enrichments ++ [{ documentId := d, kind, content }] } := by
        obtain ⟨row, hrow, -⟩ := live
        exact if_pos (by simp [hrow])
      have hlive : Live d
          { s with enrichments := s.enrichments ++ [{ documentId := d, kind, content }] } := live
      exact takes_execute live hstatement (ih hlive)

theorem takes_embedStage (live : Live row.id s) :
    Takes row.id (embedSteps options calls row parts plan) (embedStage options calls row parts plan)
      s := by
  refine takes_setStatusAsync live rfl fun s' live' => ?_
  cases hrows : indexRows options calls row plan (chunk parts plan.tablePreambles) with
  | error exc => exact takes_catchAll live'
  | ok rows =>
    have ⟨r, hr, _⟩ := live'
    refine takes_execute live' (indexTransaction_eq (indexRows_ok hrows).1 hr (pageCount parts))
      fun faults => iff_of_true ?_ trivial
    have hready := congrArg (Option.map (markReady rows.length (pageCount parts) s'.now)) hr
    have hkeeps (r : Document) : (markReady rows.length (pageCount parts) s'.now r).id = r.id := rfl
    rw [Program.perform_of_ended rfl]
    exact ⟨_, (Relational.lookup_update hkeeps).trans hready, .inl rfl⟩

end

/-- Whichever accesses fail and wherever it is cut off, a run settles its queued document exactly
when it finishes, or its first failure can be written and the access that writes it goes through. -/
theorem runAsync_settled_iff (options : DocsageOptions) (calls : PipelineCalls)
    (faults : List (Option Exc)) {s : Store} {documentId : Uuid} {row : Document}
    (hrow : s.document? documentId = some row) (queued : row.status = .queued) :
    Settled documentId ((runAsync options calls documentId).perform faults s).2 ↔
      (runEnd (runSteps options calls row) faults).Settles := by
  obtain rfl := Store.document?_id hrow
  have live : Live row.id s := ⟨row, hrow, by rw [queued]; rfl⟩
  have takes : Takes row.id (runSteps options calls row).tail
      (extractStage options calls row) s := by
    refine takes_setStatusAsync live rfl fun s₁ live₁ => ?_
    cases calls.extract row.id row.sourceFilename row.mimeType with
    | error exc => exact takes_catchAll live₁
    | ok parts =>
      refine takes_setStatusAsync live₁ rfl fun s₂ live₂ => ?_
      cases calls.generate (utf16 row.title) parts with
      | error exc => exact takes_catchAll live₂
      | ok plan =>
        exact takes_insertEnrichments live₂ _ fun s₃ live₃ => takes_embedStage live₃
  cases faults with
  | nil => exact iff_of_false live.unsettled id
  | cons fault faults =>
    cases fault with
    | some exc => exact takes_catchAll live faults
    | none =>
      simp only [runAsync, Program.perform, Program.resume, hrow]
      exact takes faults

/-- The UPDATE to extracting times out, and the failure is written; the connection is lost while
the chunks are committed, and so it is not. -/
theorem runAsync_settled_iff_chart :
    Settled 1 ((runAsync {} chartCalls 1).perform
        [none, some { message := "The operation has timed out." }, none] chartStore).2 ∧
      ¬ Settled 1 ((runAsync {} chartCalls 1).perform (List.replicate 5 none ++
        List.replicate 2 (some { message := "Exception while reading" })) chartStore).2 :=
  have hrow : chartStore.document? 1 = some chartRow := by decide
  have hsteps : runSteps {} chartCalls chartRow = List.replicate 6 none := rfl
  have htimeout : Writable { message := "The operation has timed out." } :=
    writable_of_short (by decide)
  ⟨(runAsync_settled_iff {} chartCalls _ hrow rfl).mpr (hsteps ▸ ⟨htimeout, rfl⟩),
    (runAsync_settled_iff {} chartCalls _ hrow rfl).not.mpr (hsteps ▸ fun h => nomatch h.2)⟩

end Docsage.DotNet
