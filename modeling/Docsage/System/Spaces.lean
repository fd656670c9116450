import Docsage.Retrieval.Completeness
import Docsage.System.Review

/-! # No comparison across vector spaces

The space of a stored vector is fixed when its document is ingested, the space
of a query when the question is asked. They agree as long as the .NET backend is
not asked for a space whose key it lacks: its resolver would answer with demo
vectors under the name of that space.
-/

namespace Docsage
open Effects Relational Transition

/-- The .NET backend takes uploads into a space, and questions about it, only with its key. -/
def KeysConfigured (w : World) : Action → Prop
  | .uploadDotNet _ _ _ request _ =>
    ∀ p, ProviderName.ofString? request.provider = some p → w.options.configured p = true
  | .askDotNet _ _ _ _ p => w.options.configured p = true
  | _ => True

namespace Life

def Truthful (l : Life) : Prop := ∀ row, l.row = some row → row.embeddingProvider = l.space

/-- A lawful event that creates no document in another space than it names. -/
def Named (l : Life) (ev : LifeEvent) : Prop :=
  l.Lawful ev ∧ ∀ row space, ev = .create row space → space = row.embeddingProvider

variable {l l' : Life} {ev : LifeEvent}

theorem Truthful.step (truthful : l.Truthful) (named : l.Named ev) (h : l.step ev = some l') :
    l'.Truthful := by
  intro row' hrow'
  cases ev with
  | create row space =>
    obtain rfl := Option.some.inj h
    obtain rfl := Option.some.inj hrow'
    exact (named.2 row space rfl).symm
  | run e next =>
    obtain rfl := Option.some.inj h
    obtain ⟨row, hrow, rfl⟩ := Option.map_eq_some_iff.mp hrow'
    exact (e.row_embeddingProvider row).trans (truthful row hrow)
  | sweep now =>
    obtain rfl := Option.some.inj h
    obtain ⟨row, hrow, rfl⟩ := Option.map_eq_some_iff.mp hrow'
    exact (congrArg FixedColumns.embeddingProvider (row.sweep_fixed now)).trans (truthful row hrow)
  | delete =>
    obtain rfl := Option.some.inj h
    cases hrow'
  | halt | pass r | insert r now =>
    obtain rfl := Option.some.inj h
    exact truthful row' hrow'
  | commit r | update r now =>
    obtain rfl := Option.some.inj h
    obtain ⟨row, hrow, rfl⟩ := Option.map_eq_some_iff.mp hrow'
    exact truthful row hrow

end Life

variable {w₀ w w' : World} {a : Action} {d : Uuid} {p : ProviderName} {vector : Vector}

theorem implementation_of_configured {options : DotNet.DocsageOptions}
    (h : options.configured p = true) : options.implementation p = p := if_pos h

theorem named_of_matched {l l₁ : Life} {ev : LifeEvent} (configured : KeysConfigured w a)
    (matched : Matched w a l l₁ ev) : l₁.Named ev := by
  refine ⟨matched.1, fun row space hev => ?_⟩
  subst hev
  rcases matched.2 with h | ⟨user, documentId, saveFile, request, calls, rfl, hparse, h⟩
  · exact h
  · exact h.trans (implementation_of_configured (configured _ hparse))

/-- Every document has a good life, in the space that it names. -/
def World.Truthful (w : World) : Prop := ∀ d, ∃ l, Represents d w l ∧ l.Good ∧ l.Truthful

theorem World.Truthful.sound (truthful : w.Truthful) : w.Sound := fun d =>
  let ⟨l, rep, good, _⟩ := truthful d
  ⟨l, rep, good⟩

theorem World.Truthful.step (truthful : w.Truthful) (configured : KeysConfigured w a)
    (h : w.step a = some w') : w'.Truthful := by
  intro d
  obtain ⟨l, rep, good, truth⟩ := truthful d
  obtain ⟨l', run, rep'⟩ := World.step_matches truthful.sound rep good h
  refine ⟨l', rep', good.run (run.mono fun _ _ matched => matched.1), ?_⟩
  exact (run.mono fun _ _ matched => named_of_matched configured matched).invariant truth
    fun _ _ _ truth named taken => truth.step named taken

/-- A stored vector that a query meets is in the space its document names. -/
theorem World.Truthful.stored_space (truthful : w.Truthful) {visible : Document → Bool}
    {c : Candidate} (hc : c ∈ candidates w.store visible p) :
    c.document.embeddingProvider = p ∧ c.vector.implementation = p := by
  obtain ⟨hchunk, hdoc, hvector, -, hp⟩ := mem_candidates.mp hc
  refine ⟨hp, ?_⟩
  obtain ⟨l, rep, good, truth⟩ := truthful c.chunk.documentId
  have hrow : l.row = some c.document := rep.row.symm.trans hdoc
  have hmem : c.chunk ∈ l.chunks := rep.chunks ▸ mem_select.mpr ⟨hchunk, rfl⟩
  have hready : c.document.status = .ready := by
    by_contra hne
    rw [((good.present _ hrow).unready hne).chunks] at hmem
    cases hmem
  obtain ⟨v, hv, hspace⟩ :=
    ((good.present _ hrow).ready hready).complete.embeddings c.chunk hmem
  obtain rfl := Option.some.inj (hv.symm.trans hvector)
  rw [hspace, ← truth _ hrow, hp]

inductive Queried (w : World) : Action → ProviderName → Vector → Prop where
  | fastApi {service : EmbeddingService} {userId : Uuid} {scope : ChatScope} {question : String}
      {p : ProviderName} {vector : Vector}
      (query : queryVector w.settings service question p = .ok vector) :
      Queried w (.askFastApi service userId scope question p) p vector
  | dotNet {service : DotNet.EmbeddingService} {userId : Uuid} {scope : ChatScope}
      {question : Text.Utf16} {p : ProviderName} {vector : Vector}
      (query : DotNet.queryVector w.options service question p = .ok vector) :
      Queried w (.askDotNet service userId scope question p) p vector

theorem Queried.query_space (queried : Queried w a p vector) (configured : KeysConfigured w a) :
    vector.implementation = p := by
  cases queried with
  | fastApi query =>
    obtain ⟨provider, hprovider, hquery⟩ := bind_ok query
    exact (getProvider_embedsIn hprovider).query hquery
  | dotNet query =>
    exact ((DotNet.resolve_embedsIn _ _ _).query query).trans
      (implementation_of_configured configured)

theorem World.accept_compared {upload : Except HttpError Document} {job : Job}
    (h : w.accept upload job = some w') : w'.compared = w.compared := by
  unfold World.accept at h
  split at h
  · cases h
  split at h
  · obtain rfl := Option.some.inj h
    rfl
  split at h
  · obtain rfl := Option.some.inj h
    rfl
  · obtain rfl := Option.some.inj h
    rfl

theorem World.write_compared {ticket : ℕ} {fault : Option Exc}
    (h : w.write ticket fault = some w') : w'.compared = w.compared := by
  obtain ⟨r, -, rfl⟩ := Option.map_eq_some_iff.mp h
  split
  · unfold World.commitReview
    split <;> rfl
  · unfold World.insertReview
    split <;> rfl
  · unfold World.updateReview
    split <;> rfl

theorem World.compare_compared (w : World) (visible : Document → Bool) (p : ProviderName)
    (query : Except Exc Vector) :
    (w.compare visible p query).compared = w.compared ∨ ∃ vector, query = .ok vector ∧
      (w.compare visible p query).compared =
        w.compared ++ comparisons w.store visible p vector := by
  cases query with
  | error e => exact .inl rfl
  | ok vector => exact .inr ⟨vector, rfl, rfl⟩

theorem World.step_compared (h : w.step a = some w') :
    w'.compared = w.compared ∨ ∃ visible p vector,
      w'.compared = w.compared ++ comparisons w.store visible p vector ∧ Queried w a p vector := by
  cases a with
  | tick | administer | restartFastApi | restartDotNet | delete =>
    obtain rfl := Option.some.inj h
    exact .inl rfl
  | sweep b => cases b <;> (obtain rfl := Option.some.inj h; exact .inl rfl)
  | uploadFastApi => exact .inl (World.accept_compared h)
  | uploadDotNet => exact .inl (World.accept_compared h)
  | advance documentId fault =>
    obtain ⟨j, -, h⟩ := Option.bind_eq_some_iff.mp h
    obtain ⟨r, -, rfl⟩ := Option.map_eq_some_iff.mp h
    exact .inl rfl
  | review b request =>
    obtain rfl := Option.some.inj h
    unfold World.review
    split <;> exact .inl rfl
  | write ticket fault => exact .inl (World.write_compared h)
  | askFastApi service userId scope question p =>
    obtain rfl := Option.some.inj h
    rcases World.compare_compared w (candidateFilter userId scope) p
      (queryVector w.settings service question p) with hsame | ⟨vector, query, hmore⟩
    · exact .inl hsame
    · exact .inr ⟨_, p, vector, hmore, .fastApi query⟩
  | askDotNet service userId scope question p =>
    obtain rfl := Option.some.inj h
    rcases World.compare_compared w (DotNet.candidatePredicate userId scope) p
      (DotNet.queryVector w.options service question p) with hsame | ⟨vector, query, hmore⟩
    · exact .inl hsame
    · exact .inr ⟨_, p, vector, hmore, .dotNet query⟩

/-- The documents are where they say, and every comparison made was within one space. -/
structure World.Separate (w : World) : Prop where
  truthful : w.Truthful
  compared : ∀ c ∈ w.compared, c.SameSpace

theorem World.Separate.step (separate : w.Separate) (configured : KeysConfigured w a)
    (h : w.step a = some w') : w'.Separate := by
  refine ⟨separate.truthful.step configured h, fun c hc => ?_⟩
  rcases World.step_compared h with hsame | ⟨visible, p, vector, hmore, queried⟩
  · exact separate.compared c (hsame ▸ hc)
  · rw [hmore] at hc
    rcases List.mem_append.mp hc with hc | hc
    · exact separate.compared c hc
    · obtain ⟨candidate, hcandidate, rfl⟩ := List.mem_map.mp hc
      obtain ⟨hprovider, hstored⟩ := separate.truthful.stored_space hcandidate
      exact ⟨(queried.query_space configured).trans hprovider.symm, hstored.trans hprovider.symm⟩

theorem World.Initial.separate (initial : w.Initial) : w.Separate := by
  refine ⟨fun d => ?_, by simp [initial.compared]⟩
  obtain ⟨l, rep, good⟩ := initial.sound d
  refine ⟨l, rep, good, fun row hrow => ?_⟩
  rw [← rep.row, Store.document?, initial.documents] at hrow
  cases hrow

/-- In every history in which the .NET backend has the keys of the spaces it is asked for, every
comparison is between two vectors of the implementation that the document names. -/
theorem comparisons_within_space (initial : w₀.Initial) (run : Run World.step KeysConfigured w₀ w)
    {c : Comparison} (hc : c ∈ w.compared) : c.SameSpace :=
  (run.invariant initial.separate fun _ _ _ separate configured taken =>
    separate.step configured taken).compared c hc

namespace Agency

def dotNetService : DotNet.EmbeddingService where
  demoVector _ := [1]
  embedTexts _ _ := .error { message := "no key" }
  embedQuery _ _ := .error { message := "no key" }

def pipelineCalls : DotNet.PipelineCalls where
  service := dotNetService
  extract _ _ _ := .ok [{ kind := .text, content := Text.utf16 "Draft." }]
  generate _ _ := .ok
    { summary := Text.utf16 "Draft.", keywords := [], questions := [], captions := []
      tablePreambles := [] }
  chunkIds position := 200 + position

/-- The SME uploads a draft for the gemini space to the .NET backend, and it is ingested. -/
def ingestDraft : List Action :=
  .uploadDotNet sme 8 (.ok ())
    { file := some [0x44], fileName := "draft.txt", contentType := some "text/plain"
      provider := "gemini", scope := "personal", title := "", topicId := .absent }
    pipelineCalls :: List.replicate 6 (.advance 8 none)

/-- The ready report is asked about through the .NET backend, in the demo space. -/
def askAboutReport : Action :=
  .askDotNet dotNetService admin.id .admin (Text.utf16 "Revenue?") .demo

/-- The draft is asked about through the FastAPI backend, in the gemini space. -/
def askAboutDraft : Action := .askFastApi Mixed.service sme.id .personal "What is drafted?" .gemini

def oneKey : World := { start with settings := { demoMode := false, geminiApiKey := "g" } }

theorem oneKey_initial : oneKey.Initial := ⟨rfl, rfl, rfl, rfl, rfl, rfl, rfl, rfl, rfl⟩

end Agency

theorem comparisons_within_space_report : ∃ w c,
    execute World.step Agency.start (Agency.ingestReport ++ [Agency.askAboutReport]) = some w ∧
    c ∈ w.compared ∧ c.SameSpace := by
  have hcompared : ((execute World.step Agency.start
      (Agency.ingestReport ++ [Agency.askAboutReport])).map (·.compared)) =
      some [⟨⟨.demo, [1]⟩, ⟨.demo, [1]⟩, .demo⟩] := by decide
  obtain ⟨w, hw, hcompared⟩ := Option.map_eq_some_iff.mp hcompared
  have run : Run World.step KeysConfigured Agency.start w := by
    refine .of_execute (obeys_of_forall (fun a ha s => ?_) _) hw
    rcases List.mem_append.mp ha with ha | ha
    · rcases List.mem_cons.mp ha with rfl | ha
      · trivial
      · rw [List.eq_of_mem_replicate ha]
        trivial
    · rw [List.mem_singleton.mp ha]
      rfl
  have hc : (⟨⟨.demo, [1]⟩, ⟨.demo, [1]⟩, .demo⟩ : Comparison) ∈ w.compared := by
    rw [hcompared]
    exact List.mem_singleton_self _
  exact ⟨w, _, hw, hc, comparisons_within_space Agency.start_initial run hc⟩

/-- A gemini query is compared with a demo vector. -/
theorem comparisons_across_spaces :
    ¬ ∀ (w₀ w : World) (c : Comparison), w₀.Initial → Run World.step anyAction w₀ w →
      c ∈ w.compared → c.SameSpace := by
  intro h
  have hcompared : ((execute World.step Agency.oneKey
      (Agency.ingestDraft ++ [Agency.askAboutDraft])).map (·.compared)) =
      some [⟨⟨.gemini, [1]⟩, ⟨.demo, [1]⟩, .gemini⟩] := by decide +kernel
  obtain ⟨w, hw, hcompared⟩ := Option.map_eq_some_iff.mp hcompared
  have hc : (⟨⟨.gemini, [1]⟩, ⟨.demo, [1]⟩, .gemini⟩ : Comparison) ∈ w.compared := by
    rw [hcompared]
    exact List.mem_singleton_self _
  exact absurd (h _ w _ Agency.oneKey_initial (.of_execute (obeys_true _ _) hw) hc) (by decide)

end Docsage
