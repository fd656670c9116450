import Docsage.Ingestion.Extract
import Docsage.Ingestion.Outcome
import Docsage.Api.Upload
import Docsage.Retrieval.Retrieve
import Mathlib.Algebra.Order.Ring.Rat
import Mathlib.Tactic.Linarith

/-! # Ready means searchable

A run writes `ready` in the commit that adds its chunk rows, and at no other
place. One chunk comes of every extracted part at least, so the document can be
found exactly when its file has something to extract.
-/

namespace Docsage
open Effects

/-- What the store has of the document while the run has not published it. -/
structure Unpublished (s₀ : Store) (d : Uuid) (s : Store) : Prop where
  chunks : s.chunks = s₀.chunks
  corpus : s.documents.map Document.fixed = s₀.documents.map Document.fixed
  unready : ∀ row, s.document? d = some row → row.status ≠ .ready ∧ row.reviewStatus ≠ .approved

/-- The store once the run has published the document with these chunk rows. -/
structure Indexed (s₀ : Store) (d : Uuid) (rows : List Chunk) (s : Store) : Prop where
  chunks : s.chunks = s₀.chunks ++ rows
  corpus : s.documents.map Document.fixed = s₀.documents.map Document.fixed
  unapproved : ∀ row, s.document? d = some row → row.reviewStatus ≠ .approved

section Outcome

variable {settings : Settings} {calls : IngestionCalls} {fault : CommitPoint → Option Exc}
  {provider : EmbeddingProvider} {document : OrmDocument} {row : Document} {s s₀ : Store}
  {result : ExtractionResult} {enrichment : EnrichmentResult} {u : UnitOfWork}

theorem commitSession_cases (owned : u.Owned) (point : CommitPoint)
    (next : Except Exc OrmDocument → IngestionProgram) (fault : CommitPoint → Option Exc)
    (s : Store) :
    (commitSession point u next).exec fault s =
        (next (.ok u.committed)).exec fault ((u.edit s.now).apply u.document.id s) ∨
      ∃ exc, (commitSession point u next).exec fault s = (next (.error exc)).exec fault s := by
  unfold commitSession UnitOfWork.committed
  split
  · left
    rw [UnitOfWork.edit_of_isEmpty ‹_›]
  · simp only [Program.exec]
    rcases attempt_cases (fault point) u.flush s with ⟨hr, hs⟩ | ⟨⟨exc, hr⟩, hs⟩
    · left
      rw [hr, (UnitOfWork.flush_ok owned hs).2]
    · right
      exact ⟨exc, by rw [hr, hs]⟩

theorem corpus_edit (e : Edit) (d : Uuid) (s : Store) :
    (e.apply d s).documents.map Document.fixed = s.documents.map Document.fixed := by
  simp only [Edit.apply, Relational.update, List.map_map]
  refine List.map_congr_left fun r _ => ?_
  simp only [Function.comp_apply]
  split
  · exact e.fixed r
  · rfl

theorem UnitOfWork.edit_reviewStatus (now : Timestamp) (row : Document) :
    ((u.edit now).row row).reviewStatus =
      u.document.patch.reviewStatus.getD row.reviewStatus := by
  simp only [edit]
  split
  · next h => rw [h]; rfl
  · rfl

theorem getD_ne {α : Type} {o : Option α} {a b : α} (ho : o ≠ some b) (ha : a ≠ b) :
    o.getD a ≠ b := by
  cases o with
  | none => exact ha
  | some c => exact fun h => ho (congrArg some h)

/-- What a unit of work may send before the document is published. -/
theorem Unpublished.edit (h : Unpublished s₀ u.document.id s) (hchunks : u.chunks = [])
    (hstatus : u.document.patch.status ≠ some .ready)
    (hreview : u.document.patch.reviewStatus ≠ some .approved) :
    Unpublished s₀ u.document.id ((u.edit s.now).apply u.document.id s) where
  chunks := by rw [← h.chunks, Edit.apply, UnitOfWork.edit, hchunks, List.append_nil]
  corpus := (corpus_edit _ _ _).trans h.corpus
  unready row' hrow' := by
    rw [Edit.document?_apply] at hrow'
    obtain ⟨row, hrow, rfl⟩ := Option.map_eq_some_iff.mp hrow'
    rw [UnitOfWork.edit_status, UnitOfWork.edit_reviewStatus]
    exact ⟨getD_ne hstatus (h.unready row hrow).1, getD_ne hreview (h.unready row hrow).2⟩

/-- A transient status or a failure leaves the document unpublished. -/
theorem setStatus_unpublished (began : Option Timestamp) {status : Status}
    (error : Option String) (next : OrmDocument → IngestionProgram)
    (fault : CommitPoint → Option Exc) (clean : document.Clean) (hs : status ≠ .ready)
    (h : Unpublished s₀ document.id s) :
    (∃ s', Unpublished s₀ document.id s' ∧
        (setStatus began document status error next).exec fault s =
          (next (document.withStatus status error)).exec fault s') ∨
      ((setStatus began document status error next).exec fault s).2 = s := by
  let u : UnitOfWork := { document := document.assignStatus status error, began }
  have hcommitted : u.committed = document.withStatus status error :=
    UnitOfWork.committed_assignStatus clean began status error
  have hpatch : u.document.patch.status ≠ some .ready := by
    simp only [u, clean.patch_assignStatus, Tracked.dirty_assign]
    split <;> simp [hs]
  have hreview : u.document.patch.reviewStatus ≠ some .approved := by
    simp [u, clean.patch_assignStatus]
  have howned : u.Owned := ⟨nofun, nofun⟩
  rcases commitSession_cases howned .status _ fault s with hok | ⟨exc, herror⟩
  · left
    exact ⟨_, @Unpublished.edit s s₀ u h rfl hpatch hreview, hok.trans (by rw [hcommitted])⟩
  · right
    rw [setStatus, herror]
    rfl

theorem failWith_unpublished {began : Option Timestamp} {reason : String} (clean : document.Clean)
    (h : Unpublished s₀ document.id s) :
    Unpublished s₀ document.id ((failWith began document reason).exec fault s).2 := by
  have failed : Status.failed ≠ .ready := nofun
  rcases setStatus_unpublished began (some reason) (fun _ => .ret ()) fault clean failed h with
    ⟨s', h', hexec⟩ | hraised
  · rw [failWith, hexec]
    exact h'
  · rw [failWith, hraised]
    exact h

theorem failWith_rollback_unpublished {began : Option Timestamp} {reason : String}
    (h : Unpublished s₀ document.id s) :
    Unpublished s₀ document.id ((failWith began document.rollback reason).exec fault s).2 :=
  failWith_unpublished (OrmDocument.clean_rollback document) h

def EndsIndexed (settings : Settings) (calls : IngestionCalls) (s₀ : Store)
    (document : OrmDocument) (result : ExtractionResult) (s : Store) : Prop :=
  Unpublished s₀ document.id s ∨
    ∃ provider enrichment rows,
      getProvider document.embeddingProvider settings calls.service = .ok provider ∧
      embedRows provider document.id calls.chunkIds document.title result.parts enrichment =
        .ok rows ∧
      Indexed s₀ document.id rows s

/-- Publishing a document never approves it. -/
theorem finish_patch_reviewStatus (clean : document.Clean) (rows : List Chunk) :
    (document.finish provider result rows).patch.reviewStatus ≠ some .approved := by
  change (if document.scope = .library then document.reviewStatus.assign .pendingSme
    else document.reviewStatus).dirty ≠ _
  split_ifs
  · rw [Tracked.dirty_assign]
    split <;> simp
  · rw [clean.reviewStatus.dirty]
    simp

/-- The embed stage publishes what it embedded, or leaves the document unpublished. -/
theorem embedAndFinish_ends {space : ProviderName} (embeds : provider.EmbedsIn space)
    (clean : document.Clean)
    (hp : getProvider document.embeddingProvider settings calls.service = .ok provider)
    (h : Unpublished s₀ document.id s) :
    EndsIndexed settings calls s₀ document result
      ((embedAndFinish calls provider result enrichment document).exec fault s).2 := by
  unfold embedAndFinish
  split
  · exact .inl (failWith_rollback_unpublished h)
  · next rows hrows =>
    let u : UnitOfWork := { document := document.finish provider result rows, chunks := rows }
    have howned : u.Owned := ⟨List.forall_mem_nil _, embedRows_owned embeds hrows⟩
    rcases commitSession_cases howned .chunks _ fault s with hok | ⟨exc, herror⟩
    · right
      refine ⟨provider, enrichment, rows, hp, hrows, ?_⟩
      rw [hok]
      refine ⟨congrArg (· ++ rows) h.chunks, (corpus_edit _ _ _).trans h.corpus,
        fun row' hrow' => ?_⟩
      change ((u.edit s.now).apply u.document.id s).document? u.document.id = some row' at hrow'
      rw [Edit.document?_apply] at hrow'
      obtain ⟨row, hrow, rfl⟩ := Option.map_eq_some_iff.mp hrow'
      rw [UnitOfWork.edit_reviewStatus]
      exact getD_ne (finish_patch_reviewStatus clean rows) (h.unready row hrow).2
    · rw [herror]
      exact .inl (failWith_rollback_unpublished h)

theorem commitSession_unpublished {point : CommitPoint} {rows : List Enrichment}
    {next : Except Exc OrmDocument → IngestionProgram} (clean : document.Clean)
    (owned : ∀ r ∈ rows, r.documentId = document.id) (h : Unpublished s₀ document.id s)
    {post : Store → Prop}
    (done : ∀ s', Unpublished s₀ document.id s' → post ((next (.ok document)).exec fault s').2)
    (failed : ∀ exc, post ((next (.error exc)).exec fault s).2) :
    post ((commitSession point { document, enrichments := rows } next).exec fault s).2 := by
  let u : UnitOfWork := { document, enrichments := rows }
  have howned : u.Owned := ⟨owned, List.forall_mem_nil _⟩
  rcases commitSession_cases howned point next fault s with hok | ⟨exc, herror⟩
  · rw [hok, committed_of_clean clean]
    refine done _ (@Unpublished.edit s s₀ u h rfl ?_ ?_) <;> simp [u, clean.patch]
  · rw [herror]
    exact failed exc

theorem captionAndEmbed_ends {space : ProviderName} (embeds : provider.EmbedsIn space)
    (clean : document.Clean)
    (hp : getProvider document.embeddingProvider settings calls.service = .ok provider)
    (h : Unpublished s₀ document.id s) :
    EndsIndexed settings calls s₀ document result
      ((captionAndEmbed calls provider result enrichment document).exec fault s).2 := by
  refine commitSession_unpublished clean captionEnrichments_owned h (fun s' h' => ?_)
    fun exc => .inl h
  have embedding : Status.embedding ≠ .ready := nofun
  rcases setStatus_unpublished none none (embedAndFinish calls provider result enrichment) fault
    clean embedding h' with ⟨s'', h'', hexec⟩ | hraised
  · rw [hexec]
    exact (embedAndFinish_ends embeds (clean.withStatus .embedding none) hp h'' :)
  · rw [hraised]
    exact .inl h'

theorem enrichAndPersist_ends {space : ProviderName} (embeds : provider.EmbedsIn space)
    (clean : document.Clean)
    (hp : getProvider document.embeddingProvider settings calls.service = .ok provider)
    (h : Unpublished s₀ document.id s) :
    EndsIndexed settings calls s₀ document result
      ((enrichAndPersist calls provider result document).exec fault s).2 := by
  unfold enrichAndPersist
  split
  · exact .inl (failWith_rollback_unpublished h)
  · exact commitSession_unpublished clean persistEnrichments_owned h
      (fun s' h' => captionAndEmbed_ends embeds clean hp h')
      fun exc => .inl (failWith_rollback_unpublished h)

theorem extractAndEnrich_ends {space : ProviderName} (embeds : provider.EmbedsIn space)
    (clean : document.Clean)
    (hp : getProvider document.embeddingProvider settings calls.service = .ok provider)
    (h : Unpublished s₀ document.id s) :
    Unpublished s₀ document.id ((extractAndEnrich calls provider document).exec fault s).2 ∨
      ∃ result, calls.extract document.id document.sourceFilename document.mimeType = .ok result ∧
        EndsIndexed settings calls s₀ document result
          ((extractAndEnrich calls provider document).exec fault s).2 := by
  unfold extractAndEnrich
  cases hextract : calls.extract document.id document.sourceFilename document.mimeType with
  | error exc => exact .inl (failWith_unpublished clean h)
  | ok result =>
    have enriching : Status.enriching ≠ .ready := nofun
    rcases setStatus_unpublished none none (enrichAndPersist calls provider result) fault clean
      enriching h with ⟨s', h', hexec⟩ | hraised
    · right
      refine ⟨result, rfl, ?_⟩
      change EndsIndexed _ _ _ _ _ ((setStatus none document .enriching none _).exec fault s).2
      rw [hexec]
      exact (enrichAndPersist_ends embeds (clean.withStatus .enriching none) hp h' :)
    · left
      change Unpublished _ _ ((setStatus none document .enriching none _).exec fault s).2
      rw [hraised]
      exact h

/-- How a run of an uploaded document ends: unpublished, or with the rows of what was extracted. -/
theorem runIngestion_ends {d : Uuid} (fault : CommitPoint → Option Exc)
    (hrow : s.document? d = some row) (unready : row.status ≠ .ready)
    (unapproved : row.reviewStatus ≠ .approved) :
    Unpublished s d ((runIngestion settings calls d).exec fault s).2 ∨
      ∃ result, calls.extract d row.sourceFilename row.mimeType = .ok result ∧
        EndsIndexed settings calls s (.load row) result
          ((runIngestion settings calls d).exec fault s).2 := by
  obtain rfl := Store.document?_id hrow
  have clean := OrmDocument.clean_load row
  have h : Unpublished s row.id s := by
    refine ⟨rfl, rfl, fun row' hrow' => ?_⟩
    obtain rfl := Option.some.inj (hrow.symm.trans hrow')
    exact ⟨unready, unapproved⟩
  simp only [runIngestion, Program.exec, hrow, ingest, OrmDocument.load]
  split
  · split
    · exact .inl (failWith_unpublished clean h :)
    · exact .inl h
  · next provider hp =>
    have extracting : Status.extracting ≠ .ready := by decide
    rcases setStatus_unpublished (some s.now) none (extractAndEnrich calls provider) fault clean
      extracting h with ⟨s', h', hexec⟩ | hraised
    · simp only [OrmDocument.load] at hexec
      rw [hexec]
      exact (extractAndEnrich_ends (getProvider_embedsIn hp) (clean.withStatus .extracting none) hp
        h' :)
    · left
      simp only [OrmDocument.load] at hraised
      rw [hraised]
      exact h

theorem chunkText_ne_nil (content : String) : chunkText content ≠ [] := by
  unfold chunkText
  split
  · simp
  · next hlong =>
    have hne : content.toList ≠ [] := by
      intro h
      rw [← String.length_toList, h] at hlong
      exact hlong (Nat.zero_le _)
    rw [Windows.windows_of_ne_nil (by decide) _ hne]
    simp

theorem partChunks_ne_nil (part : ExtractedPart) (index : ℕ) :
    partChunks enrichment part index ≠ [] := by
  unfold partChunks
  split <;> simp [chunkText_ne_nil]

theorem buildChunks_eq_nil {parts : List ExtractedPart} :
    buildChunks parts enrichment = [] ↔ parts = [] := by
  simp [buildChunks, List.flatMap_eq_nil_iff, partChunks_ne_nil, ← List.eq_nil_iff_forall_not_mem]

/-- The rows that are embedded: none for a document without parts, and each with a vector. -/
theorem embedRows_eq_nil {space : ProviderName} (embeds : provider.EmbedsIn space) {d : Uuid}
    {rowIds : ℕ → Uuid} {title : String} {rows : List Chunk}
    (h : embedRows provider d rowIds title result.parts enrichment = .ok rows) :
    rows = [] ↔ result.parts = [] := by
  obtain ⟨hbare, -, -⟩ := embedRows_ok embeds h
  rw [← List.map_eq_nil_iff (f := Chunk.bare), hbare, bareRows, List.map_eq_nil_iff,
    List.zipIdx_eq_nil_iff, buildChunks_eq_nil]

/-- Cosine distances are at most 2. -/
def VectorIndex.Cosine (index : VectorIndex) : Prop := ∀ a b, index.distance a b ≤ 2

section Retrieval

variable {index : VectorIndex} {service : EmbeddingService} {visible : Document → Bool} {k : ℕ}

theorem rank_eq_nil {α κ : Type} [LinearOrder κ] {score : α → κ} {rows : List α} :
    Ranking.rank score rows = [] ↔ rows = [] := by
  rw [← List.length_eq_zero_iff, Ranking.rank_perm.length_eq, List.length_eq_zero_iff]

theorem nearest_eq_nil {α κ : Type} [LinearOrder κ] (order : Ranking.OrderBy α κ) {key : α → κ}
    {rows : List α} (hk : 0 < k) : order.nearest key k rows = [] ↔ rows = [] := by
  rw [Ranking.OrderBy.nearest, List.take_eq_nil_iff,
    ← List.length_eq_zero_iff (l := order.sort _ _),
    (order.perm key rows).length_eq, List.length_eq_zero_iff]
  exact or_iff_right hk.ne'

/-- The demo space has no floor, so its query only loses what the limit cuts. -/
theorem retrieveSpace_demo_eq_nil (cosine : index.Cosine) (hk : 0 < k) (query : Vector) :
    retrieveSpace index s visible k query .demo = [] ↔ candidates s visible .demo = [] := by
  have hall (c : Candidate) : decide (¬ c.similarity index query < cutoff .demo) = true := by
    have h := cosine query.components c.vector.components
    have hfloor : cutoff .demo = -1 := rfl
    rw [decide_eq_true_eq, hfloor, Candidate.similarity, not_lt]
    linarith
  rw [retrieveSpace, List.map_eq_nil_iff, List.filter_eq_self.mpr fun c _ => hall c]
  exact nearest_eq_nil _ hk

/-- A corpus that is all demo is searched in the demo space, or nothing of it is visible. -/
theorem visibleProviders_demo (demo : ∀ r ∈ s.documents, r.embeddingProvider = .demo) :
    visibleProviders s visible = [.demo] ∨
      visibleProviders s visible = [] ∧ candidates s visible .demo = [] := by
  have hspaces (p : ProviderName) (hp : p ≠ .demo) :
      (s.documents.any fun d => visible d && Decidable.decide (d.embeddingProvider = p)) =
        false := by
    rw [List.any_eq_false]
    intro d hd
    simp [demo d hd, hp.symm]
  simp only [visibleProviders, List.filter_cons, hspaces .gemini nofun, hspaces .openai nofun]
  cases hany : s.documents.any fun d =>
      visible d && Decidable.decide (d.embeddingProvider = .demo) with
  | true => exact .inl rfl
  | false =>
    refine .inr ⟨rfl, List.eq_nil_iff_forall_not_mem.mpr fun c hc => ?_⟩
    obtain ⟨-, hdoc, -, hvis, hp⟩ := mem_candidates.mp hc
    simpa [hvis, hp] using List.any_eq_false.mp hany c.document (Store.document?_mem hdoc)

/-- Over a corpus that is all demo, retrieval returns a chunk exactly when one is visible. -/
theorem retrieve_demo (cosine : index.Cosine) (hk : 0 < k) (user : User) (question : String)
    (demo : ∀ r ∈ s.documents, r.embeddingProvider = .demo) :
    ∃ answer, retrieve index settings service s user .personal question k = .ok answer ∧
      (answer = [] ↔ candidates s (candidateFilter user.id .personal) .demo = []) := by
  rw [retrieve]
  obtain hproviders | ⟨hproviders, hnone⟩ := visibleProviders_demo demo <;> rw [hproviders]
  · exact ⟨_, rfl, by simp [mergeRanked, rank_eq_nil, retrieveSpace_demo_eq_nil cosine hk, hk.ne']⟩
  · exact ⟨mergeRanked k [], rfl, iff_of_true (by simp [mergeRanked, rank_eq_nil]) hnone⟩

end Retrieval

def Searchable (d : Uuid) (s : Store) : Prop := ∃ c ∈ s.chunksOf d, c.embedding.isSome

/-- Whatever the owner asks in personal scope, a chunk is returned. -/
def FoundByOwner (index : VectorIndex) (settings : Settings) (service : EmbeddingService)
    (ownerId : Uuid) (s : Store) : Prop :=
  ∀ (user : User) (question : String) (k : ℕ), user.id = ownerId → 0 < k →
    ∃ answer, retrieve index settings service s user .personal question k = .ok answer ∧
      answer ≠ []

section Published

variable {d : Uuid} {rows : List Chunk} {final : Store}

theorem Indexed.chunksOf (indexed : Indexed s d rows final) (new : s.chunksOf d = [])
    (owned : ∀ r ∈ rows, r.documentId = d) : final.chunksOf d = rows := by
  rw [Store.chunksOf, indexed.chunks, Relational.select_append, Relational.select_eq_self owned]
  change s.chunksOf d ++ rows = rows
  rw [new, List.nil_append]

theorem Indexed.documents (indexed : Indexed s d rows final) (only : s.documents = [row]) :
    ∃ row', final.documents = [row'] ∧ row'.fixed = row.fixed := by
  have hcorpus := indexed.corpus
  rw [only, List.map_singleton] at hcorpus
  exact List.map_eq_singleton_iff.mp hcorpus

/-- The owner sees a chunk of the only document when it is a personal one and has rows. -/
theorem Indexed.candidates_eq_nil (indexed : Indexed s d rows final) (hd : row.id = d)
    (new : s.chunksOf d = []) (owned : ∀ r ∈ rows, r.documentId = d)
    (embedded : ∀ r ∈ rows, r.embedding.isSome) (only : s.documents = [row])
    (demo : row.embeddingProvider = .demo) :
    candidates final (candidateFilter row.ownerId .personal) .demo = [] ↔
      ¬ (rows ≠ [] ∧ row.scope = .personal) := by
  obtain ⟨row', hdocuments, hfixed⟩ := indexed.documents only
  have hid : row'.id = d := (congrArg FixedColumns.id hfixed).trans hd
  have hrow' : final.document? d = some row' := by
    simp [Store.document?, Relational.lookup, hdocuments, hid]
  have hscope : row'.scope = row.scope := congrArg FixedColumns.scope hfixed
  have howner : row'.ownerId = row.ownerId := congrArg FixedColumns.ownerId hfixed
  have hspace : row'.embeddingProvider = .demo :=
    (congrArg FixedColumns.embeddingProvider hfixed).trans demo
  rw [List.eq_nil_iff_forall_not_mem]
  constructor
  · rintro hnone ⟨hne, hpersonal⟩
    obtain ⟨c, hc⟩ := List.exists_mem_of_ne_nil rows hne
    obtain ⟨v, hv⟩ := Option.isSome_iff_exists.mp (embedded c hc)
    refine hnone ⟨c, row', v⟩ (mem_candidates.mpr ⟨?_, ?_, hv, ?_, hspace⟩)
    · rw [indexed.chunks]
      exact List.mem_append_right _ hc
    · rw [owned c hc, hrow']
    · simp [candidateFilter, hscope, hpersonal, howner]
  · intro h c hc
    obtain ⟨hchunk, hdoc, -, hvis, -⟩ := mem_candidates.mp hc
    have hdocument : c.document = row' := by
      have hmem := Store.document?_mem hdoc
      rwa [hdocuments, List.mem_singleton] at hmem
    apply h
    constructor
    · rw [← indexed.chunksOf new owned]
      refine List.ne_nil_of_mem (a := c.chunk) (Relational.mem_select.mpr ⟨hchunk, ?_⟩)
      rw [← Store.document?_id hdoc, hdocument, hid]
    · -- a library document would have to be approved
      have hreview := indexed.unapproved row' hrow'
      rw [hdocument] at hvis
      have hscopes : row.scope = .personal ∧ row'.ownerId = row.ownerId := by
        simpa [candidateFilter, hscope, hreview] using hvis
      exact hscopes.1

end Published

/-- A run that leaves its document ready has indexed what it extracted. -/
theorem runIngestion_ready {d : Uuid} (hrow : s.document? d = some row) (uploaded : Uploaded d row)
    (ready : ∃ row', ((runIngestion settings calls d).exec fault s).2.document? d = some row' ∧
      row'.status = .ready) :
    ∃ result rows, calls.extract d row.sourceFilename row.mimeType = .ok result ∧
      (rows = [] ↔ result.parts = []) ∧ (∀ r ∈ rows, r.documentId = d) ∧
      (∀ r ∈ rows, r.embedding.isSome) ∧
      Indexed s d rows ((runIngestion settings calls d).exec fault s).2 := by
  obtain ⟨row', hrow', hready⟩ := ready
  obtain rfl := uploaded.id
  have unready : row.status ≠ .ready := by simp [uploaded.status]
  have unapproved : row.reviewStatus ≠ .approved := by simp [uploaded.reviewStatus]
  rcases @runIngestion_ends settings calls row s row.id fault hrow unready unapproved with
    unpublished | ⟨result, hresult, unpublished | ⟨provider, enrichment, rows, hp, hrows, indexed⟩⟩
  · exact absurd hready (unpublished.unready row' hrow').1
  · exact absurd hready (unpublished.unready row' hrow').1
  · have embeds := getProvider_embedsIn hp
    exact ⟨result, rows, hresult, embedRows_eq_nil embeds hrows, embedRows_owned embeds hrows,
      (embedRows_ok embeds hrows).2.1, indexed⟩

theorem foundByOwner_iff {index : VectorIndex} (cosine : index.Cosine) (asked : Settings)
    (service : EmbeddingService) {ownerId : Uuid}
    (demo : ∀ r ∈ s.documents, r.embeddingProvider = .demo) :
    FoundByOwner index asked service ownerId s ↔
      candidates s (candidateFilter ownerId .personal) .demo ≠ [] := by
  constructor
  · intro found
    let owner : User := ⟨ownerId, "", "", "", .user⟩
    obtain ⟨answer, hanswer, hne⟩ := found owner "" 1 rfl Nat.one_pos
    obtain ⟨answer', hanswer', hiff⟩ :=
      @retrieve_demo asked s index service 1 cosine Nat.one_pos owner "" demo
    obtain rfl := Except.ok.inj (hanswer.symm.trans hanswer')
    exact fun h => hne (hiff.mpr h)
  · rintro hne user question k rfl hk
    obtain ⟨answer, hanswer, hiff⟩ :=
      @retrieve_demo asked s index service k cosine hk user question demo
    exact ⟨answer, hanswer, fun h => hne (hiff.mp h)⟩

/-- A document that a run left ready can be found exactly when its file has something to extract,
and by its owner when it is also a personal one. -/
theorem ready_searchable_iff {index : VectorIndex} (cosine : index.Cosine) (asked : Settings)
    (service : EmbeddingService) {d : Uuid} {file : StoredFile} (hrow : s.document? d = some row)
    (uploaded : Uploaded d row) (new : s.chunksOf d = [])
    (hextract : calls.extract d row.sourceFilename row.mimeType = extract file row.mimeType)
    (ready : ∃ row', ((runIngestion settings calls d).exec fault s).2.document? d = some row' ∧
      row'.status = .ready) :
    (Searchable d ((runIngestion settings calls d).exec fault s).2 ↔
      file.hasContent row.mimeType = true) ∧
    (s.documents = [row] → row.embeddingProvider = .demo →
      (FoundByOwner index asked service row.ownerId
          ((runIngestion settings calls d).exec fault s).2 ↔
        file.hasContent row.mimeType = true ∧ row.scope = .personal)) := by
  obtain ⟨result, rows, hresult, hnil, owned, embedded, indexed⟩ :=
    runIngestion_ready hrow uploaded ready
  have hcontent : rows ≠ [] ↔ file.hasContent row.mimeType = true := by
    rw [← extract_parts_ne_nil_iff (hextract.symm.trans hresult)]
    exact not_congr hnil
  refine ⟨?_, fun only demo => ?_⟩
  · rw [Searchable, indexed.chunksOf new owned, ← hcontent]
    constructor
    · rintro ⟨c, hc, -⟩
      exact List.ne_nil_of_mem hc
    · intro hne
      obtain ⟨c, hc⟩ := List.exists_mem_of_ne_nil rows hne
      exact ⟨c, hc, embedded c hc⟩
  · obtain ⟨row', hdocuments, hfixed⟩ := indexed.documents only
    have hspace : row'.embeddingProvider = .demo :=
      (congrArg FixedColumns.embeddingProvider hfixed).trans demo
    rw [foundByOwner_iff cosine asked service (by simp [hdocuments, hspace]), ne_eq,
      indexed.candidates_eq_nil uploaded.id new owned embedded only demo, not_not, hcontent]

end Outcome

/-! A scanned page without text: pypdf reads nothing, pdfplumber finds no table. -/

namespace Scan

def file : StoredFile where
  name := "source.pdf"
  pdf := .ok { pages := [.ok (some "")], plumberPages := [.ok []] }
  docx := .error { message := "not an Office file" }
  xlsx := .error { message := "not an Office file" }
  exifDescription := none
  encoded _ := .error { message := "not an image" }
  text := .ok "%PDF-1.7"
  csvRows _ := .ok []

def row : Document where
  id := 1
  ownerId := 7
  scope := .personal
  title := "Scan"
  sourceFilename := "scan.pdf"
  mimeType := "application/pdf"
  sizeBytes := 512
  embeddingProvider := .demo
  topicId := none
  createdAt := 0
  updatedAt := 0

def store : Store := { now := 0, documents := [row] }

def calls : IngestionCalls where
  service := offlineService
  extract _ _ mime := extract file mime
  enrich title _ _ := .ok { summary := title }
  chunkIds position := position

def noFault (_ : CommitPoint) : Option Exc := none

def index : VectorIndex where
  distance _ _ := 0
  orderBy _ := .stable

theorem uploaded : Uploaded 1 row := ⟨rfl, rfl, rfl, rfl, by decide⟩

theorem ready : ∃ row', ((runIngestion {} calls 1).exec noFault store).2.document? 1 = some row' ∧
    row'.status = .ready := by
  have hstatus : (((runIngestion {} calls 1).exec noFault store).2.document? 1).map
      (·.status) = some .ready := by decide
  exact Option.map_eq_some_iff.mp hstatus

end Scan

theorem ready_searchable_iff_scan :
    (Searchable 1 ((runIngestion {} Scan.calls 1).exec Scan.noFault Scan.store).2 ↔
      Scan.file.hasContent "application/pdf" = true) ∧
    (Scan.store.documents = [Scan.row] → Scan.row.embeddingProvider = .demo →
      (FoundByOwner Scan.index {} offlineService 7
          ((runIngestion {} Scan.calls 1).exec Scan.noFault Scan.store).2 ↔
        Scan.file.hasContent "application/pdf" = true ∧ Scan.row.scope = .personal)) := by
  have cosine : Scan.index.Cosine := fun _ _ => show (0 : ℚ) ≤ 2 by decide
  exact ready_searchable_iff cosine {} offlineService
    (by decide : Scan.store.document? 1 = some Scan.row) Scan.uploaded (by decide) rfl Scan.ready

/-- The scan is ready and has no chunk. -/
theorem ready_unsearchable :
    ¬ ∀ (settings : Settings) (calls : IngestionCalls) (fault : CommitPoint → Option Exc)
      (s : Store) (d : Uuid) (row : Document) (file : StoredFile), s.document? d = some row →
      Uploaded d row → s.chunksOf d = [] →
      calls.extract d row.sourceFilename row.mimeType = extract file row.mimeType →
      (∃ row', ((runIngestion settings calls d).exec fault s).2.document? d = some row' ∧
        row'.status = .ready) →
      Searchable d ((runIngestion settings calls d).exec fault s).2 := by
  intro h
  obtain ⟨c, hc, -⟩ := h {} Scan.calls Scan.noFault Scan.store 1 Scan.row Scan.file (by decide)
    Scan.uploaded (by decide) rfl Scan.ready
  have hnone : ((runIngestion {} Scan.calls 1).exec Scan.noFault Scan.store).2.chunksOf 1 = [] := by
    decide
  rw [hnone] at hc
  cases hc

end Docsage
