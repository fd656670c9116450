import Docsage.Ingestion.Contents
import Docsage.Ingestion.Lifecycle
import Docsage.Library.Ranking
import Docsage.Providers.EmbeddedTexts
import Docsage.Providers.Retry

/-! # Vectors from OpenAI

`_embed` and `EmbedBatchAsync`. The service answers with entries that name the
input they are for, in any order, and every request may fail. Both providers sort
the entries, so whatever the embed stage stores belongs to the text beside it.
-/

namespace Docsage
open Effects Ranking Text Windows

structure EmbeddingEntry where
  index : ℕ
  embedding : List ℚ

/-- A request that brought no entries: its status code, the delay that its headers advertise or
what reading them throws, and the exception that the client raises. -/
structure ApiFailure where
  status : Option ℕ
  delay : Except Exc ℚ := .ok 2
  exc : Exc

/-- What the service answers to each request by its number. -/
abbrev Endpoint (τ : Type) := ℕ → List τ → Except ApiFailure (List EmbeddingEntry)

/-- Every text has its own vector, which is answered under the index of the text. -/
def OwnVectors {τ : Type} (vector : τ → List ℚ) (endpoint : Endpoint τ) : Prop :=
  ∀ request inputs data, endpoint request inputs = .ok data →
    data.Perm (inputs.zipIdx.map fun p => ⟨p.2, vector p.1⟩)

def orderedVectors (data : List EmbeddingEntry) : List (List ℚ) :=
  (OrderBy.stable.sort EmbeddingEntry.index data).map (·.embedding)

namespace OpenAI

def retryableCodes : List ℕ := [408, 429, 500, 502, 503, 504]

def isRetryable (failure : ApiFailure) : Bool := failure.status.any (· ∈ retryableCodes)

def create (endpoint : Endpoint String) (inputs : List String) :
    Retry.Operation (List EmbeddingEntry) ApiFailure where
  outcome request := endpoint request inputs
  isException _ := true
  isRetryable := isRetryable

/-- `_embed`, on inputs whose newlines are replaced. -/
def embed (endpoint : Endpoint String) (inputs : List String) : Except Exc (List (List ℚ)) :=
  match (Retry.callWithRetries (create endpoint inputs) Retry.attempts Retry.delays).2 with
  | .returned data => .ok (orderedVectors data)
  | .raised failure => .error failure.exc
  | .indexError => .error { message := "tuple index out of range" }
  | .unreachable => .error { message := "unreachable" }

end OpenAI

namespace DotNet.OpenAi

def batchSize : ℕ := 100

/-- `PostWithRateLimitRetryAsync`, with the number of requests so far. The delay is read and not
waited for. -/
def postWithRateLimitRetry (endpoint : Endpoint Utf16) (posted : ℕ) (batch : List Utf16) :
    ℕ × Except Exc (List EmbeddingEntry) :=
  match endpoint posted batch with
  | .ok data => (posted + 1, .ok data)
  | .error failure =>
    if failure.status = some 429 then
      match failure.delay with
      | .error exc => (posted + 1, .error exc)
      | .ok _ => (posted + 2, (endpoint (posted + 1) batch).mapError (·.exc))
    else (posted + 1, .error failure.exc)

def embedBatches (endpoint : Endpoint Utf16) : ℕ → List (List Utf16) → Except Exc (List (List ℚ))
  | _, [] => .ok []
  | posted, batch :: rest => do
    let answered := postWithRateLimitRetry endpoint posted batch
    let data ← answered.2
    let vectors ← embedBatches endpoint answered.1 rest
    return orderedVectors data ++ vectors

def embedBatch (endpoint : Endpoint Utf16) (texts : List Utf16) : Except Exc (List (List ℚ)) :=
  embedBatches endpoint 0 (windows batchSize batchSize texts)

end DotNet.OpenAi

section Order

variable {τ : Type} {vector : τ → List ℚ}

/-- Sorted by index, the entries are those of the inputs in order. -/
theorem orderedVectors_of_perm {data : List EmbeddingEntry} {inputs : List τ}
    (h : data.Perm (inputs.zipIdx.map fun p => ⟨p.2, vector p.1⟩)) :
    orderedVectors data = inputs.map vector := by
  have hindices : (inputs.zipIdx.map (·.2)).Pairwise (· < ·) := by
    rw [List.zipIdx_map_snd]
    exact List.pairwise_lt_range'
  rw [orderedVectors, OrderBy.stable.sort_eq_of_perm h
    (List.pairwise_map.mpr (List.pairwise_map.mp hindices)), List.map_map,
    ← List.zipIdx_map_fst 0 inputs, List.map_map]
  simp [Function.comp_def]

end Order

/-- Whichever attempts fail, a call that returns has the vectors of its inputs in order. -/
theorem OpenAI.embed_ok {vector : String → List ℚ} {endpoint : Endpoint String}
    (answers : OwnVectors vector endpoint) {inputs : List String} {vectors : List (List ℚ)}
    (h : OpenAI.embed endpoint inputs = .ok vectors) : vectors = inputs.map vector := by
  obtain ⟨n, hresult⟩ := Retry.callWithRetries_result (OpenAI.create endpoint inputs)
    (show 1 ≤ Retry.attempts by decide) (show Retry.delays ≠ [] from List.cons_ne_nil _ _)
  rw [OpenAI.embed, hresult, Retry.Operation.result] at h
  cases hanswer : (OpenAI.create endpoint inputs).outcome n with
  | error failure =>
    rw [hanswer] at h
    cases h
  | ok data =>
    rw [hanswer] at h
    obtain rfl := Except.ok.inj h
    exact orderedVectors_of_perm (answers n inputs data hanswer)

namespace DotNet.OpenAi

variable {vector : Utf16 → List ℚ} {endpoint : Endpoint Utf16}

theorem postWithRateLimitRetry_ok {posted : ℕ} {batch : List Utf16} {data : List EmbeddingEntry}
    (h : (postWithRateLimitRetry endpoint posted batch).2 = .ok data) :
    ∃ request, endpoint request batch = .ok data := by
  unfold postWithRateLimitRetry at h
  split at h
  · next answered hanswered =>
    obtain rfl := Except.ok.inj h
    exact ⟨posted, hanswered⟩
  · split at h
    · split at h
      · cases h
      · cases hanswer : endpoint (posted + 1) batch with
        | ok answered =>
          rw [hanswer] at h
          obtain rfl := Except.ok.inj h
          exact ⟨posted + 1, hanswer⟩
        | error failure =>
          rw [hanswer] at h
          cases h
    · cases h

/-- Whichever requests are refused, the batches together are the vectors of the texts in order. -/
theorem embedBatches_ok (answers : OwnVectors vector endpoint) {posted : ℕ}
    {batches : List (List Utf16)} {vectors : List (List ℚ)}
    (h : embedBatches endpoint posted batches = .ok vectors) :
    vectors = batches.flatten.map vector := by
  induction batches generalizing posted vectors with
  | nil => exact (Except.ok.inj h).symm
  | cons batch rest ih =>
    obtain ⟨data, hdata, h⟩ := bind_ok h
    obtain ⟨later, hlater, h⟩ := bind_ok h
    obtain rfl := Except.ok.inj h
    obtain ⟨request, hrequest⟩ := postWithRateLimitRetry_ok hdata
    rw [orderedVectors_of_perm (answers request batch data hrequest), ih hlater, List.flatten_cons,
      List.map_append]

theorem embedBatch_ok (answers : OwnVectors vector endpoint) {texts : List Utf16}
    {vectors : List (List ℚ)} (h : embedBatch endpoint texts = .ok vectors) :
    vectors = texts.map vector := by
  rw [embedBatches_ok answers h, flatten_windows (by decide)]

end DotNet.OpenAi

section Less

variable {p q : EmbeddingProvider} {title : String}

theorem embedImages_of_le (images : p.embedImage = q.embedImage) {documentId : Uuid}
    {rowIds : ℕ → Uuid} (chunks : List (ChunkDraft × ℕ)) :
    embedImages p documentId rowIds chunks = embedImages q documentId rowIds chunks := by
  have hnative (position : ℕ) (chunk : ChunkDraft) :
      nativeEmbedding p position chunk = nativeEmbedding q position chunk := by
    rw [nativeEmbedding, nativeEmbedding, images]
  induction chunks with
  | nil => rfl
  | cons chunk rest ih => rw [embedImages, embedImages, hnative, ih]

theorem embedBatches_of_le (documents : ∀ call texts vectors,
      p.embedDocuments call texts title = .ok vectors →
      q.embedDocuments call texts title = .ok vectors) {call : ℕ}
    {batches : List (List (ℕ × String))} {rows rows' : List Chunk}
    (h : embedBatches p title call batches rows = .ok rows') :
    embedBatches q title call batches rows = .ok rows' := by
  induction batches generalizing call rows with
  | nil => exact h
  | cons batch rest ih =>
    cases hvectors : p.embedDocuments call (batch.map (·.2)) title with
    | error exc =>
      rw [embedBatches, hvectors] at h
      cases h
    | ok vectors =>
      simp only [embedBatches, hvectors, documents _ _ _ hvectors] at h ⊢
      split at h
      · cases h
      · exact (if_neg ‹_›).trans (ih h)

/-- What one provider returns from the embed stage, another one returns that answers at least the
same calls, and these alike. -/
theorem embedRows_of_le (images : p.embedImage = q.embedImage) (documents : ∀ call texts vectors,
      p.embedDocuments call texts title = .ok vectors →
      q.embedDocuments call texts title = .ok vectors)
    {documentId : Uuid} {rowIds : ℕ → Uuid} {parts : List ExtractedPart}
    {enrichment : EnrichmentResult} {rows : List Chunk}
    (h : embedRows p documentId rowIds title parts enrichment = .ok rows) :
    embedRows q documentId rowIds title parts enrichment = .ok rows := by
  obtain ⟨before, hbefore, h⟩ := bind_ok h
  rw [embedRows, ← embedImages_of_le images, hbefore]
  exact embedBatches_of_le documents h

end Less

/-- The row has the vector of a text in the OpenAI space. -/
def Chunk.HasVector (row : Chunk) (vector : List ℚ) : Prop :=
  row.embedding = some ⟨.openai, vector⟩

/-- Whichever attempts fail, the rows that the embed stage returns are those of the chunks in
order, each with the vector of its own text. -/
theorem openAI_rows_own {vector : String → List ℚ} {endpoint : ℕ → Endpoint String}
    (answers : ∀ call, OwnVectors vector (endpoint call)) {settings : Settings}
    {service : EmbeddingService}
    (posts : ∀ call inputs, service.embedTexts .openai call inputs =
      OpenAI.embed (endpoint call) inputs)
    {documentId : Uuid} {rowIds : ℕ → Uuid} {title : String} {parts : List ExtractedPart}
    {enrichment : EnrichmentResult} {rows : List Chunk}
    (h : embedRows (openAIEmbeddingProvider settings service) documentId rowIds title parts
      enrichment = .ok rows) :
    rows.map Chunk.bare = bareRows documentId rowIds parts enrichment ∧
      ∀ row ∈ rows, row.HasVector (vector (documentInput .openai title
        (embeddingText (embeddingHeader title enrichment) row.content))) := by
  have hbare := (embedRows_ok (openAIEmbeddingProvider_embedsIn settings service) h).1
  refine ⟨hbare, fun row hrow => ?_⟩
  let vec (_ : ℕ) (text : String) : Vector := ⟨.openai, vector (documentInput .openai title text)⟩
  let total : EmbeddingProvider :=
    { openAIEmbeddingProvider settings service with
      embedDocuments := fun call texts _ => .ok (texts.map (vec call)) }
  have hle (call : ℕ) (texts : List String) (vectors : List Vector)
      (hvectors : (openAIEmbeddingProvider settings service).embedDocuments call texts title =
        .ok vectors) : total.embedDocuments call texts title = .ok vectors := by
    obtain ⟨answered, hanswered, hvectors⟩ := bind_ok hvectors
    rw [posts] at hanswered
    obtain rfl := OpenAI.embed_ok (answers call) hanswered
    rw [← Except.ok.inj hvectors]
    simp [total, vec, documentInput, Function.comp_def]
  obtain ⟨rows', hrows', -, hown⟩ := embedRows_texts total vec (fun _ _ => rfl)
    (fun _ _ _ => rfl) documentId rowIds parts enrichment
  have himages : (openAIEmbeddingProvider settings service).embedImage = total.embedImage := rfl
  have htotal := embedRows_of_le himages hle h
  obtain rfl : rows = rows' := Except.ok.inj (htotal.symm.trans hrows')
  obtain ⟨call, hvector⟩ := hown row hrow
  exact hvector

/-- The row of a chunk has its text, and the vector it was given. -/
theorem DotNet.chunkRow_text {documentId : Uuid} {rowIds : ℕ → Uuid} {plan : ChunkPlan}
    {vector : Vector} {row : Chunk} (h : chunkRow documentId rowIds plan vector = .ok row) :
    (row.ordinal, utf16 row.content) = (plan.ordinal, plan.content) ∧
      row.embedding = some vector := by
  obtain ⟨content, hcontent, h⟩ := bind_ok h
  obtain rfl := Except.ok.inj h
  unfold unitsOrThrow at hcontent
  split at hcontent
  · next text htext =>
    obtain rfl := Except.ok.inj hcontent
    exact ⟨Prod.ext rfl (decode?_eq_some.mp htext).symm, rfl⟩
  · cases hcontent

/-- Chunks that are given a vector by their text keep it beside the text. -/
theorem DotNet.chunkRows_text {documentId : Uuid} {rowIds : ℕ → Uuid} (vectorOf : Utf16 → Vector)
    {chunks : List ChunkPlan} {rows : List Chunk}
    (h : List.Forall₂ (fun chunk row =>
      chunkRow documentId rowIds chunk (vectorOf chunk.content) = .ok row) chunks rows) :
    rows.map (fun r => (r.ordinal, utf16 r.content)) =
        chunks.map (fun chunk => (chunk.ordinal, chunk.content)) ∧
      ∀ r ∈ rows, r.embedding = some (vectorOf (utf16 r.content)) := by
  induction h with
  | nil => exact ⟨rfl, List.forall_mem_nil _⟩
  | cons hr _ ih =>
    obtain ⟨htext, hvector⟩ := chunkRow_text hr
    refine ⟨by rw [List.map_cons, List.map_cons, ih.1, htext], List.forall_mem_cons.mpr ⟨?_, ih.2⟩⟩
    rw [hvector, (Prod.mk.inj htext).2]

/-- Whichever requests are refused, the rows that the .NET embed stage returns each have the vector
of their own text. -/
theorem DotNet.openAi_rows_own {vector : Utf16 → List ℚ} {endpoint : Endpoint Utf16}
    (answers : OwnVectors vector endpoint) {options : DocsageOptions} {calls : PipelineCalls}
    (posts : ∀ texts, calls.service.embedTexts .openai texts = OpenAi.embedBatch endpoint texts)
    {row : Document} (requested : options.implementation row.embeddingProvider = .openai)
    {plan : EnrichmentPlan} {chunks : List ChunkPlan} {rows : List Chunk}
    (h : indexRows options calls row plan chunks = .ok rows) :
    rows.map (fun r => (r.ordinal, utf16 r.content)) =
        chunks.map (fun chunk => (chunk.ordinal, chunk.content)) ∧
      ∀ r ∈ rows, r.HasVector
        (vector (embeddingText (header (utf16 row.title) plan) (utf16 r.content))) := by
  obtain ⟨vectors, hvectors, h⟩ := bind_ok h
  -- the vectors are those of the texts of the chunks
  have hown : vectors = chunks.map fun chunk =>
      ⟨.openai, vector (embeddingText (header (utf16 row.title) plan) chunk.content)⟩ := by
    unfold embedChunks at hvectors
    split at hvectors
    · cases hvectors
    · next found hfound =>
      split at hvectors
      · cases hvectors
      · obtain rfl := Except.ok.inj hvectors
        rw [resolve_embedDocuments, requested] at hfound
        obtain ⟨answered, hanswered, hfound⟩ := bind_ok hfound
        obtain rfl := OpenAi.embedBatch_ok answers ((posts _).symm.trans hanswered)
        rw [← Except.ok.inj hfound]
        simp [documentInput, embeddingText, Function.comp_def]
  have hzip : chunks.zip vectors = chunks.map fun chunk => (chunk, ⟨.openai,
      vector (embeddingText (header (utf16 row.title) plan) chunk.content)⟩) := by
    rw [hown, ← List.zip_map', List.map_id']
  have hrows := forall₂_of_mapM_ok h
  rw [hzip, List.forall₂_map_left_iff] at hrows
  exact chunkRows_text (fun text =>
    ⟨.openai, vector (embeddingText (header (utf16 row.title) plan) text)⟩) hrows

/-- In whichever order the service answers and whichever requests it refuses, the rows that an
embed stage of either backend returns are those of its chunks in order, each with the vector of its
own text. -/
theorem vectors_own {vector : Utf16 → List ℚ} {endpoint : ℕ → Endpoint String}
    {endpoint' : Endpoint Utf16} (answers : ∀ call, OwnVectors (vector ∘ utf16) (endpoint call))
    (answers' : OwnVectors vector endpoint') (settings : Settings) {service : EmbeddingService}
    (posts : ∀ call inputs, service.embedTexts .openai call inputs =
      OpenAI.embed (endpoint call) inputs)
    (options : DotNet.DocsageOptions) {calls : DotNet.PipelineCalls}
    (posts' : ∀ texts, calls.service.embedTexts .openai texts =
      DotNet.OpenAi.embedBatch endpoint' texts) :
    (∀ documentId rowIds title parts enrichment rows,
      embedRows (openAIEmbeddingProvider settings service) documentId rowIds title parts
        enrichment = .ok rows →
      rows.map Chunk.bare = bareRows documentId rowIds parts enrichment ∧
        ∀ row ∈ rows, row.HasVector (vector (utf16 (documentInput .openai title
          (embeddingText (embeddingHeader title enrichment) row.content))))) ∧
      ∀ (row : Document) plan chunks rows,
        options.implementation row.embeddingProvider = .openai →
        DotNet.indexRows options calls row plan chunks = .ok rows →
        rows.map (fun r => (r.ordinal, utf16 r.content)) =
            chunks.map (fun chunk => (chunk.ordinal, chunk.content)) ∧
          ∀ r ∈ rows, r.HasVector (vector (DotNet.embeddingText
            (DotNet.header (utf16 row.title) plan) (utf16 r.content))) :=
  ⟨fun _ _ _ _ _ _ h => openAI_rows_own answers posts h,
    fun _ _ _ _ requested h => DotNet.openAi_rows_own answers' posts' requested h⟩

namespace Backwards

/-! A service that refuses one request and answers the others from the last entry to the first. -/

def overloaded : ApiFailure where
  status := some 429
  exc := { message := "Too Many Requests" }

def endpoint {τ : Type} (vector : τ → List ℚ) (refused : ℕ) : Endpoint τ := fun request inputs =>
  if request = refused then .error overloaded
  else .ok (inputs.zipIdx.map fun p => ⟨p.2, vector p.1⟩).reverse

theorem ownVectors {τ : Type} (vector : τ → List ℚ) (refused : ℕ) :
    OwnVectors vector (endpoint vector refused) := by
  intro request inputs data h
  unfold endpoint at h
  split at h
  · cases h
  · rw [← Except.ok.inj h]
    exact List.reverse_perm _

def vector (text : Utf16) : List ℚ := [text.length]

/-- The first call is refused; FastAPI counts from one. -/
def service : EmbeddingService where
  construct _ := .ok ()
  demoVector _ := [1]
  embedTexts _ _ inputs := OpenAI.embed (endpoint (vector ∘ utf16) 1) inputs
  embedImage _ _ _ := .error { message := "no images" }

/-- The first request is refused; .NET counts from zero. -/
def calls : DotNet.PipelineCalls where
  service :=
    { demoVector := fun _ => [1]
      embedTexts := fun _ texts => DotNet.OpenAi.embedBatch (endpoint vector 0) texts
      embedQuery := fun _ _ => .error { message := "no queries" } }
  extract _ _ _ := .ok []
  generate _ _ := .error { message := "no plan" }
  chunkIds := id

theorem posts (call : ℕ) (inputs : List String) : service.embedTexts .openai call inputs =
    OpenAI.embed (endpoint (vector ∘ utf16) 1) inputs := rfl

theorem posts' (texts : List Utf16) : calls.service.embedTexts .openai texts =
    DotNet.OpenAi.embedBatch (endpoint vector 0) texts := rfl

def parts : List ExtractedPart :=
  [{ kind := .text, content := "a" }, { kind := .text, content := "bb" }]

def options : DotNet.DocsageOptions := { openAiApiKey := some "o" }

def letter : Document where
  id := 5
  ownerId := 2
  scope := .personal
  title := "Letter"
  sourceFilename := "letter.txt"
  mimeType := "text/plain"
  sizeBytes := 4
  embeddingProvider := .openai
  topicId := none
  createdAt := 0
  updatedAt := 0

def plan : DotNet.EnrichmentPlan := ⟨utf16 "Short.", [], [], [], []⟩

def chunks : List DotNet.ChunkPlan :=
  DotNet.chunk [⟨.text, utf16 "a", none, none⟩, ⟨.text, utf16 "bb", none, none⟩] []

end Backwards

/-- Both backends ask again, and give each of the two texts its own vector. -/
theorem vectors_own_backwards :
    (∃ rows, embedRows (openAIEmbeddingProvider {} Backwards.service) 0 id "t" Backwards.parts {} =
        .ok rows ∧ rows.length = 2 ∧
      ∀ row ∈ rows, row.HasVector (Backwards.vector (utf16 (documentInput .openai "t"
        (embeddingText (embeddingHeader "t" {}) row.content))))) ∧
    ∃ rows, DotNet.indexRows Backwards.options Backwards.calls Backwards.letter Backwards.plan
        Backwards.chunks = .ok rows ∧ rows.length = 2 ∧
      ∀ row ∈ rows, row.HasVector (Backwards.vector (DotNet.embeddingText
        (DotNet.header (utf16 "Letter") Backwards.plan) (utf16 row.content))) := by
  have hboth := vectors_own (fun _ => Backwards.ownVectors (Backwards.vector ∘ utf16) 1)
    (Backwards.ownVectors Backwards.vector 0) {} Backwards.posts Backwards.options Backwards.posts'
  have hrun : ∃ rows, embedRows (openAIEmbeddingProvider {} Backwards.service) 0 id "t"
      Backwards.parts {} = .ok rows := ⟨_, rfl⟩
  have hrun' : ∃ rows, DotNet.indexRows Backwards.options Backwards.calls Backwards.letter
      Backwards.plan Backwards.chunks = .ok rows := ⟨_, rfl⟩
  obtain ⟨rows, hrows⟩ := hrun
  obtain ⟨rows', hrows'⟩ := hrun'
  obtain ⟨hbare, hown⟩ := hboth.1 0 id "t" Backwards.parts {} rows hrows
  obtain ⟨htexts, hown'⟩ :=
    hboth.2 Backwards.letter Backwards.plan Backwards.chunks rows' rfl hrows'
  have hlength := congrArg List.length hbare
  have hlength' := congrArg List.length htexts
  rw [List.length_map] at hlength
  rw [List.length_map, List.length_map] at hlength'
  exact ⟨⟨rows, hrows, hlength, hown⟩, rows', hrows', hlength', hown'⟩

end Docsage
