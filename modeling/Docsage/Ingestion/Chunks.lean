import Docsage.Library.Windows
import Docsage.Providers.Embedding

/-! # From extracted parts to embedded chunk rows

Parts are windowed into chunks, every chunk becomes a row, and each row gets a
vector: the native image vector where the provider returns one, and otherwise
the vector of its header and content, embedded in batches.
-/

namespace Docsage
open Effects Windows

def chunkMaxChars : ℕ := 4000
def chunkOverlapChars : ℕ := 600
def embedBatchSize : ℕ := 32

inductive PartKind where
  | text
  | table
  | image
deriving DecidableEq, Repr

/-- One ordered piece of a document: prose, a table, or an image. -/
structure ExtractedPart where
  kind : PartKind
  content : String := ""
  imageBytes : Option (List UInt8) := none
  mime : String := ""
  filename : String := ""
  page : Option ℕ := none

structure ExtractionResult where
  parts : List ExtractedPart := []
  pageCount : Option ℕ := none

/-- Everything the enrichment pass adds on top of the extracted parts. The two dictionaries are
keyed by part index, in insertion order. -/
structure EnrichmentResult where
  summary : String := ""
  keywords : List String := []
  questions : List String := []
  captions : List (ℕ × String) := []
  tablePreambles : List (ℕ × String) := []

/-- `_chunk_text`: fixed-size windows with overlap; short parts pass through whole. -/
def chunkText (content : String) : List String :=
  if content.length ≤ chunkMaxChars then [content]
  else (windows (chunkMaxChars - chunkOverlapChars) chunkMaxChars content.toList).map String.ofList

structure ChunkDraft where
  kind : ChunkKind
  content : String
  page : Option ℕ
  imageBytes : Option (List UInt8) := none
  mime : String := ""

def orElse (first : Option String) (second : String) : String :=
  match first with
  | some s => if s.isEmpty then second else s
  | none => second

def partChunks (enrichment : EnrichmentResult) (part : ExtractedPart) (index : ℕ) :
    List ChunkDraft :=
  match part.kind with
  | .image =>
    [{ kind := .imageDescription
       content := orElse (enrichment.captions.lookup index)
         ("Image " ++ orElse (some part.filename) "attachment" ++ " extracted from the document.")
       page := part.page
       imageBytes := part.imageBytes
       mime := part.mime }]
  | .text => (chunkText part.content).map fun piece =>
      { kind := .text, content := piece, page := part.page }
  | .table => (chunkText part.content).map fun piece =>
      { kind := .table
        content :=
          match enrichment.tablePreambles.lookup index with
          | some preamble => if preamble.isEmpty then piece else preamble ++ "\n\n" ++ piece
          | none => piece
        page := part.page }

def buildChunks (parts : List ExtractedPart) (enrichment : EnrichmentResult) : List ChunkDraft :=
  parts.zipIdx.flatMap fun p => partChunks enrichment p.1 p.2

/-- `", ".join(items)`. -/
def joinComma (items : List String) : String := ", ".intercalate items

/-- The rows `_persist_enrichments` adds: a summary, the keywords on one line when there are any,
and one row per question. -/
def persistEnrichments (documentId : Uuid) (enrichment : EnrichmentResult) : List Enrichment :=
  { documentId, kind := .summary, content := enrichment.summary } ::
    ((if enrichment.keywords.isEmpty then [] else
      [{ documentId, kind := .keywords, content := joinComma enrichment.keywords }]) ++
    enrichment.questions.map fun question =>
      { documentId, kind := .questions, content := question })

/-- Caption artifacts are stored as enrichments too, for the parts that exist. -/
def captionEnrichments (documentId : Uuid) (parts : List ExtractedPart)
    (enrichment : EnrichmentResult) : List Enrichment :=
  (enrichment.captions.filter fun c => c.1 < parts.length).map fun c =>
    { documentId, kind := .caption, content := c.2 }

/-- `f"{title} | {summary[:120]} | keywords: {', '.join(keywords[:6])}"`. -/
def embeddingHeader (title : String) (enrichment : EnrichmentResult) : String :=
  title ++ " | " ++ String.ofList (enrichment.summary.toList.take 120) ++ " | keywords: " ++
    joinComma (enrichment.keywords.take 6)

/-- The native vector of an image chunk, when the provider can embed pixels. -/
def nativeEmbedding (provider : EmbeddingProvider) (position : ℕ) (chunk : ChunkDraft) :
    Except Exc (Option Vector) :=
  match chunk.imageBytes with
  | some (byte :: bytes) =>
    if chunk.kind = .imageDescription then
      provider.embedImage position (byte :: bytes) (orElse (some chunk.mime) "image/png")
    else .ok none
  | _ => .ok none

/-- The row of a chunk, before it has a vector. `rowId` is the uuid drawn for its primary key. -/
def chunkRow (documentId rowId : Uuid) (chunk : ChunkDraft) (position : ℕ) : Chunk where
  id := rowId
  documentId := documentId
  ordinal := position
  content := chunk.content
  kind := chunk.kind
  page := chunk.page
  tokenCount := chunk.content.length / 4
  embedding := none

/-- The first loop of the embed stage: one row per chunk, native vectors filled in. -/
def embedImages (provider : EmbeddingProvider) (documentId : Uuid) (rowIds : ℕ → Uuid) :
    List (ChunkDraft × ℕ) → Except Exc (List Chunk)
  | [] => .ok []
  | (chunk, position) :: rest => do
    let native ← nativeEmbedding provider position chunk
    let rows ← embedImages provider documentId rowIds rest
    return { chunkRow documentId (rowIds position) chunk position with embedding := native } :: rows

/-- `pending_texts`: the rows still without a vector, as position and embedding text. -/
def pendingTexts (header : String) (rows : List Chunk) : List (ℕ × String) :=
  (rows.filter fun row => row.embedding.isNone).map fun row =>
    (row.ordinal, header ++ "\n" ++ row.content)

/-- `rows[position].embedding = vector` over `zip(batch, vectors)`. -/
def assignVectors (rows : List Chunk) (vectors : List (ℕ × Vector)) : List Chunk :=
  vectors.foldl (fun rows v => rows.modify v.1 fun row => { row with embedding := some v.2 }) rows

def wrongVectorCount (vectors batch : ℕ) : Exc where
  isValueError := true
  message := "provider returned " ++ toString vectors ++ " vectors for " ++ toString batch ++
    " inputs"

/-- The second loop of the embed stage, batch by batch. -/
def embedBatches (provider : EmbeddingProvider) (title : String) :
    ℕ → List (List (ℕ × String)) → List Chunk → Except Exc (List Chunk)
  | _, [], rows => .ok rows
  | call, batch :: rest, rows =>
    match provider.embedDocuments call (batch.map (·.2)) title with
    | .error exc => .error exc
    | .ok vectors =>
      if vectors.length ≠ batch.length then
        .error (wrongVectorCount vectors.length batch.length)
      else embedBatches provider title (call + 1) rest
        (assignVectors rows ((batch.map (·.1)).zip vectors))

/-- Everything between the `embedding` status and the final unit of work. -/
def embedRows (provider : EmbeddingProvider) (documentId : Uuid) (rowIds : ℕ → Uuid)
    (title : String) (parts : List ExtractedPart) (enrichment : EnrichmentResult) :
    Except Exc (List Chunk) := do
  let rows ← embedImages provider documentId rowIds (buildChunks parts enrichment).zipIdx
  embedBatches provider title 0
    (windows embedBatchSize embedBatchSize
      (pendingTexts (embeddingHeader title enrichment) rows)) rows

def Chunk.bare (c : Chunk) : Chunk := { c with embedding := none }

/-- Every row at the position, if there is one, has a vector. -/
def Filled (rows : List Chunk) (i : ℕ) : Prop := ∀ r, rows[i]? = some r → r.embedding.isSome

def InSpace (space : ProviderName) (rows : List Chunk) : Prop :=
  ∀ r ∈ rows, ∀ v, r.embedding = some v → v.implementation = space

variable {provider : EmbeddingProvider} {documentId : Uuid} {rowIds : ℕ → Uuid} {title : String}
  {space : ProviderName}

theorem bare_modify (rows : List Chunk) (i : ℕ) (v : Vector) :
    (rows.modify i fun row => { row with embedding := some v }).map Chunk.bare =
      rows.map Chunk.bare := by
  induction rows generalizing i with
  | nil => simp
  | cons r rows ih =>
    cases i with
    | zero => simp [Chunk.bare]
    | succ i => simp [ih]

theorem filled_modify {rows : List Chunk} {i j : ℕ} {v : Vector} (h : Filled rows i ∨ i = j) :
    Filled (rows.modify j fun row => { row with embedding := some v }) i := by
  intro r hr
  rw [List.getElem?_modify] at hr
  obtain ⟨r₀, h₀, rfl⟩ := Option.map_eq_some_iff.mp hr
  by_cases hij : j = i
  · simp [hij]
  · simpa [hij] using (h.resolve_right (Ne.symm hij)) r₀ h₀

theorem mem_modify {rows : List Chunk} {j : ℕ} {f : Chunk → Chunk} {r : Chunk}
    (h : r ∈ rows.modify j f) : r ∈ rows ∨ ∃ r₀ ∈ rows, f r₀ = r := by
  obtain ⟨i, hi⟩ := List.mem_iff_getElem?.mp h
  rw [List.getElem?_modify] at hi
  obtain ⟨r₀, h₀, rfl⟩ := Option.map_eq_some_iff.mp hi
  have hm := List.mem_of_getElem? h₀
  split_ifs
  · exact .inr ⟨r₀, hm, rfl⟩
  · exact .inl hm

theorem bare_assignVectors (rows : List Chunk) (vs : List (ℕ × Vector)) :
    (assignVectors rows vs).map Chunk.bare = rows.map Chunk.bare := by
  induction vs generalizing rows with
  | nil => rfl
  | cons v vs ih =>
    rw [assignVectors, List.foldl_cons]
    exact (ih _).trans (bare_modify rows v.1 v.2)

theorem filled_assignVectors {rows : List Chunk} {vs : List (ℕ × Vector)} {i : ℕ}
    (h : Filled rows i ∨ i ∈ vs.map (·.1)) : Filled (assignVectors rows vs) i := by
  induction vs generalizing rows with
  | nil => simpa [assignVectors] using h
  | cons v vs ih =>
    apply ih
    rcases h with h | h
    · exact .inl (filled_modify (.inl h))
    · rcases List.mem_cons.mp h with h | h
      · exact .inl (filled_modify (.inr h))
      · exact .inr h

theorem inSpace_assignVectors {rows : List Chunk} {vs : List (ℕ × Vector)}
    (h : InSpace space rows) (hv : ∀ v ∈ vs, v.2.implementation = space) :
    InSpace space (assignVectors rows vs) := by
  induction vs generalizing rows with
  | nil => exact h
  | cons v vs ih =>
    apply ih _ fun w hw => hv w (List.mem_cons_of_mem _ hw)
    intro r hr w hw
    rcases mem_modify hr with hm | ⟨r₀, _, rfl⟩
    · exact h r hm w hw
    · obtain rfl := Option.some.inj hw
      exact hv v List.mem_cons_self

/-- The batches change nothing but vectors, fill every pending position and stay in the space. -/
theorem embedBatches_ok (embeds : provider.EmbedsIn space) {call : ℕ}
    {batches : List (List (ℕ × String))} {rows rows' : List Chunk}
    (h : embedBatches provider title call batches rows = .ok rows') :
    rows'.map Chunk.bare = rows.map Chunk.bare ∧
      (∀ i, Filled rows i ∨ i ∈ batches.flatten.map (·.1) → Filled rows' i) ∧
      (InSpace space rows → InSpace space rows') := by
  induction batches generalizing call rows with
  | nil =>
    obtain rfl := Except.ok.inj h
    exact ⟨rfl, fun i hi => hi.resolve_right (by simp), id⟩
  | cons batch rest ih =>
    rw [embedBatches] at h
    cases hv : provider.embedDocuments call (batch.map (·.2)) title with
    | error e => rw [hv] at h; cases h
    | ok vectors =>
      rw [hv] at h
      by_cases hlen : vectors.length = batch.length
      · have hrest : embedBatches provider title (call + 1) rest
            (assignVectors rows ((batch.map (·.1)).zip vectors)) = .ok rows' := by
          simpa [hlen] using h
        obtain ⟨hbare, hfill, hspace⟩ := ih hrest
        have hfst : ((batch.map (·.1)).zip vectors).map (·.1) = batch.map (·.1) :=
          List.map_fst_zip (by simp [hlen])
        refine ⟨hbare.trans (bare_assignVectors _ _), fun i hi => hfill i ?_, fun hs => hspace ?_⟩
        · rw [List.flatten_cons, List.map_append, List.mem_append] at hi
          rcases hi with hi | hi | hi
          · exact .inl (filled_assignVectors (.inl hi))
          · exact .inl (filled_assignVectors (.inr (by rw [hfst]; exact hi)))
          · exact .inr hi
        · exact inSpace_assignVectors hs fun v hm =>
            embeds.documents hv v.2 (List.of_mem_zip hm).2
      · simp [hlen] at h

theorem nativeEmbedding_ok (embeds : provider.EmbedsIn space) {position : ℕ} {chunk : ChunkDraft}
    {v : Vector} (h : nativeEmbedding provider position chunk = .ok (some v)) :
    v.implementation = space := by
  unfold nativeEmbedding at h
  split at h
  · split at h
    · exact embeds.image h
    · cases h
  · cases h

/-- One row per chunk, at the chunk's position, with at most a native vector. -/
theorem embedImages_ok (embeds : provider.EmbedsIn space) {chunks : List (ChunkDraft × ℕ)}
    {rows : List Chunk} (h : embedImages provider documentId rowIds chunks = .ok rows) :
    rows.map Chunk.bare = chunks.map (fun p => chunkRow documentId (rowIds p.2) p.1 p.2) ∧
      InSpace space rows := by
  induction chunks generalizing rows with
  | nil =>
    obtain rfl := Except.ok.inj h
    exact ⟨rfl, by simp [InSpace]⟩
  | cons p rest ih =>
    obtain ⟨chunk, position⟩ := p
    rw [embedImages] at h
    obtain ⟨native, hn, h⟩ := bind_ok h
    obtain ⟨tail, hr, h⟩ := bind_ok h
    obtain rfl := Except.ok.inj h
    obtain ⟨hbare, hspace⟩ := ih hr
    refine ⟨?_, ?_⟩
    · rw [List.map_cons, List.map_cons, hbare]
      rfl
    · intro r hm v hv
      rcases List.mem_cons.mp hm with rfl | hm
      · obtain rfl : native = some v := hv
        exact nativeEmbedding_ok embeds hn
      · exact hspace r hm v hv

/-- The rows of the chunks in order, before they have vectors. -/
def bareRows (documentId : Uuid) (rowIds : ℕ → Uuid) (parts : List ExtractedPart)
    (enrichment : EnrichmentResult) : List Chunk :=
  (buildChunks parts enrichment).zipIdx.map fun p => chunkRow documentId (rowIds p.2) p.1 p.2

theorem bareRows_ordinal (parts : List ExtractedPart) (enrichment : EnrichmentResult) :
    (bareRows documentId rowIds parts enrichment).map (·.ordinal) =
      List.range (bareRows documentId rowIds parts enrichment).length := by
  rw [bareRows, List.map_map, List.length_map, List.length_zipIdx, List.range_eq_range',
    ← List.zipIdx_map_snd 0 (buildChunks parts enrichment)]
  rfl

theorem ordinal_of_bare {rows bare : List Chunk} (h : rows.map Chunk.bare = bare)
    (hb : bare.map (·.ordinal) = List.range bare.length) :
    rows.map (·.ordinal) = List.range rows.length := by
  have hmap : rows.map (·.ordinal) = (rows.map Chunk.bare).map (·.ordinal) := by
    rw [List.map_map]; rfl
  rw [hmap, h, hb, ← h, List.length_map]

/-- The embed stage ends with one complete row per chunk: the chunk's own data at its own
ordinal, and a vector in the provider's space. -/
theorem embedRows_ok (embeds : provider.EmbedsIn space) {parts : List ExtractedPart}
    {enrichment : EnrichmentResult} {rows : List Chunk}
    (h : embedRows provider documentId rowIds title parts enrichment = .ok rows) :
    rows.map Chunk.bare = bareRows documentId rowIds parts enrichment ∧
      (∀ r ∈ rows, r.embedding.isSome) ∧ InSpace space rows := by
  obtain ⟨images, hi, h⟩ := bind_ok h
  obtain ⟨himages, hspace⟩ := embedImages_ok embeds hi
  obtain ⟨hbare, hfill, hspaces⟩ := embedBatches_ok embeds h
  refine ⟨hbare.trans himages, fun r hr => ?_, hspaces hspace⟩
  obtain ⟨i, hget⟩ := List.mem_iff_getElem?.mp hr
  apply hfill i _ r hget
  rw [flatten_windows (by decide)]
  -- a row without a native vector is pending at its own position
  by_cases hf : Filled images i
  · exact .inl hf
  · right
    simp only [Filled, not_forall] at hf
    obtain ⟨r₀, h₀, hnone⟩ := hf
    have hord : r₀.ordinal = i := by
      have hrange := ordinal_of_bare himages (bareRows_ordinal parts enrichment)
      have hi : (images.map (·.ordinal))[i]? = some r₀.ordinal := by simp [h₀]
      rw [hrange, List.getElem?_range (List.getElem?_eq_some_iff.mp h₀).1] at hi
      exact (Option.some.inj hi).symm
    simp only [pendingTexts, List.map_map, List.mem_map, List.mem_filter, Function.comp_apply]
    exact ⟨r₀, ⟨List.mem_of_getElem? h₀, by simpa using hnone⟩, hord⟩

theorem embedRows_owned (embeds : provider.EmbedsIn space) {parts : List ExtractedPart}
    {enrichment : EnrichmentResult} {rows : List Chunk}
    (h : embedRows provider documentId rowIds title parts enrichment = .ok rows) :
    ∀ r ∈ rows, r.documentId = documentId := by
  intro r hr
  have hbare : r.bare ∈ bareRows documentId rowIds parts enrichment :=
    (embedRows_ok embeds h).1 ▸ List.mem_map_of_mem hr
  obtain ⟨p, -, hp⟩ := List.mem_map.mp hbare
  exact (congrArg Chunk.documentId hp).symm

theorem captionEnrichments_owned {parts : List ExtractedPart} {enrichment : EnrichmentResult} :
    ∀ r ∈ captionEnrichments documentId parts enrichment, r.documentId = documentId := by
  intro r hr
  obtain ⟨c, -, rfl⟩ := List.mem_map.mp hr
  rfl

theorem persistEnrichments_owned {enrichment : EnrichmentResult} :
    ∀ r ∈ persistEnrichments documentId enrichment, r.documentId = documentId := by
  intro r hr
  simp only [persistEnrichments, List.mem_cons, List.mem_append, List.mem_map] at hr
  rcases hr with rfl | hr | ⟨q, -, rfl⟩
  · rfl
  · split at hr
    · cases hr
    · rw [List.mem_singleton.mp hr]
  · rfl

end Docsage
