import Docsage.Ingestion.ChunkParity

/-! # What the chunk rows hold

The pieces of a part lose none of its text, and every row of the embed stage gets the
vector of its own content, whichever rows were embedded natively and wherever a
batch ends.
-/

namespace Docsage
open Effects Windows

/-- A piece under the preamble of its part, where there is one. -/
def withPreamble (preamble : Option String) (piece : String) : String :=
  match preamble.filter (· ≠ "") with
  | some preamble => preamble ++ "\n\n" ++ piece
  | none => piece

/-- What the chunks of a part hold: the one caption of an image, or the pieces of its text. -/
def partContents (enrichment : EnrichmentResult) (part : ExtractedPart) (index : ℕ) : List String :=
  match part.kind with
  | .image => [imageContent enrichment part index]
  | .text => chunkText part.content
  | .table => (chunkText part.content).map (withPreamble (enrichment.tablePreambles.lookup index))

/-- The chunks in order, each as its part and its content. -/
def rowContents (enrichment : EnrichmentResult) (parts : List ExtractedPart) :
    List (ExtractedPart × String) :=
  parts.zipIdx.flatMap fun p => (partContents enrichment p.1 p.2).map fun content => (p.1, content)

/-- What the provider returns for the row at `position`: it is asked about an image with bytes. -/
def imageVector (native : ℕ → List UInt8 → String → Option Vector) (position : ℕ)
    (part : ExtractedPart) : Option Vector :=
  match part.kind, part.imageBytes with
  | .image, some (byte :: bytes) =>
    native position (byte :: bytes) (orElse (some part.mime) "image/png")
  | _, _ => none

theorem length_le_of_mem_chunkText {content piece : String} (h : piece ∈ chunkText content) :
    piece.length ≤ chunkMaxChars := by
  unfold chunkText at h
  split at h
  · obtain rfl := List.mem_singleton.mp h
    assumption
  · obtain ⟨w, hw, rfl⟩ := List.mem_map.mp h
    rw [String.length_ofList]
    exact length_le_of_mem_windows hw

/-- A passage that is no longer than the overlap lies in a piece. -/
theorem infix_chunkText {content : String} {passage : List Char} (hin : passage <:+: content.toList)
    (hpassage : passage.length ≤ chunkOverlapChars) :
    ∃ piece ∈ chunkText content, passage <:+: piece.toList := by
  by_cases hshort : content.length ≤ chunkMaxChars
  · rw [chunkText, if_pos hshort]
    exact ⟨content, List.mem_singleton_self _, hin⟩
  · have hstep : 0 < chunkMaxChars - chunkOverlapChars := by decide
    have hne : content.toList ≠ [] := by
      intro hnil
      rw [← String.length_toList, hnil] at hshort
      exact hshort (Nat.zero_le _)
    have hfits : passage.length + (chunkMaxChars - chunkOverlapChars) ≤ chunkMaxChars := by
      simp only [chunkMaxChars, chunkOverlapChars] at hpassage ⊢
      omega
    obtain ⟨w, hw, hin⟩ := infix_window hstep hne hin hfits
    rw [chunkText, if_neg hshort]
    exact ⟨String.ofList w, List.mem_map_of_mem hw, by rwa [String.toList_ofList]⟩

/-- The pieces of a text fit the cap, give the text back, and hold every passage that is no longer
than the overlap. -/
theorem chunkText_keeps (content : String) :
    (∀ piece ∈ chunkText content, piece.length ≤ chunkMaxChars) ∧
      (∃ first later, chunkText content = first :: later ∧
        first.toList ++ later.flatMap (fun piece => piece.toList.drop chunkOverlapChars) =
          content.toList) ∧
      ∀ passage : List Char, passage <:+: content.toList → passage.length ≤ chunkOverlapChars →
        ∃ piece ∈ chunkText content, passage <:+: piece.toList := by
  refine ⟨fun _ => length_le_of_mem_chunkText, ?_, fun _ => infix_chunkText⟩
  by_cases hshort : content.length ≤ chunkMaxChars
  · exact ⟨content, [], if_pos hshort, List.append_nil _⟩
  · have hstep : 0 < chunkMaxChars - chunkOverlapChars := by decide
    have hle : chunkMaxChars - chunkOverlapChars ≤ chunkMaxChars := by decide
    have hoverlap : chunkMaxChars - (chunkMaxChars - chunkOverlapChars) = chunkOverlapChars := rfl
    have hne : content.toList ≠ [] := by
      intro hnil
      rw [← String.length_toList, hnil] at hshort
      exact hshort (Nat.zero_le _)
    obtain ⟨first, later, hsplit, hrebuild⟩ := windows_rebuild hstep hle hne
    rw [chunkText, if_neg hshort]
    refine ⟨String.ofList first, later.map String.ofList, by rw [hsplit, List.map_cons], ?_⟩
    simpa only [List.flatMap_map, String.toList_ofList, hoverlap] using hrebuild

/-- A chunk of a part; those of images carry the pixels. -/
def partDraft (part : ExtractedPart) (content : String) : ChunkDraft :=
  match part.kind with
  | .image =>
    { kind := .imageDescription, content, page := part.page
      imageBytes := part.imageBytes, mime := part.mime }
  | .text | .table => { kind := part.kind.chunkKind, content, page := part.page }

theorem partDraft_row (part : ExtractedPart) (content : String) :
    (partDraft part content).kind = part.kind.chunkKind ∧
      (partDraft part content).content = content ∧ (partDraft part content).page = part.page := by
  rw [partDraft]
  cases part.kind <;> exact ⟨rfl, rfl, rfl⟩

theorem partChunks_eq (enrichment : EnrichmentResult) (part : ExtractedPart) (index : ℕ) :
    partChunks enrichment part index =
      (partContents enrichment part index).map (partDraft part) := by
  unfold partChunks partContents partDraft
  cases part.kind with
  | image => rfl
  | text => rfl
  | table =>
    rw [List.map_map]
    refine List.map_congr_left fun piece _ => ?_
    simp only [Function.comp_apply, PartKind.chunkKind, withPreamble]
    cases enrichment.tablePreambles.lookup index with
    | none => rfl
    | some preamble => by_cases hempty : preamble = "" <;> simp [Option.filter, hempty]

theorem buildChunks_eq (enrichment : EnrichmentResult) (parts : List ExtractedPart) :
    buildChunks parts enrichment =
      (rowContents enrichment parts).map fun p => partDraft p.1 p.2 := by
  rw [buildChunks, rowContents, List.map_flatMap]
  refine List.flatMap_congr fun p _ => ?_
  rw [partChunks_eq, List.map_map]
  rfl

section Rows

variable {provider : EmbeddingProvider} {documentId : Uuid} {rowIds : ℕ → Uuid} {title : String}
  {vec : ℕ → String → Vector} {native : ℕ → List UInt8 → String → Option Vector}

/-- Every vector that is assigned comes with a position of its own. -/
theorem embedding_assignVectors {rows : List Chunk} {vs : List (ℕ × Vector)} {i : ℕ}
    {row row' : Chunk} (before : rows[i]? = some row)
    (after : (assignVectors rows vs)[i]? = some row') :
    (row'.embedding = row.embedding ∧ ∀ v ∈ vs, v.1 ≠ i) ∨
      ∃ v ∈ vs, v.1 = i ∧ row'.embedding = some v.2 := by
  induction vs generalizing rows row with
  | nil =>
    obtain rfl : row = row' := Option.some.inj (before.symm.trans after)
    exact .inl ⟨rfl, List.forall_mem_nil _⟩
  | cons v vs ih =>
    rw [assignVectors, List.foldl_cons] at after
    by_cases hv : v.1 = i
    · have hrow : (rows.modify v.1 fun row => { row with embedding := some v.2 })[i]? =
          some { row with embedding := some v.2 } := by
        simp [hv, before]
      rcases ih hrow after with ⟨hsame, -⟩ | ⟨w, hw, hwi, hset⟩
      · exact .inr ⟨v, List.mem_cons_self, hv, hsame⟩
      · exact .inr ⟨w, List.mem_cons_of_mem _ hw, hwi, hset⟩
    · have hrow : (rows.modify v.1 fun row => { row with embedding := some v.2 })[i]? =
          some row := by
        simp [hv, before]
      rcases ih hrow after with ⟨hsame, hnone⟩ | ⟨w, hw, hwi, hset⟩
      · exact .inl ⟨hsame, List.forall_mem_cons.mpr ⟨hv, hnone⟩⟩
      · exact .inr ⟨w, List.mem_cons_of_mem _ hw, hwi, hset⟩

/-- The batches assign to the pending positions vectors of their own texts. -/
theorem embedBatches_returns
    (documents : ∀ call texts, provider.embedDocuments call texts title =
      .ok (texts.map (vec call)))
    (call : ℕ) (batches : List (List (ℕ × String))) (rows : List Chunk) :
    ∃ vs, embedBatches provider title call batches rows = .ok (assignVectors rows vs) ∧
      vs.map (·.1) = batches.flatten.map (·.1) ∧
      ∀ v ∈ vs, ∃ text call, (v.1, text) ∈ batches.flatten ∧ v.2 = vec call text := by
  induction batches generalizing call rows with
  | nil => exact ⟨[], rfl, rfl, List.forall_mem_nil _⟩
  | cons batch rest ih =>
    have hzip : (batch.map (·.1)).zip ((batch.map (·.2)).map (vec call)) =
        batch.map fun p => (p.1, vec call p.2) := by
      rw [List.map_map, List.zip_map']
      rfl
    obtain ⟨vs, hrest, hpositions, hvs⟩ := ih (call + 1)
      (assignVectors rows (batch.map fun p => (p.1, vec call p.2)))
    refine ⟨(batch.map fun p => (p.1, vec call p.2)) ++ vs, ?_, ?_, ?_⟩
    · simp only [embedBatches, documents, hzip, List.length_map]
      rw [if_neg (not_not.mpr rfl), hrest, assignVectors, assignVectors, assignVectors,
        List.foldl_append]
    · rw [List.map_append, hpositions, List.flatten_cons, List.map_append, List.map_map]
      rfl
    · rw [List.flatten_cons]
      refine List.forall_mem_append.mpr ⟨List.forall_mem_map.mpr fun p hp => ?_, fun v hv => ?_⟩
      · exact ⟨p.2, call, List.mem_append_left _ hp, rfl⟩
      · obtain ⟨text, later, htext, hv⟩ := hvs v hv
        exact ⟨text, later, List.mem_append_right _ htext, hv⟩

theorem nativeEmbedding_returns
    (images : ∀ position bytes mime, provider.embedImage position bytes mime =
      .ok (native position bytes mime))
    (position : ℕ) (chunk : ChunkDraft) : ∃ n, nativeEmbedding provider position chunk = .ok n := by
  unfold nativeEmbedding
  split
  · split
    · exact ⟨_, images _ _ _⟩
    · exact ⟨none, rfl⟩
  · exact ⟨none, rfl⟩

/-- The first loop gives every chunk its row, with what was returned for its image. -/
theorem embedImages_returns
    (images : ∀ position bytes mime, provider.embedImage position bytes mime =
      .ok (native position bytes mime))
    (documentId : Uuid) (rowIds : ℕ → Uuid) (chunks : List (ChunkDraft × ℕ)) :
    ∃ rows, embedImages provider documentId rowIds chunks = .ok rows ∧
      rows.map Chunk.bare = chunks.map (fun p => chunkRow documentId (rowIds p.2) p.1 p.2) ∧
      rows.map (fun row => Except.ok row.embedding) =
        chunks.map fun p => nativeEmbedding provider p.2 p.1 := by
  induction chunks with
  | nil => exact ⟨[], rfl, rfl, rfl⟩
  | cons p rest ih =>
    obtain ⟨rows, hrows, hbare, hnative⟩ := ih
    obtain ⟨n, hn⟩ := nativeEmbedding_returns images p.2 p.1
    refine ⟨{ chunkRow documentId (rowIds p.2) p.1 p.2 with embedding := n } :: rows, ?_, ?_, ?_⟩
    · rw [embedImages, hn, hrows]
      rfl
    · rw [List.map_cons, List.map_cons, hbare]
      rfl
    · rw [List.map_cons, List.map_cons, hnative, hn]

theorem ordinal_of_getElem? {rows : List Chunk}
    (ordinals : rows.map (·.ordinal) = List.range rows.length) {i : ℕ} {row : Chunk}
    (h : rows[i]? = some row) : row.ordinal = i := by
  have hi : (rows.map (·.ordinal))[i]? = some row.ordinal := by simp [h]
  rw [ordinals, List.getElem?_range (List.getElem?_eq_some_iff.mp h).1] at hi
  exact (Option.some.inj hi).symm

theorem mem_pendingTexts {header : String} {rows : List Chunk}
    (ordinals : rows.map (·.ordinal) = List.range rows.length) {i : ℕ} {row : Chunk}
    (h : rows[i]? = some row) (text : String) :
    (i, text) ∈ pendingTexts header rows ↔
      row.embedding = none ∧ text = header ++ "\n" ++ row.content := by
  simp only [pendingTexts, List.mem_map, List.mem_filter, Option.isNone_iff_eq_none, Prod.mk.injEq]
  constructor
  · rintro ⟨other, ⟨hother, hnone⟩, hordinal, rfl⟩
    obtain ⟨j, hj⟩ := List.mem_iff_getElem?.mp hother
    obtain rfl : j = i := (ordinal_of_getElem? ordinals hj).symm.trans hordinal
    obtain rfl : other = row := Option.some.inj (hj.symm.trans h)
    exact ⟨hnone, rfl⟩
  · rintro ⟨hnone, rfl⟩
    exact ⟨row, ⟨List.mem_of_getElem? h, hnone⟩, ordinal_of_getElem? ordinals h, rfl⟩

/-- A row keeps its native vector, or gets a vector of its own text. -/
theorem embedding_own {header : String} {rows : List Chunk} {vs : List (ℕ × Vector)}
    (ordinals : rows.map (·.ordinal) = List.range rows.length)
    (positions : vs.map (·.1) = (pendingTexts header rows).map (·.1))
    (own : ∀ v ∈ vs, ∃ text call, (v.1, text) ∈ pendingTexts header rows ∧ v.2 = vec call text)
    {i : ℕ} {row row' : Chunk} (before : rows[i]? = some row)
    (after : (assignVectors rows vs)[i]? = some row') :
    ∃ v, row'.embedding = some v ∧ (row.embedding = some v ∨
      row.embedding = none ∧ ∃ call, v = vec call (header ++ "\n" ++ row.content)) := by
  rcases embedding_assignVectors before after with ⟨hsame, hnone⟩ | ⟨v, hv, rfl, hset⟩
  · cases hnative : row.embedding with
    | some v => exact ⟨v, hsame.trans hnative, .inl rfl⟩
    | none =>
      -- its position is pending, so a vector was assigned to it
      have hpending := (@mem_pendingTexts header _ ordinals _ _ before _).mpr ⟨hnative, rfl⟩
      have hi : i ∈ vs.map (·.1) := positions ▸ List.mem_map_of_mem hpending
      obtain ⟨v, hv, hvi⟩ := List.mem_map.mp hi
      exact absurd hvi (hnone v hv)
  · obtain ⟨text, call, htext, hvector⟩ := own v hv
    obtain ⟨hnone, rfl⟩ := (mem_pendingTexts ordinals before text).mp htext
    exact ⟨v.2, hset, .inr ⟨hnone, call, hvector⟩⟩

/-- Rows that are bare the rows of the chunks hold the contents of the parts. -/
theorem contents_of_bare {documentId : Uuid} {rowIds : ℕ → Uuid} {parts : List ExtractedPart}
    {enrichment : EnrichmentResult} {rows : List Chunk}
    (bare : rows.map Chunk.bare = bareRows documentId rowIds parts enrichment) :
    rows.map (fun row => (row.kind, row.content, row.page)) =
      (rowContents enrichment parts).map fun p => (p.1.kind.chunkKind, p.2, p.1.page) := by
  have hchunks : rows.map (fun row => (row.kind, row.content, row.page)) =
      (buildChunks parts enrichment).map fun chunk => (chunk.kind, chunk.content, chunk.page) := by
    have h := congrArg (List.map fun row : Chunk => (row.kind, row.content, row.page)) bare
    rw [List.map_map, bareRows, List.map_map] at h
    rw [← List.zipIdx_map_fst 0 (buildChunks parts enrichment), List.map_map]
    exact h
  rw [hchunks, buildChunks_eq, List.map_map]
  refine List.map_congr_left fun p _ => ?_
  obtain ⟨hkind, hcontent, hpage⟩ := partDraft_row p.1 p.2
  rw [Function.comp_apply, hkind, hcontent, hpage]

/-- The provider is asked about the image of the part that the chunk comes from. -/
theorem nativeEmbedding_partDraft
    (images : ∀ position bytes mime, provider.embedImage position bytes mime =
      .ok (native position bytes mime))
    (position : ℕ) (part : ExtractedPart) (content : String) :
    nativeEmbedding provider position (partDraft part content) =
      .ok (imageVector native position part) := by
  unfold nativeEmbedding imageVector partDraft
  cases part.kind with
  | image =>
    cases part.imageBytes with
    | none => rfl
    | some bytes =>
      cases bytes with
      | nil => rfl
      | cons byte bytes => exact images position (byte :: bytes) _
  | text | table => rfl

theorem row_before {rows rows' : List Chunk} (bare : rows'.map Chunk.bare = rows.map Chunk.bare)
    {i : ℕ} {row' : Chunk} (h : rows'[i]? = some row') :
    ∃ row, rows[i]? = some row ∧ row'.content = row.content := by
  have hrow := congrArg (·[i]?) bare
  simp only [List.getElem?_map, h, Option.map_some] at hrow
  obtain ⟨row, hrow, hbare⟩ := Option.map_eq_some_iff.mp hrow.symm
  exact ⟨row, hrow, (congrArg Chunk.content hbare :).symm⟩

/-- The rows are bare those of the chunks, and each has what was returned for its image, or a vector
of its own text. -/
theorem embedRows_own
    (documents : ∀ call texts, provider.embedDocuments call texts title =
      .ok (texts.map (vec call)))
    (images : ∀ position bytes mime, provider.embedImage position bytes mime =
      .ok (native position bytes mime))
    (documentId : Uuid) (rowIds : ℕ → Uuid) (parts : List ExtractedPart)
    (enrichment : EnrichmentResult) :
    ∃ rows, embedRows provider documentId rowIds title parts enrichment = .ok rows ∧
      rows.map Chunk.bare = bareRows documentId rowIds parts enrichment ∧
      ∀ (i : ℕ) row chunk, rows[i]? = some row → (buildChunks parts enrichment)[i]? = some chunk →
        ∃ v, row.embedding = some v ∧ (nativeEmbedding provider i chunk = .ok (some v) ∨
          nativeEmbedding provider i chunk = .ok none ∧ ∃ call,
            v = vec call (embeddingHeader title enrichment ++ "\n" ++ row.content)) := by
  obtain ⟨before, hbefore, hbare, hnative⟩ := embedImages_returns images documentId rowIds
    (buildChunks parts enrichment).zipIdx
  obtain ⟨vs, hafter, hpositions, hvs⟩ := embedBatches_returns documents 0
    (windows embedBatchSize embedBatchSize
      (pendingTexts (embeddingHeader title enrichment) before)) before
  rw [flatten_windows (by decide)] at hpositions hvs
  have hsame : (assignVectors before vs).map Chunk.bare = before.map Chunk.bare :=
    bare_assignVectors before vs
  have hordinals : before.map (·.ordinal) = List.range before.length :=
    ordinal_of_bare hbare (bareRows_ordinal parts enrichment)
  refine ⟨assignVectors before vs, ?_, hsame.trans hbare, fun i row chunk hrow hchunk => ?_⟩
  · rw [embedRows, hbefore]
    exact hafter
  · obtain ⟨row₀, hrow₀, hcontent⟩ := row_before hsame hrow
    have hreturned : nativeEmbedding provider i chunk = .ok row₀.embedding := by
      have h := congrArg (·[i]?) hnative
      simp only [List.getElem?_map, hrow₀, List.getElem?_zipIdx, hchunk, Option.map_some] at h
      rw [Nat.zero_add] at h
      exact (Option.some.inj h).symm
    rw [hreturned, hcontent]
    obtain ⟨v, hv, hown⟩ := embedding_own hordinals hpositions hvs hrow₀ hrow
    exact ⟨v, hv, hown.imp (congrArg Except.ok) fun h => ⟨congrArg Except.ok h.1, h.2⟩⟩

theorem nativeEmbedding_of_none
    (images : ∀ position bytes mime, provider.embedImage position bytes mime = .ok none)
    (position : ℕ) (chunk : ChunkDraft) (v : Vector) :
    nativeEmbedding provider position chunk ≠ .ok (some v) := by
  unfold nativeEmbedding
  split
  · split
    · rw [images]
      exact nofun
    · exact nofun
  · exact nofun

/-- With a provider that embeds no image, every row has a vector of its own text. -/
theorem embedRows_texts (provider : EmbeddingProvider) (vec : ℕ → String → Vector)
    (documents : ∀ call texts, provider.embedDocuments call texts title =
      .ok (texts.map (vec call)))
    (images : ∀ position bytes mime, provider.embedImage position bytes mime = .ok none)
    (documentId : Uuid) (rowIds : ℕ → Uuid) (parts : List ExtractedPart)
    (enrichment : EnrichmentResult) :
    ∃ rows, embedRows provider documentId rowIds title parts enrichment = .ok rows ∧
      rows.map Chunk.bare = bareRows documentId rowIds parts enrichment ∧
      ∀ row ∈ rows, ∃ call, row.embedding =
        some (vec call (embeddingHeader title enrichment ++ "\n" ++ row.content)) := by
  obtain ⟨rows, hrows, hbare, hown⟩ := embedRows_own documents images documentId rowIds parts
    enrichment
  refine ⟨rows, hrows, hbare, fun row hrow => ?_⟩
  obtain ⟨i, hi⟩ := List.mem_iff_getElem?.mp hrow
  have hlength := congrArg List.length hbare
  rw [List.length_map, bareRows, List.length_map, List.length_zipIdx] at hlength
  have hchunk := List.getElem?_eq_getElem (hlength ▸ (List.getElem?_eq_some_iff.mp hi).1)
  obtain ⟨v, hv, hnative | ⟨-, call, rfl⟩⟩ := hown i row _ hi hchunk
  · exact absurd hnative (nativeEmbedding_of_none images i _ v)
  · exact ⟨call, hv⟩

end Rows

/-- With a provider that answers every call, the rows in order are the contents of the parts in
order. The row of an image with bytes has the vector that was returned for them, if one was, and
every other row has a vector of its own content. -/
theorem embedRows_contents (provider : EmbeddingProvider) (title : String)
    (vec : ℕ → String → Vector) (native : ℕ → List UInt8 → String → Option Vector)
    (documents : ∀ call texts, provider.embedDocuments call texts title =
      .ok (texts.map (vec call)))
    (images : ∀ position bytes mime, provider.embedImage position bytes mime =
      .ok (native position bytes mime))
    (documentId : Uuid) (rowIds : ℕ → Uuid) (parts : List ExtractedPart)
    (enrichment : EnrichmentResult) :
    ∃ rows, embedRows provider documentId rowIds title parts enrichment = .ok rows ∧
      rows.map (fun row => (row.kind, row.content, row.page)) =
        (rowContents enrichment parts).map (fun p => (p.1.kind.chunkKind, p.2, p.1.page)) ∧
      rows.map (·.ordinal) = List.range rows.length ∧
      ∀ (i : ℕ) row part content, rows[i]? = some row →
        (rowContents enrichment parts)[i]? = some (part, content) →
        match imageVector native i part with
        | some v => row.embedding = some v
        | none => ∃ call, row.embedding =
            some (vec call (embeddingHeader title enrichment ++ "\n" ++ content)) := by
  obtain ⟨rows, hrows, hbare, hown⟩ := embedRows_own documents images documentId rowIds parts
    enrichment
  have hcontents := contents_of_bare hbare
  refine ⟨rows, hrows, hcontents, ordinal_of_bare hbare (bareRows_ordinal parts enrichment),
    fun i row part content hrow hpart => ?_⟩
  have hcontent : row.content = content := by
    have h := congrArg (·[i]?) hcontents
    simp only [List.getElem?_map, hrow, hpart, Option.map_some, Option.some.injEq,
      Prod.mk.injEq] at h
    exact h.2.1
  have hchunk : (buildChunks parts enrichment)[i]? = some (partDraft part content) := by
    rw [buildChunks_eq, List.getElem?_map, hpart]
    rfl
  obtain ⟨v, hv, h⟩ := hown i row _ hrow hchunk
  rw [nativeEmbedding_partDraft images, hcontent] at h
  rcases h with h | ⟨h, call, rfl⟩
  · rw [Except.ok.inj h]
    exact hv
  · rw [Except.ok.inj h]
    exact ⟨call, hv⟩

/-- A provider that embeds the first image only, by its bytes, and knows a text by its length. -/
def firstImageProvider : EmbeddingProvider where
  name := .demo
  modelId := ""
  embedDocuments call texts _ := .ok (texts.map fun t => ⟨.demo, [call, t.length]⟩)
  embedQuery _ := .ok ⟨.demo, []⟩
  embedImage position bytes mime := .ok
    (if position = 0 then some ⟨.demo, [bytes.length, mime.length]⟩ else none)

theorem embedRows_contents_images :
    ∃ rows, embedRows firstImageProvider 0 id "t"
        [{ kind := .image, imageBytes := some [1] }, { kind := .image, imageBytes := some [2] },
          { kind := .text, content := "a" }] {} = .ok rows ∧
      rows.map (fun row => (row.kind, row.content, row.page)) =
        [(.imageDescription, "Image attachment extracted from the document.", none),
          (.imageDescription, "Image attachment extracted from the document.", none),
          (.text, "a", none)] ∧
      (∀ row, rows[0]? = some row → row.embedding = some ⟨.demo, [1, 9]⟩) ∧
      ∀ row, rows[2]? = some row → ∃ call, row.embedding = some ⟨.demo, [call, 19]⟩ := by
  obtain ⟨rows, hrows, hcontents, -, hvectors⟩ := embedRows_contents firstImageProvider "t"
    (fun call t => ⟨.demo, [call, t.length]⟩)
    (fun position bytes mime =>
      if position = 0 then some ⟨.demo, [bytes.length, mime.length]⟩ else none)
    (fun _ _ => rfl) (fun _ _ _ => rfl) 0 id
    [{ kind := .image, imageBytes := some [1] }, { kind := .image, imageBytes := some [2] },
      { kind := .text, content := "a" }] {}
  refine ⟨rows, hrows, hcontents.trans (by decide), fun row hrow => ?_, fun row hrow => ?_⟩
  · exact hvectors 0 row _ _ hrow rfl
  · have hlength : (embeddingHeader "t" {} ++ "\n" ++ "a").length = 19 := by decide
    obtain ⟨call, hcall⟩ := hvectors 2 row _ _ hrow rfl
    exact ⟨call, hcall.trans (by simp [hlength])⟩

end Docsage
