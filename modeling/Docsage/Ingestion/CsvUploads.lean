import Docsage.Ingestion.DotNetExtract
import Docsage.Ingestion.PipelineParity

/-! # CSV uploads in the two backends

With the demo provider a CSV file becomes one table part, and its chunks are embedded
under a header that is taken from the table. Besides the extractors, the cap on a
part, the units of length and the header keep the two backends apart.
-/

namespace Docsage
open Effects Text Windows

/-- A document of some title that either backend embeds with the demo provider. Both hash a text
alike. -/
structure DemoUpload (title : String) where
  row : Document
  service : EmbeddingService
  rowIds : ℕ → Uuid
  platform : DotNet.Platform
  options : DotNet.DocsageOptions
  calls : DotNet.PipelineCalls
  titled : row.title = title
  demo : row.embeddingProvider = .demo
  hashed : ∀ text, calls.service.demoVector (utf16 text) = service.demoVector text

def DotNet.StoredFile.withData (file : DotNet.StoredFile) (data : List UInt8) : DotNet.StoredFile :=
  { file with bytes := .ok data, text := .ok (readAllText data) }

variable {title : String}

namespace DemoUpload

def csvChunks (u : DemoUpload title) (file : StoredFile) : Except Exc (List Chunk) := do
  let result ← extract file "text/csv"
  embedRows (demoEmbeddingProvider u.service) u.row.id u.rowIds u.row.title result.parts
    (Docsage.demo u.row.title result.parts)

def dotNetCsvChunks (u : DemoUpload title) (file : DotNet.StoredFile) :
    Except Exc (List Chunk) := do
  let parts ← DotNet.dispatch u.platform file "text/csv"
  let plan := DotNet.generateAsync (utf16 u.row.title) parts
  DotNet.indexRows u.options u.calls u.row plan
    (DotNet.chunk (DotNet.fillCaptions plan parts) plan.tablePreambles)

end DemoUpload

/-- The extractors make the same table of the file, and the backends the same chunks with the same
vectors. -/
structure CsvAgree (title : String) (file : StoredFile) (data : List UInt8) : Prop where
  table : SameTable file data
  chunks : ∀ (u : DemoUpload title) (file' : DotNet.StoredFile), ∃ rows rows',
    u.csvChunks (file.withData data) = .ok rows ∧
      u.dotNetCsvChunks (file'.withData data) = .ok rows' ∧
      rows.map Chunk.view = rows'.map Chunk.view ∧
      rows.map (·.embedding) = rows'.map (·.embedding)

def tablePart (content : String) : ExtractedPart := { kind := .table, content }

/-- The chunks of the table are embedded under the same header. -/
def SameHeader (title : String) (part : ExtractedPart) : Prop :=
  DotNet.header (utf16 title) (portPlan title [part]) =
    utf16 (embeddingHeader title (demo title [part]))

/-- A plain file with a table below the cap that both chunkers cut and count alike, and that both
backends describe under the same header. -/
structure CsvAlike (title : String) (text : List Char) : Prop where
  plain : CsvPlain text
  uncapped : (csvTable text).length ≤ maxContentChars
  windows : WindowsAgree (csvTable text)
  tokens : ∀ start ∈ windowStarts (csvTable text), TokensAgree ("Table from " ++ title ++ "." ++
    "\n\n" ++ String.ofList (((csvTable text).toList.drop start).take 4000))
  header : SameHeader title (tablePart (csvTable text))

section

variable {content : String} {data : List UInt8} {file : StoredFile} {file' : DotNet.StoredFile}
  {rows : List Csv.Row} {text : List Char}

theorem dispatch_csv (platform : DotNet.Platform) :
    DotNet.dispatch platform (file'.withData data) "text/csv" =
      .ok (DotNet.textExtract (DotNet.readAllText data) "text/csv") := by
  have hmime : "text/csv" ∈ ["text/plain", "text/markdown", "text/csv"] := by simp
  have hcsv : ¬ "text/csv" ≠ "text/csv" := fun h => h rfl
  simp only [DotNet.dispatch, DotNet.extractor?, if_pos hmime, DotNet.StoredFile.withData,
    DotNet.textExtract, if_neg hcsv]
  rfl

theorem extract_csv
    (h : textExtract (file.withData data) "text/csv" = .ok (tableResult content)) :
    extract (file.withData data) "text/csv" =
      .ok { parts := [capContent (tablePart content)] } := by
  have hextractor : extractor (file.withData data) "text/csv" = .ok (tableResult content) := by
    rw [← h]
    simp [extractor, docxMime, xlsxMime]
  rw [extract, hextractor]
  rfl

theorem fillCaptions_congr {plan plan' : DotNet.EnrichmentPlan} (h : plan.captions = plan'.captions)
    (parts : List DotNet.ExtractedPart) :
    DotNet.fillCaptions plan parts = DotNet.fillCaptions plan' parts := by
  rw [DotNet.fillCaptions, DotNet.fillCaptions, h]

theorem chunk_portPlan (title : String) (parts : List ExtractedPart) :
    DotNet.chunk (DotNet.fillCaptions (portPlan title parts) (parts.map DotNet.extracted))
        (portPlan title parts).tablePreambles =
      DotNet.planned parts (demo title parts) := by
  rw [DotNet.planned, fillCaptions_congr portPlan_captions, portPlan_tablePreambles]
  rfl

theorem csvChunks_eq (u : DemoUpload title)
    (h : textExtract (file.withData data) "text/csv" = .ok (tableResult content)) :
    u.csvChunks (file.withData data) =
      embedRows (demoEmbeddingProvider u.service) u.row.id u.rowIds title
        [capContent (tablePart content)] (demo title [capContent (tablePart content)]) := by
  rw [DemoUpload.csvChunks, extract_csv h, u.titled]
  rfl

theorem dotNetCsvChunks_iff (u : DemoUpload title)
    (h : DotNet.textExtract (DotNet.readAllText data) "text/csv" =
      [{ kind := .table, content := utf16 content }]) (stored : List Chunk) :
    u.dotNetCsvChunks (file'.withData data) = .ok stored ↔
      stored = (DotNet.planned [tablePart content] (demo title [tablePart content])).map (fun c =>
        DotNet.boundRow u.row.id u.calls.chunkIds c (DotNet.demoVectorOf u.calls.service
          (DotNet.header (utf16 title) (portPlan title [tablePart content])) c)) ∧
      ∀ c ∈ DotNet.planned [tablePart content] (demo title [tablePart content]),
        (decode? c.content).isSome := by
  have hparts : ([{ kind := .table, content := utf16 content }] : List DotNet.ExtractedPart) =
      [tablePart content].map DotNet.extracted := rfl
  have hchunks : u.dotNetCsvChunks (file'.withData data) = DotNet.indexRows u.options u.calls u.row
      (portPlan title [tablePart content])
      (DotNet.planned [tablePart content] (demo title [tablePart content])) := by
    rw [DemoUpload.dotNetCsvChunks, dispatch_csv, h, hparts, u.titled, ← chunk_portPlan]
    rfl
  rw [hchunks, DotNet.indexRows_demo_iff u.demo, u.titled]

theorem capContent_of_le (h : content.length ≤ maxContentChars) :
    capContent (tablePart content) = tablePart content := if_pos h

theorem lookup_demo (title : String) {part : ExtractedPart} (h : part.kind = .table) :
    (demo title [part]).tablePreambles.lookup 0 = some ("Table from " ++ title ++ ".") := by
  simp [demo, h]

theorem tableParts_alike_iff (title content : String) :
    (∀ p ∈ [tablePart content].zipIdx,
        IngestsAlike (demo title [tablePart content]) p.1 p.2) ↔
      WindowsAgree content ∧ ∀ start ∈ windowStarts content, TokensAgree ("Table from " ++ title ++
        "." ++ "\n\n" ++ String.ofList ((content.toList.drop start).take 4000)) := by
  have hkind : (tablePart content).kind = .table := rfl
  have hpreamble : "Table from " ++ title ++ "." ≠ "" := by simp
  simp only [List.zipIdx_cons, List.zipIdx_nil, List.forall_mem_singleton, IngestsAlike, PartAgrees,
    hkind, lookup_demo title hkind, ne_eq, Option.some.injEq, hpreamble, not_false_iff, true_and,
    tablePrefix, reduceCtorEq, false_imp_iff, and_true]
  rfl

theorem lines_ne_nil : ∀ line ∈ (tableText rows).toList.splitOnP (· == '\n'),
    rows ≠ [] → line ≠ [] := by
  cases rows with
  | nil => exact fun _ _ h => absurd rfl h
  | cons header rows =>
    rw [lines_tableText]
    intro line hline _
    have hrow (row : Csv.Row) : rowLine row ≠ [] := by
      rw [← rowLine_eq, tableLine_toList]
      exact List.cons_ne_nil _ _
    rcases List.mem_cons.mp hline with rfl | hline
    · exact hrow header
    · rcases List.mem_cons.mp hline with rfl | hline
      · exact hrow _
      · obtain ⟨row, -, rfl⟩ := List.mem_map.mp hline
        exact hrow row

/-- A table has no blank line, in code units. -/
theorem blank_not_infix (h : rows ≠ []) : ¬ utf16 "\n\n" <:+: utf16 (tableText rows) := by
  rintro ⟨before, after, hunits⟩
  have hblank : [] ∈ (utf16 (tableText rows)).splitOnP (· == 0x0A) := by
    have hsplit : (before ++ 0x0A :: 0x0A :: after).splitOnP (· == 0x0A) =
        before.splitOnP (· == 0x0A) ++ [] :: after.splitOnP (· == 0x0A) := by
      rw [List.splitOnP_append_cons _ _ rfl, List.splitOnP_cons_eq_if_modifyHead]
      rfl
    have hbreaks : before ++ utf16 "\n\n" ++ after = before ++ 0x0A :: 0x0A :: after := by
      rw [List.append_assoc]
      rfl
    rw [← hunits, hbreaks, hsplit]
    exact List.mem_append_right _ List.mem_cons_self
  rw [utf16, reads_newline.splitOnP] at hblank
  obtain ⟨line, hline, hnil⟩ := List.mem_map.mp hblank
  have hempty := flatMap_units_isEmpty line
  rw [hnil] at hempty
  exact lines_ne_nil line hline h (List.isEmpty_iff.mp hempty.symm)

/-- Pieces of FastAPI that are in code units those of .NET, with the same text before each. -/
theorem chunkText_of_bodies (dotnet : DotNet.ExtractedPart) (before : String) {content' : String}
    (h : ((chunkText content).map (before ++ ·)).map
          (fun t => (⟨dotnet.kind, dotnet.page, some t, t.length / 4⟩ : ChunkBody)) =
        ((DotNet.chunkText (utf16 content')).map (utf16 before ++ ·)).map (DotNet.bodyOf dotnet)) :
    DotNet.chunkText (utf16 content') = (chunkText content).map utf16 := by
  have hunits := ((bodies_eq_iff dotnet).mp h).1
  have hcomp : utf16 ∘ (before ++ ·) = (utf16 before ++ ·) ∘ utf16 :=
    funext fun t => utf16_append before t
  rw [List.map_map, hcomp, ← List.map_map] at hunits
  exact List.map_injective_iff.mpr (List.append_right_injective (utf16 before)) hunits

theorem infix_of_mem_chunkText {units piece : Utf16} (h : piece ∈ DotNet.chunkText units) :
    piece <:+: units := by
  unfold DotNet.chunkText at h
  split at h
  · rw [List.mem_singleton.mp h]
  · obtain ⟨start, -, rfl⟩ := List.mem_map.mp h
    exact (List.take_prefix _ _).isInfix.trans (List.drop_suffix _ _).isInfix

/-- The note behind a cut table begins with a blank line, and no .NET piece has one. -/
theorem capped_pieces_ne (h : rows ≠ []) (capped : maxContentChars < (tableText rows).length) :
    DotNet.chunkText (utf16 (tableText rows)) ≠
      (chunkText (capContent (tablePart (tableText rows))).content).map utf16 := by
  intro heq
  have hnote : "\n\n".toList <:+: (capContent (tablePart (tableText rows))).content.toList := by
    have hlong : ¬ (tablePart (tableText rows)).content.length ≤ maxContentChars :=
      not_le.mpr capped
    rw [capContent, if_neg hlong]
    refine ⟨(tableText rows).toList.take maxContentChars, ("[content truncated at " ++
      toString maxContentChars ++ " characters]").toList, ?_⟩
    simp [String.toList_append, tablePart]
  obtain ⟨piece, hpiece, hin⟩ := infix_chunkText hnote (by decide)
  have hport : utf16 piece ∈ DotNet.chunkText (utf16 (tableText rows)) :=
    heq ▸ List.mem_map_of_mem hpiece
  refine blank_not_infix h (List.IsInfix.trans ?_ (infix_of_mem_chunkText hport))
  obtain ⟨before, after, hchars⟩ := hin
  exact ⟨before.flatMap unitsOfChar, after.flatMap unitsOfChar, by
    rw [utf16, utf16, ← List.flatMap_append, ← List.flatMap_append, hchars]⟩

theorem partChunks_table (title content : String) :
    (partChunks (demo title [tablePart content]) (tablePart content) 0).map ChunkDraft.body =
      ((chunkText content).map ("Table from " ++ title ++ "." ++ "\n\n" ++ ·)).map fun t =>
        ⟨.table, none, some t, t.length / 4⟩ := by
  have hlookup := lookup_demo title (show (tablePart content).kind = .table from rfl)
  have hpreamble : ("Table from " ++ title ++ ".").isEmpty = false := by simp
  simp only [partChunks, tablePart] at hlookup ⊢
  simp only [hlookup, hpreamble, Bool.false_eq_true, if_false, List.map_map]
  rfl

theorem captionedBodies_table (title content : String) :
    DotNet.captionedBodies (demo title [tablePart content]) (tablePart content) 0 =
      ((DotNet.chunkText (utf16 content)).map
        (utf16 ("Table from " ++ title ++ "." ++ "\n\n") ++ ·)).map
          (DotNet.bodyOf { kind := .table, content := utf16 content }) := by
  have hlookup := lookup_demo title (show (tablePart content).kind = .table from rfl)
  rw [DotNet.captionedBodies]
  simp only [DotNet.partBodies, DotNet.captionedOf, DotNet.extracted, tablePart, PartKind.chunkKind,
    lookup_preamblesOf] at hlookup ⊢
  simp only [hlookup, Option.map_some, reduceCtorEq, if_false, utf16_append]

/-- The backends make different chunks of a table that is cut. -/
theorem capped_views_ne (h : rows ≠ []) (capped : maxContentChars < (tableText rows).length)
    (documentId : Uuid) (rowIds : ℕ → Uuid) (title : String) :
    (bareRows documentId rowIds [capContent (tablePart (tableText rows))]
        (demo title [capContent (tablePart (tableText rows))])).map Chunk.view ≠
      (DotNet.planned [tablePart (tableText rows)]
        (demo title [tablePart (tableText rows)])).map DotNet.ChunkPlan.view := by
  have hpieces := capped_pieces_ne h capped
  obtain ⟨cut, hcut⟩ : ∃ cut, capContent (tablePart (tableText rows)) = tablePart cut := by
    unfold capContent
    split
    · exact ⟨_, rfl⟩
    · exact ⟨_, rfl⟩
  rw [hcut] at hpieces ⊢
  intro heq
  rw [view_bareRows, view_planned, numbered_eq_iff] at heq
  simp only [List.zipIdx_cons, List.zipIdx_nil, List.flatMap_cons, List.flatMap_nil,
    List.append_nil, partChunks_table, captionedBodies_table] at heq
  exact hpieces (chunkText_of_bodies { kind := .table, content := utf16 (tableText rows) } _ heq)

def unitsVector (units : Utf16) : List ℚ := units.map fun u => (u.toNat : ℚ)

theorem unitsVector_injective : Function.Injective unitsVector :=
  List.map_injective_iff.mpr fun _ _ h => UInt16.toNat_inj.mp (Nat.cast_injective h)

/-- An upload whose vectors tell what was hashed. -/
def tellingUpload (title : String) : DemoUpload title where
  row :=
    { id := 1, ownerId := 1, scope := .personal, title, sourceFilename := "table.csv"
      mimeType := "text/csv", sizeBytes := 0, embeddingProvider := .demo, topicId := none
      createdAt := 0, updatedAt := 0 }
  service := { offlineService with demoVector := fun text => unitsVector (utf16 text) }
  rowIds := id
  platform := .unix
  options := {}
  calls :=
    { service :=
        { demoVector := unitsVector
          embedTexts := fun _ _ => .error { message := "no key" }
          embedQuery := fun _ _ => .error { message := "no key" } }
      extract := fun _ _ _ => .ok []
      generate := fun title parts => .ok (DotNet.generateAsync title parts)
      chunkIds := id }
  titled := rfl
  demo := rfl
  hashed _ := rfl

def textFile : DotNet.StoredFile where
  name := utf16 "table.csv"
  bytes := .ok []
  text := .ok []
  docx := .error { message := "not a package" }
  xlsx := .error { message := "not a package" }
  pdf := .error { message := "not a PDF" }

theorem csvChunks_demo (u : DemoUpload title) (plain : CsvPlain text) :
    ∃ stored, u.csvChunks (file.withData (Utf8.encode text)) = .ok stored ∧
      stored.map Chunk.view = (bareRows u.row.id u.rowIds [capContent (tablePart (csvTable text))]
        (demo title [capContent (tablePart (csvTable text))])).map Chunk.view ∧
      stored ≠ [] ∧ ∀ r ∈ stored, r.embedding = some ⟨.demo, u.service.demoVector
        (embeddingText (embeddingHeader title
          (demo title [capContent (tablePart (csvTable text))])) r.content)⟩ := by
  rw [csvChunks_eq u plain.textExtract_eq]
  obtain ⟨stored, hstored, hviews, hvectors⟩ := embedRows_demo u.service u.row.id u.rowIds title
    [capContent (tablePart (csvTable text))] (demo title [capContent (tablePart (csvTable text))])
  refine ⟨stored, hstored, hviews, fun hnil => ?_, hvectors⟩
  exact List.cons_ne_nil _ _ ((@embedRows_eq_nil _
    { parts := [capContent (tablePart (csvTable text))] } _ _
    (demoEmbeddingProvider_embedsIn u.service) _ _ _ _ hstored).mp hnil)

theorem CsvAgree.stored (h : CsvAgree title file (Utf8.encode text)) (u : DemoUpload title)
    (plain : CsvPlain text) : ∃ stored,
      stored.map Chunk.view = (bareRows u.row.id u.rowIds [capContent (tablePart (csvTable text))]
        (demo title [capContent (tablePart (csvTable text))])).map Chunk.view ∧
      stored ≠ [] ∧
      (∀ r ∈ stored, r.embedding = some ⟨.demo, u.service.demoVector (embeddingText
        (embeddingHeader title (demo title [capContent (tablePart (csvTable text))]))
          r.content)⟩) ∧
      (∀ c ∈ DotNet.planned [tablePart (csvTable text)] (demo title [tablePart (csvTable text)]),
        (decode? c.content).isSome) ∧
      stored.map Chunk.view = (DotNet.planned [tablePart (csvTable text)]
        (demo title [tablePart (csvTable text)])).map DotNet.ChunkPlan.view ∧
      stored.map (·.embedding) = (DotNet.planned [tablePart (csvTable text)]
        (demo title [tablePart (csvTable text)])).map fun c =>
          some (DotNet.demoVectorOf u.calls.service
            (DotNet.header (utf16 title) (portPlan title [tablePart (csvTable text)])) c) := by
  obtain ⟨stored, hstored, hviews, hne, hvectors⟩ := @csvChunks_demo title file text u plain
  obtain ⟨rows, rows', hrows, hrows', hsame, hembeddings⟩ := h.chunks u textFile
  have hrow : rows = stored := Except.ok.inj (hrows.symm.trans hstored)
  obtain ⟨hport, hdecodes⟩ := (dotNetCsvChunks_iff u plain.textExtract_port rows').mp hrows'
  rw [hrow, hport] at hsame hembeddings
  refine ⟨stored, hviews, hne, hvectors, hdecodes, ?_, ?_⟩
  · rw [hsame, view_boundRows _ hdecodes]
  · rw [hembeddings, List.map_map]
    rfl

theorem CsvAgree.uncapped (h : CsvAgree title file (Utf8.encode text)) (plain : CsvPlain text) :
    (csvTable text).length ≤ maxContentChars := by
  by_contra hlong
  have hrows : (splitlines text).map Csv.plainRow ≠ [] := by
    intro hnil
    rw [csvTable, hnil] at hlong
    exact hlong (Nat.zero_le _)
  obtain ⟨stored, hviews, -, -, -, hsame, -⟩ := h.stored (tellingUpload title) plain
  exact capped_views_ne hrows (not_le.mp hlong) _ _ title (hviews.symm.trans hsame)

theorem CsvAgree.header (h : CsvAgree title file (Utf8.encode text)) (plain : CsvPlain text) :
    SameHeader title (tablePart (csvTable text)) := by
  obtain ⟨stored, -, hne, hvectors, -, hviews, hembeddings⟩ := h.stored (tellingUpload title) plain
  rw [capContent_of_le (h.uncapped plain)] at hvectors
  obtain ⟨r, rest, rfl⟩ := List.exists_cons_of_ne_nil hne
  obtain ⟨c, chunks, hplanned⟩ : ∃ c chunks, DotNet.planned [tablePart (csvTable text)]
      (demo title [tablePart (csvTable text)]) = c :: chunks := by
    refine List.exists_cons_of_ne_nil fun hnil => ?_
    rw [hnil] at hviews
    cases hviews
  rw [hplanned, List.map_cons, List.map_cons] at hviews hembeddings
  have hcontent : c.content = utf16 r.content :=
    decode?_eq_some.mp (congrArg (fun v : ChunkView => v.content) (List.cons.inj hviews).1).symm
  have hvector := (hvectors r List.mem_cons_self).symm.trans (List.cons.inj hembeddings).1
  have hhash : unitsVector (utf16 (embeddingText
      (embeddingHeader title (demo title [tablePart (csvTable text)])) r.content)) =
        unitsVector (DotNet.embeddingText
          (DotNet.header (utf16 title) (portPlan title [tablePart (csvTable text)])) c.content) :=
    congrArg Vector.components (Option.some.inj hvector)
  have htext := unitsVector_injective hhash
  rw [utf16_embeddingText, hcontent, DotNet.embeddingText, DotNet.embeddingText,
    List.append_cancel_right_eq, List.append_cancel_right_eq] at htext
  exact htext.symm

theorem CsvAgree.alike (h : CsvAgree title file (Utf8.encode text)) : CsvAlike title text := by
  have plain := sameTable_iff_plain.mp h.table
  have huncapped := h.uncapped plain
  obtain ⟨stored, hviews, -, -, -, hsame, -⟩ := h.stored (tellingUpload title) plain
  rw [capContent_of_le huncapped] at hviews
  have halike := (planned_iff _ _ _).mp (hviews.symm.trans hsame)
  obtain ⟨hwindows, htokens⟩ := (tableParts_alike_iff title _).mp halike
  exact ⟨plain, huncapped, hwindows, htokens, h.header plain⟩

theorem CsvAlike.agree (h : CsvAlike title text) (file : StoredFile) :
    CsvAgree title file (Utf8.encode text) := by
  refine ⟨sameTable_iff_plain.mpr h.plain, fun u file' => ?_⟩
  have halike := (tableParts_alike_iff title _).mpr ⟨h.windows, h.tokens⟩
  have hdecodes := decodes_of_alike halike
  obtain ⟨stored, hstored, hviews, -, hvectors⟩ := @csvChunks_demo title file text u h.plain
  rw [capContent_of_le h.uncapped] at hviews hvectors
  have hsame := hviews.trans ((planned_iff _ _ _).mpr halike)
  refine ⟨stored, _, hstored,
    (dotNetCsvChunks_iff u h.plain.textExtract_port _).mpr ⟨rfl, hdecodes⟩, ?_, ?_⟩
  · rw [hsame, view_boundRows _ hdecodes]
  · rw [h.header]
    exact embeddings_eq u.hashed hvectors hdecodes hsame

/-- The header of a table is the same where the summaries and the keywords are taken alike. -/
theorem sameHeader_of_demo {part : ExtractedPart}
    (plain : ∀ t ∈ sources [part], undotted 0 t.toList = true)
    (summary : SummaryAgrees title [part])
    (keywords : KeywordsAgree title [part]) (head : HeaderAgrees title [part]) :
    SameHeader title part := by
  have hplan := plan_agrees_iff.mpr
    ⟨summary_agrees_iff.mpr summary, keywords_agree plain keywords⟩
  rw [SameHeader, hplan, header_agrees_iff, demo_summary_eq_leadText summary]
  exact head

end

/-- A CSV file becomes the same table, chunks and vectors in both backends exactly when it is plain,
fits the cap, is cut and counted alike, and has the same header. It has where the sentences, the
words and the cut of the header agree. -/
theorem csvAgree_iff (title : String) (file : StoredFile) (text : List Char) :
    (CsvAgree title file (Utf8.encode text) ↔ CsvAlike title text) ∧
    ((∀ t ∈ sources [tablePart (csvTable text)], undotted 0 t.toList = true) →
      SummaryAgrees title [tablePart (csvTable text)] →
      KeywordsAgree title [tablePart (csvTable text)] →
      HeaderAgrees title [tablePart (csvTable text)] →
        SameHeader title (tablePart (csvTable text))) :=
  ⟨⟨CsvAgree.alike, fun h => h.agree file⟩, sameHeader_of_demo⟩

theorem csvAgree_iff_prices :
    CsvAgree "Prices" csvOnly (Utf8.encode "item,qty\nhat,2\n".toList) := by
  have htable : csvTable "item,qty\nhat,2\n".toList =
      "| item | qty |\n| --- | --- |\n| hat | 2 |" := by decide +kernel
  have hplain : CsvPlain "item,qty\nhat,2\n".toList :=
    (@sameTable_iff_plain csvOnly _).mp (sameTable_iff_rows.mpr rfl)
  obtain ⟨hagree, hheader⟩ := csvAgree_iff "Prices" csvOnly "item,qty\nhat,2\n".toList
  refine hagree.mpr ⟨hplain, ?_, ?_, ?_, hheader ?_ ?_ ?_ ?_⟩
  · rw [htable]
    decide
  · rw [htable]
    exact .inl (by decide)
  · rw [htable]
    decide +kernel
  · rw [htable]
    decide +kernel
  · have hsource : sourceText [tablePart (csvTable "item,qty\nhat,2\n".toList)] =
        some "| item | qty |\n| --- | --- |\n| hat | 2 |" := by
      rw [htable]
      decide +kernel
    rw [SummaryAgrees, hsource]
    decide +kernel
  · rw [htable]
    exact .inl (by decide +kernel)
  · rw [htable]
    exact .inl (by decide +kernel)

/-- A quoted comma separates two cells in one backend only. -/
theorem quoted_comma_disagrees : ¬ CsvAgree "Prices" csvOnly (Utf8.encode "\"1,5\"".toList) :=
  fun h => quoted_comma_tables h.table

end Docsage
