import Docsage.Ingestion.Chunks
import Docsage.Text.Whitespace
import Mathlib.Data.List.DropRight
import Mathlib.Data.List.Infix
import Mathlib.Tactic.Tauto

/-! # Extraction

A stored file becomes an ordered list of parts. What pypdf, pdfplumber,
python-docx, openpyxl and Pillow read from the file is given; which of its
pages, paragraphs, sheets and images are parts is decided here.
-/

namespace Docsage
open Effects Text

def maxParts : ℕ := 400
def maxContentChars : ℕ := 100000
def maxRowsPerSheet : ℕ := 200

/-- The rows of a table; a cell may be `None`. -/
abbrev Rows := List (List (Option String))

/-- Per page, what pypdf extracts as text and what pdfplumber extracts as tables. The two readers
need not see the same number of pages. -/
structure PdfFile where
  pages : List (Except Exc (Option String))
  plumberPages : List (Except Exc (List Rows))

inductive DocxItem where
  | paragraph (text : String)
  | table (rows : List (List String))

structure DocxRelationship where
  reltype : String
  isExternal : Bool
  partname : String
  blob : List UInt8
  contentType : String

structure DocxFile where
  body : List DocxItem
  relationships : List DocxRelationship

/-- A cell value of openpyxl; what is neither empty nor a whole float is known by its `str`. -/
inductive CellValue where
  | empty
  | wholeFloat (value : ℤ)
  | other (str : String)

structure Sheet where
  title : String
  rows : List (List CellValue)

/-- What each reader makes of one stored file. `exifDescription` and `encoded` stand for Pillow's
EXIF string and the image it saves again. -/
structure StoredFile where
  name : String
  pdf : Except Exc PdfFile
  docx : Except Exc DocxFile
  xlsx : Except Exc (List Sheet)
  exifDescription : Option String
  encoded : String → Except Exc (List UInt8)
  text : Except Exc String
  csvRows : String → Except Exc (List (List String))

def tableCell (value : Option String) : String :=
  String.ofList ((replaceChar '\n' ' ' (value.getD "")).toList.flatMap fun c =>
    if c = '|' then ['\\', '|'] else [c])

def tableLine (cells : List String) : String := "| " ++ " | ".intercalate cells ++ " |"

def markdownTable : Rows → String
  | [] => ""
  | header :: rows =>
    "\n".intercalate (tableLine (header.map tableCell) ::
      tableLine (header.map fun _ => "---") :: rows.map fun row => tableLine (row.map tableCell))

def normalize (value : Option String) : String := collapse (value.getD "")

/-- `_is_duplicate_table`: at least four fifths of the longer cells occur in the page's text. -/
def isDuplicateTable (rows : Rows) (pageText : String) : Bool :=
  let flat := normalize (some (" ".intercalate (rows.flatten.map normalize)))
  let page := normalize (some pageText)
  if flat.isEmpty then true
  else
    let cells := (rows.flatten.map normalize).filter fun c => 3 ≤ c.length
    if cells.isEmpty then false
    else 4 * cells.length ≤ 5 * (cells.filter fun c => c.toList <:+: page.toList).length

/-- One unreadable page must not kill the pipeline: its text is empty. -/
def pageText : Except Exc (Option String) → String
  | .ok text => text.getD ""
  | .error _ => ""

def keepsTable (text : String) (rows : Rows) : Bool :=
  !(markdownTable rows).isEmpty && !isDuplicateTable rows text

def pageParts (text : String) (number : ℕ) (tables : List Rows) : List ExtractedPart :=
  (if (normalize (some text)).isEmpty then []
    else [{ kind := .text, content := text, page := some number }]) ++
  (tables.filter (keepsTable text)).map fun rows =>
    { kind := .table, content := markdownTable rows, page := some number }

/-- The tables of a page; there are none behind the last page of pdfplumber. -/
def PdfFile.tables (file : PdfFile) (index : ℕ) : Except Exc (List Rows) :=
  (file.plumberPages[index]?).getD (.ok [])

def pdfExtract (file : PdfFile) : Except Exc ExtractionResult := do
  let parts ← (file.pages.zipIdx).mapM fun page => do
    return pageParts (pageText page.1) (page.2 + 1) (← file.tables page.2)
  return { parts := parts.flatten, pageCount := some file.pages.length }

def docxItemParts : DocxItem → List ExtractedPart
  | .paragraph text =>
    if (strip text).isEmpty then [] else [{ kind := .text, content := strip text }]
  | .table rows =>
    let serialized := markdownTable (rows.map (·.map some))
    if serialized.isEmpty then [] else [{ kind := .table, content := serialized }]

def DocxRelationship.isImage (rel : DocxRelationship) : Bool :=
  "image".toList <:+: rel.reltype.toList && !rel.isExternal

def docxExtract (file : DocxFile) : ExtractionResult where
  parts := file.body.flatMap docxItemParts ++
    (file.relationships.filter DocxRelationship.isImage).map fun rel =>
      { kind := .image, imageBytes := some rel.blob, mime := rel.contentType
        filename := afterLast '/' rel.partname }

/-- `_cell`. -/
def CellValue.text : CellValue → String
  | .empty => ""
  | .wholeFloat value => toString value
  | .other str => str

def rowHasText (row : List String) : Bool := row.any fun cell => !(strip cell).isEmpty

/-- The rows of a sheet without the empty ones at its end. -/
def Sheet.usedRows (sheet : Sheet) : List (List String) :=
  (sheet.rows.map (·.map CellValue.text)).rdropWhile fun row => !rowHasText row

def sheetParts (sheet : Sheet) : List ExtractedPart :=
  let rows := sheet.usedRows
  if rows.any rowHasText then
    let shown := if maxRowsPerSheet < rows.length then
      rows.take maxRowsPerSheet ++ [["…truncated"]] else rows
    [{ kind := .table
       content := "### Sheet: " ++ sheet.title ++ "\n\n" ++
        markdownTable (shown.map (·.map some)) }]
  else []

def xlsxExtract (sheets : List Sheet) : ExtractionResult where
  parts := sheets.flatMap sheetParts

/-- `image.extract`: one part, captioned by its EXIF description. -/
def imageExtract (file : StoredFile) (mime : String) : Except Exc ExtractionResult := do
  let outputMime := if mime = "image/png" then "image/png" else "image/jpeg"
  let bytes ← file.encoded outputMime
  return { parts :=
    [{ kind := .image, content := strip (file.exifDescription.getD ""), imageBytes := some bytes
       mime := outputMime, filename := file.name }] }

def textExtract (file : StoredFile) (mime : String) : Except Exc ExtractionResult := do
  let raw ← file.text
  if mime ∉ ["text/csv", "application/csv"] then
    return { parts := [{ kind := .text, content := raw }] }
  else
    let rows ← file.csvRows raw
    return { parts := [{ kind := .table, content := markdownTable (rows.map (·.map some)) }] }

def docxMime : String := "application/vnd.openxmlformats-officedocument.wordprocessingml.document"
def xlsxMime : String := "application/vnd.openxmlformats-officedocument.spreadsheetml.sheet"

def capContent (part : ExtractedPart) : ExtractedPart :=
  if part.content.length ≤ maxContentChars then part
  else
    { part with
      content := String.ofList (part.content.toList.take maxContentChars) ++
        "\n\n[content truncated at " ++ toString maxContentChars ++ " characters]" }

/-- The extractor that a mime type selects; ValueError for unsupported types. -/
def extractor (file : StoredFile) (mime : String) : Except Exc ExtractionResult :=
  if mime = "application/pdf" then do pdfExtract (← file.pdf)
  else if mime = docxMime then do return docxExtract (← file.docx)
  else if mime = xlsxMime then do return xlsxExtract (← file.xlsx)
  else if mime ∈ ["image/png", "image/jpeg"] then imageExtract file mime
  else if mime ∈ ["text/plain", "text/markdown", "text/csv", "application/csv"] then
    textExtract file mime
  else .error { isValueError := true, message := "unsupported type: " ++ mime }

def extract (file : StoredFile) (mime : String) : Except Exc ExtractionResult := do
  let result ← extractor file mime
  return { result with parts := (result.parts.map capContent).take maxParts }

def isBlank (text : String) : Bool := text.toList.all isSpace

/-- Some page has a character that is no white space, or a table that is not skipped. -/
def PdfFile.hasContent (file : PdfFile) : Bool :=
  file.pages.zipIdx.any fun page =>
    !isBlank (pageText page.1) ||
      ((file.tables page.2).toOption.getD []).any fun rows =>
        !rows.isEmpty && !isDuplicateTable rows (pageText page.1)

def DocxItem.hasContent : DocxItem → Bool
  | .paragraph text => !isBlank text
  | .table rows => !rows.isEmpty

def DocxFile.hasContent (file : DocxFile) : Bool :=
  file.body.any DocxItem.hasContent || file.relationships.any DocxRelationship.isImage

def Sheet.hasContent (sheet : Sheet) : Bool :=
  sheet.rows.any fun row => row.any fun cell => !isBlank cell.text

/-- What a PDF, a DOCX and an XLSX need to have a part. An image and a text file always have one. -/
def StoredFile.hasContent (file : StoredFile) (mime : String) : Bool :=
  if mime = "application/pdf" then file.pdf.toOption.any PdfFile.hasContent
  else if mime = docxMime then file.docx.toOption.any DocxFile.hasContent
  else if mime = xlsxMime then file.xlsx.toOption.any fun sheets => sheets.any Sheet.hasContent
  else true

theorem strip_isEmpty {text : String} : (strip text).isEmpty = isBlank text := by
  rw [Bool.eq_iff_iff, String.isEmpty_iff, strip_eq_empty, isBlank]

theorem normalize_isEmpty {text : String} : (normalize (some text)).isEmpty = isBlank text := by
  rw [Bool.eq_iff_iff, String.isEmpty_iff, isBlank, ← split_eq_nil, normalize, collapse]
  change " ".intercalate (split text) = "" ↔ _
  constructor
  · intro h
    by_contra hne
    obtain ⟨word, words, hwords⟩ := List.exists_cons_of_ne_nil hne
    have hword : word.toList ≠ [] := by
      have hmem : word ∈ split text := hwords ▸ List.mem_cons_self
      simp only [split, List.mem_map, List.mem_filter] at hmem
      obtain ⟨cs, ⟨-, hcs⟩, rfl⟩ := hmem
      simpa using hcs
    rw [hwords] at h
    cases words with
    | nil =>
      rw [String.intercalate_singleton] at h
      exact hword (by rw [h]; rfl)
    | cons next rest =>
      rw [String.intercalate_cons_cons] at h
      have hlist := congrArg String.toList h
      simp at hlist
  · rintro h
    rw [h]
    rfl

theorem markdownTable_isEmpty (rows : Rows) : (markdownTable rows).isEmpty = rows.isEmpty := by
  cases rows with
  | nil => rfl
  | cons header rows =>
    have hne : markdownTable (header :: rows) ≠ "" := by
      rw [markdownTable, String.intercalate_cons_cons]
      intro h
      have hlist := congrArg String.toList h
      simp at hlist
    simp [hne]

theorem any_eq_of_forall₂ {α β : Type} {p : α → Bool} {q : β → Bool} {xs : List α} {ys : List β}
    (h : List.Forall₂ (fun x y => q y = p x) xs ys) : ys.any q = xs.any p := by
  induction h with
  | nil => rfl
  | cons hxy _ ih => rw [List.any_cons, List.any_cons, hxy, ih]

theorem isEmpty_flatten {α : Type} (parts : List (List α)) :
    (!parts.flatten.isEmpty) = parts.any (!·.isEmpty) := by
  induction parts with
  | nil => rfl
  | cons first rest ih => cases first <;> simp_all

theorem pageParts_isEmpty (text : String) (number : ℕ) (tables : List Rows) :
    (!(pageParts text number tables).isEmpty) = (!isBlank text ||
      tables.any fun rows => !rows.isEmpty && !isDuplicateTable rows text) := by
  have hkept : (!(tables.filter (keepsTable text)).isEmpty) =
      tables.any fun rows => !rows.isEmpty && !isDuplicateTable rows text := by
    induction tables with
    | nil => rfl
    | cons rows tables ih =>
      cases hrows : keepsTable text rows with
      | true =>
        rw [List.filter_cons_of_pos hrows, List.any_cons]
        rw [keepsTable, markdownTable_isEmpty] at hrows
        simp [hrows]
      | false =>
        rw [List.filter_cons_of_neg (by simp [hrows]), ih, List.any_cons]
        rw [keepsTable, markdownTable_isEmpty] at hrows
        simp [hrows]
  rw [← hkept, pageParts, normalize_isEmpty]
  cases isBlank text <;> simp

theorem pdfExtract_hasContent {file : PdfFile} {result : ExtractionResult}
    (h : pdfExtract file = .ok result) : (!result.parts.isEmpty) = file.hasContent := by
  obtain ⟨parts, hparts, h⟩ := bind_ok h
  obtain rfl := Except.ok.inj h
  rw [isEmpty_flatten, PdfFile.hasContent]
  refine any_eq_of_forall₂ ((forall₂_of_mapM_ok hparts).imp fun page pageParts hpage => ?_)
  obtain ⟨tables, htables, hpage⟩ := bind_ok hpage
  obtain rfl := Except.ok.inj hpage
  rw [pageParts_isEmpty, htables]
  rfl

theorem docxExtract_hasContent (file : DocxFile) :
    (!(docxExtract file).parts.isEmpty) = file.hasContent := by
  have hitem (item : DocxItem) : (!(docxItemParts item).isEmpty) = item.hasContent := by
    cases item with
    | paragraph text =>
      rw [docxItemParts, strip_isEmpty, DocxItem.hasContent]
      cases isBlank text <;> rfl
    | table rows => cases rows <;> simp [docxItemParts, markdownTable_isEmpty, DocxItem.hasContent]
  have hbody : (!(file.body.flatMap docxItemParts).isEmpty) =
      file.body.any DocxItem.hasContent := by
    rw [List.flatMap, isEmpty_flatten, List.any_map]
    exact congrArg file.body.any (funext hitem)
  have himages : (!(file.relationships.filter DocxRelationship.isImage).isEmpty) =
      file.relationships.any DocxRelationship.isImage := by
    rw [Bool.eq_iff_iff]
    simp [List.filter_eq_nil_iff]
  rw [DocxFile.hasContent, ← hbody, ← himages, docxExtract, Bool.eq_iff_iff]
  simp only [Bool.not_eq_true', Bool.or_eq_true, ← Bool.not_eq_true, List.isEmpty_iff,
    List.append_eq_nil_iff, List.map_eq_nil_iff]
  tauto

theorem any_rdropWhile {α : Type} (p : α → Bool) (rows : List α) :
    (rows.rdropWhile fun row => !p row).any p = rows.any p := by
  induction rows using List.reverseRecOn with
  | nil => rfl
  | append_singleton rows row ih =>
    cases hrow : p row with
    | true => rw [List.rdropWhile_concat_neg _ _ _ (by simp [hrow])]
    | false =>
      rw [List.rdropWhile_concat_pos _ _ _ (by simp [hrow]), ih]
      simp [hrow]

theorem xlsxExtract_hasContent (sheets : List Sheet) :
    (!(xlsxExtract sheets).parts.isEmpty) = sheets.any Sheet.hasContent := by
  have hsheet (sheet : Sheet) : (!(sheetParts sheet).isEmpty) = sheet.hasContent := by
    have hany : sheet.usedRows.any rowHasText = sheet.hasContent := by
      rw [Sheet.usedRows, any_rdropWhile, List.any_map, Sheet.hasContent]
      refine congrArg sheet.rows.any (funext fun row => ?_)
      simp only [Function.comp_apply, rowHasText, List.any_map, strip_isEmpty]
      rfl
    rw [← hany, sheetParts]
    split_ifs with h <;> simp [h]
  rw [xlsxExtract, List.flatMap, isEmpty_flatten, List.any_map]
  exact congrArg sheets.any (funext hsheet)

theorem imageExtract_nonempty {file : StoredFile} {mime : String} {result : ExtractionResult}
    (h : imageExtract file mime = .ok result) : (!result.parts.isEmpty) = true := by
  obtain ⟨bytes, -, h⟩ := bind_ok h
  obtain rfl := Except.ok.inj h
  rfl

theorem textExtract_nonempty {file : StoredFile} {mime : String} {result : ExtractionResult}
    (h : textExtract file mime = .ok result) : (!result.parts.isEmpty) = true := by
  obtain ⟨raw, -, h⟩ := bind_ok h
  split at h
  · obtain rfl := Except.ok.inj h
    rfl
  · obtain ⟨rows, -, h⟩ := bind_ok h
    obtain rfl := Except.ok.inj h
    rfl

theorem extractor_hasContent {file : StoredFile} {mime : String} {result : ExtractionResult}
    (h : extractor file mime = .ok result) :
    (!result.parts.isEmpty) = file.hasContent mime := by
  unfold extractor at h
  unfold StoredFile.hasContent
  split_ifs at h ⊢ with hpdf hdocx hxlsx himage htext
  · obtain ⟨pdf, hread, h⟩ := bind_ok h
    rw [hread, pdfExtract_hasContent h]
    rfl
  · obtain ⟨docx, hread, h⟩ := bind_ok h
    obtain rfl := Except.ok.inj h
    rw [hread, docxExtract_hasContent]
    rfl
  · obtain ⟨sheets, hread, h⟩ := bind_ok h
    obtain rfl := Except.ok.inj h
    rw [hread, xlsxExtract_hasContent]
    rfl
  · exact imageExtract_nonempty h
  · exact textExtract_nonempty h

/-- An extraction yields a part exactly when the file has something to extract. -/
theorem extract_parts_ne_nil_iff {file : StoredFile} {mime : String} {result : ExtractionResult}
    (h : extract file mime = .ok result) : result.parts ≠ [] ↔ file.hasContent mime = true := by
  obtain ⟨read, hread, h⟩ := bind_ok h
  obtain rfl := Except.ok.inj h
  rw [← extractor_hasContent hread]
  cases read.parts <;> simp [maxParts]

end Docsage
