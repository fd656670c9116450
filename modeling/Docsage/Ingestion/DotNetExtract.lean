import Docsage.Ingestion.CsvParity

/-! # The extractors of .NET

What OpenXml, ClosedXML and PdfPig read from a file is given; which parts it becomes
is decided here. The dispatcher leaves no document without a part.
-/

namespace Docsage.DotNet
open Text

def appendRow (platform : Platform) (cells : List Utf16) : Utf16 :=
  pipeRow cells ++ platform.newLine

def appendSeparator (platform : Platform) (columnCount : ℕ) : Utf16 :=
  appendRow platform (List.replicate (max 1 columnCount) (utf16 "---"))

/-- An element of a DOCX body. A blip may have no target, a target that is no image, or one whose
id the package does not know. -/
inductive BodyElement where
  | paragraph (blips : List (Except Exc (Option Utf16))) (innerText : Utf16)
  | table (rows : List (List Utf16))
  | other

/-- A worksheet with the cells of its used range, if it has one. -/
structure Worksheet where
  name : Utf16
  used : Option (List (List Utf16))

/-- What each reader makes of one stored file. -/
structure StoredFile where
  name : Utf16
  bytes : Except Exc (List UInt8)
  text : Except Exc Utf16
  docx : Except Exc (List BodyElement)
  xlsx : Except Exc (List Worksheet)
  pdf : Except Exc (List Utf16)

def captionPending (filename : Utf16) : Utf16 :=
  utf16 "[image: " ++ filename ++ utf16 " — caption pending]"

def imagePart (filename : Utf16) : ExtractedPart where
  kind := .imageDescription
  content := captionPending filename
  imageName := some filename

def lastSegment (uri : Utf16) : Utf16 := (uri.splitOnP (· == 0x2F)).getLast?.getD []

def imageExtract (file : StoredFile) : Except Exc (List ExtractedPart) := do
  let _ ← file.bytes
  return [imagePart file.name]

def tableToMarkdown (platform : Platform) (rows : List (List Utf16)) : Utf16 :=
  match (rows.map (·.map fun cell => escapePipes (trimUnits cell))).filter (0 < ·.length) with
  | [] => []
  | header :: rest =>
    appendRow platform header ++ appendSeparator platform header.length ++
      (rest.map (appendRow platform)).flatten

def bodyParts (platform : Platform) : BodyElement → Except Exc (List ExtractedPart)
  | .paragraph blips innerText => do
    let targets ← blips.mapM id
    let images := (targets.filterMap id).map fun uri => imagePart (lastSegment uri)
    let text := trimUnits innerText
    return images ++ if text.length > 0 then [{ kind := .text, content := text }] else []
  | .table rows =>
    let markdown := tableToMarkdown platform rows
    .ok (if markdown.length > 0 then [{ kind := .table, content := markdown }] else [])
  | .other => .ok []

def docxExtract (platform : Platform) (body : List BodyElement) :
    Except Exc (List ExtractedPart) := do
  return (← body.mapM (bodyParts platform)).flatten

/-- The rows of a used range; the separator stands behind the first. -/
def rangeRows (platform : Platform) (columnCount : ℕ) : List (List Utf16) → Utf16
  | [] => []
  | header :: rows =>
    appendRow platform (header.map escapePipes) ++ appendSeparator platform columnCount ++
      (rows.map fun row => appendRow platform (row.map escapePipes)).flatten

def xlsxExtract (platform : Platform) (sheets : List Worksheet) : List ExtractedPart :=
  sheets.filterMap fun sheet => sheet.used.map fun rows =>
    { kind := .table
      content := utf16 "Sheet: " ++ sheet.name ++ platform.newLine ++ platform.newLine ++
        rangeRows platform ((rows.head?.map List.length).getD 0) rows }

def extractor? (platform : Platform) (file : StoredFile) (mimeType : String) :
    Option (Except Exc (List ExtractedPart)) :=
  if mimeType ∈ ["text/plain", "text/markdown", "text/csv"] then
    some (do return textExtract (← file.text) mimeType)
  else if mimeType ∈ ["image/png", "image/jpeg"] then some (imageExtract file)
  else if mimeType = docxMime then some (do docxExtract platform (← file.docx))
  else if mimeType = xlsxMime then some (do return xlsxExtract platform (← file.xlsx))
  else if mimeType = "application/pdf" then some (do return pdfExtract platform (← file.pdf))
  else none

/-- `ExtractorDispatcher.ExtractAsync`. -/
def dispatch (platform : Platform) (file : StoredFile) (mimeType : String) :
    Except Exc (List ExtractedPart) :=
  match extractor? platform file mimeType with
  | none => .ok
      [{ kind := .text, content := utf16 "[unsupported file type " ++ utf16 mimeType ++ utf16 "]" }]
  | some extracted => do
    let parts ← extracted
    return if parts.length > 0 then parts
      else [{ kind := .text, content := utf16 "[empty document]" }]

theorem dispatch_ne_nil {platform : Platform} {file : StoredFile} {mimeType : String}
    {parts : List ExtractedPart} (h : dispatch platform file mimeType = .ok parts) :
    parts ≠ [] := by
  unfold dispatch at h
  split at h
  · obtain rfl := Except.ok.inj h
    exact List.cons_ne_nil _ _
  · obtain ⟨found, -, h⟩ := Effects.bind_ok h
    obtain rfl := Except.ok.inj h
    split
    · exact List.length_pos_iff.mp ‹_›
    · exact List.cons_ne_nil _ _

end Docsage.DotNet
