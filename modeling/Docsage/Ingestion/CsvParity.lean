import Docsage.Ingestion.CsvTables
import Docsage.Ingestion.PdfLines

/-! # CSV files in the two backends

`TextExtractor` cuts a file at its newlines and commas and trims what is between them.
`csv.reader` reads the same table where nothing is quoted, blank or padded.
-/

namespace Docsage
open Effects Recoding Text

namespace DotNet

/-- `File.ReadAllTextAsync` on a UTF-8 file; a byte order mark at its start is skipped. -/
def readAllText (data : List UInt8) : Utf16 :=
  let decoded := Utf8.decode {} (if [0xEF, 0xBB, 0xBF] <+: data then data.drop 3 else data)
  (decoded.1 ++ Utf8.flush decoded.2).flatMap unitsOfChar

/-- `Split('\n', StringSplitOptions.RemoveEmptyEntries | StringSplitOptions.TrimEntries)`. -/
def trimmedEntries (content : Utf16) : List Utf16 :=
  ((splitLines content).map trimUnits).filter fun line => !line.isEmpty

def csvCell (value : Utf16) : Utf16 :=
  escapePipes ((trimUnits value).map fun u => if u = 0x0A then 0x20 else u)

def csvRows (content : Utf16) : List (List Utf16) :=
  ((trimmedEntries content).map fun line => (line.splitOnP (· == 0x2C)).map csvCell).filter
    fun cells => 0 < cells.length

def markdownTable : List (List Utf16) → Utf16
  | [] => []
  | header :: rows =>
    joinLines (pipeRow header :: pipeRow (header.map fun _ => utf16 "---") :: rows.map pipeRow)

def textExtract (content : Utf16) (mimeType : String) : List ExtractedPart :=
  if mimeType ≠ "text/csv" then [{ kind := .text, content }]
  else [{ kind := .table, content := markdownTable (csvRows content) }]

end DotNet

/-- Both extractors make one table part of the file, with the same content. -/
def SameTable (file : StoredFile) (data : List UInt8) : Prop :=
  ∃ content, textExtract (file.withData data) "text/csv" = .ok (tableResult content) ∧
    DotNet.textExtract (DotNet.readAllText data) "text/csv" =
      [{ kind := .table, content := utf16 content }]

def withoutMark (text : List Char) : List Char :=
  if text.head? = some '\uFEFF' then text.tail else text

def trimChars (text : List Char) : List Char := dropAround isWhiteSpace text

def entries (text : List Char) : List (List Char) :=
  ((text.splitOnP (· == '\n')).map trimChars).filter fun line => !line.isEmpty

def entryRows (text : List Char) : List Csv.Row :=
  (entries text).map fun line => (Csv.pieces line).map trimChars

section

theorem readAllText_encode (text : List Char) :
    DotNet.readAllText (Utf8.encode text) = (withoutMark text).flatMap unitsOfChar := by
  have hmark : Utf8.encodeChar '\uFEFF' = [0xEF, 0xBB, 0xBF] := by decide
  have hdecode (text : List Char) : (Utf8.decode {} (Utf8.encode text)).1 ++
      Utf8.flush (Utf8.decode {} (Utf8.encode text)).2 = text := by
    rw [Utf8.decode_encode]
    exact List.append_nil text
  rw [DotNet.readAllText, withoutMark]
  by_cases hhead : text.head? = some '\uFEFF'
  · obtain ⟨rest, rfl⟩ := List.head?_eq_some_iff.mp hhead
    have hdata : Utf8.encode ('\uFEFF' :: rest) = [0xEF, 0xBB, 0xBF] ++ Utf8.encode rest := by
      rw [← hmark]
      rfl
    rw [hdata, if_pos (List.prefix_append _ _), if_pos hhead]
    exact congrArg (List.flatMap unitsOfChar) (hdecode rest)
  · have hbytes : ¬ [0xEF, 0xBB, 0xBF] <+: Utf8.encode text := by
      rintro ⟨rest, hrest⟩
      have htext := congrArg (fun data => (Utf8.decode {} data).1) hrest
      rw [← hmark] at htext
      simp only [Utf8.decode_encodeChar, Utf8.decode_encode] at htext
      exact hhead (by rw [← htext]; rfl)
    rw [if_neg hbytes, if_neg hhead]
    exact congrArg (List.flatMap unitsOfChar) (hdecode text)

theorem reads_newline : Reads unitsOfChar (· == '\n') (· == 0x0A) :=
  reads_char '\n' (by decide) (by decide)

theorem reads_comma : Reads unitsOfChar (· == ',') (· == 0x2C) :=
  reads_char ',' (by decide) (by decide)

theorem reads_pipe : Reads unitsOfChar (· == '|') (· == 0x7C) :=
  reads_char '|' (by decide) (by decide)

theorem flatMap_units_isEmpty (text : List Char) :
    (text.flatMap unitsOfChar).isEmpty = text.isEmpty := by
  cases text with
  | nil => rfl
  | cons c text => simp [unitsOfChar_ne_nil]

theorem DotNet.trimmedEntries_units (text : List Char) :
    DotNet.trimmedEntries (text.flatMap unitsOfChar) =
      (entries text).map (List.flatMap unitsOfChar) := by
  have htrim : ((text.splitOnP (· == '\n')).map (List.flatMap unitsOfChar)).map trimUnits =
      ((text.splitOnP (· == '\n')).map trimChars).map (List.flatMap unitsOfChar) := by
    rw [List.map_map, List.map_map]
    exact List.map_congr_left fun line _ => trimUnits_flatMap line
  rw [DotNet.trimmedEntries, DotNet.splitLines, reads_newline.splitOnP, htrim, entries,
    List.filter_map]
  refine congrArg (List.map (List.flatMap unitsOfChar)) (List.filter_congr fun line _ => ?_)
  exact congrArg not (flatMap_units_isEmpty line)

theorem escapePipes_units (cell : List Char) :
    DotNet.escapePipes (cell.flatMap unitsOfChar) = (escapePipe cell).flatMap unitsOfChar := by
  rw [DotNet.escapePipes, escapePipe, List.flatMap_assoc, List.flatMap_assoc]
  refine List.flatMap_congr fun c _ => ?_
  by_cases hc : c = '|'
  · rw [hc]
    rfl
  · have hunits : ∀ u ∈ unitsOfChar c, (if u = 0x7C then [0x5C, 0x7C] else [u]) = [u] := by
      intro u hu
      exact if_neg (by simpa using reads_pipe.2 c (beq_false_of_ne hc) u hu)
    rw [List.flatMap_congr hunits, if_neg hc, List.flatMap_singleton']
    simp

theorem csvCell_units (cell : List Char) : DotNet.csvCell (cell.flatMap unitsOfChar) =
    (escapePipe (spaced (trimChars cell))).flatMap unitsOfChar := by
  rw [DotNet.csvCell, trimUnits_flatMap, ← escapePipes_units, spaced, List.map_flatMap,
    List.flatMap_map]
  refine congrArg DotNet.escapePipes (List.flatMap_congr fun c _ => ?_)
  by_cases hc : c = '\n'
  · rw [hc]
    rfl
  · have hunits : ∀ u ∈ unitsOfChar c, (if u = 0x0A then 0x20 else u) = u := by
      intro u hu
      exact if_neg (by simpa using reads_newline.2 c (beq_false_of_ne hc) u hu)
    rw [List.map_congr_left hunits, List.map_id', if_neg hc]

theorem DotNet.csvRows_units (text : List Char) : DotNet.csvRows (text.flatMap unitsOfChar) =
    (entryRows text).map fun row => row.map fun cell =>
      (escapePipe (spaced cell)).flatMap unitsOfChar := by
  have hrow (line : List Char) :
      ((line.flatMap unitsOfChar).splitOnP (· == 0x2C)).map DotNet.csvCell =
        ((Csv.pieces line).map trimChars).map fun cell =>
          (escapePipe (spaced cell)).flatMap unitsOfChar := by
    rw [reads_comma.splitOnP, Csv.pieces, List.map_map, List.map_map]
    exact List.map_congr_left fun cell _ => csvCell_units cell
  have hkept : ∀ cells ∈ (entryRows text).map fun row => row.map fun cell =>
      (escapePipe (spaced cell)).flatMap unitsOfChar, 0 < cells.length := by
    intro cells hcells
    obtain ⟨row, hrow, rfl⟩ := List.mem_map.mp hcells
    obtain ⟨line, -, rfl⟩ := List.mem_map.mp hrow
    have hne : Csv.pieces line ≠ [] := List.splitOnP_ne_nil _ line
    simpa [List.length_pos_iff] using hne
  rw [DotNet.csvRows, DotNet.trimmedEntries_units, List.map_map]
  have hrows : (entries text).map ((fun line => (line.splitOnP (· == 0x2C)).map DotNet.csvCell) ∘
      List.flatMap unitsOfChar) = (entryRows text).map fun row => row.map fun cell =>
        (escapePipe (spaced cell)).flatMap unitsOfChar := by
    rw [entryRows, List.map_map]
    exact List.map_congr_left fun line _ => hrow line
  rw [hrows, List.filter_eq_self.mpr fun cells hcells => decide_eq_true (hkept cells hcells)]

theorem utf16_tableLine (cells : List String) :
    utf16 (tableLine cells) = DotNet.pipeRow (cells.map utf16) := by
  rw [tableLine, utf16_append, utf16_append, utf16_intercalate]
  rfl

theorem DotNet.markdownTable_units (rows : List Csv.Row) :
    DotNet.markdownTable (rows.map fun row => row.map fun cell =>
      (escapePipe (spaced cell)).flatMap unitsOfChar) = utf16 (tableText rows) := by
  have hcell (cell : List Char) : utf16 (tableCell (some (String.ofList cell))) =
      (escapePipe (spaced cell)).flatMap unitsOfChar := by
    rw [utf16, tableCell_toList]
  have hline (row : Csv.Row) :
      utf16 (tableLine (((row.map String.ofList).map some).map tableCell)) =
        DotNet.pipeRow (row.map fun cell => (escapePipe (spaced cell)).flatMap unitsOfChar) := by
    simp only [utf16_tableLine, List.map_map, Function.comp_def, hcell]
  have hrule (row : Csv.Row) :
      utf16 (tableLine (((row.map String.ofList).map some).map fun _ => "---")) =
        DotNet.pipeRow ((row.map fun cell => (escapePipe (spaced cell)).flatMap unitsOfChar).map
          fun _ => utf16 "---") := by
    simp only [utf16_tableLine, List.map_map, Function.comp_def]
  have hlines (rows : List Csv.Row) : ((((rows.map (·.map String.ofList)).map (·.map some)).map
      fun row => tableLine (row.map tableCell)).map utf16) =
        (rows.map fun row => row.map fun cell => (escapePipe (spaced cell)).flatMap unitsOfChar).map
          DotNet.pipeRow := by
    rw [List.map_map, List.map_map, List.map_map, List.map_map]
    refine List.map_congr_left fun row _ => ?_
    simp only [Function.comp_apply, hline]
  cases rows with
  | nil => rfl
  | cons header rows =>
    have htable := congrArg utf16 (tableText_cons header rows)
    rw [utf16_intercalate, List.map_cons, List.map_cons, hline, hrule, hlines] at htable
    rw [htable]
    rfl

theorem DotNet.textExtract_csv (text : List Char) :
    DotNet.textExtract (DotNet.readAllText (Utf8.encode text)) "text/csv" =
      [{ kind := .table, content := utf16 (tableText (entryRows (withoutMark text))) }] := by
  rw [DotNet.textExtract, if_neg (by simp), readAllText_encode, DotNet.csvRows_units,
    DotNet.markdownTable_units]

variable {file : StoredFile} {text line : List Char} {rows : List Csv.Row}

theorem mem_entries (h : line ∈ entries text) :
    trimChars line = line ∧ line ≠ [] ∧ '\n' ∉ line := by
  obtain ⟨hline, hne⟩ := List.mem_filter.mp h
  obtain ⟨piece, hpiece, rfl⟩ := List.mem_map.mp hline
  refine ⟨dropAround_dropAround _ _, by simpa using hne, fun hmem => ?_⟩
  have hnewline := Fields.mem_splitOnP hpiece _ ((dropAround_sublist _ _).subset hmem)
  cases hnewline

theorem entryRows_proper {row : Csv.Row} (h : row ∈ entryRows text) :
    (row ≠ [] ∧ row ≠ [[]]) ∧ ∀ cell ∈ row, trimChars cell = cell ∧ '\n' ∉ cell := by
  obtain ⟨line, hline, rfl⟩ := List.mem_map.mp h
  obtain ⟨htrim, hne, hnewline⟩ := mem_entries hline
  obtain ⟨piece, pieces, hpieces⟩ := List.exists_cons_of_ne_nil
    (List.splitOnP_ne_nil (· == ',') line)
  refine ⟨⟨?_, fun hblank => hne ?_⟩, List.forall_mem_map.mpr fun piece hpiece => ⟨?_, ?_⟩⟩
  · rw [Csv.pieces, hpieces]
    exact List.cons_ne_nil _ _
  · rw [Csv.pieces, hpieces, List.map_cons, List.cons_eq_cons, List.map_eq_nil_iff] at hblank
    obtain ⟨hpiece, rfl⟩ := hblank
    have hjoin := Csv.intercalate_pieces line
    rw [Csv.pieces, hpieces, List.intercalate_singleton] at hjoin
    rw [← htrim, ← hjoin, hpiece]
  · exact dropAround_dropAround _ _
  · intro hmem
    exact hnewline (Fields.splitOnP_subset hpiece _ ((dropAround_sublist _ _).subset hmem))

theorem sameTable_iff_rows : SameTable file (Utf8.encode text) ↔
    Csv.records fieldSizeLimit {} (splitlines text) = .ok (entryRows (withoutMark text)) := by
  rw [SameTable]
  constructor
  · rintro ⟨content, hextract, hport⟩
    obtain ⟨rows, hrows, rfl⟩ := textExtract_csv.mp hextract
    rw [DotNet.textExtract_csv, List.singleton_inj] at hport
    have hcontent := utf16_injective (congrArg DotNet.ExtractedPart.content hport)
    have hfree : ∀ row ∈ rows, ∀ cell ∈ row, '\n' ∉ cell := by
      intro row hrow cell hcell hmem
      have hflat : '\n' ∈ rows.flatten.flatten :=
        List.mem_flatten.mpr ⟨cell, List.mem_flatten.mpr ⟨row, hrow, hcell⟩, hmem⟩
      obtain ⟨line, hline, hin⟩ := List.mem_flatten.mp ((Csv.records_sublist hrows).subset hflat)
      have hboundary := mem_splitlines hline _ hin
      cases hboundary
    rw [hrows, rows_eq_of_tableText hcontent.symm hfree
      (fun row hrow cell hcell => ((entryRows_proper hrow).2 cell hcell).2)
      fun row hrow => (entryRows_proper hrow).1]
  · intro hrows
    exact ⟨_, textExtract_csv.mpr ⟨_, hrows, rfl⟩, DotNet.textExtract_csv text⟩

theorem trimChars_concat {c : Char} (h : isWhiteSpace c = true) (text : List Char) :
    trimChars (text ++ [c]) = trimChars text := dropAround_concat h text

theorem entries_joinReturns (text : List Char) : entries (joinReturns text) = entries text := by
  have htrim : ((joinReturns text).splitOnP (· == '\n')).map trimChars =
      (text.splitOnP (· == '\n')).map trimChars := by
    have hlines := splitOnP_joinReturns text
    revert hlines
    generalize (joinReturns text).splitOnP (· == '\n') = joined
    generalize text.splitOnP (· == '\n') = lines
    intro hlines
    induction hlines with
    | nil => rfl
    | cons hline _ ih =>
      rw [List.map_cons, List.map_cons, ih]
      rcases hline with rfl | rfl
      · rfl
      · rw [trimChars_concat rfl]
  rw [entries, htrim, entries]

theorem entries_concat {c : Char} (h : isWhiteSpace c = true) (text : List Char) :
    entries (text ++ [c]) = entries text := by
  by_cases hc : c = '\n'
  · rw [hc, entries, List.splitOnP_append_cons _ _ rfl, List.map_append, List.filter_append]
    simp [entries, trimChars, dropAround]
  · obtain ⟨fields, field, hbefore, hafter⟩ :=
      @Fields.splitOnP_concat _ (· == '\n') c (beq_false_of_ne hc) text
    rw [entries, entries, hbefore, hafter, List.map_append, List.map_append, List.map_singleton,
      List.map_singleton, trimChars_concat h]

theorem length_entries_le (before : List Char) (c : Char) :
    (entries (before ++ [c])).length ≤ before.countP (· == '\n') + 1 := by
  have hle (text : List Char) : (entries text).length ≤ text.countP (· == '\n') + 1 := by
    rw [← Fields.length_splitOnP]
    exact (List.length_filter_le _ _).trans (List.length_map _).le
  by_cases hc : c = '\n'
  · rw [hc, entries_concat rfl]
    exact hle before
  · have hcount := hle (before ++ [c])
    rw [List.countP_append] at hcount
    simpa [hc] using hcount

theorem count_flatten_map {g : List Char → List Char} {lines : List (List Char)} {c : Char}
    (h : ∀ line, (g line).count c = line.count c) :
    (lines.map g).flatten.count c = lines.flatten.count c := by
  rw [List.count_flatten, List.count_flatten, List.map_map]
  exact congrArg List.sum (List.map_congr_left fun line _ => h line)

theorem count_pieces {c : Char} (comma : c ≠ ',') (line : List Char) :
    (Csv.pieces line).flatten.count c = line.count c := by
  rw [Csv.pieces, Fields.flatten_splitOnP, List.count_filter (by simpa using comma)]

theorem count_trimChars {c : Char} (space : isWhiteSpace c = false) (text : List Char) :
    (trimChars text).count c = text.count c := count_dropAround space text

/-- Only white space and commas are lost in the rows. -/
theorem count_entryRows {c : Char} (space : isWhiteSpace c = false) (comma : c ≠ ',') :
    (entryRows text).flatten.flatten.count c = text.count c := by
  have hnewline : c ≠ '\n' := by
    rintro rfl
    cases space
  have hrow (line : List Char) :
      ((Csv.pieces line).map trimChars).flatten.count c = line.count c := by
    rw [count_flatten_map (count_trimChars space), count_pieces comma]
  rw [List.flatten_flatten, entryRows, List.map_map]
  refine (count_flatten_map hrow).trans ?_
  rw [entries, List.flatten_filter_not_isEmpty,
    count_flatten_map (count_trimChars space), Fields.flatten_splitOnP,
    List.count_filter (by simpa using hnewline)]

theorem trimChars_line (h : ∀ cell ∈ Csv.pieces line, trimChars cell = cell) :
    trimChars line = line := by
  refine dropAround_eq_self.mpr ⟨?_, ?_⟩
  · cases line with
    | nil => rfl
    | cons c rest =>
      by_cases hc : c = ','
      · rw [hc]
        rfl
      · obtain ⟨first, fields, hfields⟩ :=
          List.exists_cons_of_ne_nil (List.splitOnP_ne_nil (· == ',') rest)
        have hpieces : Csv.pieces (c :: rest) = (c :: first) :: fields := by
          rw [Csv.pieces, List.splitOnP_cons_eq_if_modifyHead, hfields,
            if_neg (by simpa using hc)]
          rfl
        have hfirst := h (c :: first) (by rw [hpieces]; exact List.mem_cons_self)
        simpa using (dropAround_eq_self.mp hfirst).1
  · obtain rfl | ⟨before, c, rfl⟩ := List.eq_nil_or_concat line
    · rfl
    · rw [List.concat_eq_append] at h ⊢
      by_cases hc : c = ','
      · rw [hc, List.getLast?_concat]
        rfl
      · obtain ⟨fields, field, -, hfields⟩ :=
          @Fields.splitOnP_concat _ (· == ',') c (beq_false_of_ne hc) before
        have hlast := h (field ++ [c]) (by rw [Csv.pieces, hfields]; simp)
        simpa using (dropAround_eq_self.mp hlast).2

/-- A file without quoted or padded cells, blank lines and other breaks than line ends. -/
structure CsvPlain (text : List Char) : Prop where
  unmarked : text.head? ≠ some '\uFEFF'
  breaks : ∀ c ∈ (joinReturns text).dropLast, isLineBoundary c = true → c = '\n'
  ending : ∀ c ∈ (joinReturns text).getLast?, isLineBoundary c = true → isWhiteSpace c = true
  lines : [] ∉ splitlines text
  cells : ∀ line ∈ splitlines text, ∀ cell ∈ Csv.pieces line,
    trimChars cell = cell ∧ cell.head? ≠ some '"' ∧ cell.length ≤ fieldSizeLimit

/-- The table of a file without quotes: its lines, cut at the commas. -/
def csvTable (text : List Char) : String := tableText ((splitlines text).map Csv.plainRow)

theorem CsvPlain.entries_eq (plain : CsvPlain text) : entries text = splitlines text := by
  have hself (lines : List (List Char)) (hlines : splitlines text = lines) :
      (lines.map trimChars).filter (fun line => !line.isEmpty) = lines := by
    refine (Fields.filter_map_eq_self fun line hline => ?_).mpr fun line hline => ?_
    · have hne : line ≠ [] := fun hnil => plain.lines (hlines ▸ hnil ▸ hline)
      simpa using hne
    · exact trimChars_line fun cell hcell => (plain.cells line (hlines ▸ hline) cell hcell).1
  obtain hnil | ⟨before, c, hc⟩ := List.eq_nil_or_concat (joinReturns text)
  · rw [joinReturns_eq_nil.mp hnil]
    rfl
  · rw [List.concat_eq_append] at hc
    have hbreaks : ∀ d ∈ before, isLineBoundary d = (d == '\n') := by
      refine fun d hd => boundary_eq_newline (plain.breaks d ?_)
      rw [hc, List.dropLast_concat]
      exact hd
    rw [← entries_joinReturns, hc]
    cases hboundary : isLineBoundary c with
    | true =>
      have hspace := plain.ending c (by rw [hc, List.getLast?_concat]; rfl) hboundary
      have hlines := splitlines_of_boundary hc hboundary
      rw [entries_concat hspace, hlines, entries, ← Fields.splitOnP_congr hbreaks]
      exact hself _ hlines
    | false =>
      have hlines := splitlines_of_open hc hboundary
      have hclass : ∀ d ∈ before ++ [c], isLineBoundary d = (d == '\n') := by
        refine List.forall_mem_append.mpr ⟨hbreaks, ?_⟩
        intro d hd
        obtain rfl := List.mem_singleton.mp hd
        exact boundary_eq_newline fun htrue => by
          rw [hboundary] at htrue
          cases htrue
      rw [hc] at hlines
      rw [hlines, entries, ← Fields.splitOnP_congr hclass]
      exact hself _ hlines

theorem isNewline_of_splitlines (h : line ∈ splitlines text) :
    ∀ c ∈ line, Csv.isNewline c = false := by
  intro c hc
  have hboundary := mem_splitlines h c hc
  rw [Csv.isNewline, Bool.or_eq_false_iff]
  refine ⟨decide_eq_false ?_, decide_eq_false ?_⟩ <;>
  · rintro rfl
    cases hboundary

theorem CsvPlain.entryRows_eq (plain : CsvPlain text) :
    entryRows text = (splitlines text).map Csv.plainRow := by
  rw [entryRows, plain.entries_eq]
  refine List.map_congr_left fun line hline => ?_
  have hne : line ≠ [] := fun hnil => plain.lines (hnil ▸ hline)
  rw [Csv.plainRow, if_neg hne]
  exact (List.map_congr_left fun cell hcell => (plain.cells line hline cell hcell).1).trans
    (List.map_id _)

theorem CsvPlain.records_eq (plain : CsvPlain text) :
    Csv.records fieldSizeLimit {} (splitlines text) = .ok (entryRows (withoutMark text)) := by
  rw [withoutMark, if_neg plain.unmarked, plain.entryRows_eq,
    Csv.records_unquoted (fun line hline => isNewline_of_splitlines hline)
      fun line hline piece hpiece => (plain.cells line hline piece hpiece).2.1]
  exact (mapM_eq_ok_iff fun _ _ => Csv.readPlain_eq_ok).mpr
    ⟨rfl, fun line hline piece hpiece => (plain.cells line hline piece hpiece).2.2⟩

theorem count_plainRows {c : Char} (comma : c ≠ ',') (lines : List (List Char)) :
    (lines.map Csv.plainRow).flatten.flatten.count c = lines.flatten.count c := by
  have hrow (line : List Char) : (Csv.plainRow line).flatten.count c = line.count c := by
    rw [Csv.plainRow]
    split
    · next hline =>
      rw [hline]
      rfl
    · exact count_pieces comma line
  rw [List.flatten_flatten, List.map_map]
  exact count_flatten_map hrow

theorem count_withoutMark {c : Char} (mark : c ≠ '\uFEFF') :
    (withoutMark text).count c = text.count c := by
  rw [withoutMark]
  split
  · next hhead =>
    obtain ⟨rest, rfl⟩ := List.head?_eq_some_iff.mp hhead
    rw [List.tail_cons, List.count_cons_of_ne mark.symm]
  · rfl

/-- Where the rows agree no field is quoted: the .NET extractor keeps every quote. -/
theorem unquoted_of_records
    (h : Csv.records fieldSizeLimit {} (splitlines text) = .ok (entryRows (withoutMark text))) :
    ∀ line ∈ splitlines text, ∀ piece ∈ Csv.pieces line, piece.head? ≠ some '"' := by
  intro line hline piece hpiece hhead
  have hcount := Csv.count_quotes_lt (fun line hline => isNewline_of_splitlines hline)
    ⟨line, hline, piece, hpiece, hhead⟩ h
  rw [count_entryRows (by decide) (by decide), count_withoutMark (by decide),
    count_splitlines (by decide)] at hcount
  exact Nat.lt_irrefl _ hcount

theorem plainRows_of_records
    (h : Csv.records fieldSizeLimit {} (splitlines text) = .ok (entryRows (withoutMark text))) :
    entryRows (withoutMark text) = (splitlines text).map Csv.plainRow ∧
      ∀ line ∈ splitlines text, ∀ piece ∈ Csv.pieces line, piece.length ≤ fieldSizeLimit := by
  rw [Csv.records_unquoted (fun line hline => isNewline_of_splitlines hline)
    (unquoted_of_records h)] at h
  exact (mapM_eq_ok_iff fun _ _ => Csv.readPlain_eq_ok).mp h

/-- Only one of the two extractors skips a byte order mark. -/
theorem unmarked_of_rows (h : entryRows (withoutMark text) = (splitlines text).map Csv.plainRow) :
    text.head? ≠ some '\uFEFF' := by
  intro hhead
  have hcount := congrArg (fun rows => rows.flatten.flatten.count '\uFEFF') h
  beta_reduce at hcount
  rw [count_entryRows (by decide) (by decide), count_plainRows (by decide),
    count_splitlines (by decide), withoutMark, if_pos hhead] at hcount
  obtain ⟨rest, rfl⟩ := List.head?_eq_some_iff.mp hhead
  rw [List.tail_cons, List.count_cons_self] at hcount
  omega

/-- As many rows as lines: every break before the last character is a newline. -/
theorem breaks_of_rows {before : List Char} {c : Char} (hc : joinReturns text = before ++ [c])
    (h : entryRows text = (splitlines text).map Csv.plainRow) :
    ∀ d ∈ before, isLineBoundary d = true → d = '\n' := by
  have hlength := congrArg List.length h
  rw [entryRows, List.length_map, List.length_map, length_splitlines hc, ← entries_joinReturns,
    hc] at hlength
  have hle := length_entries_le before c
  rw [hlength] at hle
  have hsub (d : Char) (hd : (d == '\n') = true) : isLineBoundary d = true := by
    rw [eq_of_beq hd]
    rfl
  intro d hd hboundary
  exact eq_of_beq (Fields.imp_of_countP_le hsub (Nat.le_of_succ_le_succ hle) d hd hboundary)

/-- A boundary at the end is in no line, so it is trimmed away. -/
theorem ending_of_rows {before : List Char} {c : Char} (hc : joinReturns text = before ++ [c])
    (h : entryRows text = (splitlines text).map Csv.plainRow) (boundary : isLineBoundary c = true) :
    isWhiteSpace c = true := by
  by_contra hspace
  have hfalse : isWhiteSpace c = false := by simpa using hspace
  have hne (d : Char) (hd : isWhiteSpace d = true) : c ≠ d := by
    rintro rfl
    exact hspace hd
  have hcomma : c ≠ ',' := by
    rintro rfl
    cases boundary
  have hnone : (splitlines text).flatten.count c = 0 := List.count_eq_zero.mpr fun hmem => by
    obtain ⟨line, hline, hin⟩ := List.mem_flatten.mp hmem
    rw [mem_splitlines hline c hin] at boundary
    cases boundary
  have hcount := congrArg (fun rows => rows.flatten.flatten.count c) h
  beta_reduce at hcount
  rw [count_entryRows hfalse hcomma, count_plainRows hcomma, hnone,
    ← count_joinReturns (hne '\n' rfl) (hne '\r' rfl), hc, List.count_append,
    List.count_singleton_self] at hcount
  omega

theorem csvPlain_of_records
    (h : Csv.records fieldSizeLimit {} (splitlines text) = .ok (entryRows (withoutMark text))) :
    CsvPlain text := by
  obtain ⟨hrows, hfits⟩ := plainRows_of_records h
  have hunmarked := unmarked_of_rows hrows
  rw [withoutMark, if_neg hunmarked] at hrows
  have hmem (line : List Char) (hline : line ∈ splitlines text) :
      Csv.plainRow line ∈ entryRows text := hrows ▸ List.mem_map_of_mem hline
  have hlines : [] ∉ splitlines text := fun hnil => (entryRows_proper (hmem [] hnil)).1.1 rfl
  have hcells : ∀ line ∈ splitlines text, ∀ cell ∈ Csv.pieces line, trimChars cell = cell := by
    intro line hline cell hcell
    have hne : line ≠ [] := fun hnil => hlines (hnil ▸ hline)
    have hrow : Csv.plainRow line = Csv.pieces line := if_neg hne
    exact ((entryRows_proper (hmem line hline)).2 cell (hrow ▸ hcell)).1
  have hbreaks : (∀ c ∈ (joinReturns text).dropLast, isLineBoundary c = true → c = '\n') ∧
      ∀ c ∈ (joinReturns text).getLast?, isLineBoundary c = true → isWhiteSpace c = true := by
    obtain hnil | ⟨before, c, hc⟩ := List.eq_nil_or_concat (joinReturns text)
    · rw [hnil]
      simp
    · rw [List.concat_eq_append] at hc
      rw [hc, List.dropLast_concat, List.getLast?_concat]
      refine ⟨breaks_of_rows hc hrows, fun d hd => ?_⟩
      obtain rfl := Option.some.inj hd
      exact ending_of_rows hc hrows
  exact ⟨hunmarked, hbreaks.1, hbreaks.2, hlines, fun line hline cell hcell =>
    ⟨hcells line hline cell hcell, unquoted_of_records h line hline cell hcell,
      hfits line hline cell hcell⟩⟩

/-- The two extractors agree on exactly the plain files. -/
theorem sameTable_iff_plain : SameTable file (Utf8.encode text) ↔ CsvPlain text := by
  rw [sameTable_iff_rows]
  exact ⟨csvPlain_of_records, CsvPlain.records_eq⟩

theorem CsvPlain.table_eq (plain : CsvPlain text) :
    tableText (entryRows (withoutMark text)) = csvTable text := by
  rw [withoutMark, if_neg plain.unmarked, plain.entryRows_eq]
  rfl

theorem CsvPlain.textExtract_eq (plain : CsvPlain text) :
    textExtract (file.withData (Utf8.encode text)) "text/csv" = .ok (tableResult (csvTable text)) :=
  textExtract_csv.mpr ⟨_, plain.records_eq, plain.table_eq⟩

theorem CsvPlain.textExtract_port (plain : CsvPlain text) :
    DotNet.textExtract (DotNet.readAllText (Utf8.encode text)) "text/csv" =
      [{ kind := .table, content := utf16 (csvTable text) }] := by
  rw [DotNet.textExtract_csv, plain.table_eq]

end

/-- A plain file with both kinds of line ends. -/
example : SameTable csvOnly (Utf8.encode "a,b\r\n1,2 3\n".toList) := sameTable_iff_rows.mpr rfl

/-- A quoted comma separates two cells in one backend only. -/
theorem quoted_comma_tables : ¬ SameTable csvOnly (Utf8.encode "\"1,5\"".toList) := by
  rw [sameTable_iff_rows]
  have hread : Csv.records fieldSizeLimit {} (splitlines "\"1,5\"".toList) =
      .ok [["1,5".toList]] := rfl
  rw [hread]
  intro h
  exact absurd (Except.ok.inj h) (by decide)

end Docsage
