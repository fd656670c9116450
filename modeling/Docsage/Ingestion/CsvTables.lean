import Docsage.Ingestion.MarkdownTables
import Docsage.Library.Utf8
import Docsage.Text.Newlines

/-! # CSV files

`text.extract` cuts a file into lines before `csv.reader` sees it, so a newline inside a
quoted cell is gone, and a cell is also cut where only `str.splitlines` sees a line end.
-/

namespace Docsage
open Effects Text

/-- `read_text(encoding="utf-8", errors="replace")`. -/
def readText (data : List UInt8) : String :=
  let decoded := Utf8.decode {} data
  String.ofList (universalNewlines (decoded.1 ++ Utf8.flush decoded.2))

def fieldSizeLimit : ℕ := 131072

def csvError : Csv.Fault → Exc
  | .fieldLimit => { message := "field larger than field limit (131072)" }
  | .newlineInUnquotedField =>
    { message := "new-line character seen in unquoted field - " ++
        "do you need to open the file with newline=''?" }

/-- The rows of `csv.reader(raw.splitlines())`. -/
def csvReader (raw : String) : Except Exc (List (List String)) :=
  match Csv.records fieldSizeLimit {} (splitlines raw.toList) with
  | .ok rows => .ok (textRows rows)
  | .error fault => .error (csvError fault)

/-- The file with its bytes, as the text reader sees them. -/
def StoredFile.withData (file : StoredFile) (data : List UInt8) : StoredFile :=
  { file with text := .ok (readText data), csvRows := csvReader }

def tableResult (content : String) : ExtractionResult where
  parts := [{ kind := .table, content }]

/-- Written as CSV and extracted, a table is the markdown table of its rows. -/
def CellsPreserved (file : StoredFile) (finalBreak : Bool) (rows : List Csv.Row) : Prop :=
  textExtract (file.withData (Utf8.encode (Csv.write finalBreak rows))) "text/csv" =
    .ok (tableResult (tableText rows))

section

variable {file : StoredFile} {finalBreak : Bool} {rows rows' : List Csv.Row} {row : Csv.Row}

theorem readText_encode (text : List Char) :
    readText (Utf8.encode text) = String.ofList (universalNewlines text) := by
  simp only [readText, Utf8.decode_encode]
  exact congrArg (fun text => String.ofList (universalNewlines text)) (List.append_nil text)

theorem textExtract_csv {text : List Char} {content : String} :
    textExtract (file.withData (Utf8.encode text)) "text/csv" = .ok (tableResult content) ↔
      ∃ rows, Csv.records fieldSizeLimit {} (splitlines text) = .ok rows ∧
        tableText rows = content := by
  have hlines : splitlines (readText (Utf8.encode text)).toList = splitlines text := by
    rw [readText_encode, String.toList_ofList, splitlines_universalNewlines]
  have hextract (data : List UInt8) : textExtract (file.withData data) "text/csv" =
      csvReader (readText data) >>= fun rows =>
        .ok (tableResult (markdownTable (rows.map (·.map some)))) := by
    have hmime : ¬ "text/csv" ∉ ["text/csv", "application/csv"] := by simp
    simp only [textExtract, StoredFile.withData, if_neg hmime]
    rfl
  rw [hextract, csvReader, hlines]
  cases hrows : Csv.records fieldSizeLimit {} (splitlines text) with
  | error fault =>
    refine ⟨fun h => (by cases h), ?_⟩
    rintro ⟨rows, h, -⟩
    cases h
  | ok rows =>
    constructor
    · intro h
      have hresult := Except.ok.inj h
      refine ⟨rows, rfl, ?_⟩
      simpa [tableResult, tableText] using hresult
    · rintro ⟨rows', h, rfl⟩
      obtain rfl := Except.ok.inj h
      rfl

theorem joinReturns_write (noReturn : ∀ row ∈ rows, ∀ cell ∈ row, '\r' ∉ cell)
    (nonempty : rows ≠ []) : joinReturns (Csv.write finalBreak rows) =
      ['\n'].intercalate (rows.map Csv.writeRecord) ++ if finalBreak then ['\n'] else [] := by
  have hrecord (row : Csv.Row) (hrow : ∀ cell ∈ row, '\r' ∉ cell) : '\r' ∉ Csv.writeRecord row := by
    intro hmem
    rcases Csv.mem_writeRecord hmem with h | h | ⟨cell, hcell, hc⟩
    · cases h
    · cases h
    · exact hrow cell hcell hc
  rw [Csv.write]
  induction rows with
  | nil => exact absurd rfl nonempty
  | cons row rows ih =>
    obtain ⟨hrow, hrows⟩ := List.forall_mem_cons.mp noReturn
    cases rows with
    | nil =>
      cases finalBreak with
      | true =>
        simpa [joinReturns] using @joinReturns_append _ [] (hrecord row hrow)
      | false => simpa using joinReturns_of_notMem (hrecord row hrow)
    | cons next rows =>
      have hnext := ih hrows (List.cons_ne_nil _ _)
      simp only [List.map_cons, List.intercalate_cons_cons, List.append_assoc, List.cons_append,
        List.nil_append] at hnext ⊢
      rw [joinReturns_append (hrecord row hrow), hnext]

/-- The records that the lines of the file show: an empty line at the end is none. -/
def readableRows (finalBreak : Bool) (rows : List Csv.Row) : List Csv.Row :=
  if finalBreak = false ∧ rows.getLast? = some [[]] then rows.dropLast else rows

/-- Without other line boundaries, the file is cut at its newlines. -/
theorem splitOnP_write (noReturn : ∀ row ∈ rows, ∀ cell ∈ row, '\r' ∉ cell) (nonempty : rows ≠ [])
    (noBoundary : ∀ row ∈ rows, ∀ cell ∈ row, ∀ c ∈ cell, isLineBoundary c = true → c = '\n') :
    (joinReturns (Csv.write finalBreak rows)).splitOnP isLineBoundary =
      rows.flatMap (fun row => (Csv.writeRecord row).splitOnP (· == '\n')) ++
        if finalBreak then [[]] else [] := by
  have hrecord : ∀ row ∈ rows, (Csv.writeRecord row).splitOnP isLineBoundary =
      (Csv.writeRecord row).splitOnP (· == '\n') := by
    refine fun row hrow => Fields.splitOnP_congr fun c hc =>
      boundary_eq_newline fun htrue => ?_
    rcases Csv.mem_writeRecord hc with rfl | rfl | ⟨cell, hcell, hc⟩
    · cases htrue
    · cases htrue
    · exact noBoundary row hrow cell hcell c hc htrue
  have hnewline : isLineBoundary '\n' = true := rfl
  have hpieces : (['\n'].intercalate (rows.map Csv.writeRecord)).splitOnP isLineBoundary =
      rows.flatMap fun row => (Csv.writeRecord row).splitOnP (· == '\n') := by
    obtain ⟨row, rest, rfl⟩ := List.exists_cons_of_ne_nil nonempty
    rw [List.map_cons, Fields.splitOnP_intercalate_pieces hnewline, ← List.map_cons,
      List.flatMap_map]
    exact List.flatMap_congr hrecord
  rw [joinReturns_write noReturn nonempty]
  cases finalBreak with
  | true =>
    rw [if_pos rfl, List.splitOnP_append_cons _ _ hnewline, hpieces]
    rfl
  | false => simpa using hpieces

theorem splitlines_write (noReturn : ∀ row ∈ rows, ∀ cell ∈ row, '\r' ∉ cell)
    (nonempty : rows ≠ []) (cells : ∀ row ∈ rows, row ≠ [])
    (noBoundary : ∀ row ∈ rows, ∀ cell ∈ row, ∀ c ∈ cell, isLineBoundary c = true → c = '\n') :
    splitlines (Csv.write finalBreak rows) = (readableRows finalBreak rows).flatMap fun row =>
      (Csv.writeRecord row).splitOnP (· == '\n') := by
  have hpieces := @splitOnP_write finalBreak rows noReturn nonempty noBoundary
  obtain ⟨init, last, rfl⟩ := (List.eq_nil_or_concat rows).resolve_left nonempty
  rw [List.concat_eq_append] at *
  cases finalBreak with
  | true =>
    rw [splitlines_of_pieces hpieces, if_pos rfl, readableRows, if_neg (by simp)]
  | false =>
    by_cases hlast : last = [[]]
    · subst hlast
      rw [readableRows, if_pos (by simp), List.dropLast_concat]
      have hinit : (joinReturns (Csv.write false (init ++ [[[]]]))).splitOnP isLineBoundary =
          init.flatMap (fun row => (Csv.writeRecord row).splitOnP (· == '\n')) ++ [[]] := by
        rw [hpieces, List.flatMap_append]
        simp [Csv.writeRecord, Csv.writeField, Csv.needsQuotes]
      rw [splitlines_of_pieces hinit, if_pos rfl]
    · obtain ⟨text, c, htext, hc⟩ := Csv.writeRecord_last (cells last (by simp)) hlast
      obtain ⟨fields, field, -, hfields⟩ :=
        Fields.splitOnP_concat (p := (· == '\n')) (beq_false_of_ne hc) text
      have hrows :
          (init ++ [last]).flatMap (fun row => (Csv.writeRecord row).splitOnP (· == '\n')) =
            (init.flatMap (fun row => (Csv.writeRecord row).splitOnP (· == '\n')) ++ fields) ++
              [field ++ [c]] := by
        rw [List.flatMap_append, List.flatMap_singleton, htext, hfields, List.append_assoc]
      rw [if_neg (by simp), List.append_nil, hrows] at hpieces
      rw [splitlines_of_pieces hpieces, if_neg (by simp), readableRows,
        if_neg (by simpa using hlast), hrows]

theorem readableRows_of_length (nonempty : rows ≠ [])
    (h : (readableRows finalBreak rows).length = rows.length) :
    readableRows finalBreak rows = rows := by
  rw [readableRows] at h ⊢
  split
  · next hdropped =>
    have hpos := List.length_pos_iff.mpr nonempty
    rw [if_pos hdropped, List.length_dropLast] at h
    omega
  · rfl

theorem readableRows_eq_self (nonempty : rows ≠ []) : readableRows finalBreak rows = rows ↔
    finalBreak = true ∨ rows.getLast? ≠ some [[]] := by
  constructor
  · intro h
    by_contra hlast
    obtain ⟨hbreak, hlast⟩ := not_or.mp hlast
    have hlength := congrArg List.length h
    have hpos := List.length_pos_iff.mpr nonempty
    rw [readableRows, if_pos ⟨by simpa using hbreak, not_not.mp hlast⟩, List.length_dropLast]
      at hlength
    omega
  · intro h
    refine if_neg ?_
    rintro ⟨rfl, hlast⟩
    exact h.elim (fun htrue => by cases htrue) fun hne => hne hlast

theorem mem_readableRows (h : row ∈ readableRows finalBreak rows) : row ∈ rows := by
  rw [readableRows] at h
  split at h
  · exact List.dropLast_subset _ h
  · exact h

/-- What is read back, where no cell has another line boundary than a newline. -/
theorem records_splitlines_write (noReturn : ∀ row ∈ rows, ∀ cell ∈ row, '\r' ∉ cell)
    (nonempty : rows ≠ []) (cells : ∀ row ∈ rows, row ≠ [])
    (noBoundary : ∀ row ∈ rows, ∀ cell ∈ row, ∀ c ∈ cell, isLineBoundary c = true → c = '\n') :
    Csv.records fieldSizeLimit {} (splitlines (Csv.write finalBreak rows)) = .ok rows' ↔
      rows' = (readableRows finalBreak rows).map Csv.restored ∧
        ∀ row ∈ readableRows finalBreak rows, ∀ cell ∈ row,
          (Csv.unbroken cell).length ≤ fieldSizeLimit := by
  rw [splitlines_write noReturn nonempty cells noBoundary,
    Csv.records_write (fun row hrow => noReturn row (mem_readableRows hrow))
      fun row hrow => cells row (mem_readableRows hrow)]
  exact mapM_eq_ok_iff fun _ _ => Csv.readRow_eq_ok

/-- A character that is a line boundary and no newline is lost. -/
theorem notMem_of_boundary {c : Char} (boundary : isLineBoundary c = true) (newline : c ≠ '\n')
    {text : List Char} (read : Csv.records fieldSizeLimit {} (splitlines text) = .ok rows')
    (shown : rows'.map shownCells = rows.map shownCells) : c ∉ rows.flatten.flatten := by
  have hspace : c ≠ ' ' := by
    rintro rfl
    cases boundary
  rw [← mem_flatten_shownCells newline hspace, ← shown, mem_flatten_shownCells newline hspace]
  intro hmem
  have hlines : c ∈ (splitlines text).flatten := (Csv.records_sublist read).subset hmem
  obtain ⟨line, hline, hc⟩ := List.mem_flatten.mp hlines
  rw [mem_splitlines hline c hc] at boundary
  cases boundary

/-- A row is shown as it was where its cells have no newlines. -/
theorem shownCells_restored_iff (nonempty : row ≠ []) :
    shownCells (Csv.restored row) = shownCells row ↔ ∀ cell ∈ row, '\n' ∉ cell := by
  rw [Csv.restored]
  split
  · next hrow =>
    subst hrow
    simp [shownCells, spaced]
  · have hcell (cell : List Char) : spaced (Csv.unbroken cell) = spaced cell ↔ '\n' ∉ cell := by
      constructor
      · intro h hmem
        have hlength := congrArg List.length h
        rw [spaced, spaced, List.length_map, List.length_map, Csv.unbroken,
          List.length_filter_eq_length_iff] at hlength
        simpa using hlength '\n' hmem
      · intro h
        rw [Csv.unbroken_eq_self.mpr h]
    have hne : row.map Csv.unbroken ≠ [] := by simpa using nonempty
    rw [shownCells, shownCells, if_neg hne, if_neg nonempty, List.map_map, List.map_inj_left]
    exact forall₂_congr fun cell _ => hcell cell

/-- A row of one empty cell is read as a row without cells, which looks the same below the
header. -/
theorem tableText_restored {header : Csv.Row} (nonempty : header ≠ []) (headed : header ≠ [[]])
    (cells : ∀ row ∈ rows, row ≠ [])
    (unbroken : ∀ row ∈ header :: rows, ∀ cell ∈ row, '\n' ∉ cell) :
    tableText ((header :: rows).map Csv.restored) = tableText (header :: rows) := by
  obtain ⟨hheader, hrows⟩ := List.forall_mem_cons.mp unbroken
  have hline (row : Csv.Row) (hne : row ≠ []) (hrow : ∀ cell ∈ row, '\n' ∉ cell) :
      rowLine (Csv.restored row) = rowLine row :=
    congrArg barLine ((shownCells_restored_iff hne).mpr hrow)
  have hrule : ruleLine (Csv.restored header) = ruleLine header := by
    rw [Csv.restored, if_neg headed, ruleLine, ruleLine, List.map_map]
    rfl
  have hlines : (rows.map Csv.restored).map rowLine = rows.map rowLine := by
    rw [List.map_map]
    exact List.map_congr_left fun row hrow => hline row (cells row hrow) (hrows row hrow)
  rw [← String.toList_inj, List.map_cons, tableText_toList, tableText_toList, hrule, hlines,
    hline header nonempty hheader]

/-- What is read back makes the same table where no cell has a newline and no row of one empty cell
is the header or lost at the end. -/
theorem tableText_readBack_iff (nonempty : rows ≠ []) (cells : ∀ row ∈ rows, row ≠ []) :
    tableText ((readableRows finalBreak rows).map Csv.restored) = tableText rows ↔
      (∀ row ∈ rows, ∀ cell ∈ row, '\n' ∉ cell) ∧ rows.head? ≠ some [[]] ∧
        (finalBreak = true ∨ rows.getLast? ≠ some [[]]) := by
  rw [← readableRows_eq_self nonempty]
  constructor
  · intro h
    obtain ⟨hshown, hheader⟩ := tableText_inj h
    have hreadable : readableRows finalBreak rows = rows :=
      readableRows_of_length nonempty (by simpa using congrArg List.length hshown)
    rw [hreadable] at hshown hheader
    rw [List.map_map, List.map_inj_left] at hshown
    refine ⟨fun row hrow => (shownCells_restored_iff (cells row hrow)).mp (hshown row hrow), ?_,
      hreadable⟩
    intro hhead
    rw [List.head?_map, hhead] at hheader
    simp [Csv.restored] at hheader
  · rintro ⟨hunbroken, hhead, hreadable⟩
    obtain ⟨header, rest, rfl⟩ := List.exists_cons_of_ne_nil nonempty
    obtain ⟨hheader, hrest⟩ := List.forall_mem_cons.mp cells
    rw [hreadable]
    exact tableText_restored hheader (fun h => hhead (congrArg some h)) hrest hunbroken

/-- Extraction keeps the cells of a table exactly where none has a line boundary in it or more
characters than a field may have, the header is not one empty cell, and neither is a last row
without a line break behind it. -/
theorem cellsPreserved_iff (file : StoredFile) (finalBreak : Bool) {rows : List Csv.Row}
    (nonempty : rows ≠ []) (cells : ∀ row ∈ rows, row ≠ [])
    (noReturn : ∀ row ∈ rows, ∀ cell ∈ row, '\r' ∉ cell) :
    CellsPreserved file finalBreak rows ↔
      (∀ row ∈ rows, ∀ cell ∈ row, (∀ c ∈ cell, isLineBoundary c = false) ∧
        cell.length ≤ fieldSizeLimit) ∧
      rows.head? ≠ some [[]] ∧ (finalBreak = true ∨ rows.getLast? ≠ some [[]]) := by
  rw [CellsPreserved, textExtract_csv]
  constructor
  · rintro ⟨rows', hread, htable⟩
    have hboundary :
        ∀ row ∈ rows, ∀ cell ∈ row, ∀ c ∈ cell, isLineBoundary c = true → c = '\n' := by
      intro row hrow cell hcell c hc htrue
      by_contra hne
      refine notMem_of_boundary htrue hne hread (tableText_inj htable).1 ?_
      exact List.mem_flatten.mpr ⟨cell, List.mem_flatten.mpr ⟨row, hrow, hcell⟩, hc⟩
    obtain ⟨rfl, hfits⟩ := (records_splitlines_write noReturn nonempty cells hboundary).mp hread
    obtain ⟨hunbroken, hends⟩ := (tableText_readBack_iff nonempty cells).mp htable
    refine ⟨fun row hrow cell hcell => ⟨fun c hc => Bool.eq_false_iff.mpr fun htrue => ?_, ?_⟩,
      hends⟩
    · exact hunbroken row hrow cell hcell (hboundary row hrow cell hcell c hc htrue ▸ hc)
    · rw [(readableRows_eq_self nonempty).mpr hends.2] at hfits
      rw [← Csv.unbroken_eq_self.mpr (hunbroken row hrow cell hcell)]
      exact hfits row hrow cell hcell
  · rintro ⟨hcells, hends⟩
    have hboundary :
        ∀ row ∈ rows, ∀ cell ∈ row, ∀ c ∈ cell, isLineBoundary c = true → c = '\n' := by
      intro row hrow cell hcell c hc htrue
      rw [(hcells row hrow cell hcell).1 c hc] at htrue
      cases htrue
    have hunbroken : ∀ row ∈ rows, ∀ cell ∈ row, '\n' ∉ cell := by
      intro row hrow cell hcell hmem
      have hfalse := (hcells row hrow cell hcell).1 _ hmem
      cases hfalse
    refine ⟨_, (records_splitlines_write noReturn nonempty cells hboundary).mpr ⟨rfl, ?_⟩,
      (tableText_readBack_iff nonempty cells).mpr ⟨hunbroken, hends⟩⟩
    intro row hrow cell hcell
    exact (List.length_filter_le _ _).trans (hcells row (mem_readableRows hrow) cell hcell).2

end

def csvOnly : StoredFile where
  name := "table.csv"
  pdf := .error { message := "no PDF" }
  docx := .error { message := "no DOCX" }
  xlsx := .error { message := "no XLSX" }
  exifDescription := none
  encoded := fun _ => .error { message := "no image" }
  text := .ok ""
  csvRows := fun _ => .ok []

/-- A comma, a quote and an empty cell are kept. -/
theorem cellsPreserved_punctuation :
    CellsPreserved csvOnly false [["a,\"".toList, []], [[], "b".toList]] := by
  have hcells := @cellsPreserved_iff csvOnly false [["a,\"".toList, []], [[], "b".toList]]
    (by decide) (by decide) (by decide)
  have hshort : ∀ row ∈ [["a,\"".toList, []], [[], "b".toList]], ∀ cell ∈ row,
      (cell.all fun c => !isLineBoundary c) = true ∧ cell.length ≤ 3 := by decide
  have hlimit : 3 ≤ fieldSizeLimit := Nat.le_of_ble_eq_true rfl
  refine hcells.mpr ⟨fun row hrow cell hcell => ?_, by decide, .inr (by decide)⟩
  obtain ⟨hplain, hlength⟩ := hshort row hrow cell hcell
  exact ⟨by simpa using hplain, hlength.trans hlimit⟩

/-- A newline is not shown as a space. -/
theorem newline_lost : ¬ CellsPreserved csvOnly true [["a\nb".toList]] := by
  rw [CellsPreserved, textExtract_csv]
  have hread : Csv.records fieldSizeLimit {} (splitlines (Csv.write true [["a\nb".toList]])) =
      .ok [["ab".toList]] := rfl
  rintro ⟨rows, h, htable⟩
  obtain rfl := Except.ok.inj (hread.symm.trans h)
  have hshown := (tableText_inj htable).1
  exact absurd hshown (by decide)

end Docsage
