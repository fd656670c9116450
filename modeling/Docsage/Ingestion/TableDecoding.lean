import Docsage.Ingestion.MarkdownTables
import Docsage.Library.Escapes

/-! # Markdown tables are decodable

Pipes in a cell are escaped, backslashes are not. A cell that ends in a backslash is
still told apart from its bar, because a space stands between them.
-/

namespace Docsage
open Text

/-- Cells as the table shows them: no value is empty, and a newline is a space. -/
def tableValue (value : Option String) : String := replaceChar '\n' ' ' (value.getD "")

def tableLines (table : String) : List (List Char) := table.toList.splitOnP (· == '\n')

/-- A cell without one space on each side, if there is one. -/
def unpadded (cell : List Char) : List Char :=
  let inner := if cell.head? = some ' ' then cell.tail else cell
  if inner.getLast? = some ' ' then inner.dropLast else inner

def lineCells (line : List Char) : List (List Char) :=
  (Escapes.splitBare '\\' '|' false line).tail.dropLast

def decodeLine (line : List Char) : List String :=
  (lineCells line).map fun cell => String.ofList (Escapes.unescape '\\' '|' (unpadded cell))

/-- The rows of a table: every line except the second one. -/
def decodeTable (table : String) : List (List String) :=
  ((tableLines table).eraseIdx 1).map decodeLine

def rowCells (row : List (Option String)) : Csv.Row := row.map fun value => (value.getD "").toList

theorem tableCell_rowCells (row : List (Option String)) :
    (((rowCells row).map String.ofList).map some).map tableCell = row.map tableCell := by
  simp only [rowCells, List.map_map]
  refine List.map_congr_left fun value _ => ?_
  simp [tableCell]

theorem tableRule_rowCells (row : List (Option String)) :
    (((rowCells row).map String.ofList).map some).map (fun _ => "---") =
      row.map fun _ => "---" := by
  simp only [rowCells, List.map_map]
  rfl

theorem markdownTable_eq_tableText (rows : Rows) :
    markdownTable rows = tableText (rows.map rowCells) := by
  cases rows with
  | nil => rfl
  | cons header rows =>
    rw [List.map_cons, tableText_cons, tableCell_rowCells, tableRule_rowCells, List.map_map,
      List.map_map, List.map_map, markdownTable]
    congr 3
    exact List.map_congr_left fun row _ => congrArg tableLine (tableCell_rowCells row).symm

theorem lines_markdownTable (header : List (Option String)) (rows : Rows) :
    tableLines (markdownTable (header :: rows)) =
      rowLine (rowCells header) :: ruleLine (rowCells header) ::
        rows.map fun row => rowLine (rowCells row) := by
  rw [markdownTable_eq_tableText, List.map_cons, tableLines, lines_tableText, List.map_map]
  rfl

theorem unpadded_padded (cell : List Char) : unpadded (' ' :: (cell ++ [' '])) = cell := by
  simp [unpadded]

theorem splitBare_barLine (cells : Csv.Row) :
    Escapes.splitBare '\\' '|' false (barLine cells) =
      [] :: (cells.map fun cell => ' ' :: (escapePipe cell ++ [' '])) ++ [[]] := by
  have hcells : Escapes.splitBare '\\' '|' false (cells.flatMap barred) =
      (cells.map fun cell => ' ' :: (escapePipe cell ++ [' '])) ++ [[]] := by
    induction cells with
    | nil => rfl
    | cons cell cells ih =>
      have hsplit : Escapes.splitBare '\\' '|' false
          (Escapes.escape '\\' '|' cell ++ ' ' :: '|' :: cells.flatMap barred) = _ :=
        Escapes.splitBare_escape (by decide) (by decide) (by decide) false cell _
      have hcell : barred cell ++ cells.flatMap barred =
          ' ' :: (escapePipe cell ++ ' ' :: '|' :: cells.flatMap barred) := by
        simp [barred]
      rw [List.flatMap_cons, hcell, Escapes.splitBare, if_neg (by decide),
        show decide (' ' = '\\') = false from rfl]
      change (Escapes.splitBare '\\' '|' false (Escapes.escape '\\' '|' cell ++ _)).modifyHead _ = _
      rw [hsplit, List.modifyHead_cons, ih]
      rfl
  rw [barLine, Escapes.splitBare, if_pos ⟨rfl, rfl⟩, show decide ('|' = '\\') = false from rfl,
    hcells]
  rfl

/-- The line of a row is decoded to the values that it shows. -/
theorem decodeLine_rowLine {row : List (Option String)} (nonempty : row ≠ []) :
    decodeLine (rowLine (rowCells row)) = row.map tableValue := by
  have hshown : shownCells (rowCells row) = (rowCells row).map spaced :=
    if_neg (by simpa [rowCells] using nonempty)
  have hcells : lineCells (rowLine (rowCells row)) =
      ((rowCells row).map spaced).map fun cell => ' ' :: (escapePipe cell ++ [' ']) := by
    rw [lineCells, rowLine, hshown, splitBare_barLine, List.cons_append, List.tail_cons,
      List.dropLast_concat]
  rw [decodeLine, hcells, List.map_map, rowCells, List.map_map, List.map_map]
  refine List.map_congr_left fun value _ => ?_
  simp only [Function.comp_apply, unpadded_padded]
  change String.ofList (Escapes.unescape _ _ (Escapes.escape '\\' '|' _)) = _
  rw [Escapes.unescape_escape (by decide)]
  rfl

/-- A table of rows with cells has a line for every row and one under the header, and its rows can
be read back from it, up to the newlines in the cells. -/
theorem markdownTable_decodes {rows : Rows} (nonempty : rows ≠ [])
    (cells : ∀ row ∈ rows, row ≠ []) :
    (tableLines (markdownTable rows)).length = rows.length + 1 ∧
      decodeTable (markdownTable rows) = rows.map (·.map tableValue) := by
  obtain ⟨header, rows, rfl⟩ := List.exists_cons_of_ne_nil nonempty
  obtain ⟨hheader, hrows⟩ := List.forall_mem_cons.mp cells
  constructor
  · rw [lines_markdownTable]
    simp
  · rw [decodeTable, lines_markdownTable, List.eraseIdx_cons_succ, List.eraseIdx_zero,
      List.tail_cons, List.map_cons, List.map_cons, decodeLine_rowLine hheader, List.map_map]
    exact congrArg _ (List.map_congr_left fun row hrow => decodeLine_rowLine (hrows row hrow))

/-- A ragged table with backslashes before and behind its pipes. -/
theorem markdownTable_decodes_backslashes :
    (tableLines (markdownTable [[some "Metric", some "Note\\"], [some "Uptime|SLO\\|"],
        [none, some "one\ntwo", some "\\"]])).length = 4 ∧
      decodeTable (markdownTable [[some "Metric", some "Note\\"], [some "Uptime|SLO\\|"],
        [none, some "one\ntwo", some "\\"]]) =
        [["Metric", "Note\\"], ["Uptime|SLO\\|"], ["", "one two", "\\"]] :=
  markdownTable_decodes (by decide) (by decide)

end Docsage
