import Docsage.Ingestion.Extract
import Docsage.Library.Csv

/-! # What a markdown table says

The pipes in a cell are escaped and its newlines are spaces, so the text of a table
determines its rows up to these newlines. Only a row without cells is written like a row
of one empty cell, and as a header it is not.
-/

namespace Docsage
open Text

def textRows (rows : List Csv.Row) : List (List String) := rows.map (·.map String.ofList)

def tableText (rows : List Csv.Row) : String := markdownTable ((textRows rows).map (·.map some))

def spaced (cell : List Char) : List Char := cell.map fun c => if c = '\n' then ' ' else c

def escapePipe (cell : List Char) : List Char :=
  cell.flatMap fun c => if c = '|' then ['\\', '|'] else [c]

def shownCells (row : Csv.Row) : Csv.Row := if row = [] then [[]] else row.map spaced

def barred (cell : List Char) : List Char := ' ' :: (escapePipe cell ++ [' ', '|'])

def barLine (cells : Csv.Row) : List Char := '|' :: cells.flatMap barred

def rowLine (row : Csv.Row) : List Char := barLine (shownCells row)

def ruleLine (header : Csv.Row) : List Char := rowLine (header.map fun _ => ['-', '-', '-'])

variable {cell cell' : List Char} {row row' : Csv.Row} {rows rows' : List Csv.Row}

theorem intercalate_bars (texts : List (List Char)) (text : List Char) :
    ' ' :: ([' ', '|', ' '].intercalate (text :: texts) ++ [' ', '|']) =
      (text :: texts).flatMap fun text => ' ' :: (text ++ [' ', '|']) := by
  induction texts generalizing text with
  | nil => simp
  | cons next texts ih =>
    rw [List.intercalate_cons_cons, List.flatMap_cons, ← ih next]
    simp

theorem tableCell_toList (cell : List Char) :
    (tableCell (some (String.ofList cell))).toList = escapePipe (spaced cell) := by
  simp only [tableCell, replaceChar, Option.getD_some, String.toList_ofList]
  rfl

theorem tableLine_toList (cells : List String) : (tableLine cells).toList =
    '|' :: (if cells = [] then [[]] else cells.map String.toList).flatMap fun text =>
      ' ' :: (text ++ [' ', '|']) := by
  cases cells with
  | nil => rfl
  | cons cell cells =>
    rw [if_neg (List.cons_ne_nil _ _), List.map_cons, ← intercalate_bars]
    simp [tableLine, String.toList_intercalate]

theorem rowLine_eq (row : Csv.Row) :
    (tableLine (((row.map String.ofList).map some).map tableCell)).toList = rowLine row := by
  rw [tableLine_toList, rowLine, barLine, shownCells]
  cases row with
  | nil => rfl
  | cons cell cells =>
    simp only [List.map_cons, reduceCtorEq, if_false, List.map_map, List.flatMap_cons, barred,
      List.flatMap_map, Function.comp_apply, tableCell_toList]

theorem ruleLine_eq (row : Csv.Row) :
    (tableLine (((row.map String.ofList).map some).map fun _ => "---")).toList = ruleLine row := by
  rw [tableLine_toList, ruleLine, rowLine, barLine, shownCells]
  cases row with
  | nil => rfl
  | cons cell cells =>
    simp only [List.map_cons, reduceCtorEq, if_false, List.map_map, List.flatMap_cons, barred,
      List.flatMap_map, Function.comp_apply]
    rfl

theorem tableText_cons (header : Csv.Row) (rows : List Csv.Row) :
    tableText (header :: rows) = "\n".intercalate
      (tableLine (((header.map String.ofList).map some).map tableCell) ::
        tableLine (((header.map String.ofList).map some).map fun _ => "---") ::
        (((rows.map (·.map String.ofList)).map (·.map some)).map fun row =>
          tableLine (row.map tableCell))) := rfl

theorem tableText_toList (header : Csv.Row) (rows : List Csv.Row) :
    (tableText (header :: rows)).toList =
      ['\n'].intercalate (rowLine header :: ruleLine header :: rows.map rowLine) := by
  have hrows : ((((rows.map (·.map String.ofList)).map (·.map some)).map fun row =>
      tableLine (row.map tableCell)).map String.toList) = rows.map rowLine := by
    rw [List.map_map, List.map_map, List.map_map]
    exact List.map_congr_left fun row _ => rowLine_eq row
  rw [tableText_cons, String.toList_intercalate, List.map_cons, List.map_cons, rowLine_eq,
    ruleLine_eq, hrows]
  rfl

theorem notMem_spaced (cell : List Char) : '\n' ∉ spaced cell := by
  intro hmem
  obtain ⟨c, -, hc⟩ := List.mem_map.mp hmem
  split at hc
  · cases hc
  · contradiction

theorem notMem_escapePipe (h : '\n' ∉ cell) : '\n' ∉ escapePipe cell := by
  intro hmem
  obtain ⟨c, hc, hin⟩ := List.mem_flatMap.mp hmem
  split at hin
  · exact absurd hin (by decide)
  · rw [List.mem_singleton.mp hin] at h
    exact h hc

theorem notMem_rowLine (row : Csv.Row) : '\n' ∉ rowLine row := by
  intro hmem
  rcases List.mem_cons.mp hmem with hbar | hmem
  · cases hbar
  · obtain ⟨cell, hcell, hin⟩ := List.mem_flatMap.mp hmem
    have hfree : '\n' ∉ cell := by
      rw [shownCells] at hcell
      split at hcell
      · rw [List.mem_singleton.mp hcell]
        exact List.not_mem_nil
      · obtain ⟨c, -, rfl⟩ := List.mem_map.mp hcell
        exact notMem_spaced c
    have hescaped := notMem_escapePipe hfree
    simp [barred, hescaped] at hin

theorem escapePipe_cons (c : Char) (cell : List Char) :
    escapePipe (c :: cell) = (if c = '|' then ['\\', '|'] else [c]) ++ escapePipe cell :=
  List.flatMap_cons

/-- A bar is not taken for a pipe of a cell: that one is behind a backslash. -/
theorem escapePipe_ne_bar (cell rest rest' : List Char) :
    escapePipe cell ++ ' ' :: rest ≠ '|' :: rest' := by
  cases cell with
  | nil => simp [escapePipe]
  | cons c cell =>
    by_cases hc : c = '|'
    · simp [escapePipe, hc]
    · simp [escapePipe, hc]

theorem escapePipe_cons_ne {c : Char} (rest rest' : List Char) :
    escapePipe (c :: cell) ++ ' ' :: '|' :: rest ≠ ' ' :: '|' :: rest' := by
  intro h
  rw [escapePipe_cons] at h
  by_cases hc : c = '|'
  · simp [hc] at h
  · rw [if_neg hc, List.singleton_append, List.cons_append] at h
    exact escapePipe_ne_bar _ _ _ (List.cons.inj h).2

theorem barred_append_inj {rest rest' : List Char}
    (h : escapePipe cell ++ ' ' :: '|' :: rest = escapePipe cell' ++ ' ' :: '|' :: rest') :
    cell = cell' ∧ rest = rest' := by
  induction cell generalizing cell' with
  | nil =>
    cases cell' with
    | nil => exact ⟨rfl, by simpa [escapePipe] using h⟩
    | cons c cell' => exact absurd h.symm (escapePipe_cons_ne _ _)
  | cons c cell ih =>
    cases cell' with
    | nil => exact absurd h (escapePipe_cons_ne _ _)
    | cons c' cell' =>
      rw [escapePipe_cons, escapePipe_cons, List.append_assoc, List.append_assoc] at h
      by_cases hc : c = '|' <;> by_cases hc' : c' = '|'
      · rw [if_pos hc, if_pos hc'] at h
        obtain ⟨rfl, hrest⟩ := ih (List.append_cancel_left h)
        exact ⟨by rw [hc, hc'], hrest⟩
      · rw [if_pos hc, if_neg hc'] at h
        exact absurd (List.cons.inj h).2.symm (escapePipe_ne_bar _ _ _)
      · rw [if_neg hc, if_pos hc'] at h
        exact absurd (List.cons.inj h).2 (escapePipe_ne_bar _ _ _)
      · rw [if_neg hc, if_neg hc'] at h
        obtain ⟨rfl, htail⟩ := List.cons.inj h
        obtain ⟨rfl, hrest⟩ := ih htail
        exact ⟨rfl, hrest⟩

theorem barLine_injective : Function.Injective barLine := by
  intro row row' h
  have hcells := (List.cons.inj h).2
  clear h
  induction row generalizing row' with
  | nil =>
    cases row' with
    | nil => rfl
    | cons cell' row' => cases hcells
  | cons cell row ih =>
    cases row' with
    | nil => cases hcells
    | cons cell' row' =>
      simp only [List.flatMap_cons, barred, List.cons_append, List.append_assoc,
        List.nil_append] at hcells
      obtain ⟨rfl, hrest⟩ := barred_append_inj (List.cons.inj hcells).2
      rw [ih hrest]

theorem ruleLine_inj (h : ruleLine row = ruleLine row') : row.length = row'.length := by
  have hcells := barLine_injective h
  cases row with
  | nil =>
    cases row' with
    | nil => rfl
    | cons cell' row' => simp [shownCells, spaced] at hcells
  | cons cell row =>
    cases row' with
    | nil => simp [shownCells, spaced] at hcells
    | cons cell' row' => simpa [shownCells] using congrArg List.length hcells

theorem lines_tableText (header : Csv.Row) (rows : List Csv.Row) :
    (tableText (header :: rows)).toList.splitOnP (· == '\n') =
      rowLine header :: ruleLine header :: rows.map rowLine := by
  have hfree : ∀ line ∈ rowLine header :: ruleLine header :: rows.map rowLine,
      ∀ c ∈ line, (c == '\n') = false := by
    intro line hline c hc
    obtain ⟨row, rfl⟩ : ∃ row, line = rowLine row := by
      rcases List.mem_cons.mp hline with rfl | hline
      · exact ⟨_, rfl⟩
      · rcases List.mem_cons.mp hline with rfl | hline
        · exact ⟨_, rfl⟩
        · obtain ⟨row, -, rfl⟩ := List.mem_map.mp hline
          exact ⟨row, rfl⟩
    exact beq_false_of_ne fun h => notMem_rowLine row (h ▸ hc)
  have hsplit := Fields.splitOnP_intercalate (p := (· == '\n')) (beq_self_eq_true '\n')
    (List.forall_mem_nil _) hfree
  rw [tableText_toList, hsplit]
  exact congrArg (rowLine header :: ·) (List.map_id _)

/-- A table is determined by its text, up to the newlines in its cells. -/
theorem tableText_inj (h : tableText rows = tableText rows') :
    rows.map shownCells = rows'.map shownCells ∧
      rows.head?.map List.length = rows'.head?.map List.length := by
  have hempty (rows : List Csv.Row) : (tableText rows).isEmpty = rows.isEmpty := by
    rw [tableText, markdownTable_isEmpty, textRows]
    cases rows <;> rfl
  have hrows : rows.isEmpty = rows'.isEmpty := by rw [← hempty, h, hempty]
  cases rows with
  | nil =>
    cases rows' with
    | nil => exact ⟨rfl, rfl⟩
    | cons row' rows' => cases hrows
  | cons row rows =>
    cases rows' with
    | nil => cases hrows
    | cons row' rows' =>
      have hlines := lines_tableText row rows
      rw [h, lines_tableText row' rows'] at hlines
      obtain ⟨hheader, hlines⟩ := List.cons.inj hlines
      obtain ⟨hrule, hlines⟩ := List.cons.inj hlines
      have hcells : rows'.map shownCells = rows.map shownCells := by
        refine List.map_injective_iff.mpr barLine_injective ?_
        rw [List.map_map, List.map_map]
        exact hlines
      rw [List.map_cons, List.map_cons, barLine_injective hheader, hcells]
      exact ⟨rfl, congrArg some (ruleLine_inj hrule).symm⟩

theorem mem_spaced {c : Char} (newline : c ≠ '\n') (space : c ≠ ' ') :
    c ∈ spaced cell ↔ c ∈ cell := by
  rw [spaced, List.mem_map]
  constructor
  · rintro ⟨d, hd, h⟩
    split at h
    · exact absurd h.symm space
    · exact h ▸ hd
  · exact fun hc => ⟨c, hc, if_neg newline⟩

theorem spaced_of_notMem (h : '\n' ∉ cell) : spaced cell = cell := by
  refine (List.map_congr_left fun c hc => if_neg ?_).trans (List.map_id cell)
  rintro rfl
  exact h hc

/-- A row of cells without newlines is shown as it is, unless it has no cells. -/
theorem shownCells_eq_self (nonempty : row ≠ []) (free : ∀ cell ∈ row, '\n' ∉ cell) :
    shownCells row = row := by
  rw [shownCells, if_neg nonempty]
  exact (List.map_congr_left fun cell hcell => spaced_of_notMem (free cell hcell)).trans
    (List.map_id row)

/-- Rows without newlines and without blank ones among them are determined by their table. -/
theorem rows_eq_of_tableText (h : tableText rows = tableText rows')
    (free : ∀ row ∈ rows, ∀ cell ∈ row, '\n' ∉ cell)
    (free' : ∀ row ∈ rows', ∀ cell ∈ row, '\n' ∉ cell)
    (proper : ∀ row ∈ rows', row ≠ [] ∧ row ≠ [[]]) : rows = rows' := by
  have hshown := (tableText_inj h).1
  have hrows' : rows'.map shownCells = rows' :=
    (List.map_congr_left fun row hrow =>
      shownCells_eq_self (proper row hrow).1 (free' row hrow)).trans (List.map_id rows')
  rw [hrows'] at hshown
  have hne : ∀ row ∈ rows, row ≠ [] := by
    rintro row hrow rfl
    have hblank : shownCells [] ∈ rows' := hshown ▸ List.mem_map_of_mem hrow
    exact (proper _ hblank).2 rfl
  rw [← hshown]
  exact ((List.map_congr_left fun row hrow =>
    shownCells_eq_self (hne row hrow) (free row hrow)).trans (List.map_id rows)).symm

/-- A character that is no white space is shown where it is in a cell. -/
theorem mem_flatten_shownCells {c : Char} (newline : c ≠ '\n') (space : c ≠ ' ') :
    c ∈ (rows.map shownCells).flatten.flatten ↔ c ∈ rows.flatten.flatten := by
  have hrow (row : Csv.Row) : c ∈ (shownCells row).flatten ↔ c ∈ row.flatten := by
    rw [shownCells]
    split
    · next hnil => simp [hnil]
    · simp [List.mem_flatten, mem_spaced newline space]
  induction rows with
  | nil => rfl
  | cons row rows ih =>
    rw [List.map_cons, List.flatten_cons, List.flatten_append, List.mem_append, List.flatten_cons,
      List.flatten_append, List.mem_append]
    exact or_congr (hrow row) ih

end Docsage
