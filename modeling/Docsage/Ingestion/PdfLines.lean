import Docsage.Ingestion.DotNet
import Docsage.Library.Fields
import Docsage.Text.Units

/-! # The lines of a PDF page

`PdfExtractor` sorts the lines of a page into text and table lines, and flushes both at
every blank line and at the end. A lone table line goes back to the text lines, after
these were flushed: at the end of the page nothing flushes them again.
-/

namespace Docsage.DotNet
open Text

/-- `Environment.NewLine`. -/
inductive Platform where
  | unix
  | windows
deriving DecidableEq

def Platform.newLine : Platform → Utf16
  | .unix => [0x0A]
  | .windows => [0x0D, 0x0A]

def splitLines (text : Utf16) : List Utf16 := text.splitOnP (· == 0x0A)

def joinLines (lines : List Utf16) : Utf16 := [0x0A].intercalate lines

def trimEndUnits (s : Utf16) : Utf16 := s.rdropWhile isWhiteSpaceUnit

def escapePipes (s : Utf16) : Utf16 := s.flatMap fun u => if u = 0x7C then [0x5C, 0x7C] else [u]

def pipeRow (cells : List Utf16) : Utf16 :=
  utf16 "| " ++ (utf16 " | ").intercalate cells ++ utf16 " |"

/-- `CellSplit.Split`, at the matches of `(?:  )+`. A match is greedy: behind one pair of spaces
every further pair belongs to it. -/
def cellSplit : Bool → Utf16 → Utf16 → List Utf16
  | _, cell, [] => [cell]
  | _, cell, [u] => [cell ++ [u]]
  | matched, cell, u :: v :: rest =>
    if u = 0x20 ∧ v = 0x20 then
      if matched then cellSplit true [] rest else cell :: cellSplit true [] rest
    else cellSplit false (cell ++ [u]) (v :: rest)

def isTableLine (line : Utf16) : Bool := 3 ≤ (cellSplit false [] line).length

/-- What is known of a page between two lines. -/
structure PageState where
  parts : List ExtractedPart := []
  textLines : List Utf16 := []
  tableLines : List Utf16 := []

section

variable (platform : Platform) (pageNumber : ℕ)

def tableRow (line : Utf16) : Utf16 :=
  pipeRow ((cellSplit false [] (trimUnits line)).map fun c => escapePipes (trimUnits c)) ++
    platform.newLine

def flushText (s : PageState) : PageState :=
  if s.textLines = [] then s
  else { s with
    parts := s.parts ++ [{ kind := .text, content := joinLines s.textLines
                           page := some pageNumber }]
    textLines := [] }

/-- `FlushTable`; a lone gap-separated line is ordinary text. -/
def flushTable (s : PageState) : PageState :=
  if s.tableLines.length < 2 then
    { s with textLines := s.textLines ++ s.tableLines, tableLines := [] }
  else { s with
    parts := s.parts ++ [{ kind := .table, content := s.tableLines.flatMap (tableRow platform)
                           page := some pageNumber }]
    tableLines := [] }

/-- One turn of the loop over the lines. -/
def pageLine (s : PageState) (rawLine : Utf16) : PageState :=
  let line := trimEndUnits rawLine
  if line = [] then flushTable platform pageNumber (flushText pageNumber s)
  else if isTableLine line then { s with tableLines := s.tableLines ++ [line] }
  else { s with textLines := s.textLines ++ [line] }

def pageParts (text : Utf16) : List ExtractedPart :=
  if text.all isWhiteSpaceUnit then []
  else
    let s := (splitLines text).foldl (pageLine platform pageNumber) {}
    (flushTable platform pageNumber (flushText pageNumber s)).parts

end

/-- `PdfExtractor.ExtractAsync` on the texts of the pages. -/
def pdfExtract (platform : Platform) (pages : List Utf16) : List ExtractedPart :=
  pages.zipIdx.flatMap fun page => pageParts platform (page.2 + 1) page.1

def trimmedLines (text : Utf16) : List Utf16 := (splitLines text).map trimEndUnits

def nonBlankLines (text : Utf16) : List Utf16 := (trimmedLines text).filter (· ≠ [])

/-- The gap-separated lines behind the last blank line. -/
def openTableLines (text : Utf16) : List Utf16 :=
  ((trimmedLines text).rtakeWhile (· ≠ [])).filter isTableLine

/-- A part shows some lines, as text or as the rows of a table. -/
inductive Shows (platform : Platform) (part : ExtractedPart) (lines : List Utf16) : Prop where
  | text (kind : part.kind = .text) (nonempty : lines ≠ [])
      (content : part.content = joinLines lines)
  | table (kind : part.kind = .table) (content : part.content = lines.flatMap (tableRow platform))

/-- Every line of a page that is not blank is shown by exactly one of its parts. -/
def LinesConserved (platform : Platform) (pageNumber : ℕ) (text : Utf16) : Prop :=
  ∃ placed, List.Forall₂ (Shows platform) (pageParts platform pageNumber text) placed ∧
    placed.flatten.Perm (nonBlankLines text)

section

variable {platform : Platform} {pageNumber : ℕ} {s : PageState} {lines : List Utf16}

/-- Every line is shown by a part or still in a buffer. -/
def Keeps (platform : Platform) (lines : List Utf16) (s : PageState) : Prop :=
  ∃ placed, List.Forall₂ (Shows platform) s.parts placed ∧
    (placed.flatten ++ (s.textLines ++ s.tableLines)).Perm lines

@[simp] theorem flushText_textLines : (flushText pageNumber s).textLines = [] := by
  rw [flushText]
  split
  · assumption
  · rfl

@[simp] theorem flushText_tableLines : (flushText pageNumber s).tableLines = s.tableLines := by
  rw [flushText]
  split <;> rfl

@[simp] theorem flushTable_tableLines : (flushTable platform pageNumber s).tableLines = [] := by
  rw [flushTable]
  split <;> rfl

theorem flushTable_textLines : (flushTable platform pageNumber s).textLines =
    if s.tableLines.length < 2 then s.textLines ++ s.tableLines else s.textLines := by
  rw [flushTable]
  split <;> rfl

theorem Keeps.flushText (h : Keeps platform lines s) :
    Keeps platform lines (flushText pageNumber s) := by
  rw [DotNet.flushText]
  split
  · exact h
  · next hne =>
    obtain ⟨placed, hshows, hperm⟩ := h
    refine ⟨placed ++ [s.textLines], List.rel_append hshows (.cons (.text rfl hne rfl) .nil), ?_⟩
    simpa using hperm

theorem Keeps.flushTable (h : Keeps platform lines s) :
    Keeps platform lines (flushTable platform pageNumber s) := by
  obtain ⟨placed, hshows, hperm⟩ := h
  rw [DotNet.flushTable]
  split
  · exact ⟨placed, hshows, by simpa using hperm⟩
  · refine ⟨placed ++ [s.tableLines], List.rel_append hshows (.cons (.table rfl rfl) .nil), ?_⟩
    have hswap : (s.tableLines ++ s.textLines).Perm (s.textLines ++ s.tableLines) :=
      List.perm_append_comm
    simpa using (hswap.append_left placed.flatten).trans hperm

/-- One line keeps every line, and the open table lines are those behind the last blank line. -/
theorem pageLine_keeps {before : List Utf16} (rawLine : Utf16)
    (keeps : Keeps platform (before.filter (· ≠ [])) s)
    (open_ : s.tableLines = (before.rtakeWhile (· ≠ [])).filter isTableLine) :
    Keeps platform ((before ++ [trimEndUnits rawLine]).filter (· ≠ []))
        (pageLine platform pageNumber s rawLine) ∧
      (pageLine platform pageNumber s rawLine).tableLines =
        ((before ++ [trimEndUnits rawLine]).rtakeWhile (· ≠ [])).filter isTableLine := by
  simp only [pageLine]
  by_cases hblank : trimEndUnits rawLine = []
  · rw [if_pos hblank, hblank, List.filter_append, List.rtakeWhile_concat_neg _ _ _ (by simp)]
    refine ⟨?_, flushTable_tableLines⟩
    simpa using keeps.flushText.flushTable
  · have hkept : (before ++ [trimEndUnits rawLine]).filter (· ≠ []) =
        before.filter (· ≠ []) ++ [trimEndUnits rawLine] := by
      simp [hblank]
    obtain ⟨placed, hshows, hperm⟩ := keeps
    rw [if_neg hblank, hkept, List.rtakeWhile_concat_pos _ _ _ (by simpa using hblank),
      List.filter_append, ← open_]
    split
    · next htable =>
      refine ⟨⟨placed, hshows, ?_⟩, by simp [htable]⟩
      simpa using hperm.append_right [trimEndUnits rawLine]
    · next htext =>
      refine ⟨⟨placed, hshows, ?_⟩, by simp [htext]⟩
      have hmove : ([trimEndUnits rawLine] ++ s.tableLines).Perm
          (s.tableLines ++ [trimEndUnits rawLine]) := List.perm_append_comm
      have hlast := (hmove.append_left (placed.flatten ++ s.textLines)).trans
        (by simpa using hperm.append_right [trimEndUnits rawLine])
      simpa using hlast

theorem foldl_pageLine (rawLines : List Utf16) :
    Keeps platform ((rawLines.map trimEndUnits).filter (· ≠ []))
        (rawLines.foldl (pageLine platform pageNumber) {}) ∧
      (rawLines.foldl (pageLine platform pageNumber) {}).tableLines =
        ((rawLines.map trimEndUnits).rtakeWhile (· ≠ [])).filter isTableLine := by
  induction rawLines using List.reverseRecOn with
  | nil => exact ⟨⟨[], .nil, .nil⟩, rfl⟩
  | append_singleton rawLines rawLine ih =>
    rw [List.foldl_append, List.map_append]
    exact pageLine_keeps rawLine ih.1 ih.2

/-- The lines that the last two flushes leave behind. -/
def lostLines (text : Utf16) : List Utf16 :=
  if (openTableLines text).length < 2 then openTableLines text else []

theorem trimmedLines_of_all {text : Utf16} (blank : text.all isWhiteSpaceUnit = true) :
    ∀ line ∈ trimmedLines text, line = [] := by
  refine List.forall_mem_map.mpr fun line hline => List.rdropWhile_eq_nil_iff.mpr fun u hu => ?_
  exact List.all_eq_true.mp blank u (Fields.splitOnP_subset hline u hu)

/-- The parts of a page show its lines, but for those that are left behind. -/
theorem pageParts_placed (platform : Platform) (pageNumber : ℕ) (text : Utf16) :
    ∃ placed, List.Forall₂ (Shows platform) (pageParts platform pageNumber text) placed ∧
      (placed.flatten ++ lostLines text).Perm (nonBlankLines text) := by
  rw [pageParts]
  split
  · next hblank =>
    have htrimmed := trimmedLines_of_all hblank
    have hlines : nonBlankLines text = [] :=
      List.filter_eq_nil_iff.mpr fun line hline => by simp [htrimmed line hline]
    have hopen : openTableLines text = [] := by
      have htail : (trimmedLines text).rtakeWhile (· ≠ []) = [] :=
        List.rtakeWhile_eq_nil_iff.mpr fun hne => by
          simp [htrimmed _ (List.getLast_mem hne)]
      rw [openTableLines, htail, List.filter_nil]
    exact ⟨[], .nil, by simp [lostLines, hopen, hlines]⟩
  · obtain ⟨hkeeps, hopen⟩ := @foldl_pageLine platform pageNumber (splitLines text)
    obtain ⟨placed, hshows, hperm⟩ := @Keeps.flushTable _ pageNumber _ _
      (@Keeps.flushText _ pageNumber _ _ hkeeps)
    refine ⟨placed, hshows, ?_⟩
    rw [flushTable_tableLines, List.append_nil, flushTable_textLines, flushText_tableLines,
      flushText_textLines, hopen, List.nil_append] at hperm
    exact hperm

theorem notMem_nonBlankLines {text line : Utf16} (h : line ∈ nonBlankLines text) :
    (0x0A : UInt16) ∉ line := by
  obtain ⟨hline, -⟩ := List.mem_filter.mp h
  obtain ⟨rawLine, hraw, rfl⟩ := List.mem_map.mp hline
  intro hmem
  have hu := Fields.mem_splitOnP hraw _ ((List.rdropWhile_prefix _ _).subset hmem)
  exact absurd hu (by decide)

theorem mem_cellSplit {matched : Bool} {open_ rest cell : Utf16}
    (h : cell ∈ cellSplit matched open_ rest) : ∀ u ∈ cell, u ∈ open_ ++ rest := by
  fun_induction cellSplit matched open_ rest with
  | case1 => simp_all
  | case2 => simp_all
  | case3 open_ u v rest hspaces ih =>
    intro w hw
    exact List.mem_append_right _ (List.mem_cons_of_mem _ (List.mem_cons_of_mem _ (ih h w hw)))
  | case4 matched open_ u v rest hspaces hmatched ih =>
    intro w hw
    rcases List.mem_cons.mp h with rfl | h
    · exact List.mem_append_left _ hw
    · exact List.mem_append_right _ (List.mem_cons_of_mem _ (List.mem_cons_of_mem _ (ih h w hw)))
  | case5 matched open_ u v rest hspaces ih =>
    intro w hw
    simpa using ih h w hw

theorem notMem_pipeRow {cells : List Utf16} (h : ∀ cell ∈ cells, (0x0A : UInt16) ∉ cell) :
    (0x0A : UInt16) ∉ pipeRow cells := by
  have hcells : (0x0A : UInt16) ∉ (utf16 " | ").intercalate cells := by
    intro hmem
    rcases Fields.mem_intercalate hmem with hbar | ⟨cell, hcell, hin⟩
    · exact absurd hbar (by decide)
    · exact h cell hcell hin
  rw [pipeRow, List.mem_append, List.mem_append, not_or, not_or]
  exact ⟨⟨by decide, hcells⟩, by decide⟩

theorem notMem_escapePipes {cell : Utf16} (h : (0x0A : UInt16) ∉ cell) :
    (0x0A : UInt16) ∉ escapePipes cell := by
  intro hmem
  obtain ⟨u, hu, hin⟩ := List.mem_flatMap.mp hmem
  split at hin
  · exact absurd hin (by decide)
  · rw [List.mem_singleton.mp hin] at h
    exact h hu

theorem count_tableRow {line : Utf16} (h : (0x0A : UInt16) ∉ line) :
    (tableRow platform line).count 0x0A = 1 := by
  have hcells : ∀ cell ∈ (cellSplit false [] (trimUnits line)).map
      (fun c => escapePipes (trimUnits c)), (0x0A : UInt16) ∉ cell := by
    refine List.forall_mem_map.mpr fun c hc => notMem_escapePipes fun hmem => h ?_
    have hin := mem_cellSplit hc _ ((dropAround_sublist _ _).subset hmem)
    exact (dropAround_sublist _ _).subset hin
  rw [tableRow, List.count_append, List.count_eq_zero.mpr (notMem_pipeRow hcells), Nat.zero_add]
  cases platform <;> rfl

theorem count_joinLines (nonempty : lines ≠ [])
    (free : ∀ line ∈ lines, (0x0A : UInt16) ∉ line) :
    (joinLines lines).count 0x0A + 1 = lines.length := by
  induction lines with
  | nil => exact absurd rfl nonempty
  | cons line lines ih =>
    obtain ⟨hline, hlines⟩ := List.forall_mem_cons.mp free
    have hcount := List.count_eq_zero.mpr hline
    cases lines with
    | nil => simp [joinLines, hcount]
    | cons next lines =>
      have hrest := ih (List.cons_ne_nil _ _) hlines
      rw [joinLines, List.intercalate_cons_cons, List.count_append, List.count_append, hcount,
        ← joinLines, List.length_cons, ← hrest]
      simp
      omega

theorem count_rows (free : ∀ line ∈ lines, (0x0A : UInt16) ∉ line) :
    (lines.flatMap (tableRow platform)).count 0x0A = lines.length := by
  induction lines with
  | nil => rfl
  | cons line lines ih =>
    obtain ⟨hline, hlines⟩ := List.forall_mem_cons.mp free
    rw [List.flatMap_cons, List.count_append, count_tableRow hline, ih hlines, List.length_cons,
      Nat.add_comm]

/-- The number of lines that a part shows, read off its content. -/
def shownCount (part : ExtractedPart) : ℕ :=
  part.content.count 0x0A + if part.kind = .text then 1 else 0

theorem Shows.length_eq {part : ExtractedPart} (h : Shows platform part lines)
    (free : ∀ line ∈ lines, (0x0A : UInt16) ∉ line) : lines.length = shownCount part := by
  cases h with
  | text kind nonempty content =>
    rw [shownCount, content, if_pos kind, count_joinLines nonempty free]
  | table kind content =>
    rw [shownCount, content, kind, if_neg (by decide), Nat.add_zero, count_rows free]

theorem length_placed {parts : List ExtractedPart} {placed : List (List Utf16)}
    (shows : List.Forall₂ (Shows platform) parts placed)
    (free : ∀ line ∈ placed.flatten, (0x0A : UInt16) ∉ line) :
    placed.flatten.length = (parts.map shownCount).sum := by
  induction shows with
  | nil => rfl
  | cons hshows _ ih =>
    obtain ⟨hfirst, hrest⟩ := List.forall_mem_append.mp free
    rw [List.flatten_cons, List.length_append, hshows.length_eq hfirst, ih hrest, List.map_cons,
      List.sum_cons]

/-- A page keeps its lines exactly where the lines behind its last blank line are not left with one
gap-separated line among them. -/
theorem linesConserved_iff (platform : Platform) (pageNumber : ℕ) (text : Utf16) :
    LinesConserved platform pageNumber text ↔ (openTableLines text).length ≠ 1 := by
  obtain ⟨placed, hshows, hperm⟩ := pageParts_placed platform pageNumber text
  constructor
  · rintro ⟨placed', hshows', hperm'⟩ hone
    have hlost : lostLines text = openTableLines text := if_pos (by omega)
    have hfree : ∀ line ∈ placed.flatten, (0x0A : UInt16) ∉ line := fun line hline =>
      notMem_nonBlankLines (hperm.subset (List.mem_append_left _ hline))
    have hfree' : ∀ line ∈ placed'.flatten, (0x0A : UInt16) ∉ line := fun line hline =>
      notMem_nonBlankLines (hperm'.subset hline)
    have hlength := hperm.length_eq
    rw [List.length_append, hlost, hone, length_placed hshows hfree, ← hperm'.length_eq,
      length_placed hshows' hfree'] at hlength
    omega
  · intro hopen
    have hlost : lostLines text = [] := by
      rw [lostLines]
      split
      · exact List.length_eq_zero_iff.mp (by omega)
      · rfl
    rw [hlost, List.append_nil] at hperm
    exact ⟨placed, hshows, hperm⟩

end

/-- A page that is one gap-separated line has no parts. -/
theorem lone_row_lost : ¬ LinesConserved .unix 1 (utf16 "Item  Qty  Price") := by
  have hparts : pageParts .unix 1 (utf16 "Item  Qty  Price") = [] := rfl
  rintro ⟨placed, hshows, hperm⟩
  rw [hparts, List.forall₂_nil_left_iff] at hshows
  rw [hshows, List.flatten_nil, List.nil_perm] at hperm
  exact absurd hperm (by decide)

end Docsage.DotNet
