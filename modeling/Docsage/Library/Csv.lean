import Docsage.Library.Fields
import Docsage.Library.Program
import Mathlib.Control.Basic
import Mathlib.Tactic.Common

/-! # Comma-separated values

The reader is a machine that is fed one line at a time, without the line ends; a quoted
field may go on over several lines, and the reader adds nothing where they met. The
writer quotes what would be read differently. Reading back what was written gives every
cell without its newlines.
-/

namespace Csv
open Effects

/-- What the reader expects next. -/
inductive Mode where
  | startRecord
  | startField
  | inField
  | inQuotedField
  | quoteInQuotedField
  | eatNewline
deriving DecidableEq

inductive Fault where
  | fieldLimit
  | newlineInUnquotedField

abbrev Row := List (List Char)

structure Reader where
  mode : Mode := .startRecord
  field : List Char := []
  fields : Row := []

def isNewline (c : Char) : Bool := c = '\n' || c = '\r'

namespace Reader

def add (limit : ℕ) (r : Reader) (c : Char) (mode : Mode) : Except Fault Reader :=
  if limit ≤ r.field.length then .error .fieldLimit
  else .ok { r with mode, field := r.field ++ [c] }

def save (r : Reader) (mode : Mode) : Reader := { mode, fields := r.fields ++ [r.field] }

def openField (limit : ℕ) (r : Reader) (c : Char) : Except Fault Reader :=
  if c = '"' then .ok { r with mode := .inQuotedField }
  else if c = ',' then .ok (r.save .startField)
  else r.add limit c .inField

def step (limit : ℕ) (r : Reader) (c : Char) : Except Fault Reader :=
  match r.mode with
  | .startRecord => if isNewline c then .ok { r with mode := .eatNewline } else r.openField limit c
  | .startField => if isNewline c then .ok (r.save .eatNewline) else r.openField limit c
  | .inField =>
    if isNewline c then .ok (r.save .eatNewline)
    else if c = ',' then .ok (r.save .startField)
    else r.add limit c .inField
  | .inQuotedField =>
    if c = '"' then .ok { r with mode := .quoteInQuotedField }
    else r.add limit c .inQuotedField
  | .quoteInQuotedField =>
    if c = '"' then r.add limit c .inQuotedField
    else if c = ',' then .ok (r.save .startField)
    else if isNewline c then .ok (r.save .eatNewline)
    else r.add limit c .inField
  | .eatNewline => if isNewline c then .ok r else .error .newlineInUnquotedField

/-- The end of a line. An empty line is a record without fields. -/
def endLine (r : Reader) : Reader :=
  match r.mode with
  | .startRecord | .inQuotedField => r
  | .eatNewline => { r with mode := .startRecord }
  | .startField | .inField | .quoteInQuotedField => r.save .startRecord

end Reader

/-- All records. What is open at the end of the input is a record too. -/
def records (limit : ℕ) : Reader → List (List Char) → Except Fault (List Row)
  | r, [] =>
    .ok (if r.mode = .inQuotedField ∨ r.field ≠ [] then [(r.save .startRecord).fields] else [])
  | r, line :: rest => do
    let r ← line.foldlM (Reader.step limit) r
    if r.endLine.mode = .startRecord then
      return r.endLine.fields :: (← records limit {} rest)
    else records limit r.endLine rest

def needsQuotes (cell : List Char) : Bool := cell.any fun c => c = ',' || c = '"' || c = '\n'

def double (cell : List Char) : List Char :=
  cell.flatMap fun c => if c = '"' then ['"', '"'] else [c]

def writeField (cell : List Char) : List Char :=
  if needsQuotes cell then '"' :: (double cell ++ ['"']) else cell

def writeRecord (row : Row) : List Char := [','].intercalate (row.map writeField)

/-- A file; the last record may or may not have an ending line break. -/
def write (finalBreak : Bool) (rows : List Row) : List Char :=
  ['\r', '\n'].intercalate (rows.map writeRecord) ++ if finalBreak then ['\r', '\n'] else []

def unbroken (cell : List Char) : List Char := cell.filter (· ≠ '\n')

def readField (limit : ℕ) (cell : List Char) : Except Fault (List Char) :=
  if limit < (unbroken cell).length then .error .fieldLimit else .ok (unbroken cell)

/-- What is read of a written record: one empty cell is an empty line. -/
def readRow (limit : ℕ) (row : Row) : Except Fault Row :=
  if row = [[]] then .ok [] else row.mapM (readField limit)

def feed (limit : ℕ) (r : Reader) (more : List (List Char)) (text : List Char) :
    Except Fault (List Row) :=
  records limit r (text.splitOnP (· == '\n') ++ more)

section

variable {limit : ℕ} {r : Reader} {more : List (List Char)} {text : List Char}

theorem records_cons (c : Char) (line : List Char) (rest : List (List Char)) :
    records limit r ((c :: line) :: rest) =
      r.step limit c >>= fun r => records limit r (line :: rest) := by
  simp only [records, List.foldlM_cons, bind_assoc]

theorem feed_cons {c : Char} (hc : c ≠ '\n') :
    feed limit r more (c :: text) = r.step limit c >>= fun r => feed limit r more text := by
  obtain ⟨line, lines, hsplit⟩ := List.exists_cons_of_ne_nil (List.splitOnP_ne_nil (· == '\n') text)
  simp only [feed, List.splitOnP_cons_eq_if_modifyHead, beq_iff_eq, if_neg hc, hsplit,
    List.modifyHead_cons, List.cons_append, records_cons]

theorem feed_nil : feed limit r more [] =
    if r.endLine.mode = .startRecord then do return r.endLine.fields :: (← records limit {} more)
    else records limit r.endLine more := by
  simp only [feed, List.splitOnP_nil, List.singleton_append, records, List.foldlM_nil, pure_bind]

theorem feed_newline (h : r.mode = .inQuotedField) :
    feed limit r more ('\n' :: text) = feed limit r more text := by
  have hend : r.endLine = r := by rw [Reader.endLine, h]
  simp only [feed, List.splitOnP_cons_eq_if_modifyHead, beq_self_eq_true, if_true,
    List.cons_append, records, List.foldlM_nil, pure_bind, hend, h]
  rfl

variable {field : List Char} {fields : Row}

theorem add_eq (c : Char) (mode : Mode) :
    (r.add limit c mode : Except Fault Reader) =
      if limit < r.field.length + 1 then .error .fieldLimit
      else .ok { r with mode, field := r.field ++ [c] } := by
  simp only [Reader.add, Nat.lt_succ_iff]

/-- A quoted character: a quote is written twice. -/
theorem feed_quoted {c : Char} (hc : c ≠ '\n') :
    feed limit ⟨.inQuotedField, field, fields⟩ more
        ((if c = '"' then ['"', '"'] else [c]) ++ text) =
      if limit < field.length + 1 then .error .fieldLimit
      else feed limit ⟨.inQuotedField, field ++ [c], fields⟩ more text := by
  by_cases hquote : c = '"'
  · subst hquote
    rw [if_pos rfl, List.cons_append, List.cons_append, feed_cons (by decide)]
    change feed limit ⟨.quoteInQuotedField, field, fields⟩ more ('"' :: text) = _
    rw [feed_cons (by decide)]
    change Reader.add limit _ '"' .inQuotedField >>= _ = _
    rw [add_eq]
    split <;> rfl
  · rw [if_neg hquote, List.cons_append, feed_cons hc]
    simp only [Reader.step, if_neg hquote]
    rw [add_eq]
    split <;> rfl

theorem feed_double (cell : List Char) (fits : field.length ≤ limit) :
    feed limit ⟨.inQuotedField, field, fields⟩ more (double cell ++ '"' :: text) =
      if limit < (field ++ unbroken cell).length then .error .fieldLimit
      else feed limit ⟨.quoteInQuotedField, field ++ unbroken cell, fields⟩ more text := by
  induction cell generalizing field with
  | nil =>
    simp only [double, unbroken, List.flatMap_nil, List.nil_append, List.filter_nil,
      List.append_nil]
    rw [if_neg (Nat.not_lt.mpr fits), feed_cons (by decide)]
    rfl
  | cons c cell ih =>
    rw [double, List.flatMap_cons, List.append_assoc, ← double]
    by_cases hc : c = '\n'
    · subst hc
      exact (feed_newline rfl).trans (ih fits)
    · have hunbroken : unbroken (c :: cell) = c :: unbroken cell :=
        List.filter_cons_of_pos (by simpa using hc)
      rw [feed_quoted hc, hunbroken]
      by_cases hroom : limit < field.length + 1
      · have hlong : limit < (field ++ c :: unbroken cell).length := by
          rw [List.length_append, List.length_cons]
          omega
        rw [if_pos hroom, if_pos hlong]
      · have hfits : (field ++ [c]).length ≤ limit := by
          rw [List.length_append, List.length_singleton]
          omega
        rw [if_neg hroom, ih hfits, List.append_assoc, List.singleton_append]

theorem unbroken_eq_self {cell : List Char} : unbroken cell = cell ↔ '\n' ∉ cell := by
  rw [unbroken, List.filter_eq_self]
  constructor
  · intro h hmem
    simpa using h '\n' hmem
  · intro h c hc
    simpa using fun hnewline : c = '\n' => h (hnewline ▸ hc)

theorem unbroken_of_plain {cell : List Char} (plain : ¬ needsQuotes cell = true) :
    unbroken cell = cell := by
  refine unbroken_eq_self.mpr fun hmem => plain ?_
  exact List.any_eq_true.mpr ⟨'\n', hmem, rfl⟩

theorem feed_unquoted {cell : List Char} (plain : ∀ c ∈ cell, c ≠ ',' ∧ isNewline c = false)
    (fits : field.length ≤ limit) :
    feed limit ⟨.inField, field, fields⟩ more (cell ++ text) =
      if limit < (field ++ cell).length then .error .fieldLimit
      else feed limit ⟨.inField, field ++ cell, fields⟩ more text := by
  induction cell generalizing field with
  | nil =>
    rw [List.append_nil, if_neg (Nat.not_lt.mpr fits), List.nil_append]
  | cons c cell ih =>
    obtain ⟨⟨hcomma, hnewline⟩, hrest⟩ := List.forall_mem_cons.mp plain
    have hc : c ≠ '\n' := by
      rintro rfl
      cases hnewline
    rw [List.cons_append, feed_cons hc]
    simp only [Reader.step, hnewline, if_neg hcomma, Bool.false_eq_true, if_false]
    rw [add_eq]
    by_cases hroom : limit < field.length + 1
    · have hlong : limit < (field ++ c :: cell).length := by
        rw [List.length_append, List.length_cons]
        omega
      rw [if_pos hroom, if_pos hlong]
      rfl
    · have hfits : (field ++ [c]).length ≤ limit := by
        rw [List.length_append, List.length_singleton]
        omega
      have hih := ih hrest hfits
      rw [List.append_assoc, List.singleton_append] at hih
      rw [if_neg hroom, ← hih]
      rfl

def Closes (mode : Mode) : Prop := mode = .quoteInQuotedField ∨ mode = .startField ∨ mode = .inField

/-- A text at the start of a field is read as one field, or faults. -/
def ReadsAs (limit : ℕ) (text : List Char) (result : Except Fault (List Char)) : Prop :=
  ∃ mode, Closes mode ∧ ∀ fields more rest,
    feed limit ⟨.startField, [], fields⟩ more (text ++ rest) =
      result >>= fun c => feed limit ⟨mode, c, fields⟩ more rest

theorem feed_first {cell : List Char} (plain : ∀ c ∈ cell, c ≠ ',' ∧ isNewline c = false)
    (unquoted : cell.head? ≠ some '"') (nonempty : cell ≠ []) :
    feed limit ⟨.startField, [], fields⟩ more (cell ++ text) =
      if limit < cell.length then .error .fieldLimit
      else feed limit ⟨.inField, cell, fields⟩ more text := by
  obtain ⟨c, cell, rfl⟩ := List.exists_cons_of_ne_nil nonempty
  obtain ⟨⟨hcomma, hnewline⟩, hrest⟩ := List.forall_mem_cons.mp plain
  have hquote : c ≠ '"' := fun h => unquoted (congrArg some h)
  have hc : c ≠ '\n' := by
    rintro rfl
    cases hnewline
  rw [List.cons_append, feed_cons hc]
  simp only [Reader.step, Reader.openField, hnewline, if_neg hcomma, if_neg hquote,
    Bool.false_eq_true, if_false]
  rw [add_eq]
  by_cases hroom : limit < ([] : List Char).length + 1
  · have hlong : limit < (c :: cell).length := by
      rw [List.length_cons]
      exact Nat.lt_of_lt_of_le hroom (by simp)
    rw [if_pos hroom, if_pos hlong]
    rfl
  · rw [if_neg hroom]
    exact @feed_unquoted _ _ _ [c] _ _ hrest (Nat.not_lt.mp hroom)

theorem readsAs_unquoted {cell : List Char} (plain : ∀ c ∈ cell, c ≠ ',' ∧ isNewline c = false)
    (unquoted : cell.head? ≠ some '"') :
    ReadsAs limit cell (if limit < cell.length then .error .fieldLimit else .ok cell) := by
  by_cases hempty : cell = []
  · subst hempty
    exact ⟨.startField, .inr (.inl rfl), fun fields more rest => rfl⟩
  · refine ⟨.inField, .inr (.inr rfl), fun fields more rest => ?_⟩
    rw [feed_first plain unquoted hempty]
    split <;> rfl

theorem readsAs_writeField {cell : List Char} (noReturn : '\r' ∉ cell) :
    ReadsAs limit (writeField cell) (readField limit cell) := by
  by_cases hquotes : needsQuotes cell = true
  · refine ⟨.quoteInQuotedField, .inl rfl, fun fields more rest => ?_⟩
    have hcell : feed limit ⟨.inQuotedField, [], fields⟩ more (double cell ++ '"' :: rest) =
        if limit < (unbroken cell).length then .error .fieldLimit
        else feed limit ⟨.quoteInQuotedField, unbroken cell, fields⟩ more rest :=
      feed_double cell (Nat.zero_le _)
    rw [writeField, if_pos hquotes, List.cons_append, List.append_assoc, List.singleton_append,
      feed_cons (by decide), readField]
    change feed limit ⟨.inQuotedField, [], fields⟩ more (double cell ++ '"' :: rest) = _
    rw [hcell]
    split <;> rfl
  · have hplain : ∀ c ∈ cell, (c ≠ ',' ∧ c ≠ '"') ∧ c ≠ '\n' := by
      simpa [needsQuotes, not_or] using hquotes
    rw [writeField, if_neg hquotes, readField, unbroken_of_plain hquotes]
    refine readsAs_unquoted (fun c hc => ⟨(hplain c hc).1.1, ?_⟩) fun h =>
      (hplain '"' (List.mem_of_head? h)).1.2 rfl
    have hreturn : c ≠ '\r' := fun h => noReturn (h ▸ hc)
    simp [isNewline, (hplain c hc).2, hreturn]

theorem feed_comma {mode : Mode} (closes : Closes mode) (field : List Char) :
    feed limit ⟨mode, field, fields⟩ more (',' :: text) =
      feed limit ⟨.startField, [], fields ++ [field]⟩ more text := by
  rw [feed_cons (by decide)]
  rcases closes with rfl | rfl | rfl <;> rfl

theorem feed_end {mode : Mode} (closes : Closes mode) (field : List Char) :
    feed limit ⟨mode, field, fields⟩ more [] =
      (do return (fields ++ [field]) :: (← records limit {} more)) := by
  rw [feed_nil]
  rcases closes with rfl | rfl | rfl <;> rfl

theorem feed_fields {write : List Char → List Char}
    {result : List Char → Except Fault (List Char)} {cell : List Char} {cells : Row}
    (reads : ∀ c ∈ cell :: cells, ReadsAs limit (write c) (result c)) :
    feed limit ⟨.startField, [], fields⟩ more ([','].intercalate ((cell :: cells).map write)) =
      (cell :: cells).mapM result >>= fun row =>
        (do return (fields ++ row) :: (← records limit {} more)) := by
  induction cells generalizing cell fields with
  | nil =>
    obtain ⟨mode, hcloses, hreads⟩ := reads cell List.mem_cons_self
    have htext : [','].intercalate ([cell].map write) = write cell ++ [] := by simp
    rw [htext, hreads]
    simp only [feed_end hcloses, List.mapM_cons, List.mapM_nil, bind_assoc, pure_bind]
  | cons next cells ih =>
    obtain ⟨⟨mode, hcloses, hreads⟩, hcells⟩ := List.forall_mem_cons.mp reads
    have htext : [','].intercalate ((cell :: next :: cells).map write) =
        write cell ++ ',' :: [','].intercalate ((next :: cells).map write) := by
      simp [List.intercalate_cons_cons]
    rw [htext, hreads, List.mapM_cons]
    simp only [feed_comma hcloses, ih hcells, bind_assoc, pure_bind, List.append_assoc,
      List.singleton_append]

/-- The first character of a record that is not an empty line. -/
theorem feed_startRecord {c : Char} (h : isNewline c = false) :
    feed limit {} more (c :: text) = feed limit ⟨.startField, [], []⟩ more (c :: text) := by
  have hc : c ≠ '\n' := by
    rintro rfl
    cases h
  rw [feed_cons hc, feed_cons hc]
  simp only [Reader.step, h, Bool.false_eq_true, if_false]
  rfl

theorem writeRecord_head {row : Row} (noReturn : ∀ c ∈ row, '\r' ∉ c) (nonempty : row ≠ [])
    (notEmptyLine : row ≠ [[]]) :
    ∃ c text, writeRecord row = c :: text ∧ isNewline c = false := by
  obtain ⟨cell, cells, rfl⟩ := List.exists_cons_of_ne_nil nonempty
  have hfield : writeField cell = [] ∨ ∃ c text, writeField cell = c :: text ∧
      isNewline c = false := by
    rw [writeField]
    split
    · exact .inr ⟨_, _, rfl, rfl⟩
    · next hplain =>
      cases cell with
      | nil => exact .inl rfl
      | cons c text =>
        have hreturn : c ≠ '\r' := fun h => noReturn _ List.mem_cons_self (h ▸ List.mem_cons_self)
        have hnewline : c ≠ '\n' := fun h => hplain (by simp [needsQuotes, h])
        exact .inr ⟨c, text, rfl, by simp [isNewline, hreturn, hnewline]⟩
  cases cells with
  | nil =>
    have hrecord : writeRecord [cell] = writeField cell := by simp [writeRecord]
    rw [hrecord]
    refine hfield.resolve_left fun hnil => notEmptyLine ?_
    cases cell with
    | nil => rfl
    | cons c text =>
      rw [writeField] at hnil
      split at hnil <;> cases hnil
  | cons next cells =>
    have hrecord : writeRecord (cell :: next :: cells) =
        writeField cell ++ ',' :: writeRecord (next :: cells) := by
      simp [writeRecord, List.intercalate_cons_cons]
    rw [hrecord]
    rcases hfield with hnil | ⟨c, text, hcons, hc⟩
    · exact ⟨',', _, by rw [hnil]; rfl, rfl⟩
    · exact ⟨c, _, by rw [hcons]; rfl, hc⟩

/-- Reading a written record, and going on with the next line. -/
theorem feed_writeRecord {row : Row} (noReturn : ∀ c ∈ row, '\r' ∉ c) (nonempty : row ≠ []) :
    feed limit {} more (writeRecord row) =
      readRow limit row >>= fun row => (do return row :: (← records limit {} more)) := by
  by_cases hline : row = [[]]
  · subst hline
    rw [readRow, if_pos rfl]
    exact feed_nil
  · obtain ⟨c, text, hwrite, hc⟩ := writeRecord_head noReturn nonempty hline
    obtain ⟨cell, cells, rfl⟩ := List.exists_cons_of_ne_nil nonempty
    rw [readRow, if_neg hline, hwrite, feed_startRecord hc, ← hwrite, writeRecord,
      feed_fields fun c hc => readsAs_writeField (noReturn c hc)]
    rfl

/-- Reading back all records. -/
theorem records_write {rows : List Row} (noReturn : ∀ row ∈ rows, ∀ c ∈ row, '\r' ∉ c)
    (nonempty : ∀ row ∈ rows, row ≠ []) :
    records limit {} (rows.flatMap fun row => (writeRecord row).splitOnP (· == '\n')) =
      rows.mapM (readRow limit) := by
  induction rows with
  | nil => rfl
  | cons row rows ih =>
    obtain ⟨hrow, hrows⟩ := List.forall_mem_cons.mp noReturn
    obtain ⟨hne, hnes⟩ := List.forall_mem_cons.mp nonempty
    rw [List.flatMap_cons, ← feed, feed_writeRecord hrow hne, ih hrows hnes, List.mapM_cons]

def restored (row : Row) : Row := if row = [[]] then [] else row.map unbroken

theorem limited_eq_ok {length : ℕ} {cell cell' : List Char} :
    (if limit < length then .error .fieldLimit else .ok cell : Except Fault (List Char)) =
      .ok cell' ↔ cell' = cell ∧ length ≤ limit := by
  split
  · next hlong =>
    refine ⟨fun h => (by cases h), ?_⟩
    rintro ⟨-, hfits⟩
    exact absurd hlong (Nat.not_lt.mpr hfits)
  · next hfits =>
    refine ⟨fun h => ⟨(Except.ok.inj h).symm, Nat.not_lt.mp hfits⟩, ?_⟩
    rintro ⟨rfl, -⟩
    rfl

theorem readRow_eq_ok {row row' : Row} : readRow limit row = .ok row' ↔
    row' = restored row ∧ ∀ cell ∈ row, (unbroken cell).length ≤ limit := by
  rw [readRow, restored]
  split
  · next hrow =>
    rw [hrow]
    simp [unbroken, eq_comm]
  · exact mapM_eq_ok_iff fun _ _ => limited_eq_ok

theorem mem_writeRecord {row : Row} {c : Char} (h : c ∈ writeRecord row) :
    c = ',' ∨ c = '"' ∨ ∃ cell ∈ row, c ∈ cell := by
  rcases Fields.mem_intercalate h with hcomma | ⟨field, hfield, hc⟩
  · exact .inl (List.mem_singleton.mp hcomma)
  · obtain ⟨cell, hcell, rfl⟩ := List.mem_map.mp hfield
    right
    rw [writeField] at hc
    split at hc
    · rcases List.mem_cons.mp hc with hquote | hc
      · exact .inl hquote
      · rcases List.mem_append.mp hc with hc | hquote
        · obtain ⟨d, hd, hc⟩ := List.mem_flatMap.mp hc
          split at hc
          · exact .inl (by simpa using hc)
          · exact .inr ⟨cell, hcell, List.mem_singleton.mp hc ▸ hd⟩
        · exact .inl (List.mem_singleton.mp hquote)
    · exact .inr ⟨cell, hcell, hc⟩

theorem writeRecord_last {row : Row} (nonempty : row ≠ []) (notEmptyLine : row ≠ [[]]) :
    ∃ text c, writeRecord row = text ++ [c] ∧ c ≠ '\n' := by
  have hfield (cell : List Char) (hcell : cell ≠ []) :
      ∃ text c, writeField cell = text ++ [c] ∧ c ≠ '\n' := by
    rw [writeField]
    split
    · exact ⟨'"' :: double cell, '"', rfl, by decide⟩
    · next hplain =>
      obtain ⟨text, c, rfl⟩ := (List.eq_nil_or_concat cell).resolve_left hcell
      exact ⟨text, c, by rw [List.concat_eq_append], fun h => hplain (by simp [needsQuotes, h])⟩
  induction row with
  | nil => exact absurd rfl nonempty
  | cons cell row ih =>
    cases row with
    | nil =>
      have hrecord : writeRecord [cell] = writeField cell := by simp [writeRecord]
      rw [hrecord]
      exact hfield cell fun h => notEmptyLine (by rw [h])
    | cons next row =>
      have hrecord : writeRecord (cell :: next :: row) =
          writeField cell ++ ',' :: writeRecord (next :: row) := by
        simp [writeRecord, List.intercalate_cons_cons]
      by_cases hrow : next :: row = [[]]
      · exact ⟨writeField cell, ',', by rw [hrecord, hrow]; rfl, by decide⟩
      · obtain ⟨text, c, htext, hc⟩ := ih (List.cons_ne_nil _ _) hrow
        exact ⟨writeField cell ++ ',' :: text, c, by rw [hrecord, htext]; simp, hc⟩

def pieces (line : List Char) : Row := line.splitOnP (· == ',')

def readPiece (limit : ℕ) (piece : List Char) : Except Fault (List Char) :=
  if limit < piece.length then .error .fieldLimit else .ok piece

def readPlain (limit : ℕ) (line : List Char) : Except Fault Row :=
  if line = [] then .ok [] else (pieces line).mapM (readPiece limit)

theorem feed_line (h : ∀ c ∈ text, isNewline c = false) :
    feed limit r more text = records limit r (text :: more) := by
  have hsingle : text.splitOnP (· == '\n') = [text] := List.splitOnP_eq_singleton fun c hc => by
    have hnewline := h c hc
    simp only [isNewline, Bool.or_eq_false_iff, decide_eq_false_iff_not] at hnewline
    simpa using hnewline.1
  rw [feed, hsingle, List.singleton_append]

theorem intercalate_pieces (line : List Char) : [','].intercalate (pieces line) = line :=
  List.intercalate_splitOn ','

theorem mem_pieces {line piece : List Char} (noNewline : ∀ c ∈ line, isNewline c = false)
    (mem : piece ∈ pieces line) : ∀ c ∈ piece, c ≠ ',' ∧ isNewline c = false := by
  refine fun c hc => ⟨fun hcomma => ?_, ?_⟩
  · simpa [hcomma] using Fields.mem_splitOnP mem c hc
  · exact noNewline c (Fields.splitOnP_subset mem c hc)

theorem records_plain {line : List Char} (noNewline : ∀ c ∈ line, isNewline c = false)
    (unquoted : ∀ piece ∈ pieces line, piece.head? ≠ some '"') :
    records limit {} (line :: more) =
      readPlain limit line >>= fun row => (do return row :: (← records limit {} more)) := by
  cases hline : line with
  | nil => rfl
  | cons c text =>
    rw [← hline]
    obtain ⟨piece, rest, hpieces⟩ : ∃ piece rest, pieces line = piece :: rest :=
      List.exists_cons_of_ne_nil (List.splitOnP_ne_nil _ line)
    have hjoin : [','].intercalate ((piece :: rest).map id) = line := by
      rw [List.map_id, ← hpieces, intercalate_pieces]
    have hreads : ∀ p ∈ piece :: rest, ReadsAs limit (id p) (readPiece limit p) := by
      rw [← hpieces]
      exact fun p hp => readsAs_unquoted (mem_pieces noNewline hp) (unquoted p hp)
    have hfields := @feed_fields _ more [] _ _ _ _ hreads
    have hc : isNewline c = false := noNewline c (hline ▸ List.mem_cons_self)
    have hne : line ≠ [] := hline ▸ List.cons_ne_nil c text
    rw [hjoin, hline, ← feed_startRecord hc, ← hline, feed_line noNewline] at hfields
    rw [readPlain, if_neg hne, hpieces, hfields]
    rfl

/-- The characters that a reader holds, in order. -/
def Reader.held (r : Reader) : List Char := r.fields.flatten ++ r.field

theorem Reader.held_save (r : Reader) (mode : Mode) : (r.save mode).held = r.held := by
  simp [Reader.held, Reader.save]

theorem Reader.held_add {r' : Reader} {c : Char} {mode : Mode} (h : r.add limit c mode = .ok r') :
    r'.held = r.held ++ [c] := by
  rw [Reader.add] at h
  split at h
  · cases h
  · obtain rfl := Except.ok.inj h
    simp [Reader.held]

theorem Reader.held_step {r' : Reader} {c : Char} (h : r.step limit c = .ok r') :
    r'.held = r.held ∨ r'.held = r.held ++ [c] := by
  have hopen (h : r.openField limit c = .ok r') : r'.held = r.held ∨ r'.held = r.held ++ [c] := by
    rw [Reader.openField] at h
    split_ifs at h
    · exact .inl (Except.ok.inj h ▸ rfl)
    · exact .inl (Except.ok.inj h ▸ r.held_save _)
    · exact .inr (Reader.held_add h)
  rw [Reader.step] at h
  cases hmode : r.mode <;> simp only [hmode] at h
  all_goals split_ifs at h
  all_goals first
    | exact hopen h
    | exact .inr (Reader.held_add h)
    | exact .inl (Except.ok.inj h ▸ rfl)
    | exact .inl (Except.ok.inj h ▸ r.held_save _)

theorem Reader.held_endLine : r.endLine.held = r.held := by
  rw [Reader.endLine]
  split
  · rfl
  · rfl
  · rfl
  · exact r.held_save _
  · exact r.held_save _
  · exact r.held_save _

theorem Reader.held_foldlM {r' : Reader} {line : List Char}
    (h : line.foldlM (Reader.step limit) r = .ok r') : r'.held.Sublist (r.held ++ line) := by
  induction line generalizing r with
  | nil =>
    obtain rfl := Except.ok.inj h
    simp
  | cons c line ih =>
    rw [List.foldlM_cons] at h
    obtain ⟨r₁, hstep, hrest⟩ := bind_ok h
    have hsub := ih hrest
    rw [List.append_cons]
    refine hsub.trans (List.Sublist.append_right ?_ line)
    rcases Reader.held_step hstep with hheld | hheld <;> rw [hheld]
    exact List.sublist_append_left _ _

/-- Every character of the records is one of the input, in order. -/
theorem records_sublist {lines : List (List Char)} {rows : List Row}
    (h : records limit r lines = .ok rows) :
    rows.flatten.flatten.Sublist (r.held ++ lines.flatten) := by
  induction lines generalizing r rows with
  | nil =>
    obtain rfl := Except.ok.inj h
    split
    · simp [Reader.save, Reader.held]
    · exact List.nil_sublist _
  | cons line rest ih =>
    obtain ⟨r₁, hline, h⟩ := bind_ok h
    have hheld : r₁.endLine.held.Sublist (r.held ++ line) := by
      rw [Reader.held_endLine]
      exact Reader.held_foldlM hline
    rw [List.flatten_cons, ← List.append_assoc]
    split at h
    · obtain ⟨more, hmore, h⟩ := bind_ok h
      obtain rfl := Except.ok.inj h
      rw [List.flatten_cons, List.flatten_append]
      refine List.Sublist.append ?_ (ih hmore)
      exact (List.sublist_append_left _ _).trans hheld
    · exact (ih h).trans (hheld.append_right _)

theorem feed_sublist {rows : List Row} (h : feed limit r more text = .ok rows) :
    rows.flatten.flatten.Sublist (r.held ++ (text ++ more.flatten)) := by
  refine (records_sublist h).trans (List.Sublist.append_left ?_ _)
  rw [List.flatten_append]
  exact (Fields.flatten_splitOnP_sublist _ text).append_right _

theorem count_quotes_opened {rows : List Row}
    (h : feed limit ⟨.startField, [], fields⟩ more ('"' :: text) = .ok rows) :
    rows.flatten.flatten.count '"' <
      (fields.flatten ++ (('"' :: text) ++ more.flatten)).count '"' := by
  rw [feed_cons (by decide)] at h
  have hsub := (@feed_sublist _ ⟨.inQuotedField, [], fields⟩ _ _ _ h).count_le '"'
  simp only [Reader.held, List.append_nil, List.count_append, List.cons_append,
    List.count_cons_self] at hsub ⊢
  omega

theorem count_quotes_feed {cells : Row} {rows : List Row}
    (plain : ∀ cell ∈ cells, ∀ c ∈ cell, c ≠ ',' ∧ isNewline c = false)
    (quoted : ∃ cell ∈ cells, cell.head? = some '"')
    (h : feed limit ⟨.startField, [], fields⟩ more ([','].intercalate cells) = .ok rows) :
    rows.flatten.flatten.count '"' <
      (fields.flatten ++ ([','].intercalate cells ++ more.flatten)).count '"' := by
  induction cells generalizing fields with
  | nil =>
    obtain ⟨cell, hcell, -⟩ := quoted
    cases hcell
  | cons cell rest ih =>
    obtain ⟨hcell, hrest⟩ := List.forall_mem_cons.mp plain
    by_cases hquote : cell.head? = some '"'
    · obtain ⟨tail, rfl⟩ := List.head?_eq_some_iff.mp hquote
      obtain ⟨text, htext⟩ : ∃ text, [','].intercalate (('"' :: tail) :: rest) = '"' :: text := by
        cases rest with
        | nil => exact ⟨tail, by simp⟩
        | cons next rest => exact ⟨_, by rw [List.intercalate_cons_cons]; rfl⟩
      rw [htext] at h ⊢
      exact count_quotes_opened h
    · have hquoted : ∃ c ∈ rest, c.head? = some '"' := by
        obtain ⟨c, hc, hhead⟩ := quoted
        rcases List.mem_cons.mp hc with rfl | hc
        · exact absurd hhead hquote
        · exact ⟨c, hc, hhead⟩
      obtain ⟨next, rest, rfl⟩ : ∃ next rest', rest = next :: rest' := by
        obtain ⟨c, hc, -⟩ := hquoted
        exact List.exists_cons_of_ne_nil (List.ne_nil_of_mem hc)
      obtain ⟨mode, hcloses, hreads⟩ := @readsAs_unquoted limit _ hcell hquote
      rw [List.intercalate_cons_cons, List.append_assoc, List.singleton_append, hreads] at h
      obtain ⟨c, hc, h⟩ := bind_ok h
      have hcell : c = cell := by
        split at hc
        · cases hc
        · exact (Except.ok.inj hc).symm
      rw [feed_comma hcloses, hcell] at h
      have hcount := ih hrest hquoted h
      rw [List.intercalate_cons_cons]
      simp only [List.flatten_append, List.flatten_singleton, List.count_append] at hcount ⊢
      omega

def plainRow (line : List Char) : Row := if line = [] then [] else pieces line

theorem readPlain_eq_ok {line : List Char} {row : Row} : readPlain limit line = .ok row ↔
    row = plainRow line ∧ ∀ piece ∈ pieces line, piece.length ≤ limit := by
  rw [readPlain, plainRow]
  split
  · next hline =>
    rw [hline]
    simp [pieces, eq_comm]
  · have hpieces : (pieces line).mapM (readPiece limit) = .ok row ↔
        row = (pieces line).map id ∧ ∀ piece ∈ pieces line, piece.length ≤ limit :=
      mapM_eq_ok_iff fun _ _ => limited_eq_ok
    rwa [List.map_id] at hpieces

theorem readPlain_sublist {line : List Char} {row : Row} (h : readPlain limit line = .ok row) :
    row.flatten.Sublist line := by
  rw [(readPlain_eq_ok.mp h).1, plainRow]
  split
  · exact List.nil_sublist _
  · exact Fields.flatten_splitOnP_sublist _ line

theorem records_unquoted {lines : List (List Char)}
    (noNewline : ∀ line ∈ lines, ∀ c ∈ line, isNewline c = false)
    (unquoted : ∀ line ∈ lines, ∀ piece ∈ pieces line, piece.head? ≠ some '"') :
    records limit {} lines = lines.mapM (readPlain limit) := by
  induction lines with
  | nil => rfl
  | cons line lines ih =>
    obtain ⟨hline, hlines⟩ := List.forall_mem_cons.mp noNewline
    obtain ⟨hpieces, hrest⟩ := List.forall_mem_cons.mp unquoted
    rw [records_plain hline hpieces, ih hlines hrest, List.mapM_cons]

/-- Where a field is opened by a quote, the records have fewer quotes than the lines. -/
theorem count_quotes_lt {lines : List (List Char)} {rows : List Row}
    (noNewline : ∀ line ∈ lines, ∀ c ∈ line, isNewline c = false)
    (quoted : ∃ line ∈ lines, ∃ piece ∈ pieces line, piece.head? = some '"')
    (h : records limit {} lines = .ok rows) :
    rows.flatten.flatten.count '"' < lines.flatten.count '"' := by
  induction lines generalizing rows with
  | nil =>
    obtain ⟨line, hline, -⟩ := quoted
    cases hline
  | cons line rest ih =>
    obtain ⟨hline, hrest⟩ := List.forall_mem_cons.mp noNewline
    by_cases hquote : ∃ piece ∈ pieces line, piece.head? = some '"'
    · have hne : line ≠ [] := by
        rintro rfl
        obtain ⟨piece, hpiece, hhead⟩ := hquote
        rw [pieces, List.splitOnP_nil, List.mem_singleton] at hpiece
        rw [hpiece] at hhead
        cases hhead
      obtain ⟨c, text, rfl⟩ := List.exists_cons_of_ne_nil hne
      rw [← feed_line hline, feed_startRecord (hline c List.mem_cons_self),
        ← intercalate_pieces (c :: text)] at h
      have hcount := count_quotes_feed (fun piece hpiece => mem_pieces hline hpiece) hquote h
      rw [intercalate_pieces] at hcount
      simpa using hcount
    · have hunquoted : ∀ piece ∈ pieces line, piece.head? ≠ some '"' := fun piece hpiece hhead =>
        hquote ⟨piece, hpiece, hhead⟩
      rw [records_plain hline hunquoted] at h
      obtain ⟨row, hrow, h⟩ := bind_ok h
      obtain ⟨more, hmore, h⟩ := bind_ok h
      obtain rfl := Except.ok.inj h
      have hcount := (readPlain_sublist hrow).count_le '"'
      have hquoted : ∃ line ∈ rest, ∃ piece ∈ pieces line, piece.head? = some '"' := by
        obtain ⟨l, hl, hpiece⟩ := quoted
        rcases List.mem_cons.mp hl with rfl | hl
        · exact absurd hpiece hquote
        · exact ⟨l, hl, hpiece⟩
      have hlater := ih hrest hquoted hmore
      rw [List.flatten_cons, List.flatten_append, List.count_append, List.flatten_cons,
        List.count_append]
      omega

end

end Csv
