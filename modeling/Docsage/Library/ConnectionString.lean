import Mathlib.Data.List.DropRight
import Mathlib.Tactic.Common

/-! # Connection strings

Pairs of a key and a value, `key=value;key=value`. Blanks around keys and values are
dropped, a key is read without regard to case, a doubled equal sign is part of the key,
and a value that has a semicolon, or blanks or a quote at its ends, stands in quotes.
The reader takes one character at a time; what it emits is a pair, with no value where
the value is empty.
-/

namespace ConnectionString

/-- The classes of characters that the reader tells apart. -/
structure Classes where
  isBlank : Char → Bool
  isControl : Char → Bool
  lower : Char → Char
  null_control : isControl '\x00' = true
  null_not_blank : isBlank '\x00' = false
  semicolon_not_blank : isBlank ';' = false

def isQuote (c : Char) : Bool := c == '\x27' || c == '\x22'

abbrev Pair := List Char × Option (List Char)

inductive State where
  /-- Between two pairs. -/
  | start
  | key (buffer : List Char)
  /-- Right after an equal sign. -/
  | equal (buffer : List Char)
  | keyEnd (name : List Char)
  | unquoted (name buffer : List Char)
  | quoted (quote : Char) (name buffer : List Char)
  /-- After a quote that ends the value unless it is doubled. -/
  | quoteEnd (quote : Char) (name buffer : List Char)
  | valueEnd (name value : List Char)
  /-- After a null character. -/
  | terminated

section Reader

variable (classes : Classes)

/-- The key without the blanks behind it; an empty one is an error. -/
def keyName? (buffer : List Char) : Option (List Char) :=
  let name := buffer.rdropWhile classes.isBlank
  if name = [] then none else some (name.map classes.lower)

/-- A value without the blanks around it; one that ends in a quote is an error. -/
def unquotedValue? (buffer : List Char) : Option (List Char) :=
  let value := (buffer.dropWhile classes.isBlank).rdropWhile classes.isBlank
  if value.getLast?.any isQuote then none else some value

def beforeValue (name : List Char) (c : Char) : Option (List Pair × State) :=
  if classes.isBlank c then some ([], .keyEnd name)
  else if isQuote c then some ([], .quoted c name [])
  else if c = ';' then some ([(name, none)], .start)
  else if c = '\x00' then some ([(name, none)], .terminated)
  else if classes.isControl c then none
  else some ([], .unquoted name [c])

def behindValue (name value : List Char) (c : Char) : Option (List Pair × State) :=
  if classes.isBlank c then some ([], .valueEnd name value)
  else if c = ';' then some ([(name, some value)], .start)
  else if c = '\x00' then some ([(name, some value)], .terminated)
  else none

/-- One character: the pair that it ends, and the next state. -/
def step : State → Char → Option (List Pair × State)
  | .start, c =>
    if c = ';' ∨ classes.isBlank c then some ([], .start)
    else if c = '\x00' then some ([], .terminated)
    else if classes.isControl c then none
    else if c = '=' then some ([], .equal [])
    else some ([], .key [c])
  | .key buffer, c =>
    if c = '=' then some ([], .equal buffer)
    else if !classes.isBlank c && classes.isControl c then none
    else some ([], .key (buffer ++ [c]))
  | .equal buffer, c =>
    if c = '=' then some ([], .key (buffer ++ [c]))
    else (keyName? classes buffer).bind fun name => beforeValue classes name c
  | .keyEnd name, c => beforeValue classes name c
  | .unquoted name buffer, c =>
    if classes.isBlank c then some ([], .unquoted name (buffer ++ [c]))
    else if c = ';' then
      (unquotedValue? classes buffer).map fun value => ([(name, some value)], .start)
    else if c = '\x00' then
      (unquotedValue? classes buffer).map fun value => ([(name, some value)], .terminated)
    else if classes.isControl c then none
    else some ([], .unquoted name (buffer ++ [c]))
  | .quoted quote name buffer, c =>
    if c = quote then some ([], .quoteEnd quote name buffer)
    else if c = '\x00' then none
    else some ([], .quoted quote name (buffer ++ [c]))
  | .quoteEnd quote name buffer, c =>
    if c = quote then some ([], .quoted quote name (buffer ++ [c]))
    else behindValue classes name buffer c
  | .valueEnd name value, c => behindValue classes name value c
  | .terminated, c =>
    if c = '\x00' ∨ classes.isBlank c then some ([], .terminated) else none

/-- The end of the text: the pair that it ends, unless it ends within a key or in quotes. -/
def finish : State → Option (List Pair)
  | .start | .terminated => some []
  | .key _ => none
  | .equal buffer => (keyName? classes buffer).map fun name => [(name, none)]
  | .keyEnd name => some [(name, none)]
  | .unquoted name buffer =>
    (unquotedValue? classes buffer).map fun value => [(name, some value)]
  | .quoted _ _ _ => none
  | .quoteEnd _ name buffer => some [(name, some buffer)]
  | .valueEnd name value => some [(name, some value)]

def readFrom (s : State) : List Char → Option (List Pair)
  | [] => finish classes s
  | c :: rest =>
    (step classes s c).bind fun next => (readFrom next.2 rest).map (next.1 ++ ·)

def read (text : List Char) : Option (List Pair) := readFrom classes .start text

/-- A key that is read back: no equal sign, and no blank or semicolon to be dropped. -/
structure PlainKey (key : List Char) : Prop where
  nonempty : key ≠ []
  inner : ∀ c ∈ key, c ≠ '=' ∧ (classes.isBlank c = true ∨ classes.isControl c = false)
  first : ∀ c, key.head? = some c → classes.isBlank c = false ∧ c ≠ ';'
  last : ∀ c, key.getLast? = some c → classes.isBlank c = false

structure PlainValue (value : List Char) : Prop where
  inner : ∀ c ∈ value, c ≠ ';' ∧ (classes.isBlank c = true ∨ classes.isControl c = false)
  first : ∀ c, value.head? = some c → classes.isBlank c = false ∧ isQuote c = false ∧ c ≠ '='
  last : ∀ c, value.getLast? = some c → classes.isBlank c = false ∧ isQuote c = false

end Reader

def write : List (List Char × List Char) → List Char
  | [] => []
  | [(key, value)] => key ++ '=' :: value
  | (key, value) :: rest => key ++ '=' :: (value ++ ';' :: write rest)

def valueOf (value : List Char) : Option (List Char) := if value = [] then none else some value

def pairOf (classes : Classes) (p : List Char × List Char) : Pair :=
  (p.1.map classes.lower, valueOf p.2)

variable {classes : Classes} {key value buffer name rest : List Char}

theorem PlainKey.keyName? (plain : PlainKey classes key) :
    keyName? classes key = some (key.map classes.lower) := by
  have hkey : key.rdropWhile classes.isBlank = key := by
    rw [List.rdropWhile_eq_self_iff]
    intro hne
    rw [plain.last _ (List.getLast?_eq_some_getLast hne)]
    decide
  rw [ConnectionString.keyName?, hkey, if_neg plain.nonempty]

theorem PlainValue.unquotedValue? (plain : PlainValue classes value) :
    unquotedValue? classes value = some value := by
  have hfirst : value.dropWhile classes.isBlank = value := by
    cases value with
    | nil => rfl
    | cons c value => rw [List.dropWhile_cons, (plain.first c rfl).1, if_neg (by decide)]
  have hlast : value.rdropWhile classes.isBlank = value := by
    rw [List.rdropWhile_eq_self_iff]
    intro hne
    rw [(plain.last _ (List.getLast?_eq_some_getLast hne)).1]
    decide
  have hquote : value.getLast?.any isQuote = false := by
    cases h : value.getLast? with
    | none => rfl
    | some c => exact (plain.last c h).2
  simp only [ConnectionString.unquotedValue?, hfirst, hlast, hquote]
  rfl

theorem readFrom_pair {s next : State} {c : Char} {pair : Pair}
    (h : step classes s c = some ([pair], next)) :
    readFrom classes s (c :: rest) = (readFrom classes next rest).map (pair :: ·) := by
  rw [readFrom, h, Option.bind_some]
  rfl

theorem readFrom_silent {s next : State} {c : Char} (h : step classes s c = some ([], next)) :
    readFrom classes s (c :: rest) = readFrom classes next rest := by
  rw [readFrom, h, Option.bind_some]
  simp

/-- A character that is not the null character if it is a blank or no control character. -/
theorem ne_null {c : Char} (h : classes.isBlank c = true ∨ classes.isControl c = false) :
    c ≠ '\x00' := by
  rintro rfl
  simp [classes.null_control, classes.null_not_blank] at h

theorem readFrom_key (inner : ∀ c ∈ key,
    c ≠ '=' ∧ (classes.isBlank c = true ∨ classes.isControl c = false)) :
    readFrom classes (.key buffer) (key ++ rest) =
      readFrom classes (.key (buffer ++ key)) rest := by
  induction key generalizing buffer with
  | nil => rw [List.nil_append, List.append_nil]
  | cons c key ih =>
    obtain ⟨⟨hne, hclass⟩, hinner⟩ := List.forall_mem_cons.mp inner
    have hstep : step classes (.key buffer) c = some ([], .key (buffer ++ [c])) := by
      rw [step, if_neg hne, if_neg]
      rcases hclass with h | h <;> simp [h]
    rw [List.cons_append, readFrom_silent hstep, ih hinner, List.append_assoc]
    rfl

theorem PlainKey.readFrom (plain : PlainKey classes key) :
    readFrom classes .start (key ++ '=' :: rest) =
      ConnectionString.readFrom classes (.equal key) rest := by
  obtain ⟨c, tail, rfl⟩ := List.exists_cons_of_ne_nil plain.nonempty
  obtain ⟨⟨hne, hclass⟩, hinner⟩ := List.forall_mem_cons.mp plain.inner
  obtain ⟨hblank, hsemicolon⟩ := plain.first c rfl
  have hcontrol : classes.isControl c = false := by simpa [hblank] using hclass
  have hstep : step classes .start c = some ([], .key [c]) := by
    simp [step, hsemicolon, hblank, ne_null hclass, hcontrol, hne]
  have hequal : step classes (.key (c :: tail)) '=' = some ([], .equal (c :: tail)) := by
    rw [step, if_pos rfl]
  rw [List.cons_append, readFrom_silent hstep, readFrom_key hinner]
  exact readFrom_silent hequal

theorem readFrom_unquoted (inner : ∀ c ∈ value,
    c ≠ ';' ∧ (classes.isBlank c = true ∨ classes.isControl c = false)) :
    readFrom classes (.unquoted name buffer) (value ++ rest) =
      readFrom classes (.unquoted name (buffer ++ value)) rest := by
  induction value generalizing buffer with
  | nil => rw [List.nil_append, List.append_nil]
  | cons c value ih =>
    obtain ⟨⟨hne, hclass⟩, hinner⟩ := List.forall_mem_cons.mp inner
    have hstep : step classes (.unquoted name buffer) c =
        some ([], .unquoted name (buffer ++ [c])) := by
      cases hblank : classes.isBlank c with
      | true => simp [step, hblank]
      | false =>
        have hcontrol : classes.isControl c = false := by simpa [hblank] using hclass
        simp [step, hblank, hne, ne_null hclass, hcontrol]
    rw [List.cons_append, readFrom_silent hstep, ih hinner, List.append_assoc]
    rfl

theorem PlainValue.readFrom (plain : PlainValue classes value) (nonempty : value ≠ [])
    (named : ConnectionString.keyName? classes key = some name) :
    readFrom classes (.equal key) (value ++ rest) =
      ConnectionString.readFrom classes (.unquoted name value) rest := by
  obtain ⟨c, tail, rfl⟩ := List.exists_cons_of_ne_nil nonempty
  obtain ⟨⟨hne, hclass⟩, hinner⟩ := List.forall_mem_cons.mp plain.inner
  obtain ⟨hblank, hquote, hequal⟩ := plain.first c rfl
  have hcontrol : classes.isControl c = false := by simpa [hblank] using hclass
  have hstep : step classes (.equal key) c = some ([], .unquoted name [c]) := by
    rw [step, if_neg hequal, named, Option.bind_some]
    simp [beforeValue, hblank, hquote, hne, ne_null hclass, hcontrol]
  rw [List.cons_append, readFrom_silent hstep, readFrom_unquoted hinner]
  rfl

theorem readFrom_value (keyPlain : PlainKey classes key) (plain : PlainValue classes value) :
    readFrom classes (.equal key) (value ++ ';' :: rest) =
      (readFrom classes .start rest).map (pairOf classes (key, value) :: ·) := by
  have hblank := classes.semicolon_not_blank
  cases value with
  | nil =>
    refine readFrom_pair ?_
    simp [step, keyPlain.keyName?, beforeValue, hblank, isQuote, pairOf, valueOf]
  | cons c tail =>
    rw [plain.readFrom nofun keyPlain.keyName?]
    refine readFrom_pair ?_
    simp [step, hblank, plain.unquotedValue?, pairOf, valueOf]

theorem readFrom_lastValue (keyPlain : PlainKey classes key) (plain : PlainValue classes value) :
    readFrom classes (.equal key) value = some [pairOf classes (key, value)] := by
  cases value with
  | nil => simp [readFrom, finish, keyPlain.keyName?, pairOf, valueOf]
  | cons c tail =>
    have hread := @PlainValue.readFrom classes key (c :: tail) (key.map classes.lower) [] plain
      nofun keyPlain.keyName?
    rw [List.append_nil] at hread
    rw [hread, readFrom, finish, plain.unquotedValue?]
    rfl

/-- Pairs that are written as they are are read back. -/
theorem read_write {pairs : List (List Char × List Char)}
    (plain : ∀ p ∈ pairs, PlainKey classes p.1 ∧ PlainValue classes p.2) :
    read classes (write pairs) = some (pairs.map (pairOf classes)) := by
  induction pairs with
  | nil => rfl
  | cons p pairs ih =>
    obtain ⟨⟨hkey, hvalue⟩, hplain⟩ := List.forall_mem_cons.mp plain
    cases pairs with
    | nil =>
      rw [write, read, hkey.readFrom, readFrom_lastValue hkey hvalue]
      rfl
    | cons q pairs =>
      have hrest := ih hplain
      rw [read] at hrest
      rw [write, read, hkey.readFrom, readFrom_value hkey hvalue, hrest]
      rfl
      all_goals simp

end ConnectionString
