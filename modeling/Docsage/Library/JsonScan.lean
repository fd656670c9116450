import Mathlib.Data.Int.Notation
import Mathlib.Order.Basic

/-! # Scanning a JSON text

A text is a list of code points, and a lone surrogate is one of them. The scanner
reads it from left to right, with the brackets that are still open on a stack, and
is done where the value ends. A number of too many digits and a text that is nested
too deep are given up, which is not the same as a malformed text.
-/

namespace JsonScan

abbrev Text := List ℕ

def points (s : String) : Text := s.toList.map Char.toNat

/-- A value that was read. A number with a fraction or an exponent is kept as it is spelled. -/
inductive Value where
  | null
  | bool (b : Bool)
  | int (n : ℤ)
  | float (literal : Text)
  | string (text : Text)
  | array (items : List Value)
  | object (members : List (Text × Value))

/-- Why a text has no value: it is malformed, or one of its integers has too many digits, or it is
nested too deep. -/
inductive Fault where
  | malformed
  | digits
  | nesting
deriving DecidableEq

/-- How many digits an integer may have, and how many brackets may be open. -/
structure Limits where
  digits : ℕ
  nesting : ℕ

def isBlank (c : ℕ) : Bool := c == 0x20 || c == 0x09 || c == 0x0A || c == 0x0D

def isDigit (c : ℕ) : Bool := 0x30 ≤ c && c ≤ 0x39

def isNumeral (c : ℕ) : Bool :=
  isDigit c || c == 0x2B || c == 0x2D || c == 0x2E || c == 0x45 || c == 0x65

def decimal (digits : Text) : ℕ := digits.foldl (fun n c => 10 * n + (c - 0x30)) 0

/-- `-?(0|[1-9]\d*)`: whether there is a sign, the digits, and what is left. -/
def whole (s : Text) : Option (Bool × Text × Text) :=
  let negative := s.head? == some 0x2D
  match if negative then s.tail else s with
  | [] => none
  | c :: rest =>
    if c = 0x30 then some (negative, [c], rest)
    else if isDigit c then some (negative, c :: rest.takeWhile isDigit, rest.dropWhile isDigit)
    else none

/-- `\.\d+`: what is left behind it. -/
def afterFraction : Text → Option Text
  | [] => none
  | c :: s => if c = 0x2E ∧ s.head?.any isDigit then some (s.dropWhile isDigit) else none

/-- `[eE][+-]?\d+`: what is left behind it. -/
def afterExponent : Text → Option Text
  | [] => none
  | e :: s =>
    let digits := if s.head? = some 0x2B ∨ s.head? = some 0x2D then s.tail else s
    if (e = 0x65 ∨ e = 0x45) ∧ digits.head?.any isDigit then some (digits.dropWhile isDigit)
    else none

def afterFloat (s : Text) : Option Text :=
  match afterFraction s with
  | some s => some ((afterExponent s).getD s)
  | none => afterExponent s

/-- The longest number at the front of a spelling has to be all of it. An integer is converted
before what is left of the spelling is seen to be malformed. -/
def number (limits : Limits) (literal : Text) : Except Fault Value :=
  match whole literal with
  | none => .error .malformed
  | some (negative, digits, rest) =>
    match afterFloat rest with
    | some left => if left = [] then .ok (.float literal) else .error .malformed
    | none =>
      if limits.digits < digits.length then .error .digits
      else if rest = [] then .ok (.int (if negative then -decimal digits else decimal digits))
      else .error .malformed

def hexDigit (c : ℕ) : Option ℕ :=
  if 0x30 ≤ c ∧ c ≤ 0x39 then some (c - 0x30)
  else if 0x41 ≤ c ∧ c ≤ 0x46 then some (c - 0x41 + 10)
  else if 0x61 ≤ c ∧ c ≤ 0x66 then some (c - 0x61 + 10)
  else none

def escaped (c : ℕ) : Option ℕ :=
  if c = 0x22 ∨ c = 0x5C ∨ c = 0x2F then some c
  else if c = 0x62 then some 0x08
  else if c = 0x66 then some 0x0C
  else if c = 0x6E then some 0x0A
  else if c = 0x72 then some 0x0D
  else if c = 0x74 then some 0x09
  else none

def isHigh (u : ℕ) : Bool := 0xD800 ≤ u && u < 0xDC00

def isLow (u : ℕ) : Bool := 0xDC00 ≤ u && u < 0xE000

/-- A string that is being read: its points, the last one first, and whether that one is a high
surrogate which the escape of a low one would complete. -/
structure Reading where
  isKey : Bool
  read : Text := []
  high : Bool := false

def Reading.push (r : Reading) (c : ℕ) : Reading := { r with read := c :: r.read, high := false }

def Reading.pushUnit (r : Reading) (u : ℕ) : Reading :=
  match r.read with
  | h :: read =>
    if r.high ∧ isLow u then
      { r with read := (0x10000 + (h - 0xD800) * 0x400 + (u - 0xDC00)) :: read, high := false }
    else { r with read := u :: h :: read, high := isHigh u }
  | [] => { r with read := [u], high := isHigh u }

/-- A bracket that is open, with what was read behind it and, in an object, the last name. -/
inductive Frame where
  | array (items : List Value)
  | object (members : List (Text × Value)) (key : Text)

/-- What the scanner is in the middle of, or what it expects. -/
inductive Mode where
  | value
  | item
  | firstKey
  | key
  | colon
  | next
  | string (reading : Reading)
  | escape (reading : Reading)
  | unit (reading : Reading) (digits : List ℕ)
  | number (literal : Text)
  | word (left : Text) (value : Value)
  | done (value : Value)

structure State where
  mode : Mode
  stack : List Frame

/-- A member that is named again keeps its place and gets the new value. -/
def insert (key : Text) (v : Value) : List (Text × Value) → List (Text × Value)
  | [] => [(key, v)]
  | (k, u) :: members =>
    if k = key then (k, v) :: members else (k, u) :: insert key v members

def complete (v : Value) : List Frame → State
  | [] => ⟨.done v, []⟩
  | .array items :: stack => ⟨.next, .array (items ++ [v]) :: stack⟩
  | .object members key :: stack => ⟨.next, .object (insert key v members) key :: stack⟩

def orMalformed {α : Type} : Option α → Except Fault α
  | some a => .ok a
  | none => .error .malformed

def opening (limits : Limits) (stack : List Frame) (c : ℕ) : Except Fault State :=
  if c = 0x22 then .ok ⟨.string { isKey := false }, stack⟩
  else if c = 0x5B then bracket .item (.array [])
  else if c = 0x7B then bracket .firstKey (.object [] [])
  else if c = 0x6E then .ok ⟨.word (points "ull") .null, stack⟩
  else if c = 0x74 then .ok ⟨.word (points "rue") (.bool true), stack⟩
  else if c = 0x66 then .ok ⟨.word (points "alse") (.bool false), stack⟩
  else if c = 0x4E then .ok ⟨.word (points "aN") (.float (points "NaN")), stack⟩
  else if c = 0x49 then .ok ⟨.word (points "nfinity") (.float (points "Infinity")), stack⟩
  else if c = 0x2D ∨ isDigit c then .ok ⟨.number [c], stack⟩
  else .error .malformed
where
  bracket (mode : Mode) (frame : Frame) : Except Fault State :=
    if limits.nesting ≤ stack.length then .error .nesting else .ok ⟨mode, frame :: stack⟩

def close (c : ℕ) : List Frame → Option State
  | [] => none
  | .array items :: stack => if c = 0x5D then some (complete (.array items) stack) else none
  | .object members _ :: stack => if c = 0x7D then some (complete (.object members) stack) else none

/-- Behind a comma an array has another item, and an object another name. -/
def comma : List Frame → Except Fault State
  | [] => .error .malformed
  | .array items :: stack => .ok ⟨.value, .array items :: stack⟩
  | .object members key :: stack => .ok ⟨.key, .object members key :: stack⟩

def punctuate (σ : State) (c : ℕ) : Except Fault State :=
  if isBlank c then .ok σ
  else
    match σ.mode with
    | .next => if c = 0x2C then comma σ.stack else orMalformed (close c σ.stack)
    | _ => .error .malformed

def endString (r : Reading) (stack : List Frame) : Except Fault State :=
  if r.isKey then
    match stack with
    | .object members _ :: stack => .ok ⟨.colon, .object members r.read.reverse :: stack⟩
    | _ => .error .malformed
  else .ok (complete (.string r.read.reverse) stack)

def within (limits : Limits) (mode : Mode) (stack : List Frame) (c : ℕ) : Except Fault State :=
  match mode with
  | .string r =>
    if c = 0x22 then endString r stack
    else if c = 0x5C then .ok ⟨.escape r, stack⟩
    else if c < 0x20 then .error .malformed
    else .ok ⟨.string (r.push c), stack⟩
  | .escape r =>
    if c = 0x75 then .ok ⟨.unit r [], stack⟩
    else (orMalformed (escaped c)).map fun x => ⟨.string (r.push x), stack⟩
  | .unit r digits => (orMalformed (hexDigit c)).map fun d => ⟨unit r (digits ++ [d]), stack⟩
  | .word left v =>
    if left = [c] then .ok (complete v stack)
    else if left.head? = some c then .ok ⟨.word left.tail v, stack⟩
    else .error .malformed
  | .item => if c = 0x5D then orMalformed (close c stack) else blankOr (opening limits stack c)
  | .firstKey => if c = 0x7D then orMalformed (close c stack) else blankOr quote
  | .key => blankOr quote
  | .colon => if c = 0x3A then .ok ⟨.value, stack⟩ else blankOr (.error .malformed)
  | _ => blankOr (opening limits stack c)
where
  unit (r : Reading) (digits : List ℕ) : Mode :=
    if digits.length < 4 then .unit r digits
    else .string (r.pushUnit (digits.foldl (fun n d => 16 * n + d) 0))
  blankOr (other : Except Fault State) : Except Fault State :=
    if isBlank c then .ok ⟨mode, stack⟩ else other
  quote : Except Fault State :=
    if c = 0x22 then .ok ⟨.string { isKey := true }, stack⟩ else .error .malformed

/-- The next point of the text. A number ends where a point is no part of one. -/
def step (limits : Limits) (σ : State) (c : ℕ) : Except Fault State :=
  match σ.mode with
  | .number literal =>
    if isNumeral c then .ok ⟨.number (literal ++ [c]), σ.stack⟩
    else if literal = [0x2D] ∧ c = 0x49 then
      .ok ⟨.word (points "nfinity") (.float (points "-Infinity")), σ.stack⟩
    else (number limits literal).bind fun v => punctuate (complete v σ.stack) c
  | .next | .done _ => punctuate σ c
  | mode => within limits mode σ.stack c

def run (limits : Limits) (σ : State) (s : Text) : Except Fault State := s.foldlM (step limits) σ

def finish (limits : Limits) (σ : State) : Except Fault Value :=
  match σ.mode with
  | .done v => .ok v
  | .number literal =>
    (number limits literal).bind fun v => if σ.stack.isEmpty then .ok v else .error .malformed
  | _ => .error .malformed

def loads (limits : Limits) (s : Text) : Except Fault Value :=
  (run limits ⟨.value, []⟩ s).bind (finish limits)

variable {limits limits' : Limits} {σ σ' : State} {c : ℕ} {s t : Text} {v : Value} {f : Fault}

theorem run_append : run limits σ (s ++ t) = (run limits σ s).bind fun σ' => run limits σ' t :=
  List.foldlM_append

theorem run_cons : run limits σ (c :: s) = (step limits σ c).bind fun σ' => run limits σ' s :=
  List.foldlM_cons

theorem loads_append_of_error (h : run limits ⟨.value, []⟩ s = .error f) :
    loads limits (s ++ t) = .error f := by
  rw [loads, run_append, h]
  rfl

/-! Behind a value that is not part of another one there may be blanks. -/

theorem run_done (h : σ.mode = .done v) :
    run limits σ t = if t.all isBlank then .ok σ else .error .malformed := by
  induction t with
  | nil => rfl
  | cons c t ih =>
    have hstep : step limits σ c = if isBlank c then .ok σ else .error .malformed := by
      simp [step, punctuate, h]
    rw [run_cons, hstep, List.all_cons]
    cases isBlank c with
    | true => exact ih
    | false => rfl

def Mode.Structural : Mode → Prop
  | .number _ | .done _ => False
  | _ => True

/-- The stack and the state that the point `c` leads to. -/
inductive Moves (c : ℕ) : List Frame → State → Prop
  | stay {mode : Mode} {stack : List Frame} : mode.Structural → Moves c stack ⟨mode, stack⟩
  | numeral {literal : Text} {stack : List Frame} :
    isNumeral c → Moves c stack ⟨.number literal, stack⟩
  | push {mode : Mode} {stack : List Frame} (frame : Frame) :
    mode.Structural → Moves c stack ⟨mode, frame :: stack⟩
  | name {members : List (Text × Value)} {key : Text} {stack : List Frame} (key' : Text) :
    Moves c (.object members key :: stack) ⟨.colon, .object members key' :: stack⟩
  | complete {stack : List Frame} (v : Value) : Moves c stack (complete v stack)
  | closeArray {items : List Value} {stack : List Frame} :
    Moves c (.array items :: stack) (JsonScan.complete (.array items) stack)
  | closeObject {members : List (Text × Value)} {key : Text} {stack : List Frame} :
    Moves c (.object members key :: stack) (JsonScan.complete (.object members) stack)

variable {stack : List Frame} {mode : Mode}

theorem orMalformed_ok {α : Type} {x : Option α} {a : α} (h : orMalformed x = .ok a) :
    x = some a := by
  cases x with
  | none => cases h
  | some b => rw [Except.ok.inj h]

theorem map_orMalformed_ok {α β : Type} {x : Option α} {g : α → β} {b : β}
    (h : (orMalformed x).map g = .ok b) : ∃ a, g a = b := by
  cases x with
  | none => cases h
  | some a => exact ⟨a, Except.ok.inj h⟩

theorem close_moves (h : close c stack = some σ') : Moves c stack σ' := by
  unfold close at h
  split at h
  · cases h
  · split at h
    · exact Option.some.inj h ▸ .closeArray
    · cases h
  · split at h
    · exact Option.some.inj h ▸ .closeObject
    · cases h

theorem comma_moves (h : comma stack = .ok σ') : Moves c stack σ' := by
  unfold comma at h
  split at h
  · cases h
  · exact Except.ok.inj h ▸ .stay trivial
  · exact Except.ok.inj h ▸ .stay trivial

theorem isNumeral_of_begins (h : c = 0x2D ∨ isDigit c) : isNumeral c := by
  rcases h with rfl | hdigit
  · rfl
  · simp [isNumeral, hdigit]

theorem ite_outcome {p : Prop} [Decidable p] {x y : Except Fault State}
    (h : (if p then x else y) = .ok σ') : p ∧ x = .ok σ' ∨ y = .ok σ' := by
  by_cases hp : p
  · exact .inl ⟨hp, (if_pos hp).symm.trans h⟩
  · exact .inr ((if_neg hp).symm.trans h)

theorem opening_moves (h : opening limits stack c = .ok σ') : Moves c stack σ' := by
  have hbracket {frame : Frame} {mode : Mode}
      (h : opening.bracket limits stack mode frame = .ok σ') (structural : mode.Structural) :
      Moves c stack σ' := by
    unfold opening.bracket at h
    split at h
    · cases h
    · exact Except.ok.inj h ▸ .push frame structural
  unfold opening at h
  obtain ⟨-, h⟩ | h := ite_outcome h
  · exact Except.ok.inj h ▸ .stay trivial
  obtain ⟨-, h⟩ | h := ite_outcome h
  · exact hbracket h trivial
  obtain ⟨-, h⟩ | h := ite_outcome h
  · exact hbracket h trivial
  -- the words
  obtain ⟨-, h⟩ | h := ite_outcome h
  · exact Except.ok.inj h ▸ .stay trivial
  obtain ⟨-, h⟩ | h := ite_outcome h
  · exact Except.ok.inj h ▸ .stay trivial
  obtain ⟨-, h⟩ | h := ite_outcome h
  · exact Except.ok.inj h ▸ .stay trivial
  obtain ⟨-, h⟩ | h := ite_outcome h
  · exact Except.ok.inj h ▸ .stay trivial
  obtain ⟨-, h⟩ | h := ite_outcome h
  · exact Except.ok.inj h ▸ .stay trivial
  obtain ⟨hnumber, h⟩ | h := ite_outcome h
  · exact Except.ok.inj h ▸ .numeral (isNumeral_of_begins hnumber)
  · cases h

theorem punctuate_moves (h : punctuate σ c = .ok σ') : σ' = σ ∨ Moves c σ.stack σ' := by
  unfold punctuate at h
  split at h
  · exact .inl (Except.ok.inj h).symm
  · right
    split at h
    · split at h
      · exact comma_moves h
      · exact close_moves (orMalformed_ok h)
    · cases h

theorem blankOr_moves {other : Except Fault State}
    (h : within.blankOr mode stack c other = .ok σ') (structural : mode.Structural)
    (hother : other = .ok σ' → Moves c stack σ') : Moves c stack σ' := by
  unfold within.blankOr at h
  split at h
  · exact Except.ok.inj h ▸ .stay structural
  · exact hother h

theorem quote_moves (h : within.quote stack c = .ok σ') : Moves c stack σ' := by
  unfold within.quote at h
  split at h
  · exact Except.ok.inj h ▸ .stay trivial
  · cases h

theorem endString_moves {r : Reading} (h : endString r stack = .ok σ') : Moves c stack σ' := by
  unfold endString at h
  split at h
  · split at h
    · exact Except.ok.inj h ▸ .name _
    · cases h
  · exact Except.ok.inj h ▸ .complete _

theorem within_moves (h : within limits mode stack c = .ok σ') (structural : mode.Structural) :
    Moves c stack σ' := by
  cases mode with
  | string r =>
    simp only [within] at h
    split_ifs at h
    · exact endString_moves h
    · exact Except.ok.inj h ▸ .stay trivial
    · exact Except.ok.inj h ▸ .stay trivial
  | escape r =>
    simp only [within] at h
    split at h
    · exact Except.ok.inj h ▸ .stay trivial
    · obtain ⟨x, rfl⟩ := map_orMalformed_ok h
      exact .stay trivial
  | unit r digits =>
    obtain ⟨d, rfl⟩ := map_orMalformed_ok h
    refine .stay ?_
    unfold within.unit
    split <;> trivial
  | word left v =>
    simp only [within] at h
    split_ifs at h
    · exact Except.ok.inj h ▸ .complete v
    · exact Except.ok.inj h ▸ .stay trivial
  | item =>
    simp only [within] at h
    split at h
    · exact close_moves (orMalformed_ok h)
    · exact blankOr_moves h trivial opening_moves
  | firstKey =>
    simp only [within] at h
    split at h
    · exact close_moves (orMalformed_ok h)
    · exact blankOr_moves h trivial quote_moves
  | key => exact blankOr_moves h trivial quote_moves
  | colon =>
    simp only [within] at h
    split at h
    · exact Except.ok.inj h ▸ .stay trivial
    · exact blankOr_moves h trivial nofun
  | value | next => exact blankOr_moves h trivial opening_moves
  | number | done => exact structural.elim

/-- A number is completed before what is behind it is read. -/
theorem step_moves (h : step limits σ c = .ok σ') :
    (σ' = σ ∧ ∀ literal, σ.mode ≠ .number literal) ∨ Moves c σ.stack σ' ∨
      ∃ v, Moves c (complete v σ.stack).stack σ' := by
  obtain ⟨mode, stack⟩ := σ
  cases mode with
  | number literal =>
    simp only [step] at h
    split_ifs at h with hnumeral
    · exact .inr (.inl (Except.ok.inj h ▸ .numeral hnumeral))
    · exact .inr (.inl (Except.ok.inj h ▸ .stay trivial))
    · cases hv : number limits literal with
      | error f =>
        rw [hv] at h
        cases h
      | ok v =>
        rw [hv] at h
        rcases punctuate_moves h with rfl | hmoves
        · exact .inr (.inl (.complete v))
        · exact .inr (.inr ⟨v, hmoves⟩)
  | next | done =>
    rcases punctuate_moves h with rfl | hmoves
    · exact .inl ⟨rfl, by simp⟩
    · exact .inr (.inl hmoves)
  | _ =>
    simp only [step] at h
    exact .inr (.inl (within_moves h trivial))

theorem step_brace (h : step limits σ 0x7D = .ok σ') (literal : Text) :
    σ'.mode ≠ .number literal := by
  have hcomplete (v : Value) (stack : List Frame) : (complete v stack).mode ≠ .number literal := by
    unfold complete
    split <;> simp
  have hmoves {stack : List Frame} (h : Moves 0x7D stack σ') : σ'.mode ≠ .number literal := by
    cases h with
    | stay structural | push _ structural =>
      rintro rfl
      exact structural
    | numeral hnumeral => exact absurd hnumeral (by decide)
    | name => simp
    | complete | closeArray | closeObject => exact hcomplete _ _
  rcases step_moves h with ⟨rfl, hmode⟩ | h | ⟨v, h⟩
  · exact hmode literal
  · exact hmoves h
  · exact hmoves h

/-- A fault that another limit could avoid. -/
def Fault.Exceeds (f : Fault) : Prop := f ≠ .malformed

def Limits.Within (limits limits' : Limits) : Prop :=
  limits.digits ≤ limits'.digits ∧ limits.nesting ≤ limits'.nesting

/-- Within smaller limits the outcome is the same, or the limits are exceeded. -/
def Agree {α : Type} (x x' : Except Fault α) : Prop :=
  (∃ f : Fault, f.Exceeds ∧ x = .error f) ∨ x' = x

theorem Agree.refl {α : Type} (x : Except Fault α) : Agree x x := .inr rfl

theorem Agree.ite {α : Type} {x x' y y' : Except Fault α} (p : Prop) [Decidable p]
    (hx : Agree x x') (hy : Agree y y') : Agree (if p then x else y) (if p then x' else y') := by
  split
  · exact hx
  · exact hy

theorem Agree.bind {α β : Type} {x x' : Except Fault α} {g g' : α → Except Fault β}
    (h : Agree x x') (hg : ∀ a, Agree (g a) (g' a)) : Agree (x.bind g) (x'.bind g') := by
  rcases h with ⟨f, hf, rfl⟩ | rfl
  · exact .inl ⟨f, hf, rfl⟩
  · cases x' with
    | error f => exact .refl _
    | ok a => exact hg a

theorem number_agree (le : limits.Within limits') (literal : Text) :
    Agree (number limits literal) (number limits' literal) := by
  unfold number
  split
  · exact .refl _
  · split
    · exact .refl _
    · split
      · exact .inl ⟨.digits, by simp [Fault.Exceeds], rfl⟩
      · next hdigits =>
        rw [if_neg (fun h => hdigits (Nat.lt_of_le_of_lt le.1 h))]
        exact .refl _

theorem opening_agree (le : limits.Within limits') (stack : List Frame) (c : ℕ) :
    Agree (opening limits stack c) (opening limits' stack c) := by
  have hbracket (mode : Mode) (frame : Frame) :
      Agree (opening.bracket limits stack mode frame)
        (opening.bracket limits' stack mode frame) := by
    unfold opening.bracket
    split
    · exact .inl ⟨.nesting, by simp [Fault.Exceeds], rfl⟩
    · next hnesting =>
      rw [if_neg (fun h => hnesting (Nat.le_trans le.2 h))]
      exact .refl _
  unfold opening
  exact .ite _ (.refl _) <| .ite _ (hbracket _ _) <| .ite _ (hbracket _ _) <| .refl _

theorem within_agree (le : limits.Within limits') (mode : Mode) (stack : List Frame) (c : ℕ) :
    Agree (within limits mode stack c) (within limits' mode stack c) := by
  have hblank (mode : Mode) : Agree (within.blankOr mode stack c (opening limits stack c))
      (within.blankOr mode stack c (opening limits' stack c)) := by
    unfold within.blankOr
    split
    · exact .refl _
    · exact opening_agree le stack c
  cases mode with
  | string | escape | unit | word | firstKey | key | colon => exact .refl _
  | item =>
    simp only [within]
    split
    · exact .refl _
    · exact hblank _
  | value | next | number | done => exact hblank _

theorem step_agree (le : limits.Within limits') (σ : State) (c : ℕ) :
    Agree (step limits σ c) (step limits' σ c) := by
  obtain ⟨mode, stack⟩ := σ
  cases mode with
  | number literal =>
    simp only [step]
    split_ifs
    · exact .refl _
    · exact .refl _
    · exact (number_agree le literal).bind fun v => .refl _
  | next | done => exact .refl _
  | _ =>
    simp only [step]
    exact within_agree le _ stack c

theorem run_agree (le : limits.Within limits') (σ : State) (s : Text) :
    Agree (run limits σ s) (run limits' σ s) := by
  induction s generalizing σ with
  | nil => exact .refl _
  | cons c s ih =>
    rw [run_cons, run_cons]
    exact (step_agree le σ c).bind ih

theorem loads_agree (le : limits.Within limits') (s : Text) :
    Agree (loads limits s) (loads limits' s) := by
  refine (run_agree le _ s).bind fun σ => ?_
  unfold finish
  split
  · exact .refl _
  · exact (number_agree le _).bind fun v => .refl _
  · exact .refl _

theorem loads_of_within (le : limits.Within limits') (h : loads limits s = .ok v) :
    loads limits' s = .ok v := by
  rcases loads_agree le s with ⟨f, -, hf⟩ | heq
  · rw [h] at hf
    cases hf
  · rw [heq, h]

theorem Limits.exists_within (limits limits' : Limits) :
    ∃ both, limits.Within both ∧ limits'.Within both :=
  ⟨⟨max limits.digits limits'.digits, max limits.nesting limits'.nesting⟩,
    ⟨Nat.le_max_left _ _, Nat.le_max_left _ _⟩, ⟨Nat.le_max_right _ _, Nat.le_max_right _ _⟩⟩

def InBrace (stack : List Frame) : Prop :=
  ∃ members key, stack.getLast? = some (.object members key)

/-- The value that is being read is an object, or it was one. -/
def State.Braced (σ : State) : Prop :=
  (∃ members, σ.mode = .done (.object members)) ∨ (∀ v, σ.mode ≠ .done v) ∧ InBrace σ.stack

theorem complete_braced (v : Value) (h : InBrace stack) :
    (∀ u, (complete v stack).mode ≠ .done u) ∧ InBrace (complete v stack).stack := by
  obtain ⟨members, key, h⟩ := h
  match stack with
  | [] => simp at h
  | [.array items] => simp at h
  | [.object members' key'] => exact ⟨nofun, _, _, rfl⟩
  | .array items :: frame :: stack =>
    exact ⟨nofun, members, key, by simpa [complete] using h⟩
  | .object members' key' :: frame :: stack =>
    exact ⟨nofun, members, key, by simpa [complete] using h⟩

theorem InBrace.tail {frame frame' : Frame} (h : InBrace (frame :: frame' :: stack)) :
    InBrace (frame' :: stack) := by
  obtain ⟨members, key, h⟩ := h
  exact ⟨members, key, by rwa [List.getLast?_cons_cons] at h⟩

theorem InBrace.cons (frame : Frame) (h : InBrace stack) : InBrace (frame :: stack) := by
  obtain ⟨members, key, h⟩ := h
  exact ⟨members, key, by rw [List.getLast?_cons, h]; rfl⟩

theorem moves_braced (h : InBrace stack) (moves : Moves c stack σ') : σ'.Braced := by
  have hdone {mode : Mode} (structural : mode.Structural) (v : Value) : mode ≠ .done v := by
    rintro rfl
    exact structural
  cases moves with
  | stay structural => exact .inr ⟨hdone structural, h⟩
  | numeral => exact .inr ⟨nofun, h⟩
  | push frame structural => exact .inr ⟨hdone structural, h.cons frame⟩
  | @name members key stack key' =>
    cases stack with
    | nil => exact .inr ⟨nofun, members, key', rfl⟩
    | cons frame stack => exact .inr ⟨nofun, h.tail.cons _⟩
  | complete v => exact .inr (complete_braced v h)
  | @closeArray items stack =>
    cases stack with
    | nil =>
      obtain ⟨m, k, h⟩ := h
      simp at h
    | cons frame stack => exact .inr (complete_braced _ h.tail)
  | @closeObject members key stack =>
    cases stack with
    | nil => exact .inl ⟨members, rfl⟩
    | cons frame stack => exact .inr (complete_braced _ h.tail)

theorem step_braced (h : σ.Braced) (taken : step limits σ c = .ok σ') : σ'.Braced := by
  rcases h with ⟨members, h⟩ | ⟨hmode, h⟩
  · have hrun : run limits σ [c] = _ := run_done h
    rw [run_cons, taken] at hrun
    change Except.ok σ' = _ at hrun
    split at hrun
    · obtain rfl := Except.ok.inj hrun
      exact .inl ⟨members, h⟩
    · cases hrun
  · rcases step_moves taken with ⟨rfl, -⟩ | moves | ⟨v, moves⟩
    · exact .inr ⟨hmode, h⟩
    · exact moves_braced h moves
    · exact moves_braced (complete_braced v h).2 moves

theorem run_braced (h : σ.Braced) (ran : run limits σ s = .ok σ') : σ'.Braced := by
  induction s generalizing σ with
  | nil => exact Except.ok.inj ran ▸ h
  | cons c s ih =>
    rw [run_cons] at ran
    cases hstep : step limits σ c with
    | error f =>
      rw [hstep] at ran
      cases ran
    | ok σ₁ =>
      rw [hstep] at ran
      exact ih (step_braced h hstep) ran

/-- The text ends with a closing brace, so no number goes on behind it. -/
def Closed (s : Text) : Prop := s.getLast? = some 0x7D

theorem run_append_ok (h : run limits σ (s ++ t) = .ok σ') :
    ∃ σ₁, run limits σ s = .ok σ₁ ∧ run limits σ₁ t = .ok σ' := by
  rw [run_append] at h
  cases hrun : run limits σ s with
  | error f =>
    rw [hrun] at h
    cases h
  | ok σ₁ =>
    rw [hrun] at h
    exact ⟨σ₁, rfl, h⟩

theorem loads_of_closed (closed : Closed s) (ran : run limits ⟨.value, []⟩ s = .ok σ) :
    (∃ v, σ.mode = .done v ∧ loads limits s = .ok v) ∨ loads limits s = .error .malformed := by
  obtain ⟨t, rfl⟩ := List.getLast?_eq_some_iff.mp closed
  obtain ⟨σ₁, -, hstep⟩ := run_append_ok ran
  rw [run_cons] at hstep
  have hmode (literal : Text) : σ.mode ≠ .number literal := by
    cases hbrace : step limits σ₁ 0x7D with
    | error f =>
      rw [hbrace] at hstep
      cases hstep
    | ok σ₂ =>
      rw [hbrace] at hstep
      obtain rfl := Except.ok.inj hstep
      exact step_brace hbrace literal
  rw [loads, ran]
  change (∃ v, _ ∧ finish limits σ = .ok v) ∨ finish limits σ = .error .malformed
  unfold finish
  split
  · next v hv => exact .inl ⟨v, hv, rfl⟩
  · next literal hv => exact absurd hv (hmode literal)
  · exact .inr rfl

theorem loads_append_of_ok (closed : Closed s) (h : loads limits s = .ok v) :
    loads limits (s ++ t) = if t.all isBlank then .ok v else .error .malformed := by
  cases hrun : run limits ⟨.value, []⟩ s with
  | error f =>
    rw [loads, hrun] at h
    cases h
  | ok σ =>
    rcases loads_of_closed closed hrun with ⟨u, hmode, hu⟩ | hbad
    · obtain rfl := Except.ok.inj (h.symm.trans hu)
      rw [loads, run_append, hrun]
      change (run limits σ t).bind (finish limits) = _
      rw [run_done hmode]
      split
      · change finish limits σ = _
        rw [finish, hmode]
      · rfl
    · rw [h] at hbad
      cases hbad

/-- A limit that is exceeded in a closed text is exceeded in every longer one. -/
theorem loads_append_of_exceeds (closed : Closed s) (hf : f.Exceeds)
    (h : loads limits s = .error f) : loads limits (s ++ t) = .error f := by
  cases hrun : run limits ⟨.value, []⟩ s with
  | error g =>
    rw [loads, hrun] at h
    obtain rfl := Except.error.inj h
    exact loads_append_of_error hrun
  | ok σ =>
    rcases loads_of_closed closed hrun with ⟨u, -, hu⟩ | hbad
    · rw [h] at hu
      cases hu
    · rw [h] at hbad
      exact absurd (Except.error.inj hbad) hf

theorem loads_brace (closed : Closed s) (hbrace : s.head? = some 0x7B)
    (h : loads limits s = .ok v) : ∃ members, v = .object members := by
  obtain ⟨t, rfl⟩ := List.head?_eq_some_iff.mp hbrace
  cases hrun : run limits ⟨.value, []⟩ (0x7B :: t) with
  | error f =>
    rw [loads, hrun] at h
    cases h
  | ok σ =>
    have hstart : step limits ⟨.value, []⟩ 0x7B =
        opening.bracket limits [] .firstKey (.object [] []) := rfl
    have hbraced : σ.Braced := by
      rw [run_cons, hstart, opening.bracket] at hrun
      split at hrun
      · cases hrun
      · exact run_braced (.inr ⟨by simp, [], [], rfl⟩) hrun
    rcases loads_of_closed closed hrun with ⟨u, hmode, hu⟩ | hbad
    · obtain rfl := Except.ok.inj (h.symm.trans hu)
      rcases hbraced with ⟨members, hdone⟩ | ⟨hdone, -⟩
      · exact ⟨members, Mode.done.inj (hmode.symm.trans hdone)⟩
      · exact absurd hmode (hdone v)
    · rw [h] at hbad
      cases hbad

end JsonScan
