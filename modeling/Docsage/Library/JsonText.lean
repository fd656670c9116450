import Docsage.Library.Fields
import Mathlib.Data.Nat.Notation

/-! # JSON texts

A text is a list of code units, and a parser takes a value off its front. The fuel
bounds the nesting; the length of the text is always enough. Every mark of a value,
also where an escape hides it, was paid for by a mark of the text it was read from.
-/

namespace JsonText

def ascii (s : String) : List UInt16 := s.toList.map fun c => UInt16.ofNat c.toNat

/-- A value that was read. A number is kept as it is spelled, and of an object only the names of
its members. -/
inductive Value where
  | null
  | bool (b : Bool)
  | number (literal : List UInt16)
  | string (units : List UInt16)
  | array (items : List Value)
  | object (names : List (List UInt16))

abbrev Parser (α : Type) := List UInt16 → Option (α × List UInt16)

def isBlank (u : UInt16) : Bool := u == 0x20 || u == 0x09 || u == 0x0A || u == 0x0D

def skip (s : List UInt16) : List UInt16 := s.dropWhile isBlank

/-- One structural unit, with blanks before it. -/
def expect (u : UInt16) (s : List UInt16) : Option (List UInt16) :=
  match skip s with
  | [] => none
  | v :: rest => if v = u then some rest else none

def hexDigit (u : UInt16) : Option ℕ :=
  let n := u.toNat
  if 0x30 ≤ n ∧ n ≤ 0x39 then some (n - 0x30)
  else if 0x41 ≤ n ∧ n ≤ 0x46 then some (n - 0x41 + 10)
  else if 0x61 ≤ n ∧ n ≤ 0x66 then some (n - 0x61 + 10)
  else none

def hexUnit (a b c d : UInt16) : Option UInt16 := do
  let a ← hexDigit a
  let b ← hexDigit b
  let c ← hexDigit c
  let d ← hexDigit d
  some (UInt16.ofNat (((a * 16 + b) * 16 + c) * 16 + d))

def escaped (e : UInt16) : Option UInt16 :=
  if e = 0x22 ∨ e = 0x5C ∨ e = 0x2F then some e
  else if e = 0x62 then some 0x08
  else if e = 0x66 then some 0x0C
  else if e = 0x6E then some 0x0A
  else if e = 0x72 then some 0x0D
  else if e = 0x74 then some 0x09
  else none

def stringRest : Parser (List UInt16)
  | [] => none
  | u :: s =>
    if u = 0x22 then some ([], s)
    else if u = 0x5C then
      match s with
      | [] => none
      | e :: s =>
        if e = 0x75 then
          match s with
          | a :: b :: c :: d :: s =>
            (hexUnit a b c d).bind fun x => (stringRest s).map fun r => (x :: r.1, r.2)
          | _ => none
        else (escaped e).bind fun x => (stringRest s).map fun r => (x :: r.1, r.2)
    else if u < 0x20 then none
    else (stringRest s).map fun r => (u :: r.1, r.2)

def isDigit (u : UInt16) : Bool := 0x30 ≤ u.toNat && u.toNat ≤ 0x39

def isExponent : List UInt16 → Bool
  | [] => true
  | e :: s =>
    let digits := if s.head? = some 0x2B ∨ s.head? = some 0x2D then s.tail else s
    (e == 0x65 || e == 0x45) && !digits.isEmpty && digits.all isDigit

def isFraction : List UInt16 → Bool
  | [] => true
  | u :: s =>
    if u = 0x2E then !(s.takeWhile isDigit).isEmpty && isExponent (s.dropWhile isDigit)
    else isExponent (u :: s)

/-- `-?(0|[1-9]\d*)(\.\d+)?([eE][+-]?\d+)?`. -/
def isNumber (s : List UInt16) : Bool :=
  let s := if s.head? = some 0x2D then s.tail else s
  let whole := s.takeWhile isDigit
  !whole.isEmpty && (whole.head? ≠ some 0x30 || whole.length == 1) &&
    isFraction (s.dropWhile isDigit)

/-- What a number may be spelled with. No such unit may stand behind a number. -/
def isNumeral (u : UInt16) : Bool :=
  isDigit u || u == 0x2B || u == 0x2D || u == 0x2E || u == 0x45 || u == 0x65

def number : Parser Value := fun s =>
  if isNumber (s.takeWhile isNumeral) then
    some (.number (s.takeWhile isNumeral), s.dropWhile isNumeral)
  else none

def name (spelling : String) (v : Value) : Parser Value := fun s =>
  if (ascii spelling).isPrefixOf s then some (v, s.drop spelling.length) else none

def scalar : Parser Value := fun s =>
  name "null" .null s <|> name "true" (.bool true) s <|> name "false" (.bool false) s <|> number s

section Lists
variable {α : Type} (close : UInt16) (item : Parser α)

def items : ℕ → Parser (List α)
  | 0, _ => none
  | n + 1, s =>
    (item s).bind fun (a, s) =>
      match expect close s with
      | some rest => some ([a], rest)
      | none => (expect 0x2C s).bind fun s => (items n s).map fun r => (a :: r.1, r.2)

def listed (n : ℕ) (s : List UInt16) : Option (List α × List UInt16) :=
  match expect close s with
  | some rest => some ([], rest)
  | none => items close item n s

/-- The name of a member; its value is read and dropped. -/
def member (s : List UInt16) : Option (List UInt16 × List UInt16) :=
  (expect 0x22 s).bind fun s => (stringRest s).bind fun (name, s) =>
    (expect 0x3A s).bind fun s => (item s).map fun r => (name, r.2)

end Lists

def value : ℕ → Parser Value
  | 0, _ => none
  | n + 1, s =>
    match skip s with
    | [] => none
    | u :: s =>
      if u = 0x22 then (stringRest s).map fun r => (.string r.1, r.2)
      else if u = 0x5B then (listed 0x5D (value n) n s).map fun r => (.array r.1, r.2)
      else if u = 0x7B then (listed 0x7D (member (value n)) n s).map fun r => (.object r.1, r.2)
      else scalar (u :: s)

/-- `JSON.parse`: a value with nothing but blanks behind it, and `none` where it throws. -/
def parse (text : List UInt16) : Option Value :=
  (value (text.length + 1) text).bind fun (v, rest) => if skip rest = [] then some v else none

section Text

-- How a number is written that was spelled so.
variable (numberText : List UInt16 → List UInt16)

mutual

/-- `String(value)`, and `none` where it throws: an object with a member `toString` cannot be
written, since no value of a JSON text can be called. -/
def Value.text : Value → Option (List UInt16)
  | .null => some (ascii "null")
  | .bool b => some (ascii (if b then "true" else "false"))
  | .number literal => some (numberText literal)
  | .string units => some units
  | .array items => (itemTexts items).map fun texts => (ascii ",").intercalate texts
  | .object names => if ascii "toString" ∈ names then none else some (ascii "[object Object]")

/-- What an array joins: `null` is left empty. -/
def itemTexts : List Value → Option (List (List UInt16))
  | [] => some []
  | .null :: rest => (itemTexts rest).map fun texts => [] :: texts
  | item :: rest => item.text.bind fun text => (itemTexts rest).map fun texts => text :: texts

end

end Text

def isMark (u : UInt16) : Bool := u == 0x22 || u == 0x5C || u == 0x5B || u == 0x7B

section Cost
variable {p : UInt16 → Bool}

mutual

/-- The units of a class in the strings of a value, and one unit for every bracket. -/
def Value.cost (p : UInt16 → Bool) : Value → ℕ
  | .null | .bool _ | .number _ => 0
  | .string units => units.countP p
  | .array items => costs p items + 1
  | .object _ => 1

def costs (p : UInt16 → Bool) : List Value → ℕ
  | [] => 0
  | item :: rest => item.cost p + costs p rest

end

theorem costs_eq (items : List Value) : costs p items = (items.map (Value.cost p)).sum := by
  induction items with
  | nil => simp [costs]
  | cons item rest ih => simp [costs, ih]

/-- A parser that takes off the text at least what its result costs. -/
def Within {α : Type} (p : UInt16 → Bool) (cost : α → ℕ) (parser : Parser α) : Prop :=
  ∀ s a rest, parser s = some (a, rest) → cost a + rest.countP p ≤ s.countP p

theorem countP_dropWhile_le (q : UInt16 → Bool) (s : List UInt16) :
    (s.dropWhile q).countP p ≤ s.countP p :=
  (List.dropWhile_sublist q).countP_le

theorem countP_skip_le (s : List UInt16) : (skip s).countP p ≤ s.countP p :=
  countP_dropWhile_le isBlank s

theorem expect_within {u : UInt16} {s rest : List UInt16} (h : expect u s = some rest) :
    (u :: rest).countP p ≤ s.countP p := by
  have hskip := countP_skip_le (p := p) s
  unfold expect at h
  split at h
  · cases h
  · next v t ht =>
    rw [ht] at hskip
    split at h
    · next hv =>
      obtain rfl := hv
      obtain rfl := Option.some.inj h
      exact hskip
    · cases h

theorem countP_expect_le {u : UInt16} {s rest : List UInt16} (h : expect u s = some rest) :
    rest.countP p ≤ s.countP p :=
  Nat.le_trans (List.sublist_cons_self u rest).countP_le (expect_within h)

/-- An escape pays with its backslash for the unit it stands for. -/
theorem escape_within (backslash : p 0x5C = true) (letters : List UInt16) {unit : Option UInt16}
    {s a rest : List UInt16}
    (ih : ∀ a rest, stringRest s = some (a, rest) → a.countP p + rest.countP p ≤ s.countP p)
    (h : (unit.bind fun x => (stringRest s).map fun r => (x :: r.1, r.2)) = some (a, rest)) :
    a.countP p + rest.countP p ≤ (0x5C :: (letters ++ s)).countP p := by
  obtain ⟨x, -, h⟩ := Option.bind_eq_some_iff.mp h
  obtain ⟨r, hr, h⟩ := Option.map_eq_some_iff.mp h
  obtain ⟨rfl, rfl⟩ := Prod.mk.inj h
  have hrest := ih r.1 r.2 hr
  have hx : [x].countP p ≤ 1 := List.countP_le_length
  rw [List.countP_cons_of_pos backslash, List.countP_append, ← List.singleton_append,
    List.countP_append]
  omega

theorem stringRest_within (backslash : p 0x5C = true) : Within p (List.countP p) stringRest := by
  intro s
  fun_induction stringRest s with
  | case1 => intro a rest h; cases h
  | case2 s =>
    intro a rest h
    obtain ⟨rfl, rfl⟩ := Prod.mk.inj (Option.some.inj h)
    simpa using (List.sublist_cons_self 34 s).countP_le
  | case3 => intro a rest h; cases h
  | case4 a b c d s _ ih =>
    exact fun _ _ h => escape_within backslash [0x75, a, b, c, d] ih h
  | case5 => intro a rest h; cases h
  | case6 e s _ _ ih => exact fun _ _ h => escape_within backslash [e] ih h
  | case7 => intro a rest h; cases h
  | case8 u s _ _ _ ih =>
    intro a rest h
    obtain ⟨r, hr, h⟩ := Option.map_eq_some_iff.mp h
    obtain ⟨rfl, rfl⟩ := Prod.mk.inj h
    have hrest := ih r.1 r.2 hr
    rw [List.countP_cons, List.countP_cons]
    omega

theorem name_within (spelling : String) {v : Value} (free : v.cost p = 0) :
    Within p (Value.cost p) (name spelling v) := by
  intro s a rest h
  unfold name at h
  split at h
  · obtain ⟨rfl, rfl⟩ := Prod.mk.inj (Option.some.inj h)
    have hrest := (List.drop_sublist spelling.length s).countP_le (p := p)
    omega
  · cases h

theorem number_within : Within p (Value.cost p) number := by
  intro s a rest h
  unfold number at h
  split at h
  · obtain ⟨rfl, rfl⟩ := Prod.mk.inj (Option.some.inj h)
    have hrest := countP_dropWhile_le (p := p) isNumeral s
    rw [Value.cost]
    omega
  · cases h

theorem scalar_within : Within p (Value.cost p) scalar := by
  intro s a rest h
  simp only [scalar, Option.orElse_eq_orElse, Option.orElse_eq_or, Option.or_eq_some_iff] at h
  rcases h with h | ⟨-, h | ⟨-, h | ⟨-, h⟩⟩⟩
  · exact name_within "null" (by rw [Value.cost]) s a rest h
  · exact name_within "true" (by rw [Value.cost]) s a rest h
  · exact name_within "false" (by rw [Value.cost]) s a rest h
  · exact number_within s a rest h

section Lists
variable {α : Type} {close : UInt16} {item : Parser α} {cost : α → ℕ}

theorem items_within (h : Within p cost item) (n : ℕ) :
    Within p (fun as => (as.map cost).sum) (items close item n) := by
  induction n with
  | zero => intro s as rest hr; cases hr
  | succ n ih =>
    intro s as rest hr
    obtain ⟨⟨a, s'⟩, ha, hr⟩ := Option.bind_eq_some_iff.mp hr
    have hitem := h s a s' ha
    dsimp only at hr
    split at hr
    · next hclose =>
      obtain ⟨rfl, rfl⟩ := Prod.mk.inj (Option.some.inj hr)
      have hexpect := countP_expect_le (p := p) hclose
      simp only [List.map_cons, List.map_nil, List.sum_cons, List.sum_nil]
      omega
    · obtain ⟨s'', hcomma, hr⟩ := Option.bind_eq_some_iff.mp hr
      obtain ⟨r, hitems, hr⟩ := Option.map_eq_some_iff.mp hr
      obtain ⟨rfl, rfl⟩ := Prod.mk.inj hr
      have hrest := ih s'' r.1 r.2 hitems
      have hexpect := countP_expect_le (p := p) hcomma
      simp only [List.map_cons, List.sum_cons] at hrest ⊢
      omega

theorem listed_within (h : Within p cost item) (n : ℕ) :
    Within p (fun as => (as.map cost).sum) (listed close item n) := by
  intro s as rest hr
  unfold listed at hr
  split at hr
  · next hclose =>
    obtain ⟨rfl, rfl⟩ := Prod.mk.inj (Option.some.inj hr)
    have hexpect := countP_expect_le (p := p) hclose
    simp only [List.map_nil, List.sum_nil]
    omega
  · exact items_within h n s as rest hr

theorem member_within (backslash : p 0x5C = true) (h : Within p cost item) :
    Within p (fun _ => 0) (member item) := by
  intro s name rest hr
  obtain ⟨s₁, hquote, hr⟩ := Option.bind_eq_some_iff.mp hr
  obtain ⟨⟨units, s₂⟩, hname, hr⟩ := Option.bind_eq_some_iff.mp hr
  obtain ⟨s₃, hcolon, hr⟩ := Option.bind_eq_some_iff.mp hr
  obtain ⟨r, hitem, hr⟩ := Option.map_eq_some_iff.mp hr
  obtain ⟨rfl, rfl⟩ := Prod.mk.inj hr
  have h₁ := countP_expect_le (p := p) hquote
  have h₂ := stringRest_within backslash s₁ units s₂ hname
  have h₃ := countP_expect_le (p := p) hcolon
  have h₄ := h s₃ r.1 r.2 hitem
  dsimp only
  omega

end Lists

theorem value_within (marks : ∀ u, isMark u = true → p u = true) (n : ℕ) :
    Within p (Value.cost p) (value n) := by
  have backslash : p 0x5C = true := marks _ rfl
  induction n with
  | zero => intro s v rest h; cases h
  | succ n ih =>
    intro s v rest h
    have hskip := countP_skip_le (p := p) s
    unfold value at h
    split at h
    · cases h
    · next u t ht =>
      rw [ht, List.countP_cons] at hskip
      split_ifs at h with hquote hbracket hbrace
      · obtain ⟨r, hr, h⟩ := Option.map_eq_some_iff.mp h
        obtain ⟨rfl, rfl⟩ := Prod.mk.inj h
        have hstring := stringRest_within backslash t r.1 r.2 hr
        rw [Value.cost]
        omega
      · obtain ⟨r, hr, h⟩ := Option.map_eq_some_iff.mp h
        obtain ⟨rfl, rfl⟩ := Prod.mk.inj h
        have hlist := listed_within ih n t r.1 r.2 hr
        dsimp only at hlist
        rw [hbracket, if_pos (marks _ rfl)] at hskip
        rw [Value.cost, costs_eq]
        omega
      · obtain ⟨r, hr, h⟩ := Option.map_eq_some_iff.mp h
        obtain ⟨rfl, rfl⟩ := Prod.mk.inj h
        have hlist := listed_within (member_within backslash ih) n t r.1 r.2 hr
        rw [hbrace, if_pos (marks _ rfl)] at hskip
        rw [Value.cost]
        omega
      · have hscalar := scalar_within (p := p) (u :: t) v rest h
        rw [List.countP_cons] at hscalar
        omega

theorem parse_cost_le (marks : ∀ u, isMark u = true → p u = true) {text : List UInt16}
    {v : Value} (h : parse text = some v) : v.cost p ≤ text.countP p := by
  obtain ⟨⟨v', rest⟩, hvalue, h⟩ := Option.bind_eq_some_iff.mp h
  have hcost := value_within marks _ text v' rest hvalue
  dsimp only at h
  split at h
  · obtain rfl := Option.some.inj h
    omega
  · cases h

section Text
variable {numberText : List UInt16 → List UInt16}

mutual

/-- The marks of a written value are marks of its strings, or the one that an object is written
with. -/
theorem text_countP_le (plain : ∀ literal, (numberText literal).countP isMark = 0) :
    (v : Value) → (text : List UInt16) → v.text numberText = some text →
      text.countP isMark ≤ v.cost isMark
  | .null, text, h => by
    rw [Value.text] at h
    obtain rfl := Option.some.inj h
    decide
  | .bool b, text, h => by
    rw [Value.text] at h
    obtain rfl := Option.some.inj h
    cases b <;> decide
  | .number literal, text, h => by
    rw [Value.text] at h
    obtain rfl := Option.some.inj h
    exact Nat.le_of_eq (plain literal)
  | .string units, text, h => by
    rw [Value.text] at h
    obtain rfl := Option.some.inj h
    exact Nat.le_of_eq (by rw [Value.cost])
  | .array items, text, h => by
    rw [Value.text] at h
    obtain ⟨texts, htexts, rfl⟩ := Option.map_eq_some_iff.mp h
    have hitems := itemTexts_countP_le plain items texts htexts
    rw [Value.cost, Fields.countP_intercalate (by decide)]
    omega
  | .object names, text, h => by
    rw [Value.text] at h
    split at h
    · cases h
    · obtain rfl := Option.some.inj h
      rw [Value.cost]
      decide

theorem itemTexts_countP_le (plain : ∀ literal, (numberText literal).countP isMark = 0) :
    (items : List Value) → (texts : List (List UInt16)) →
      itemTexts numberText items = some texts →
      (texts.map (List.countP isMark)).sum ≤ costs isMark items
  | [], texts, h => by
    rw [itemTexts] at h
    obtain rfl := Option.some.inj h
    simp
  | item :: rest, texts, h => by
    have hitem (text : List UInt16) (h : item.text numberText = some text) :=
      text_countP_le plain item text h
    have hrest (texts : List (List UInt16)) (h : itemTexts numberText rest = some texts) :=
      itemTexts_countP_le plain rest texts h
    unfold itemTexts at h
    split at h
    · cases ‹item :: rest = []›
    · next heq =>
      obtain ⟨rfl, rfl⟩ := List.cons.inj heq
      obtain ⟨texts', htexts, rfl⟩ := Option.map_eq_some_iff.mp h
      have htail := hrest texts' htexts
      simp only [List.map_cons, List.countP_nil, List.sum_cons, costs]
      omega
    · next heq =>
      obtain ⟨rfl, rfl⟩ := List.cons.inj heq
      obtain ⟨text, htext, h⟩ := Option.bind_eq_some_iff.mp h
      obtain ⟨texts', htexts, rfl⟩ := Option.map_eq_some_iff.mp h
      have hhead := hitem text htext
      have htail := hrest texts' htexts
      simp only [List.map_cons, List.sum_cons, costs]
      omega

end

/-- The entries of an array that was read are written with fewer marks than its text has. -/
theorem entries_countP_lt (plain : ∀ literal, (numberText literal).countP isMark = 0)
    {text : List UInt16} {items : List Value} {texts : List (List UInt16)}
    (h : parse text = some (.array items))
    (written : items.mapM (Value.text numberText) = some texts) :
    (texts.map (List.countP isMark)).sum < text.countP isMark := by
  have hcost := parse_cost_le (fun _ hu => hu) h
  have hentries : (texts.map (List.countP isMark)).sum ≤ costs isMark items := by
    clear h hcost
    induction items generalizing texts with
    | nil =>
      obtain rfl := Option.some.inj written
      exact Nat.zero_le _
    | cons item items ih =>
      rw [List.mapM_cons] at written
      obtain ⟨text, htext, written⟩ := Option.bind_eq_some_iff.mp written
      obtain ⟨texts', htexts, written⟩ := Option.bind_eq_some_iff.mp written
      obtain rfl := Option.some.inj written
      have hhead := text_countP_le plain item text htext
      have htail := ih htexts
      simp only [List.map_cons, List.sum_cons, costs]
      omega
  rw [Value.cost] at hcost
  omega

end Text

end Cost

theorem length_expect_lt {u : UInt16} {s rest : List UInt16} (h : expect u s = some rest) :
    rest.length < s.length := by
  have hexpect := expect_within (p := fun _ => true) h
  simpa [Nat.succ_le_iff] using hexpect

theorem value_length_le {n : ℕ} {s rest : List UInt16} {v : Value}
    (h : value n s = some (v, rest)) : rest.length ≤ s.length := by
  have hwithin := value_within (p := fun _ => true) (fun _ _ => rfl) n s v rest h
  simp only [List.countP_true] at hwithin
  omega

theorem stringRest_length_le {s units rest : List UInt16} (h : stringRest s = some (units, rest)) :
    rest.length ≤ s.length := by
  have hwithin := stringRest_within (p := fun _ => true) rfl s units rest h
  simp only [List.countP_true] at hwithin
  omega

section Lists
variable {α : Type} {close : UInt16} {item item' : Parser α}

/-- Items are read alike by parsers that agree on texts no longer than this one. -/
theorem items_congr (shrinks : ∀ s a rest, item s = some (a, rest) → rest.length ≤ s.length)
    {m n : ℕ} {s : List UInt16} (agree : ∀ t, t.length ≤ s.length → item t = item' t)
    (hm : s.length < m) (hn : s.length < n) : items close item m s = items close item' n s := by
  induction m generalizing n s with
  | zero => omega
  | succ m ih =>
    obtain _ | n := n
    · omega
    rw [items, items, ← agree s (Nat.le_refl _)]
    refine Option.bind_congr fun (a, s') ha => ?_
    have hs' := shrinks s a s' ha
    dsimp only
    split
    · rfl
    · refine Option.bind_congr fun s'' hcomma => ?_
      have hs'' := length_expect_lt hcomma
      rw [ih (n := n) (fun t ht => agree t (by omega)) (by omega) (by omega)]

theorem listed_congr (shrinks : ∀ s a rest, item s = some (a, rest) → rest.length ≤ s.length)
    {m n : ℕ} {s : List UInt16} (agree : ∀ t, t.length ≤ s.length → item t = item' t)
    (hm : s.length < m) (hn : s.length < n) :
    listed close item m s = listed close item' n s := by
  unfold listed
  rw [items_congr shrinks agree hm hn]

theorem member_congr {s : List UInt16} (agree : ∀ t, t.length ≤ s.length → item t = item' t) :
    member item s = member item' s := by
  refine Option.bind_congr fun s₁ hquote => Option.bind_congr fun (units, s₂) hname =>
    Option.bind_congr fun s₃ hcolon => ?_
  have h₁ := length_expect_lt hquote
  have h₂ := stringRest_length_le hname
  have h₃ := length_expect_lt hcolon
  rw [agree s₃ (by omega)]

theorem member_length_le {n : ℕ} {s name rest : List UInt16}
    (h : member (value n) s = some (name, rest)) : rest.length ≤ s.length := by
  have hitem := value_within (p := fun _ => true) (fun _ _ => rfl) n
  have hwithin := member_within rfl hitem s name rest h
  simp only [List.countP_true] at hwithin
  omega

end Lists

theorem value_eq_of_lt {m n : ℕ} {s : List UInt16} (hm : s.length < m) (hn : s.length < n) :
    value m s = value n s := by
  induction m generalizing n s with
  | zero => omega
  | succ m ih =>
    obtain _ | n := n
    · omega
    have hskip := (List.dropWhile_sublist isBlank (l := s)).length_le
    rw [value, value]
    change (skip s).length ≤ s.length at hskip
    split
    · rfl
    · next u t ht =>
      rw [ht, List.length_cons] at hskip
      have agree (r : List UInt16) (hr : r.length ≤ t.length) : value m r = value n r :=
        ih (by omega) (by omega)
      have hitems : listed 0x5D (value m) m t = listed 0x5D (value n) n t :=
        listed_congr (fun _ _ _ => value_length_le) agree (by omega) (by omega)
      have hmembers : listed 0x7D (member (value m)) m t = listed 0x7D (member (value n)) n t := by
        refine listed_congr (fun _ _ _ => member_length_le) (fun r hr => ?_) (by omega) (by omega)
        exact member_congr fun r' hr' => agree r' (by omega)
      rw [hitems, hmembers]

theorem parse_eq {text : List UInt16} {n : ℕ} (h : text.length < n) :
    parse text = (value n text).bind fun (v, rest) => if skip rest = [] then some v else none := by
  rw [parse, value_eq_of_lt (Nat.lt_succ_self _) h]

end JsonText
