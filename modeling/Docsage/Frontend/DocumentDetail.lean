import Docsage.Frontend.Strings
import Docsage.Ingestion.Chunks
import Docsage.Library.Fields
import Docsage.Library.JsonText
import Mathlib.Data.Bool.AllAny

/-! # Enrichments in the document dialog

The pipeline writes all keywords into one row and every question into a row of its
own. The dialog looks for the first row of a kind and takes its text apart again.
The keywords and questions come back whole as long as nothing in them reads as a
separator, a prefix or JSON, and there is one question at most.
-/

namespace Docsage
open Text

namespace DocumentDetail

def isBullet (c : Char) : Bool := c == '-' || c == '•' || c == '*'

def isNumberMark (c : Char) : Bool := c == '.' || c == ')'

/-- `text.replace(/^[-•*]\s*/, "")`. -/
def dropBullet (text : Utf16) : Utf16 :=
  match text with
  | [] => []
  | u :: rest => if onUnit isBullet u then rest.dropWhile Frontend.isBlankUnit else text

/-- `text.replace(/^\d+[.)]\s*/, "")`. -/
def dropNumber (text : Utf16) : Utf16 :=
  match text.dropWhile (onUnit Char.isDigit) with
  | [] => text
  | mark :: rest =>
    if text.head?.any (onUnit Char.isDigit) && onUnit isNumberMark mark then
      rest.dropWhile Frontend.isBlankUnit
    else text

def filterBoolean (texts : List Utf16) : List Utf16 := texts.filter fun text => !text.isEmpty

section Parse

-- `String` of a number, by the literal that it was read from
variable (numberText : Utf16 → Utf16)

/-- The `try` block: the entries of a JSON array, each through `String`. -/
def jsonEntries? (content : Utf16) : Option (List Utf16) :=
  match JsonText.parse content with
  | some (.array entries) => entries.mapM (JsonText.Value.text numberText)
  | _ => none

def isKeywordBreak (c : Char) : Bool := c == ',' || c == '\n'

def parseKeywords (content : Utf16) : List Utf16 :=
  match jsonEntries? numberText content with
  | some entries => filterBoolean (entries.map Frontend.trim)
  | none =>
    filterBoolean ((content.splitOnP (onUnit isKeywordBreak)).map fun entry =>
      dropBullet (Frontend.trim entry))

/-- A run of line breaks is split at each of them: the empty lines between go in the filter. -/
def parseQuestions (content : Utf16) : List Utf16 :=
  filterBoolean ((content.splitOnP (onUnit (· == '\n'))).map fun line =>
    dropBullet (dropNumber (Frontend.trim line)))

/-- `detail.enrichments.find((item) => item.kind === kind)`. -/
def findKind (kind : EnrichmentKind) (enrichments : List Enrichment) : Option Enrichment :=
  enrichments.find? fun item => item.kind = kind

def shownKeywords (enrichments : List Enrichment) : List Utf16 :=
  match findKind .keywords enrichments with
  | some keywords => parseKeywords numberText (utf16 keywords.content)
  | none => []

def shownQuestions (enrichments : List Enrichment) : List Utf16 :=
  match findKind .questions enrichments with
  | some questions => parseQuestions (utf16 questions.content)
  | none => []

end Parse

theorem reads_isBullet : Recoding.Reads unitsOfChar isBullet (onUnit isBullet) := by
  refine reads_units (fun c hc => ?_) (by decide)
  simp only [isBullet, Bool.or_eq_true, beq_iff_eq] at hc
  rcases hc with (rfl | rfl) | rfl <;> decide

theorem reads_isNumberMark : Recoding.Reads unitsOfChar isNumberMark (onUnit isNumberMark) := by
  refine reads_units (fun c hc => ?_) (by decide)
  simp only [isNumberMark, Bool.or_eq_true, beq_iff_eq] at hc
  rcases hc with rfl | rfl <;> decide

theorem reads_isKeywordBreak :
    Recoding.Reads unitsOfChar isKeywordBreak (onUnit isKeywordBreak) := by
  refine reads_units (fun c hc => ?_) (by decide)
  simp only [isKeywordBreak, Bool.or_eq_true, beq_iff_eq] at hc
  rcases hc with rfl | rfl <;> decide

theorem reads_isNewline : Recoding.Reads unitsOfChar (· == '\n') (onUnit (· == '\n')) := by
  refine reads_units (fun c hc => ?_) (by decide)
  rw [beq_iff_eq.mp hc]
  decide

theorem dropBullet_sublist (text : Utf16) : (dropBullet text).Sublist text := by
  unfold dropBullet
  split
  · exact List.Sublist.refl _
  · split
    · exact (List.dropWhile_sublist _).trans (List.sublist_cons_self _ _)
    · exact List.Sublist.refl _

theorem dropNumber_sublist (text : Utf16) : (dropNumber text).Sublist text := by
  unfold dropNumber
  split
  · exact List.Sublist.refl _
  · next mark rest h =>
    split
    · have hrest : rest.Sublist text :=
        (List.sublist_cons_self mark rest).trans (h ▸ List.dropWhile_sublist _)
      exact (List.dropWhile_sublist _).trans hrest
    · exact List.Sublist.refl _

theorem dropBullet_eq_self {text : Utf16} :
    dropBullet text = text ↔ text.head?.any (onUnit isBullet) = false := by
  cases text with
  | nil => simp [dropBullet]
  | cons u rest =>
    cases hu : onUnit isBullet u with
    | false => simp [dropBullet, hu]
    | true =>
      have hne : rest.dropWhile Frontend.isBlankUnit ≠ u :: rest := fun h => by
        have hle := (List.dropWhile_sublist Frontend.isBlankUnit (l := rest)).length_le
        rw [h, List.length_cons] at hle
        omega
      simp [dropBullet, hu, hne]

theorem dropNumber_eq_self {text : Utf16} : dropNumber text = text ↔
    (text.head?.any (onUnit Char.isDigit) &&
      (text.dropWhile (onUnit Char.isDigit)).head?.any (onUnit isNumberMark)) = false := by
  unfold dropNumber
  split
  · next h => simp [h]
  · next mark rest h =>
    rw [h, List.head?_cons, Option.any_some]
    split
    · next hmatch =>
      have hne : rest.dropWhile Frontend.isBlankUnit ≠ text := fun heq => by
        have hrest := (List.dropWhile_sublist Frontend.isBlankUnit (l := rest)).length_le
        have htext := (List.dropWhile_sublist (onUnit Char.isDigit) (l := text)).length_le
        rw [h, List.length_cons] at htext
        rw [heq] at hrest
        omega
      simp [hmatch, hne]
    · next hmatch => simpa using hmatch

/-- Two steps that only take away leave a text alone when each of them does. -/
theorem comp_eq_self {f g : Utf16 → Utf16} (hf : ∀ text, (f text).Sublist text)
    (hg : ∀ text, (g text).Sublist text) {text : Utf16} :
    f (g text) = text ↔ g text = text ∧ f text = text := by
  constructor
  · intro h
    have hinner : g text = text := (hg text).antisymm (by
      have hsub := hf (g text)
      rwa [h] at hsub)
    rw [hinner] at h
    exact ⟨hinner, h⟩
  · rintro ⟨hinner, houter⟩
    rw [hinner, houter]

/-- Neither a bullet before the text nor a byte order mark around it. -/
def plain (text : String) : Bool :=
  !text.toList.head?.any isBullet && !text.toList.head?.any (· == '\ufeff') &&
    !text.toList.getLast?.any (· == '\ufeff')

def numbered (text : String) : Bool :=
  text.toList.head?.any Char.isDigit &&
    (text.toList.dropWhile Char.isDigit).head?.any isNumberMark

theorem any_isWhiteSpace_iff {c : Option Char} (h : c.any isSpace = false) :
    c.any Frontend.isWhiteSpace = false ↔ c.any (· == '\ufeff') = false := by
  cases c with
  | none => simp
  | some c =>
    rw [Option.any_some] at h
    simp only [Option.any_some, beq_eq_false_iff_ne]
    constructor
    · rintro hblank rfl
      revert hblank
      decide
    · intro hne
      by_contra hblank
      rcases Frontend.isSpace_or_bom (by simpa using hblank) with hspace | hbom
      · rw [h] at hspace
        cases hspace
      · exact hne hbom

/-- A text as it is persisted: not empty, stripped, on one line. -/
structure Tidy (text : String) : Prop where
  nonempty : text ≠ ""
  trimmed : strip text = text
  singleLine : '\n' ∉ text.toList

theorem trim_utf16 {text : String} (tidy : Tidy text) : Frontend.trim (utf16 text) = utf16 text ↔
    text.toList.head?.any (· == '\ufeff') = false ∧
      text.toList.getLast?.any (· == '\ufeff') = false := by
  obtain ⟨hfirst, hlast⟩ := trimBy_eq_self.mp tidy.trimmed
  rw [Frontend.trim, dropAround_eq_self, utf16,
    Frontend.reads_isBlankUnit.head? unitsOfChar_ne_nil,
    Frontend.reads_isBlankUnit.getLast? unitsOfChar_ne_nil, any_isWhiteSpace_iff hfirst,
    any_isWhiteSpace_iff hlast]

theorem cleanKeyword_eq {text : String} (tidy : Tidy text) :
    dropBullet (Frontend.trim (utf16 text)) = utf16 text ↔ plain text = true := by
  rw [comp_eq_self dropBullet_sublist Frontend.trim_sublist, trim_utf16 tidy, dropBullet_eq_self,
    utf16, reads_isBullet.head? unitsOfChar_ne_nil, plain]
  simp only [Bool.and_eq_true, Bool.not_eq_true']
  tauto

theorem cleanQuestion_eq {text : String} (tidy : Tidy text) :
    dropBullet (dropNumber (Frontend.trim (utf16 text))) = utf16 text ↔
      plain text = true ∧ numbered text = false := by
  have hnumber : dropNumber (utf16 text) = utf16 text ↔ numbered text = false := by
    rw [dropNumber_eq_self, utf16, Frontend.reads_isDigit.head? unitsOfChar_ne_nil,
      Frontend.reads_isDigit.dropWhile unitsOfChar_ne_nil,
      reads_isNumberMark.head? unitsOfChar_ne_nil, numbered]
  rw [@comp_eq_self dropBullet (fun text => dropNumber (Frontend.trim text)) dropBullet_sublist
    fun text => (dropNumber_sublist _).trans (Frontend.trim_sublist text),
    comp_eq_self dropNumber_sublist Frontend.trim_sublist, hnumber, ← cleanKeyword_eq tidy,
    comp_eq_self dropBullet_sublist Frontend.trim_sublist]
  tauto

theorem filterBoolean_eq {clean : Utf16 → Utf16} {texts : List String}
    (tidy : ∀ text ∈ texts, Tidy text) :
    filterBoolean ((texts.map utf16).map clean) = texts.map utf16 ↔
      ∀ text ∈ texts, clean (utf16 text) = utf16 text := by
  have kept : ∀ text ∈ texts.map utf16, !text.isEmpty := by
    rw [List.forall_mem_map]
    intro text htext
    have hne : utf16 text ≠ [] := fun h =>
      (tidy text htext).nonempty (utf16_injective (h.trans (by decide : [] = utf16 "")))
    simpa using hne
  rw [filterBoolean, Fields.filter_map_eq_self kept, List.forall_mem_map]

/-- Numbers are written with digits, signs, a point, an exponent or as an infinity. -/
def WritesNumbers (numberText : Utf16 → Utf16) : Prop :=
  ∀ literal, ∀ u ∈ numberText literal, u ∈ utf16 "0123456789+-.eInfity"

section Lists
variable {numberText : Utf16 → Utf16} {keywords : List String}

theorem countP_shown_le (p : UInt16 → Bool) (entries : List Utf16) :
    ((filterBoolean (entries.map Frontend.trim)).map (List.countP p)).sum ≤
      (entries.map (List.countP p)).sum := by
  induction entries with
  | nil => exact Nat.le_refl 0
  | cons entry entries ih =>
    have hentry := (Frontend.trim_sublist entry).countP_le (p := p)
    rw [filterBoolean] at ih
    rw [filterBoolean, List.map_cons, List.filter_cons]
    split
    · simp only [List.map_cons, List.sum_cons]
      omega
    · rw [List.map_cons, List.sum_cons]
      omega

/-- An array is never written by the keywords that the dialog reads off it: the brackets and
quotes of the row are not all in them. -/
theorem jsonEntries_ne (numbers : WritesNumbers numberText) {entries : List Utf16}
    (h : jsonEntries? numberText (utf16 (joinComma keywords)) = some entries) :
    filterBoolean (entries.map Frontend.trim) ≠ keywords.map utf16 := by
  have hplain (literal : Utf16) : (numberText literal).countP JsonText.isMark = 0 := by
    rw [List.countP_eq_zero]
    intro u hu
    have hunits : ∀ u ∈ utf16 "0123456789+-.eInfity", ¬ JsonText.isMark u = true :=
      List.all_iff_forall_prop.mp (by decide)
    exact hunits u (numbers literal u hu)
  unfold jsonEntries? at h
  split at h
  · next items hparse =>
    have hlt := JsonText.entries_countP_lt hplain hparse h
    intro hshown
    have hrow : (utf16 (joinComma keywords)).countP JsonText.isMark =
        ((keywords.map utf16).map (List.countP JsonText.isMark)).sum := by
      rw [joinComma, utf16_intercalate]
      exact Fields.countP_intercalate (by decide) _
    have hle := countP_shown_le JsonText.isMark entries
    rw [hshown, ← hrow] at hle
    omega
  · cases h

/-- The row falls apart into the keywords where no keyword has a comma. -/
theorem splitOnP_joinComma {keyword : String}
    (h : ∀ text ∈ keyword :: keywords, ∀ c ∈ text.toList, isKeywordBreak c = false) :
    (utf16 (joinComma (keyword :: keywords))).splitOnP (onUnit isKeywordBreak) =
      utf16 keyword :: (keywords.map utf16).map (utf16 " " ++ ·) := by
  rw [joinComma, utf16_intercalate, List.map_cons]
  refine Fields.splitOnP_intercalate (by decide) (List.all_iff_forall_prop.mp (by decide)) ?_
  rw [← List.map_cons, List.forall_mem_map]
  exact fun text htext => (reads_isKeywordBreak.mem_iff unitsOfChar_ne_nil).mpr (h text htext)

theorem shown_free {row : Utf16} {text : Utf16}
    (h : text ∈ filterBoolean ((row.splitOnP (onUnit isKeywordBreak)).map fun entry =>
      dropBullet (Frontend.trim entry))) : ∀ u ∈ text, onUnit isKeywordBreak u = false := by
  obtain ⟨entry, hentry, rfl⟩ := List.mem_map.mp (List.mem_of_mem_filter h)
  intro u hu
  have hsub := (dropBullet_sublist (Frontend.trim entry)).trans (Frontend.trim_sublist entry)
  exact Fields.mem_splitOnP hentry u (hsub.subset hu)

theorem trim_space (text : Utf16) : Frontend.trim (utf16 " " ++ text) = Frontend.trim text := by
  have hblank : Frontend.isBlankUnit 0x20 = true := by decide
  have hspace : utf16 " " ++ text = 0x20 :: text := rfl
  rw [hspace, Frontend.trim, Frontend.trim, dropAround, dropAround,
    List.dropWhile_cons_of_pos hblank]

/-- The keywords come back exactly when the row is not read as JSON, no keyword is split, and each
is shown as it is. -/
theorem parseKeywords_eq_iff (numbers : WritesNumbers numberText) (hne : keywords ≠ [])
    (tidy : ∀ keyword ∈ keywords, Tidy keyword) :
    parseKeywords numberText (utf16 (joinComma keywords)) = keywords.map utf16 ↔
      jsonEntries? numberText (utf16 (joinComma keywords)) = none ∧
        ∀ keyword ∈ keywords, ',' ∉ keyword.toList ∧ plain keyword = true := by
  unfold parseKeywords
  cases hjson : jsonEntries? numberText (utf16 (joinComma keywords)) with
  | some entries => simp [jsonEntries_ne numbers hjson]
  | none =>
    simp only [true_and]
    by_cases hbreak : ∀ keyword ∈ keywords, ∀ c ∈ keyword.toList, isKeywordBreak c = false
    · obtain ⟨keyword, rest, rfl⟩ := List.exists_cons_of_ne_nil hne
      have hclean : (utf16 keyword :: (rest.map utf16).map (utf16 " " ++ ·)).map
          (fun entry => dropBullet (Frontend.trim entry)) =
            ((keyword :: rest).map utf16).map fun entry => dropBullet (Frontend.trim entry) := by
        simp only [List.map_cons, List.map_map, Function.comp_def, trim_space]
      rw [splitOnP_joinComma hbreak, hclean, filterBoolean_eq tidy]
      refine forall₂_congr fun text htext => ?_
      have hcomma : ',' ∉ text.toList := fun hc => by
        have hc := hbreak text htext ',' hc
        revert hc
        decide
      rw [cleanKeyword_eq (tidy text htext), and_iff_right hcomma]
    · -- a separator inside a keyword does not come back at all
      refine iff_of_false (fun h => hbreak fun keyword hkeyword => ?_)
        fun h => hbreak fun keyword hkeyword c hc => ?_
      · have hshown : utf16 keyword ∈ keywords.map utf16 := List.mem_map_of_mem hkeyword
        rw [← h] at hshown
        exact (reads_isKeywordBreak.mem_iff unitsOfChar_ne_nil).mp (shown_free hshown)
      · have hcomma : c ≠ ',' := fun heq => (h keyword hkeyword).1 (heq ▸ hc)
        have hline : c ≠ '\n' := fun heq => (tidy keyword hkeyword).singleLine (heq ▸ hc)
        simp [isKeywordBreak, hcomma, hline]

theorem splitOnP_question {question : String} (tidy : Tidy question) :
    (utf16 question).splitOnP (onUnit (· == '\n')) = [utf16 question] := by
  refine List.splitOnP_eq_singleton ?_
  rw [utf16, reads_isNewline.mem_iff unitsOfChar_ne_nil]
  intro c hc
  have hne : c ≠ '\n' := fun heq => tidy.singleLine (heq ▸ hc)
  simpa using hne

/-- A question on one line comes back exactly when nothing before it reads as a prefix. -/
theorem parseQuestions_eq_iff {question : String} (tidy : Tidy question) :
    parseQuestions (utf16 question) = [utf16 question] ↔
      plain question = true ∧ numbered question = false := by
  have hclean := @filterBoolean_eq (fun line => dropBullet (dropNumber (Frontend.trim line)))
    [question] (by simpa using tidy)
  rw [parseQuestions, splitOnP_question tidy, ← cleanQuestion_eq tidy]
  simpa using hclean

theorem parseQuestions_length_le {question : String} (tidy : Tidy question) :
    (parseQuestions (utf16 question)).length ≤ 1 := by
  rw [parseQuestions, splitOnP_question tidy]
  exact List.length_filter_le _ _

end Lists

end DocumentDetail

end Docsage
