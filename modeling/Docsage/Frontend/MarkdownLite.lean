import Docsage.Frontend.Strings
import Docsage.Library.Patterns

/-! # The Markdown of an answer

`MarkdownLite` splits a text into paragraphs and those at the tokens for bold text,
code and citations. Every node knows where its text stands in the content, so that
the citations can be told apart. They are exactly the citation tokens of the whole
content, since no token reaches over a line break.
-/

namespace Docsage
open Text

namespace MarkdownLite
open Patterns

def newline : UInt16 := 0x0A

/-- `\*\*[^*\n]+\*\*`. -/
def boldToken : Pattern UInt16 :=
  enclosed (utf16 "**") (utf16 "**") (fun u => u != 0x2A && u != newline) (0 < ·)

/-- ``` `[^`\n]+` ```. -/
def codeToken : Pattern UInt16 :=
  enclosed (utf16 "`") (utf16 "`") (fun u => u != 0x60 && u != newline) (0 < ·)

/-- `\[\d{1,2}\]`. -/
def citationToken : Pattern UInt16 :=
  enclosed (utf16 "[") (utf16 "]") (onUnit Char.isDigit) fun n => 1 ≤ n && n ≤ 2

def inlineToken : Pattern UInt16 := fun text =>
  boldToken text <|> codeToken text <|> citationToken text

/-- A rendered part of a paragraph, and for a citation the position of its token. -/
inductive Node where
  | strong (text : Utf16)
  | code (text : Utf16)
  | citation (start : ℕ) (digits : Utf16)
  | text (text : Utf16)

/-- `/^\[(\d{1,2})\]$/.exec(part)`. -/
def citationDigits? (part : Utf16) : Option Utf16 :=
  if citationToken part = some part then some (part.drop 1).dropLast else none

/-- `part.startsWith(fence) && part.endsWith(fence) && part.length > n`. -/
def isFenced (fence part : Utf16) (n : ℕ) : Bool :=
  fence.isPrefixOf part && fence.isSuffixOf part && n < part.length

def renderPart (start : ℕ) (part : Utf16) : Node :=
  if isFenced (utf16 "**") part 4 then .strong (part.drop 2).dropLast.dropLast
  else if isFenced (utf16 "`") part 2 then .code (part.drop 1).dropLast
  else
    match citationDigits? part with
    | some digits => .citation start digits
    | none => .text part

/-- `renderInline`, on a paragraph at a position of the content. -/
def renderInline (start : ℕ) (text : Utf16) : List Node :=
  ((split inlineToken 0 start [] text).filter fun part => !part.2.isEmpty).map fun part =>
    renderPart part.1 part.2

/-- `MarkdownLite`: the nodes of every paragraph that is not blank. -/
def render (content : Utf16) : List (List Node) :=
  ((blocks newline false 0 [] content).filter fun block => !(Frontend.trim block.2).isEmpty).map
    fun block => renderInline block.1 block.2

def Node.citation? : Node → Option (ℕ × Utf16)
  | .citation start digits => some (start, digits)
  | _ => none

/-- The citations that are rendered, in reading order: position and digits. -/
def references (content : Utf16) : List (ℕ × Utf16) :=
  (render content).flatten.filterMap Node.citation?

def number (digits : Utf16) : ℕ := digits.foldl (fun n u => n * 10 + (u.toNat - 0x30)) 0

theorem boldToken_confined : Confined boldToken newline :=
  enclosed_confined (by decide) (by decide) (by decide) (by decide)

theorem codeToken_confined : Confined codeToken newline :=
  enclosed_confined (by decide) (by decide) (by decide) (by decide)

theorem citationToken_confined : Confined citationToken newline :=
  enclosed_confined (by decide) (by decide) (by decide) (by decide)

theorem inlineToken_confined : Confined inlineToken newline :=
  boldToken_confined.orElse (codeToken_confined.orElse citationToken_confined)

theorem citationDigits?_of_inlineToken_eq_none {token : Utf16} (rest : Utf16)
    (h : inlineToken (token ++ rest) = none) : citationDigits? token = none := by
  refine if_neg fun htoken => ?_
  obtain ⟨digits, rfl, hdigits, hfits⟩ := enclosed_eq_some htoken
  have hwhole : citationToken (utf16 "[" ++ digits ++ utf16 "]" ++ rest) =
      some (utf16 "[" ++ digits ++ utf16 "]") :=
    enclosed_run hdigits hfits (by decide) _ _ _
  simp only [inlineToken, hwhole, Option.orElse_eq_orElse, Option.orElse_eq_or,
    Option.or_eq_none_iff, reduceCtorEq, and_false] at h

theorem citationDigits?_of_isFenced {fence part : Utf16} {n : ℕ} {u : UInt16} {more : Utf16}
    (hfence : fence = u :: more) (hne : u ≠ 0x5B) (h : isFenced fence part n = true) :
    citationDigits? part = none := by
  rw [isFenced, Bool.and_eq_true, Bool.and_eq_true, hfence, List.isPrefixOf_iff_prefix] at h
  obtain ⟨⟨⟨rest, rfl⟩, -⟩, -⟩ := h
  have hnone : citationToken (u :: (more ++ rest)) = none := enclosed_cons_of_ne hne _ _
  exact if_neg (by simp [hnone])

theorem renderPart_citation? (start : ℕ) (part : Utf16) :
    (renderPart start part).citation? = (citationDigits? part).map (start, ·) := by
  unfold renderPart
  split
  · next h => rw [citationDigits?_of_isFenced rfl (by decide) h]; rfl
  · split
    · next h => rw [citationDigits?_of_isFenced rfl (by decide) h]; rfl
    · cases citationDigits? part <;> rfl

def citationsIn (matched : List (ℕ × Utf16)) : List (ℕ × Utf16) :=
  matched.filterMap fun m => (citationDigits? m.2).map (m.1, ·)

theorem renderInline_citations (start : ℕ) (text : Utf16) :
    (renderInline start text).filterMap Node.citation? =
      citationsIn (found inlineToken 0 start text) := by
  rw [citationsIn,
    ← split_filterMap rfl (fun _ rest => citationDigits?_of_inlineToken_eq_none rest) []
      (.inl rfl), renderInline, List.filterMap_map, List.filterMap_filter]
  refine List.filterMap_congr fun part _ => ?_
  cases hpart : part.2 with
  | nil => simp [citationDigits?, citationToken, enclosed]
  | cons u rest => simp [renderPart_citation?, hpart]

theorem inlineToken_eq_none {u : UInt16} (hbold : u ≠ 0x2A) (hcode : u ≠ 0x60)
    (hcitation : u ≠ 0x5B) (rest : Utf16) : inlineToken (u :: rest) = none := by
  have hbold' : boldToken (u :: rest) = none := enclosed_cons_of_ne hbold _ _
  have hcode' : codeToken (u :: rest) = none := enclosed_cons_of_ne hcode _ _
  have hcitation' : citationToken (u :: rest) = none := enclosed_cons_of_ne hcitation _ _
  simp [inlineToken, hbold', hcode', hcitation']

theorem found_eq_nil {text : Utf16} (h : ∀ u ∈ text, u ≠ 0x2A ∧ u ≠ 0x60 ∧ u ≠ 0x5B) (start : ℕ) :
    found inlineToken 0 start text = [] := by
  have hfound := found_append_free (fun u hu rest =>
    inlineToken_eq_none (h u hu).1 (h u hu).2.1 (h u hu).2.2 rest) start []
  rw [List.append_nil] at hfound
  rw [hfound, found]

theorem found_blank {text : Utf16} (h : Frontend.trim text = []) (start : ℕ) :
    found inlineToken 0 start text = [] := by
  refine found_eq_nil (fun u hu => ?_) start
  have hblank : Frontend.isBlankUnit u = true := List.all_eq_true.mp (dropAround_eq_nil.mp h) u hu
  refine ⟨?_, ?_, ?_⟩ <;>
  · rintro rfl
    revert hblank
    decide

/-- The rendered citations are the citation tokens of the content. -/
theorem references_eq (content : Utf16) :
    references content = citationsIn (found inlineToken 0 0 content) := by
  have hblocks := inlineToken_confined.blocks_found false 0 [] content (Nat.le_refl 0)
  rw [if_neg (by simp), List.nil_append, List.length_nil, Nat.sub_zero] at hblocks
  rw [← hblocks, references, render]
  generalize blocks newline false 0 [] content = paragraphs
  induction paragraphs with
  | nil => rfl
  | cons paragraph paragraphs ih =>
    rw [citationsIn] at ih ⊢
    rw [List.flatMap_cons, List.filterMap_append, ← ih, List.filter_cons]
    split
    · rw [List.map_cons, List.flatten_cons, List.filterMap_append, renderInline_citations,
        citationsIn]
    · next h => rw [found_blank (by simpa using h), List.filterMap_nil, List.nil_append]

end MarkdownLite

end Docsage
