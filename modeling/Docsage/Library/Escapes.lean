import Mathlib.Data.List.Basic
import Mathlib.Tactic.Common

/-! # Escaped separators

A separator inside a text is written behind an escape, and the escape itself is not
escaped. A text is split at the separators with no escape right before them, so a field
that may end in an escape is padded: behind the padding its separator is bare again.
-/

namespace Escapes

variable {α : Type} [DecidableEq α] (esc mark : α)

def escape (text : List α) : List α := text.flatMap fun a => if a = mark then [esc, mark] else [a]

/-- Escape and separator are the separator again, from left to right. -/
def unescape : List α → List α
  | [] => []
  | [a] => [a]
  | a :: b :: text =>
    if a = esc ∧ b = mark then mark :: unescape text else a :: unescape (b :: text)

/-- Split at the bare separators. The flag says that an escape stands right before the text. -/
def splitBare (escaped : Bool) : List α → List (List α)
  | [] => [[]]
  | a :: text =>
    if a = mark ∧ escaped = false then [] :: splitBare (a = esc) text
    else (splitBare (a = esc) text).modifyHead (a :: ·)

variable {esc mark}

theorem escape_cons (a : α) (text : List α) :
    escape esc mark (a :: text) = (if a = mark then [esc, mark] else [a]) ++ escape esc mark text :=
  List.flatMap_cons

theorem unescape_cons {a : α} (text : List α) (h : a ≠ esc ∨ text.head? ≠ some mark) :
    unescape esc mark (a :: text) = a :: unescape esc mark text := by
  cases text with
  | nil => rfl
  | cons b text =>
    rw [unescape, if_neg]
    rintro ⟨ha, hb⟩
    rcases h with h | h
    · exact h ha
    · exact h (congrArg some hb)

theorem head?_escape (distinct : esc ≠ mark) (text : List α) :
    (escape esc mark text).head? ≠ some mark := by
  cases text with
  | nil => exact nofun
  | cons a text =>
    rw [escape_cons]
    split
    · exact fun h => distinct (Option.some.inj h)
    · next ha => exact fun h => ha (Option.some.inj h)

theorem unescape_escape (distinct : esc ≠ mark) (text : List α) :
    unescape esc mark (escape esc mark text) = text := by
  induction text with
  | nil => rfl
  | cons a text ih =>
    rw [escape_cons]
    split
    · next ha =>
      rw [List.cons_append, List.singleton_append, unescape, if_pos ⟨rfl, rfl⟩, ih, ha]
    · rw [List.singleton_append, unescape_cons _ (.inr (head?_escape distinct text)), ih]

/-- A padded field ends at the separator behind its padding, whatever it ends in itself. -/
theorem splitBare_escape {pad : α} (distinct : esc ≠ mark) (padMark : pad ≠ mark)
    (padEsc : pad ≠ esc) (escaped : Bool) (text rest : List α) :
    splitBare esc mark escaped (escape esc mark text ++ pad :: mark :: rest) =
      (escape esc mark text ++ [pad]) :: splitBare esc mark false rest := by
  have hbare (text : List α) : splitBare esc mark false (mark :: text) =
      [] :: splitBare esc mark false text := by
    rw [splitBare, if_pos ⟨rfl, rfl⟩, decide_eq_false distinct.symm]
  induction text generalizing escaped with
  | nil =>
    change splitBare esc mark escaped (pad :: mark :: rest) = [pad] :: _
    rw [splitBare, if_neg fun h => padMark h.1, decide_eq_false padEsc, hbare, List.modifyHead_cons]
  | cons a text ih =>
    rw [escape_cons]
    split
    · have hmark (text : List α) : splitBare esc mark true (mark :: text) =
          (splitBare esc mark (mark = esc) text).modifyHead (mark :: ·) :=
        if_neg fun h => nomatch h.2
      rw [List.append_assoc, List.cons_append, List.singleton_append, splitBare,
        if_neg fun h => distinct h.1, decide_eq_true rfl, hmark, ih]
      rfl
    · next ha =>
      rw [List.append_assoc, List.singleton_append, splitBare, if_neg fun h => ha h.1, ih,
        List.modifyHead_cons]
      rfl

end Escapes
