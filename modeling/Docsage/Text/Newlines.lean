import Docsage.Library.Fields
import Docsage.Text.Whitespace
import Mathlib.Data.List.Forall2

/-! # Line ends in Python

A file read in text mode has every line end as a newline. `str.splitlines` cuts at more
characters than these, and takes "\r\n" for one boundary.
-/

namespace Docsage.Text

/-- "\r\n" as one line end. -/
def joinReturns : List Char → List Char
  | [] => []
  | [c] => [c]
  | c :: d :: rest =>
    if c = '\r' ∧ d = '\n' then '\n' :: joinReturns rest else c :: joinReturns (d :: rest)

def universalNewlines (text : List Char) : List Char :=
  (joinReturns text).map fun c => if c = '\r' then '\n' else c

def isLineBoundary (c : Char) : Bool :=
  let n := c.toNat
  (0x0A ≤ n && n ≤ 0x0D) || (0x1C ≤ n && n ≤ 0x1E) || n == 0x85 || n == 0x2028 || n == 0x2029

/-- `str.splitlines()`. No line follows a boundary at the end. -/
def splitlines (text : List Char) : List (List Char) :=
  let lines := (joinReturns text).splitOnP isLineBoundary
  if lines.getLast? = some [] then lines.dropLast else lines

variable {text before rest line : List Char}

theorem joinReturns_of_notMem (h : '\r' ∉ text) : joinReturns text = text := by
  fun_induction joinReturns text with
  | case1 => rfl
  | case2 => rfl
  | case3 c d rest hreturn ih => exact absurd (hreturn.1 ▸ List.mem_cons_self) h
  | case4 c d rest hreturn ih => rw [ih fun hmem => h (List.mem_cons_of_mem c hmem)]

theorem joinReturns_append (h : '\r' ∉ before) :
    joinReturns (before ++ '\r' :: '\n' :: rest) = before ++ '\n' :: joinReturns rest := by
  induction before with
  | nil => simp [joinReturns]
  | cons c before ih =>
    obtain ⟨hc, hbefore⟩ := not_or.mp (List.mem_cons.not.mp h)
    obtain ⟨d, tail, htail⟩ : ∃ d tail, before ++ '\r' :: '\n' :: rest = d :: tail :=
      List.exists_cons_of_ne_nil (by simp)
    rw [List.cons_append, List.cons_append, ← ih hbefore, htail, joinReturns,
      if_neg fun hreturn => hc hreturn.1.symm]

theorem splitlines_universalNewlines (text : List Char) :
    splitlines (universalNewlines text) = splitlines text := by
  have hreturn : '\r' ∉ universalNewlines text := by
    intro hmem
    obtain ⟨c, -, hc⟩ := List.mem_map.mp hmem
    split at hc
    · cases hc
    · contradiction
  have hlines : (universalNewlines text).splitOnP isLineBoundary =
      (joinReturns text).splitOnP isLineBoundary := by
    refine Fields.splitOnP_map (fun c => ?_) (fun c hc => ?_) _
    · split
      · next hreturn => rw [hreturn]; rfl
      · rfl
    · rw [if_neg]
      rintro rfl
      cases hc
  rw [splitlines, joinReturns_of_notMem hreturn, hlines, splitlines]

theorem mem_splitlines (h : line ∈ splitlines text) : ∀ c ∈ line, isLineBoundary c = false := by
  have hpiece : line ∈ (joinReturns text).splitOnP isLineBoundary := by
    rw [splitlines] at h
    split at h
    · exact List.dropLast_subset _ h
    · exact h
  exact Fields.mem_splitOnP hpiece

theorem boundary_eq_newline {c : Char} (h : isLineBoundary c = true → c = '\n') :
    isLineBoundary c = (c == '\n') := by
  by_cases hc : c = '\n'
  · rw [hc]
    rfl
  · rw [beq_false_of_ne hc]
    exact Bool.eq_false_iff.mpr fun htrue => hc (h htrue)

/-- The lines of a text are the pieces between its boundaries, but for an empty last one. -/
theorem splitlines_of_pieces {lines : List (List Char)} {last : List Char}
    (h : (joinReturns text).splitOnP isLineBoundary = lines ++ [last]) :
    splitlines text = if last = [] then lines else lines ++ [last] := by
  rw [splitlines, h, List.getLast?_concat, List.dropLast_concat]
  simp only [Option.some.injEq]

theorem splitlines_of_boundary {c : Char} (h : joinReturns text = before ++ [c])
    (boundary : isLineBoundary c = true) : splitlines text = before.splitOnP isLineBoundary := by
  refine (splitlines_of_pieces ?_).trans (if_pos rfl)
  rw [h, List.splitOnP_append_cons _ _ boundary]
  rfl

theorem splitlines_of_open {c : Char} (h : joinReturns text = before ++ [c])
    (boundary : isLineBoundary c = false) :
    splitlines text = (joinReturns text).splitOnP isLineBoundary := by
  obtain ⟨lines, last, -, hlines⟩ := Fields.splitOnP_concat boundary before
  rw [← h] at hlines
  rw [splitlines_of_pieces hlines, if_neg (by simp), hlines]

/-- One line for every boundary before the last character, and one more. -/
theorem length_splitlines {c : Char} (h : joinReturns text = before ++ [c]) :
    (splitlines text).length = before.countP isLineBoundary + 1 := by
  cases hc : isLineBoundary c with
  | true => rw [splitlines_of_boundary h hc, Fields.length_splitOnP]
  | false =>
    rw [splitlines_of_open h hc, Fields.length_splitOnP, h, List.countP_append]
    simp [hc]

theorem joinReturns_eq_nil : joinReturns text = [] ↔ text = [] := by
  fun_cases joinReturns text <;> simp

theorem count_joinReturns {c : Char} (newline : c ≠ '\n') (carriage : c ≠ '\r') :
    (joinReturns text).count c = text.count c := by
  fun_induction joinReturns text with
  | case1 => rfl
  | case2 => rfl
  | case3 d e rest hreturn ih =>
    rw [hreturn.1, hreturn.2, List.count_cons_of_ne newline.symm, ih,
      List.count_cons_of_ne carriage.symm, List.count_cons_of_ne newline.symm]
  | case4 d e rest hreturn ih => rw [List.count_cons, ih, ← List.count_cons]

/-- A line at "\r\n" ends in a carriage return if it is cut at its newline. -/
theorem splitOnP_joinReturns (text : List Char) :
    List.Forall₂ (fun line joined => line = joined ∨ line = joined ++ ['\r'])
      (text.splitOnP (· == '\n')) ((joinReturns text).splitOnP (· == '\n')) := by
  fun_induction joinReturns text with
  | case1 => exact .cons (.inl rfl) .nil
  | case2 c => exact List.forall₂_same.mpr fun _ _ => .inl rfl
  | case3 c d rest hreturn ih =>
    obtain ⟨rfl, rfl⟩ := hreturn
    exact .cons (.inr rfl) ih
  | case4 c d rest hreturn ih =>
    generalize d :: rest = rest at ih ⊢
    generalize joinReturns rest = joined at ih ⊢
    rw [List.splitOnP_cons_eq_if_modifyHead, List.splitOnP_cons_eq_if_modifyHead]
    split
    · exact .cons (.inl rfl) ih
    · revert ih
      generalize rest.splitOnP (· == '\n') = lines
      generalize joined.splitOnP (· == '\n') = joinedLines
      intro ih
      cases ih with
      | nil => exact .nil
      | cons hfirst hrest =>
        refine .cons (hfirst.imp (fun h => ?_) fun h => ?_) hrest
        · rw [h]
        · rw [h]
          rfl

theorem flatten_splitlines (text : List Char) :
    (splitlines text).flatten = (joinReturns text).filter fun c => !isLineBoundary c := by
  obtain ⟨lines, last, hlines⟩ := (List.eq_nil_or_concat
    ((joinReturns text).splitOnP isLineBoundary)).resolve_left (List.splitOnP_ne_nil _ _)
  rw [List.concat_eq_append] at hlines
  rw [← Fields.flatten_splitOnP, splitlines_of_pieces hlines, hlines]
  split
  · next hlast => simp [hlast]
  · rfl

theorem count_splitlines {c : Char} (h : isLineBoundary c = false) :
    (splitlines text).flatten.count c = text.count c := by
  have hnewline : c ≠ '\n' := by
    rintro rfl
    cases h
  have hreturn : c ≠ '\r' := by
    rintro rfl
    cases h
  rw [flatten_splitlines, List.count_filter (by simp [h]), count_joinReturns hnewline hreturn]

end Docsage.Text
