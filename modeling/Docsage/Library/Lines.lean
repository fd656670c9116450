import Mathlib.Data.List.Basic
import Mathlib.Tactic.Common

/-! # Line buffers

A reader that is fed text piece by piece keeps the unfinished line and hands every
finished one to a handler, until the handler says stop. Cutting the text elsewhere
changes nothing.
-/

namespace Lines

variable {α σ : Type} [DecidableEq α]

/-- The first line of a buffer and what follows its newline. -/
def splitLine (newline : α) (buffer : List α) : Option (List α × List α) :=
  (buffer.findIdx? (· == newline)).map fun i => (buffer.take i, buffer.drop (i + 1))

variable {newline : α} {line rest buffer : List α}

theorem splitLine_line (h : newline ∉ line) :
    splitLine newline (line ++ newline :: rest) = some (line, rest) := by
  have hfind : (line ++ newline :: rest).findIdx? (· == newline) = some line.length := by
    induction line with
    | nil => simp [List.findIdx?_cons]
    | cons a line ih =>
      obtain ⟨ha, hline⟩ := List.ne_and_not_mem_of_not_mem_cons h
      simp [List.findIdx?_cons, Ne.symm ha, ih hline]
  rw [splitLine, hfind]
  simp

theorem splitLine_eq_none : splitLine newline buffer = none ↔ newline ∉ buffer := by
  simp only [splitLine, Option.map_eq_none_iff, List.findIdx?_eq_none_iff, beq_eq_false_iff_ne]
  exact ⟨fun h hmem => h newline hmem rfl, fun h a ha heq => h (heq ▸ ha)⟩

theorem splitLine_eq_some (h : splitLine newline buffer = some (line, rest)) :
    newline ∉ line ∧ buffer = line ++ newline :: rest := by
  have hmem : newline ∈ buffer := by
    by_contra hnot
    rw [splitLine_eq_none.mpr hnot] at h
    cases h
  obtain ⟨line', rest', rfl, hline⟩ := List.eq_append_cons_of_mem hmem
  rw [splitLine_line hline] at h
  obtain ⟨rfl, rfl⟩ := Prod.mk.inj (Option.some.inj h)
  exact ⟨hline, rfl⟩

theorem splitLine_length (h : splitLine newline buffer = some (line, rest)) :
    rest.length < buffer.length := by
  rw [(splitLine_eq_some h).2]
  simp only [List.length_append, List.length_cons]
  omega

/-- Hand over the finished lines, as long as the handler goes on. -/
def drain (newline : α) (handle : σ → List α → σ) (reading : σ → Bool) (s : σ)
    (buffer : List α) : List α × σ :=
  match _h : splitLine newline buffer with
  | none => (buffer, s)
  | some (line, rest) =>
    if reading (handle s line) then drain newline handle reading (handle s line) rest
    else (rest, handle s line)
termination_by buffer.length
decreasing_by exact splitLine_length _h

variable {handle : σ → List α → σ} {reading : σ → Bool} {s : σ}

theorem drain_open (h : newline ∉ buffer) :
    drain newline handle reading s buffer = (buffer, s) := by
  have hsplit := splitLine_eq_none.mpr h
  rw [drain]
  split
  · rfl
  · next hsome => rw [hsplit] at hsome; cases hsome

theorem drain_line (h : newline ∉ line) :
    drain newline handle reading s (line ++ newline :: rest) =
      if reading (handle s line) then drain newline handle reading (handle s line) rest
      else (rest, handle s line) := by
  have hsplit : splitLine newline (line ++ newline :: rest) = some (line, rest) :=
    splitLine_line h
  rw [drain]
  split
  · next hnone => rw [hsplit] at hnone; cases hnone
  · next hsome =>
    rw [hsplit] at hsome
    obtain ⟨rfl, rfl⟩ := Prod.mk.inj (Option.some.inj hsome)
    rfl

/-- What is handed over does not depend on where the text is cut. -/
theorem drain_append (xs ys : List α) (open_ : reading s = true) :
    drain newline handle reading s (xs ++ ys) =
      if reading (drain newline handle reading s xs).2 then
        drain newline handle reading (drain newline handle reading s xs).2
          ((drain newline handle reading s xs).1 ++ ys)
      else
        ((drain newline handle reading s xs).1 ++ ys,
          (drain newline handle reading s xs).2) := by
  -- on the length of the first piece: its first line is the first line of the whole
  induction hn : xs.length using Nat.strongRecOn generalizing s xs with
  | _ n ih =>
    by_cases hmem : newline ∈ xs
    · obtain ⟨line, rest, rfl, hline⟩ := List.eq_append_cons_of_mem hmem
      rw [List.append_assoc, List.cons_append, drain_line hline, drain_line hline]
      by_cases hreading : reading (handle s line) = true
      · rw [if_pos hreading, if_pos hreading]
        refine ih rest.length ?_ rest hreading rfl
        rw [← hn, List.length_append, List.length_cons]
        omega
      · rw [if_neg hreading, if_neg hreading, if_neg hreading]
    · rw [drain_open hmem, if_pos open_]

end Lines
