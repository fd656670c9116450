import Mathlib.Data.List.Basic
import Mathlib.Data.List.Infix
import Mathlib.Tactic.Common

/-! # Universal line ends

A reader for which `\n`, `\r` and `\r\n` all end a line hands over a line that `\r`
ends only when it knows what comes next. Cutting the text elsewhere changes
nothing, and lines that were written with one kind of end are read back.
-/

namespace LineEnds

/-- The current line, and whether a `\r` has ended it. -/
structure Reader where
  line : List Char := []
  returned : Bool := false

def extend (line : List Char) (c : Char) : List (List Char) × Reader :=
  if c = '\n' then ([line], {})
  else if c = '\r' then ([], ⟨line, true⟩)
  else ([], ⟨line ++ [c], false⟩)

namespace Reader

def push (r : Reader) (c : Char) : List (List Char) × Reader :=
  if r.returned then
    if c = '\n' then ([r.line], {}) else (r.line :: (extend [] c).1, (extend [] c).2)
  else extend r.line c

def feed (r : Reader) : List Char → List (List Char) × Reader
  | [] => ([], r)
  | c :: cs => ((r.push c).1 ++ ((r.push c).2.feed cs).1, ((r.push c).2.feed cs).2)

/-- The last line, at the end of the text. An empty one is none. -/
def finish (r : Reader) : List (List Char) :=
  if r.returned || !r.line.isEmpty then [r.line] else []

end Reader

inductive LineEnd where
  | lf
  | cr
  | crlf

def LineEnd.chars : LineEnd → List Char
  | .lf => ['\n']
  | .cr => ['\r']
  | .crlf => ['\r', '\n']

def Plain (line : List Char) : Prop := '\n' ∉ line ∧ '\r' ∉ line

variable {r : Reader} {e : LineEnd} {line : List Char}

theorem feed_append (r : Reader) (xs ys : List Char) :
    r.feed (xs ++ ys) =
      ((r.feed xs).1 ++ ((r.feed xs).2.feed ys).1, ((r.feed xs).2.feed ys).2) := by
  induction xs generalizing r with
  | nil => rfl
  | cons x xs ih => simp only [List.cons_append, Reader.feed, ih, List.append_assoc]

theorem feed_plain (before : List Char) (plain : Plain line) :
    Reader.feed ⟨before, false⟩ line = ([], ⟨before ++ line, false⟩) := by
  induction line generalizing before with
  | nil => simp [Reader.feed]
  | cons c line ih =>
    obtain ⟨hnewline, hreturn⟩ := plain
    rw [List.mem_cons, not_or] at hnewline hreturn
    have hpush : Reader.push ⟨before, false⟩ c = ([], ⟨before ++ [c], false⟩) := by
      simp [Reader.push, extend, Ne.symm hnewline.1, Ne.symm hreturn.1]
    rw [Reader.feed, hpush, ih _ ⟨hnewline.2, hreturn.2⟩]
    simp

/-- Behind a `\r` that was held back the first character settles that its line has ended. -/
theorem feed_returned {c : Char} (returned : r.returned = true) (plain : Plain (c :: line)) :
    r.feed (c :: line) = ([r.line], ⟨c :: line, false⟩) := by
  obtain ⟨hnewline, hreturn⟩ := plain
  rw [List.mem_cons, not_or] at hnewline hreturn
  have hpush : r.push c = ([r.line], ⟨[c], false⟩) := by
    simp [Reader.push, extend, returned, Ne.symm hnewline.1, Ne.symm hreturn.1]
  rw [Reader.feed, hpush, feed_plain [c] ⟨hnewline.2, hreturn.2⟩]
  rfl

/-- Where a line begins: nothing is read of it, and only a `\r` is still held back. -/
def AtStart (e : LineEnd) (r : Reader) : Prop :=
  r = {} ∨ e = .cr ∧ r.returned = true

/-- A line and its end, from where it begins to where the next one does. -/
theorem feed_line (start : AtStart e r) (plain : Plain line) :
    (r.feed (line ++ e.chars)).1 ++ (r.feed (line ++ e.chars)).2.finish = r.finish ++ [line] ∧
      AtStart e (r.feed (line ++ e.chars)).2 := by
  rcases start with rfl | ⟨rfl, hreturned⟩
  · rw [feed_append, feed_plain [] plain, List.nil_append]
    cases e with
    | lf => exact ⟨rfl, .inl rfl⟩
    | cr => exact ⟨rfl, .inr ⟨rfl, rfl⟩⟩
    | crlf => exact ⟨rfl, .inl rfl⟩
  · have hfinish : r.finish = [r.line] := by simp [Reader.finish, hreturned]
    rw [hfinish]
    cases line with
    | nil =>
      simp [Reader.feed, Reader.push, extend, hreturned, LineEnd.chars, Reader.finish, AtStart]
    | cons c line =>
      rw [feed_append, feed_returned hreturned plain]
      exact ⟨rfl, .inr ⟨rfl, rfl⟩⟩

/-- What has to arrive behind a line before it is handed over: a lone `\r` and what follows it. -/
def LineEnd.needs : LineEnd → ℕ
  | .lf => 1
  | .cr | .crlf => 2

/-- How many of the lines are whole among the first `n` characters. -/
def LineEnd.whole (e : LineEnd) : List (List Char) → ℕ → ℕ
  | [], _ => 0
  | line :: lines, n =>
    if line.length + e.needs ≤ n then e.whole lines (n - (line.length + e.chars.length)) + 1 else 0

end LineEnds
