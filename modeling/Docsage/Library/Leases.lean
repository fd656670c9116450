import Docsage.Library.Table
import Mathlib.Logic.Function.Basic
import Mathlib.Order.Lattice

/-! # Leases

A register says who was granted which key and until when, and forgets a key only
when it is handed back. A table that drops ended leases whenever it likes answers
at any time as the register does.
-/

namespace Leases
open Relational

/-- The last grant of each key that was not revoked: its owner, and when it ends. -/
abbrev Register (κ ω T : Type) := κ → Option (ω × T)

inductive Event (κ ω T : Type) where
  | grant (key : κ) (owner : ω) (stop : T)
  | revoke (key : κ)

variable {ρ κ ω T : Type}

def Register.record [DecidableEq κ] (r : Register κ ω T) : Event κ ω T → Register κ ω T
  | .grant key owner stop => Function.update r key (some (owner, stop))
  | .revoke key => Function.update r key none

def Register.holder [LT T] [DecidableLT T] (r : Register κ ω T) (now : T) (key : κ) : Option ω :=
  (r key).bind fun lease => if now < lease.2 then some lease.1 else none

structure Columns (ρ κ ω T : Type) where
  key : ρ → κ
  owner : ρ → ω
  stop : ρ → T

/-- The rows are leases of the register, and all those that have not ended. -/
structure Keeps [LT T] (c : Columns ρ κ ω T) (rows : List ρ) (r : Register κ ω T) (now : T) :
    Prop where
  unique : (rows.map c.key).Nodup
  backed : ∀ row ∈ rows, r (c.key row) = some (c.owner row, c.stop row)
  live : ∀ key owner stop, r key = some (owner, stop) → now < stop →
    ∃ row ∈ rows, c.key row = key ∧ c.owner row = owner ∧ c.stop row = stop

variable [LinearOrder T] {c : Columns ρ κ ω T} {rows : List ρ} {r : Register κ ω T} {now now' : T}

theorem Keeps.nil (c : Columns ρ κ ω T) (now : T) :
    Keeps c [] (fun _ => none : Register κ ω T) now where
  unique := List.nodup_nil
  backed row hrow := absurd hrow List.not_mem_nil
  live _ _ _ h := by cases h

theorem Keeps.later (keeps : Keeps c rows r now) (le : now ≤ now') : Keeps c rows r now' where
  unique := keeps.unique
  backed := keeps.backed
  live key owner stop h hlive := keeps.live key owner stop h (lt_of_le_of_lt le hlive)

theorem Keeps.filter (keeps : Keeps c rows r now) {p : ρ → Bool}
    (drops : ∀ row, p row = false → c.stop row ≤ now) : Keeps c (rows.filter p) r now where
  unique := keeps.unique.sublist (List.filter_sublist.map _)
  backed row hrow := keeps.backed row (List.mem_of_mem_filter hrow)
  live key owner stop h hlive := by
    obtain ⟨row, hrow, hkey, howner, rfl⟩ := keeps.live key owner stop h hlive
    refine ⟨row, List.mem_filter.mpr ⟨hrow, ?_⟩, hkey, howner, rfl⟩
    by_contra hp
    exact (drops row (by simpa using hp)).not_gt hlive

variable [DecidableEq κ]

theorem Keeps.grant (keeps : Keeps c rows r now) {row : ρ} (fresh : c.key row ∉ rows.map c.key) :
    Keeps c (rows ++ [row]) (r.record (.grant (c.key row) (c.owner row) (c.stop row))) now where
  unique := by
    rw [List.map_append, List.map_singleton, List.nodup_append]
    refine ⟨keeps.unique, List.nodup_singleton _, fun a ha b hb hab => fresh ?_⟩
    rw [← List.mem_singleton.mp hb, ← hab]
    exact ha
  backed other hother := by
    rw [Register.record]
    rcases List.mem_append.mp hother with hother | hother
    · rw [Function.update_of_ne, keeps.backed other hother]
      exact fun heq => fresh (heq ▸ List.mem_map_of_mem hother)
    · rw [List.mem_singleton.mp hother, Function.update_self]
  live key owner stop h hlive := by
    by_cases hkey : key = c.key row
    · rw [Register.record, hkey, Function.update_self] at h
      obtain ⟨rfl, rfl⟩ := Prod.mk.inj (Option.some.inj h)
      exact ⟨row, List.mem_append_right _ (List.mem_singleton_self row), hkey.symm, rfl, rfl⟩
    · rw [Register.record, Function.update_of_ne hkey] at h
      obtain ⟨other, hother, hrest⟩ := keeps.live key owner stop h hlive
      exact ⟨other, List.mem_append_left _ hother, hrest⟩

theorem Keeps.revoke (keeps : Keeps c rows r now) (key : κ) :
    Keeps c (delete c.key key rows) (r.record (.revoke key)) now where
  unique := keeps.unique.sublist (List.filter_sublist.map _)
  backed row hrow := by
    obtain ⟨hrow, hne⟩ := mem_delete.mp hrow
    rw [Register.record, Function.update_of_ne hne, keeps.backed row hrow]
  live other owner stop h hlive := by
    have hne : other ≠ key := by
      rintro rfl
      rw [Register.record, Function.update_self] at h
      cases h
    rw [Register.record, Function.update_of_ne hne] at h
    obtain ⟨row, hrow, hkey, hrest⟩ := keeps.live other owner stop h hlive
    exact ⟨row, mem_delete.mpr ⟨hrow, hkey.trans_ne hne⟩, hkey, hrest⟩

theorem Keeps.holder (keeps : Keeps c rows r now) (key : κ) :
    ((lookup c.key key rows).bind fun row =>
      if c.stop row ≤ now then none else some (c.owner row)) = r.holder now key := by
  cases hrow : lookup c.key key rows with
  | none =>
    cases hlease : r key with
    | none => simp [Register.holder, hlease]
    | some lease =>
      obtain ⟨owner, stop⟩ := lease
      have hended : ¬ now < stop := by
        intro hlive
        obtain ⟨row, hmem, hkey, -⟩ := keeps.live key owner stop hlease hlive
        exact lookup_none.mp hrow row hmem hkey
      simp [Register.holder, hlease, hended]
  | some row =>
    obtain ⟨hmem, hkey⟩ := lookup_some hrow
    have hlease := keeps.backed row hmem
    rw [hkey] at hlease
    simp only [Register.holder, hlease, Option.bind_some]
    by_cases hended : c.stop row ≤ now
    · rw [if_pos hended, if_neg hended.not_gt]
    · rw [if_neg hended, if_pos (not_le.mp hended)]

end Leases
