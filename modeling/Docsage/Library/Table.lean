import Mathlib.Data.List.Nodup

/-! # Tables as lists of keyed rows

A table is a list of rows and a key function. The operations are the ones a
relational store offers by key; the lemmas say which rows a table holds after
each of them.
-/

namespace Relational

variable {α κ : Type} [DecidableEq κ]

def lookup (key : α → κ) (k : κ) (rows : List α) : Option α := rows.find? fun r => key r = k

def update (key : α → κ) (k : κ) (f : α → α) (rows : List α) : List α :=
  rows.map fun r => if key r = k then f r else r

def delete (key : α → κ) (k : κ) (rows : List α) : List α := rows.filter fun r => key r ≠ k

def select (key : α → κ) (k : κ) (rows : List α) : List α := rows.filter fun r => key r = k

variable {key : α → κ} {k : κ} {rows : List α}

theorem lookup_some {r : α} (h : lookup key k rows = some r) : r ∈ rows ∧ key r = k :=
  ⟨List.mem_of_find?_eq_some h, by simpa using List.find?_some h⟩

theorem lookup_none : lookup key k rows = none ↔ ∀ r ∈ rows, key r ≠ k := by
  simp [lookup]

theorem mem_update {f : α → α} {r : α} :
    r ∈ update key k f rows ↔ ∃ r₀ ∈ rows, (if key r₀ = k then f r₀ else r₀) = r := by
  simp [update]

theorem lookup_map {f : α → α} (keeps : ∀ r, key (f r) = key r) :
    lookup key k (rows.map f) = (lookup key k rows).map f := by
  rw [lookup, List.find?_map, lookup]
  simp only [Function.comp_def, keeps]

theorem lookup_update {f : α → α} (keeps : ∀ r, key (f r) = key r) :
    lookup key k (update key k f rows) = (lookup key k rows).map f := by
  induction rows with
  | nil => rfl
  | cons r rows ih =>
    by_cases h : key r = k
    · simp [lookup, update, h, keeps]
    · simpa [lookup, update, h] using ih

theorem lookup_update_ne {f : α → α} (keeps : ∀ r, key (f r) = key r) {j : κ} (hj : j ≠ k) :
    lookup key j (update key k f rows) = lookup key j rows := by
  induction rows with
  | nil => rfl
  | cons r rows ih =>
    by_cases h : key r = k
    · have hne : ¬ key r = j := fun e => hj (e ▸ h)
      simpa [lookup, update, h, keeps, hne, Ne.symm hj] using ih
    · by_cases hr : key r = j
      · subst hr
        simp [lookup, update, h]
      · simpa [lookup, update, h, hr] using ih

theorem lookup_update_const {r r' : α} (h : lookup key k rows = some r) (hk : key r' = k) :
    lookup key k (update key k (fun _ => r') rows) = some r' := by
  induction rows with
  | nil => cases h
  | cons r₀ rows ih =>
    by_cases h₀ : key r₀ = k
    · simp [lookup, update, h₀, hk]
    · have hrest : lookup key k rows = some r := by simpa [lookup, h₀] using h
      simpa [lookup, update, h₀] using ih hrest

theorem delete_update_const {r' : α} (hk : key r' = k) :
    delete key k (update key k (fun _ => r') rows) = delete key k rows := by
  induction rows with
  | nil => rfl
  | cons r₀ rows ih =>
    by_cases h₀ : key r₀ = k
    · simpa [delete, update, h₀, hk] using ih
    · simpa [delete, update, h₀] using ih

theorem lookup_delete_ne {j : κ} (hj : j ≠ k) :
    lookup key j (delete key k rows) = lookup key j rows := by
  induction rows with
  | nil => rfl
  | cons r rows ih =>
    by_cases h : key r = k
    · have hne : ¬ key r = j := fun e => hj (e ▸ h)
      simpa [lookup, delete, h, hne, Ne.symm hj] using ih
    · by_cases hr : key r = j
      · subst hr
        simp [lookup, delete, h]
      · simpa [lookup, delete, h, hr] using ih

@[simp] theorem lookup_delete : lookup key k (delete key k rows) = none := by
  rw [lookup_none]
  intro r hr
  simpa using (List.mem_filter.mp hr).2

/-- Replacing the rows of a key by one row: the other keys keep theirs. -/
theorem mem_update_const {r r' : α} (h : r ∈ update key k (fun _ => r') rows) :
    r = r' ∨ r ∈ rows ∧ key r ≠ k := by
  obtain ⟨r₀, hm, rfl⟩ := mem_update.mp h
  by_cases hk : key r₀ = k
  · exact .inl (if_pos hk)
  · rw [if_neg hk]
    exact .inr ⟨hm, hk⟩

theorem mem_update_const_self {r r' : α} (hm : r ∈ rows) (hk : key r = k) :
    r' ∈ update key k (fun _ => r') rows :=
  mem_update.mpr ⟨r, hm, if_pos hk⟩

theorem mem_update_const_ne {r r' : α} (hm : r ∈ rows) (hk : key r ≠ k) :
    r ∈ update key k (fun _ => r') rows :=
  mem_update.mpr ⟨r, hm, if_neg hk⟩

theorem map_key_update {f : α → α} (keeps : ∀ r, key (f r) = key r) :
    (update key k f rows).map key = rows.map key := by
  rw [update, List.map_map]
  refine List.map_congr_left fun r _ => ?_
  by_cases h : key r = k
  · rw [Function.comp_apply, if_pos h, keeps]
  · rw [Function.comp_apply, if_neg h]

theorem update_eq_self {f : α → α} (h : ∀ r ∈ rows, key r ≠ k) : update key k f rows = rows := by
  refine (List.map_congr_left fun r hr => ?_).trans (List.map_id rows)
  exact if_neg (h r hr)

theorem filter_update {f : α → α} {p : α → Bool} (keeps : ∀ r, p (f r) = p r) :
    (update key k f rows).filter p = update key k f (rows.filter p) := by
  have hsame : (p ∘ fun r => if key r = k then f r else r) = p := by
    funext r
    by_cases h : key r = k
    · rw [Function.comp_apply, if_pos h, keeps]
    · rw [Function.comp_apply, if_neg h]
  rw [update, List.filter_map, hsame, update]

/-- Where keys are not repeated, every row is found under its key. -/
theorem lookup_of_mem (unique : (rows.map key).Nodup) {r : α} (h : r ∈ rows) :
    lookup key (key r) rows = some r := by
  cases hlookup : lookup key (key r) rows with
  | none => exact absurd rfl (lookup_none.mp hlookup r h)
  | some r' =>
    obtain ⟨hmem, hkey⟩ := lookup_some hlookup
    rw [List.inj_on_of_nodup_map unique hmem h hkey]

/-- Where keys are not repeated, a row is found among some of the rows exactly if it is one of
them. -/
theorem lookup_filter (unique : (rows.map key).Nodup) (p : α → Bool) :
    lookup key k (rows.filter p) = (lookup key k rows).filter p := by
  have hsub : ((rows.filter p).map key).Nodup := (List.filter_sublist.map key).nodup unique
  cases hrow : lookup key k rows with
  | none =>
    have hnone := lookup_none.mp hrow
    exact lookup_none.mpr fun r hr => hnone r (List.mem_of_mem_filter hr)
  | some r =>
    obtain ⟨hr, rfl⟩ := lookup_some hrow
    cases hp : p r with
    | true =>
      have hmem : r ∈ rows.filter p := List.mem_filter.mpr ⟨hr, hp⟩
      rw [lookup_of_mem hsub hmem, Option.filter_some, if_pos hp]
    | false =>
      rw [Option.filter_some, if_neg (by simp [hp])]
      refine lookup_none.mpr fun r' hr' hkey => ?_
      obtain ⟨hmem, hp'⟩ := List.mem_filter.mp hr'
      rw [List.inj_on_of_nodup_map unique hmem hr hkey, hp] at hp'
      cases hp'

@[simp] theorem mem_delete {r : α} : r ∈ delete key k rows ↔ r ∈ rows ∧ key r ≠ k := by
  simp [delete]

@[simp] theorem mem_select {r : α} : r ∈ select key k rows ↔ r ∈ rows ∧ key r = k := by
  simp [select]

@[simp] theorem select_append (xs ys : List α) :
    select key k (xs ++ ys) = select key k xs ++ select key k ys := by
  simp [select]

theorem select_eq_self (h : ∀ r ∈ rows, key r = k) : select key k rows = rows := by
  simpa [select] using h

theorem select_eq_nil (h : ∀ r ∈ rows, key r ≠ k) : select key k rows = [] := by
  simpa [select] using h

theorem select_delete_ne {j : κ} (hj : j ≠ k) :
    select key j (delete key k rows) = select key j rows := by
  rw [select, select, delete, List.filter_filter]
  apply List.filter_congr
  intro r _
  by_cases h : key r = j
  · simp [h, hj]
  · simp [h]

@[simp] theorem select_delete : select key k (delete key k rows) = [] :=
  select_eq_nil fun _ hr => (mem_delete.mp hr).2

/-- Without the rows of the key the tables are the same. -/
def Agree (key : α → κ) (k : κ) (rows rows' : List α) : Prop :=
  delete key k rows = delete key k rows'

variable {rows' : List α}

/-- A filter that drops the rows of the key anyway does not see whether they were deleted. -/
theorem filter_delete {p : α → Bool} (h : ∀ r ∈ rows, key r = k → p r = false) :
    (delete key k rows).filter p = rows.filter p := by
  rw [delete, List.filter_filter]
  apply List.filter_congr
  intro r hr
  by_cases hk : key r = k
  · simp [hk, h r hr hk]
  · simp [hk]

namespace Agree

/-- A query that returns no row of the key has the same answer. -/
theorem filter (agree : Agree key k rows rows') {p : α → Bool}
    (h : ∀ r ∈ rows, key r = k → p r = false) (h' : ∀ r ∈ rows', key r = k → p r = false) :
    rows.filter p = rows'.filter p := by
  rw [← filter_delete h, ← filter_delete h', agree]

/-- A join that takes nothing from the rows of the key has the same answer. -/
theorem filterMap {β : Type} (agree : Agree key k rows rows') {f f' : α → Option β}
    (h : ∀ r ∈ rows, key r = k → f r = none) (h' : ∀ r ∈ rows', key r = k → f' r = none)
    (same : ∀ r, key r ≠ k → f r = f' r) : rows.filterMap f = rows'.filterMap f' := by
  have hdrop {f : α → Option β} {rows : List α} (h : ∀ r ∈ rows, key r = k → f r = none) :
      (Relational.delete key k rows).filterMap f = rows.filterMap f := by
    rw [Relational.delete, List.filterMap_filter]
    apply List.filterMap_congr
    intro r hr
    by_cases hk : key r = k
    · simp [hk, h r hr hk]
    · simp [hk]
  rw [← hdrop h, ← hdrop h', agree]
  apply List.filterMap_congr
  intro r hr
  exact same r (mem_delete.mp hr).2

theorem lookup_ne (agree : Agree key k rows rows') {j : κ} (hj : j ≠ k) :
    lookup key j rows = lookup key j rows' := by
  calc lookup key j rows = lookup key j (Relational.delete key k rows) :=
        (lookup_delete_ne hj).symm
    _ = lookup key j (Relational.delete key k rows') := by rw [agree]
    _ = lookup key j rows' := lookup_delete_ne hj

theorem select_ne (agree : Agree key k rows rows') {j : κ} (hj : j ≠ k) :
    select key j rows = select key j rows' := by
  calc select key j rows = select key j (Relational.delete key k rows) :=
        (select_delete_ne hj).symm
    _ = select key j (Relational.delete key k rows') := by rw [agree]
    _ = select key j rows' := select_delete_ne hj

theorem delete (agree : Agree key k rows rows') (j : κ) :
    Agree key k (delete key j rows) (delete key j rows') := by
  have hcomm (rows : List α) : Relational.delete key k (Relational.delete key j rows) =
      Relational.delete key j (Relational.delete key k rows) := by
    rw [Relational.delete, Relational.delete, Relational.delete, Relational.delete,
      List.filter_comm]
  rw [Agree, hcomm, hcomm, agree]

theorem append (agree : Agree key k rows rows') (added : List α) :
    Agree key k (rows ++ added) (rows' ++ added) := by
  rw [Agree, Relational.delete, Relational.delete, List.filter_append, List.filter_append]
  exact congrArg (· ++ _) agree

theorem update (agree : Agree key k rows rows') {f : α → α} (keeps : ∀ r, key (f r) = key r)
    (j : κ) : Agree key k (update key j f rows) (update key j f rows') := by
  have hcomm (rows : List α) : Relational.delete key k (Relational.update key j f rows) =
      Relational.update key j f (Relational.delete key k rows) := by
    have hkeeps (r : α) : key (if key r = j then f r else r) = key r := by
      split
      · exact keeps r
      · rfl
    simp only [Relational.delete, Relational.update, List.filter_map, Function.comp_def, hkeeps]
  rw [Agree, hcomm, hcomm, agree]

end Agree

end Relational
