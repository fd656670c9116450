import Mathlib.Data.List.Range
import Mathlib.Tactic.Ring

/-! # Windows over a sequence

`windows step width l` lists the slices of `l` that start at the multiples of
`step` below its length and are at most `width` long. With `width = step` they
are the consecutive batches of the sequence; with `width > step` they overlap.
-/

namespace Windows

variable {α : Type*}

def starts (stop step : ℕ) : List ℕ := (List.range ((stop + step - 1) / step)).map (· * step)

/-- `[l[start : start + width] for start in range(0, len(l), step)]`. -/
def windows (step width : ℕ) (l : List α) : List (List α) :=
  (starts l.length step).map fun start => (l.drop start).take width

@[simp] theorem starts_zero (step : ℕ) : starts 0 step = [] := by
  rcases Nat.eq_zero_or_pos step with rfl | h
  · rfl
  · have hd : (0 + step - 1) / step = 0 := Nat.div_eq_of_lt (by omega)
    simp only [starts, hd, List.range_zero, List.map_nil]

theorem starts_succ {stop step : ℕ} (hstep : 0 < step) (hstop : 0 < stop) :
    starts stop step = 0 :: (starts (stop - step) step).map (· + step) := by
  have hcount : (stop + step - 1) / step = (stop - step + step - 1) / step + 1 := by
    rcases Nat.lt_or_ge stop step with h | h
    · have hlow : stop - step + step - 1 = step - 1 := by omega
      have hhigh : stop + step - 1 = (stop - 1) + step := by omega
      rw [hlow, hhigh, Nat.add_div_right _ hstep, Nat.div_eq_of_lt (by omega),
        Nat.div_eq_of_lt (by omega)]
    · have hsum : stop + step - 1 = (stop - step + step - 1) + step := by omega
      rw [hsum, Nat.add_div_right _ hstep]
  rw [starts, hcount, List.range_succ_eq_map]
  simp only [List.map_cons, List.map_map, starts, Nat.zero_mul]
  congr 1
  apply List.map_congr_left
  intro i _
  simp only [Function.comp_apply, Nat.succ_eq_add_one]
  ring

@[simp] theorem windows_nil (step width : ℕ) : windows step width ([] : List α) = [] := by
  simp [windows]

/-- The recursion behind the comprehension: one window, then the windows of the rest. -/
theorem windows_of_ne_nil {step : ℕ} (hstep : 0 < step) (width : ℕ) {l : List α} (hl : l ≠ []) :
    windows step width l = l.take width :: windows step width (l.drop step) := by
  rw [windows, starts_succ hstep (List.length_pos_iff.mpr hl), List.map_cons, List.map_map,
    windows, List.length_drop]
  congr 1
  apply List.map_congr_left
  intro start _
  simp only [Function.comp_apply, List.drop_drop, Nat.add_comm start step]

theorem flatten_windows {step : ℕ} (hstep : 0 < step) (l : List α) :
    (windows step step l).flatten = l := by
  induction hn : l.length using Nat.strong_induction_on generalizing l with
  | _ n ih =>
    by_cases hl : l = []
    · simp [hl]
    · have hpos := List.length_pos_iff.mpr hl
      rw [windows_of_ne_nil hstep step hl, List.flatten_cons,
        ih (l.drop step).length (by rw [List.length_drop]; omega) (l.drop step) rfl]
      exact List.take_append_drop step l

theorem length_le_of_mem_windows {step width : ℕ} {l w : List α} (h : w ∈ windows step width l) :
    w.length ≤ width := by
  obtain ⟨start, -, rfl⟩ := List.mem_map.mp h
  exact List.length_take_le _ _

theorem flatMap_drop_windows {step width : ℕ} (hstep : 0 < step) (hle : step ≤ width)
    (l : List α) :
    (windows step width l).flatMap (List.drop (width - step)) = l.drop (width - step) := by
  induction hn : l.length using Nat.strong_induction_on generalizing l with
  | _ n ih =>
    by_cases hl : l = []
    · simp [hl]
    · have hpos := List.length_pos_iff.mpr hl
      have hrest := ih (l.drop step).length (by rw [List.length_drop]; omega) (l.drop step) rfl
      have hwidth : width - (width - step) = step := by omega
      rw [windows_of_ne_nil hstep width hl, List.flatMap_cons, hrest, List.drop_take, hwidth,
        List.drop_drop, Nat.add_comm, ← List.drop_drop]
      exact List.take_append_drop step _

/-- The first window and the new part of every later one are the sequence. -/
theorem windows_rebuild {step width : ℕ} (hstep : 0 < step) (hle : step ≤ width) {l : List α}
    (hl : l ≠ []) :
    ∃ first later, windows step width l = first :: later ∧
      first ++ later.flatMap (List.drop (width - step)) = l := by
  refine ⟨_, _, windows_of_ne_nil hstep width hl, ?_⟩
  have hwidth : step + (width - step) = width := by omega
  rw [flatMap_drop_windows hstep hle, List.drop_drop, hwidth]
  exact List.take_append_drop width l

/-- A passage no longer than the overlap lies inside one window. -/
theorem infix_window {step width : ℕ} (hstep : 0 < step) {passage l : List α} (hl : l ≠ [])
    (inside : passage <:+: l) (short : passage.length + step ≤ width) :
    ∃ w ∈ windows step width l, passage <:+: w := by
  -- on the length: a passage that starts before the next window lies in this one
  induction hn : l.length using Nat.strong_induction_on generalizing l with
  | _ n ih =>
    obtain ⟨before, after, rfl⟩ := inside
    rw [windows_of_ne_nil hstep width hl]
    by_cases hearly : before.length < step ∨ passage = []
    · refine ⟨_, List.mem_cons_self, ?_⟩
      rcases hearly with hbefore | rfl
      · have hfits : (before ++ passage).length ≤ width := by
          rw [List.length_append]
          omega
        rw [List.take_append, List.take_of_length_le hfits]
        exact ⟨before, _, rfl⟩
      · exact List.nil_infix
    · obtain ⟨hlate, hne⟩ := not_or.mp hearly
      have hdrop : (before ++ passage ++ after).drop step =
          before.drop step ++ passage ++ after := by
        rw [List.append_assoc, List.drop_append_of_le_length (not_lt.mp hlate), List.append_assoc]
      have hrest : (before ++ passage ++ after).drop step ≠ [] := by
        rw [hdrop]
        simp [hne]
      have hpos := List.length_pos_iff.mpr hl
      obtain ⟨w, hw, hin⟩ := ih _ (by rw [List.length_drop]; omega) hrest
        (by rw [hdrop]; exact ⟨_, _, rfl⟩) rfl
      exact ⟨w, List.mem_cons_of_mem _ hw, hin⟩

theorem starts_getElem? {stop step : ℕ} (hstep : 0 < step) (k : ℕ) :
    (starts stop step)[k]? = if k * step < stop then some (k * step) else none := by
  have hcount : k < (stop + step - 1) / step ↔ k * step < stop := by
    rw [Nat.lt_iff_add_one_le, Nat.le_div_iff_mul_le hstep, Nat.succ_mul]
    omega
  rw [starts, List.getElem?_map]
  by_cases h : k * step < stop
  · rw [if_pos h, List.getElem?_range (hcount.mpr h), Option.map_some]
  · have hout : (List.range ((stop + step - 1) / step)).length ≤ k := by
      rw [List.length_range]
      exact not_lt.mp (hcount.not.mpr h)
    rw [if_neg h, List.getElem?_eq_none hout, Option.map_none]

theorem windows_map {β : Type*} (step width : ℕ) (f : α → β) (l : List α) :
    windows step width (l.map f) = (windows step width l).map (List.map f) := by
  rw [windows, windows, List.length_map, List.map_map]
  refine List.map_congr_left fun start _ => ?_
  rw [Function.comp_apply, List.map_take, List.map_drop]

def atPositions (l : List α) (positions : List ℕ) : List α := positions.filterMap (l[·]?)

theorem map_getElem?_range (l : List α) : (List.range l.length).map (l[·]?) = l.map some := by
  refine List.ext_getElem (by simp) fun i hi _ => ?_
  rw [List.length_map, List.length_range] at hi
  simp [hi]

theorem atPositions_of_map {l w : List α} {positions : List ℕ}
    (h : positions.map (l[·]?) = w.map some) : atPositions l positions = w := by
  have hread : atPositions l positions = (positions.map (l[·]?)).filterMap id := by
    rw [List.filterMap_map]
    rfl
  rw [hread, h, List.filterMap_map]
  exact List.filterMap_some

theorem atPositions_range (l : List α) : atPositions l (List.range l.length) = l :=
  atPositions_of_map (map_getElem?_range l)

/-- The windows are what the sequence holds at the windows of its positions. -/
theorem windows_atPositions (step width : ℕ) (l : List α) :
    windows step width l = (windows step width (List.range l.length)).map (atPositions l) := by
  refine List.ext_getElem (by simp [windows]) fun k hk hk' => ?_
  symm
  rw [List.getElem_map]
  apply atPositions_of_map
  have hall : (windows step width (List.range l.length)).map (List.map (l[·]?)) =
      (windows step width l).map (List.map some) := by
    rw [← windows_map, map_getElem?_range, windows_map]
  have heach := List.getElem_of_eq hall (i := k) (by simpa using hk')
  simpa only [List.getElem_map] using heach

/-- The window at an index starts at that multiple of the step. -/
theorem window_eq {step n k : ℕ} (hstep : 0 < step) (width : ℕ) {window : List ℕ}
    (h : (windows step width (List.range n))[k]? = some window) :
    k * step < n ∧ ((List.range n).drop (k * step)).take width = window := by
  rw [windows, List.getElem?_map, List.length_range, starts_getElem? hstep] at h
  split_ifs at h with hk
  · exact ⟨hk, Option.some.inj h⟩
  · cases h

theorem exists_window {step n k : ℕ} (hstep : 0 < step) (width : ℕ) (hk : k * step < n) :
    ∃ window, (windows step width (List.range n))[k]? = some window := by
  rw [windows, List.getElem?_map, List.length_range, starts_getElem? hstep, if_pos hk]
  exact ⟨_, rfl⟩

theorem mem_window {step width n k : ℕ} (hstep : 0 < step) {window : List ℕ}
    (h : (windows step width (List.range n))[k]? = some window) (i : ℕ) :
    i ∈ window ↔ k * step ≤ i ∧ i < k * step + width ∧ i < n := by
  obtain ⟨hk, rfl⟩ := window_eq hstep width h
  rw [List.range_eq_range', List.drop_range']
  rcases le_total width (n - k * step) with hfull | hcut
  · rw [List.take_range'_of_length_ge hfull, List.mem_range'_1]
    omega
  · rw [List.take_range'_of_length_le hcut, List.mem_range'_1]
    omega

/-- Of some windows, each after the first covers a position that the one before does not. -/
def EachAdds (spans : List (List ℕ)) : Prop :=
  ∀ k earlier later, spans[k]? = some earlier → spans[k + 1]? = some later →
    ∃ i ∈ later, i ∉ earlier

theorem eachAdds_singleton (span : List ℕ) : EachAdds [span] := by
  intro k earlier later _ hlater
  rw [List.getElem?_eq_none (by simp)] at hlater
  cases hlater

/-- The window before the last start has to end before the sequence does. -/
theorem eachAdds_windows_iff {step width n : ℕ} (hstep : 0 < step) (hle : step ≤ width)
    (hn : width < n) :
    EachAdds (windows step width (List.range n)) ↔ width - step ≤ (n - 1) % step := by
  have hdiv : (n - 1) / step * step + (n - 1) % step = n - 1 := by
    rw [Nat.mul_comm]
    exact Nat.div_add_mod _ _
  have hmod : (n - 1) % step < step := Nat.mod_lt _ hstep
  constructor
  · intro h
    -- the last two windows
    obtain ⟨k, hk⟩ : ∃ k, (n - 1) / step = k + 1 :=
      Nat.exists_eq_succ_of_ne_zero (Nat.div_pos (by omega) hstep).ne'
    rw [hk] at hdiv
    have hlast : (k + 1) * step < n := by omega
    have hmul : (k + 1) * step = k * step + step := Nat.succ_mul k step
    obtain ⟨earlier, hearlier⟩ := exists_window hstep width (show k * step < n by omega)
    obtain ⟨later, hlater⟩ := exists_window hstep width hlast
    obtain ⟨i, hi, hout⟩ := h k earlier later hearlier hlater
    rw [mem_window hstep hlater] at hi
    rw [mem_window hstep hearlier] at hout
    omega
  · intro h k earlier later hearlier hlater
    have hmul : (k + 1) * step = k * step + step := Nat.succ_mul k step
    have hk : (k + 1) * step < n := (window_eq hstep width hlater).1
    have hq : k + 1 ≤ (n - 1) / step := (Nat.le_div_iff_mul_le hstep).mpr (by omega)
    have hbound : (k + 1) * step ≤ (n - 1) / step * step := Nat.mul_le_mul_right step hq
    refine ⟨k * step + width, (mem_window hstep hlater _).mpr (by omega), fun hin => ?_⟩
    rw [mem_window hstep hearlier] at hin
    omega

end Windows
