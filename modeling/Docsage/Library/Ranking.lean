import Mathlib.Data.List.Perm.Basic
import Mathlib.Data.List.Sort
import Mathlib.Order.Lattice

/-! # Ranked answers with a limit

`OrderBy` is any arrangement of rows that is sorted by a key, the order of ties
included. `rank` is the stable sort by a score, best first. A limited answer
that leaves a row out is full of rows that are at least as good.
-/

namespace Ranking

variable {α κ : Type} [LinearOrder κ]

/-- An `ORDER BY key`: the rows in some order that is sorted by the key. -/
structure OrderBy (α κ : Type) [LinearOrder κ] where
  sort : (α → κ) → List α → List α
  perm : ∀ key rows, (sort key rows).Perm rows
  sorted : ∀ key rows, (sort key rows).Pairwise fun a b => key a ≤ key b

def OrderBy.stable : OrderBy α κ where
  sort key rows := rows.insertionSort fun a b => key a ≤ key b
  perm key rows := rows.perm_insertionSort _
  sorted key rows := by
    have : Std.Total fun a b : α => key a ≤ key b := ⟨fun a b => le_total _ _⟩
    have : IsTrans α fun a b => key a ≤ key b := ⟨fun _ _ _ => le_trans⟩
    exact rows.pairwise_insertionSort _

/-- `ORDER BY key LIMIT k`. -/
def OrderBy.nearest (order : OrderBy α κ) (key : α → κ) (k : ℕ) (rows : List α) : List α :=
  (order.sort key rows).take k

def rank (score : α → κ) (rows : List α) : List α :=
  rows.insertionSort fun a b => score b ≤ score a

variable {score : α → κ} {rows : List α}

theorem rank_perm : (rank score rows).Perm rows := rows.perm_insertionSort _

theorem rank_sorted : (rank score rows).Pairwise fun a b => score b ≤ score a := by
  have : Std.Total fun a b : α => score b ≤ score a := ⟨fun a b => le_total _ _⟩
  have : IsTrans α fun a b => score b ≤ score a := ⟨fun _ _ _ h₁ h₂ => h₂.trans h₁⟩
  exact rows.pairwise_insertionSort _

/-- Of a list sorted by a relation, what is taken stands before what is left. -/
theorem rel_of_take_drop {r : α → α → Prop} {k : ℕ} (sorted : rows.Pairwise r) {a b : α}
    (ha : a ∈ rows.take k) (hb : b ∈ rows.drop k) : r a b := by
  rw [← List.take_append_drop k rows, List.pairwise_append] at sorted
  exact sorted.2.2 a ha b hb

theorem mem_take_or_drop {k : ℕ} {a : α} (h : a ∈ rows) : a ∈ rows.take k ∨ a ∈ rows.drop k := by
  rwa [← List.mem_append, List.take_append_drop]

theorem length_take_of_mem_drop {k : ℕ} {a : α} (h : a ∈ rows.drop k) :
    (rows.take k).length = k := by
  have hpos : 0 < (rows.drop k).length := List.length_pos_of_mem h
  rw [List.length_drop] at hpos
  rw [List.length_take, min_eq_left (by omega)]

/-- A row that the limit leaves out: the answer is full, of rows at most as far. -/
theorem OrderBy.nearest_of_not_mem (order : OrderBy α κ) {key : α → κ} {k : ℕ} {a : α}
    (mem : a ∈ rows) (out : a ∉ order.nearest key k rows) :
    (order.nearest key k rows).length = k ∧ ∀ b ∈ order.nearest key k rows, key b ≤ key a := by
  have hdrop : a ∈ (order.sort key rows).drop k :=
    (mem_take_or_drop ((order.perm key rows).mem_iff.mpr mem)).resolve_left out
  exact ⟨length_take_of_mem_drop hdrop, fun b hb =>
    rel_of_take_drop (order.sorted key rows) hb hdrop⟩

theorem OrderBy.sort_eq_of_perm (order : OrderBy α κ) {key : α → κ} {sorted : List α}
    (perm : rows.Perm sorted) (strict : sorted.Pairwise fun a b => key a < key b) :
    order.sort key rows = sorted := by
  have hperm := (order.perm key rows).trans perm
  have hnodup : (sorted.map key).Nodup := List.pairwise_map.mpr (strict.imp fun h => h.ne)
  refine hperm.eq_of_pairwise (fun a b ha hb hab hba => ?_) (order.sorted key rows)
    (strict.imp fun h => h.le)
  exact List.inj_on_of_nodup_map hnodup (hperm.mem_iff.mp ha) hb (le_antisymm hab hba)

theorem OrderBy.mem_of_mem_nearest (order : OrderBy α κ) {key : α → κ} {k : ℕ} {a : α}
    (h : a ∈ order.nearest key k rows) : a ∈ rows :=
  (order.perm key rows).mem_iff.mp (List.mem_of_mem_take h)

/-- A row that the final cut leaves out: the answer is full, of rows at least as good. -/
theorem rank_take_of_not_mem {k : ℕ} {a : α} (mem : a ∈ rows)
    (out : a ∉ (rank score rows).take k) :
    ((rank score rows).take k).length = k ∧ ∀ b ∈ (rank score rows).take k, score a ≤ score b := by
  have hdrop : a ∈ (rank score rows).drop k :=
    (mem_take_or_drop (rank_perm.mem_iff.mpr mem)).resolve_left out
  exact ⟨length_take_of_mem_drop hdrop, fun b hb => rel_of_take_drop rank_sorted hb hdrop⟩

/-- With `k` rows of score at least `σ` among them, the best `k` all score at least `σ`. -/
theorem rank_take_of_many {k : ℕ} {σ : κ} {good : List α} (sub : good.Subperm rows)
    (high : ∀ a ∈ good, σ ≤ score a) (many : good.length = k) :
    ((rank score rows).take k).length = k ∧ ∀ b ∈ (rank score rows).take k, σ ≤ score b := by
  have hlen : k ≤ (rank score rows).length := by
    rw [rank_perm.length_eq, ← many]
    exact sub.length_le
  refine ⟨by rw [List.length_take, min_eq_left hlen], fun b hb => ?_⟩
  by_contra hlow
  obtain ⟨i, hi, rfl⟩ := List.mem_take_iff_getElem.mp hb
  have hik : i < k := lt_of_lt_of_le hi (min_le_left _ _)
  have hir : i < (rank score rows).length := lt_of_lt_of_le hi (min_le_right _ _)
  -- everything from `i` on scores below `σ`, so the good rows fit into the first `i`
  have hrest : ∀ c ∈ (rank score rows).drop i, ¬ σ ≤ score c := by
    intro c hc hge
    obtain ⟨j, hj, rfl⟩ := List.mem_drop_iff_getElem.mp hc
    have hle : score (rank score rows)[i + j] ≤ score (rank score rows)[i] := by
      rcases Nat.eq_zero_or_pos j with rfl | hpos
      · exact le_rfl
      · exact List.pairwise_iff_getElem.mp rank_sorted i (i + j) hir (by omega) (by omega)
    exact hlow (hge.trans hle)
  have hgood : good.length ≤ (((rank score rows).filter fun c => σ ≤ score c)).length := by
    have hsub : (good.filter fun c => σ ≤ score c).Subperm
        ((rank score rows).filter fun c => σ ≤ score c) :=
      (sub.trans rank_perm.symm.subperm).filter _
    rw [List.filter_eq_self.mpr (by simpa using high)] at hsub
    exact hsub.length_le
  have hsplit : ((rank score rows).filter fun c => σ ≤ score c) =
      ((rank score rows).take i).filter fun c => σ ≤ score c := by
    have hnone : ((rank score rows).drop i).filter (fun c => σ ≤ score c) = [] :=
      List.filter_eq_nil_iff.mpr (by simpa using hrest)
    conv_lhs => rw [← List.take_append_drop i (rank score rows), List.filter_append, hnone]
    rw [List.append_nil]
  have hfilter := List.length_filter_le (fun c => decide (σ ≤ score c)) ((rank score rows).take i)
  rw [hsplit] at hgood
  rw [List.length_take] at hfilter
  omega

theorem subperm_flatMap {ι : Type} {sources : List ι} {f : ι → List α} {i : ι} (hi : i ∈ sources) :
    (f i).Subperm (sources.flatMap f) := by
  obtain ⟨before, after, rfl⟩ := List.append_of_mem hi
  rw [List.flatMap_append, List.flatMap_cons]
  exact ((List.sublist_append_left _ _).trans (List.sublist_append_right _ _)).subperm

/-- An answer leaves a row out only when it is full, of rows that are at least as good. -/
def BestOf (score : α → κ) (k : ℕ) (rows answer : List α) : Prop :=
  ∀ a ∈ rows, a ∉ answer → answer.length = k ∧ ∀ b ∈ answer, score a ≤ score b

namespace BestOf

variable {answer : List α} {k : ℕ}

/-- The nearest rows are the best by a score that falls with the distance. -/
theorem nearest {δ : Type} [LinearOrder δ] (order : OrderBy α δ) {key : α → δ}
    (falls : ∀ a b, key b ≤ key a → score a ≤ score b) :
    BestOf score k rows (order.nearest key k rows) := by
  intro a ha hout
  obtain ⟨hfull, hnear⟩ := order.nearest_of_not_mem ha hout
  exact ⟨hfull, fun b hb => falls a b (hnear b hb)⟩

/-- A floor under the score keeps an answer the best of what passes the floor. -/
theorem filter (best : BestOf score k rows answer) {p : α → Bool}
    (floor : ∀ a b, p a = true → score a ≤ score b → p b = true) :
    BestOf score k (rows.filter p) (answer.filter p) := by
  intro a ha hout
  obtain ⟨harows, hpa⟩ := List.mem_filter.mp ha
  obtain ⟨hfull, hbest⟩ := best a harows fun h => hout (List.mem_filter.mpr ⟨h, hpa⟩)
  have hall : answer.filter p = answer :=
    List.filter_eq_self.mpr fun b hb => floor a b hpa (hbest b hb)
  rw [hall]
  exact ⟨hfull, hbest⟩

theorem map {β : Type} (best : BestOf score k rows answer) {f : α → β} {score' : β → κ}
    (same : ∀ a, score' (f a) = score a) : BestOf score' k (rows.map f) (answer.map f) := by
  intro b hb hout
  obtain ⟨a, ha, rfl⟩ := List.mem_map.mp hb
  obtain ⟨hfull, hbest⟩ := best a ha fun h => hout (List.mem_map_of_mem h)
  refine ⟨by rw [List.length_map, hfull], fun c hc => ?_⟩
  obtain ⟨b, hb, rfl⟩ := List.mem_map.mp hc
  rw [same, same]
  exact hbest b hb

/-- Ranking the best answers of several sources together gives the best of all their rows. -/
theorem merge {ι : Type} {sources : List ι} {offered kept : ι → List α}
    (best : ∀ i ∈ sources, BestOf score k (offered i) (kept i)) :
    BestOf score k (sources.flatMap offered) ((rank score (sources.flatMap kept)).take k) := by
  intro a ha hout
  obtain ⟨i, hi, hai⟩ := List.mem_flatMap.mp ha
  by_cases hkept : a ∈ kept i
  · exact rank_take_of_not_mem (List.mem_flatMap.mpr ⟨i, hi, hkept⟩) hout
  · -- the source left it out, so it kept `k` rows that are at least as good
    obtain ⟨hfull, hbest⟩ := best i hi a hai hkept
    exact rank_take_of_many (subperm_flatMap hi) hbest hfull

end BestOf

/-- An answer is the first `k` of all the rows, in some order by falling score. -/
def TopOf (score : α → κ) (k : ℕ) (rows answer : List α) : Prop :=
  ∃ ranked : List α, ranked.Perm rows ∧ (ranked.Pairwise fun a b => score b ≤ score a) ∧
    ranked.take k = answer

/-- Under a floor, the first rows that pass it are the first rows, as far as they pass it. -/
theorem take_filter_of_floor {p : α → Bool}
    (floor : ∀ a b, p a = true → score a ≤ score b → p b = true)
    (sorted : rows.Pairwise fun a b => score b ≤ score a) (k : ℕ) :
    (rows.filter p).take k = (rows.take k).filter p := by
  induction rows generalizing k with
  | nil => simp
  | cons a rows ih =>
    obtain ⟨hfirst, hrest⟩ := List.pairwise_cons.mp sorted
    cases k with
    | zero => rfl
    | succ k =>
      cases ha : p a with
      | true =>
        rw [List.filter_cons_of_pos ha, List.take_succ_cons, List.take_succ_cons,
          List.filter_cons_of_pos ha, ih hrest k]
      | false =>
        -- nothing behind a row below the floor is above it
        have hnone : rows.filter p = [] := by
          refine List.filter_eq_nil_iff.mpr fun b hb hpb => ?_
          have hpa := floor b a hpb (hfirst b hb)
          rw [ha] at hpa
          cases hpa
        rw [List.filter_cons_of_neg (by simp [ha]), List.take_succ_cons,
          List.filter_cons_of_neg (by simp [ha]), ← ih hrest k, hnone, List.take_nil,
          List.take_nil]

namespace TopOf

variable {answer : List α} {k : ℕ}

/-- The answer is ranked and within the limit, and every other row was left out of a full answer
that is at least as good throughout. -/
theorem iff_left_out : TopOf score k rows answer ↔
    (answer.Pairwise fun a b => score b ≤ score a) ∧ answer.length ≤ k ∧
      ∃ left, (answer ++ left).Perm rows ∧
        ∀ a ∈ left, answer.length = k ∧ ∀ b ∈ answer, score a ≤ score b := by
  constructor
  · rintro ⟨ranked, hperm, hsorted, rfl⟩
    refine ⟨hsorted.sublist (List.take_sublist k ranked), List.length_take_le k ranked,
      ranked.drop k, by rwa [List.take_append_drop], fun a ha => ?_⟩
    exact ⟨length_take_of_mem_drop ha, fun b hb => rel_of_take_drop hsorted hb ha⟩
  · rintro ⟨hsorted, hle, left, hperm, hleft⟩
    refine ⟨answer ++ rank score left, ?_, ?_, ?_⟩
    · exact (List.Perm.append_left answer rank_perm).trans hperm
    · refine List.pairwise_append.mpr ⟨hsorted, rank_sorted, fun b hb a ha => ?_⟩
      exact (hleft a (rank_perm.mem_iff.mp ha)).2 b hb
    · rcases hle.lt_or_eq with hlt | heq
      · -- an answer that is not full leaves nothing out
        have hnil : left = [] := by
          refine List.eq_nil_iff_forall_not_mem.mpr fun a ha => ?_
          have hfull := (hleft a ha).1
          omega
        have hrank : rank score left = [] := by
          rw [hnil]
          rfl
        rw [hrank, List.append_nil, List.take_of_length_le hle]
      · rw [← heq, List.take_left]

/-- The nearest rows come first by a score that falls with the distance. -/
theorem nearest {δ : Type} [LinearOrder δ] (order : OrderBy α δ) {key : α → δ}
    (falls : ∀ a b, key b ≤ key a → score a ≤ score b) :
    TopOf score k rows (order.nearest key k rows) :=
  ⟨order.sort key rows, order.perm key rows,
    (order.sorted key rows).imp fun {a b} h => falls b a h, rfl⟩

theorem filter (top : TopOf score k rows answer) {p : α → Bool}
    (floor : ∀ a b, p a = true → score a ≤ score b → p b = true) :
    TopOf score k (rows.filter p) (answer.filter p) := by
  obtain ⟨ranked, hperm, hsorted, rfl⟩ := top
  exact ⟨ranked.filter p, hperm.filter p, hsorted.filter p, take_filter_of_floor floor hsorted k⟩

theorem map {β : Type} (top : TopOf score k rows answer) {f : α → β} {score' : β → κ}
    (same : ∀ a, score' (f a) = score a) : TopOf score' k (rows.map f) (answer.map f) := by
  obtain ⟨ranked, hperm, hsorted, rfl⟩ := top
  refine ⟨ranked.map f, hperm.map f, ?_, List.map_take.symm⟩
  rw [List.pairwise_map]
  simpa only [same] using hsorted

/-- The first rows of several sources, ranked together, are the first of all their rows. -/
theorem merge {ι : Type} {sources : List ι} {offered kept : ι → List α}
    (top : ∀ i ∈ sources, TopOf score k (offered i) (kept i)) :
    TopOf score k (sources.flatMap offered) ((rank score (sources.flatMap kept)).take k) := by
  have hparts (i : ι) (hi : i ∈ sources) := (iff_left_out.mp (top i hi)).2.2
  choose! left hperm hleft using hparts
  refine iff_left_out.mpr ⟨rank_sorted.sublist (List.take_sublist _ _), List.length_take_le _ _,
    (rank score (sources.flatMap kept)).drop k ++ sources.flatMap left, ?_, ?_⟩
  · rw [← List.append_assoc, List.take_append_drop]
    refine ((rank_perm.append_right _).trans (List.flatMap_append_perm _ _ _)).trans ?_
    exact List.Perm.flatMap_left sources hperm
  · intro a ha
    rcases List.mem_append.mp ha with ha | ha
    · exact ⟨length_take_of_mem_drop ha, fun b hb => rel_of_take_drop rank_sorted hb ha⟩
    · -- the source left it out, so it kept `k` rows that are at least as good
      obtain ⟨i, hi, hai⟩ := List.mem_flatMap.mp ha
      obtain ⟨hfull, hbest⟩ := hleft i hi a hai
      exact rank_take_of_many (subperm_flatMap hi) hbest hfull

end TopOf

end Ranking
