import Mathlib.Data.List.Range
import Mathlib.Logic.Function.Iterate

/-! # Two generators by turns

Two generators of one kind are drawn from, the one at even indices and the other at
odd ones. A generator that another one simulates gives the same outputs by turns,
and every output is that of an iterate of one of the two states.
-/

namespace Alternation

variable {σ σ' ω ω' : Type*}

/-- The next `n` outputs from the index `i` on. `even` tells whose turn an index is. -/
def draw (next : σ → ω × σ) (even : ℕ → Bool) (a b : σ) (i : ℕ) : ℕ → List ω
  | 0 => []
  | n + 1 =>
    if even i then (next a).1 :: draw next even (next a).2 b (i + 1) n
    else (next b).1 :: draw next even a (next b).2 (i + 1) n

variable {next : σ → ω × σ} {next' : σ' → ω' × σ'} {even even' : ℕ → Bool}

theorem draw_map {f : σ → σ'} {g : ω → ω'} (simulates : ∀ s, next' (f s) = Prod.map g f (next s))
    (same : ∀ i, even' i = even i) (a b : σ) (i n : ℕ) :
    draw next' even' (f a) (f b) i n = (draw next even a b i n).map g := by
  induction n generalizing a b i with
  | zero => rfl
  | succ n ih =>
    rw [draw, draw, same, simulates, simulates]
    simp only [Prod.map_fst, Prod.map_snd, ih]
    split <;> rfl

/-- The generator whose turn it is has been drawn from once for every two indices. -/
theorem draw_eq (next : σ → ω × σ) (parity : ∀ i, even i = decide (i % 2 = 0)) (a b : σ)
    (i n : ℕ) :
    draw next even ((fun s => (next s).2)^[(i + 1) / 2] a) ((fun s => (next s).2)^[i / 2] b) i n =
      (List.range' i n).map fun j =>
        (next ((fun s => (next s).2)^[j / 2] (if j % 2 = 0 then a else b))).1 := by
  induction n generalizing i with
  | zero => rfl
  | succ n ih =>
    have hrest := ih (i + 1)
    rw [draw, parity, List.range'_succ, List.map_cons, ← hrest]
    by_cases h : i % 2 = 0
    · have ha : (i + 1) / 2 = i / 2 := by omega
      have ha' : (i + 1 + 1) / 2 = i / 2 + 1 := by omega
      rw [if_pos (decide_eq_true h), if_pos h, ha, ha', Function.iterate_succ_apply']
    · have hb : (i + 1) / 2 = i / 2 + 1 := by omega
      have hb' : (i + 1 + 1) / 2 = i / 2 + 1 := by omega
      rw [if_neg (by simpa using h), if_neg h, hb, hb', Function.iterate_succ_apply' _ (i / 2) b]

end Alternation
