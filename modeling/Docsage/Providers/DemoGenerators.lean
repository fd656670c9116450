import Docsage.Library.Alternation
import Mathlib.Data.Nat.Bitwise

/-! # The generators of the demo vectors

FastAPI computes with unbounded integers that it masks here and there, .NET with words
that wrap around at every operation. Both draw the values of the contract's appendix.
-/

namespace Docsage
open Alternation

def mask64 : ℕ := (1 <<< 64) - 1
def multiplier : ℕ := 0x2545F4914F6CDD1D

structure Xorshift64Star where
  state : ℕ

namespace Xorshift64Star

def init (seed : ℕ) : Xorshift64Star := { state := seed &&& mask64 }

def next (gen : Xorshift64Star) : ℕ × Xorshift64Star :=
  let state := gen.state
  let state := state ^^^ (state >>> 12)
  let state := (state ^^^ ((state <<< 25) &&& mask64)) &&& mask64
  let state := state ^^^ (state >>> 27)
  ((state * multiplier) &&& mask64, { state })

end Xorshift64Star

/-- The values `gen.next() >> 11` of the loop of `embed_text`. -/
def draws (seed0 seed1 n : ℕ) : List ℕ :=
  (draw Xorshift64Star.next (fun i => i % 2 = 0) (.init seed0) (.init seed1) 0 n).map (· >>> 11)

namespace DotNet

def multiplier : UInt64 := 0x2545F4914F6CDD1D

structure Xorshift64Star where
  state : UInt64

def Xorshift64Star.next (gen : Xorshift64Star) : UInt64 × Xorshift64Star :=
  let state := gen.state
  let state := state ^^^ (state >>> 12)
  let state := state ^^^ (state <<< 25)
  let state := state ^^^ (state >>> 27)
  (state * multiplier, { state })

/-- The values `output >> 11` of the loop of `ComputeVector`. -/
def draws (seed0 seed1 : UInt64) (n : ℕ) : List UInt64 :=
  (draw Xorshift64Star.next (fun i => i &&& 1 = 0) ⟨seed0⟩ ⟨seed1⟩ 0 n).map
    fun output : UInt64 => output >>> 11

end DotNet

namespace Contract

/-- The recurrence of `next(state)`, modulo 2^64. -/
def step (state : ℕ) : ℕ :=
  let state := state ^^^ (state / 2 ^ 12)
  let state := (state ^^^ (state * 2 ^ 25)) % 2 ^ 64
  state ^^^ (state / 2 ^ 27)

/-- What `next(state)` returns, from the state that it leaves. -/
def output (state : ℕ) : ℕ := state * 0x2545F4914F6CDD1D % 2 ^ 64

/-- The 53 bits of the component `i`: generator A when `i` is even, B when odd. -/
def component (seed0 seed1 i : ℕ) : ℕ :=
  output (step^[i / 2 + 1] (if i % 2 = 0 then seed0 else seed1)) / 2 ^ 11

theorem step_lt (state : ℕ) : step state < 2 ^ 64 :=
  Nat.xor_lt_two_pow (Nat.mod_lt _ (by decide))
    (lt_of_le_of_lt (Nat.div_le_self _ _) (Nat.mod_lt _ (by decide)))

end Contract

theorem and_mask64 (n : ℕ) : n &&& mask64 = n % 2 ^ 64 := Nat.and_two_pow_sub_one_eq_mod n 64

theorem next_contract (state : ℕ) : Xorshift64Star.next ⟨state⟩ =
    (Contract.output (Contract.step state), ⟨Contract.step state⟩) := by
  have hstep : (Xorshift64Star.next ⟨state⟩).2.state = Contract.step state := by
    simp only [Xorshift64Star.next, Contract.step, and_mask64, Nat.shiftRight_eq_div_pow,
      Nat.shiftLeft_eq, Nat.xor_mod_two_pow, Nat.mod_mod]
  have houtput : (Xorshift64Star.next ⟨state⟩).1 =
      Contract.output (Xorshift64Star.next ⟨state⟩).2.state := and_mask64 _
  rw [← hstep, ← houtput]

theorem toNat_xor_shiftLeft (word : UInt64) :
    (word ^^^ (word <<< 25)).toNat = (word.toNat ^^^ (word.toNat * 2 ^ 25)) % 2 ^ 64 := by
  rw [Nat.xor_mod_two_pow, Nat.mod_eq_of_lt word.toNat_lt, UInt64.toNat_xor,
    UInt64.toNat_shiftLeft, Nat.shiftLeft_eq]
  rfl

theorem next_toNat (gen : DotNet.Xorshift64Star) :
    Xorshift64Star.next ⟨gen.state.toNat⟩ =
      Prod.map UInt64.toNat (fun gen => ⟨gen.state.toNat⟩) gen.next := by
  have hright (word : UInt64) :
      (word ^^^ (word >>> 12)).toNat = word.toNat ^^^ (word.toNat / 2 ^ 12) ∧
        (word ^^^ (word >>> 27)).toNat = word.toNat ^^^ (word.toNat / 2 ^ 27) := by
    simp only [UInt64.toNat_xor, UInt64.toNat_shiftRight, Nat.shiftRight_eq_div_pow]
    exact ⟨rfl, rfl⟩
  have hstep : Contract.step gen.state.toNat = gen.next.2.state.toNat := by
    simp only [DotNet.Xorshift64Star.next, Contract.step, hright, toNat_xor_shiftLeft]
  have houtput : Contract.output gen.next.2.state.toNat = gen.next.1.toNat :=
    (UInt64.toNat_mul gen.next.2.state DotNet.multiplier).symm
  rw [next_contract, hstep, houtput]
  rfl

theorem iterate_next (state k : ℕ) :
    (fun gen => (Xorshift64Star.next gen).2)^[k] ⟨state⟩ = ⟨Contract.step^[k] state⟩ := by
  induction k with
  | zero => rfl
  | succ k ih => rw [Function.iterate_succ_apply', ih, next_contract, Function.iterate_succ_apply']

theorem init_of_lt {seed : ℕ} (h : seed < 2 ^ 64) : Xorshift64Star.init seed = ⟨seed⟩ := by
  rw [Xorshift64Star.init, and_mask64, Nat.mod_eq_of_lt h]

theorem even_iff (i : ℕ) : decide (i &&& 1 = 0) = decide (i % 2 = 0) := by
  rw [Nat.and_one_is_mod]

theorem draws_contract {seed0 seed1 : ℕ} (h0 : seed0 < 2 ^ 64) (h1 : seed1 < 2 ^ 64) (n : ℕ) :
    draws seed0 seed1 n = (List.range n).map (Contract.component seed0 seed1) := by
  have hdraw : draw Xorshift64Star.next (fun i => i % 2 = 0) ⟨seed0⟩ ⟨seed1⟩ 0 n =
      (List.range' 0 n).map fun j => (Xorshift64Star.next
        ((fun gen => (Xorshift64Star.next gen).2)^[j / 2]
          (if j % 2 = 0 then ⟨seed0⟩ else ⟨seed1⟩))).1 :=
    draw_eq Xorshift64Star.next (fun _ => rfl) ⟨seed0⟩ ⟨seed1⟩ 0 n
  rw [draws, init_of_lt h0, init_of_lt h1, hdraw, List.map_map, List.range_eq_range']
  refine List.map_congr_left fun i _ => ?_
  rw [Function.comp_apply, Contract.component, Function.iterate_succ_apply',
    Nat.shiftRight_eq_div_pow]
  split_ifs <;> rw [iterate_next, next_contract]

theorem draws_toNat (seed0 seed1 : UInt64) (n : ℕ) :
    draws seed0.toNat seed1.toNat n = (DotNet.draws seed0 seed1 n).map UInt64.toNat := by
  have hdraw := draw_map next_toNat (fun i => (even_iff i).symm) ⟨seed0⟩ ⟨seed1⟩ 0 n
  rw [draws, init_of_lt seed0.toNat_lt, init_of_lt seed1.toNat_lt, hdraw, DotNet.draws,
    List.map_map, List.map_map]
  exact List.map_congr_left fun output _ => (UInt64.toNat_shiftRight output 11).symm

/-- Both implementations draw the values of the appendix. -/
theorem draws_agree (seed0 seed1 : UInt64) (n : ℕ) :
    draws seed0.toNat seed1.toNat n = (DotNet.draws seed0 seed1 n).map UInt64.toNat ∧
      draws seed0.toNat seed1.toNat n =
        (List.range n).map (Contract.component seed0.toNat seed1.toNat) :=
  ⟨draws_toNat seed0 seed1 n, draws_contract seed0.toNat_lt seed1.toNat_lt n⟩

end Docsage
