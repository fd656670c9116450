import Docsage.Providers.DemoGenerators
import Mathlib.Analysis.Real.Sqrt

/-! # The norm of a demo vector

The vector is divided by its norm, or by one where the norm is zero. A component is
zero when its 53 bits are the midpoint, and no generator draws that twice running, so
in exact arithmetic the norm of the components is positive for all seeds.
-/

namespace Docsage
open Contract

def dimensions : ℕ := 1536

def fractionScale : ℚ := 1 / 2 ^ 53

/-- The components of `embed_text` before they are normalised: `fraction - 0.5`. -/
def values (seed0 seed1 : ℕ) : List ℚ :=
  (draws seed0 seed1 dimensions).map fun bits : ℕ => bits * fractionScale - 1 / 2

/-- The components of `ComputeVector` before they are normalised. -/
def DotNet.values (seed0 seed1 : UInt64) : List ℚ :=
  (DotNet.draws seed0 seed1 dimensions).map fun bits : UInt64 =>
    bits.toNat * fractionScale - 1 / 2

/-- `math.sqrt(math.fsum(v * v for v in values))`, exactly. -/
noncomputable def normOf (values : List ℚ) : ℝ := Real.sqrt ((values.map fun v => v * v).sum : ℚ)

open Classical in
noncomputable def divisor (values : List ℚ) : ℝ := if normOf values = 0 then 1 else normOf values

def midpoint : ℕ := 2 ^ 52

def unmultiplier : ℕ := 0x59071D96D81ECD35

theorem value_eq_zero_iff (bits : ℕ) : bits * fractionScale - 1 / 2 = 0 ↔ bits = midpoint := by
  have hscale : (midpoint : ℚ) * fractionScale = 1 / 2 := by norm_num [midpoint, fractionScale]
  rw [sub_eq_zero, ← hscale, mul_left_inj' (by norm_num [fractionScale]), Nat.cast_inj]

theorem state_of_output {state : ℕ} (h : state < 2 ^ 64) :
    output state * unmultiplier % 2 ^ 64 = state := by
  have hinverse : 0x2545F4914F6CDD1D * unmultiplier % 2 ^ 64 = 1 := by decide
  rw [output, Nat.mod_mul_mod, Nat.mul_assoc, ← Nat.mul_mod_mod, hinverse, Nat.mul_one,
    Nat.mod_eq_of_lt h]

/-- Behind the midpoint there are eleven more bits. None of the states they leave is followed by
another one that draws the midpoint. -/
theorem midpoint_once {low : ℕ} (h : low < 2 ^ 11) :
    output (step ((midpoint * 2 ^ 11 + low) * unmultiplier % 2 ^ 64)) / 2 ^ 11 ≠ midpoint := by
  have hall : ((List.range (2 ^ 11)).all fun low =>
      output (step ((midpoint * 2 ^ 11 + low) * unmultiplier % 2 ^ 64)) / 2 ^ 11 != midpoint) =
        true := by
    decide +kernel
  simpa using List.all_eq_true.mp hall low (List.mem_range.mpr h)

/-- No generator draws the midpoint twice running. -/
theorem midpoint_not_twice {state : ℕ} (h : output (step state) / 2 ^ 11 = midpoint) :
    output (step (step state)) / 2 ^ 11 ≠ midpoint := by
  have houtput : output (step state) = midpoint * 2 ^ 11 + output (step state) % 2 ^ 11 := by
    rw [← h, Nat.mul_comm]
    exact (Nat.div_add_mod _ _).symm
  have hstate := state_of_output (step_lt state)
  rw [houtput] at hstate
  rw [← hstate]
  exact midpoint_once (Nat.mod_lt _ (by decide))

theorem normOf_pos {values : List ℚ} (h : ∃ v ∈ values, v ≠ 0) : 0 < normOf values := by
  obtain ⟨v, hv, hne⟩ := h
  have hnonneg : ∀ x ∈ values.map fun v => v * v, 0 ≤ x :=
    List.forall_mem_map.mpr fun v _ => mul_self_nonneg v
  have hle : v * v ≤ (values.map fun v => v * v).sum :=
    List.single_le_sum hnonneg _ (List.mem_map_of_mem hv)
  have hpos : 0 < (values.map fun v => v * v).sum := lt_of_lt_of_le (mul_self_pos.mpr hne) hle
  exact Real.sqrt_pos.mpr (by exact_mod_cast hpos)

theorem DotNet.values_eq (seed0 seed1 : UInt64) :
    DotNet.values seed0 seed1 = Docsage.values seed0.toNat seed1.toNat := by
  rw [DotNet.values, Docsage.values, draws_toNat, List.map_map]
  rfl

theorem mem_draws {seed0 seed1 n i : ℕ} (h0 : seed0 < 2 ^ 64) (h1 : seed1 < 2 ^ 64) (hi : i < n) :
    component seed0 seed1 i ∈ draws seed0 seed1 n := by
  rw [draws_contract h0 h1]
  exact List.mem_map_of_mem (List.mem_range.mpr hi)

theorem mem_values {seed0 seed1 bits : ℕ} (h : bits ∈ draws seed0 seed1 dimensions) :
    (bits : ℚ) * fractionScale - 1 / 2 ∈ values seed0 seed1 :=
  List.mem_map.mpr ⟨bits, h, rfl⟩

/-- Of the components 0 and 2, which the first generator draws, one is not zero. -/
theorem exists_value_ne_zero {seed0 seed1 : ℕ} (h0 : seed0 < 2 ^ 64) (h1 : seed1 < 2 ^ 64) :
    ∃ v ∈ values seed0 seed1, v ≠ 0 := by
  have hfirst : component seed0 seed1 0 = output (step seed0) / 2 ^ 11 := rfl
  have hsecond : component seed0 seed1 2 = output (step (step seed0)) / 2 ^ 11 := rfl
  by_cases hmid : output (step seed0) / 2 ^ 11 = midpoint
  · refine ⟨_, mem_values (mem_draws (i := 2) h0 h1 (by decide)), (value_eq_zero_iff _).not.mpr ?_⟩
    rw [hsecond]
    exact midpoint_not_twice hmid
  · refine ⟨_, mem_values (mem_draws (i := 0) h0 h1 (by decide)), (value_eq_zero_iff _).not.mpr ?_⟩
    rwa [hfirst]

/-- For all seeds a component is not zero, so the components are divided by their norm. -/
theorem guard_unreachable (seed0 seed1 : UInt64) :
    (∃ v ∈ values seed0.toNat seed1.toNat, v ≠ 0) ∧ 0 < normOf (values seed0.toNat seed1.toNat) ∧
      divisor (values seed0.toNat seed1.toNat) = normOf (values seed0.toNat seed1.toNat) := by
  have hvalue := exists_value_ne_zero seed0.toNat_lt seed1.toNat_lt
  have hpos := normOf_pos hvalue
  exact ⟨hvalue, hpos, if_neg hpos.ne'⟩

end Docsage
