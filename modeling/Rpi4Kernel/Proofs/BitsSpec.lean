/-
Module: Rpi4Kernel.Proofs.BitsSpec
Layer: Proofs
Purpose: The highest set bit and the next power of two as the branch-free C code computes them are
  `Nat.size` and `2 ^ Nat.clog 2 v` on the whole 64-bit range.
Trusted boundary: none (fully proved)
Main exports: highestBitPosition_eq_size, ceilingPowerOfTwo_eq
-/
import Rpi4Kernel.Mem.Bits

namespace Rpi4Kernel.Mem

/-- Dropping `c` low bits of a number with at least `c` significant bits costs exactly `c` bits. -/
theorem size_eq_size_shiftRight_add {v c : Nat} (h : 2 ^ c ≤ v + 1) :
    v.size = (v >>> c).size + c := by
  apply eq_of_forall_ge_iff
  intro k
  rw [Nat.size_le, Nat.shiftRight_eq_div_pow]
  by_cases hk : c ≤ k
  · obtain ⟨d, rfl⟩ := Nat.exists_eq_add_of_le hk
    rw [Nat.add_comm c d, Nat.add_le_add_iff_right, Nat.size_le,
      Nat.div_lt_iff_lt_mul (by positivity), Nat.pow_add]
  · have hpow : 2 ^ (k + 1) ≤ 2 ^ c := Nat.pow_le_pow_right (by omega) (by omega)
    rw [Nat.pow_succ] at hpow
    have hpos : 0 < 2 ^ k := by positivity
    constructor <;> intro <;> omega

/-- A step of the loop keeps the sum of the bits counted and the bits left. -/
theorem highestBitStep_size {state row : Nat × Nat} (h : 2 ^ row.2 ≤ row.1 + 1) :
    (highestBitStep state row).2 + (highestBitStep state row).1.size = state.2 + state.1.size := by
  unfold highestBitStep
  split
  · rename_i hle
    rw [size_eq_size_shiftRight_add (v := state.1) (c := row.2) (by omega)]
    simp only
    omega
  · rfl

/-- A step of the loop leaves a value below `bound` when a shifted one is. -/
theorem highestBitStep_lt (state row : Nat × Nat) (bound : Nat) (hrow : row.1 ≤ bound)
    (hshift : state.1 < bound * 2 ^ row.2) : (highestBitStep state row).1 < bound := by
  unfold highestBitStep
  split
  · rw [Nat.shiftRight_eq_div_pow]
    exact Nat.div_lt_of_lt_mul (by rwa [Nat.mul_comm])
  · omega

theorem foldl_highestBitStep_size (rows : List (Nat × Nat))
    (h : ∀ row ∈ rows, 2 ^ row.2 ≤ row.1 + 1) (state : Nat × Nat) :
    (rows.foldl highestBitStep state).2 + (rows.foldl highestBitStep state).1.size =
      state.2 + state.1.size := by
  induction rows generalizing state with
  | nil => rfl
  | cons row rows ih =>
      simp only [List.foldl_cons]
      rw [ih (fun r hr => h r (List.mem_cons_of_mem _ hr)),
        highestBitStep_size (h row List.mem_cons_self)]

/-- After the seven steps at most one bit is left. -/
theorem foldl_highestBitSteps_le_one {value : Nat} (h : value < 2 ^ 64) :
    (highestBitSteps.foldl highestBitStep (value, 0)).1 ≤ 1 := by
  simp only [highestBitSteps, List.foldl_cons, List.foldl_nil]
  have h1 := highestBitStep_lt (value, 0) (4294967295, 32) (2 ^ 32)
    (by norm_num) (by simpa using h)
  generalize highestBitStep (value, 0) (4294967295, 32) = s1 at h1 ⊢
  have h2 := highestBitStep_lt s1 (65535, 16) (2 ^ 16)
    (by norm_num) (by omega)
  generalize highestBitStep s1 (65535, 16) = s2 at h2 ⊢
  have h3 := highestBitStep_lt s2 (255, 8) (2 ^ 8)
    (by norm_num) (by omega)
  generalize highestBitStep s2 (255, 8) = s3 at h3 ⊢
  have h4 := highestBitStep_lt s3 (15, 4) (2 ^ 4)
    (by norm_num) (by omega)
  generalize highestBitStep s3 (15, 4) = s4 at h4 ⊢
  have h5 := highestBitStep_lt s4 (7, 2) 7
    (by norm_num) (by norm_num; omega)
  generalize highestBitStep s4 (7, 2) = s5 at h5 ⊢
  have h6 := highestBitStep_lt s5 (3, 1) 4
    (by norm_num) (by norm_num; omega)
  generalize highestBitStep s5 (3, 1) = s6 at h6 ⊢
  have h7 := highestBitStep_lt s6 (1, 1) 2
    (by norm_num) (by omega)
  omega

/-- `highest_bit_position` is the bit length of every 64-bit value. -/
theorem highestBitPosition_eq_size {value : Nat} (h : value < 2 ^ 64) :
    highestBitPosition value = value.size := by
  have hsize := foldl_highestBitStep_size highestBitSteps (by decide) (value, 0)
  have hle := foldl_highestBitSteps_le_one h
  simp only [highestBitPosition]
  generalize highestBitSteps.foldl highestBitStep (value, 0) = final at hsize hle ⊢
  -- a value of at most one bit is its own bit length
  have hself : final.1.size = final.1 := by
    interval_cases final.1 <;> simp
  rw [hself] at hsize
  simpa using hsize

/-- Up to `2 ^ 63` the sum `value + value - 1` does not wrap around. -/
theorem double_sub_one_mod {value : Nat} (hpos : 0 < value) (hle : value ≤ 2 ^ 63) :
    (value + value + (sizeMax - 1)) % sizeMax = 2 * value - 1 := by
  unfold sizeMax
  rw [show value + value + (2 ^ 64 - 1) = (2 * value - 1) + 2 ^ 64 by omega,
    Nat.add_mod_right, Nat.mod_eq_of_lt (by omega)]

theorem ceilingPowerOfTwo_of_ne_zero {value : Nat} (h : value ≠ 0) :
    ceilingPowerOfTwo value =
      2 ^ (highestBitPosition ((value + value + (sizeMax - 1)) % sizeMax) - 1) := by
  unfold ceilingPowerOfTwo
  rw [if_neg h]

/-- `ceiling_power_of_two` is the least power of two that is at least `value`. -/
theorem ceilingPowerOfTwo_eq {value : Nat} (hpos : 0 < value) (hle : value ≤ 2 ^ 63) :
    ceilingPowerOfTwo value = 2 ^ Nat.clog 2 value := by
  rw [ceilingPowerOfTwo_of_ne_zero hpos.ne', double_sub_one_mod hpos hle,
    highestBitPosition_eq_size (by omega)]
  congr 1
  apply eq_of_forall_ge_iff
  intro k
  rw [Nat.clog_le_iff_le_pow (by norm_num), Nat.sub_le_iff_le_add, Nat.size_le, Nat.pow_succ]
  omega

end Rpi4Kernel.Mem
