/-
Module: Rpi4Kernel.Proofs.SizeClassesSpec
Layer: Proofs
Purpose: The numbers under the buddy allocator fit tightly on the whole 64-bit range: the highest set
  bit, the least power of two above a value, and the size class of a request in every arena of up to
  `2 ^ 62` bytes, which lies at a depth of the tree and is the least power of two that serves the
  request.
Trusted boundary: none (fully proved)
Main exports: HighestSetBit, PowersAtLeast, highestBitPosition_highestSetBit,
  ceilingPowerOfTwo_isLeast, depthForSize_isLeast, sizeClasses_fit
-/
import Mathlib.Order.Bounds.Basic
import Rpi4Kernel.Proofs.BuddyInitSpec

namespace Rpi4Kernel.Mem

/-- `pos` is the 1-based position of the highest set bit of `v`, and 0 when no bit is set. -/
def HighestSetBit (v pos : Nat) : Prop :=
  (v = 0 ∧ pos = 0) ∨
    (0 < pos ∧ v.testBit (pos - 1) = true ∧ ∀ i, pos ≤ i → v.testBit i = false)

/-- The powers of two that are at least `low`. -/
def PowersAtLeast (low : Nat) : Set Nat := {p | (∃ k, p = 2 ^ k) ∧ low ≤ p}

/-- The bit length of a number is the position of its highest set bit. -/
theorem size_highestSetBit (v : Nat) : HighestSetBit v v.size := by
  cases hv : v.size with
  | zero => exact Or.inl ⟨Nat.size_eq_zero.mp hv, rfl⟩
  | succ n =>
      have hlow : 2 ^ n ≤ v := Nat.lt_size.mp (by omega)
      have hhigh : v < 2 ^ (n + 1) := Nat.size_le.mp (by omega)
      right
      constructor
      · exact Nat.succ_pos n
      constructor
      · exact Nat.testBit_of_two_pow_le_and_two_pow_add_one_gt hlow hhigh
      · intro i hi
        apply Nat.testBit_lt_two_pow
        exact lt_of_lt_of_le hhigh (Nat.pow_le_pow_right (by norm_num) hi)

theorem highestBitPosition_highestSetBit {v : Nat} (h : v < 2 ^ 64) :
    HighestSetBit v (highestBitPosition v) := by
  rw [highestBitPosition_eq_size h]
  exact size_highestSetBit v

/-- `2 ^ Nat.clog 2 low` is the least power of two from `low` on. -/
theorem two_pow_clog_isLeast (low : Nat) : IsLeast (PowersAtLeast low) (2 ^ Nat.clog 2 low) := by
  constructor
  · exact ⟨⟨_, rfl⟩, Nat.le_pow_clog (by norm_num) low⟩
  · rintro p ⟨⟨k, rfl⟩, hle⟩
    apply Nat.pow_le_pow_right (by norm_num)
    exact (Nat.clog_le_iff_le_pow (by norm_num)).mpr hle

theorem ceilingPowerOfTwo_isLeast {v : Nat} (hpos : 1 ≤ v) (hle : v ≤ 2 ^ 63) :
    IsLeast (PowersAtLeast v) (ceilingPowerOfTwo v) := by
  rw [ceilingPowerOfTwo_eq hpos hle]
  exact two_pow_clog_isLeast v

/-- `depth_for_size` ends at a depth of the tree, and the blocks of that depth are the smallest that
    serve the request. -/
theorem depthForSize_isLeast {buddy : Buddy} {size : Nat} (halign : buddyAllocAlign ∣ buddy.memorySize)
    (hle : buddy.memorySize ≤ 2 ^ 62) (hpos : 1 ≤ size) (hfits : size ≤ buddy.memorySize) :
    ∃ depth, depthForSize buddy size = some depth ∧ 1 ≤ depth ∧
      depth ≤ buddyTreeOrderForMemory buddy.memorySize ∧
      IsLeast (PowersAtLeast (max buddyAllocAlign size)) (sizeForDepth buddy depth) := by
  obtain ⟨b, hsize⟩ := halign
  have hsize : buddy.memorySize = 64 * b := hsize
  have hblocks : buddy.memorySize / 64 = b := by omega
  have hb : 0 < b := by omega
  have horder : buddyTreeOrderForMemory buddy.memorySize = arenaOrder b := by
    rw [buddyTreeOrderForMemory_eq (by omega) (by omega), hblocks]
  have hserved : size ≤ 64 * b := hsize ▸ hfits
  have hword : 64 * b ≤ 2 ^ 63 := by omega
  obtain ⟨hdepth, hdepth', hclass⟩ := depthOf_spec hb hserved
  refine ⟨depthOf (arenaOrder b) size, depthForSize_blocks hb hword hsize hserved, hdepth, ?_, ?_⟩
  · rw [horder]
    exact hdepth'
  · rw [sizeForDepth_blocks hb hword hsize hdepth hdepth', ← hclass]
    exact two_pow_clog_isLeast _

/-- Size classes fit tightly. -/
theorem sizeClasses_fit :
    (∀ v, v < 2 ^ 64 → HighestSetBit v (highestBitPosition v)) ∧
      (∀ v, 1 ≤ v → v ≤ 2 ^ 63 → IsLeast (PowersAtLeast v) (ceilingPowerOfTwo v)) ∧
      ∀ (buddy : Buddy) (size : Nat), buddyAllocAlign ∣ buddy.memorySize →
        buddy.memorySize ≤ 2 ^ 62 → 1 ≤ size → size ≤ buddy.memorySize →
        ∃ depth, depthForSize buddy size = some depth ∧ 1 ≤ depth ∧
          depth ≤ buddyTreeOrderForMemory buddy.memorySize ∧
          IsLeast (PowersAtLeast (max buddyAllocAlign size)) (sizeForDepth buddy depth) := by
  constructor
  · intro v hv
    exact highestBitPosition_highestSetBit hv
  constructor
  · intro v hpos hle
    exact ceilingPowerOfTwo_isLeast hpos hle
  · intro buddy size halign hle hpos hfits
    exact depthForSize_isLeast halign hle hpos hfits

/-- A request of 65 bytes from an arena of three blocks gets a block of 128 bytes at depth 2. -/
theorem sizeClasses_fit_three_blocks :
    HighestSetBit 5 (highestBitPosition 5) ∧ IsLeast (PowersAtLeast 5) (ceilingPowerOfTwo 5) ∧
      ∃ depth, depthForSize (freshBuddy 8 16 192) 65 = some depth ∧ 1 ≤ depth ∧
        depth ≤ buddyTreeOrderForMemory 192 ∧
        IsLeast (PowersAtLeast (max buddyAllocAlign 65))
        (sizeForDepth (freshBuddy 8 16 192) depth) := by
  constructor
  · exact sizeClasses_fit.1 5 (by decide)
  constructor
  · exact sizeClasses_fit.2.1 5 (by decide) (by decide)
  · exact sizeClasses_fit.2.2 (freshBuddy 8 16 192) 65 ⟨3, rfl⟩ (by decide +kernel) (by decide)
      (by decide)

end Rpi4Kernel.Mem
