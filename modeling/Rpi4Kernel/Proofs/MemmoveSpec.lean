/-
Module: Rpi4Kernel.Proofs.MemmoveSpec
Layer: Proofs
Purpose: What `memmove` does for all positions of the two ranges. It writes nothing outside the
  destination, and copies right when the destination does not start inside the source; a destination
  that does gets a repetition of the first bytes. The blocks that `buddy_realloc` moves lie apart,
  whatever their sizes.
Trusted boundary: none (fully proved)
Main exports: MovedRight, memmove_right_iff, memmove_block
-/
import Rpi4Kernel.Mem.Memmove
import Rpi4Kernel.Proofs.BuddySpec

namespace Rpi4Kernel.Mem

open Rpi4Kernel.Theory Rpi4Kernel.Theory.IndexTree

/-! ### Addresses in a range that does not wrap around -/

theorem byteAt_toNat {p : BitVec 64} {i : Nat} (h : p.toNat + i < 2 ^ 64) :
    (byteAt p i).toNat = p.toNat + i := by
  rw [byteAt, BitVec.toNat_add, BitVec.toNat_ofNat, Nat.add_mod_mod, Nat.mod_eq_of_lt h]

theorem byteAt_eq_iff {p q : BitVec 64} {i j : Nat} (hp : p.toNat + i < 2 ^ 64)
    (hq : q.toNat + j < 2 ^ 64) : byteAt p i = byteAt q j ↔ p.toNat + i = q.toNat + j := by
  rw [← BitVec.toNat_inj, byteAt_toNat hp, byteAt_toNat hq]

theorem byteAt_injectiveBelow {p : BitVec 64} {n : Nat} (h : p.toNat + n ≤ 2 ^ 64) :
    InjectiveBelow (byteAt p) n := by
  intro i hi j hj heq
  rw [byteAt_eq_iff (by omega) (by omega)] at heq
  omega

/-! ### `memmove` -/

/-- The `n` bytes at `dest` are those that were at `src`, and no other byte has changed. -/
structure MovedRight (mem mem' : ByteMemory) (dest src n : BitVec 64) : Prop where
  copied : ∀ i < n.toNat, mem' (byteAt dest i) = mem (byteAt src i)
  frame : ∀ a, (∀ i < n.toNat, byteAt dest i ≠ a) → mem' a = mem a

section

variable {mem : ByteMemory} {dest src n : BitVec 64}

/-- `memmove` never writes outside its destination. -/
theorem memmove_frame {a : BitVec 64} (h : ∀ i < n.toNat, byteAt dest i ≠ a) :
    memmove mem dest src n a = mem a :=
  copyForward_frame h

/-- A destination at or before the source: every byte is read before its place is written. -/
theorem memmove_of_le (hdest : dest.toNat + n.toNat ≤ 2 ^ 64) (hsrc : src.toNat + n.toNat ≤ 2 ^ 64)
    (hle : dest.toNat ≤ src.toNat) : MovedRight mem (memmove mem dest src n) dest src n where
  copied := by
    intro i hi
    apply copyForward_of_unhit (byteAt_injectiveBelow hdest) hi
    intro j hj heq
    rw [byteAt_eq_iff (by omega) (by omega)] at heq
    omega
  frame := fun _ => memmove_frame

/-- A destination behind the start of the source: the copy is right when the source repeats with the
    distance between the two as its period, and only then. -/
theorem memmove_copied_iff_of_lt (hdest : dest.toNat + n.toNat ≤ 2 ^ 64)
    (hlt : src.toNat < dest.toNat) :
    (∀ i < n.toNat, memmove mem dest src n (byteAt dest i) = mem (byteAt src i)) ↔
      ∀ i < n.toNat, dest.toNat - src.toNat ≤ i →
        mem (byteAt src i) = mem (byteAt src (i - (dest.toNat - src.toNat))) := by
  apply copyForward_shifted_right_iff (byteAt_injectiveBelow hdest)
  case hshift =>
    intro j hj hle
    rw [byteAt_eq_iff (by omega) (by omega)]
    omega
  case hd => exact Nat.sub_pos_of_lt hlt
  case hfresh =>
    intro i hi hid j hj heq
    rw [byteAt_eq_iff (by omega) (by omega)] at heq
    omega

/-- Two ranges that do not overlap. -/
theorem memmove_of_apart (hdest : dest.toNat + n.toNat ≤ 2 ^ 64)
    (hapart : src.toNat + n.toNat ≤ dest.toNat) :
    MovedRight mem (memmove mem dest src n) dest src n where
  copied := by
    rcases Nat.lt_or_ge src.toNat dest.toNat with hlt | hle
    · rw [memmove_copied_iff_of_lt hdest hlt]
      intro i hi hle
      omega
    · exact (memmove_of_le hdest (hapart.trans (by omega)) hle).copied
  frame := fun _ => memmove_frame

/-- `memmove` does what its name says exactly when the destination does not start behind the start of
    the source, or the source repeats with the distance between the two as its period (as it does
    where the ranges do not overlap). -/
theorem memmove_right_iff (hdest : dest.toNat + n.toNat ≤ 2 ^ 64)
    (hsrc : src.toNat + n.toNat ≤ 2 ^ 64) :
    MovedRight mem (memmove mem dest src n) dest src n ↔
      (src.toNat < dest.toNat → ∀ i < n.toNat, dest.toNat - src.toNat ≤ i →
        mem (byteAt src i) = mem (byteAt src (i - (dest.toNat - src.toNat)))) := by
  constructor
  · intro h hlt
    exact (memmove_copied_iff_of_lt hdest hlt).mp h.copied
  · intro h
    rcases Nat.lt_or_ge src.toNat dest.toNat with hlt | hle
    · exact ⟨(memmove_copied_iff_of_lt hdest hlt).mpr (h hlt), fun _ => memmove_frame⟩
    · exact memmove_of_le hdest hsrc hle

end

/-- The bytes 16, 17, 18, .. at the addresses 16, 17, 18, ... -/
def countingMemory : ByteMemory := BitVec.setWidth 8

/-- Moving two bytes one place up is wrong in a memory where they differ: their period is not 1. -/
theorem memmove_right_iff_one_up :
    MovedRight countingMemory (memmove countingMemory 17 16 2) 17 16 2 ↔
      ((16 : BitVec 64).toNat < (17 : BitVec 64).toNat → ∀ i < (2 : BitVec 64).toNat,
        (17 : BitVec 64).toNat - (16 : BitVec 64).toNat ≤ i → countingMemory (byteAt 16 i) =
          countingMemory (byteAt 16 (i - ((17 : BitVec 64).toNat - (16 : BitVec 64).toNat)))) :=
  memmove_right_iff (by decide) (by decide)

/-- It is not true that `memmove` copies right for all ranges that do not wrap around. -/
theorem memmove_wrong_one_up :
    ¬ ∀ (mem : ByteMemory) (dest src n : BitVec 64), dest.toNat + n.toNat ≤ 2 ^ 64 →
      src.toNat + n.toNat ≤ 2 ^ 64 → MovedRight mem (memmove mem dest src n) dest src n := by
  intro h
  have hmoved := (h countingMemory 17 16 2 (by decide) (by decide)).copied 1 (by decide)
  exact absurd hmoved (by decide)

/-! ### The blocks that `buddy_realloc` moves -/

/-- The first slots of two nodes are equal, or at least the slots of the smaller one apart. -/
theorem firstSlot_apart {n i j k : Nat} (hi : i.size ≤ k) (hj : j.size ≤ k) (hk : k ≤ n) :
    firstSlot n j ≤ firstSlot n i ∨ firstSlot n i + 2 ^ (n - k) ≤ firstSlot n j := by
  have hmultiple : ∀ {l : Nat}, l.size ≤ k → ∃ c, firstSlot n l = c * 2 ^ (n - k) := by
    intro l hl
    exists (l - 2 ^ (l.size - 1)) * 2 ^ (k - l.size)
    rw [firstSlot, Nat.mul_assoc, ← Nat.pow_add]
    congr 2
    omega
  obtain ⟨c, hc⟩ := hmultiple hi
  obtain ⟨c', hc'⟩ := hmultiple hj
  rw [hc, hc']
  rcases Nat.lt_or_ge c c' with hlt | hle
  · right
    calc c * 2 ^ (n - k) + 2 ^ (n - k) = (c + 1) * 2 ^ (n - k) := (Nat.succ_mul _ _).symm
      _ ≤ c' * 2 ^ (n - k) := Nat.mul_le_mul_right _ hlt
  · left
    exact Nat.mul_le_mul_right _ hle

/-- The move of a block's content to another position, of as many bytes as the smaller block has, is
    right. -/
theorem memmove_block {s b i j : Nat} {buddy : Buddy} {mem : ByteMemory} {dest src n : BitVec 64}
    (h : ArenaOf s b buddy) (hi : InTree (arenaOrder b) i) (hj : InTree (arenaOrder b) j)
    (hsrc : src.toNat = addressForPosition buddy (positionOf i))
    (hdest : dest.toNat = addressForPosition buddy (positionOf j))
    (hn : n.toNat = sizeForDepth buddy (max (positionOf i).depth (positionOf j).depth))
    (hsrcEnd : src.toNat + n.toNat ≤ 2 ^ 64) (hdestEnd : dest.toNat + n.toNat ≤ 2 ^ 64) :
    MovedRight mem (memmove mem dest src n) dest src n := by
  have hdepth : max i.size j.size ≤ arenaOrder b := max_le hi.size_le hj.size_le
  have hpos : 0 < max i.size j.size := lt_of_lt_of_le hi.size_pos (le_max_left _ _)
  have hslots := @firstSlot_apart (arenaOrder b) i j _ (le_max_left _ _) (le_max_right _ _) hdepth
  rw [addressForPosition_eq h hi] at hsrc
  rw [addressForPosition_eq h hj] at hdest
  have hsize : n.toNat = 64 * 2 ^ (arenaOrder b - max i.size j.size) :=
    hn.trans (h.sizeForDepth_eq hpos hdepth)
  rcases hslots with hle | hapart
  · apply memmove_of_le hdestEnd hsrcEnd
    omega
  · apply memmove_of_apart hdestEnd
    omega

end Rpi4Kernel.Mem
