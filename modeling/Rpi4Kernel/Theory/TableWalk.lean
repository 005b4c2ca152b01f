/-
Module: Rpi4Kernel.Theory.TableWalk
Layer: Theory
Purpose: The translation of 48-bit virtual addresses through tables of 512 descriptors with pages of 4
  KB, as the AArch64 memory management unit walks them: three levels of tables that lead on or, below
  the first, hold blocks, and a last one of pages.
Trusted boundary: permissions and the access flag are not looked at.
Main exports: field, Translation, walk, walk_table, walk_block, walk_invalid
-/
import Rpi4Kernel.Theory.WordMemory

namespace Rpi4Kernel.Theory

/-- `len` bits of a word from bit `lo` on. -/
def field (d : BitVec 64) (lo len : Nat) : Nat := (d.extractLsb' lo len).toNat

theorem field_eq (d : BitVec 64) (lo len : Nat) : field d lo len = d.toNat / 2 ^ lo % 2 ^ len := by
  rw [field, BitVec.extractLsb'_toNat, Nat.shiftRight_eq_div_pow]

/-- What a virtual address is translated to: the physical address and the memory attribute. -/
structure Translation where
  address : Nat
  memAttr : Nat
deriving DecidableEq, Repr

/-- The translation by a descriptor of a block or page of `2 ^ shift` bytes. The attribute is the byte
    of `mair` that the descriptor selects. -/
def leaf (mair d va : BitVec 64) (shift : Nat) : Translation where
  address := field d shift (48 - shift) * 2 ^ shift + field va 0 shift
  memAttr := field mair (8 * field d 2 3) 8

/-- The walk through `levels` levels of tables from `table` on. -/
def walk (mem : BitVec 64 → BitVec 64) (mair va : BitVec 64) :
    (levels : Nat) → (table : BitVec 64) → Option Translation
  | 0, _ => none
  | n + 1, table =>
    let d := mem (slot table (field va (12 + 9 * n) 9))
    if field d 0 1 = 0 then none
    else if n = 0 then if field d 1 1 = 1 then some (leaf mair d va 12) else none
    else if field d 1 1 = 1 then walk mem mair va n (BitVec.ofNat 64 (field d 12 36 * 2 ^ 12))
    else if n ≤ 2 then some (leaf mair d va (12 + 9 * n))
    else none

variable {mem : BitVec 64 → BitVec 64} {mair va table : BitVec 64} {n : Nat}

/-- The walk goes on through a descriptor of a table. -/
theorem walk_table {next : BitVec 64} (hmem : mem (slot table (field va (12 + 9 * n) 9)) = next ||| 3)
    (haligned : next.toNat % 2 ^ 12 = 0) (hfits : next.toNat < 2 ^ 48) (hn : n ≠ 0) :
    walk mem mair va (n + 1) table = walk mem mair va n next := by
  have hor : (next ||| 3).toNat = next.toNat + 3 := by
    have hshift := Nat.two_pow_add_eq_or_of_lt (i := 12) (b := 3) (by norm_num) (next.toNat / 2 ^ 12)
    rw [Nat.mul_div_cancel' (Nat.dvd_of_mod_eq_zero haligned)] at hshift
    rw [BitVec.toNat_or, hshift]
    rfl
  have hvalid : field (next ||| 3) 0 1 ≠ 0 := by
    rw [field_eq, hor]
    omega
  have hkind : field (next ||| 3) 1 1 = 1 := by
    rw [field_eq, hor]
    omega
  have hnext : BitVec.ofNat 64 (field (next ||| 3) 12 36 * 2 ^ 12) = next := by
    apply BitVec.eq_of_toNat_eq
    rw [BitVec.toNat_ofNat, field_eq, hor]
    omega
  rw [walk]
  simp only [hmem]
  rw [if_neg hvalid, if_neg hn, if_pos hkind, hnext]

/-- The walk ends at a descriptor that is not valid. -/
theorem walk_invalid (hmem : mem (slot table (field va (12 + 9 * n) 9)) = 0) :
    walk mem mair va (n + 1) table = none := by
  rw [walk]
  simp only [hmem]
  rw [if_pos (by rfl)]

/-- The walk ends at a block of 2 MB. -/
theorem walk_block {d : BitVec 64} (hmem : mem (slot table (field va 21 9)) = d)
    (hvalid : d.toNat % 4 = 1) : walk mem mair va 2 table = some (leaf mair d va 21) := by
  rw [walk]
  simp only [hmem]
  rw [if_neg (by rw [field_eq]; omega), if_neg (by norm_num), if_neg (by rw [field_eq]; omega),
    if_pos (by norm_num)]

end Rpi4Kernel.Theory
