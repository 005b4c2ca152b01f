/-
Module: Rpi4Kernel.Proofs.StatusCellsSpec
Layer: Proofs
Purpose: The packed statuses of the allocation tree are independent cells. For every bitset that is
  large enough, whatever garbage it holds, a write at one position is read back there and leaves the
  status of every other position as it was.
Trusted boundary: none (fully proved)
Main exports: ValidPosition, treeWithBits, statusCells_independent
-/
import Rpi4Kernel.Proofs.BuddyTreeSpec

namespace Rpi4Kernel.Mem

open Rpi4Kernel.Theory Rpi4Kernel.Theory.IndexTree

/-- A fresh tree of order `n`, with `bits` for its bitset. -/
def treeWithBits (n : Nat) (bits : Bytes) : BuddyTree := { buddyTreeInit n with bits := bits }

/-- A position that `buddy_tree_valid` accepts and whose depth is that of its index. -/
structure ValidPosition (n : Nat) (pos : BuddyTreePos) : Prop where
  valid : buddyTreeValid (buddyTreeInit n) pos = true
  depth_eq : pos.depth = pos.index.size

/-- The height of a position: 1 at the leaves, the order of the tree at the root. -/
def positionHeight (n : Nat) (pos : BuddyTreePos) : Nat := n - pos.depth + 1

namespace ValidPosition

variable {n : Nat} {pos : BuddyTreePos}

theorem inTree (hn : n ≤ 31) (h : ValidPosition n pos) : InTree n pos.index := by
  have hvalid := h.valid
  simp only [buddyTreeValid, buddyTreeInit, shiftedOne_eq (show n < 32 by omega), ne_eq, decide_not,
    Bool.and_eq_true, Bool.not_eq_eq_eq_not, Bool.not_true, decide_eq_false_iff_not,
    decide_eq_true_eq] at hvalid
  exact ⟨Nat.pos_of_ne_zero hvalid.1, hvalid.2⟩

theorem eq_positionOf (h : ValidPosition n pos) : pos = positionOf pos.index := by
  cases pos with
  | mk index depth =>
      obtain rfl : depth = index.size := h.depth_eq
      rfl

theorem height_eq (hn : n ≤ 31) (h : ValidPosition n pos) :
    positionHeight n pos = height n pos.index := by
  have hle := (h.inTree hn).size_le
  have hpos := (h.inTree hn).size_pos
  unfold positionHeight height
  rw [h.depth_eq]
  omega

end ValidPosition

theorem treeOf_treeWithBits {n : Nat} {bits : Bytes} (hpos : 0 < n) (hn : n ≤ 31)
    (hbits : bitsetSizeof (sizeForOrder n 0) ≤ bits.size) : TreeOf n (treeWithBits n bits) := by
  have h := treeOf_buddyTreeInit hpos hn
  have hlarge : sizeForOrder n 0 ≤ 8 * bits.size := by
    simp only [bitsetSizeof, charBit] at hbits
    omega
  exact { h with bits_large := hlarge }

/-- The position of a status, computed with `size_for_order` or looked up in the memoized table. -/
theorem buddyTreeInternalPositionOrder_eq {n i : Nat} (hn : n ≤ 31) (hin : InTree n i) :
    buddyTreeInternalPositionOrder n (positionOf i) = ⟨height n i, location n i⟩ := by
  have hheight : n - i.size + 1 = height n i := by
    have hle := hin.size_le
    have hpos := hin.size_pos
    unfold height
    omega
  simp only [buddyTreeInternalPositionOrder, buddyTreeIndexInternal_positionOf hn hin]
  rw [show (positionOf i).depth = i.size from rfl, hheight]
  rfl

/-- Writing a status at `p` and reading it back gives the status; reading another position gives what it
    gave before. The table of the tree and the loop of `size_for_order` place both alike. -/
theorem statusCells_independent {n value : Nat} {bits : Bytes} {p q : BuddyTreePos} (hn : n ≤ 31)
    (hbits : bitsetSizeof (sizeForOrder n 0) ≤ bits.size) (hp : ValidPosition n p)
    (hq : ValidPosition n q) (hne : p ≠ q) (hvalue : value ≤ positionHeight n p) :
    buddyTreeInternalPositionTree (treeWithBits n bits) p = some (buddyTreeInternalPositionOrder n p) ∧
      buddyTreeInternalPositionTree (treeWithBits n bits) q =
        some (buddyTreeInternalPositionOrder n q) ∧
      ∃ bits', writeToInternalPosition bits (buddyTreeInternalPositionOrder n p) value = some bits' ∧
        readFromInternalPosition bits' (buddyTreeInternalPositionOrder n p) = some value ∧
        ∃ status, readFromInternalPosition bits (buddyTreeInternalPositionOrder n q) = some status ∧
          readFromInternalPosition bits' (buddyTreeInternalPositionOrder n q) = some status := by
  have hpin := hp.inTree hn
  have hqin := hq.inTree hn
  have hindex : q.index ≠ p.index := by
    intro heq
    apply hne
    rw [hp.eq_positionOf, hq.eq_positionOf, heq]
  have horder : 0 < n := lt_of_lt_of_le hpin.size_pos hpin.size_le
  have ht := treeOf_treeWithBits horder hn hbits
  rw [hp.height_eq hn] at hvalue
  rw [hp.eq_positionOf, hq.eq_positionOf, ht.internalPosition hpin, ht.internalPosition hqin,
    buddyTreeInternalPositionOrder_eq hn hpin, buddyTreeInternalPositionOrder_eq hn hqin]
  obtain ⟨bits', hwrite, ht', hcells⟩ := ht.writeNode hpin hvalue
  have hself := ht'.readNode hpin
  have hother := ht'.readNode hqin
  rw [hcells _ hpin, if_pos rfl] at hself
  rw [hcells _ hqin, if_neg hindex] at hother
  exact ⟨rfl, rfl, bits', hwrite, hself, _, ht.readNode hqin, hother⟩

/-- In a tree of order 3 whose bits are all set: the status of the root goes from 3 to 0, and that of
    the leaf 5 stays 1. -/
theorem statusCells_independent_order_three :
    buddyTreeInternalPositionTree (treeWithBits 3 #[255, 255]) ⟨1, 1⟩ =
        some (buddyTreeInternalPositionOrder 3 ⟨1, 1⟩) ∧
      buddyTreeInternalPositionTree (treeWithBits 3 #[255, 255]) ⟨5, 3⟩ =
        some (buddyTreeInternalPositionOrder 3 ⟨5, 3⟩) ∧
      ∃ bits', writeToInternalPosition #[255, 255] (buddyTreeInternalPositionOrder 3 ⟨1, 1⟩) 0 =
          some bits' ∧
        readFromInternalPosition bits' (buddyTreeInternalPositionOrder 3 ⟨1, 1⟩) = some 0 ∧
        ∃ status, readFromInternalPosition #[255, 255] (buddyTreeInternalPositionOrder 3 ⟨5, 3⟩) =
            some status ∧
          readFromInternalPosition bits' (buddyTreeInternalPositionOrder 3 ⟨5, 3⟩) = some status :=
  statusCells_independent (by decide) (by decide) ⟨by decide, by decide⟩ ⟨by decide, by decide⟩
    (by decide) (by decide)

end Rpi4Kernel.Mem
