/-
Module: Rpi4Kernel.Mem.VirtualSlots
Layer: Mem
Purpose: What `buddy_toggle_virtual_slots` masks: the positions that its loop passes to
  `buddy_tree_mark`, in order, and how a position of the tree stands to the slots of 64 bytes of its
  span.
Trusted boundary: none
Main exports: maskedPositions, Allocated, CoversSlot
-/
import Rpi4Kernel.Mem.Buddy

namespace Rpi4Kernel.Mem

/-- The positions that the loop of `buddy_toggle_virtual_slots` marks from `pos` on. -/
def maskedPositionsLoop (buddy : Buddy) : Nat → BuddyTreePos → Nat → Option (List BuddyTreePos)
  | 0, _, _ => none
  | fuel + 1, pos, delta =>
    if delta = 0 then some []
    else
      let currentPosSize := sizeForDepth buddy pos.depth
      if delta = currentPosSize then some [pos]
      else if delta ≤ currentPosSize / 2 then
        maskedPositionsLoop buddy fuel (buddyTreeRightChild pos) delta
      else do
        let masked ← maskedPositionsLoop buddy fuel (buddyTreeLeftChild pos)
          (delta - currentPosSize / 2)
        some (buddyTreeRightChild pos :: masked)

/-- The positions that `buddy_toggle_virtual_slots(buddy, 1)` marks. -/
def maskedPositions (buddy : Buddy) : Option (List BuddyTreePos) :=
  let effectiveMemorySize := buddyEffectiveMemorySize buddy
  if effectiveMemorySize = buddy.memorySize then some []
  else maskedPositionsLoop buddy 65 (buddyTreeRightChild buddyTreeRoot)
    (effectiveMemorySize - buddy.memorySize)

/-- A position of the tree that is fully allocated: its status is its height. -/
def Allocated (buddy : Buddy) (pos : BuddyTreePos) : Prop :=
  buddyTreeValid buddy.tree pos = true ∧ pos.depth = highestBitPosition pos.index ∧
    buddyTreeStatus buddy.tree pos = some (buddy.tree.order - pos.depth + 1)

/-- Slot number `i` lies in the memory of the position. -/
def CoversSlot (buddy : Buddy) (pos : BuddyTreePos) (i : Nat) : Prop :=
  let blockSize := sizeForDepth buddy pos.depth
  blockSize * buddyTreeIndex pos ≤ 64 * i ∧ 64 * i < blockSize * buddyTreeIndex pos + blockSize

end Rpi4Kernel.Mem
