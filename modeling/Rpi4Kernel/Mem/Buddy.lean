/-
Module: Rpi4Kernel.Mem.Buddy
Layer: Mem
Purpose: The buddy allocator proper (the first section of `mem/Buddy.cpp`): size classes, the
  translation between addresses and tree positions, initialization with the masked tail of an arena
  that is not a power of two, allocation, release and the free-space count. `none` stands for
  undefined behaviour or a loop that does not end, as in the modules below; a null pointer is an
  inner `none`, and a call of `Core::panic` an inner error with its message.
Trusted boundary: none
Main exports: Buddy, buddyInit, buddyMalloc, buddyFree, buddyArenaFreeSize
-/
import Rpi4Kernel.Mem.BuddyTree

namespace Rpi4Kernel.Mem

/-- `BUDDY_ALLOC_ALIGN`: `sizeof(size_t) * CHAR_BIT`. -/
abbrev buddyAllocAlign : Nat := 8 * charBit

/-- `BUDDY_RELATIVE_MODE`. -/
def buddyRelativeModeFlag : Nat := 1

/-- `BUDDY_LEFT_BIAS`. -/
def buddyLeftBiasFlag : Nat := 2

/-- `struct buddy`, placed at address `self`. The word `arena` is the union of the absolute address
    of the managed memory and, in relative mode, its distance below `self`. -/
structure Buddy where
  self : Nat
  memorySize : Nat
  virtualSlots : Nat
  arena : Nat
  buddyFlags : Nat
  free : Nat
  tree : BuddyTree
deriving DecidableEq, Repr

/-- `buddy_relative_mode`. -/
def buddyRelativeMode (buddy : Buddy) : Bool := buddy.buddyFlags &&& buddyRelativeModeFlag ≠ 0

/-- `buddy_is_left_biased`. -/
def buddyIsLeftBiased (buddy : Buddy) : Bool := buddy.buddyFlags &&& buddyLeftBiasFlag ≠ 0

/-- `buddy_main`. -/
def buddyMain (buddy : Buddy) : Nat :=
  if buddyRelativeMode buddy then buddy.self - buddy.arena else buddy.arena

/-! ### Size classes -/

/-- `buddy_tree_order_for_memory`. -/
def buddyTreeOrderForMemory (memorySize : Nat) : Nat :=
  let blocks := memorySize / buddyAllocAlign
  highestBitPosition (ceilingPowerOfTwo blocks)

/-- `buddy_sizeof`. The fixed part of `struct buddy` is 40 bytes long. -/
def buddySizeof (memorySize : Nat) : Nat :=
  if memorySize < buddyAllocAlign then 0
  else 40 + buddyTreeSizeof (buddyTreeOrderForMemory memorySize)

/-- `buddy_effective_memory_size`. -/
def buddyEffectiveMemorySize (buddy : Buddy) : Nat := ceilingPowerOfTwo buddy.memorySize

/-- `size_for_depth`. -/
def sizeForDepth (buddy : Buddy) (depth : Nat) : Nat :=
  let depth := if depth = 0 then depth + 1 else depth
  ceilingPowerOfTwo buddy.memorySize >>> (depth - 1)

/-- The loop of `depth_for_size`: it shifts a 64-bit size right until the quotient is at most 1. -/
def depthForSizeLoop (requestedSize : Nat) : Nat → Nat → Nat → Option Nat
  | 0, _, _ => none
  | fuel + 1, depth, effectiveMemorySize =>
    if (effectiveMemorySize / requestedSize) >>> 1 ≠ 0 then
      depthForSizeLoop requestedSize fuel (depth + 1) (effectiveMemorySize >>> 1)
    else some depth

/-- `depth_for_size`. -/
def depthForSize (buddy : Buddy) (requestedSize : Nat) : Option Nat :=
  let requestedSize := if requestedSize < buddyAllocAlign then buddyAllocAlign else requestedSize
  depthForSizeLoop requestedSize 65 1 (buddyEffectiveMemorySize buddy)

/-! ### Addresses and positions -/

/-- `address_for_position`. -/
def addressForPosition (buddy : Buddy) (pos : BuddyTreePos) : Nat :=
  let blockSize := sizeForDepth buddy pos.depth
  let addr := blockSize * buddyTreeIndex pos
  buddyMain buddy + addr

/-- `deepest_position_for_offset`. -/
def deepestPositionForOffset (buddy : Buddy) (offset : Nat) : BuddyTreePos :=
  let index := offset / buddyAllocAlign
  let pos := buddyTreeLeftmostChild buddy.tree
  { pos with index := pos.index + index }

/-- The loop of `position_for_address`: climb while the status is zero. Every turn halves the
    64-bit index of a valid position. -/
def positionForAddressLoop (t : BuddyTree) : Nat → BuddyTreePos → Option BuddyTreePos
  | 0, _ => none
  | fuel + 1, pos =>
    if buddyTreeValid t pos then do
      let status ← buddyTreeStatus t pos
      if status = 0 then positionForAddressLoop t fuel (buddyTreeParent pos) else some pos
    else some pos

/-- `position_for_address`, built without `BUDDY_ALLOC_SAFETY`. -/
def positionForAddress (buddy : Buddy) (addr : Nat) : Option BuddyTreePos :=
  let offset := addr - buddyMain buddy
  positionForAddressLoop buddy.tree 65 (deepestPositionForOffset buddy offset)

/-! ### Initialization -/

/-- The loop of `buddy_toggle_virtual_slots` with `state` 1, where `toggle` is `buddy_tree_mark`.
    Every turn but the last goes one level down. -/
def buddyToggleVirtualSlotsLoop (buddy : Buddy) :
    Nat → BuddyTree → BuddyTreePos → Nat → Option BuddyTree
  | 0, _, _, _ => none
  | fuel + 1, tree, pos, delta =>
    if delta = 0 then some tree
    else
      let currentPosSize := sizeForDepth buddy pos.depth
      if delta = currentPosSize then buddyTreeMark tree pos
      else if delta ≤ currentPosSize / 2 then
        buddyToggleVirtualSlotsLoop buddy fuel tree (buddyTreeRightChild pos) delta
      else do
        let tree ← buddyTreeMark tree (buddyTreeRightChild pos)
        buddyToggleVirtualSlotsLoop buddy fuel tree (buddyTreeLeftChild pos)
          (delta - currentPosSize / 2)

/-- `buddy_toggle_virtual_slots(buddy, 1)`, the only call that `buddy_init` makes. -/
def buddyToggleVirtualSlots (buddy : Buddy) : Option Buddy :=
  let effectiveMemorySize := buddyEffectiveMemorySize buddy
  if effectiveMemorySize = buddy.memorySize then
    some { buddy with virtualSlots := 0 }
  else do
    let delta := effectiveMemorySize - buddy.memorySize
    let tree ← buddyToggleVirtualSlotsLoop buddy 65 buddy.tree
      (buddyTreeRightChild buddyTreeRoot) delta
    return { buddy with virtualSlots := delta / buddyAllocAlign, tree := tree }

/-- `buddy_init`; the inner `none` is a null result. Both `__alignof__` are 8. -/
def buddyInit (place main memorySize : Nat) : Option (Option Buddy) :=
  if place = 0 then some none
  else if main = 0 then some none
  else if place = main then some none
  else if place % 8 ≠ 0 then some none
  else if main % 8 ≠ 0 then some none
  else
    let memorySize := memorySize - memorySize % buddyAllocAlign
    if buddySizeof memorySize = 0 then some none
    else do
      let buddy ← buddyToggleVirtualSlots
        { self := place
          memorySize := memorySize
          virtualSlots := 0
          arena := main
          buddyFlags := 0
          free := memorySize
          tree := buddyTreeInit (buddyTreeOrderForMemory memorySize) }
      return some buddy

/-! ### Allocation -/

/-- `buddy_malloc` on a buddy that is not null: the new allocator and the address, or a null result
    with the allocator as it was. -/
def buddyMalloc (buddy : Buddy) (requestedSize : Nat) : Option (Buddy × Option Nat) :=
  let requestedSize := if requestedSize = 0 then 1 else requestedSize
  if buddy.memorySize < requestedSize then some (buddy, none)
  else do
    let targetDepth ← depthForSize buddy requestedSize
    -- `buddy_tree_find_free` takes the depth as a `uint8_t`
    let pos ← buddyTreeFindFree buddy.tree (targetDepth % 256) (buddyIsLeftBiased buddy)
    if buddyTreeValid buddy.tree pos then
      let tree ← buddyTreeMark buddy.tree pos
      let buddy := { buddy with tree := tree }
      return (buddy, some (addressForPosition buddy pos))
    else
      return (buddy, none)

/-- The message of every panic of `buddy_free`. -/
def wrongBuddyFree : String := "Wrong buddy free!\n"

/-- `buddy_free` on a buddy that is not null. The inner error is the call of `Core::panic`, made
    before anything is written. -/
def buddyFree (buddy : Buddy) (ptr : Nat) : Option (Except String Buddy) :=
  if ptr = 0 then some (.error wrongBuddyFree)
  else
    let main := buddyMain buddy
    if ptr < main ∨ main + buddy.memorySize ≤ ptr then some (.error wrongBuddyFree)
    else do
      let pos ← positionForAddress buddy ptr
      if buddyTreeValid buddy.tree pos then
        let tree ← buddyTreeRelease buddy.tree pos
        return .ok { buddy with tree := tree }
      else
        return .error wrongBuddyFree

/-! ### Free space -/

/-- The loop of `buddy_arena_free_size`. It visits no position twice, and the tree has fewer than
    `2 ^ order` of them. -/
def buddyArenaFreeSizeLoop (buddy : Buddy) : Nat → BuddyTreeWalkState → Nat → Option Nat
  | 0, _, _ => none
  | fuel + 1, state, result => do
    let tree := buddy.tree
    let posStatus ← buddyTreeStatus tree state.currentPos
    let (state, result) :=
      if posStatus = tree.order - state.currentPos.depth + 1 then
        ({ state with goingUp := true }, result)
      else if posStatus = 0 then
        ({ state with goingUp := true }, result + sizeForDepth buddy state.currentPos.depth)
      else
        (state, result)
    let state ← buddyTreeWalk tree state
    if state.walkDone then some result else buddyArenaFreeSizeLoop buddy fuel state result

/-- `buddy_arena_free_size`. -/
def buddyArenaFreeSize (buddy : Buddy) : Option Nat :=
  buddyArenaFreeSizeLoop buddy (2 ^ buddy.tree.order) buddyTreeWalkStateRoot 0

end Rpi4Kernel.Mem
