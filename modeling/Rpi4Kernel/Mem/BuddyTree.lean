/-
Module: Rpi4Kernel.Mem.BuddyTree
Layer: Mem
Purpose: The bit-packed allocation tree of `mem/Buddy.cpp` ("A buddy allocation tree"). A position
  is a heap index with its depth; the status of a position (0 free, its height when fully
  allocated, otherwise one more than the smaller child status) is a unary counter packed into the
  bitset. The functions answer `none` when the source would touch memory outside the tree's data
  or loop forever.
Trusted boundary: none
Main exports: BuddyTreePos, BuddyTree, buddyTreeInit, buddyTreeStatus, buddyTreeMark,
  buddyTreeRelease, buddyTreeFindFree, buddyTreeWalk
-/
import Rpi4Kernel.Mem.Bits

namespace Rpi4Kernel.Mem

/-- `struct buddy_tree_pos`. -/
structure BuddyTreePos where
  index : Nat
  depth : Nat
deriving DecidableEq, Repr, Inhabited

/-- `INVALID_POS`. -/
def invalidPos : BuddyTreePos := ⟨0, 0⟩

/-- `struct internal_position`: where the status of a position sits in the bitset and how many bits
    it has. -/
structure InternalPosition where
  localOffset : Nat
  bitsetLocation : Nat
deriving DecidableEq, Repr

/-- `struct buddy_tree`. The flexible array `data[]` holds the bitset and, `sizeForOrderOffset`
    words after its start, the memoized table of `size_for_order`; `bits` and `sizes` are these two
    parts. -/
structure BuddyTree where
  upperPosBound : Nat
  sizeForOrderOffset : Nat
  order : Nat
  bits : Bytes
  sizes : Array Nat
deriving DecidableEq, Repr

/-- `1u << n`: a 32-bit shift. Shifts by 32 and more are undefined in C. -/
def shiftedOne (n : Nat) : Nat := 2 ^ n % 2 ^ 32

/-! ### Positions -/

/-- `buddy_tree_root`. -/
def buddyTreeRoot : BuddyTreePos := ⟨1, 1⟩

/-- `buddy_tree_left_child`. -/
def buddyTreeLeftChild (pos : BuddyTreePos) : BuddyTreePos := ⟨pos.index * 2, pos.depth + 1⟩

/-- `buddy_tree_right_child`. -/
def buddyTreeRightChild (pos : BuddyTreePos) : BuddyTreePos := ⟨pos.index * 2 + 1, pos.depth + 1⟩

/-- `buddy_tree_sibling`. -/
def buddyTreeSibling (pos : BuddyTreePos) : BuddyTreePos := ⟨pos.index ^^^ 1, pos.depth⟩

/-- `buddy_tree_parent`. -/
def buddyTreeParent (pos : BuddyTreePos) : BuddyTreePos := ⟨pos.index / 2, pos.depth - 1⟩

/-- `buddy_tree_right_adjacent`. -/
def buddyTreeRightAdjacent (pos : BuddyTreePos) : BuddyTreePos :=
  if pos.index < (pos.index + 1) ^^^ pos.index then invalidPos else ⟨pos.index + 1, pos.depth⟩

/-- `buddy_tree_leftmost_child_internal`. -/
def buddyTreeLeftmostChildInternal (treeOrder : Nat) : BuddyTreePos :=
  ⟨shiftedOne (treeOrder - 1), treeOrder⟩

/-- `buddy_tree_leftmost_child`. -/
def buddyTreeLeftmostChild (t : BuddyTree) : BuddyTreePos := buddyTreeLeftmostChildInternal t.order

/-- `buddy_tree_index_internal`: the index within the row, the heap index without its highest bit. -/
def buddyTreeIndexInternal (pos : BuddyTreePos) : Nat :=
  let mask := shiftedOne ((pos.depth - 1) % (8 * charBit - 1))
  pos.index &&& (sizeMax - 1 - mask)

/-- `buddy_tree_index`. -/
def buddyTreeIndex (pos : BuddyTreePos) : Nat := buddyTreeIndexInternal pos

/-- `buddy_tree_valid`. -/
def buddyTreeValid (t : BuddyTree) (pos : BuddyTreePos) : Bool :=
  pos.index ≠ 0 && pos.index < t.upperPosBound

/-! ### Where a status is stored -/

/-- The loop of `size_for_order`. The source runs it with `toOrder` at most `order` only, so the
    count down reaches `toOrder` before it could wrap around below zero. -/
def sizeForOrderLoop (toOrder : Nat) : Nat → Nat → Nat → Nat
  | 0, result, _ => result
  | order + 1, result, multi =>
    if order + 1 = toOrder then result
    else sizeForOrderLoop toOrder order (result + (order + 1) * multi) (multi * 2)

/-- `size_for_order`: the number of bits of the rows above the row of height `toOrder`. -/
def sizeForOrder (order toOrder : Nat) : Nat := sizeForOrderLoop toOrder order 0 1

/-- `buddy_tree_size_for_order`: the memoized `size_for_order`. -/
def buddyTreeSizeForOrder (t : BuddyTree) (toOrder : Nat) : Option Nat := t.sizes[toOrder]?

/-- `buddy_tree_internal_position_order`. -/
def buddyTreeInternalPositionOrder (treeOrder : Nat) (pos : BuddyTreePos) : InternalPosition :=
  let localOffset := treeOrder - pos.depth + 1
  let totalOffset := sizeForOrder treeOrder localOffset
  ⟨localOffset, totalOffset + localOffset * buddyTreeIndexInternal pos⟩

/-- `buddy_tree_internal_position_tree`. -/
def buddyTreeInternalPositionTree (t : BuddyTree) (pos : BuddyTreePos) :
    Option InternalPosition := do
  let localOffset := t.order - pos.depth + 1
  let totalOffset ← buddyTreeSizeForOrder t localOffset
  return ⟨localOffset, totalOffset + localOffset * buddyTreeIndexInternal pos⟩

/-- The bytes of the bitset, padded the way `buddy_tree_sizeof` and
    `buddy_tree_populate_size_for_order` both do it. -/
def paddedBitsetSize (order : Nat) : Nat :=
  let bitsetSize := bitsetSizeof (sizeForOrder order 0)
  if bitsetSize % 8 ≠ 0 then bitsetSize + bitsetSize % 8 else bitsetSize

/-- `buddy_tree_sizeof`. The fixed part of `struct buddy_tree` is 24 bytes long. -/
def buddyTreeSizeof (order : Nat) : Nat := 24 + paddedBitsetSize order + (order + 2) * 8

/-- `buddy_tree_init`, with the loop of `buddy_tree_populate_size_for_order`. -/
def buddyTreeInit (order : Nat) : BuddyTree where
  upperPosBound := shiftedOne order
  sizeForOrderOffset := paddedBitsetSize order / 8 + 1
  order := order
  bits := Array.replicate (bitsetSizeof (sizeForOrder order 0)) 0
  sizes := Array.ofFn fun i : Fin (order + 1) => sizeForOrder order i

/-! ### Reading and writing statuses -/

/-- `write_to_internal_position`. -/
def writeToInternalPosition (bitset : Bytes) (pos : InternalPosition) (value : Nat) :
    Option Bytes :=
  if value = 0 then bitsetClear bitset pos.bitsetLocation
  else do
    let bitset ←
      bitsetClearRange bitset pos.bitsetLocation (pos.bitsetLocation + pos.localOffset - 1)
    bitsetSetRange bitset pos.bitsetLocation (pos.bitsetLocation + value - 1)

/-- `read_from_internal_position`. -/
def readFromInternalPosition (bitset : Bytes) (pos : InternalPosition) : Option Nat := do
  if ← bitsetTest bitset pos.bitsetLocation then
    bitsetCountRange bitset pos.bitsetLocation (pos.bitsetLocation + pos.localOffset - 1)
  else
    return 0

/-- `buddy_tree_status`. -/
def buddyTreeStatus (t : BuddyTree) (pos : BuddyTreePos) : Option Nat := do
  let internal ← buddyTreeInternalPositionTree t pos
  readFromInternalPosition t.bits internal

/-- `target_parent` of `update_parent_chain`: the status of a position from those of its children. -/
def targetParent (sizeCurrent sizeSibling : Nat) : Nat :=
  if sizeCurrent ≠ 0 ∨ sizeSibling ≠ 0 then
    (if sizeCurrent ≤ sizeSibling then sizeCurrent else sizeSibling) + 1
  else 0

/-- The loop of `update_parent_chain`. A step halves the 64-bit index, so 64 steps reach the root
    from every index but 0, where the source would not stop either. -/
def updateParentChainLoop :
    Nat → BuddyTree → BuddyTreePos → InternalPosition → Nat → Option BuddyTree
  | 0, _, _, _, _ => none
  | fuel + 1, t, pos, posInternal, sizeCurrent =>
    if pos.index = 1 then some t
    else do
      -- `+= local_offset - 2 * local_offset * (index & 1)` moves to the right sibling from an even
      -- index and to the left sibling from an odd one.
      let sibling := { posInternal with
        bitsetLocation := posInternal.bitsetLocation + posInternal.localOffset
          - 2 * posInternal.localOffset * (pos.index % 2) }
      let sizeSibling ← readFromInternalPosition t.bits sibling
      let pos := buddyTreeParent pos
      let posInternal ← buddyTreeInternalPositionTree t pos
      let sizeParent ← readFromInternalPosition t.bits posInternal
      let target := targetParent sizeCurrent sizeSibling
      if target = sizeParent then some t
      else do
        let bits ← writeToInternalPosition t.bits posInternal target
        updateParentChainLoop fuel { t with bits := bits } pos posInternal target

/-- `update_parent_chain`. -/
def updateParentChain (t : BuddyTree) (pos : BuddyTreePos) (posInternal : InternalPosition)
    (sizeCurrent : Nat) : Option BuddyTree :=
  updateParentChainLoop 64 t pos posInternal sizeCurrent

/-- The common body of `buddy_tree_mark` and `buddy_tree_release`: write a status and update the
    tree upwards. -/
def buddyTreeToggle (t : BuddyTree) (pos : BuddyTreePos) (value : InternalPosition → Nat) :
    Option BuddyTree := do
  let internal ← buddyTreeInternalPositionTree t pos
  let bits ← writeToInternalPosition t.bits internal (value internal)
  updateParentChain { t with bits := bits } pos internal (value internal)

/-- `buddy_tree_mark`. -/
def buddyTreeMark (t : BuddyTree) (pos : BuddyTreePos) : Option BuddyTree :=
  buddyTreeToggle t pos InternalPosition.localOffset

/-- `buddy_tree_release`, built without `BUDDY_ALLOC_SAFETY`. -/
def buddyTreeRelease (t : BuddyTree) (pos : BuddyTreePos) : Option BuddyTree :=
  buddyTreeToggle t pos fun _ => 0

/-! ### Searching for a free position -/

/-- The loop of `buddy_tree_find_free`. The depth grows at every turn and stops at `targetDepth`,
    a `uint8_t`, so 256 turns are enough. -/
def buddyTreeFindFreeLoop (t : BuddyTree) (targetDepth : Nat) (leftBias : Bool) :
    Nat → BuddyTreePos → Nat → Nat → Nat → Option BuddyTreePos
  | 0, _, _, _, _ => none
  | fuel + 1, start, targetStatus, currentDepth, currentStatus =>
    if currentDepth = targetDepth then
      some (if currentStatus = 0 then start else invalidPos)
    else if targetStatus < currentStatus then some invalidPos
    else do
      let targetStatus := targetStatus - 1
      let currentDepth := currentDepth + 1
      let leftPos := buddyTreeLeftChild start
      let rightPos := buddyTreeSibling leftPos
      let internal ← buddyTreeInternalPositionTree t leftPos
      let leftStatus ← readFromInternalPosition t.bits internal
      let rightStatus ← readFromInternalPosition t.bits
        { internal with bitsetLocation := internal.bitsetLocation + internal.localOffset }
      if targetStatus < leftStatus then
        -- left branch is busy, pick right
        buddyTreeFindFreeLoop t targetDepth leftBias fuel rightPos targetStatus currentDepth
          rightStatus
      else if targetStatus < rightStatus then
        -- right branch is busy, pick left
        buddyTreeFindFreeLoop t targetDepth leftBias fuel leftPos targetStatus currentDepth
          leftStatus
      else if leftBias || rightStatus ≤ leftStatus then
        buddyTreeFindFreeLoop t targetDepth leftBias fuel leftPos targetStatus currentDepth
          leftStatus
      else
        buddyTreeFindFreeLoop t targetDepth leftBias fuel rightPos targetStatus currentDepth
          rightStatus

/-- `buddy_tree_find_free`. -/
def buddyTreeFindFree (t : BuddyTree) (targetDepth : Nat) (leftBias : Bool) :
    Option BuddyTreePos := do
  let start := buddyTreeRoot
  let currentStatus ← buddyTreeStatus t start
  buddyTreeFindFreeLoop t targetDepth leftBias 256 start (targetDepth - 1) start.depth
    currentStatus

/-! ### Walking the tree -/

/-- `struct buddy_tree_walk_state`. -/
structure BuddyTreeWalkState where
  startingPos : BuddyTreePos
  currentPos : BuddyTreePos
  goingUp : Bool
  walkDone : Bool
deriving DecidableEq, Repr

/-- `buddy_tree_walk_state_root`. -/
def buddyTreeWalkStateRoot : BuddyTreeWalkState := ⟨buddyTreeRoot, buddyTreeRoot, false, false⟩

/-- One pass through the `do { ... } while (state->going_up)` body of `buddy_tree_walk`. -/
def buddyTreeWalkBody (t : BuddyTree) (state : BuddyTreeWalkState) : BuddyTreeWalkState :=
  if state.goingUp then
    if state.currentPos.index = state.startingPos.index then
      { state with walkDone := true, goingUp := false }
    else if state.currentPos.index % 2 = 1 then
      { state with currentPos := buddyTreeParent state.currentPos }
    else
      { state with currentPos := buddyTreeRightAdjacent state.currentPos, goingUp := false }
  else if buddyTreeValid t (buddyTreeLeftChild state.currentPos) then
    { state with currentPos := buddyTreeLeftChild state.currentPos }
  else
    { state with goingUp := true }

/-- The loop of `buddy_tree_walk`: at most one turn to notice a leaf, one for each of the 64 bits of
    an index on the way up, and one to stop at the starting position. -/
def buddyTreeWalkLoop (t : BuddyTree) : Nat → BuddyTreeWalkState → Option BuddyTreeWalkState
  | 0, _ => none
  | fuel + 1, state =>
    let state := buddyTreeWalkBody t state
    if state.goingUp then buddyTreeWalkLoop t fuel state else some state

/-- `buddy_tree_walk`: the new walk state; the walk goes on while it is not done. -/
def buddyTreeWalk (t : BuddyTree) (state : BuddyTreeWalkState) : Option BuddyTreeWalkState :=
  buddyTreeWalkLoop t 66 state

example : ((buddyTreeMark (buddyTreeInit 3) ⟨4, 3⟩).bind fun t =>
    buddyTreeFindFree t 3 false) = some ⟨5, 3⟩ := by decide

end Rpi4Kernel.Mem
