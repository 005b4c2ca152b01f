/-
Module: Rpi4Kernel.Mem.Reservations
Layer: Mem
Purpose: `buddy_reserve_range` and `buddy_unsafe_release_range` (`mem/Buddy.cpp`): the 64-byte
  positions of a range of the arena are marked or released one after the other, whatever their
  statuses are.
Trusted boundary: as in `Rpi4Kernel.Mem.BuddyApi`; the arena does not end at the end of the address
  space.
Main exports: toggleRangeLoop, buddyToggleRangeReservation, buddyReserveRange,
  buddyUnsafeReleaseRange, ReserveCall, BuddyHeap.reserveCall
-/
import Rpi4Kernel.Mem.BuddyApi

namespace Rpi4Kernel.Mem

/-- `while (requested_size)`, with the tree that `(*toggle)(tree, pos)` leaves in each turn. -/
def toggleRangeLoop (toggle : BuddyTree → BuddyTreePos → Option BuddyTree) :
    Nat → Nat → BuddyTreePos → BuddyTree → Option BuddyTree
  | 0, _, _, _ => none
  | fuel + 1, requestedSize, pos, tree =>
    if requestedSize = 0 then some tree
    else do
      let tree ← toggle tree pos
      let requestedSize := if requestedSize < buddyAllocAlign then 0
        else requestedSize - buddyAllocAlign
      toggleRangeLoop toggle fuel requestedSize { pos with index := pos.index + 1 } tree

/-- `buddy_toggle_range_reservation` on a buddy that is not null. The sum of the pointer and the size
    wraps. -/
def buddyToggleRangeReservation (buddy : Buddy) (ptr requestedSize : Nat) (state : Bool) :
    Option Buddy :=
  if ptr = 0 then some buddy
  else if requestedSize = 0 then some buddy
  else
    let main := buddyMain buddy
    if ptr < main ∨ main + buddy.memorySize < (ptr + requestedSize) % sizeMax then some buddy
    else
      (toggleRangeLoop (if state then buddyTreeMark else buddyTreeRelease)
        (requestedSize / buddyAllocAlign + 2)
        requestedSize (deepestPositionForOffset buddy (ptr - main)) buddy.tree).map
          fun tree => { buddy with tree := tree }

/-- `buddy_reserve_range`. -/
def buddyReserveRange (buddy : Buddy) (ptr requestedSize : Nat) : Option Buddy :=
  buddyToggleRangeReservation buddy ptr requestedSize true

/-- `buddy_unsafe_release_range`. -/
def buddyUnsafeReleaseRange (buddy : Buddy) (ptr requestedSize : Nat) : Option Buddy :=
  buddyToggleRangeReservation buddy ptr requestedSize false

/-- A call of a client that also reserves ranges. -/
inductive ReserveCall where
  | api (call : BuddyCall)
  | reserveRange (ptr : Nat) (size : BitVec 64)
  | unsafeReleaseRange (ptr : Nat) (size : BitVec 64)
deriving DecidableEq, Repr

/-- A call on a heap, with its answer, or the message of a panic. -/
def BuddyHeap.reserveCall (heap : BuddyHeap) :
    ReserveCall → Option (Except String (BuddyHeap × Option Nat))
  | .api call => heap.call call
  | .reserveRange ptr size =>
    (buddyReserveRange heap.buddy ptr size.toNat).map fun buddy =>
      .ok ({ heap with buddy := buddy }, none)
  | .unsafeReleaseRange ptr size =>
    (buddyUnsafeReleaseRange heap.buddy ptr size.toNat).map fun buddy =>
      .ok ({ heap with buddy := buddy }, none)

end Rpi4Kernel.Mem
