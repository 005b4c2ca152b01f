/-
Module: Rpi4Kernel.Mem.Metadata
Layer: Mem
Purpose: Where the metadata of a heap lies in memory, and the operations of the heap in any order and
  with any arguments. `struct buddy` starts the block that the constructor reserved, `struct
  buddy_tree` follows it, and the flexible array `data[]` holds the bitset and the table of
  `size_for_order`.
Trusted boundary: an operation has no value here (`none`) when it touches a byte of the bitset or an
  entry of the table that is not there.
Main exports: bitsetAddress, sizeTableAddress, HeapOp, heapOp
-/
import Rpi4Kernel.Mem.KernelHeapAllocator

namespace Rpi4Kernel.Mem

/-- `sizeof(struct buddy)`, less its flexible array. -/
def sizeofBuddy : Nat := 40

/-- `sizeof(struct buddy_tree)`, less its flexible array. -/
def sizeofBuddyTree : Nat := 24

/-- `buddy_tree_bits`: the address of `data[]`. -/
def buddyTreeBits (buddy : Buddy) : Nat := buddy.self + sizeofBuddy + sizeofBuddyTree

/-- The address of byte `bucket` of the bitset. -/
def bitsetAddress (buddy : Buddy) (bucket : Nat) : Nat := buddyTreeBits buddy + bucket

/-- The address of the word `data[size_for_order_offset + to]`. -/
def sizeTableAddress (buddy : Buddy) (toOrder : Nat) : Nat :=
  buddyTreeBits buddy + 8 * (buddy.tree.sizeForOrderOffset + toOrder)

/-- The operations of a heap. `free` may be called with any pointer. -/
inductive HeapOp where
  | alloc (size : Nat)
  | free (p : Nat)
  | freeSpace
deriving DecidableEq, Repr

/-- The heap after an operation, whether it returned or panicked. -/
def heapOp (heap : KernelHeapAllocator) : HeapOp → Option KernelHeapAllocator
  | .alloc size => (heap.alloc size).map Prod.fst
  | .free p => (heap.dealloc p).map Prod.fst
  | .freeSpace => heap.freeSpace.map fun _ => heap

end Rpi4Kernel.Mem
