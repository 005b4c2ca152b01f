/-
Module: Rpi4Kernel.Mem.HeapCounters
Layer: Mem
Purpose: The calls of the kernel heap (`mem/KernelHeapAllocator.cpp`) that several callers have under
  way at once. The section under the spinlock is one step; `alloc` updates `bytes_left` and
  `allocations` after `l.release()`, so that each update is a read and a write with steps of others in
  between.
Trusted boundary: none
Main exports: AllocPoint, HeapCalls, HeapEvent, lockedAlloc, heapStep, HeapCalls.Exact
-/
import Mathlib.Data.Fintype.Basic
import Rpi4Kernel.Mem.KernelHeapAllocator

namespace Rpi4Kernel.Mem

/-- How far a call of `alloc` is past `l.release()`, with the block that it will return and what it has
    read of a counter and not written back. -/
inductive AllocPoint where
  /-- It reads `bytes_left` next. -/
  | released (block : LiveBlock)
  /-- It writes `bytes_left - size` next. -/
  | bytesRead (block : LiveBlock) (bytesLeft : Nat)
  /-- It reads `allocations` next. -/
  | bytesWritten (block : LiveBlock)
  /-- It writes `allocations + 1` next, and returns. -/
  | allocationsRead (block : LiveBlock) (allocations : Nat)
deriving DecidableEq, Repr

namespace AllocPoint

/-- Between the read and the write of `bytes_left`. -/
def holdsBytes : AllocPoint → Bool
  | .bytesRead _ _ => true
  | _ => false

/-- Between the read and the write of `allocations`. -/
def holdsAllocations : AllocPoint → Bool
  | .allocationsRead _ _ => true
  | _ => false

end AllocPoint

/-- The heap, the blocks returned and not freed since, and the call that each caller has under way. -/
structure HeapCalls (α : Type) where
  heap : KernelHeapAllocator
  live : List LiveBlock
  point : α → Option AllocPoint

/-- A caller enters `alloc` and passes the section under the lock, takes the next step of its `alloc`,
    or calls `free`, all of which is under the lock. -/
inductive HeapEvent (α : Type) where
  | alloc (a : α) (size : Nat)
  | proceed (a : α)
  | free (a : α) (block : LiveBlock)
deriving DecidableEq, Repr

/-- The section of `KernelHeapAllocator::alloc` under the lock, when `buddy_malloc` finds a block. -/
def lockedAlloc (heap : KernelHeapAllocator) (size : Nat) :
    Option (KernelHeapAllocator × LiveBlock) := do
  let buddy ← heap.buddy
  let (buddy, out) ← buddyMalloc buddy size
  let out ← out
  return ({ heap with buddy := some buddy }, ⟨out, size⟩)

section Steps

variable {α : Type} [DecidableEq α]

/-- The state in which caller `a` is at `point`. -/
def HeapCalls.setPoint (calls : HeapCalls α) (a : α) (point : Option AllocPoint) : HeapCalls α :=
  { calls with point := Function.update calls.point a point }

/-- The next step of a call of `alloc` after the section under the lock. -/
def HeapCalls.proceed (calls : HeapCalls α) (a : α) : AllocPoint → HeapCalls α
  | .released block => calls.setPoint a (some (.bytesRead block calls.heap.bytesLeft))
  | .bytesRead block bytesLeft =>
    { calls.setPoint a (some (.bytesWritten block)) with
      heap := { calls.heap with
        bytesLeft := KernelHeapAllocator.subU64 bytesLeft block.size } }
  | .bytesWritten block =>
    calls.setPoint a (some (.allocationsRead block calls.heap.allocations))
  | .allocationsRead block allocations =>
    { calls.setPoint a none with
      heap := { calls.heap with allocations := (allocations + 1) % sizeMax }
      live := block :: calls.live }

/-- One step of one caller. A caller has one call under way at a time, and frees only live blocks; calls
    that panic are left out. -/
def heapStep (calls : HeapCalls α) : HeapEvent α → Option (HeapCalls α)
  | .alloc a size =>
    if calls.point a = none ∧ size < 2 ^ 32 then
      (lockedAlloc calls.heap size).map fun answer =>
        { calls.setPoint a (some (.released answer.2)) with heap := answer.1 }
    else none
  | .proceed a => (calls.point a).map (calls.proceed a)
  | .free a block =>
    if calls.point a = none ∧ block ∈ calls.live then
      match calls.heap.dealloc block.ptr with
      | some (heap, .returned _) =>
        some { calls with heap := heap, live := calls.live.erase block }
      | _ => none
    else none

end Steps

namespace HeapCalls

variable {α : Type}

/-- A heap that no one has called yet. -/
def fresh (heap : KernelHeapAllocator) : HeapCalls α :=
  { heap := heap, live := [], point := fun _ => none }

/-- No call is in progress. -/
def Quiet (calls : HeapCalls α) : Prop := ∀ a, calls.point a = none

/-- The counters of a heap over `arena` bytes are exact: with no call in progress `allocations` is the
    number of live blocks and `bytes_left` what their sizes leave of the arena; and neither the
    subtraction that an `alloc` is about to make nor that of a `free` goes below zero. -/
structure Exact (arena : Nat) (calls : HeapCalls α) : Prop where
  count : calls.Quiet → calls.heap.allocations = calls.live.length
  bytes : calls.Quiet →
    calls.heap.bytesLeft + (calls.live.map LiveBlock.size).sum = arena
  allocStays : ∀ a block bytesLeft, calls.point a = some (.bytesRead block bytesLeft) →
    block.size ≤ bytesLeft
  freeStays : calls.live ≠ [] → 0 < calls.heap.allocations

/-- The step leaves the counters in step with the blocks: no block is freed that was asked for with a
    size, and no counter gets a new value while another caller holds what it has read of it. -/
def keepsCounters [Fintype α] [DecidableEq α] (calls : HeapCalls α) : HeapEvent α → Bool
  | .alloc _ _ => true
  | .proceed a =>
    match calls.point a with
    | some (.bytesRead block _) =>
      block.size = 0 ∨ ∀ b, b ≠ a → ¬ (calls.point b).any AllocPoint.holdsBytes
    | some (.allocationsRead _ _) =>
      ∀ b, b ≠ a → ¬ (calls.point b).any AllocPoint.holdsAllocations
    | _ => true
  | .free _ block =>
    block.size = 0 ∧ ∀ b, ¬ (calls.point b).any AllocPoint.holdsAllocations

end HeapCalls

end Rpi4Kernel.Mem
