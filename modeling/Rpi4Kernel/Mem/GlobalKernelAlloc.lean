/-
Module: Rpi4Kernel.Mem.GlobalKernelAlloc
Layer: Mem
Purpose: The way of a request from `operator new` to an allocator (`Mem.cpp`, `include/Mem.h`): the
  installed `MemoryAllocator` is the boot allocator (`include/BootAllocator.h`) or the kernel heap, and
  `GlobalKernelAlloc` calls it through its virtual members.
Trusted boundary: none
Main exports: BootAllocator, MemoryAllocator, GlobalKernelAlloc, operatorNew, operatorNewArray,
  operatorDelete
-/
import Rpi4Kernel.Mem.KernelHeapAllocator

namespace Rpi4Kernel.Mem

/-! ### The boot allocator -/

/-- The fields of `class BootAllocator`. `bytes_left` is a `long`. -/
structure BootAllocator where
  ptr : Nat
  bytesLeft : Int
deriving DecidableEq, Repr

namespace BootAllocator

/-- The constructor for the range from `s` to `e`. The difference of the two addresses is a `long`. -/
def construct (s e : Nat) : BootAllocator :=
  { ptr := s, bytesLeft := ((e : Int) - s).bmod sizeMax }

/-- `BootAllocator::freeSpace`: the `long` as an `unsigned long`. -/
def freeSpace (boot : BootAllocator) : Nat := (boot.bytesLeft % (sizeMax : Int)).toNat

/-- `BootAllocator::alloc(unsigned size)`. The comparison converts the parameter to `long`; the result
    is 0 for a null pointer. -/
def alloc (boot : BootAllocator) (size : Nat) : BootAllocator × Nat :=
  if (toUnsigned size : Int) ≤ boot.bytesLeft then
    ({ ptr := boot.ptr + toUnsigned size, bytesLeft := boot.bytesLeft - toUnsigned size }, boot.ptr)
  else (boot, 0)

/-- `BootAllocator::free` does nothing. -/
def dealloc (boot : BootAllocator) (_p : Nat) : BootAllocator := boot

/-- A sequence of calls of `alloc`: the allocator after them, and each request as it has reached the
    allocator, with its answer. -/
def allocAll (boot : BootAllocator) : List Nat → BootAllocator × List LiveBlock
  | [] => (boot, [])
  | size :: sizes =>
    let (boot, p) := boot.alloc size
    let (boot, answers) := boot.allocAll sizes
    (boot, ⟨p, toUnsigned size⟩ :: answers)

end BootAllocator

/-! ### The virtual calls -/

/-- A `MemoryAllocator`: an object of one of the two classes that implement it. -/
inductive MemoryAllocator where
  | boot (object : BootAllocator)
  | heap (object : KernelHeapAllocator)
deriving DecidableEq, Repr

namespace MemoryAllocator

/-- The virtual member `alloc(unsigned size)`. -/
def alloc (size : Nat) : MemoryAllocator → Option (MemoryAllocator × HeapAnswer Nat)
  | .boot object =>
    some (.boot (object.alloc (toUnsigned size)).1, .returned (object.alloc (toUnsigned size)).2)
  | .heap object => (object.alloc (toUnsigned size)).map fun call => (.heap call.1, call.2)

/-- The virtual member `free(void *p)`. -/
def dealloc (p : Nat) : MemoryAllocator → Option (MemoryAllocator × HeapAnswer Unit)
  | .boot object => some (.boot (object.dealloc p), .returned ())
  | .heap object => (object.dealloc p).map fun call => (.heap call.1, call.2)

end MemoryAllocator

/-- The static member of `class GlobalKernelAlloc`, with the object that it points to. -/
structure GlobalKernelAlloc where
  kalloc : Option MemoryAllocator
deriving DecidableEq, Repr

namespace GlobalKernelAlloc

/-- `GlobalKernelAlloc::setAllocator`. -/
def setAllocator (allocator : MemoryAllocator) : GlobalKernelAlloc := { kalloc := some allocator }

/-- `GlobalKernelAlloc::alloc(unsigned size)`. A call through the null pointer is undefined. -/
def alloc (global : GlobalKernelAlloc) (size : Nat) : Option (GlobalKernelAlloc × HeapAnswer Nat) := do
  let allocator ← global.kalloc
  let (allocator, answer) ← allocator.alloc (toUnsigned size)
  return (setAllocator allocator, answer)

/-- `GlobalKernelAlloc::free`. -/
def dealloc (global : GlobalKernelAlloc) (p : Nat) : Option (GlobalKernelAlloc × HeapAnswer Unit) := do
  let allocator ← global.kalloc
  let (allocator, answer) ← allocator.dealloc p
  return (setAllocator allocator, answer)

end GlobalKernelAlloc

/-! ### The operators -/

/-- `operator new(size_t size)`, which is narrowed to the `unsigned` parameter of `alloc`. -/
def operatorNew (global : GlobalKernelAlloc) (size : Nat) :
    Option (GlobalKernelAlloc × HeapAnswer Nat) := global.alloc (toUnsigned size)

/-- `operator new[](size_t size)`, narrowed in the same way. -/
def operatorNewArray (global : GlobalKernelAlloc) (size : Nat) :
    Option (GlobalKernelAlloc × HeapAnswer Nat) := global.alloc (toUnsigned size)

/-- `operator delete`, in its three forms. -/
def operatorDelete (global : GlobalKernelAlloc) (p : Nat) :
    Option (GlobalKernelAlloc × HeapAnswer Unit) := global.dealloc p

example : operatorNew (.setAllocator (.boot (.construct 4096 8192))) 100 =
    some (.setAllocator (.boot ⟨4196, 3996⟩), .returned 4096) := by decide

end Rpi4Kernel.Mem
