/-
Module: Rpi4Kernel.Mem.KernelHeapAllocator
Layer: Mem
Purpose: The kernel heap (`mem/KernelHeapAllocator.cpp`): the buddy allocator behind a spinlock, with
  the two counters of the allocator. Each call is one atomic step here; the lock field, which is free
  before and after each call, is not part of the state.
Trusted boundary: none
Main exports: KernelHeapAllocator, toUnsigned, KernelHeapAllocator.construct, KernelHeapAllocator.alloc,
  KernelHeapAllocator.dealloc, KernelHeapAllocator.freeSpace, HeapRun, replay
-/
import Rpi4Kernel.Mem.Buddy

namespace Rpi4Kernel.Mem

/-- The heap: the fields of `class KernelHeapAllocator` and the global counter `allocations`. A null
    `buddy` is `none`. -/
structure KernelHeapAllocator where
  ptr : Nat
  bytesLeft : Nat
  buddy : Option Buddy
  allocations : Nat
deriving DecidableEq, Repr

/-- What a call of the allocator does to its caller: it returns, or `Core::panic` never does. -/
inductive HeapAnswer (α : Type) where
  | returned (value : α)
  | panicked (message : String)
deriving DecidableEq, Repr

/-- The conversion of an argument to an `unsigned` parameter. -/
def toUnsigned (size : Nat) : Nat := size % 2 ^ 32

theorem toUnsigned_of_lt {size : Nat} (h : size < 2 ^ 32) : toUnsigned size = size := Nat.mod_eq_of_lt h

theorem toUnsigned_lt (size : Nat) : toUnsigned size < 2 ^ 32 := Nat.mod_lt _ (by norm_num)

@[simp] theorem toUnsigned_toUnsigned (size : Nat) : toUnsigned (toUnsigned size) = toUnsigned size :=
  toUnsigned_of_lt (toUnsigned_lt size)

/-- The message of the panic of `KernelHeapAllocator::alloc`. -/
def buddyOutOfMemory : String := "Buddy out of memory!\n"

namespace KernelHeapAllocator

/-- `a - b` in `uint64_t`. -/
def subU64 (a b : Nat) : Nat := (a + (sizeMax - b)) % sizeMax

/-- The constructor. `metadata` is the address that `GlobalKernelAlloc::alloc` answered for the
    request of `buddy_sizeof(arena_size)` bytes, 0 when it refused. -/
def construct (s e metadata : Nat) : Option KernelHeapAllocator := do
  let arenaSize := subU64 e s
  let buddy ← buddyInit metadata s arenaSize
  return { ptr := s, bytesLeft := subU64 e s, buddy := buddy, allocations := 0 }

/-- `KernelHeapAllocator::freeSpace`, on a heap whose buddy is not null. -/
def freeSpace (heap : KernelHeapAllocator) : Option Nat := do
  let buddy ← heap.buddy
  buddyArenaFreeSize buddy

/-- `KernelHeapAllocator::alloc(unsigned size)`. A null buddy makes `buddy_malloc` answer null. -/
def alloc (heap : KernelHeapAllocator) (size : Nat) :
    Option (KernelHeapAllocator × HeapAnswer Nat) :=
  match heap.buddy with
  | none => some (heap, .panicked buddyOutOfMemory)
  | some buddy => do
    let (buddy, out) ← buddyMalloc buddy (toUnsigned size)
    let heap := { heap with buddy := some buddy }
    match out with
    | none => return (heap, .panicked buddyOutOfMemory)
    | some out =>
      return ({ heap with
        bytesLeft := subU64 heap.bytesLeft (toUnsigned size)
        allocations := (heap.allocations + 1) % sizeMax }, .returned out)

/-- `KernelHeapAllocator::free`. -/
def dealloc (heap : KernelHeapAllocator) (p : Nat) :
    Option (KernelHeapAllocator × HeapAnswer Unit) :=
  match heap.buddy with
  | none => some (heap, .panicked wrongBuddyFree)
  | some buddy => do
    match ← buddyFree buddy p with
    | .error message => return (heap, .panicked message)
    | .ok buddy =>
      return ({ heap with
        buddy := some buddy
        allocations := subU64 heap.allocations 1 }, .returned ())

end KernelHeapAllocator

/-- A block handed out and not freed since: its address and the size that was asked for. -/
structure LiveBlock where
  ptr : Nat
  size : Nat
deriving DecidableEq, Repr

/-- A call of a history of the heap. -/
inductive HeapCall where
  | alloc (size : Nat)
  | free (block : LiveBlock)
deriving DecidableEq, Repr

/-- One call, with the blocks live before and after it. An `alloc` takes any C `unsigned`; one that
    panics never returns and leaves no new block. Only live blocks are freed. -/
inductive HeapStep : KernelHeapAllocator → List LiveBlock → HeapCall →
    KernelHeapAllocator → List LiveBlock → Prop where
  | allocated {heap heap' : KernelHeapAllocator} {live : List LiveBlock} {size p : Nat}
      (unsigned : size < 2 ^ 32)
      (call : heap.alloc size = some (heap', .returned p)) :
      HeapStep heap live (.alloc size) heap' (⟨p, size⟩ :: live)
  | outOfMemory {heap heap' : KernelHeapAllocator} {live : List LiveBlock} {size : Nat}
      {message : String} (unsigned : size < 2 ^ 32)
      (call : heap.alloc size = some (heap', .panicked message)) :
      HeapStep heap live (.alloc size) heap' live
  | freed {heap heap' : KernelHeapAllocator} {live : List LiveBlock} {block : LiveBlock}
      {answer : HeapAnswer Unit} (isLive : block ∈ live)
      (call : heap.dealloc block.ptr = some (heap', answer)) :
      HeapStep heap live (.free block) heap' (live.erase block)

/-- A finite history of the heap built over the arena `[s, e)`, and the blocks live at its end. -/
inductive HeapRun (s e metadata : Nat) : KernelHeapAllocator → List LiveBlock → Prop where
  | constructed {heap : KernelHeapAllocator} {buddy : Buddy}
      (call : KernelHeapAllocator.construct s e metadata = some heap)
      (usable : heap.buddy = some buddy) : HeapRun s e metadata heap []
  | call {heap heap' : KernelHeapAllocator} {live live' : List LiveBlock} {c : HeapCall}
      (before : HeapRun s e metadata heap live) (step : HeapStep heap live c heap' live') :
      HeapRun s e metadata heap' live'

/-! ### Replaying a history -/

/-- One call, computed. -/
def replayCall (state : KernelHeapAllocator × List LiveBlock) :
    HeapCall → Option (KernelHeapAllocator × List LiveBlock)
  | .alloc size =>
    if size < 2 ^ 32 then
      match state.1.alloc size with
      | none => none
      | some (heap, .returned p) => some (heap, ⟨p, size⟩ :: state.2)
      | some (heap, .panicked _) => some (heap, state.2)
    else none
  | .free block =>
    if block ∈ state.2 then
      (state.1.dealloc block.ptr).map fun answer => (answer.1, state.2.erase block)
    else none

/-- A history over the arena `[s, e)`, computed from the construction on. -/
def replay (s e metadata : Nat) (calls : List HeapCall) :
    Option (KernelHeapAllocator × List LiveBlock) := do
  let heap ← KernelHeapAllocator.construct s e metadata
  if heap.buddy.isSome then calls.foldlM replayCall (heap, []) else none

theorem heapStep_of_replayCall {state state' : KernelHeapAllocator × List LiveBlock} {c : HeapCall}
    (h : replayCall state c = some state') : HeapStep state.1 state.2 c state'.1 state'.2 := by
  cases c with
  | alloc size =>
      simp only [replayCall] at h
      split at h
      · rename_i hunsigned
        split at h
        · cases h
        · rename_i hcall
          cases h
          exact .allocated hunsigned hcall
        · rename_i hcall
          cases h
          exact .outOfMemory hunsigned hcall
      · cases h
  | free block =>
      simp only [replayCall] at h
      split at h
      · rename_i hlive
        rw [Option.map_eq_some_iff] at h
        obtain ⟨answer, hcall, rfl⟩ := h
        exact .freed hlive hcall
      · cases h

/-- A history that can be replayed is a run. -/
theorem heapRun_of_replay {s e metadata : Nat} {calls : List HeapCall}
    {state : KernelHeapAllocator × List LiveBlock} (h : replay s e metadata calls = some state) :
    HeapRun s e metadata state.1 state.2 := by
  have hcalls : ∀ (calls : List HeapCall) (before : KernelHeapAllocator × List LiveBlock),
      HeapRun s e metadata before.1 before.2 → calls.foldlM replayCall before = some state →
        HeapRun s e metadata state.1 state.2 := by
    intro calls
    induction calls with
    | nil =>
        intro before hrun hfold
        cases hfold
        exact hrun
    | cons c calls ih =>
        intro before hrun hfold
        rw [List.foldlM_cons, Option.bind_eq_bind, Option.bind_eq_some_iff] at hfold
        obtain ⟨next, hcall, hrest⟩ := hfold
        exact ih next (.call hrun (heapStep_of_replayCall hcall)) hrest
  rw [replay, Option.bind_eq_bind, Option.bind_eq_some_iff] at h
  obtain ⟨heap, hconstruct, h⟩ := h
  split at h
  · rename_i husable
    exact hcalls calls (heap, []) (.constructed hconstruct (Option.some_get husable).symm) h
  · cases h

/-- A heap with the blocks that are live at the end of a history that can be replayed. -/
theorem exists_heapRun_of_replay {s e metadata : Nat} (calls : List HeapCall) {live : List LiveBlock}
    (h : (replay s e metadata calls).map Prod.snd = some live) :
    ∃ heap, HeapRun s e metadata heap live := by
  obtain ⟨⟨heap, live⟩, hreplay, rfl⟩ := Option.map_eq_some_iff.mp h
  exact ⟨heap, heapRun_of_replay hreplay⟩

example : (replay 4096 4296 64 [.alloc 100, .alloc 10, .free ⟨4096, 100⟩, .alloc 1000]).map Prod.snd =
    some [⟨4224, 10⟩] := by decide +kernel

end Rpi4Kernel.Mem
