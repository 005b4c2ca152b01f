/-
Module: Rpi4Kernel.Mem.BuddyApi
Layer: Mem
Purpose: The calls of `mem/Buddy.cpp` that work on the contents of blocks as well as on the tree:
  `buddy_calloc`, `buddy_realloc`, `buddy_reallocarray` and `buddy_safe_free`, with `memset` and the
  two calls that choose the way to search, and `buddy_walk`. As in `Rpi4Kernel.Mem.Buddy`, `none` is
  undefined behaviour or a loop that does not end, and the null pointer is address 0 as an argument
  and `none` as an answer.
Trusted boundary: the metadata of the allocator is not in its arena (`buddy_init`, not `buddy_embed`);
  the function that `buddy_walk` is given does not call the allocator.
Main exports: memset, BuddyHeap, buddyCalloc, buddyRealloc, buddyReallocarray, buddySafeFree,
  buddyWalk, BuddyCall, BuddyHeap.call
-/
import Rpi4Kernel.Mem.KernelHeapAllocator
import Rpi4Kernel.Mem.Memmove

namespace Rpi4Kernel.Mem

/-- The loop of `memset`, from byte `i` on: `for (size_t i = 0; i < n; i++) ((char *)dest)[i] = v;`. -/
def memsetLoop (dest : BitVec 64) (v : Byte) : Nat → Nat → ByteMemory → ByteMemory
  | _, 0, mem => mem
  | i, left + 1, mem => memsetLoop dest v (i + 1) left (Function.update mem (byteAt dest i) v)

/-- `memset`. -/
def memset (mem : ByteMemory) (dest : BitVec 64) (v : Byte) (n : BitVec 64) : ByteMemory :=
  memsetLoop dest v 0 n.toNat mem

/-- An allocator and the memory. -/
structure BuddyHeap where
  buddy : Buddy
  mem : ByteMemory

/-- `buddy_set_left_bias` on a buddy that is not null. -/
def buddySetLeftBias (buddy : Buddy) : Buddy :=
  { buddy with buddyFlags := buddy.buddyFlags ||| buddyLeftBiasFlag }

/-- `buddy_set_optimal_fit` on a buddy that is not null. -/
def buddySetOptimalFit (buddy : Buddy) : Buddy :=
  { buddy with buddyFlags := buddy.buddyFlags &&& (sizeMax - 1 - buddyLeftBiasFlag) }

/-- `buddy_malloc`; the memory stays as it is. -/
def BuddyHeap.malloc (heap : BuddyHeap) (requestedSize : BitVec 64) :
    Option (BuddyHeap × Option Nat) := do
  let (buddy, result) ← buddyMalloc heap.buddy requestedSize.toNat
  return ({ heap with buddy := buddy }, result)

/-- `buddy_calloc`. -/
def buddyCalloc (heap : BuddyHeap) (membersCount memberSize : BitVec 64) :
    Option (BuddyHeap × Option Nat) :=
  let (membersCount, memberSize) :=
    if membersCount = 0 ∨ memberSize = 0 then (1, 1) else (membersCount, memberSize)
  if membersCount * memberSize / membersCount ≠ memberSize then some (heap, none)
  else do
    let totalSize := membersCount * memberSize
    let (heap, result) ← heap.malloc totalSize
    match result with
    | some p => return ({ heap with mem := memset heap.mem (BitVec.ofNat 64 p) 0 totalSize }, some p)
    | none => return (heap, none)

/-- `buddy_free`; the memory stays as it is. -/
def BuddyHeap.free (heap : BuddyHeap) (ptr : Nat) : Option (Except String BuddyHeap) := do
  let result ← buddyFree heap.buddy ptr
  return result.map fun buddy => { heap with buddy := buddy }

/-- The part of `buddy_realloc` behind the checks of its arguments. -/
def buddyMove (heap : BuddyHeap) (ptr requestedSize : Nat) : Option (BuddyHeap × Option Nat) := do
  let buddy := heap.buddy
  let tree := buddy.tree
  let origin ← positionForAddress buddy ptr
  if buddyTreeValid tree origin then
    let currentDepth := origin.depth
    let targetDepth ← depthForSize buddy requestedSize
    -- release the position and perform a search
    let tree ← buddyTreeRelease tree origin
    let newPos ← buddyTreeFindFree tree (targetDepth % 256) (buddyIsLeftBiased buddy)
    if buddyTreeValid tree newPos then
      if origin.index = newPos.index then
        let tree ← buddyTreeMark tree origin
        return ({ heap with buddy := { buddy with tree := tree } }, some ptr)
      else
        let source := addressForPosition buddy origin
        let destination := addressForPosition buddy newPos
        let size := sizeForDepth buddy (if targetDepth < currentDepth then currentDepth
          else targetDepth)
        let mem := memmove heap.mem (BitVec.ofNat 64 destination) (BitVec.ofNat 64 source)
          (BitVec.ofNat 64 size)
        let tree ← buddyTreeMark tree newPos
        return ({ buddy := { buddy with tree := tree }, mem := mem }, some destination)
    else
      let tree ← buddyTreeMark tree origin
      return ({ heap with buddy := { buddy with tree := tree } }, none)
  else
    return (heap, none)

/-- `buddy_realloc`. The inner error is the panic of `buddy_free`. -/
def buddyRealloc (heap : BuddyHeap) (ptr : Nat) (requestedSize : BitVec 64) :
    Option (Except String (BuddyHeap × Option Nat)) :=
  if ptr = 0 then (heap.malloc requestedSize).map .ok
  else if requestedSize = 0 then (heap.free ptr).map fun result => result.map fun heap => (heap, none)
  else if heap.buddy.memorySize < requestedSize.toNat then some (.ok (heap, none))
  else (buddyMove heap ptr requestedSize.toNat).map .ok

/-- `buddy_reallocarray`. -/
def buddyReallocarray (heap : BuddyHeap) (ptr : Nat) (membersCount memberSize : BitVec 64) :
    Option (Except String (BuddyHeap × Option Nat)) :=
  if membersCount = 0 ∨ memberSize = 0 then buddyRealloc heap ptr 0
  else if membersCount * memberSize / membersCount ≠ memberSize then some (.ok (heap, none))
  else buddyRealloc heap ptr (membersCount * memberSize)

/-- `buddy_safe_free` on a buddy that is not null. -/
def buddySafeFree (buddy : Buddy) (ptr requestedSize : Nat) : Option Buddy :=
  if ptr = 0 then some buddy
  else
    let main := buddyMain buddy
    if ptr < main ∨ main + buddy.memorySize ≤ ptr then some buddy
    else do
      let pos ← positionForAddress buddy ptr
      if buddyTreeValid buddy.tree pos then
        let allocatedSizeForDepth := sizeForDepth buddy pos.depth
        let requestedSize := if requestedSize < buddyAllocAlign then buddyAllocAlign else requestedSize
        if allocatedSizeForDepth < requestedSize then return buddy
        else if requestedSize ≤ allocatedSizeForDepth / 2 then return buddy
        else
          let tree ← buddyTreeRelease buddy.tree pos
          return { buddy with tree := tree }
      else return buddy

/-! ### Walking -/

section

variable {γ ρ : Type}

/-- The test of `buddy_walk` on a position that is not empty: it is allocated, and not because both of
    its children are full. -/
def buddyWalkAllocated (tree : BuddyTree) (pos : BuddyTreePos) (posStatus : Nat) : Option Bool :=
  if posStatus = tree.order - pos.depth + 1 then
    let left := buddyTreeLeftChild pos
    if buddyTreeValid tree left then (buddyTreeStatus tree left).map fun status => status = 0
    else some true
  else some false

/-- The test of what `fp` returns: a null pointer lets the walk go on. -/
def buddyWalkAnswer : γ × Option ρ → Except (γ × Option ρ) γ
  | (ctx, some result) => .error (ctx, some result)
  | (ctx, none) => .ok ctx

/-- What `buddy_walk` does at an allocated position: it returns, or it goes on. -/
def buddyWalkProcess (buddy : Buddy) (fp : γ → Nat → Nat → γ × Option ρ) (pos : BuddyTreePos)
    (ctx : γ) :
    Except (γ × Option ρ) γ :=
  let posSize := buddyEffectiveMemorySize buddy >>> (pos.depth - 1)
  let addr := addressForPosition buddy pos
  if buddy.memorySize < addr - buddyMain buddy + posSize then .error (ctx, none)
  else buddyWalkAnswer (fp ctx addr posSize)

/-- One turn of the loop of `buddy_walk` up to `buddy_tree_walk`. -/
def buddyWalkTurn (buddy : Buddy) (fp : γ → Nat → Nat → γ × Option ρ) (state : BuddyTreeWalkState)
    (ctx : γ) :
    Option (Except (γ × Option ρ) (BuddyTreeWalkState × γ)) :=
  match buddyTreeStatus buddy.tree state.currentPos with
  | none => none
  | some 0 => some (.ok ({ state with goingUp := true }, ctx))
  | some posStatus =>
    match buddyWalkAllocated buddy.tree state.currentPos posStatus with
    | none => none
    | some false => some (.ok (state, ctx))
    | some true => some ((buddyWalkProcess buddy fp state.currentPos ctx).map fun ctx => (state, ctx))

/-- The loop of `buddy_walk`. It visits no position twice. -/
def buddyWalkLoop (buddy : Buddy) (fp : γ → Nat → Nat → γ × Option ρ) :
    Nat → BuddyTreeWalkState → γ → Option (γ × Option ρ)
  | 0, _, _ => none
  | fuel + 1, state, ctx =>
    match buddyWalkTurn buddy fp state ctx with
    | none => none
    | some (.error result) => some result
    | some (.ok (state, ctx)) =>
      match buddyTreeWalk buddy.tree state with
      | none => none
      | some state => if state.walkDone then some (ctx, none) else buddyWalkLoop buddy fp fuel state ctx

/-- `buddy_walk` on a buddy and a function that are not null: the context as `fp` has left it, and the
    result. -/
def buddyWalk (buddy : Buddy) (fp : γ → Nat → Nat → γ × Option ρ) (ctx : γ) : Option (γ × Option ρ) :=
  buddyWalkLoop buddy fp (2 ^ buddy.tree.order) buddyTreeWalkStateRoot ctx

end

/-! ### Calls -/

/-- A call, or the write of a byte into a block. -/
inductive BuddyCall where
  | malloc (size : BitVec 64)
  | calloc (membersCount memberSize : BitVec 64)
  | realloc (ptr : Nat) (size : BitVec 64)
  | reallocarray (ptr : Nat) (membersCount memberSize : BitVec 64)
  | free (ptr : Nat)
  | safeFree (ptr : Nat) (size : BitVec 64)
  | setLeftBias
  | setOptimalFit
  | write (ptr i : Nat) (v : Byte)
deriving DecidableEq, Repr

/-- A call on a heap, with its answer, or the message of a panic. -/
def BuddyHeap.call (heap : BuddyHeap) : BuddyCall → Option (Except String (BuddyHeap × Option Nat))
  | .malloc size => (heap.malloc size).map .ok
  | .calloc membersCount memberSize => (buddyCalloc heap membersCount memberSize).map .ok
  | .realloc ptr size => buddyRealloc heap ptr size
  | .reallocarray ptr membersCount memberSize => buddyReallocarray heap ptr membersCount memberSize
  | .free ptr => (heap.free ptr).map fun result => result.map fun heap => (heap, none)
  | .safeFree ptr size =>
    (buddySafeFree heap.buddy ptr size.toNat).map fun buddy => .ok ({ heap with buddy := buddy }, none)
  | .setLeftBias => some (.ok ({ heap with buddy := buddySetLeftBias heap.buddy }, none))
  | .setOptimalFit => some (.ok ({ heap with buddy := buddySetOptimalFit heap.buddy }, none))
  | .write ptr i v =>
    some (.ok ({ heap with mem := Function.update heap.mem (byteAt (BitVec.ofNat 64 ptr) i) v }, none))

end Rpi4Kernel.Mem
