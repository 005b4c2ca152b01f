/-
Module: Rpi4Kernel.Proofs.HeapCountersSpec
Layer: Proofs
Purpose: When the counters of the kernel heap are exact. What the tree has handed out is what is live
  and what calls of `alloc` hold that have not returned; `bytes_left` lacks the live sizes and those
  that such calls have written. A step that meets `keepsCounters` keeps both, and the counters stay in
  range because the blocks fit in the arena.
Trusted boundary: none (fully proved)
Main exports: Balanced, Balanced.exact, Balanced.step, counters_exact_of_run
-/
import Rpi4Kernel.Mem.HeapCounters
import Rpi4Kernel.Proofs.KernelHeapSpec
import Rpi4Kernel.Theory.Runs

namespace Rpi4Kernel.Mem

open Rpi4Kernel.Theory

/-- A sum over all callers, one of which has moved. -/
theorem sum_update_add {α β M : Type*} [Fintype α] [DecidableEq α] [AddCommMonoid M] (f : β → M)
    (point : α → β) (a : α) (x : β) :
    ∑ b, f (Function.update point a x b) + f (point a) = ∑ b, f (point b) + f x := by
  have hrest : ∑ b ∈ Finset.univ.erase a, f (Function.update point a x b) =
      ∑ b ∈ Finset.univ.erase a, f (point b) := by
    refine Finset.sum_congr rfl fun b hb => ?_
    rw [Function.update_of_ne (Finset.ne_of_mem_erase hb)]
  rw [← Finset.add_sum_erase Finset.univ _ (Finset.mem_univ a),
    ← Finset.add_sum_erase Finset.univ (fun b => f (point b)) (Finset.mem_univ a), hrest,
    Function.update_self]
  abel

/-- A sum that does not see the move. -/
theorem sum_update_eq {α β M : Type*} [Fintype α] [DecidableEq α] [AddCancelCommMonoid M] {f : β → M}
    {point : α → β} {a : α} {x : β} (h : f x = f (point a)) :
    ∑ b, f (Function.update point a x b) = ∑ b, f (point b) := by
  have hsum := sum_update_add f point a x
  rw [h] at hsum
  exact add_right_cancel hsum

/-! ### The section under the lock -/

/-- A call of `alloc` without anyone in between is the section under the lock and the two updates. -/
theorem alloc_eq_lockedAlloc {heap heap' : KernelHeapAllocator} {size : Nat} {block : LiveBlock}
    (hunsigned : size < 2 ^ 32) (h : lockedAlloc heap size = some (heap', block)) : block.size = size ∧
      heap.alloc size = some ({ heap' with
        bytesLeft := KernelHeapAllocator.subU64 heap.bytesLeft size
        allocations := (heap.allocations + 1) % sizeMax }, .returned block.ptr) := by
  rw [lockedAlloc] at h
  cases hbuddy : heap.buddy with
  | none =>
      rw [hbuddy] at h
      cases h
  | some buddy =>
      simp only [hbuddy, Option.bind_eq_bind, Option.bind_some, Option.bind_eq_some_iff] at h
      obtain ⟨⟨buddy', out⟩, hmalloc, p, hout, heq⟩ := h
      cases heq
      obtain rfl : out = some p := hout
      refine ⟨rfl, ?_⟩
      rw [KernelHeapAllocator.alloc, toUnsigned_of_lt hunsigned]
      simp only [hbuddy, hmalloc, Option.bind_eq_bind, Option.bind_some]
      rfl

/-- `free` lowers `allocations` and leaves `bytes_left` as it is. -/
theorem dealloc_counters {heap heap' : KernelHeapAllocator} {p : Nat} {value : Unit}
    (h : heap.dealloc p = some (heap', .returned value)) : heap'.bytesLeft = heap.bytesLeft ∧
      heap'.allocations = KernelHeapAllocator.subU64 heap.allocations 1 := by
  rw [KernelHeapAllocator.dealloc] at h
  cases hbuddy : heap.buddy with
  | none =>
      rw [hbuddy] at h
      cases h
  | some buddy =>
      simp only [hbuddy, Option.bind_eq_bind, Option.bind_eq_some_iff] at h
      obtain ⟨answer, -, heq⟩ := h
      cases answer with
      | error message => cases heq
      | ok buddy' =>
          cases heq
          exact ⟨rfl, rfl⟩

theorem construct_counters {s e metadata : Nat} {heap : KernelHeapAllocator}
    (h : KernelHeapAllocator.construct s e metadata = some heap) :
    heap.bytesLeft = KernelHeapAllocator.subU64 e s ∧ heap.allocations = 0 := by
  simp only [KernelHeapAllocator.construct, Option.bind_eq_bind, Option.bind_eq_some_iff] at h
  obtain ⟨_, -, heq⟩ := h
  cases heq
  exact ⟨rfl, rfl⟩

theorem lockedAlloc_counters {heap heap' : KernelHeapAllocator} {size : Nat} {block : LiveBlock}
    (h : lockedAlloc heap size = some (heap', block)) :
    heap'.bytesLeft = heap.bytesLeft ∧ heap'.allocations = heap.allocations := by
  simp only [lockedAlloc, Option.bind_eq_bind, Option.bind_eq_some_iff] at h
  obtain ⟨_, -, _, -, _, -, heq⟩ := h
  cases heq
  exact ⟨rfl, rfl⟩

section Heap

variable {s b : Nat} {tail T : Taken (arenaOrder b)} {heap heap' : KernelHeapAllocator}
  {blocks blocks' : List LiveBlock}

/-- The invariant is about the buddy, not about the counters. -/
theorem HeapInv.congr_buddy (h : HeapInv s b tail heap blocks T) (hbuddy : heap'.buddy = heap.buddy) :
    HeapInv s b tail heap' blocks T where
  buddy := by
    rw [hbuddy]
    exact h.buddy
  start_ne_zero := h.start_ne_zero
  nodes_eq := h.nodes_eq
  nodup := h.nodup
  apart := h.apart
  placed := h.placed

/-- The section under the lock takes one more block. -/
theorem lockedAlloc_spec (h : HeapInv s b tail heap blocks T)
    (htail : ∀ x < 2 ^ (arenaOrder b - 1), b ≤ x → tail.Covers x) {size : Nat} {block : LiveBlock}
    (hunsigned : size < 2 ^ 32) (hcall : lockedAlloc heap size = some (heap', block)) :
    ∃ T', HeapInv s b tail heap' (block :: blocks) T' := by
  obtain ⟨hsize, halloc⟩ := alloc_eq_lockedAlloc hunsigned hcall
  by_cases hserves : Serves T size
  · obtain ⟨heap₁, p, T', halloc₁, hinv⟩ := alloc_returns h htail hunsigned hserves
    rw [halloc₁, Option.some.injEq, Prod.mk.injEq] at halloc
    obtain ⟨rfl, hp⟩ := halloc
    cases hp
    rw [← hsize] at hinv
    exact ⟨T', hinv.congr_buddy rfl⟩
  · rw [alloc_panics h hunsigned hserves] at halloc
    simp only [Option.some.injEq, Prod.mk.injEq, reduceCtorEq, and_false] at halloc

/-- The blocks fit in the arena. -/
theorem HeapInv.sum_sizes_le (h : HeapInv s b tail heap blocks T)
    (htail : ∀ x < 2 ^ (arenaOrder b - 1), tail.Covers x ↔ b ≤ x) :
    (blocks.map LiveBlock.size).sum ≤ 64 * b ∧ blocks.length ≤ b := by
  obtain ⟨free, -, hsum⟩ := freeSpace_add_live h htail
  have hsizes : (blocks.map LiveBlock.size).sum ≤
      (blocks.map fun block => blockSize block.size).sum :=
    List.sum_le_sum fun block _ => le_blockSize block.size
  have hcount : blocks.length • 64 ≤ (blocks.map fun block => blockSize block.size).sum := by
    rw [← List.length_map (fun block : LiveBlock => blockSize block.size)]
    refine List.card_nsmul_le_sum _ 64 fun len hlen => ?_
    obtain ⟨block, -, rfl⟩ := List.mem_map.mp hlen
    exact le_trans (le_max_left _ _) (Nat.le_pow_clog (by norm_num) _)
  rw [smul_eq_mul] at hcount
  omega

end Heap

/-! ### The invariant -/

namespace AllocPoint

/-- The block that the call will return. -/
def block : AllocPoint → LiveBlock
  | .released block => block
  | .bytesRead block _ => block
  | .bytesWritten block => block
  | .allocationsRead block _ => block

/-- The call has written `bytes_left`. -/
def wroteBytes : AllocPoint → Bool
  | .released _ => false
  | .bytesRead _ _ => false
  | .bytesWritten _ => true
  | .allocationsRead _ _ => true

end AllocPoint

/-- The block of a call in progress. -/
def heldBlock : Option AllocPoint → Multiset LiveBlock
  | none => 0
  | some point => {point.block}

theorem heldBlock_none : heldBlock none = 0 := rfl

/-- The size that a call in progress has taken off `bytes_left`. -/
def writtenSize : Option AllocPoint → Nat
  | none => 0
  | some point => if point.wroteBytes then point.block.size else 0

/-- The size that a call in progress is going to take off `bytes_left`. -/
def unwrittenSize : Option AllocPoint → Nat
  | none => 0
  | some point => if point.wroteBytes then 0 else point.block.size

/-- What the call has read of a counter is what the counter shows. -/
def AllocPoint.Fresh (heap : KernelHeapAllocator) : AllocPoint → Prop
  | .bytesRead _ bytesLeft => bytesLeft = heap.bytesLeft
  | .allocationsRead _ allocations => allocations = heap.allocations
  | _ => True

/-- A value read stays fresh as long as its counter does not change. -/
theorem AllocPoint.Fresh.mono {heap heap' : KernelHeapAllocator} {point : AllocPoint}
    (h : point.Fresh heap) (hbytes : point.holdsBytes → heap'.bytesLeft = heap.bytesLeft)
    (hallocations : point.holdsAllocations → heap'.allocations = heap.allocations) :
    point.Fresh heap' := by
  cases point with
  | released _ => trivial
  | bytesRead _ _ => exact Eq.trans h (hbytes rfl).symm
  | bytesWritten _ => trivial
  | allocationsRead _ _ => exact Eq.trans h (hallocations rfl).symm

section Invariant

variable {α : Type} [Fintype α]

/-- The sum of the sizes of the blocks held is what is written and what is not. -/
theorem sum_heldBlock (point : α → Option AllocPoint) :
    ((∑ a, heldBlock (point a)).map LiveBlock.size).sum =
      ∑ a, writtenSize (point a) + ∑ a, unwrittenSize (point a) := by
  have hmap : ((∑ a, heldBlock (point a)).map LiveBlock.size).sum =
      ∑ a, ((heldBlock (point a)).map LiveBlock.size).sum :=
    map_sum (Multiset.sumAddMonoidHom.comp (Multiset.mapAddMonoidHom LiveBlock.size)) _ _
  rw [hmap, ← Finset.sum_add_distrib]
  refine Finset.sum_congr rfl fun a _ => ?_
  cases hpoint : point a with
  | none => rfl
  | some at' => cases at' <;> simp [heldBlock, writtenSize, unwrittenSize, AllocPoint.wroteBytes]

/-- The counters and the tree of a heap over `arena` bytes, `b` blocks of them managed, agree with the
    blocks returned and the calls in progress. -/
structure Balanced (s b arena : Nat) (tail : Taken (arenaOrder b)) (calls : HeapCalls α) : Prop where
  blocks : ∃ blocks T, HeapInv s b tail calls.heap blocks T ∧
    (blocks : Multiset LiveBlock) = calls.live + ∑ a, heldBlock (calls.point a)
  bytes : calls.heap.bytesLeft + (calls.live.map LiveBlock.size).sum +
    ∑ a, writtenSize (calls.point a) = arena
  count : calls.heap.allocations = calls.live.length
  fresh : ∀ a point, calls.point a = some point → point.Fresh calls.heap

namespace Balanced

variable {s b arena : Nat} {tail : Taken (arenaOrder b)} {calls calls' : HeapCalls α}

/-- A heap that was just constructed is balanced. -/
theorem of_construct {e metadata : Nat} {heap : KernelHeapAllocator} (hle : s ≤ e)
    (hword : e < 2 ^ 64) (hconstruct : KernelHeapAllocator.construct s e metadata = some heap)
    (hinv : HeapInv s b tail heap [] tail) :
    Balanced s b (e - s) tail (HeapCalls.fresh heap : HeapCalls α) := by
  obtain ⟨hbytes, hallocations⟩ := construct_counters hconstruct
  refine ⟨⟨[], tail, hinv, ?_⟩, ?_, hallocations, fun a point hpoint => by cases hpoint⟩
  · simp [HeapCalls.fresh, heldBlock_none]
  · simp [HeapCalls.fresh, writtenSize, hbytes, subU64_eq hle hword]

/-- `bytes_left` is enough for every call that has not taken its size off yet. -/
theorem unwritten_le (h : Balanced s b arena tail calls)
    (htail : ∀ x < 2 ^ (arenaOrder b - 1), tail.Covers x ↔ b ≤ x) (harena : 64 * b ≤ arena) :
    ∑ a, unwrittenSize (calls.point a) ≤ calls.heap.bytesLeft ∧
      calls.live.length + (∑ a, heldBlock (calls.point a)).card ≤ b := by
  obtain ⟨blocks, T, hinv, hblocks⟩ := h.blocks
  obtain ⟨hfit, hlength⟩ := hinv.sum_sizes_le htail
  have hsum := congrArg (fun m => (m.map LiveBlock.size).sum) hblocks
  have hcard := congrArg Multiset.card hblocks
  simp only [Multiset.map_coe, Multiset.sum_coe, Multiset.map_add, Multiset.sum_add,
    sum_heldBlock] at hsum
  simp only [Multiset.coe_card, Multiset.card_add] at hcard
  have hbytes := h.bytes
  omega

/-- A size that is about to be taken off `bytes_left` is there. -/
theorem size_le (h : Balanced s b arena tail calls)
    (htail : ∀ x < 2 ^ (arenaOrder b - 1), tail.Covers x ↔ b ≤ x) (harena : 64 * b ≤ arena)
    {a : α} {point : AllocPoint} (hpoint : calls.point a = some point)
    (hwrites : point.wroteBytes = false) : point.block.size ≤ calls.heap.bytesLeft := by
  have hone : unwrittenSize (calls.point a) ≤ ∑ c, unwrittenSize (calls.point c) :=
    Finset.single_le_sum (f := fun c => unwrittenSize (calls.point c)) (fun _ _ => Nat.zero_le _)
      (Finset.mem_univ a)
  rw [hpoint, unwrittenSize, hwrites] at hone
  exact le_trans hone (h.unwritten_le htail harena).1

/-- What holds of the counters in a balanced state. -/
theorem exact (h : Balanced s b arena tail calls)
    (htail : ∀ x < 2 ^ (arenaOrder b - 1), tail.Covers x ↔ b ≤ x) (harena : 64 * b ≤ arena) :
    calls.Exact arena := by
  refine ⟨fun _ => h.count, fun hquiet => ?_, fun a block bytesLeft hpoint => ?_, fun hlive => ?_⟩
  · have hnone : ∑ a, writtenSize (calls.point a) = 0 :=
      Finset.sum_eq_zero fun a _ => by rw [hquiet a]; rfl
    have hbytes := h.bytes
    omega
  · obtain rfl : bytesLeft = calls.heap.bytesLeft := h.fresh a _ hpoint
    exact h.size_le htail harena hpoint rfl
  · rw [h.count]
    exact List.length_pos_of_ne_nil hlive

/-! ### Steps -/

variable {a : α} {block : LiveBlock}

/-- The call of `free`. -/
theorem free_step (h : Balanced s b arena tail calls) (hword : arena < sizeMax)
    (htail : ∀ x < 2 ^ (arenaOrder b - 1), tail.Covers x ↔ b ≤ x) (harena : 64 * b ≤ arena)
    {heap : KernelHeapAllocator} {value : Unit}
    (hlive : block ∈ calls.live) (hcall : calls.heap.dealloc block.ptr = some (heap, .returned value))
    (hzero : block.size = 0)
    (halone : ∀ c, ¬ (calls.point c).any AllocPoint.holdsAllocations = true) :
    Balanced s b arena tail { calls with heap := heap, live := calls.live.erase block } := by
  obtain ⟨blocks, T, hinv, hblocks⟩ := h.blocks
  have hmem : block ∈ blocks := by
    rw [← Multiset.mem_coe, hblocks]
    exact Multiset.mem_add.mpr (Or.inl hlive)
  obtain ⟨hbytes, hallocations⟩ := dealloc_counters hcall
  obtain ⟨heap', T', hcall', hinv'⟩ := dealloc_returns hinv hmem
  rw [hcall', Option.some.injEq, Prod.mk.injEq] at hcall
  obtain ⟨rfl, -⟩ := hcall
  have hperm := List.perm_cons_erase hlive
  have hsizes := (hperm.map LiveBlock.size).sum_eq
  have hlength := hperm.length_eq
  simp only [List.map_cons, List.sum_cons, List.length_cons] at hsizes hlength
  have hsub : KernelHeapAllocator.subU64 calls.heap.allocations 1 = calls.heap.allocations - 1 := by
    have hcount := h.count
    have hfew := (h.unwritten_le htail harena).2
    exact subU64_eq (by omega) (by unfold sizeMax at hword; omega)
  refine ⟨⟨blocks.erase block, T', hinv', ?_⟩, ?_, ?_, fun c point hpoint => ?_⟩
  · rw [← Multiset.coe_erase, hblocks, Multiset.erase_add_left_pos _ (Multiset.mem_coe.mpr hlive),
      Multiset.coe_erase]
  · have hold := h.bytes
    simp only [hbytes]
    omega
  · rw [hallocations, hsub, h.count]
    dsimp only
    omega
  · refine (h.fresh c point hpoint).mono (fun _ => hbytes) fun hholds => absurd ?_ (halone c)
    rw [hpoint]
    exact hholds

variable [DecidableEq α]

/-- Freshness after a move of one caller: the others must not hold what has changed. -/
theorem fresh_update (h : Balanced s b arena tail calls) {heap : KernelHeapAllocator}
    {x : Option AllocPoint}
    (hbytes : ∀ c, c ≠ a → (calls.point c).any AllocPoint.holdsBytes = true →
      heap.bytesLeft = calls.heap.bytesLeft)
    (hallocations : ∀ c, c ≠ a → (calls.point c).any AllocPoint.holdsAllocations = true →
      heap.allocations = calls.heap.allocations)
    (hx : ∀ point, x = some point → point.Fresh heap) :
    ∀ c point, Function.update calls.point a x c = some point → point.Fresh heap := by
  intro c point hpoint
  by_cases hc : c = a
  · rw [hc, Function.update_self] at hpoint
    exact hx point hpoint
  · rw [Function.update_of_ne hc] at hpoint
    refine (h.fresh c point hpoint).mono (fun hholds => hbytes c hc ?_)
      fun hholds => hallocations c hc ?_
    · rw [hpoint]
      exact hholds
    · rw [hpoint]
      exact hholds

/-- A caller enters `alloc` and gets a block. -/
theorem alloc_step (h : Balanced s b arena tail calls)
    (htail : ∀ x < 2 ^ (arenaOrder b - 1), tail.Covers x ↔ b ≤ x) {size : Nat}
    {heap : KernelHeapAllocator} (hnone : calls.point a = none) (hunsigned : size < 2 ^ 32)
    (hcall : lockedAlloc calls.heap size = some (heap, block)) :
    Balanced s b arena tail { calls.setPoint a (some (.released block)) with heap := heap } := by
  obtain ⟨blocks, T, hinv, hblocks⟩ := h.blocks
  obtain ⟨T', hinv'⟩ := lockedAlloc_spec hinv (fun x hx => (htail x hx).mpr) hunsigned hcall
  obtain ⟨hbytes, hallocations⟩ := lockedAlloc_counters hcall
  have hheld : ∑ c, heldBlock (Function.update calls.point a (some (.released block)) c) =
      ∑ c, heldBlock (calls.point c) + {block} := by
    have hsum := sum_update_add heldBlock calls.point a (some (.released block))
    rwa [hnone, heldBlock_none, add_zero] at hsum
  have hwritten : ∑ c, writtenSize (Function.update calls.point a (some (.released block)) c) =
      ∑ c, writtenSize (calls.point c) := sum_update_eq (by rw [hnone]; rfl)
  refine ⟨⟨block :: blocks, T', hinv', ?_⟩, ?_, ?_, ?_⟩
  · simp only [HeapCalls.setPoint, hheld, ← Multiset.cons_coe, hblocks]
    rw [← add_assoc, ← Multiset.singleton_add, add_comm]
  · simp only [HeapCalls.setPoint, hwritten, hbytes]
    exact h.bytes
  · simp only [HeapCalls.setPoint, hallocations]
    exact h.count
  · refine h.fresh_update (fun _ _ _ => hbytes) (fun _ _ _ => hallocations) fun point hpoint => ?_
    cases hpoint
    trivial

/-- A step of a call that moves neither its block nor its size. -/
theorem move_step (h : Balanced s b arena tail calls) {x : Option AllocPoint}
    (hheld : heldBlock x = heldBlock (calls.point a))
    (hwritten : writtenSize x = writtenSize (calls.point a))
    (hx : ∀ point, x = some point → point.Fresh calls.heap) :
    Balanced s b arena tail (calls.setPoint a x) := by
  obtain ⟨blocks, T, hinv, hblocks⟩ := h.blocks
  refine ⟨⟨blocks, T, hinv, ?_⟩, ?_, h.count, h.fresh_update (fun _ _ _ => rfl)
    (fun _ _ _ => rfl) hx⟩
  · simp only [HeapCalls.setPoint, sum_update_eq hheld]
    exact hblocks
  · simp only [HeapCalls.setPoint, sum_update_eq hwritten]
    exact h.bytes

/-- The write of `bytes_left`. -/
theorem writeBytes_step (h : Balanced s b arena tail calls)
    (htail : ∀ x < 2 ^ (arenaOrder b - 1), tail.Covers x ↔ b ≤ x) (harena : 64 * b ≤ arena)
    (hword : arena < sizeMax) {bytesLeft : Nat}
    (hpoint : calls.point a = some (.bytesRead block bytesLeft))
    (halone : block.size = 0 ∨ ∀ c, c ≠ a → ¬ (calls.point c).any AllocPoint.holdsBytes = true) :
    Balanced s b arena tail (calls.proceed a (.bytesRead block bytesLeft)) := by
  obtain ⟨blocks, T, hinv, hblocks⟩ := h.blocks
  obtain rfl : bytesLeft = calls.heap.bytesLeft := h.fresh a _ hpoint
  have hle : block.size ≤ calls.heap.bytesLeft := h.size_le htail harena hpoint rfl
  have hbytes := h.bytes
  have hsub : KernelHeapAllocator.subU64 calls.heap.bytesLeft block.size =
      calls.heap.bytesLeft - block.size := subU64_eq hle (by unfold sizeMax at hword; omega)
  have hheld : ∑ c, heldBlock (Function.update calls.point a (some (.bytesWritten block)) c) =
      ∑ c, heldBlock (calls.point c) := sum_update_eq (by rw [hpoint]; rfl)
  have hwritten : ∑ c, writtenSize (Function.update calls.point a (some (.bytesWritten block)) c) =
      ∑ c, writtenSize (calls.point c) + block.size := by
    have hsum := sum_update_add writtenSize calls.point a (some (.bytesWritten block))
    rwa [hpoint] at hsum
  refine ⟨⟨blocks, T, hinv.congr_buddy rfl, ?_⟩, ?_, h.count, ?_⟩
  · simp only [HeapCalls.proceed, HeapCalls.setPoint, hheld]
    exact hblocks
  · simp only [HeapCalls.proceed, HeapCalls.setPoint, hwritten, hsub]
    omega
  · refine h.fresh_update (fun c hc hholds => ?_) (fun _ _ _ => rfl) fun point hnew => ?_
    · rcases halone with hzero | halone
      · exact hsub.trans (by rw [hzero, Nat.sub_zero])
      · exact absurd hholds (halone c hc)
    · cases hnew
      trivial

/-- The write of `allocations`, with which `alloc` returns. -/
theorem writeAllocations_step (h : Balanced s b arena tail calls)
    (htail : ∀ x < 2 ^ (arenaOrder b - 1), tail.Covers x ↔ b ≤ x) (harena : 64 * b ≤ arena)
    (hword : arena < sizeMax) {allocations : Nat}
    (hpoint : calls.point a = some (.allocationsRead block allocations))
    (halone : ∀ c, c ≠ a → ¬ (calls.point c).any AllocPoint.holdsAllocations = true) :
    Balanced s b arena tail (calls.proceed a (.allocationsRead block allocations)) := by
  obtain ⟨blocks, T, hinv, hblocks⟩ := h.blocks
  obtain rfl : allocations = calls.heap.allocations := h.fresh a _ hpoint
  have hheld : ∑ c, heldBlock (Function.update calls.point a none c) + {block} =
      ∑ c, heldBlock (calls.point c) := by
    have hsum := sum_update_add heldBlock calls.point a none
    rwa [hpoint, heldBlock_none, add_zero] at hsum
  have hwritten : ∑ c, writtenSize (Function.update calls.point a none c) + block.size =
      ∑ c, writtenSize (calls.point c) := by
    have hsum := sum_update_add writtenSize calls.point a none
    rwa [hpoint] at hsum
  have hroom : calls.live.length < b := by
    have hcard := (h.unwritten_le htail harena).2
    rw [← hheld, Multiset.card_add, Multiset.card_singleton] at hcard
    omega
  have hbytes := h.bytes
  refine ⟨⟨blocks, T, hinv.congr_buddy rfl, ?_⟩, ?_, ?_, ?_⟩
  · simp only [HeapCalls.proceed, HeapCalls.setPoint]
    rw [hblocks, ← hheld, ← Multiset.cons_coe, ← Multiset.singleton_add]
    abel
  · simp only [HeapCalls.proceed, HeapCalls.setPoint, List.map_cons, List.sum_cons]
    omega
  · simp only [HeapCalls.proceed, HeapCalls.setPoint, List.length_cons, h.count]
    exact Nat.mod_eq_of_lt (by omega)
  · exact h.fresh_update (fun _ _ _ => rfl) (fun c hc hholds => absurd hholds (halone c hc))
      fun point hnew => by cases hnew

/-- A step that meets the condition keeps the balance. -/
theorem step (h : Balanced s b arena tail calls)
    (htail : ∀ x < 2 ^ (arenaOrder b - 1), tail.Covers x ↔ b ≤ x) (harena : 64 * b ≤ arena)
    (hword : arena < sizeMax) {event : HeapEvent α} (hmeets : calls.keepsCounters event = true)
    (hstep : heapStep calls event = some calls') : Balanced s b arena tail calls' := by
  cases event with
  | alloc a size =>
      simp only [heapStep] at hstep
      split at hstep
      case isTrue hguard =>
        obtain ⟨⟨heap, block⟩, hcall, rfl⟩ := Option.map_eq_some_iff.mp hstep
        exact h.alloc_step htail hguard.1 hguard.2 hcall
      case isFalse => cases hstep
  | proceed a =>
      obtain ⟨point, hpoint, rfl⟩ := Option.map_eq_some_iff.mp hstep
      simp only [HeapCalls.keepsCounters, hpoint] at hmeets
      cases point with
      | released block =>
          exact h.move_step (by rw [hpoint]; rfl) (by rw [hpoint]; rfl) fun _ hnew => by cases hnew; rfl
      | bytesRead block bytesLeft =>
          exact h.writeBytes_step htail harena hword hpoint (of_decide_eq_true hmeets)
      | bytesWritten block =>
          exact h.move_step (by rw [hpoint]; rfl) (by rw [hpoint]; rfl) fun _ hnew => by cases hnew; rfl
      | allocationsRead block allocations =>
          exact h.writeAllocations_step htail harena hword hpoint (of_decide_eq_true hmeets)
  | free a block =>
      obtain ⟨hzero, halone⟩ := of_decide_eq_true hmeets
      simp only [heapStep] at hstep
      split at hstep
      case isTrue hguard =>
        split at hstep
        case h_1 hcall =>
          cases hstep
          exact h.free_step hword htail harena hguard.2 hcall hzero halone
        case h_2 => cases hstep
      case isFalse => cases hstep

end Balanced

end Invariant

/-! ### Runs -/

/-- In every run over an arena of at most `2 ^ 36` bytes, all of whose steps meet `keepsCounters`, the
    counters are exact in every state reached. -/
theorem counters_exact_of_run {α : Type} [Fintype α] [DecidableEq α] {s e metadata : Nat}
    {heap : KernelHeapAllocator} {buddy : Buddy} {calls : HeapCalls α} (hle : s ≤ e)
    (hword : e < 2 ^ 64) (hsize : e - s ≤ 2 ^ 36)
    (hconstruct : KernelHeapAllocator.construct s e metadata = some heap)
    (husable : heap.buddy = some buddy)
    (hrun : RunWhere heapStep HeapCalls.keepsCounters (.fresh heap) calls) : calls.Exact (e - s) := by
  obtain ⟨tail, htail⟩ := exists_freshTail hle hword hsize (.constructed hconstruct husable)
  have harena : 64 * ((e - s) / 64) ≤ e - s := Nat.mul_div_le _ _
  have hbalanced : Balanced s ((e - s) / 64) (e - s) tail calls := by
    have hstart := Balanced.of_construct (α := α) hle hword hconstruct (htail.2 hconstruct husable)
    exact hrun.invariant hstart fun calls event calls' h hmeets hstep =>
      h.step htail.1 harena (by unfold sizeMax; omega) hmeets hstep
  exact hbalanced.exact htail.1 harena

/-- Cores 0 and 1 are both in `alloc`, one update after the other: both blocks are counted. -/
theorem counters_exact_of_two_cores : ∃ heap, ∃ calls : HeapCalls (Fin 4),
    KernelHeapAllocator.construct 4096 4296 64 = some heap ∧ calls.live.length = 2 ∧
      calls.Exact 200 := by
  have hcalls : (KernelHeapAllocator.construct 4096 4296 64).any (fun heap => heap.buddy.isSome &&
      (Theory.replay heapStep HeapCalls.keepsCounters (.fresh heap)
        [.alloc (0 : Fin 4) 100, .alloc 1 10, .proceed 0, .proceed 0, .proceed 1, .proceed 1,
          .proceed 1, .proceed 1, .proceed 0, .proceed 0]).any
        fun calls => calls.live.length == 2) = true := by decide +kernel
  obtain ⟨heap, hconstruct, hheap⟩ := (Option.any_eq_true _ _).mp hcalls
  obtain ⟨husable, hreplay⟩ := (Bool.and_eq_true _ _).mp hheap
  obtain ⟨buddy, husable⟩ := Option.isSome_iff_exists.mp husable
  obtain ⟨calls, hrun, hlength⟩ := RunWhere.exists_of_replay _ hreplay
  exact ⟨heap, calls, hconstruct, beq_iff_eq.mp hlength,
    counters_exact_of_run (by norm_num) (by norm_num) (by norm_num) hconstruct husable hrun⟩

/-- The counters drift: after an `alloc(100)` and the `free` of its block no block is live and 100
    bytes are missing; and of two calls of `alloc` that read `allocations` before the other one writes
    it, one is not counted. -/
theorem counters_drift : ∃ heap, KernelHeapAllocator.construct 4096 4296 64 = some heap ∧
    (∃ calls : HeapCalls (Fin 4), Run heapStep (.fresh heap) calls ∧ calls.Quiet ∧
      (calls.live.length = 0 ∧ calls.heap.bytesLeft = 100) ∧ ¬ calls.Exact 200) ∧
    (∃ calls : HeapCalls (Fin 4), Run heapStep (.fresh heap) calls ∧ calls.Quiet ∧
      (calls.live.length = 2 ∧ calls.heap.allocations = 1) ∧ ¬ calls.Exact 200) := by
  have hcalls : (KernelHeapAllocator.construct 4096 4296 64).any (fun heap =>
      (Theory.replay heapStep (fun _ _ => true) (.fresh heap)
        [.alloc (0 : Fin 4) 100, .proceed 0, .proceed 0, .proceed 0, .proceed 0,
          .free 0 ⟨4096, 100⟩]).any
        (fun calls => decide ((∀ a, calls.point a = none) ∧
          calls.live.length = 0 ∧ calls.heap.bytesLeft = 100)) &&
      (Theory.replay heapStep (fun _ _ => true) (.fresh heap)
        [.alloc (0 : Fin 4) 100, .alloc 1 10, .proceed 0, .proceed 0, .proceed 1, .proceed 1,
          .proceed 0, .proceed 1, .proceed 0, .proceed 1]).any
        (fun calls => decide ((∀ a, calls.point a = none) ∧
          calls.live.length = 2 ∧ calls.heap.allocations = 1))) = true := by decide +kernel
  obtain ⟨heap, hconstruct, hheap⟩ := (Option.any_eq_true _ _).mp hcalls
  obtain ⟨hbytes, hcount⟩ := (Bool.and_eq_true _ _).mp hheap
  obtain ⟨calls, hrun, hcalls⟩ := RunWhere.exists_of_replay _ hbytes
  obtain ⟨calls', hrun', hcalls'⟩ := RunWhere.exists_of_replay _ hcount
  obtain ⟨hquiet, hlive, hleft⟩ := of_decide_eq_true hcalls
  obtain ⟨hquiet', hlive', hallocations⟩ := of_decide_eq_true hcalls'
  refine ⟨heap, hconstruct, ⟨calls, hrun, hquiet, ⟨hlive, hleft⟩, fun hexact => ?_⟩,
    ⟨calls', hrun', hquiet', ⟨hlive', hallocations⟩, fun hexact => ?_⟩⟩
  · have hsum := hexact.bytes hquiet
    rw [hleft, List.length_eq_zero_iff.mp hlive] at hsum
    cases hsum
  · have heq := hexact.count hquiet'
    rw [hlive', hallocations] at heq
    cases heq

end Rpi4Kernel.Mem
