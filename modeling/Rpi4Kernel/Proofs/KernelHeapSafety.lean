/-
Module: Rpi4Kernel.Proofs.KernelHeapSafety
Layer: Proofs
Purpose: What the kernel heap guarantees its callers after every history of `alloc` and `free` over an
  arena of up to `2 ^ 36` bytes: live blocks are inside the arena, large enough and apart; the free
  space is exact; and the statuses of the tree show the live blocks and nothing else of the history.
Trusted boundary: none (fully proved)
Main exports: HeapSafe, heap_safe_of_run, freeSpace_of_run, SameStatuses, statuses_of_runs
-/
import Rpi4Kernel.Proofs.KernelHeapSpec

namespace Rpi4Kernel.Mem

open Rpi4Kernel.Theory Rpi4Kernel.Theory.IndexTree

/-! ### Safety -/

/-- The heap over `[s, e)` is safe for its callers: every live block is as long as the size asked for
    and inside the managed part of the arena, no two live blocks overlap, every call of `alloc`
    answers, and `free` of a live block returns. -/
structure HeapSafe (s e : Nat) (heap : KernelHeapAllocator) (live : List LiveBlock) : Prop where
  inside : ∀ block ∈ live, ∃ len, blockLength heap block = some len ∧ block.size ≤ len ∧
    s ≤ block.ptr ∧ block.ptr + len ≤ s + (e - s) / 64 * 64
  apart : live.Pairwise fun x y => ∀ lenX lenY, blockLength heap x = some lenX →
    blockLength heap y = some lenY → x.ptr + lenX ≤ y.ptr ∨ y.ptr + lenY ≤ x.ptr
  alloc_answers : ∀ size, ∃ heap' answer, heap.alloc size = some (heap', answer)
  free_returns : ∀ block ∈ live, ∃ heap', heap.dealloc block.ptr = some (heap', .returned ())

/-- The heap is safe after every history over an arena of at most `2 ^ 36` bytes. -/
theorem heap_safe_of_run {s e metadata : Nat} {heap : KernelHeapAllocator} {live : List LiveBlock}
    (hle : s ≤ e) (hword : e < 2 ^ 64) (hsize : e - s ≤ 2 ^ 36)
    (hrun : HeapRun s e metadata heap live) : HeapSafe s e heap live := by
  obtain ⟨tail, htail⟩ := exists_freshTail hle hword hsize hrun
  obtain ⟨T, h⟩ := heapInv_of_run htail hrun
  refine ⟨fun block hblock => ?_, ?_, fun size => ?_, fun block hblock => ?_⟩
  · have hplaced := h.placed block hblock
    have hinside := hplaced.inside
    refine ⟨blockSize block.size, blockLength_spec h hblock, le_blockSize _, ?_, ?_⟩
    · rw [hplaced.ptr_eq]
      omega
    · rw [hplaced.ptr_eq, hplaced.size_eq]
      omega
  · refine (blocks_disjoint h).imp_of_mem fun {x y} hx hy hxy lenX lenY hlenX hlenY => ?_
    rw [blockLength_spec h hx] at hlenX
    rw [blockLength_spec h hy] at hlenY
    cases hlenX
    cases hlenY
    exact hxy
  · rw [← alloc_toUnsigned]
    by_cases hserves : Serves T (toUnsigned size)
    · obtain ⟨heap', p, -, hcall, -⟩ :=
        alloc_returns h (fun x hx => (htail.1 x hx).mpr) (toUnsigned_lt size) hserves
      exact ⟨heap', .returned p, hcall⟩
    · exact ⟨heap, .panicked buddyOutOfMemory, alloc_panics h (toUnsigned_lt size) hserves⟩
  · obtain ⟨heap', -, hcall, -⟩ := dealloc_returns h hblock
    exact ⟨heap', hcall⟩

/-- Two blocks in an arena of 200 bytes, of which 192 are managed. -/
theorem heap_safe_of_two_blocks :
    ∃ heap, HeapRun 4096 4296 64 heap [⟨4224, 10⟩, ⟨4096, 100⟩] ∧
      HeapSafe 4096 4296 heap [⟨4224, 10⟩, ⟨4096, 100⟩] := by
  obtain ⟨heap, hrun⟩ : ∃ heap, HeapRun 4096 4296 64 heap [⟨4224, 10⟩, ⟨4096, 100⟩] :=
    exists_heapRun_of_replay [.alloc 100, .alloc 10] (by decide +kernel)
  exact ⟨heap, hrun, heap_safe_of_run (by norm_num) (by norm_num) (by norm_num) hrun⟩

/-! ### Free space -/

/-- After every history over an arena of 64 to `2 ^ 36` bytes, right after construction among them,
    `freeSpace` is the managed size less the block sizes of the live blocks. -/
theorem freeSpace_of_run {s e metadata : Nat} {heap : KernelHeapAllocator} {live : List LiveBlock}
    (hword : e < 2 ^ 64) (hlow : s + 64 ≤ e) (hhigh : e ≤ s + 2 ^ 36)
    (hrun : HeapRun s e metadata heap live) :
    (live.map fun block => blockSize block.size).sum ≤ (e - s) / 64 * 64 ∧
      heap.freeSpace =
        some ((e - s) / 64 * 64 - (live.map fun block => blockSize block.size).sum) := by
  obtain ⟨tail, htail⟩ := exists_freshTail (by omega) hword (by omega) hrun
  obtain ⟨T, h⟩ := heapInv_of_run htail hrun
  obtain ⟨free, hfree, hsum⟩ := freeSpace_add_live h htail.1
  refine ⟨by omega, ?_⟩
  rw [hfree]
  congr 1
  omega

/-- Of 192 managed bytes, blocks of 64 and 128 bytes leave nothing. -/
theorem freeSpace_of_two_blocks :
    ∃ heap, HeapRun 4096 4296 64 heap [⟨4224, 10⟩, ⟨4096, 100⟩] ∧ heap.freeSpace = some 0 := by
  obtain ⟨heap, hrun⟩ : ∃ heap, HeapRun 4096 4296 64 heap [⟨4224, 10⟩, ⟨4096, 100⟩] :=
    exists_heapRun_of_replay [.alloc 100, .alloc 10] (by decide +kernel)
  have hsum : ([⟨4224, 10⟩, ⟨4096, 100⟩].map fun block : LiveBlock => blockSize block.size).sum =
      192 := by decide +kernel
  have hspace := (freeSpace_of_run (by norm_num) (by norm_num) (by norm_num) hrun).2
  rw [hsum] at hspace
  exact ⟨heap, hrun, hspace⟩

/-! ### Histories leave no trace -/

/-- Two heaps report the same statuses at every position of a tree over `[s, e)`. -/
def SameStatuses (s e : Nat) (heap heap' : KernelHeapAllocator) : Prop :=
  ∀ i, InTree (arenaOrder ((e - s) / 64)) i →
    ∃ status, heapStatus heap (positionOf i) = some status ∧
      heapStatus heap' (positionOf i) = some status

/-- Any request that the first heap serves, the second one serves. -/
def ServesAll (heap heap' : KernelHeapAllocator) : Prop :=
  ∀ size, (∃ after p, heap.alloc size = some (after, .returned p)) →
    ∃ after p, heap'.alloc size = some (after, .returned p)

theorem serves_of_alloc {s b size p : Nat} {tail T : Taken (arenaOrder b)}
    {heap after : KernelHeapAllocator} {live : List LiveBlock} (h : HeapInv s b tail heap live T)
    (hcall : heap.alloc size = some (after, .returned p)) : Serves T (toUnsigned size) := by
  by_contra hnot
  rw [← alloc_toUnsigned, alloc_panics h (toUnsigned_lt size) hnot] at hcall
  cases hcall

/-- Equal taken sets serve the same requests. -/
theorem Serves.congr {b size : Nat} {T T' : Taken (arenaOrder b)} (hnodes : T.nodes = T'.nodes)
    (h : Serves T size) : Serves T' size := by
  have hstatus : T'.status = T.status := by
    funext i
    rw [Taken.status, Taken.status, hnodes]
  obtain ⟨hfits, p, hsearch⟩ := h
  exact ⟨hfits, p, by rw [hstatus]; exact hsearch⟩

/-- Two histories that end with the same live blocks leave the same statuses and serve the same
    requests; with no live block left, these are the statuses and requests of a fresh heap. -/
theorem statuses_of_runs {s e metadata metadata' : Nat} {heap heap' : KernelHeapAllocator}
    {live live' : List LiveBlock} (hword : e < 2 ^ 64) (hlow : s + 64 ≤ e) (hhigh : e ≤ s + 2 ^ 36)
    (hrun : HeapRun s e metadata heap live) (hrun' : HeapRun s e metadata' heap' live') :
    (SameBlocks live live' → SameStatuses s e heap heap' ∧ ServesAll heap heap') ∧
      (live = [] → ∀ fresh buddy, KernelHeapAllocator.construct s e metadata = some fresh →
        fresh.buddy = some buddy → SameStatuses s e fresh heap ∧ ServesAll fresh heap) := by
  obtain ⟨tail, htail⟩ := exists_freshTail (by omega) hword (by omega) hrun
  have hsame : ∀ {m m' : Nat} {heap heap' : KernelHeapAllocator} {live live' : List LiveBlock},
      HeapRun s e m heap live → HeapRun s e m' heap' live' → SameBlocks live live' →
        SameStatuses s e heap heap' ∧ ServesAll heap heap' := by
    intro m m' heap heap' live live' hrun hrun' hblocks
    obtain ⟨T, h⟩ := heapInv_of_run htail hrun
    obtain ⟨T', h'⟩ := heapInv_of_run htail hrun'
    have hnodes := h.nodes_eq_of_sameBlocks h' hblocks
    refine ⟨fun i hin => ⟨T.status i, heapStatus_spec h hin, ?_⟩, ?_⟩
    · rw [heapStatus_spec h' hin, Taken.status, Taken.status, hnodes]
    · rintro size ⟨after, p, hcall⟩
      rw [← alloc_toUnsigned]
      obtain ⟨after', p', -, hcall', -⟩ := alloc_returns h' (fun x hx => (htail.1 x hx).mpr)
        (toUnsigned_lt size) ((serves_of_alloc h hcall).congr hnodes)
      exact ⟨after', p', hcall'⟩
  refine ⟨hsame hrun hrun', ?_⟩
  rintro rfl fresh buddy hconstruct husable
  exact hsame (.constructed hconstruct husable) hrun fun ptr len => Iff.rfl

/-- Two allocations in either order leave the same statuses, and so does freeing both. -/
theorem statuses_of_two_orders :
    ∃ heap heap', HeapRun 4096 4296 64 heap [⟨4224, 10⟩, ⟨4096, 100⟩] ∧
      HeapRun 4096 4296 64 heap' [⟨4096, 100⟩, ⟨4224, 10⟩] ∧ SameStatuses 4096 4296 heap heap' := by
  obtain ⟨heap, hrun⟩ : ∃ heap, HeapRun 4096 4296 64 heap [⟨4224, 10⟩, ⟨4096, 100⟩] :=
    exists_heapRun_of_replay [.alloc 100, .alloc 10] (by decide +kernel)
  obtain ⟨heap', hrun'⟩ : ∃ heap, HeapRun 4096 4296 64 heap [⟨4096, 100⟩, ⟨4224, 10⟩] :=
    exists_heapRun_of_replay [.alloc 10, .alloc 100] (by decide +kernel)
  have hblocks : SameBlocks [⟨4224, 10⟩, ⟨4096, 100⟩] [⟨4096, 100⟩, ⟨4224, 10⟩] := by
    intro ptr len
    simp only [List.mem_cons, List.not_mem_nil, or_false, exists_eq_or_imp, exists_eq_left]
    exact or_comm
  exact ⟨heap, heap', hrun, hrun',
    ((statuses_of_runs (by norm_num) (by norm_num) (by norm_num) hrun hrun').1 hblocks).1⟩

end Rpi4Kernel.Mem
