/-
Module: Rpi4Kernel.Proofs.GlobalKernelAllocSpec
Layer: Proofs
Purpose: When `operator new` keeps to the size it is asked for. The allocators do, for every size that
  reaches them; what reaches them of a `size_t` is its remainder modulo `2 ^ 32`.
Trusted boundary: none (fully proved)
Main exports: Installed, Honours, Installed.alloc_spec, honours_iff_le, operatorNew_honours_iff
-/
import Rpi4Kernel.Mem.GlobalKernelAlloc
import Rpi4Kernel.Proofs.OutOfMemorySpec

namespace Rpi4Kernel.Mem

open Rpi4Kernel.Theory Rpi4Kernel.Theory.IndexTree

/-! ### Blocks and failures -/

/-- The length of the block at `p` that a call of `alloc` has handed out: the bytes that the boot
    allocator has given away in it, or the size of the position of the heap that `p` belongs to. -/
def grantedLength (p : Nat) : MemoryAllocator → MemoryAllocator → Option Nat
  | .boot before, .boot after => some (before.bytesLeft - after.bytesLeft).toNat
  | .heap _, .heap after => blockLength after ⟨p, 0⟩
  | _, _ => none

/-- The failure of each allocator: a null pointer, or the panic of the heap. -/
def Fails : MemoryAllocator → HeapAnswer Nat → Prop
  | .boot _, answer => answer = .returned 0
  | .heap _, answer => answer = .panicked buddyOutOfMemory

/-- The call of an operator on the installed `allocator`, asked for `size` bytes, fails or returns a
    block of at least as many. -/
def Honours (operator : GlobalKernelAlloc → Nat → Option (GlobalKernelAlloc × HeapAnswer Nat))
    (allocator : MemoryAllocator) (size : Nat) : Prop :=
  ∃ after answer, operator (.setAllocator allocator) size = some (.setAllocator after, answer) ∧
    (Fails allocator answer ∨
      ∃ p len, answer = .returned p ∧ grantedLength p allocator after = some len ∧ size ≤ len)

/-- The states of an installed allocator, each with the `unsigned` sizes that it can grant: any boot
    allocator; a heap after any history over an arena of at most `2 ^ 36` bytes; a heap that was
    constructed without a buddy. -/
inductive Installed : MemoryAllocator → (Nat → Prop) → Prop
  | boot (boot : BootAllocator) :
      Installed (.boot boot) fun size => (size : Int) ≤ boot.bytesLeft ∧ boot.ptr ≠ 0
  | heap {s e metadata : Nat} {heap : KernelHeapAllocator} {live : List LiveBlock} (le : s ≤ e)
      (word : e < 2 ^ 64) (arena : e - s ≤ 2 ^ 36) (run : HeapRun s e metadata heap live) :
      Installed (.heap heap) fun size => ∃ ptr, Available s ((e - s) / 64) live size ptr
  | noBuddy {heap : KernelHeapAllocator} (null : heap.buddy = none) :
      Installed (.heap heap) fun _ => False

/-! ### The allocators -/

/-- The size of the block handed out for an `unsigned` size. -/
def grantedSize : MemoryAllocator → Nat → Nat
  | .boot _, size => size
  | .heap _, size => blockSize size

theorem le_grantedSize (allocator : MemoryAllocator) (size : Nat) :
    size ≤ grantedSize allocator size := by
  cases allocator with
  | boot _ => exact le_rfl
  | heap _ => exact le_blockSize size

/-- No block for an `unsigned` size is as long as a size that does not fit an `unsigned`. -/
theorem grantedSize_toUnsigned_lt (allocator : MemoryAllocator) {size : Nat} (h : 2 ^ 32 ≤ size) :
    grantedSize allocator (toUnsigned size) < size := by
  have hlt := toUnsigned_lt size
  cases allocator with
  | boot _ => exact lt_of_lt_of_le hlt h
  | heap _ =>
      have hle : blockSize (toUnsigned size) ≤ 2 ^ 32 :=
        blockSize_le_two_pow_iff.mpr ⟨by norm_num [buddyAllocAlign], hlt.le⟩
      -- the remainder of `2 ^ 32` itself is 0, for which the block is one of 64 bytes
      rcases h.eq_or_lt with rfl | hmore
      · have hsmall : blockSize (toUnsigned (2 ^ 32)) ≤ 2 ^ 6 :=
          blockSize_le_two_pow_iff.mpr ⟨by norm_num [buddyAllocAlign], by norm_num [toUnsigned]⟩
        exact lt_of_le_of_lt hsmall (by norm_num)
      · exact lt_of_le_of_lt hle hmore

/-- A call of an allocator that grants the `unsigned` `size`, or does not, with the length of the
    block if it does. -/
def AllocSpec (allocator : MemoryAllocator) (grants : Nat → Prop) (size : Nat) : Prop :=
  ∃ after answer, allocator.alloc size = some (after, answer) ∧
    (grants size → ¬ Fails allocator answer ∧ ∃ p, answer = .returned p ∧
      grantedLength p allocator after = some (grantedSize allocator size)) ∧
    (¬ grants size → Fails allocator answer)

theorem BootAllocator.alloc_spec (boot : BootAllocator) {size : Nat} (hsize : size < 2 ^ 32) :
    AllocSpec (.boot boot) (fun size => (size : Int) ≤ boot.bytesLeft ∧ boot.ptr ≠ 0) size := by
  refine ⟨_, _, rfl, ?_, ?_⟩
  · rintro ⟨hle, hptr⟩
    simp only [Fails, BootAllocator.alloc, toUnsigned_of_lt hsize, if_pos hle,
      grantedLength, grantedSize]
    exact ⟨fun h0 => hptr (HeapAnswer.returned.inj h0), _, rfl, by congr 1; omega⟩
  · intro hnot
    simp only [Fails, BootAllocator.alloc, toUnsigned_of_lt hsize]
    split
    case isTrue hle => exact congrArg _ (by_contra fun hptr => hnot ⟨hle, hptr⟩)
    case isFalse => rfl

theorem KernelHeapAllocator.alloc_spec {s b : Nat} {tail T : Taken (arenaOrder b)}
    {heap : KernelHeapAllocator} {live : List LiveBlock} (h : HeapInv s b tail heap live T)
    (htail : ∀ x < 2 ^ (arenaOrder b - 1), tail.Covers x ↔ b ≤ x) {size : Nat} (hsize : size < 2 ^ 32) :
    AllocSpec (.heap heap) (fun size => ∃ ptr, Available s b live size ptr) size := by
  have hserves := serves_iff_exists_available h htail size
  by_cases hcase : Serves T size
  · obtain ⟨heap', p, T', hcall, hinv'⟩ := 
      alloc_returns h (fun x hx => (htail x hx).mpr) hsize hcase
    refine ⟨.heap heap', .returned p, ?_, fun _ => ?_, fun hnot => absurd (hserves.mp hcase) hnot⟩
    · rw [MemoryAllocator.alloc, alloc_toUnsigned, hcall]
      rfl
    · exact ⟨(by cases ·), p, rfl, blockLength_spec hinv' List.mem_cons_self⟩
  · refine ⟨.heap heap, .panicked buddyOutOfMemory, ?_,
      fun hgrants => absurd (hserves.mpr hgrants) hcase, fun _ => rfl⟩
    rw [MemoryAllocator.alloc, alloc_toUnsigned, alloc_panics h hsize hcase]
    rfl

/-- An installed allocator grants a size it can grant with a block of `grantedSize` bytes, and fails for
    every other one. -/
theorem Installed.alloc_spec {allocator : MemoryAllocator} {grants : Nat → Prop}
    (h : Installed allocator grants) {size : Nat} (hunsigned : size < 2 ^ 32) :
    AllocSpec allocator grants size := by
  cases h with
  | boot boot => exact boot.alloc_spec hunsigned
  | heap hle hword hsize hrun =>
      obtain ⟨tail, htail⟩ := exists_freshTail hle hword hsize hrun
      obtain ⟨T, hinv⟩ := heapInv_of_run htail hrun
      exact KernelHeapAllocator.alloc_spec hinv htail.1 hunsigned
  | @noBuddy heap hnull =>
      refine ⟨.heap heap, .panicked buddyOutOfMemory, ?_, False.elim, fun _ => rfl⟩
      rw [MemoryAllocator.alloc, KernelHeapAllocator.alloc, hnull]
      rfl

/-! ### The operators -/

/-- What an operator makes of a request, in terms of what the allocator hands out for the `unsigned`
    size. -/
theorem honours_iff_le {allocator : MemoryAllocator} {grants : Nat → Prop}
    (h : Installed allocator grants) (size : Nat) :
    Honours operatorNew allocator size ↔
      (grants (toUnsigned size) → size ≤ grantedSize allocator (toUnsigned size)) := by
  obtain ⟨after, answer, hcall, hgrants, hfails⟩ := h.alloc_spec (toUnsigned_lt size)
  have hnew : operatorNew (.setAllocator allocator) size = some (.setAllocator after, answer) := by
    simp only [operatorNew, GlobalKernelAlloc.alloc, GlobalKernelAlloc.setAllocator,
      toUnsigned_toUnsigned, hcall, Option.bind_eq_bind, Option.bind_some, Option.pure_def]
  constructor
  · rintro ⟨after', answer', hnew', hhonours⟩ hcan
    rw [hnew, Option.some.injEq, Prod.mk.injEq, GlobalKernelAlloc.setAllocator,
      GlobalKernelAlloc.setAllocator, GlobalKernelAlloc.mk.injEq, Option.some.injEq] at hnew'
    obtain ⟨rfl, rfl⟩ := hnew'
    obtain ⟨hnot, p, rfl, hlen⟩ := hgrants hcan
    rcases hhonours with hfail | ⟨p', len, hp, hlen', hle⟩
    · exact absurd hfail hnot
    · cases hp
      rw [hlen] at hlen'
      cases hlen'
      exact hle
  · intro hle
    refine ⟨after, answer, hnew, ?_⟩
    by_cases hcan : grants (toUnsigned size)
    · obtain ⟨-, p, hp, hlen⟩ := hgrants hcan
      exact Or.inr ⟨p, _, hp, hlen, hle hcan⟩
    · exact Or.inl (hfails hcan)

/-- `operator new` and `operator new[]` keep to the size asked for exactly when it fits an `unsigned` or
    the allocator cannot grant what is left of it. -/
theorem operatorNew_honours_iff {allocator : MemoryAllocator} {grants : Nat → Prop}
    (h : Installed allocator grants) (size : Nat) :
    (Honours operatorNew allocator size ∧ Honours operatorNewArray allocator size) ↔
      (size < 2 ^ 32 ∨ ¬ grants (size % 2 ^ 32)) := by
  have hboth : Honours operatorNewArray allocator size = Honours operatorNew allocator size := rfl
  rw [hboth, and_self, honours_iff_le h, toUnsigned]
  constructor
  · intro hle
    by_contra hnot
    push Not at hnot
    exact absurd (hle hnot.2) (not_le.mpr (grantedSize_toUnsigned_lt allocator hnot.1))
  · rintro (hlt | hnot)
    · intro _
      rw [Nat.mod_eq_of_lt hlt]
      exact le_grantedSize allocator size
    · exact fun hcan => absurd hcan hnot

/-- In an arena of 192 bytes with nothing handed out, 100 bytes are granted as asked for. -/
theorem operatorNew_honours_hundred : ∃ heap, HeapRun 4096 4296 64 heap [] ∧
    Honours operatorNew (.heap heap) 100 ∧ Honours operatorNewArray (.heap heap) 100 := by
  obtain ⟨heap, hrun⟩ : ∃ heap, HeapRun 4096 4296 64 heap [] :=
    exists_heapRun_of_replay [] (by decide +kernel)
  exact ⟨heap, hrun, (operatorNew_honours_iff
    (.heap (by norm_num) (by norm_num) (by norm_num) hrun) 100).mpr (Or.inl (by norm_num))⟩

/-- Asked for `2 ^ 32 + 64` bytes, `operator new` returns a block of 64. -/
theorem operatorNew_short : ∃ heap, HeapRun 4096 4296 64 heap [] ∧
    ¬ Honours operatorNew (.heap heap) (2 ^ 32 + 64) := by
  obtain ⟨heap, hrun⟩ : ∃ heap, HeapRun 4096 4296 64 heap [] :=
    exists_heapRun_of_replay [] (by decide +kernel)
  refine ⟨heap, hrun, fun hhonours => ?_⟩
  have hgrant : Available 4096 ((4296 - 4096) / 64) [] 64 4096 :=
    ⟨le_rfl, by norm_num, by decide +kernel, by simp⟩
  have hle := (honours_iff_le (.heap (by norm_num) (by norm_num) (by norm_num) hrun) _).mp hhonours
    ⟨4096, by norm_num [toUnsigned]; exact hgrant⟩
  exact absurd hle (not_le.mpr (grantedSize_toUnsigned_lt _ (by norm_num)))

end Rpi4Kernel.Mem
