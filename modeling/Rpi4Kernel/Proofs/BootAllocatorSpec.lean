/-
Module: Rpi4Kernel.Proofs.BootAllocatorSpec
Layer: Proofs
Purpose: The boot allocator over whole sequences of calls. It serves the requests that fit, one behind
  the other: its blocks are disjoint and inside the range, and its free space is exact. It does
  nothing about alignment, so that a block is usable for a heap exactly when the sizes served before
  it allow it.
Trusted boundary: none (fully proved)
Main exports: BootAllocator.allocAll_spec, BootAllocationsUsable, bootAllocations_usable_iff
-/
import Rpi4Kernel.Mem.GlobalKernelAlloc
import Rpi4Kernel.Proofs.KernelHeapSpec
import Rpi4Kernel.Theory.Consecutive

namespace Rpi4Kernel.Mem

open Rpi4Kernel.Theory

/-! ### What a sequence of calls does -/

/-- The blocks of a sequence of answers: those that are not null. -/
def blocksOf (answers : List LiveBlock) : List LiveBlock :=
  answers.filter fun block => block.ptr ≠ 0

/-- The block with this start and length. -/
def blockAt (range : Nat × Nat) : LiveBlock := ⟨range.1, range.2⟩

/-- What reaches the allocator of a sequence of requests. -/
def asked (sizes : List Nat) : List Nat := sizes.map toUnsigned

/-- The bytes that the constructor counts, as a `long`. -/
def bootSpace (s e : Nat) : Int := ((e : Int) - s).bmod sizeMax

namespace BootAllocator

variable {boot : BootAllocator} {size : Nat}

/-- A request that fits gets the next bytes. -/
theorem alloc_of_fits (h : (toUnsigned size : Int) ≤ boot.bytesLeft) : boot.alloc size =
    ({ ptr := boot.ptr + toUnsigned size, bytesLeft := boot.bytesLeft - toUnsigned size }, boot.ptr) :=
  if_pos h

/-- Any other request is refused. -/
theorem alloc_of_not_fits (h : ¬ (toUnsigned size : Int) ≤ boot.bytesLeft) :
    boot.alloc size = (boot, 0) :=
  if_neg h

theorem allocAll_cons (boot : BootAllocator) (size : Nat) (sizes : List Nat) :
    boot.allocAll (size :: sizes) =
      (((boot.alloc size).1.allocAll sizes).1,
        ⟨(boot.alloc size).2, toUnsigned size⟩ :: ((boot.alloc size).1.allocAll sizes).2) :=
  rfl

/-- The allocator serves the requests that fit, and its blocks are consecutive. -/
theorem allocAll_spec (boot : BootAllocator) (sizes : List Nat) :
    (boot.allocAll sizes).1 =
        { ptr := boot.ptr + (fitting boot.bytesLeft (asked sizes)).sum,
          bytesLeft := boot.bytesLeft - (fitting boot.bytesLeft (asked sizes)).sum } ∧
      blocksOf (boot.allocAll sizes).2 =
        blocksOf ((consecutive boot.ptr (fitting boot.bytesLeft (asked sizes))).map blockAt) := by
  induction sizes generalizing boot with
  | nil => simp [allocAll, asked, fitting, consecutive]
  | cons size sizes ih =>
      rw [allocAll_cons, show asked (size :: sizes) = toUnsigned size :: asked sizes from rfl, fitting]
      by_cases hfits : (toUnsigned size : Int) ≤ boot.bytesLeft
      · rw [alloc_of_fits hfits, if_pos hfits]
        obtain ⟨hfinal, hblocks⟩ :=
          ih { ptr := boot.ptr + toUnsigned size, bytesLeft := boot.bytesLeft - toUnsigned size }
        constructor
        · rw [hfinal, List.sum_cons]
          simp only [BootAllocator.mk.injEq]
          omega
        · simp only [consecutive, List.map_cons, blocksOf, List.filter_cons] at hblocks ⊢
          rw [hblocks]
          rfl
      · rw [alloc_of_not_fits hfits, if_neg hfits]
        obtain ⟨hfinal, hblocks⟩ := ih boot
        constructor
        · exact hfinal
        · exact hblocks

end BootAllocator

/-- From an address that is not null on, every served request gets a block. -/
theorem blocksOf_consecutive {base : Nat} (hbase : base ≠ 0) (sizes : List Nat) :
    blocksOf ((consecutive base sizes).map blockAt) = (consecutive base sizes).map blockAt := by
  apply List.filter_eq_self.mpr
  intro block hblock
  obtain ⟨range, hrange, rfl⟩ := List.mem_map.mp hblock
  have hle := (consecutive_bounds hrange).1
  have hne : range.1 ≠ 0 := by omega
  exact decide_eq_true hne

/-- At address 0 the requests of no bytes get a null pointer, and so does the first other one. -/
theorem blocksOf_consecutive_zero {sizes : List Nat}
    (h : ((blocksOf ((consecutive 0 sizes).map blockAt)).map LiveBlock.size).sum = sizes.sum) :
    ∀ size ∈ sizes, size = 0 := by
  induction sizes with
  | nil => nofun
  | cons size sizes ih =>
      have hdrop : blocksOf ((consecutive 0 (size :: sizes)).map blockAt) =
          blocksOf ((consecutive size sizes).map blockAt) := by
        simp [blocksOf, consecutive, blockAt]
      rw [hdrop, List.sum_cons] at h
      cases size with
      | zero =>
          rw [Nat.zero_add] at h
          exact List.forall_mem_cons.mpr ⟨rfl, ih h⟩
      | succ size =>
          rw [blocksOf_consecutive (Nat.succ_ne_zero size), List.map_map] at h
          have hsizes : (consecutive (size + 1) sizes).map (LiveBlock.size ∘ blockAt) = sizes :=
            consecutive_sizes _ _
          rw [hsizes] at h
          omega

/-- Nothing but requests of no bytes: all blocks are null. -/
theorem blocksOf_consecutive_of_zero {sizes : List Nat} (h : ∀ size ∈ sizes, size = 0) :
    blocksOf ((consecutive 0 sizes).map blockAt) = [] := by
  induction sizes with
  | nil => rfl
  | cons size sizes ih =>
      obtain ⟨rfl, hrest⟩ := List.forall_mem_cons.mp h
      have hdrop : blocksOf ((consecutive 0 (0 :: sizes)).map blockAt) =
          blocksOf ((consecutive 0 sizes).map blockAt) := by
        simp [blocksOf, consecutive, blockAt]
      rw [hdrop, ih hrest]

/-! ### The space that is left -/

/-- A range of at least `2 ^ 63` bytes has a negative number of bytes for the allocator. -/
theorem bootSpace_cases {s e : Nat} (hle : s ≤ e) (hword : e < 2 ^ 64) :
    bootSpace s e = ((e - s : Nat) : Int) ∧ 0 ≤ bootSpace s e ∨
      bootSpace s e = ((e - s : Nat) : Int) - 2 ^ 64 ∧ bootSpace s e < 0 := by
  unfold bootSpace sizeMax
  rw [Int.bmod_def]
  split <;> omega

/-- What fits never takes more than the range, and the free space is the rest. -/
theorem freeSpace_of_served {s e p : Nat} {sizes : List Nat} (hle : s ≤ e) (hword : e < 2 ^ 64) :
    (fitting (bootSpace s e) sizes).sum ≤ e - s ∧
      BootAllocator.freeSpace ⟨p, bootSpace s e - (fitting (bootSpace s e) sizes).sum⟩ +
        (fitting (bootSpace s e) sizes).sum = e - s := by
  unfold BootAllocator.freeSpace sizeMax
  rcases bootSpace_cases hle hword with ⟨heq, hpos⟩ | ⟨heq, hneg⟩
  · have hsum := @fitting_sum_le _ sizes hpos
    constructor
    · omega
    · simp only
      omega
  · rw [fitting_of_neg hneg, heq]
    constructor
    · exact Nat.zero_le _
    · simp only [List.sum_nil]
      omega

/-! ### Usable boot allocations -/

/-- The blocks that a boot allocator over `[s, e)` answers to these requests. -/
def bootBlocks (s e : Nat) (sizes : List Nat) : List LiveBlock :=
  blocksOf ((BootAllocator.construct s e).allocAll sizes).2

/-- The boot allocator over `[s, e)` after these requests. -/
def bootAfter (s e : Nat) (sizes : List Nat) : BootAllocator :=
  ((BootAllocator.construct s e).allocAll sizes).1

/-- A heap can be set up with its metadata at `p`: over every arena at an address that `buddy_init`
    accepts and of at least one block, the constructor does not end up with a null buddy, and it does
    construct a heap over all arenas whose tree has an order of at most 31. -/
def ServesHeap (p : Nat) : Prop :=
  ∀ s e, s ≠ 0 → s % 8 = 0 → s ≠ p → s + 64 ≤ e → e < 2 ^ 64 →
    (∀ heap, KernelHeapAllocator.construct s e p = some heap → heap.buddy ≠ none) ∧
      ((e - s) / 64 ≤ 2 ^ 30 → ∃ heap, KernelHeapAllocator.construct s e p = some heap)

/-- What the callers of the boot allocator rely on, for the range `[s, e)` and a sequence of
    requests. -/
structure BootAllocationsUsable (s e : Nat) (sizes : List Nat) : Prop where
  disjoint : ((bootBlocks s e sizes).filter fun block => block.size ≠ 0).Pairwise fun a b =>
    a.ptr + a.size ≤ b.ptr ∨ b.ptr + b.size ≤ a.ptr
  inside : ∀ block ∈ bootBlocks s e sizes, block.size ≠ 0 →
    s ≤ block.ptr ∧ block.ptr + block.size ≤ e
  freeSpace : ∀ before, before <+: sizes →
    (bootAfter s e before).freeSpace + ((bootBlocks s e before).map LiveBlock.size).sum = e - s
  refused : ∀ before size, before ++ [size] <+: sizes →
    ((bootAfter s e before).alloc size).2 = 0 →
      ((bootAfter s e before).alloc size).1 = bootAfter s e before
  aligned : ∀ block ∈ bootBlocks s e sizes, block.ptr % 8 = 0
  heaps : ∀ block ∈ bootBlocks s e sizes, ServesHeap block.ptr

/-- Aligned metadata is all that a heap asks of the boot allocator. -/
theorem servesHeap_of_aligned {p : Nat} (hp : p ≠ 0) (halign : p % 8 = 0) : ServesHeap p := by
  intro s e hs hsalign hne hfits hword
  have hplaces : AcceptedPlaces p s := ⟨hp, hs, hne.symm, halign, hsalign⟩
  have hblocks : 0 < (e - s) / 64 := by omega
  simp only [KernelHeapAllocator.construct, subU64_eq (show s ≤ e by omega) hword]
  constructor
  · intro heap hcall
    rw [buddyInit_of_accepted hplaces hblocks] at hcall
    cases htoggle : buddyToggleVirtualSlots (freshBuddy p s (64 * ((e - s) / 64))) with
    | none => simp [htoggle] at hcall
    | some buddy =>
        simp only [htoggle, Option.map_some, Option.bind_eq_bind, Option.bind_some, Option.pure_def,
          Option.some.injEq] at hcall
        rw [← hcall]
        intro h
        cases h
  · intro hle
    obtain ⟨buddy, -, -, hinit, -, -⟩ := buddyInit_spec hplaces hblocks hle
    rw [hinit]
    exact ⟨_, rfl⟩

theorem bootAfter_eq (s e : Nat) (sizes : List Nat) :
    bootAfter s e sizes =
      { ptr := s + (fitting (bootSpace s e) (asked sizes)).sum,
        bytesLeft := bootSpace s e - (fitting (bootSpace s e) (asked sizes)).sum } :=
  ((BootAllocator.construct s e).allocAll_spec sizes).1

theorem bootBlocks_eq (s e : Nat) (sizes : List Nat) :
    bootBlocks s e sizes =
      blocksOf ((consecutive s (fitting (bootSpace s e) (asked sizes))).map blockAt) :=
  ((BootAllocator.construct s e).allocAll_spec sizes).2

theorem bootBlocks_eq_consecutive {s : Nat} (hs : s ≠ 0) (e : Nat) (sizes : List Nat) :
    bootBlocks s e sizes = (consecutive s (fitting (bootSpace s e) (asked sizes))).map blockAt := by
  rw [bootBlocks_eq, blocksOf_consecutive hs]

/-- The requests by which the answers of a boot allocator over `[s, e)` are usable, as they reach it:
    from address 0 on nothing but requests of no bytes is served, and every served request with
    another one behind it is of a multiple of 8 bytes. -/
def KeepsAlignment (s e : Nat) (sizes : List Nat) : Prop :=
  (s = 0 → ∀ size ∈ fitting (bootSpace s e) (asked sizes), size = 0) ∧
    ∀ size ∈ (fitting (bootSpace s e) (asked sizes)).dropLast, 8 ∣ size

theorem mem_fitting_of_fits {s e size : Nat} {before sizes : List Nat}
    (hbefore : before ++ [size] <+: sizes)
    (hfits : (toUnsigned size : Int) ≤ (bootAfter s e before).bytesLeft) :
    toUnsigned size ∈ fitting (bootSpace s e) (asked sizes) := by
  obtain ⟨after, rfl⟩ := hbefore
  rw [bootAfter_eq] at hfits
  rw [asked, List.map_append, List.map_append, List.append_assoc, fitting_append, List.map_singleton,
    List.singleton_append, fitting]
  simp only [asked] at hfits
  rw [if_pos hfits]
  exact List.mem_append_right _ List.mem_cons_self

/-- From address 0 on a request of some bytes that fits consumes them and is answered by a null pointer:
    the free space goes out of step with the blocks. -/
theorem served_zero_of_freeSpace {e : Nat} {sizes : List Nat} (hword : e < 2 ^ 64)
    (h : (bootAfter 0 e sizes).freeSpace + ((bootBlocks 0 e sizes).map LiveBlock.size).sum = e - 0) :
    ∀ size ∈ fitting (bootSpace 0 e) (asked sizes), size = 0 := by
  obtain ⟨-, hfree⟩ := @freeSpace_of_served 0 e
    (0 + (fitting (bootSpace 0 e) (asked sizes)).sum) (asked sizes) (Nat.zero_le e) hword
  rw [bootAfter_eq, bootBlocks_eq] at h
  exact blocksOf_consecutive_zero (by omega)

/-- From an address that is not null on, the starts of the blocks are aligned when the sizes before
    are. -/
theorem aligned_iff {s : Nat} (hs : s ≠ 0) (halign : s % 16 = 0) (e : Nat) (sizes : List Nat) :
    (∀ block ∈ bootBlocks s e sizes, block.ptr % 8 = 0) ↔
      ∀ size ∈ (fitting (bootSpace s e) (asked sizes)).dropLast, 8 ∣ size := by
  rw [bootBlocks_eq_consecutive hs, ← consecutive_aligned_iff (show 8 ∣ s by omega),
    List.forall_mem_map]
  constructor
  · intro h range hrange
    exact Nat.dvd_of_mod_eq_zero (h range hrange)
  · intro h range hrange
    exact Nat.mod_eq_zero_of_dvd (h range hrange)

namespace KeepsAlignment

variable {s e : Nat} {sizes : List Nat}

theorem zero_of_prefix (h : KeepsAlignment s e sizes) {before : List Nat} (hbefore : before <+: sizes)
    (hs : s = 0) : ∀ size ∈ fitting (bootSpace s e) (asked before), size = 0 := by
  obtain ⟨after, rfl⟩ := hbefore
  intro size hsize
  apply h.1 hs
  rw [asked, List.map_append, fitting_append]
  exact List.mem_append_left _ hsize

/-- The blocks are those of the layout, and there are none where the layout starts at a null pointer. -/
theorem bootBlocks_eq (h : KeepsAlignment s e sizes) {before : List Nat} (hbefore : before <+: sizes) :
    bootBlocks s e before =
      if s = 0 then [] else (consecutive s (fitting (bootSpace s e) (asked before))).map blockAt := by
  split
  case isTrue hs =>
    have hzero := h.zero_of_prefix hbefore hs
    subst hs
    rw [Mem.bootBlocks_eq, blocksOf_consecutive_of_zero hzero]
  case isFalse hs => exact bootBlocks_eq_consecutive hs e before

theorem mem_bootBlocks (h : KeepsAlignment s e sizes) {block : LiveBlock}
    (hblock : block ∈ bootBlocks s e sizes) :
    s ≠ 0 ∧ ∃ range ∈ consecutive s (fitting (bootSpace s e) (asked sizes)), blockAt range = block := by
  rw [h.bootBlocks_eq List.prefix_rfl] at hblock
  split at hblock
  case isTrue => cases hblock
  case isFalse hs => exact ⟨hs, List.mem_map.mp hblock⟩

theorem aligned (h : KeepsAlignment s e sizes) (halign : s % 16 = 0) {block : LiveBlock}
    (hblock : block ∈ bootBlocks s e sizes) : block.ptr ≠ 0 ∧ block.ptr % 8 = 0 := by
  obtain ⟨hs, range, hrange, rfl⟩ := h.mem_bootBlocks hblock
  constructor
  · exact Nat.ne_of_gt (lt_of_lt_of_le (Nat.pos_of_ne_zero hs) (consecutive_bounds hrange).1)
  · exact (aligned_iff hs halign e sizes).mpr h.2 _ hblock

theorem disjoint (h : KeepsAlignment s e sizes) :
    (bootBlocks s e sizes).Pairwise fun a b => a.ptr + a.size ≤ b.ptr ∨ b.ptr + b.size ≤ a.ptr := by
  rw [h.bootBlocks_eq List.prefix_rfl]
  split
  case isTrue => exact List.Pairwise.nil
  case isFalse =>
    rw [List.pairwise_map]
    apply (consecutive_pairwise s _).imp
    intro a b hab
    exact Or.inl hab

theorem inside (h : KeepsAlignment s e sizes) (hle : s ≤ e) (hword : e < 2 ^ 64) {block : LiveBlock}
    (hblock : block ∈ bootBlocks s e sizes) : s ≤ block.ptr ∧ block.ptr + block.size ≤ e := by
  obtain ⟨-, range, hrange, rfl⟩ := h.mem_bootBlocks hblock
  have hbounds := consecutive_bounds hrange
  have hfit := (@freeSpace_of_served s e s (asked sizes) hle hword).1
  simp only [blockAt]
  omega

theorem freeSpace (h : KeepsAlignment s e sizes) (hle : s ≤ e) (hword : e < 2 ^ 64)
    {before : List Nat} (hbefore : before <+: sizes) :
    (bootAfter s e before).freeSpace + ((bootBlocks s e before).map LiveBlock.size).sum = e - s := by
  have hfree :=
    (@freeSpace_of_served s e (s + (fitting (bootSpace s e) (asked before)).sum) (asked before)
    hle hword).2
  rw [bootAfter_eq, h.bootBlocks_eq hbefore]
  split
  case isTrue hs =>
    have hnone : (fitting (bootSpace s e) (asked before)).sum = 0 :=
      List.sum_eq_zero (h.zero_of_prefix hbefore hs)
    rw [hnone] at hfree ⊢
    exact hfree
  case isFalse =>
    rw [List.map_map, show LiveBlock.size ∘ blockAt = Prod.snd from rfl, consecutive_sizes]
    exact hfree

theorem refused (h : KeepsAlignment s e sizes) {before : List Nat} {size : Nat}
    (hbefore : before ++ [size] <+: sizes) (hnull : ((bootAfter s e before).alloc size).2 = 0) :
    ((bootAfter s e before).alloc size).1 = bootAfter s e before := by
  by_cases hfits : (toUnsigned size : Int) ≤ (bootAfter s e before).bytesLeft
  · rw [BootAllocator.alloc_of_fits hfits] at hnull ⊢
    have hs : s = 0 := by
      rw [bootAfter_eq] at hnull
      exact Nat.eq_zero_of_add_eq_zero_right hnull
    rw [h.1 hs _ (mem_fitting_of_fits hbefore hfits)]
    simp
  · rw [BootAllocator.alloc_of_not_fits hfits]

/-- With every block where it should be, the other properties follow from the layout alone. -/
theorem usable (h : KeepsAlignment s e sizes) (halign : s % 16 = 0) (hle : s ≤ e)
    (hword : e < 2 ^ 64) : BootAllocationsUsable s e sizes where
  disjoint := h.disjoint.filter _
  inside := fun _ hblock _ => h.inside hle hword hblock
  freeSpace := fun _ hbefore => h.freeSpace hle hword hbefore
  refused := fun _ _ hbefore hnull => h.refused hbefore hnull
  aligned := fun _ hblock => (h.aligned halign hblock).2
  heaps := fun _ hblock => servesHeap_of_aligned (h.aligned halign hblock).1 (h.aligned halign hblock).2

end KeepsAlignment

/-- The answers of a boot allocator are usable exactly when the requests keep its next address
    aligned. -/
theorem bootAllocations_usable_iff {s e : Nat} {sizes : List Nat} (halign : s % 16 = 0) (hle : s ≤ e)
    (hword : e < 2 ^ 64) : BootAllocationsUsable s e sizes ↔ KeepsAlignment s e sizes := by
  constructor
  · intro h
    have hzero : s = 0 → ∀ size ∈ fitting (bootSpace s e) (asked sizes), size = 0 := by
      intro hs
      subst hs
      exact served_zero_of_freeSpace hword (h.freeSpace sizes List.prefix_rfl)
    constructor
    · exact hzero
    · by_cases hs : s = 0
      · intro size hsize
        rw [hzero hs size (List.mem_of_mem_dropLast hsize)]
        exact Nat.dvd_zero 8
      · exact (aligned_iff hs halign e sizes).mp h.aligned
  · intro h
    exact h.usable halign hle hword

/-- 8 bytes and then the 90 bytes of metadata for an arena of one block, both from `[16, 4096)`. -/
theorem bootAllocations_usable_iff_metadata :
    BootAllocationsUsable 16 4096 [8, 90] ↔ KeepsAlignment 16 4096 [8, 90] :=
  bootAllocations_usable_iff (by decide) (by decide) (by decide)

/-- One byte and then the 90 bytes of metadata: the metadata is not aligned, and not every sequence of
    requests is answered as the callers rely on. -/
theorem bootAllocations_not_usable :
    ¬ ∀ (s e : Nat) (sizes : List Nat), s % 16 = 0 → s ≤ e → e < 2 ^ 64 →
      (∀ size ∈ sizes, size < 2 ^ 32) → BootAllocationsUsable s e sizes := by
  intro h
  have husable := h 16 4096 [1, 90] (by decide) (by decide) (by decide) (by decide)
  have haligned := husable.aligned ⟨17, 90⟩ (by decide)
  exact absurd haligned (by decide)

end Rpi4Kernel.Mem
