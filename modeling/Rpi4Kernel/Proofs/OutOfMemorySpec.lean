/-
Module: Rpi4Kernel.Proofs.OutOfMemorySpec
Layer: Proofs
Purpose: The kernel heap runs out of memory for a request exactly when no block of its size class is
  left: the free nodes of the tree are the blocks of the arena that meet no live block, and the search
  of the tree finds one of the depth asked for whenever there is one.
Trusted boundary: none (fully proved)
Main exports: Available, free_iff_available, serves_iff_available, serves_iff_exists_available,
  panics_of_run, panics_fails
-/
import Rpi4Kernel.Proofs.KernelHeapSpec

namespace Rpi4Kernel.Mem

open Rpi4Kernel.Theory Rpi4Kernel.Theory.IndexTree

/-- A block of the size class of `size` that could be handed out at `ptr`: it is naturally aligned,
    counted from the start `s` of the arena, lies in the `b` blocks that are managed, and meets no
    live block. -/
structure Available (s b : Nat) (live : List LiveBlock) (size ptr : Nat) : Prop where
  start_le : s ≤ ptr
  aligned : blockSize size ∣ ptr - s
  inside : ptr + blockSize size ≤ s + 64 * b
  apart : ∀ block ∈ live, block.ptr + blockSize block.size ≤ ptr ∨ ptr + blockSize size ≤ block.ptr

/-- Nodes below each other have a slot in common. -/
theorem exists_common_slot {n p q : Nat} (hp : InTree n p) (hq : InTree n q)
    (h : Below p q ∨ Below q p) : ∃ x < 2 ^ (n - 1), Below p (leaf n x) ∧ Below q (leaf n x) := by
  have hstart : ∀ i, InTree n i → firstSlot n i < 2 ^ (n - 1) ∧ Below i (leaf n (firstSlot n i)) := by
    intro i hi
    have hle := firstSlot_add_slotCount_le hi
    have hpos := slotCount_pos n i
    exact ⟨by omega, (covers_iff_below hi (by omega)).mp (by omega)⟩
  rcases h with h | h
  · exact ⟨_, (hstart q hq).1, h.trans (hstart q hq).2, (hstart q hq).2⟩
  · exact ⟨_, (hstart p hp).1, (hstart p hp).2, h.trans (hstart p hp).2⟩

/-- The node of a block that starts at a multiple of its own size. -/
theorem exists_node_at {n d j : Nat} (hd : 0 < d) (hdn : d ≤ n) (hj : j < 2 ^ (d - 1)) :
    ∃ p, InTree n p ∧ p.size = d ∧ firstSlot n p = 2 ^ (n - d) * j := by
  have hsize : (2 ^ (d - 1) + j).size = d := by
    have hrow := size_eq_of_row (i := 2 ^ (d - 1) + j) (d := d - 1) (by omega)
      (by rw [Nat.pow_succ]; omega)
    omega
  refine ⟨2 ^ (d - 1) + j, inTree_of_size_le (by positivity) (by omega), hsize, ?_⟩
  rw [firstSlot, hsize, Nat.add_sub_cancel_left, Nat.mul_comm]

section Heap

variable {s b size : Nat} {tail T : Taken (arenaOrder b)} {heap : KernelHeapAllocator}
  {live : List LiveBlock}

/-- The free nodes of the depth of a request are the blocks available for it. -/
theorem free_iff_available (h : HeapInv s b tail heap live T)
    (htail : ∀ x < 2 ^ (arenaOrder b - 1), tail.Covers x ↔ b ≤ x) (hfits : size ≤ 64 * b) :
    (∃ p, InTree (arenaOrder b) p ∧ p.size = depthOf (arenaOrder b) size ∧ T.Free p) ↔
      ∃ ptr, Available s b live size ptr := by
  obtain ⟨_, -, hmanages⟩ := h.buddy
  obtain ⟨hdepth, hdepth', hclass⟩ := depthOf_spec hmanages.arena.blocks_pos hfits
  constructor
  · rintro ⟨p, hin, hsize, hfree⟩
    have hlength : blockSize size = 64 * slotCount (arenaOrder b) p := by
      rw [hclass, slotCount, hsize]
    have hinside := hfree.before_tail hin fun x hx hb => by
      obtain ⟨j, hj, hcover⟩ := (htail x hx).mpr hb
      exact ⟨j, by rw [h.nodes_eq]; exact Finset.mem_union_left _ hj, hcover⟩
    refine ⟨s + 64 * firstSlot (arenaOrder b) p, Nat.le_add_right _ _, ?_, by omega,
      fun block hblock => ?_⟩
    · rw [hlength, Nat.add_sub_cancel_left]
      exact Nat.mul_dvd_mul_left 64 (Nat.dvd_mul_left _ _)
    · have hplaced := h.placed block hblock
      have hapart := hfree _ (h.mem_nodes hblock)
      have hslots := slots_disjoint hplaced.inTree hin hapart.2 hapart.1
      rw [hplaced.ptr_eq, hplaced.size_eq, hlength]
      omega
  · rintro ⟨ptr, hptr⟩
    obtain ⟨j, hj⟩ := hptr.aligned
    have hstart := hptr.start_le
    have hinside := hptr.inside
    have hslots := blocks_le_slots b
    have hsplit := two_pow_split hdepth hdepth'
    rw [hclass, Nat.mul_assoc] at hj
    have hrow : j < 2 ^ (depthOf (arenaOrder b) size - 1) := by
      have hlast : 2 ^ (arenaOrder b - depthOf (arenaOrder b) size) * (j + 1) ≤
          2 ^ (arenaOrder b - depthOf (arenaOrder b) size) *
            2 ^ (depthOf (arenaOrder b) size - 1) := by
        rw [Nat.mul_comm _ (2 ^ (depthOf (arenaOrder b) size - 1)), hsplit, Nat.mul_succ]
        omega
      exact Nat.le_of_mul_le_mul_left hlast (by positivity)
    obtain ⟨p, hin, hsize, hfirst⟩ := exists_node_at hdepth hdepth' hrow
    have hlength : blockSize size = 64 * slotCount (arenaOrder b) p := by
      rw [hclass, slotCount, hsize]
    have hptrEq : ptr = s + 64 * firstSlot (arenaOrder b) p := by
      rw [hfirst]
      omega
    have hmeets : ∀ q ∈ T.nodes, ¬ (Below p q ∨ Below q p) := by
      intro q hq hbelow
      obtain ⟨x, hx, hpx, hqx⟩ := exists_common_slot hin (T.inTree q hq) hbelow
      have hxp := (covers_iff_below hin hx).mpr hpx
      rw [h.nodes_eq, Finset.mem_union, List.mem_toFinset] at hq
      rcases hq with hq | hq
      · have hend := (htail x hx).mp ⟨q, hq, hqx⟩
        omega
      · obtain ⟨block, hblock, rfl⟩ := List.mem_map.mp hq
        have hplaced := h.placed block hblock
        have hxq := (covers_iff_below hplaced.inTree hx).mpr hqx
        have hapart := hptr.apart block hblock
        rw [hplaced.ptr_eq, hplaced.size_eq] at hapart
        omega
    exact ⟨p, hin, hsize, fun q hq => not_or.mp (hmeets q hq)⟩

/-- An available block shows that the managed part could hold the size. -/
theorem Available.size_le {ptr : Nat} (h : Available s b live size ptr) : size ≤ 64 * b := by
  have hstart := h.start_le
  have hinside := h.inside
  have hclass := le_blockSize size
  omega

/-- A request can be served exactly when a block is available for it. -/
theorem serves_iff_available (h : HeapInv s b tail heap live T)
    (htail : ∀ x < 2 ^ (arenaOrder b - 1), tail.Covers x ↔ b ≤ x) (hfits : size ≤ 64 * b) :
    Serves T size ↔ ∃ ptr, Available s b live size ptr := by
  obtain ⟨_, -, hmanages⟩ := h.buddy
  obtain ⟨hdepth, hdepth', -⟩ := depthOf_spec hmanages.arena.blocks_pos hfits
  have hlevel : depthOf (arenaOrder b) size - 1 + 1 = depthOf (arenaOrder b) size := by omega
  rw [← free_iff_available h htail hfits, Serves, search_iff_free T (by omega), hlevel]
  exact and_iff_right hfits

/-- The same for every size: one that the managed part could not hold is not served, and no block is
    available for it. -/
theorem serves_iff_exists_available (h : HeapInv s b tail heap live T)
    (htail : ∀ x < 2 ^ (arenaOrder b - 1), tail.Covers x ↔ b ≤ x) (size : Nat) :
    Serves T size ↔ ∃ ptr, Available s b live size ptr := by
  constructor
  · intro hserves
    exact (serves_iff_available h htail hserves.1).mp hserves
  · rintro ⟨ptr, hptr⟩
    exact (serves_iff_available h htail hptr.size_le).mpr ⟨ptr, hptr⟩

end Heap

/-- After every history over an arena of 64 to `2 ^ 36` bytes, `alloc` panics exactly when no block is
    available for the size that reaches it as an `unsigned`. -/
theorem panics_of_run {s e metadata : Nat} {heap : KernelHeapAllocator} {live : List LiveBlock}
    (hword : e < 2 ^ 64) (hlow : s + 64 ≤ e) (hhigh : e ≤ s + 2 ^ 36)
    (hrun : HeapRun s e metadata heap live) (size : Nat) :
    (∃ after, heap.alloc size = some (after, .panicked buddyOutOfMemory)) ↔
      ¬ ∃ ptr, Available s ((e - s) / 64) live (toUnsigned size) ptr := by
  obtain ⟨tail, htail⟩ := exists_freshTail (by omega) hword (by omega) hrun
  obtain ⟨T, h⟩ := heapInv_of_run htail hrun
  rw [← serves_iff_exists_available h htail.1, ← alloc_toUnsigned]
  constructor
  · rintro ⟨after, hpanics⟩ hserves
    obtain ⟨_, _, -, hreturns, -⟩ :=
      alloc_returns h (fun x hx => (htail.1 x hx).mpr) (toUnsigned_lt size) hserves
    rw [hreturns] at hpanics
    cases hpanics
  · intro hnot
    exact ⟨heap, alloc_panics h (toUnsigned_lt size) hnot⟩

/-- With 128 and 64 of 192 bytes taken, a request for one byte panics. -/
theorem panics_of_two_blocks :
    ∃ heap, HeapRun 4096 4296 64 heap [⟨4224, 10⟩, ⟨4096, 100⟩] ∧
      ((∃ after, heap.alloc 1 = some (after, .panicked buddyOutOfMemory)) ↔
        ¬ ∃ ptr, Available 4096 3 [⟨4224, 10⟩, ⟨4096, 100⟩] 1 ptr) := by
  obtain ⟨heap, hrun⟩ : ∃ heap, HeapRun 4096 4296 64 heap [⟨4224, 10⟩, ⟨4096, 100⟩] :=
    exists_heapRun_of_replay [.alloc 100, .alloc 10] (by decide +kernel)
  exact ⟨heap, hrun, panics_of_run (by norm_num) (by norm_num) (by norm_num) hrun 1⟩

/-- Over an arena of a little more than 4 GiB a request for `2 ^ 32 + 1` bytes, which no block of the
    arena could hold, is served: one byte reaches the allocator. -/
theorem panics_fails :
    ∃ heap, HeapRun 4096 (4096 + 2 ^ 32 + 64) 64 heap [] ∧
      2 ^ 32 + 1 ≤ 64 * ((4096 + 2 ^ 32 + 64 - 4096) / 64) ∧
      (¬ ∃ ptr, Available 4096 ((4096 + 2 ^ 32 + 64 - 4096) / 64) [] (2 ^ 32 + 1) ptr) ∧
      ¬ ∃ after, heap.alloc (2 ^ 32 + 1) = some (after, .panicked buddyOutOfMemory) := by
  have hplaces : AcceptedPlaces 64 4096 :=
    ⟨by norm_num, by norm_num, by norm_num, by norm_num, by norm_num⟩
  have hpos : 0 < (2 ^ 32 + 64) / 64 := by norm_num
  obtain ⟨buddy, -, -, hinit, -, -⟩ := buddyInit_spec hplaces hpos (by norm_num)
  have hconstruct : KernelHeapAllocator.construct 4096 (4096 + 2 ^ 32 + 64) 64 =
      some ⟨4096, 2 ^ 32 + 64, some buddy, 0⟩ := by
    have hsize : KernelHeapAllocator.subU64 (4096 + 2 ^ 32 + 64) 4096 = 2 ^ 32 + 64 :=
      subU64_eq (by norm_num) (by norm_num)
    simp only [KernelHeapAllocator.construct, hsize, hinit, Option.bind_eq_bind, Option.bind_some,
      Option.pure_def]
  have hrun := HeapRun.constructed hconstruct rfl
  refine ⟨_, hrun, by norm_num, ?_, ?_⟩
  · rintro ⟨ptr, havailable⟩
    -- the block would have 8 GiB
    have hclass : 2 ^ 33 ≤ blockSize (2 ^ 32 + 1) := by
      by_contra hsmall
      have hpower : blockSize (2 ^ 32 + 1) ≤ 2 ^ 32 := by
        rw [blockSize] at hsmall ⊢
        exact Nat.pow_le_pow_right (by norm_num)
          (Nat.lt_succ_iff.mp ((Nat.pow_lt_pow_iff_right (by norm_num)).mp (not_le.mp hsmall)))
      exact absurd (le_trans (le_blockSize _) hpower) (by norm_num)
    have hstart := havailable.start_le
    have hinside := havailable.inside
    omega
  · rw [panics_of_run (by norm_num) (by norm_num) (by norm_num) hrun, not_not]
    refine ⟨4096, le_rfl, by norm_num, ?_, by simp⟩
    have hclass : blockSize (toUnsigned (2 ^ 32 + 1)) ≤ 2 ^ 6 :=
      blockSize_le_two_pow_iff.mpr ⟨by norm_num [buddyAllocAlign], by norm_num [toUnsigned]⟩
    omega

end Rpi4Kernel.Mem
