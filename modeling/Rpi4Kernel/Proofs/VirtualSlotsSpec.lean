/-
Module: Rpi4Kernel.Proofs.VirtualSlotsSpec
Layer: Proofs
Purpose: The construction of the kernel heap masks the part of the tree's span that lies beyond the
  arena, and nothing else: the masked positions are allocated and do not overlap, and a slot is in an
  allocated position exactly when it lies behind the arena.
Trusted boundary: none (fully proved)
Main exports: coversSlot_positionOf, allocated_iff, construct_masks_tail
-/
import Rpi4Kernel.Proofs.KernelHeapSpec

namespace Rpi4Kernel.Mem

open Rpi4Kernel.Theory Rpi4Kernel.Theory.IndexTree

variable {s b : Nat} {buddy : Buddy} {T : Taken (arenaOrder b)}

/-- The slots of a position are those of its node. -/
theorem coversSlot_positionOf (h : ArenaOf s b buddy) {i x : Nat} (hin : InTree (arenaOrder b) i) :
    CoversSlot buddy (positionOf i) x ↔
      firstSlot (arenaOrder b) i ≤ x ∧ x < firstSlot (arenaOrder b) i + slotCount (arenaOrder b) i := by
  have hfirst : 64 * slotCount (arenaOrder b) i * buddyTreeIndex (positionOf i) =
      64 * firstSlot (arenaOrder b) i := by
    rw [buddyTreeIndex, buddyTreeIndexInternal_positionOf (arenaOrder_le h.blocks_le) hin, firstSlot,
      slotCount]
    ring
  simp only [CoversSlot, h.sizeForDepth_positionOf hin, hfirst]
  omega

/-- A position is allocated when it is that of a node with the highest status. -/
theorem allocated_iff (h : Manages s b buddy T) {pos : BuddyTreePos} : Allocated buddy pos ↔
    ∃ i, InTree (arenaOrder b) i ∧ pos = positionOf i ∧ T.status i = height (arenaOrder b) i := by
  have htree := h.tree.tree
  have horder := htree.order_le
  have hwide : 2 ^ arenaOrder b < 2 ^ 64 := Nat.pow_lt_pow_right (by norm_num) (by omega)
  have hheight : ∀ i, InTree (arenaOrder b) i →
      buddy.tree.order - (positionOf i).depth + 1 = height (arenaOrder b) i := by
    intro i hin
    have hsize := hin.size_le
    simp only [htree.order_eq, positionOf, height]
    omega
  constructor
  · rintro ⟨hvalid, hdepth, hstatus⟩
    have hin : InTree (arenaOrder b) pos.index := (htree.buddyTreeValid_iff pos).mp hvalid
    have hpos : pos = positionOf pos.index := by
      rw [highestBitPosition_eq_size (hin.2.trans hwide)] at hdepth
      rw [positionOf, ← hdepth]
    rw [hpos, buddyTreeStatus_spec h.tree hin, hheight _ hin] at hstatus
    exact ⟨pos.index, hin, hpos, Option.some.inj hstatus⟩
  · rintro ⟨i, hin, rfl, hstatus⟩
    refine ⟨(htree.buddyTreeValid_iff _).mpr hin, ?_, ?_⟩
    · exact (highestBitPosition_eq_size (hin.2.trans hwide)).symm
    · rw [buddyTreeStatus_spec h.tree hin, hstatus, hheight i hin]

/-- A slot of the span is in an allocated position exactly when a taken node covers it. -/
theorem exists_allocated_iff (h : Manages s b buddy T) {x : Nat} (hx : x < 2 ^ (arenaOrder b - 1)) :
    (∃ pos, Allocated buddy pos ∧ CoversSlot buddy pos x) ↔ T.Covers x := by
  constructor
  · rintro ⟨pos, halloc, hcovers⟩
    obtain ⟨i, hin, rfl, hstatus⟩ := (allocated_iff h).mp halloc
    exact T.covers_of_status_full hin hstatus hx
      ((covers_iff_below hin hx).mp ((coversSlot_positionOf h.arena hin).mp hcovers))
  · rintro ⟨i, hmem, hbelow⟩
    have hin := T.inTree i hmem
    exact ⟨positionOf i, (allocated_iff h).mpr ⟨i, hin, rfl, T.status_of_mem hmem⟩,
      (coversSlot_positionOf h.arena hin).mpr ((covers_iff_below hin hx).mpr hbelow)⟩

/-- Positions that are not one below the other have no slot in common. -/
theorem not_coversSlot_both (h : ArenaOf s b buddy) {i j x : Nat} (hi : InTree (arenaOrder b) i)
    (hj : InTree (arenaOrder b) j) (hapart : ¬ Below i j ∧ ¬ Below j i) :
    ¬ (CoversSlot buddy (positionOf i) x ∧ CoversSlot buddy (positionOf j) x) := by
  rw [coversSlot_positionOf h hi, coversSlot_positionOf h hj]
  have hslots := slots_disjoint hi hj hapart.1 hapart.2
  omega

/-- The construction of a heap over any arena of at least one slot whose tree has an order of at most 31
    ends. The tree it leaves is the fresh tree with the masked positions marked; these are allocated and
    do not overlap, and a slot of the span is in an allocated position exactly when it lies behind the
    arena, trimmed to whole slots. -/
theorem construct_masks_tail {s e : Nat} (metadata : Nat) (hle : s ≤ e) (hword : e < 2 ^ 64)
    (hmin : 64 ≤ e - s) (horder : buddyTreeOrderForMemory (e - s) ≤ 31) :
    ∃ heap, KernelHeapAllocator.construct s e metadata = some heap ∧
      (heap.buddy.isSome = true ↔ AcceptedPlaces metadata s) ∧
      ∀ buddy, heap.buddy = some buddy → ∃ masked, maskedPositions buddy = some masked ∧
        masked.foldlM buddyTreeMark (buddyTreeInit (buddyTreeOrderForMemory (e - s))) =
          some buddy.tree ∧
        (∀ pos ∈ masked, Allocated buddy pos) ∧
        masked.Pairwise (fun p q => ∀ i, ¬ (CoversSlot buddy p i ∧ CoversSlot buddy q i)) ∧
        ∀ i, 64 * i < buddyEffectiveMemorySize buddy →
          ((∃ pos, Allocated buddy pos ∧ CoversSlot buddy pos i) ↔
            (e - s) - (e - s) % 64 ≤ 64 * i) := by
  have hpos : 0 < (e - s) / 64 := by omega
  have htree := buddyTreeOrderForMemory_eq hpos (show e - s < 2 ^ 64 by omega)
  have hblocks : (e - s) / 64 ≤ 2 ^ 30 := by
    rw [htree, arenaOrder] at horder
    exact (Nat.clog_le_iff_le_pow (by norm_num)).mp (by omega)
  by_cases hplaces : AcceptedPlaces metadata s
  · obtain ⟨buddy, T, nodes, hinit, hmanages, hmasked⟩ := buddyInit_spec hplaces hpos hblocks
    refine ⟨_, by rw [KernelHeapAllocator.construct, subU64_eq hle hword, hinit]; rfl,
      by simpa using hplaces, fun buddy' hbuddy' => ?_⟩
    obtain rfl := Option.some.inj hbuddy'
    refine ⟨nodes.map positionOf, hmasked.positions, htree ▸ hmasked.marked, ?_, ?_, fun i hi => ?_⟩
    · intro pos hpos
      obtain ⟨i, hi, rfl⟩ := List.mem_map.mp hpos
      have hmem := (hmasked.mem_iff i).mpr hi
      exact (allocated_iff hmanages).mpr ⟨i, T.inTree i hmem, rfl, T.status_of_mem hmem⟩
    · refine List.pairwise_map.mpr (hmasked.apart.imp_of_mem fun hi hj hapart x => ?_)
      exact not_coversSlot_both hmanages.arena (T.inTree _ ((hmasked.mem_iff _).mpr hi))
        (T.inTree _ ((hmasked.mem_iff _).mpr hj)) hapart
    · have hspan : i < 2 ^ (arenaOrder ((e - s) / 64) - 1) := by
        rw [hmanages.arena.buddyEffectiveMemorySize_eq] at hi
        exact Nat.lt_of_mul_lt_mul_left hi
      rw [exists_allocated_iff hmanages hspan, hmasked.covers i hspan]
      omega
  · have hinit : buddyInit metadata s (e - s) = some none :=
      buddyInit_of_refused fun hand => hplaces hand.1
    refine ⟨_, by rw [KernelHeapAllocator.construct, subU64_eq hle hword, hinit]; rfl, ?_,
      fun buddy hbuddy => by cases hbuddy⟩
    simpa using hplaces

/-- An arena of five slots: the slots 5, 6 and 7 of its span of eight are masked. -/
theorem construct_masks_tail_five :
    ∃ heap, KernelHeapAllocator.construct 4096 4416 64 = some heap ∧
      (heap.buddy.isSome = true ↔ AcceptedPlaces 64 4096) ∧
      ∀ buddy, heap.buddy = some buddy → ∃ masked, maskedPositions buddy = some masked ∧
        masked.foldlM buddyTreeMark (buddyTreeInit (buddyTreeOrderForMemory (4416 - 4096))) =
          some buddy.tree ∧
        (∀ pos ∈ masked, Allocated buddy pos) ∧
        masked.Pairwise (fun p q => ∀ i, ¬ (CoversSlot buddy p i ∧ CoversSlot buddy q i)) ∧
        ∀ i, 64 * i < buddyEffectiveMemorySize buddy →
          ((∃ pos, Allocated buddy pos ∧ CoversSlot buddy pos i) ↔
            (4416 - 4096) - (4416 - 4096) % 64 ≤ 64 * i) :=
  construct_masks_tail 64 (by decide) (by decide) (by decide) (by decide +kernel)

end Rpi4Kernel.Mem
