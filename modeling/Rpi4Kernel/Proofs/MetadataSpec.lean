/-
Module: Rpi4Kernel.Proofs.MetadataSpec
Layer: Proofs
Purpose: The metadata of a heap stays inside the block that the constructor reserved for it. The
  operations are shown to answer whatever bits the tree holds, so that a free of a wrong pointer may
  break the statuses but not lead outside the bitset and the table; and both lie in the reserved
  block, one behind the other.
Trusted boundary: none (fully proved)
Main exports: LaidOut, MetadataOf, MetadataInside, metadata_stays_inside
-/
import Rpi4Kernel.Mem.GlobalKernelAlloc
import Rpi4Kernel.Mem.Metadata
import Rpi4Kernel.Proofs.KernelHeapSpec

namespace Rpi4Kernel.Mem

open Rpi4Kernel.Theory Rpi4Kernel.Theory.IndexTree

/-! ### A tree with arbitrary bits -/

/-- A tree as `buddy_tree_init` lays it out, with exactly the bytes and entries that it has room for.
    The bits are arbitrary. -/
structure LaidOut (n : Nat) (t : BuddyTree) : Prop extends TreeOf n t where
  bits_size : t.bits.size = bitsetSizeof (sizeForOrder n 0)
  sizes_size : t.sizes.size = n + 1
  offset_eq : t.sizeForOrderOffset = paddedBitsetSize n / 8 + 1

theorem laidOut_buddyTreeInit {n : Nat} (hpos : 0 < n) (hle : n ≤ 31) :
    LaidOut n (buddyTreeInit n) where
  toTreeOf := treeOf_buddyTreeInit hpos hle
  bits_size := Array.size_replicate
  sizes_size := Array.size_ofFn
  offset_eq := rfl

/-- A position of the tree, or none. -/
def PositionIn (n : Nat) (pos : BuddyTreePos) : Prop :=
  pos = invalidPos ∨ ∃ i, InTree n i ∧ pos = positionOf i

theorem PositionIn.of_valid {n : Nat} {t : BuddyTree} {pos : BuddyTreePos} (h : PositionIn n pos)
    (hvalid : buddyTreeValid t pos = true) : ∃ i, InTree n i ∧ pos = positionOf i := by
  rcases h with rfl | hin
  · cases hvalid
  · exact hin

/-- A field never shows more than its width. -/
theorem cell_le_height (n : Nat) (t : BuddyTree) (i : Nat) : cell n t i ≤ height n i := by
  have hcount : (bitRow t.bits).count (location n i) (height n i) ≤ height n i := by
    have hle := (List.range' (location n i) (height n i)).countP_le_length (p := bitRow t.bits)
    rwa [List.length_range'] at hle
  unfold cell BitRow.readCell
  split
  · exact hcount
  · exact Nat.zero_le _

/-- The status of a parent computed from those of its children fits the field of the parent. -/
theorem combine_le_height {n p x y : Nat} (hp : 1 < p) (hin : InTree n p) (hx : x ≤ height n p) :
    combine x y ≤ height n (p / 2) := by
  have hsize := size_half hp
  have hpos := hin.size_pos
  have hle := hin.size_le
  have hmin : min x y ≤ x := min_le_left x y
  unfold combine
  unfold height at hx ⊢
  split <;> omega

namespace LaidOut

variable {n : Nat} {t : BuddyTree}

/-- A write of a status that fits its field. -/
theorem write (h : LaidOut n t) {i value : Nat} (hin : InTree n i) (hvalue : value ≤ height n i) :
    ∃ bits, writeToInternalPosition t.bits ⟨height n i, location n i⟩ value = some bits ∧
      LaidOut n { t with bits := bits } := by
  obtain ⟨bits, heq, hsize, -⟩ := writeToInternalPosition_spec hvalue hin.height_pos
    (le_trans (location_add_height_le_total hin) h.bits_large)
  exact ⟨bits, heq, h.toTreeOf.of_bits hsize, hsize.trans h.bits_size, h.sizes_size, h.offset_eq⟩

/-- The climb of `update_parent_chain` stays in the tree, whatever it reads. -/
theorem updateParentChainLoop (h : LaidOut n t) (fuel : Nat) {p x : Nat} (hin : InTree n p)
    (hfuel : p.size ≤ fuel) (hx : x ≤ height n p) :
    ∃ t', Mem.updateParentChainLoop fuel t (positionOf p) ⟨height n p, location n p⟩ x = some t' ∧
      LaidOut n t' := by
  induction fuel generalizing t p x with
  | zero =>
      have hpos := hin.size_pos
      omega
  | succ fuel ih =>
      by_cases hroot : p = 1
      · subst hroot
        rw [Mem.updateParentChainLoop, if_pos (show (positionOf 1).index = 1 from rfl)]
        exact ⟨t, rfl, h⟩
      · have hp : 1 < p := by
          have hpos := hin.pos
          omega
        rw [updateParentChainLoop_step fuel h.toTreeOf hin hp]
        split
        case isTrue => exact ⟨t, rfl, h⟩
        case isFalse =>
          have hhalf := hin.half hroot
          have htarget := @combine_le_height n p x (cell n t (sibling p)) hp hin hx
          obtain ⟨bits, hwrite, hbits⟩ := h.write hhalf htarget
          rw [hwrite, Option.bind_some]
          apply ih hbits hhalf _ htarget
          rw [size_half hp]
          omega

/-- Marking and releasing a position. -/
theorem toggle (h : LaidOut n t) {i : Nat} (hin : InTree n i) {value : InternalPosition → Nat}
    (hvalue : value ⟨height n i, location n i⟩ ≤ height n i) :
    ∃ t', buddyTreeToggle t (positionOf i) value = some t' ∧ LaidOut n t' := by
  have hsize : i.size ≤ 64 := by
    have hle := hin.size_le
    have horder := h.order_le
    omega
  obtain ⟨bits, hwrite, hbits⟩ := h.write hin hvalue
  obtain ⟨t', hclimb, ht'⟩ := hbits.updateParentChainLoop 64 hin hsize hvalue
  refine ⟨t', ?_, ht'⟩
  simp only [buddyTreeToggle, h.internalPosition hin, hwrite, Option.bind_eq_bind, Option.bind_some]
  exact hclimb

theorem mark (h : LaidOut n t) {i : Nat} (hin : InTree n i) :
    ∃ t', buddyTreeMark t (positionOf i) = some t' ∧ LaidOut n t' :=
  h.toggle hin le_rfl

theorem release (h : LaidOut n t) {i : Nat} (hin : InTree n i) :
    ∃ t', buddyTreeRelease t (positionOf i) = some t' ∧ LaidOut n t' :=
  h.toggle hin (Nat.zero_le _)

/-- Marking several positions. -/
theorem foldlM_mark (h : LaidOut n t) {nodes : List Nat} (hin : ∀ i ∈ nodes, InTree n i) :
    ∃ t', (nodes.map positionOf).foldlM buddyTreeMark t = some t' ∧ LaidOut n t' := by
  induction nodes generalizing t with
  | nil => exact ⟨t, rfl, h⟩
  | cons i nodes ih =>
      obtain ⟨hi, hrest⟩ := List.forall_mem_cons.mp hin
      obtain ⟨t₁, hmark, ht₁⟩ := h.mark hi
      obtain ⟨t', hfold, ht'⟩ := ih ht₁ hrest
      refine ⟨t', ?_, ht'⟩
      rw [List.map_cons, List.foldlM_cons, hmark, Option.bind_eq_bind, Option.bind_some, hfold]

/-- The descent of `buddy_tree_find_free` reads fields of the tree only, and ends at a position of the
    tree or at none. -/
theorem findFreeLoop (h : LaidOut n t) (leftBias : Bool) {k fuel i : Nat} (status : Nat)
    (hin : InTree n i) (hdepth : i.size + k ≤ n) (hfuel : k < fuel) :
    ∃ pos, buddyTreeFindFreeLoop t (i.size + k) leftBias fuel (positionOf i) k i.size status =
      some pos ∧ PositionIn n pos := by
  induction k generalizing fuel i status with
  | zero =>
      obtain ⟨fuel, rfl⟩ := Nat.exists_eq_add_of_lt hfuel
      rw [Nat.zero_add, buddyTreeFindFreeLoop, if_pos (Nat.add_zero i.size).symm]
      split
      case isTrue => exact ⟨_, rfl, .inr ⟨i, hin, rfl⟩⟩
      case isFalse => exact ⟨_, rfl, .inl rfl⟩
  | succ k ih =>
      obtain ⟨fuel, rfl⟩ : ∃ m, fuel = m + 1 := ⟨fuel - 1, by omega⟩
      have hpos := hin.pos
      have hl := hin.left (by omega)
      have hr := hin.right (by omega)
      have hreadRight := h.readNode hr
      rw [location_right hpos, height_right hpos, ← height_left hpos] at hreadRight
      have hleft := fun status => @ih fuel (2 * i) status hl (by rw [size_double hpos]; omega)
        (by omega)
      have hright := fun status =>
        @ih fuel (2 * i + 1) status hr (by rw [size_double_add_one hpos]; omega) (by omega)
      rw [size_double hpos, Nat.add_assoc, Nat.add_comm 1 k] at hleft
      rw [size_double_add_one hpos, Nat.add_assoc, Nat.add_comm 1 k] at hright
      rw [buddyTreeFindFreeLoop, if_neg (by omega)]
      split
      case isTrue => exact ⟨_, rfl, .inl rfl⟩
      case isFalse =>
        simp only [buddyTreeLeftChild_positionOf hpos, buddyTreeSibling_positionOf hpos,
          h.internalPosition hl, h.readNode hl, hreadRight, Option.bind_eq_bind, Option.bind_some,
          Nat.add_sub_cancel]
        split_ifs
        · exact hright _
        · exact hleft _
        · exact hleft _
        · exact hright _

theorem findFree (h : LaidOut n t) (leftBias : Bool) {d : Nat} (hpos : 0 < d) (hle : d ≤ n) :
    ∃ pos, buddyTreeFindFree t d leftBias = some pos ∧ PositionIn n pos := by
  have hroot := inTree_root h.order_pos
  have hn := h.order_le
  have hone : (1 : Nat).size + (d - 1) = d := by
    rw [Nat.size_one]
    omega
  have hloop := h.findFreeLoop leftBias (cell n t 1) hroot (hone.le.trans hle)
    (show d - 1 < 256 by omega)
  rw [hone, Nat.size_one] at hloop
  rw [buddyTreeFindFree, positionOf_one, buddyTreeStatus_eq_cell h.toTreeOf hroot, Option.bind_eq_bind,
    Option.bind_some, show (positionOf 1).depth = 1 from Nat.size_one]
  exact hloop

/-- The climb of `position_for_address` ends in the tree or passes the root. -/
theorem positionForAddressLoop (h : LaidOut n t) {fuel i : Nat} (hin : InTree n i)
    (hfuel : i.size < fuel) :
    ∃ pos, Mem.positionForAddressLoop t fuel (positionOf i) = some pos ∧ PositionIn n pos := by
  induction fuel generalizing i with
  | zero => omega
  | succ fuel ih =>
      have hpos := hin.size_pos
      rw [Mem.positionForAddressLoop, if_pos ((h.buddyTreeValid_iff _).mpr hin),
        buddyTreeStatus_eq_cell h.toTreeOf hin, Option.bind_eq_bind, Option.bind_some]
      split
      case isFalse => exact ⟨_, rfl, .inr ⟨i, hin, rfl⟩⟩
      case isTrue =>
        by_cases hroot : i = 1
        · subst hroot
          obtain ⟨fuel, rfl⟩ : ∃ m, fuel = m + 1 := ⟨fuel - 1, by omega⟩
          have hparent : buddyTreeParent (positionOf 1) = invalidPos := by
            rw [positionOf, Nat.size_one]
            rfl
          have hinvalid : buddyTreeValid t invalidPos = false := rfl
          rw [hparent, Mem.positionForAddressLoop, hinvalid]
          exact ⟨_, rfl, .inl rfl⟩
        · have hi : 1 < i := by
            have := hin.pos
            omega
          rw [buddyTreeParent_positionOf hi]
          apply ih (hin.half hroot)
          rw [size_half hi]
          omega

end LaidOut

/-! ### The operations of a heap -/

/-- A buddy over `b` blocks from `s` on with its metadata at `metadata`, and with arbitrary statuses. -/
structure MetadataOf (s b metadata : Nat) (buddy : Buddy) : Prop where
  arena : ArenaOf s b buddy
  tree : LaidOut (arenaOrder b) buddy.tree
  self_eq : buddy.self = metadata

namespace MetadataOf

variable {s b metadata : Nat} {buddy : Buddy}

theorem withTree (h : MetadataOf s b metadata buddy) {tree : BuddyTree}
    (htree : LaidOut (arenaOrder b) tree) : MetadataOf s b metadata { buddy with tree := tree } where
  arena := ⟨h.arena.blocks_pos, h.arena.blocks_le, h.arena.memorySize_eq, h.arena.arena_eq,
    h.arena.flags_eq⟩
  tree := htree
  self_eq := h.self_eq

/-- `buddy_malloc` answers. -/
theorem malloc (h : MetadataOf s b metadata buddy) (size : Nat) :
    ∃ buddy' answer, buddyMalloc buddy size = some (buddy', answer) ∧
    MetadataOf s b metadata buddy' := by
  simp only [buddyMalloc]
  generalize (if size = 0 then 1 else size) = request
  by_cases hfits : buddy.memorySize < request
  · rw [if_pos hfits]
    exact ⟨buddy, none, rfl, h⟩
  · have hle : request ≤ 64 * b := h.arena.memorySize_eq ▸ not_lt.mp hfits
    have horder := arenaOrder_le h.arena.blocks_le
    obtain ⟨hdepth, hdepth', -⟩ := depthOf_spec h.arena.blocks_pos hle
    have hmod : depthOf (arenaOrder b) request % 256 = depthOf (arenaOrder b) request :=
      Nat.mod_eq_of_lt (by omega)
    obtain ⟨pos, hfind, hpos⟩ := h.tree.findFree (buddyIsLeftBiased buddy) hdepth hdepth'
    rw [if_neg hfits, depthForSize_spec h.arena hle, Option.bind_eq_bind, Option.bind_some, hmod, hfind,
      Option.bind_eq_bind, Option.bind_some]
    split
    case isTrue hvalid =>
      obtain ⟨i, hin, rfl⟩ := hpos.of_valid hvalid
      obtain ⟨tree, hmark, htree⟩ := h.tree.mark hin
      rw [hmark]
      exact ⟨_, _, rfl, h.withTree htree⟩
    case isFalse => exact ⟨buddy, none, rfl, h⟩

/-- `buddy_free` answers, for any pointer. -/
theorem free (h : MetadataOf s b metadata buddy) (p : Nat) :
    ∃ answer, buddyFree buddy p = some answer ∧
      ∀ buddy', answer = .ok buddy' → MetadataOf s b metadata buddy' := by
  have hsize := h.arena.memorySize_eq
  simp only [buddyFree, h.arena.buddyMain_eq]
  by_cases hnull : p = 0
  · rw [if_pos hnull]
    exact ⟨_, rfl, (by rintro _ ⟨⟩)⟩
  by_cases houtside : p < s ∨ s + buddy.memorySize ≤ p
  · rw [if_neg hnull, if_pos houtside]
    exact ⟨_, rfl, (by rintro _ ⟨⟩)⟩
  · have hslots := blocks_le_slots b
    have hslot : (p - s) / 64 < 2 ^ (arenaOrder b - 1) := by omega
    have horder := h.tree.order_le
    have hleaf := size_leaf h.tree.order_pos hslot
    obtain ⟨pos, hclimb, hpos⟩ := h.tree.positionForAddressLoop (inTree_leaf h.tree.order_pos hslot)
      (show _ < 65 by omega)
    have hposition : positionForAddress buddy p = some pos := by
      simp only [positionForAddress, h.arena.buddyMain_eq]
      rw [deepestPositionForOffset_eq h.tree.toTreeOf hslot]
      exact hclimb
    rw [if_neg hnull, if_neg houtside, hposition, Option.bind_eq_bind, Option.bind_some]
    split
    case isTrue hvalid =>
      obtain ⟨i, hin, rfl⟩ := hpos.of_valid hvalid
      obtain ⟨tree, hrelease, htree⟩ := h.tree.release hin
      rw [hrelease]
      refine ⟨_, rfl, ?_⟩
      rintro buddy' ⟨⟩
      exact h.withTree htree
    case isFalse => exact ⟨_, rfl, (by rintro _ ⟨⟩)⟩

/-- From its arrival at a node the count leaves the subtree, in fewer turns than the subtree has nodes
    and one. -/
theorem countLoop (h : MetadataOf s b metadata buddy) {i : Nat} (hin : InTree (arenaOrder b) i) :
    ∃ used, used + 1 ≤ 2 ^ height (arenaOrder b) i ∧ ∀ fuel result, ∃ result',
      buddyArenaFreeSizeLoop buddy (fuel + used) (visiting i) result =
        countFrom buddy fuel (nextAfter i) result' := by
  refine Taken.subtree_induction (n := arenaOrder b) (motive := fun i =>
    ∃ used, used + 1 ≤ 2 ^ height (arenaOrder b) i ∧ ∀ fuel result, ∃ result',
      buddyArenaFreeSizeLoop buddy (fuel + used) (visiting i) result =
        countFrom buddy fuel (nextAfter i) result') ?_ hin
  intro i hin ih
  have hpow : 2 ^ 1 ≤ 2 ^ height (arenaOrder b) i :=
    Nat.pow_le_pow_right (by norm_num) hin.height_pos
  by_cases hfull : cell (arenaOrder b) buddy.tree i = height (arenaOrder b) i
  · refine ⟨1, by omega, fun fuel result => ⟨result, ?_⟩⟩
    exact buddyArenaFreeSizeLoop_full h.arena h.tree.toTreeOf hin hfull fuel result
  by_cases hfree : cell (arenaOrder b) buddy.tree i = 0
  · refine ⟨1, by omega, fun fuel result => ⟨result + 64 * slotCount (arenaOrder b) i, ?_⟩⟩
    exact buddyArenaFreeSizeLoop_free h.arena h.tree.toTreeOf hin hfree fuel result
  · -- a leaf has one bit, so that a node that is neither full nor free is an inner one
    have hinner : i.size < arenaOrder b := by
      have hle := hin.size_le
      have hcell := cell_le_height (arenaOrder b) buddy.tree i
      by_contra hnot
      have hleaf : height (arenaOrder b) i = 1 := by
        unfold height
        omega
      omega
    obtain ⟨⟨usedLeft, hboundLeft, hleft⟩, ⟨usedRight, hboundRight, hright⟩⟩ := ih hinner
    rw [height_left hin.pos] at hboundLeft
    rw [height_right hin.pos] at hboundRight
    have hdouble : 2 ^ height (arenaOrder b) i = 2 * 2 ^ (height (arenaOrder b) i - 1) := by
      rw [← Nat.pow_succ', Nat.succ_eq_add_one, Nat.sub_add_cancel hin.height_pos]
    refine ⟨usedRight + usedLeft + 1, by omega, fun fuel result => ?_⟩
    obtain ⟨resultLeft, hleft⟩ := hleft (fuel + usedRight) result
    obtain ⟨resultRight, hright⟩ := hright fuel resultLeft
    refine ⟨resultRight, ?_⟩
    rw [← Nat.add_assoc, ← Nat.add_assoc,
      buddyArenaFreeSizeLoop_inner h.tree.toTreeOf hin hinner hfree hfull, hleft,
        nextAfter_left hin.pos,
      countFrom, hright, nextAfter_right hin.pos]

/-- `buddy_arena_free_size` answers. -/
theorem freeSize (h : MetadataOf s b metadata buddy) :
    ∃ result, buddyArenaFreeSize buddy = some result := by
  have hin := inTree_root h.tree.order_pos
  obtain ⟨used, hbound, hcount⟩ := h.countLoop hin
  have hheight : height (arenaOrder b) 1 = arenaOrder b := by
    rw [height, Nat.size_one, Nat.add_sub_cancel]
  have hstart : buddyTreeWalkStateRoot = visiting 1 := by
    rw [visiting, ← positionOf_one]
    rfl
  rw [hheight] at hbound
  have hfuel : 2 ^ arenaOrder b = 2 ^ arenaOrder b - used + used := by omega
  obtain ⟨result, hresult⟩ := hcount (2 ^ arenaOrder b - used) 0
  rw [nextAfter_one] at hresult
  refine ⟨result, ?_⟩
  rw [buddyArenaFreeSize, h.tree.order_eq, hstart, hfuel, hresult]
  rfl

end MetadataOf

/-! ### Construction and histories -/

/-- A fresh buddy with its virtual slots taken. -/
theorem metadataOf_init {s b metadata memorySize : Nat} (hb : 0 < b) (hle : b ≤ 2 ^ 30)
    (hsize : memorySize = 64 * b) :
    ∃ buddy, buddyToggleVirtualSlots (freshBuddy metadata s memorySize) = some buddy ∧
      MetadataOf s b metadata buddy := by
  subst hsize
  have harena : ArenaOf s b (freshBuddy metadata s (64 * b)) := ⟨hb, hle, rfl, rfl, rfl⟩
  have hblocks : 64 * b / 64 = b := Nat.mul_div_cancel_left b (by norm_num)
  have horder : buddyTreeOrderForMemory (64 * b) = arenaOrder b := by
    rw [buddyTreeOrderForMemory_eq (by omega) (by omega), hblocks]
  have htree : LaidOut (arenaOrder b) (freshBuddy metadata s (64 * b)).tree := by
    rw [freshBuddy, horder]
    exact laidOut_buddyTreeInit (Nat.succ_pos _) (arenaOrder_le hle)
  obtain ⟨nodes, hmasked, hin, -, -⟩ := maskedPositions_spec harena
  obtain ⟨tree, hmark, htree'⟩ := htree.foldlM_mark hin
  rw [buddyToggleVirtualSlots_eq, hmasked, Option.bind_some, hmark, Option.map_some]
  exact ⟨_, rfl, ⟨hb, hle, rfl, rfl, rfl⟩, htree', rfl⟩

/-- The heap has its metadata at `metadata`, or a null buddy. -/
def HasMetadata (s b metadata : Nat) (heap : KernelHeapAllocator) : Prop :=
  ∀ buddy, heap.buddy = some buddy → MetadataOf s b metadata buddy

/-- An operation answers and keeps the metadata in its place. A heap with a null buddy has none; there
    `freeSpace` alone goes through the null pointer. -/
theorem heapOp_answers {s b metadata : Nat} {heap : KernelHeapAllocator}
    (h : HasMetadata s b metadata heap) {op : HeapOp}
    (hnull : heap.buddy = none → op ≠ .freeSpace) :
    ∃ heap', heapOp heap op = some heap' ∧ HasMetadata s b metadata heap' ∧
      (heap'.buddy = none → heap.buddy = none) := by
  cases hbuddy : heap.buddy with
  | none =>
      refine ⟨heap, ?_, h, fun _ => rfl⟩
      cases op with
      | alloc size => simp only [heapOp, KernelHeapAllocator.alloc, hbuddy, Option.map_some]
      | free p => simp only [heapOp, KernelHeapAllocator.dealloc, hbuddy, Option.map_some]
      | freeSpace => exact absurd rfl (hnull hbuddy)
  | some buddy =>
      have hmeta := h buddy hbuddy
      cases op with
      | alloc size =>
          obtain ⟨buddy', answer, hmalloc, hbuddy'⟩ := hmeta.malloc (toUnsigned size)
          simp only [heapOp, KernelHeapAllocator.alloc, hbuddy, hmalloc, Option.bind_eq_bind,
            Option.bind_some]
          cases answer with
          | none =>
              refine ⟨_, rfl, ?_, (by rintro ⟨⟩)⟩
              rintro _ ⟨⟩
              exact hbuddy'
          | some p =>
              refine ⟨_, rfl, ?_, (by rintro ⟨⟩)⟩
              rintro _ ⟨⟩
              exact hbuddy'
      | free p =>
          obtain ⟨answer, hfree, hbuddy'⟩ := hmeta.free p
          simp only [heapOp, KernelHeapAllocator.dealloc, hbuddy, hfree, Option.bind_eq_bind,
            Option.bind_some]
          cases answer with
          | error message =>
              exact ⟨heap, rfl, h, fun hnone => absurd (hbuddy.symm.trans hnone) (by rintro ⟨⟩)⟩
          | ok buddy' =>
              refine ⟨_, rfl, ?_, (by rintro ⟨⟩)⟩
              rintro _ ⟨⟩
              exact hbuddy' buddy' rfl
      | freeSpace =>
          obtain ⟨result, hresult⟩ := hmeta.freeSize
          simp only [heapOp, KernelHeapAllocator.freeSpace, hbuddy, Option.bind_eq_bind,
            Option.bind_some, hresult, Option.map_some]
          exact ⟨heap, rfl, h, fun hnone => absurd (hbuddy.symm.trans hnone) (by rintro ⟨⟩)⟩

/-- Every sequence of operations answers. -/
theorem heapOps_answer {s b metadata : Nat} {heap : KernelHeapAllocator}
    (h : HasMetadata s b metadata heap) {calls : List HeapOp}
    (hnull : heap.buddy = none → HeapOp.freeSpace ∉ calls) :
    ∃ heap', calls.foldlM heapOp heap = some heap' ∧ HasMetadata s b metadata heap' := by
  induction calls generalizing heap with
  | nil => exact ⟨heap, rfl, h⟩
  | cons op calls ih =>
      have hop : heap.buddy = none → op ≠ .freeSpace := by
        rintro hnone rfl
        exact hnull hnone List.mem_cons_self
      obtain ⟨heap₁, hcall, h₁, hnull₁⟩ := heapOp_answers h hop
      have hrest : heap₁.buddy = none → HeapOp.freeSpace ∉ calls := by
        intro hnone hmem
        exact hnull (hnull₁ hnone) (List.mem_cons_of_mem op hmem)
      obtain ⟨heap', hfold, h'⟩ := ih h₁ hrest
      refine ⟨heap', ?_, h'⟩
      rw [List.foldlM_cons, hcall, Option.bind_eq_bind, Option.bind_some, hfold]

/-! ### The layout -/

/-- The rows above the row of height `h`, in closed form. -/
theorem sizeForOrder_closed {n h : Nat} (hle : h ≤ n) :
    sizeForOrder n h + n + 2 = (h + 2) * 2 ^ (n - h) := by
  induction hk : n - h generalizing h with
  | zero =>
      obtain rfl : h = n := by omega
      rw [sizeForOrder, sizeForOrderLoop_self]
      omega
  | succ k ih =>
      have hstep := sizeForOrder_step (show h < n by omega)
      have hrest := ih (show h + 1 ≤ n by omega) (by omega)
      rw [show n - (h + 1) = k by omega] at hstep
      rw [hstep, Nat.pow_succ]
      linarith

/-- The bitset of a tree of order up to 31 has less than `2 ^ 32` bits. -/
theorem sizeForOrder_lt {n : Nat} (hn : n ≤ 31) : sizeForOrder n 0 < 2 ^ 32 := by
  have hclosed := sizeForOrder_closed (Nat.zero_le n)
  have hpow : 2 ^ n ≤ 2 ^ 31 := Nat.pow_le_pow_right (by norm_num) hn
  rw [Nat.sub_zero] at hclosed
  omega

/-- The padding adds up to seven bytes, and need not end at a word. -/
theorem paddedBitsetSize_bounds (n : Nat) :
    bitsetSizeof (sizeForOrder n 0) ≤ paddedBitsetSize n ∧
      paddedBitsetSize n ≤ bitsetSizeof (sizeForOrder n 0) + 7 := by
  unfold paddedBitsetSize
  dsimp only
  split <;> omega

/-- The metadata of the buddy lies in the `buddy_sizeof` bytes at `metadata`: every byte of the
    bitset, every entry of the table, and what `buddy_tree_init` clears; and the table lies behind the
    bitset. -/
structure MetadataInside (s e metadata : Nat) (buddy : Buddy) : Prop where
  bitset : ∀ bucket < buddy.tree.bits.size, metadata ≤ bitsetAddress buddy bucket ∧
    bitsetAddress buddy bucket + 1 ≤ metadata + buddySizeof (e - s)
  table : ∀ toOrder < buddy.tree.sizes.size, metadata ≤ sizeTableAddress buddy toOrder ∧
    sizeTableAddress buddy toOrder + 8 ≤ metadata + buddySizeof (e - s)
  apart : ∀ bucket < buddy.tree.bits.size, ∀ toOrder < buddy.tree.sizes.size,
    bitsetAddress buddy bucket + 1 ≤ sizeTableAddress buddy toOrder
  cleared : buddy.self + sizeofBuddy + buddyTreeSizeof buddy.tree.order ≤ metadata + buddySizeof (e - s)

/-- The bytes that the constructor asks for. -/
theorem buddySizeof_eq {memorySize : Nat} (hlow : 64 ≤ memorySize) (hword : memorySize < 2 ^ 64) :
    buddySizeof memorySize = sizeofBuddy + buddyTreeSizeof (arenaOrder (memorySize / 64)) := by
  rw [buddySizeof, if_neg (by simp only [buddyAllocAlign, charBit]; omega),
    buddyTreeOrderForMemory_eq (by omega) hword, sizeofBuddy]

/-- The table starts at the first word behind the padded bitset, rounded down and one word on, and the
    reserve of two words more than the order makes up for it. -/
theorem MetadataOf.inside {s e metadata : Nat} {buddy : Buddy} (hlow : s + 64 ≤ e) (hword : e < 2 ^ 64)
    (h : MetadataOf s ((e - s) / 64) metadata buddy) : MetadataInside s e metadata buddy := by
  have hbits := h.tree.bits_size
  have hsizes := h.tree.sizes_size
  have hoffset := h.tree.offset_eq
  have hself := h.self_eq
  have hreserved := buddySizeof_eq (show 64 ≤ e - s by omega) (show e - s < 2 ^ 64 by omega)
  have hpadded := paddedBitsetSize_bounds (arenaOrder ((e - s) / 64))
  rw [buddyTreeSizeof] at hreserved
  constructor
  case bitset =>
    intro bucket hbucket
    simp only [bitsetAddress, buddyTreeBits, sizeofBuddyTree]
    omega
  case table =>
    intro toOrder htoOrder
    simp only [sizeTableAddress, buddyTreeBits, sizeofBuddyTree]
    omega
  case apart =>
    intro bucket hbucket toOrder htoOrder
    simp only [bitsetAddress, sizeTableAddress]
    omega
  case cleared =>
    rw [h.tree.order_eq, buddyTreeSizeof]
    omega

/-- The order of the tree of an arena bounds its blocks. -/
theorem blocks_le_of_order {memorySize : Nat} (hlow : 64 ≤ memorySize) (hword : memorySize < 2 ^ 64)
    (horder : buddyTreeOrderForMemory memorySize ≤ 31) :
    0 < memorySize / 64 ∧ memorySize / 64 ≤ 2 ^ 30 := by
  have hpos : 0 < memorySize / 64 := by omega
  rw [buddyTreeOrderForMemory_eq hpos hword, arenaOrder] at horder
  constructor
  · exact hpos
  · exact (Nat.clog_le_iff_le_pow (by norm_num)).mp (show Nat.clog 2 (memorySize / 64) ≤ 30 by omega)

/-- The constructor answers, and a buddy that it sets up has its metadata at `metadata`. -/
theorem construct_answers {s e metadata : Nat} (hlow : s + 64 ≤ e) (hword : e < 2 ^ 64)
    (horder : buddyTreeOrderForMemory (e - s) ≤ 31) :
    ∃ heap, KernelHeapAllocator.construct s e metadata = some heap ∧
      HasMetadata s ((e - s) / 64) metadata heap := by
  obtain ⟨hpos, hle⟩ := blocks_le_of_order (show 64 ≤ e - s by omega) (by omega) horder
  simp only [KernelHeapAllocator.construct, subU64_eq (show s ≤ e by omega) hword]
  by_cases hplaces : AcceptedPlaces metadata s
  · obtain ⟨buddy, htoggle, hmeta⟩ := @metadataOf_init s _ metadata _ hpos hle rfl
    rw [buddyInit_of_accepted hplaces hpos, htoggle]
    refine ⟨_, rfl, ?_⟩
    rintro _ ⟨⟩
    exact hmeta
  · rw [buddyInit_of_refused fun h => hplaces h.1]
    exact ⟨_, rfl, (by rintro _ ⟨⟩)⟩

/-- Metadata never overruns the block that the constructor asked for: its request is not cut by the
    conversion to `unsigned`, the construction and every sequence of operations touch no byte of the
    bitset and no entry of the table outside the tree's own, and these lie in the block. -/
theorem metadata_stays_inside {s e metadata : Nat} (hlow : s + 64 ≤ e) (hword : e < 2 ^ 64)
    (horder : buddyTreeOrderForMemory (e - s) ≤ 31) :
    toUnsigned (buddySizeof (e - s)) = buddySizeof (e - s) ∧
      ∃ fresh, KernelHeapAllocator.construct s e metadata = some fresh ∧
        ∀ calls : List HeapOp, (fresh.buddy = none → HeapOp.freeSpace ∉ calls) →
          ∃ heap, calls.foldlM heapOp fresh = some heap ∧
            ∀ buddy, heap.buddy = some buddy → MetadataInside s e metadata buddy := by
  constructor
  · obtain ⟨-, hle⟩ := blocks_le_of_order (show 64 ≤ e - s by omega) (by omega) horder
    have hn := arenaOrder_le hle
    have hbits := sizeForOrder_lt hn
    have hpadded := paddedBitsetSize_bounds (arenaOrder ((e - s) / 64))
    rw [toUnsigned, buddySizeof_eq (by omega) (by omega), buddyTreeSizeof, sizeofBuddy]
    simp only [bitsetSizeof, charBit] at hpadded
    exact Nat.mod_eq_of_lt (by omega)
  · obtain ⟨fresh, hconstruct, hfresh⟩ := @construct_answers s e metadata hlow hword horder
    refine ⟨fresh, hconstruct, ?_⟩
    intro calls hnull
    obtain ⟨heap, hcalls, hheap⟩ := heapOps_answer hfresh hnull
    refine ⟨heap, hcalls, ?_⟩
    intro buddy hbuddy
    exact (hheap buddy hbuddy).inside hlow hword

/-- An arena of 200 bytes, whose tree has order 3. -/
theorem metadata_stays_inside_small :
    toUnsigned (buddySizeof (4296 - 4096)) = buddySizeof (4296 - 4096) ∧
      ∃ fresh, KernelHeapAllocator.construct 4096 4296 64 = some fresh ∧
        ∀ calls : List HeapOp, (fresh.buddy = none → HeapOp.freeSpace ∉ calls) →
          ∃ heap, calls.foldlM heapOp fresh = some heap ∧
            ∀ buddy, heap.buddy = some buddy → MetadataInside 4096 4296 64 buddy :=
  metadata_stays_inside (by norm_num) (by norm_num) (by decide)

end Rpi4Kernel.Mem
