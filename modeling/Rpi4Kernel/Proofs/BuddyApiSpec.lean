/-
Module: Rpi4Kernel.Proofs.BuddyApiSpec
Layer: Proofs
Purpose: The calls of the buddy allocator on the nodes of its tree, whichever way it searches: what
  `buddy_malloc`, `buddy_free`, `buddy_safe_free` and `buddy_realloc` do to the taken nodes, and to
  the memory.
Trusted boundary: none (fully proved)
Main exports: Governs, HasBlock, Governs.malloc, Governs.free, Governs.safeFree, Move, Governs.move,
  memset_frame, memset_set
-/
import Rpi4Kernel.Mem.BuddyApi
import Rpi4Kernel.Proofs.BuddyInitSpec
import Rpi4Kernel.Proofs.MemmoveSpec

namespace Rpi4Kernel.Mem

open Rpi4Kernel.Theory Rpi4Kernel.Theory.IndexTree

/-! ### A buddy that may be left-biased -/

/-- The buddy that searches for the optimal fit. -/
def Buddy.unbiased (buddy : Buddy) : Buddy := { buddy with buddyFlags := 0 }

/-- A buddy in absolute mode whose tree represents the taken set `T`, whichever way it searches. -/
structure Governs (s b : Nat) (buddy : Buddy) (T : Taken (arenaOrder b)) : Prop where
  manages : Manages s b buddy.unbiased T
  flags : buddy.buddyFlags = 0 ∨ buddy.buddyFlags = buddyLeftBiasFlag

section

variable {s b : Nat} {buddy : Buddy} {T : Taken (arenaOrder b)}

namespace Governs

theorem of_manages (h : Manages s b buddy T) : Governs s b buddy T where
  manages := by
    have hsame : buddy.unbiased = buddy := by
      rw [Buddy.unbiased, ← h.arena.flags_eq]
    rwa [hsame]
  flags := .inl h.arena.flags_eq

theorem arena (h : Governs s b buddy T) : ArenaOf s b buddy.unbiased := h.manages.arena

theorem tree (h : Governs s b buddy T) : Represents (arenaOrder b) buddy.tree T := h.manages.tree

theorem memorySize_eq (h : Governs s b buddy T) : buddy.memorySize = 64 * b := h.arena.memorySize_eq

theorem buddyMain_eq (h : Governs s b buddy T) : buddyMain buddy = s := by
  have harena : buddy.arena = s := h.arena.arena_eq
  rcases h.flags with hflags | hflags
  · simp [buddyMain, buddyRelativeMode, hflags, harena]
  · simp [buddyMain, buddyRelativeMode, hflags, harena, buddyLeftBiasFlag, buddyRelativeModeFlag]

theorem setTree (h : Governs s b buddy T) {tree : BuddyTree} {T' : Taken (arenaOrder b)}
    (htree : Represents (arenaOrder b) tree T') : Governs s b { buddy with tree := tree } T' where
  manages := ⟨⟨h.arena.blocks_pos, h.arena.blocks_le, h.arena.memorySize_eq, h.arena.arena_eq, rfl⟩,
    htree⟩
  flags := h.flags

theorem setLeftBias (h : Governs s b buddy T) : Governs s b (buddySetLeftBias buddy) T where
  manages := h.manages
  flags := by
    right
    rcases h.flags with hflags | hflags <;> simp [buddySetLeftBias, hflags]

theorem setOptimalFit (h : Governs s b buddy T) : Governs s b (buddySetOptimalFit buddy) T where
  manages := h.manages
  flags := by
    left
    rcases h.flags with hflags | hflags
    · simp [buddySetOptimalFit, hflags]
    · show buddy.buddyFlags &&& (sizeMax - 1 - buddyLeftBiasFlag) = 0
      rw [hflags]
      decide

theorem addressForPosition_eq (h : Governs s b buddy T) {i : Nat} (hin : InTree (arenaOrder b) i) :
    addressForPosition buddy (positionOf i) = s + 64 * firstSlot (arenaOrder b) i := by
  rw [← Mem.addressForPosition_eq h.arena hin, addressForPosition, addressForPosition, h.buddyMain_eq,
    h.arena.buddyMain_eq]
  rfl

theorem positionForAddress_eq (h : Governs s b buddy T) {p : Nat} (hmem : p ∈ T.nodes) :
    positionForAddress buddy (s + 64 * firstSlot (arenaOrder b) p) = some (positionOf p) := by
  rw [← positionForAddress_spec h.manages hmem, positionForAddress, positionForAddress, h.buddyMain_eq,
    h.arena.buddyMain_eq]
  rfl

theorem depthForSize_eq (h : Governs s b buddy T) {size : Nat} (hfits : size ≤ 64 * b) :
    depthForSize buddy size = some (depthOf (arenaOrder b) size) := by
  have hdepth := depthForSize_spec h.arena hfits
  exact hdepth

theorem valid_iff (h : Governs s b buddy T) (i : Nat) :
    buddyTreeValid buddy.tree (positionOf i) = true ↔ InTree (arenaOrder b) i :=
  h.tree.tree.buddyTreeValid_iff _

end Governs

/-! ### Searching -/

/-- A free block of the size class of a request. -/
def HasBlock (T : Taken (arenaOrder b)) (size : Nat) : Prop :=
  ∃ p, InTree (arenaOrder b) p ∧ T.Free p ∧ blockSize size = 64 * slotCount (arenaOrder b) p

/-- The blocks of the depth of a request have its size class. -/
theorem blockSize_of_depth (hb : 0 < b) {size p : Nat} (hfits : size ≤ 64 * b)
    (hdepth : p.size = depthOf (arenaOrder b) size) :
    blockSize size = 64 * slotCount (arenaOrder b) p := by
  rw [(depthOf_spec hb hfits).2.2, ← hdepth, slotCount]

/-- The blocks of the size class of a request have its depth. -/
theorem depth_of_blockSize (hb : 0 < b) {size p : Nat} (hfits : size ≤ 64 * b)
    (hin : InTree (arenaOrder b) p) (hclass : blockSize size = 64 * slotCount (arenaOrder b) p) :
    p.size = depthOf (arenaOrder b) size := by
  obtain ⟨hdepth, hdepth', hblock⟩ := depthOf_spec hb hfits
  have hle := hin.size_le
  rw [hblock, slotCount] at hclass
  have hpow := Nat.pow_right_injective le_rfl (Nat.eq_of_mul_eq_mul_left (by norm_num) hclass)
  omega

/-- `buddy_tree_find_free` finds a free node of the depth of the request, or there is none. -/
theorem findFree_cases {tree : BuddyTree} (htree : Represents (arenaOrder b) tree T) (hb : 0 < b)
    (hle : b ≤ 2 ^ 30) {size : Nat} (hfits : size ≤ 64 * b) (leftBias : Bool) :
    (buddyTreeFindFree tree (depthOf (arenaOrder b) size % 256) leftBias = some invalidPos ∧
        ¬ HasBlock T size) ∨
      ∃ p, buddyTreeFindFree tree (depthOf (arenaOrder b) size % 256) leftBias = some (positionOf p) ∧
        InTree (arenaOrder b) p ∧ T.Free p ∧ p.size = depthOf (arenaOrder b) size := by
  obtain ⟨hdepth, hdepth', -⟩ := depthOf_spec hb hfits
  have horder := arenaOrder_le hle
  have hlevel : depthOf (arenaOrder b) size - 1 + 1 = depthOf (arenaOrder b) size := by omega
  have hfound := @search_iff_free _ T leftBias (depthOf (arenaOrder b) size - 1) (by omega)
  rw [hlevel] at hfound
  rw [Nat.mod_eq_of_lt (by omega), buddyTreeFindFree_spec htree leftBias hdepth hdepth']
  cases hsearch : search T.status leftBias (depthOf (arenaOrder b) size - 1) 1 with
  | none =>
    left
    refine ⟨rfl, fun hblock => ?_⟩
    obtain ⟨p, hin, hfree, hclass⟩ := hblock
    obtain ⟨q, hq⟩ := hfound.mpr ⟨p, hin, depth_of_blockSize hb hfits hin hclass, hfree⟩
    rw [hsearch] at hq
    cases hq
  | some p =>
    right
    obtain ⟨hin, hsize, hfree⟩ := search_free T (inTree_root htree.tree.order_pos)
      (by rw [Nat.size_one]; omega)
      (fun j hj hb => by
        have := hb.le
        have := (T.inTree j hj).pos
        omega) hsearch
    refine ⟨p, rfl, hin, hfree, ?_⟩
    rw [hsize, Nat.size_one]
    omega

/-- `buddy_malloc` takes a free node of the size class, or there is none and it changes nothing. -/
theorem Governs.malloc (h : Governs s b buddy T) (size : Nat) :
    (buddyMalloc buddy size = some (buddy, none) ∧ (size ≤ 64 * b → ¬ HasBlock T size)) ∨
      ∃ buddy' p, ∃ (hin : InTree (arenaOrder b) p) (hfree : T.Free p),
        blockSize size = 64 * slotCount (arenaOrder b) p ∧
        buddyMalloc buddy size = some (buddy', some (s + 64 * firstSlot (arenaOrder b) p)) ∧
        Governs s b buddy' (T.insert p hin hfree) := by
  have hb := h.arena.blocks_pos
  have hrequest : blockSize (if size = 0 then 1 else size) = blockSize size := by
    split
    case isTrue hzero =>
      rw [hzero]
      rfl
    case isFalse => rfl
  rcases Nat.lt_or_ge buddy.memorySize (if size = 0 then 1 else size) with hlarge | hfits
  · left
    constructor
    · simp only [buddyMalloc]
      rw [if_pos hlarge]
    · intro hsize
      rw [h.memorySize_eq] at hlarge
      split at hlarge <;> omega
  · have hfits' := hfits
    rw [h.memorySize_eq] at hfits'
    have hmalloc : ∀ pos, buddyTreeFindFree buddy.tree
        (depthOf (arenaOrder b) (if size = 0 then 1 else size) % 256) (buddyIsLeftBiased buddy) =
          some pos → buddyMalloc buddy size = if buddyTreeValid buddy.tree pos then
            (buddyTreeMark buddy.tree pos).map fun tree =>
              ({ buddy with tree := tree }, some (addressForPosition buddy pos))
            else some (buddy, none) := by
      intro pos hfind
      simp only [buddyMalloc]
      rw [if_neg hfits.not_gt, h.depthForSize_eq hfits']
      simp only [Option.bind_eq_bind, Option.bind_some, hfind]
      split
      case isTrue => cases buddyTreeMark buddy.tree pos <;> rfl
      case isFalse => rfl
    cases findFree_cases h.tree hb h.arena.blocks_le hfits' (buddyIsLeftBiased buddy) with
    | inl hnone =>
      left
      refine ⟨hmalloc _ hnone.1, fun _ hblock => hnone.2 ?_⟩
      rw [HasBlock, hrequest]
      exact hblock
    | inr hsome =>
      right
      obtain ⟨p, hfind, hin, hfree, hdepth⟩ := hsome
      obtain ⟨tree, hmark, htree⟩ := buddyTreeMark_spec h.tree hin hfree
      refine ⟨{ buddy with tree := tree }, p, hin, hfree, ?_, ?_, h.setTree htree⟩
      · rw [← hrequest]
        exact blockSize_of_depth hb hfits' hdepth
      · rw [hmalloc _ hfind, if_pos ((h.valid_iff p).mpr hin), hmark, Option.map_some,
          h.addressForPosition_eq hin]

/-! ### Releasing -/

variable {p : Nat}

/-- An address inside the arena. -/
theorem Governs.address_inside (h : Governs s b buddy T) (hinside : firstSlot (arenaOrder b) p < b) :
    ¬ (s + 64 * firstSlot (arenaOrder b) p < buddyMain buddy ∨
      buddyMain buddy + buddy.memorySize ≤ s + 64 * firstSlot (arenaOrder b) p) := by
  rw [h.buddyMain_eq, h.memorySize_eq]
  omega

/-- `buddy_free` of the block of a taken node gives the node back. -/
theorem Governs.free (h : Governs s b buddy T) (hmem : p ∈ T.nodes) (hs : s ≠ 0)
    (hinside : firstSlot (arenaOrder b) p < b) :
    ∃ buddy', buddyFree buddy (s + 64 * firstSlot (arenaOrder b) p) = some (.ok buddy') ∧
      Governs s b buddy' (T.erase p) := by
  obtain ⟨tree, hrelease, htree⟩ := buddyTreeRelease_spec h.tree hmem
  refine ⟨{ buddy with tree := tree }, ?_, h.setTree htree⟩
  simp only [buddyFree]
  rw [if_neg (by omega), if_neg (h.address_inside hinside), h.positionForAddress_eq hmem]
  simp only [Option.bind_eq_bind, Option.bind_some, (h.valid_iff p).mpr (T.inTree p hmem),
    if_true, hrelease]
  rfl

/-- A size belongs to a block when it is at most the size of the block and more than half of it. -/
theorem blockSize_eq_slots_iff {n i size : Nat} :
    blockSize size = 64 * slotCount n i ↔ max buddyAllocAlign size ≤ 64 * slotCount n i ∧
      ¬ max buddyAllocAlign size ≤ 64 * slotCount n i / 2 := by
  obtain ⟨k, hk⟩ : ∃ k, slotCount n i = 2 ^ k := ⟨_, rfl⟩
  have hwhole : 64 * 2 ^ k = 2 ^ (k + 6) := by
    rw [Nat.pow_add]
    omega
  have hhalf : 2 ^ (k + 6) / 2 = 2 ^ (k + 5) := by
    rw [Nat.pow_succ 2 (k + 5), Nat.mul_div_cancel _ (by norm_num)]
  rw [hk, hwhole, hhalf, blockSize, Nat.pow_right_inj (by norm_num), ← Nat.clog_le_iff_le_pow
    (by norm_num), ← Nat.clog_le_iff_le_pow (by norm_num)]
  omega

/-- `buddy_safe_free` gives the node back exactly when the size that it is told belongs to the block. -/
theorem Governs.safeFree (h : Governs s b buddy T) (hmem : p ∈ T.nodes) (hs : s ≠ 0)
    (hinside : firstSlot (arenaOrder b) p < b) (size : Nat) :
    ∃ buddy', buddySafeFree buddy (s + 64 * firstSlot (arenaOrder b) p) size = some buddy' ∧
      Governs s b buddy'
        (if blockSize size = 64 * slotCount (arenaOrder b) p then T.erase p else T) := by
  have hin := T.inTree p hmem
  have hsize : sizeForDepth buddy (positionOf p).depth = 64 * slotCount (arenaOrder b) p :=
    h.arena.sizeForDepth_positionOf hin
  have hclamp : (if size < buddyAllocAlign then buddyAllocAlign else size) =
      max buddyAllocAlign size := by
    split <;> omega
  obtain ⟨tree, hrelease, htree⟩ := buddyTreeRelease_spec h.tree hmem
  simp only [buddySafeFree]
  rw [if_neg (by omega), if_neg (h.address_inside hinside), h.positionForAddress_eq hmem]
  simp only [Option.bind_eq_bind, Option.bind_some, (h.valid_iff p).mpr hin, if_true, hsize, hclamp]
  rcases Nat.lt_or_ge (64 * slotCount (arenaOrder b) p) (max buddyAllocAlign size) with hlarge | hfits
  · refine ⟨buddy, by rw [if_pos hlarge]; rfl, ?_⟩
    rw [if_neg fun heq => hlarge.not_ge (blockSize_eq_slots_iff.mp heq).1]
    exact h
  · rcases Nat.lt_or_ge (64 * slotCount (arenaOrder b) p / 2) (max buddyAllocAlign size)
      with hhalf | hsmall
    · refine ⟨{ buddy with tree := tree }, ?_, ?_⟩
      · rw [if_neg hfits.not_gt, if_neg hhalf.not_ge, hrelease]
        rfl
      · rw [if_pos (blockSize_eq_slots_iff.mpr ⟨hfits, hhalf.not_ge⟩)]
        exact h.setTree htree
    · refine ⟨buddy, by rw [if_neg hfits.not_gt, if_pos hsmall]; rfl, ?_⟩
      rw [if_neg fun heq => (blockSize_eq_slots_iff.mp heq).2 hsmall]
      exact h

/-! ### Moving -/

/-- A node that has been given back is free. -/
theorem free_erase (hmem : p ∈ T.nodes) : (T.erase p).Free p := by
  intro j hj
  have hne := Finset.ne_of_mem_erase hj
  have hj' := Finset.mem_of_mem_erase hj
  exact ⟨fun hb => hne (T.apart p hmem j hj' hb).symm, fun hb => hne (T.apart j hj' p hmem hb)⟩

theorem insert_erase (hmem : p ∈ T.nodes) (hin : InTree (arenaOrder b) p) :
    (T.erase p).insert p hin (free_erase hmem) = T :=
  Taken.eq_of_nodes (Finset.insert_erase hmem)

/-- The number of bytes that `buddy_realloc` moves between two nodes. -/
def movedSize (b p q : Nat) : Nat := 64 * min (slotCount (arenaOrder b) p) (slotCount (arenaOrder b) q)

/-- What `buddy_realloc` does with the block of node `p`. -/
inductive Move (s b : Nat) (heap : BuddyHeap) (T : Taken (arenaOrder b)) (p size : Nat) :
    BuddyHeap → Option Nat → Prop where
  /-- There is no block, and the old one is kept. -/
  | refused {buddy : Buddy} (governs : Governs s b buddy T) (full : ¬ HasBlock (T.erase p) size) :
      Move s b heap T p size ⟨buddy, heap.mem⟩ none
  /-- The block is found again. -/
  | kept {buddy : Buddy} (governs : Governs s b buddy T)
      (sizeClass : blockSize size = 64 * slotCount (arenaOrder b) p) :
      Move s b heap T p size ⟨buddy, heap.mem⟩ (some (s + 64 * firstSlot (arenaOrder b) p))
  /-- The bytes are moved to another block. -/
  | moved {buddy : Buddy} {q : Nat} (inTree : InTree (arenaOrder b) q) (free : (T.erase p).Free q)
      (governs : Governs s b buddy ((T.erase p).insert q inTree free))
      (sizeClass : blockSize size = 64 * slotCount (arenaOrder b) q) :
      Move s b heap T p size
        ⟨buddy, memmove heap.mem (BitVec.ofNat 64 (s + 64 * firstSlot (arenaOrder b) q))
          (BitVec.ofNat 64 (s + 64 * firstSlot (arenaOrder b) p)) (BitVec.ofNat 64 (movedSize b p q))⟩
        (some (s + 64 * firstSlot (arenaOrder b) q))

/-- The depth of the smaller of two blocks. -/
theorem Governs.sizeForDepth_max (h : Governs s b buddy T) {p q depth : Nat}
    (hp : InTree (arenaOrder b) p) (hq : InTree (arenaOrder b) q) (hdepth : q.size = depth) :
    sizeForDepth buddy (if depth < p.size then p.size else depth) = movedSize b p q := by
  have hmin : min (slotCount (arenaOrder b) p) (slotCount (arenaOrder b) q) =
      2 ^ (arenaOrder b - max p.size q.size) := by
    rw [slotCount, slotCount]
    rcases Nat.le_total p.size q.size with hle | hle
    · rw [max_eq_right hle]
      exact min_eq_right (Nat.pow_le_pow_right (by norm_num) (by omega))
    · rw [max_eq_left hle]
      exact min_eq_left (Nat.pow_le_pow_right (by norm_num) (by omega))
  have hmax : (if depth < p.size then p.size else depth) = max p.size q.size := by
    split <;> omega
  rw [movedSize, hmin, hmax]
  exact h.arena.sizeForDepth_eq (lt_of_lt_of_le hp.size_pos (le_max_left _ _))
    (max_le hp.size_le hq.size_le)

/-- The bytes that `buddy_realloc` moves arrive, and no others change. -/
theorem Governs.memmove_blocks (h : Governs s b buddy T) (hword : s + 64 * b ≤ 2 ^ 64) {p q : Nat}
    (hp : InTree (arenaOrder b) p) (hq : InTree (arenaOrder b) q)
    (hpInside : firstSlot (arenaOrder b) p + slotCount (arenaOrder b) p ≤ b)
    (hqInside : firstSlot (arenaOrder b) q + slotCount (arenaOrder b) q ≤ b) (mem : ByteMemory) :
    MovedRight mem
      (memmove mem (BitVec.ofNat 64 (s + 64 * firstSlot (arenaOrder b) q))
        (BitVec.ofNat 64 (s + 64 * firstSlot (arenaOrder b) p)) (BitVec.ofNat 64 (movedSize b p q)))
      (BitVec.ofNat 64 (s + 64 * firstSlot (arenaOrder b) q))
      (BitVec.ofNat 64 (s + 64 * firstSlot (arenaOrder b) p)) (BitVec.ofNat 64 (movedSize b p q)) := by
  have hle := h.arena.blocks_le
  have hcountP := slotCount_pos (arenaOrder b) p
  have hcountQ := slotCount_pos (arenaOrder b) q
  have hmovedP : movedSize b p q ≤ 64 * slotCount (arenaOrder b) p :=
    Nat.mul_le_mul_left 64 (min_le_left _ _)
  have hmovedQ : movedSize b p q ≤ 64 * slotCount (arenaOrder b) q :=
    Nat.mul_le_mul_left 64 (min_le_right _ _)
  have hsource := BitVec.toNat_ofNat (s + 64 * firstSlot (arenaOrder b) p) 64
  have hdestination := BitVec.toNat_ofNat (s + 64 * firstSlot (arenaOrder b) q) 64
  have hlength := BitVec.toNat_ofNat (movedSize b p q) 64
  rw [Nat.mod_eq_of_lt (by omega)] at hsource hdestination hlength
  have hsize := (of_manages h.manages).sizeForDepth_max hp hq rfl
  have hmax : (if q.size < p.size then p.size else q.size) = max p.size q.size := by
    split <;> omega
  apply memmove_block h.arena hp hq
  · rw [hsource, Mem.addressForPosition_eq h.arena hp]
  · rw [hdestination, Mem.addressForPosition_eq h.arena hq]
  · rw [hlength, ← hsize, hmax]
    rfl
  · rw [hsource, hlength]
    omega
  · rw [hdestination, hlength]
    omega

/-- `buddy_realloc` of the block of a taken node, for a size that is not 0 and fits the arena. -/
theorem Governs.move {heap : BuddyHeap} (h : Governs s b heap.buddy T) (hmem : p ∈ T.nodes) {size : Nat}
    (hfits : size ≤ 64 * b) :
    ∃ heap' answer, buddyMove heap (s + 64 * firstSlot (arenaOrder b) p) size = some (heap', answer) ∧
      Move s b heap T p size heap' answer := by
  have hb := h.arena.blocks_pos
  have hin := T.inTree p hmem
  obtain ⟨released, hrelease, hreleased⟩ := buddyTreeRelease_spec h.tree hmem
  have hvalid : ∀ i, buddyTreeValid released (positionOf i) = true ↔ InTree (arenaOrder b) i :=
    fun i => hreleased.tree.buddyTreeValid_iff _
  obtain ⟨restored, hrestore, hrestored⟩ := buddyTreeMark_spec hreleased hin (free_erase hmem)
  rw [insert_erase hmem hin] at hrestored
  simp only [buddyMove]
  rw [h.positionForAddress_eq hmem]
  simp only [Option.bind_eq_bind, Option.bind_some, (h.valid_iff p).mpr hin, if_true,
    h.depthForSize_eq hfits, hrelease]
  cases findFree_cases hreleased hb h.arena.blocks_le hfits (buddyIsLeftBiased heap.buddy) with
  | inl hnone =>
    have hinvalid : buddyTreeValid released invalidPos = false := rfl
    refine ⟨⟨{ heap.buddy with tree := restored }, heap.mem⟩, none, ?_,
      .refused (h.setTree hrestored) hnone.2⟩
    simp only [hnone.1, Option.bind_some, hinvalid, Bool.false_eq_true, if_false, hrestore]
    rfl
  | inr hsome =>
    obtain ⟨q, hfind, hq, hfree, hdepth⟩ := hsome
    have hclass := blockSize_of_depth hb hfits hdepth
    simp only [hfind, Option.bind_some, (hvalid q).mpr hq, if_true]
    cases decEq p q with
    | isTrue heq =>
      rw [← heq] at hclass
      refine ⟨⟨{ heap.buddy with tree := restored }, heap.mem⟩, _, ?_,
        .kept (h.setTree hrestored) hclass⟩
      simp only [positionOf, heq, if_true]
      rw [← heq]
      simp only [positionOf] at hrestore
      rw [hrestore]
      rfl
    | isFalse hne =>
      obtain ⟨marked, hmark, hmarked⟩ := buddyTreeMark_spec hreleased hq hfree
      refine ⟨_, _, ?_, .moved hq hfree (h.setTree hmarked) hclass⟩
      have hindex : (positionOf p).index ≠ (positionOf q).index := hne
      have hsize := h.sizeForDepth_max hin hq hdepth
      rw [if_neg hindex, hmark, h.addressForPosition_eq hin, h.addressForPosition_eq hq, ← hsize]
      rfl

end

/-! ### The memory -/

/-- The product of two words, divided by the first one, is not the second one exactly when it
    overflows. -/
theorem mul_udiv_ne_iff {m k : BitVec 64} (hm : m ≠ 0) :
    m * k / m ≠ k ↔ 2 ^ 64 ≤ m.toNat * k.toNat := by
  have hpos : 0 < m.toNat := Nat.pos_of_ne_zero fun hzero => hm (BitVec.eq_of_toNat_eq hzero)
  have hbound := m.isLt
  rw [ne_eq, ← BitVec.toNat_inj, BitVec.toNat_udiv, BitVec.toNat_mul]
  constructor
  · intro hne
    by_contra hnot
    rw [Nat.mod_eq_of_lt (by omega), Nat.mul_div_cancel_left _ hpos] at hne
    exact hne rfl
  · intro hle heq
    have hrest := Nat.mod_add_div (m.toNat * k.toNat) (2 ^ 64)
    have hquot : 1 ≤ m.toNat * k.toNat / 2 ^ 64 := (Nat.one_le_div_iff (by norm_num)).mpr hle
    have hmul := Nat.div_add_mod (m.toNat * k.toNat % 2 ^ 64) m.toNat
    have hlt := Nat.mod_lt (m.toNat * k.toNat % 2 ^ 64) hpos
    rw [heq] at hmul
    omega

theorem memsetLoop_frame {dest a : BitVec 64} {v : Byte} {left i : Nat} {mem : ByteMemory}
    (h : ∀ j, i ≤ j → j < i + left → byteAt dest j ≠ a) : memsetLoop dest v i left mem a = mem a := by
  induction left generalizing i mem with
  | zero => rfl
  | succ left ih =>
    rw [memsetLoop, ih fun j hle hlt => h j (by omega) (by omega)]
    exact Function.update_of_ne (h i le_rfl (by omega)).symm ..

theorem memsetLoop_set {dest : BitVec 64} {v : Byte} {left i j : Nat} {mem : ByteMemory}
    (hle : i ≤ j) (hlt : j < i + left) : memsetLoop dest v i left mem (byteAt dest j) = v := by
  induction left generalizing i j mem with
  | zero => omega
  | succ left ih =>
    rw [memsetLoop]
    rcases Nat.lt_or_ge i j with hnext | hlast
    · exact ih hnext (by omega)
    · have heq : i = j := Nat.le_antisymm hle hlast
      by_cases hagain : ∃ k, i + 1 ≤ k ∧ k < i + 1 + left ∧ byteAt dest k = byteAt dest j
      · -- the range wraps around and meets the byte again
        obtain ⟨k, hk, hk', hsame⟩ := hagain
        rw [← hsame]
        exact ih hk hk'
      · rw [memsetLoop_frame fun k hk hk' hsame => hagain ⟨k, hk, hk', hsame⟩, heq,
          Function.update_self]

/-- `memset` writes no byte outside its range. -/
theorem memset_frame {mem : ByteMemory} {dest n a : BitVec 64} {v : Byte}
    (h : ∀ i < n.toNat, byteAt dest i ≠ a) : memset mem dest v n a = mem a :=
  memsetLoop_frame fun i _ hlt => h i (by omega)

/-- `memset` writes the bytes of its range. -/
theorem memset_set {mem : ByteMemory} {dest n : BitVec 64} {v : Byte} {i : Nat} (h : i < n.toNat) :
    memset mem dest v n (byteAt dest i) = v :=
  memsetLoop_set (Nat.zero_le i) (by omega)

end Rpi4Kernel.Mem
