/-
Module: Rpi4Kernel.Proofs.BuddySpec
Layer: Proofs
Purpose: The buddy allocator over an arena of `b` blocks of 64 bytes. Depths, sizes and addresses are
  those of the nodes of a tree of order `arenaOrder b`; an allocation takes a free node and a release
  gives the node of the address back.
Trusted boundary: none (fully proved)
Main exports: blockSize, ArenaOf, Manages, buddyMalloc_some, buddyMalloc_none, buddyFree_spec
-/
import Rpi4Kernel.Mem.Buddy
import Rpi4Kernel.Proofs.BitsSpec
import Rpi4Kernel.Proofs.BuddyTreeSpec

namespace Rpi4Kernel.Mem

open Rpi4Kernel.Theory Rpi4Kernel.Theory.IndexTree

/-! ### Size classes -/

/-- The size of the block that serves a request: the least power of two that is at least 64 and at
    least the size asked for. -/
def blockSize (size : Nat) : Nat := 2 ^ Nat.clog 2 (max buddyAllocAlign size)

/-- The order of the tree of an arena of `b` blocks. -/
def arenaOrder (b : Nat) : Nat := Nat.clog 2 b + 1

theorem le_blockSize (size : Nat) : size ≤ blockSize size :=
  le_trans (le_max_right _ _) (Nat.le_pow_clog (by norm_num) _)

/-- `blockSize` is the least such power. -/
theorem blockSize_le_two_pow_iff {size k : Nat} :
    blockSize size ≤ 2 ^ k ↔ buddyAllocAlign ≤ 2 ^ k ∧ size ≤ 2 ^ k := by
  unfold blockSize
  rw [Nat.pow_le_pow_iff_right (by norm_num), Nat.clog_le_iff_le_pow (by norm_num), max_le_iff]

theorem clog_mul_align {b : Nat} (hb : 0 < b) : Nat.clog 2 (64 * b) = 6 + Nat.clog 2 b := by
  apply eq_of_forall_ge_iff
  intro k
  rw [Nat.clog_le_iff_le_pow (by norm_num)]
  rcases Nat.lt_or_ge k 6 with hk | hk
  · have hsmall : 2 ^ k ≤ 2 ^ 5 := Nat.pow_le_pow_right (by norm_num) (by omega)
    omega
  · obtain ⟨j, rfl⟩ := Nat.exists_eq_add_of_le hk
    rw [Nat.add_le_add_iff_left, Nat.clog_le_iff_le_pow (by norm_num), Nat.pow_add]
    omega

theorem six_le_clog_max (size : Nat) : 6 ≤ Nat.clog 2 (max buddyAllocAlign size) := by
  have h : Nat.clog 2 (2 ^ 6) ≤ Nat.clog 2 (max buddyAllocAlign size) :=
    Nat.clog_mono_right 2 (le_max_left _ _)
  rwa [Nat.clog_pow 2 6 (by norm_num)] at h

theorem clog_blocks_le {b : Nat} (hb : b ≤ 2 ^ 30) : Nat.clog 2 b ≤ 30 :=
  (Nat.clog_le_iff_le_pow (by norm_num)).mpr hb

/-- The depth of the blocks that serve a request, in a tree of order `n`. -/
def depthOf (n size : Nat) : Nat := n + 6 - Nat.clog 2 (max buddyAllocAlign size)

/-- A request that fits the arena has a depth in its tree, where the blocks have its size class. -/
theorem depthOf_spec {b size : Nat} (hb : 0 < b) (hfits : size ≤ 64 * b) :
    0 < depthOf (arenaOrder b) size ∧ depthOf (arenaOrder b) size ≤ arenaOrder b ∧
      blockSize size = 64 * 2 ^ (arenaOrder b - depthOf (arenaOrder b) size) := by
  have hlow := six_le_clog_max size
  have hhigh : Nat.clog 2 (max buddyAllocAlign size) ≤ 6 + Nat.clog 2 b := by
    rw [← clog_mul_align hb]
    apply Nat.clog_mono_right
    simp only [buddyAllocAlign, charBit]
    omega
  unfold depthOf arenaOrder blockSize
  refine ⟨by omega, by omega, ?_⟩
  rw [show (64 : Nat) = 2 ^ 6 by norm_num, ← Nat.pow_add]
  congr 1
  omega

/-- The span of the tree of an arena of `b` blocks, for every arena of up to `2 ^ 63` bytes. -/
theorem ceilingPowerOfTwo_blocks {b : Nat} (hb : 0 < b) (hle : 64 * b ≤ 2 ^ 63) :
    ceilingPowerOfTwo (64 * b) = 2 ^ (arenaOrder b + 5) := by
  rw [ceilingPowerOfTwo_eq (by omega) hle, clog_mul_align hb]
  congr 1
  unfold arenaOrder
  omega

/-- The blocks of depth `d` of such an arena. -/
theorem sizeForDepth_blocks {b d : Nat} {buddy : Buddy} (hb : 0 < b) (hle : 64 * b ≤ 2 ^ 63)
    (hsize : buddy.memorySize = 64 * b) (hd : 0 < d) (hd' : d ≤ arenaOrder b) :
    sizeForDepth buddy d = 64 * 2 ^ (arenaOrder b - d) := by
  unfold sizeForDepth
  rw [if_neg (by omega), hsize, ceilingPowerOfTwo_blocks hb hle, Nat.shiftRight_eq_div_pow,
    Nat.pow_div (by omega) (by norm_num), show (64 : Nat) = 2 ^ 6 by norm_num, ← Nat.pow_add]
  congr 1
  omega

theorem depthForSizeLoop_spec {size : Nat} (hpos : 0 < size) :
    ∀ (fuel depth e : Nat), Nat.clog 2 size ≤ e → e - Nat.clog 2 size < fuel →
      depthForSizeLoop size fuel depth (2 ^ e) = some (depth + (e - Nat.clog 2 size))
  | 0, _, _, _, h => by omega
  | fuel + 1, depth, e, hle, hfuel => by
      have hcond : (2 ^ e / size) >>> 1 ≠ 0 ↔ Nat.clog 2 size < e := by
        rw [Nat.shiftRight_eq_div_pow, Nat.pow_one, Nat.div_div_eq_div_mul,
          Nat.div_ne_zero_iff]
        cases e with
        | zero => omega
        | succ e =>
            rw [Nat.lt_succ_iff, Nat.clog_le_iff_le_pow (by norm_num), Nat.pow_succ]
            omega
      unfold depthForSizeLoop
      by_cases hlt : Nat.clog 2 size < e
      · rw [if_pos (hcond.mpr hlt)]
        have hhalf : 2 ^ e >>> 1 = 2 ^ (e - 1) := by
          rw [Nat.shiftRight_eq_div_pow, Nat.pow_div (by omega) (by norm_num)]
        rw [hhalf, depthForSizeLoop_spec hpos fuel (depth + 1) (e - 1) (by omega) (by omega)]
        congr 1
        omega
      · rw [if_neg fun h => hlt (hcond.mp h)]
        congr 1
        omega

/-- `depth_for_size` ends, at the depth of the request's size class. -/
theorem depthForSize_blocks {b size : Nat} {buddy : Buddy} (hb : 0 < b) (hle : 64 * b ≤ 2 ^ 63)
    (hsize : buddy.memorySize = 64 * b) (hfits : size ≤ 64 * b) :
    depthForSize buddy size = some (depthOf (arenaOrder b) size) := by
  have hlow := six_le_clog_max size
  have hclog : Nat.clog 2 (64 * b) ≤ 63 := (Nat.clog_le_iff_le_pow (by norm_num)).mpr hle
  rw [clog_mul_align hb] at hclog
  have hmax : (if size < buddyAllocAlign then buddyAllocAlign else size) =
      max buddyAllocAlign size := by
    rw [max_def]
    split_ifs <;> omega
  have hdepth := depthOf_spec hb hfits
  unfold depthForSize buddyEffectiveMemorySize
  unfold depthOf at hdepth ⊢
  have horder : arenaOrder b = Nat.clog 2 b + 1 := rfl
  rw [hmax, hsize, ceilingPowerOfTwo_blocks hb hle,
    depthForSizeLoop_spec (by simp [buddyAllocAlign, charBit]) 65 1 _ (by omega) (by omega)]
  congr 1
  omega

/-! ### Arenas -/

/-- The fields of a buddy over `b` blocks from address `s` on that no operation changes. -/
structure ArenaOf (s b : Nat) (buddy : Buddy) : Prop where
  blocks_pos : 0 < b
  blocks_le : b ≤ 2 ^ 30
  memorySize_eq : buddy.memorySize = 64 * b
  arena_eq : buddy.arena = s
  flags_eq : buddy.buddyFlags = 0

/-- A buddy whose tree represents the taken set `T`. -/
structure Manages (s b : Nat) (buddy : Buddy) (T : Taken (arenaOrder b)) : Prop where
  arena : ArenaOf s b buddy
  tree : Represents (arenaOrder b) buddy.tree T

theorem arenaOrder_le {b : Nat} (hb : b ≤ 2 ^ 30) : arenaOrder b ≤ 31 := by
  have := clog_blocks_le hb
  unfold arenaOrder
  omega

/-- All blocks of the arena are slots of the tree. -/
theorem blocks_le_slots (b : Nat) : b ≤ 2 ^ (arenaOrder b - 1) :=
  Nat.le_pow_clog (by norm_num) b

namespace ArenaOf

variable {s b : Nat} {buddy : Buddy}

theorem buddyMain_eq (h : ArenaOf s b buddy) : buddyMain buddy = s := by
  simp [buddyMain, buddyRelativeMode, h.flags_eq, h.arena_eq]

theorem buddyIsLeftBiased_eq (h : ArenaOf s b buddy) : buddyIsLeftBiased buddy = false := by
  simp [buddyIsLeftBiased, h.flags_eq]

theorem effective_eq (h : ArenaOf s b buddy) :
    ceilingPowerOfTwo buddy.memorySize = 2 ^ (arenaOrder b + 5) := by
  have hle := h.blocks_le
  rw [h.memorySize_eq, ceilingPowerOfTwo_blocks h.blocks_pos (by omega)]

/-- The span of the tree. -/
theorem buddyEffectiveMemorySize_eq (h : ArenaOf s b buddy) :
    buddyEffectiveMemorySize buddy = 64 * 2 ^ (arenaOrder b - 1) := by
  rw [buddyEffectiveMemorySize, h.effective_eq, show (64 : Nat) = 2 ^ 6 by norm_num, ← Nat.pow_add]
  congr 1
  unfold arenaOrder
  omega

/-- The blocks of depth `d`. -/
theorem sizeForDepth_eq (h : ArenaOf s b buddy) {d : Nat} (hd : 0 < d) (hd' : d ≤ arenaOrder b) :
    sizeForDepth buddy d = 64 * 2 ^ (arenaOrder b - d) := by
  have hle := h.blocks_le
  exact sizeForDepth_blocks h.blocks_pos (by omega) h.memorySize_eq hd hd'

theorem sizeForDepth_positionOf (h : ArenaOf s b buddy) {i : Nat} (hin : InTree (arenaOrder b) i) :
    sizeForDepth buddy (positionOf i).depth = 64 * slotCount (arenaOrder b) i :=
  h.sizeForDepth_eq hin.size_pos hin.size_le

end ArenaOf

/-- `depth_for_size` finds the depth of the request's size class. -/
theorem depthForSize_spec {s b size : Nat} {buddy : Buddy} (h : ArenaOf s b buddy)
    (hfits : size ≤ 64 * b) : depthForSize buddy size = some (depthOf (arenaOrder b) size) := by
  have hle := h.blocks_le
  exact depthForSize_blocks h.blocks_pos (by omega) h.memorySize_eq hfits

/-- The address of the block of a node. -/
theorem addressForPosition_eq {s b i : Nat} {buddy : Buddy} (h : ArenaOf s b buddy)
    (hin : InTree (arenaOrder b) i) :
    addressForPosition buddy (positionOf i) = s + 64 * firstSlot (arenaOrder b) i := by
  unfold addressForPosition buddyTreeIndex
  rw [h.buddyMain_eq, h.sizeForDepth_positionOf hin,
    buddyTreeIndexInternal_positionOf (arenaOrder_le h.blocks_le) hin]
  unfold firstSlot slotCount
  ring

/-! ### From an address back to its node -/

theorem buddyTreeLeftmostChild_eq {n : Nat} {t : BuddyTree} (h : TreeOf n t) :
    buddyTreeLeftmostChild t = ⟨2 ^ (n - 1), n⟩ := by
  have hle := h.order_le
  rw [buddyTreeLeftmostChild, buddyTreeLeftmostChildInternal, h.order_eq, shiftedOne_eq (by omega)]

/-- The climb from a leaf stops at the taken node above it. -/
theorem positionForAddressLoop_spec {n p : Nat} {t : BuddyTree} {T : Taken n}
    (h : Represents n t T) (hmem : p ∈ T.nodes) :
    ∀ (fuel i : Nat), InTree n i → Below p i → i.size < fuel →
      positionForAddressLoop t fuel (positionOf i) = some (positionOf p)
  | 0, _, _, _, hfuel => by omega
  | fuel + 1, i, hin, hb, hfuel => by
      have hstatus := buddyTreeStatus_spec h hin
      rw [positionForAddressLoop, if_pos ((h.tree.buddyTreeValid_iff _).mpr hin), hstatus,
        Option.bind_eq_bind, Option.bind_some]
      by_cases hip : i = p
      · subst hip
        have hpos := hin.height_pos
        rw [if_neg (by rw [T.status_of_mem hmem]; omega)]
      · have hzero : T.status i = 0 := by
          rw [T.status_eq_zero_iff hin]
          intro j hj hbj
          have hpj := T.apart p hmem j hj (hb.trans hbj)
          subst hpj
          exact hip (hbj.antisymm hb)
        have hp := (T.inTree p hmem).pos
        have hle := hb.le
        have hne : i ≠ 1 := by omega
        rw [if_pos hzero, buddyTreeParent_positionOf (by omega)]
        apply positionForAddressLoop_spec h hmem fuel (i / 2) (hin.half hne)
          (hb.half_of_ne (Ne.symm hip))
        rw [size_half (by omega)]
        have := hin.size_pos
        omega

/-- The climb from a node ends inside the tree when anything is taken, at the latest at the root. -/
theorem positionForAddressLoop_of_taken {n : Nat} {t : BuddyTree} {T : Taken n} (h : Represents n t T)
    (hroot : T.status 1 ≠ 0) :
    ∀ (fuel i : Nat), InTree n i → i.size < fuel →
      ∃ q, InTree n q ∧ positionForAddressLoop t fuel (positionOf i) = some (positionOf q)
  | 0, _, _, hfuel => by omega
  | fuel + 1, i, hin, hfuel => by
      rw [positionForAddressLoop, if_pos ((h.tree.buddyTreeValid_iff _).mpr hin),
        buddyTreeStatus_spec h hin, Option.bind_eq_bind, Option.bind_some]
      by_cases hzero : T.status i = 0
      · have hne : i ≠ 1 := fun heq => hroot (heq ▸ hzero)
        have hpos := hin.pos
        rw [if_pos hzero, buddyTreeParent_positionOf (by omega)]
        apply positionForAddressLoop_of_taken h hroot fuel (i / 2) (hin.half hne)
        rw [size_half (by omega)]
        have := hin.size_pos
        omega
      · exact ⟨i, hin, if_neg hzero⟩

/-- With nothing taken the climb passes the root. -/
theorem positionForAddressLoop_of_empty {n : Nat} {t : BuddyTree} {T : Taken n} (h : Represents n t T)
    (hempty : T.nodes = ∅) :
    ∀ (fuel i : Nat), InTree n i → i.size < fuel →
      positionForAddressLoop t fuel (positionOf i) = some invalidPos
  | 0, _, _, hfuel => by omega
  | fuel + 1, i, hin, hfuel => by
      have hzero : T.status i = 0 := by
        rw [T.status_eq_zero_iff hin, hempty]
        simp
      have hpos := hin.size_pos
      rw [positionForAddressLoop, if_pos ((h.tree.buddyTreeValid_iff _).mpr hin),
        buddyTreeStatus_spec h hin, Option.bind_eq_bind, Option.bind_some, if_pos hzero]
      by_cases hne : i = 1
      · subst hne
        obtain ⟨fuel, rfl⟩ := Nat.exists_eq_succ_of_ne_zero (show fuel ≠ 0 by omega)
        have hparent : buddyTreeParent (positionOf 1) = invalidPos := by
          rw [positionOf, Nat.size_one]
          rfl
        have hinvalid : buddyTreeValid t invalidPos = false := rfl
        rw [hparent, positionForAddressLoop, hinvalid]
        rfl
      · have := hin.pos
        rw [buddyTreeParent_positionOf (by omega)]
        apply positionForAddressLoop_of_empty h hempty fuel (i / 2) (hin.half hne)
        rw [size_half (by omega)]
        omega

/-- The deepest position for an offset is the leaf of its slot. -/
theorem deepestPositionForOffset_eq {n offset : Nat} {buddy : Buddy} (h : TreeOf n buddy.tree)
    (hoffset : offset / 64 < 2 ^ (n - 1)) :
    deepestPositionForOffset buddy offset = positionOf (leaf n (offset / 64)) := by
  unfold deepestPositionForOffset
  rw [buddyTreeLeftmostChild_eq h, positionOf, size_leaf h.order_pos hoffset]
  rfl

/-- `position_for_address` finds the node whose block starts at an address. -/
theorem positionForAddress_spec {s b p : Nat} {buddy : Buddy} {T : Taken (arenaOrder b)}
    (h : Manages s b buddy T) (hmem : p ∈ T.nodes) :
    positionForAddress buddy (s + 64 * firstSlot (arenaOrder b) p) = some (positionOf p) := by
  have hin := T.inTree p hmem
  have hn := h.tree.tree.order_pos
  have hslots := firstSlot_add_slotCount_le hin
  have hcount := slotCount_pos (arenaOrder b) p
  have hslot : 64 * firstSlot (arenaOrder b) p / 64 = firstSlot (arenaOrder b) p :=
    Nat.mul_div_cancel_left _ (by norm_num)
  have hx : firstSlot (arenaOrder b) p < 2 ^ (arenaOrder b - 1) := by omega
  have hleaf := size_leaf hn hx
  have hle := h.tree.tree.order_le
  simp only [positionForAddress, h.arena.buddyMain_eq, Nat.add_sub_cancel_left]
  rw [deepestPositionForOffset_eq h.tree.tree (by omega), hslot]
  exact positionForAddressLoop_spec h.tree hmem 65 _ (inTree_leaf hn hx)
    ((covers_iff_below hin hx).mp (by omega)) (by omega)

theorem positionOf_one : buddyTreeRoot = positionOf 1 := by
  rw [positionOf, Nat.size_one]
  rfl

/-! ### Allocation and release -/

/-- A request can be served: it fits the arena and the search of the tree finds a node for it. -/
def Serves {b : Nat} (T : Taken (arenaOrder b)) (size : Nat) : Prop :=
  size ≤ 64 * b ∧ ∃ p, search T.status false (depthOf (arenaOrder b) size - 1) 1 = some p

/-- The part of `buddy_malloc` that does not depend on whether a node is found. -/
theorem buddyMalloc_eq {s b size : Nat} {buddy : Buddy} {T : Taken (arenaOrder b)}
    {pos : BuddyTreePos} (h : Manages s b buddy T) (hfits : size ≤ 64 * b)
    (hsearch : searchAnswer (search T.status false (depthOf (arenaOrder b) size - 1) 1) = pos) :
    buddyMalloc buddy size =
      if buddyTreeValid buddy.tree pos then
        (buddyTreeMark buddy.tree pos).bind fun tree =>
          some ({ buddy with tree := tree }, some (addressForPosition buddy pos))
      else some (buddy, none) := by
  have hpos := h.arena.blocks_pos
  have horder := arenaOrder_le h.arena.blocks_le
  obtain ⟨hdepth, hdepth', -⟩ := depthOf_spec hpos hfits
  have hrequest : (if size = 0 then 1 else size) ≤ 64 * b := by split <;> omega
  have hsame : depthOf (arenaOrder b) (if size = 0 then 1 else size) =
      depthOf (arenaOrder b) size := by
    unfold depthOf
    split
    · next hzero => rw [hzero]; rfl
    · rfl
  have hmod : depthOf (arenaOrder b) size % 256 = depthOf (arenaOrder b) size :=
    Nat.mod_eq_of_lt (by omega)
  have hfind := buddyTreeFindFree_spec h.tree false hdepth hdepth'
  have haddress : ∀ tree pos, addressForPosition { buddy with tree := tree } pos =
      addressForPosition buddy pos := fun _ _ => rfl
  have henough : ¬ buddy.memorySize < if size = 0 then 1 else size := by
    rw [h.arena.memorySize_eq]
    omega
  simp only [buddyMalloc]
  rw [if_neg henough, depthForSize_spec h.arena hrequest, hsame]
  simp only [Option.bind_eq_bind, Option.bind_some, hmod, h.arena.buddyIsLeftBiased_eq, hfind,
    hsearch, haddress, Option.pure_def]

/-- `buddy_malloc` serves a request with a free node of the request's depth, and takes it. -/
theorem buddyMalloc_some {s b size p : Nat} {buddy : Buddy} {T : Taken (arenaOrder b)}
    (h : Manages s b buddy T) (hfits : size ≤ 64 * b)
    (hsearch : search T.status false (depthOf (arenaOrder b) size - 1) 1 = some p) :
    ∃ (buddy' : Buddy) (hin : InTree (arenaOrder b) p) (hfree : T.Free p),
      p.size = depthOf (arenaOrder b) size ∧
      buddyMalloc buddy size = some (buddy', some (s + 64 * firstSlot (arenaOrder b) p)) ∧
      Manages s b buddy' (T.insert p hin hfree) := by
  obtain ⟨hdepth, hdepth', -⟩ := depthOf_spec h.arena.blocks_pos hfits
  obtain ⟨hin, hsize, hfree⟩ := search_free T (inTree_root h.tree.tree.order_pos)
    (by rw [Nat.size_one]; omega)
    (fun j hj hb => by
      have := hb.le
      have := (T.inTree j hj).pos
      omega) hsearch
  obtain ⟨t', hmark, ht'⟩ := buddyTreeMark_spec h.tree hin hfree
  refine ⟨{ buddy with tree := t' }, hin, hfree, by rw [hsize, Nat.size_one]; omega, ?_,
    ⟨⟨h.arena.blocks_pos, h.arena.blocks_le, h.arena.memorySize_eq, h.arena.arena_eq,
      h.arena.flags_eq⟩, ht'⟩⟩
  rw [buddyMalloc_eq h hfits (by rw [hsearch, searchAnswer]),
    if_pos ((h.tree.tree.buddyTreeValid_iff _).mpr hin), hmark, Option.bind_some,
    addressForPosition_eq h.arena hin]

/-- `buddy_malloc` answers null, and changes nothing, when the request cannot be served. -/
theorem buddyMalloc_none {s b size : Nat} {buddy : Buddy} {T : Taken (arenaOrder b)}
    (h : Manages s b buddy T) (hnot : ¬ Serves T size) :
    buddyMalloc buddy size = some (buddy, none) := by
  have hpos := h.arena.blocks_pos
  by_cases hfits : size ≤ 64 * b
  · have hsearch : search T.status false (depthOf (arenaOrder b) size - 1) 1 = none := by
      rw [Option.eq_none_iff_forall_ne_some]
      exact fun p hp => hnot ⟨hfits, p, hp⟩
    have hinvalid : buddyTreeValid buddy.tree invalidPos = false := rfl
    rw [buddyMalloc_eq h hfits (by rw [hsearch, searchAnswer]), hinvalid]
    rfl
  · simp only [buddyMalloc, h.arena.memorySize_eq]
    rw [if_pos (by split <;> omega)]

/-- `buddy_free` of the address of a taken node inside the arena gives the node back. -/
theorem buddyFree_spec {s b p : Nat} {buddy : Buddy} {T : Taken (arenaOrder b)}
    (h : Manages s b buddy T) (hmem : p ∈ T.nodes) (hs : s ≠ 0)
    (hinside : firstSlot (arenaOrder b) p < b) :
    ∃ buddy', buddyFree buddy (s + 64 * firstSlot (arenaOrder b) p) = some (.ok buddy') ∧
      Manages s b buddy' (T.erase p) := by
  obtain ⟨t', hrelease, ht'⟩ := buddyTreeRelease_spec h.tree hmem
  refine ⟨{ buddy with tree := t' }, ?_,
    ⟨⟨h.arena.blocks_pos, h.arena.blocks_le, h.arena.memorySize_eq, h.arena.arena_eq,
      h.arena.flags_eq⟩, ht'⟩⟩
  simp only [buddyFree, h.arena.buddyMain_eq, h.arena.memorySize_eq]
  rw [if_neg (by omega), if_neg (by omega), positionForAddress_spec h hmem, Option.bind_eq_bind,
    Option.bind_some, if_pos ((h.tree.tree.buddyTreeValid_iff _).mpr (T.inTree p hmem)), hrelease]
  rfl

end Rpi4Kernel.Mem
