/-
Module: Rpi4Kernel.Proofs.BuddyTreeSpec
Layer: Proofs
Purpose: The packed allocation tree refines the abstract buddy tree of `Theory.BuddyStatus`. Every
  node of the tree owns a field of the bitset, the fields do not overlap, and a tree that shows the
  statuses of a taken set goes on to show them when a node is marked or released; the search of the
  code is the abstract search on these statuses.
Trusted boundary: none (fully proved)
Main exports: Represents, buddyTreeStatus_spec, buddyTreeMark_spec, buddyTreeRelease_spec,
  buddyTreeFindFree_spec
-/
import Rpi4Kernel.Mem.BuddyTree
import Rpi4Kernel.Proofs.BitsetSpec
import Rpi4Kernel.Theory.BuddyStatus

namespace Rpi4Kernel.Mem

open Rpi4Kernel.Theory Rpi4Kernel.Theory.IndexTree

/-! ### Where a status is stored -/

theorem sizeForOrderLoop_self (order result multi : Nat) :
    sizeForOrderLoop order order result multi = result := by
  cases order with
  | zero => rfl
  | succ order => rw [sizeForOrderLoop, if_pos rfl]

theorem sizeForOrderLoop_step {toOrder : Nat} :
    ∀ {order : Nat} (result multi : Nat), toOrder < order →
      sizeForOrderLoop toOrder order result multi =
        sizeForOrderLoop (toOrder + 1) order result multi +
          (toOrder + 1) * (multi * 2 ^ (order - (toOrder + 1)))
  | 0, _, _, h => by omega
  | order + 1, result, multi, h => by
      rw [sizeForOrderLoop, if_neg (by omega)]
      by_cases hlast : toOrder = order
      · subst hlast
        rw [sizeForOrderLoop_self, sizeForOrderLoop_self, Nat.sub_self, Nat.pow_zero, Nat.mul_one]
      · rw [sizeForOrderLoop_step _ _ (by omega), sizeForOrderLoop.eq_2, if_neg (by omega),
          show order + 1 - (toOrder + 1) = (order - (toOrder + 1)) + 1 by omega, Nat.pow_succ]
        ring

/-- The row of height `h + 1` has `2 ^ (order - (h + 1))` fields of `h + 1` bits. -/
theorem sizeForOrder_step {order h : Nat} (hlt : h < order) :
    sizeForOrder order h = sizeForOrder order (h + 1) + (h + 1) * 2 ^ (order - (h + 1)) := by
  unfold sizeForOrder
  rw [sizeForOrderLoop_step 0 1 hlt, Nat.one_mul]

/-- The rows are stored from the root down. -/
theorem sizeForOrder_antitone {order h h' : Nat} (hle : h ≤ h') (hle' : h' ≤ order) :
    sizeForOrder order h' ≤ sizeForOrder order h := by
  induction h', hle using Nat.le_induction with
  | base => exact le_rfl
  | succ k hk ih =>
      have hstep := sizeForOrder_step (show k < order by omega)
      have hk' := ih (by omega)
      omega

/-- The first bit of the field of node `i`. -/
def location (n i : Nat) : Nat :=
  sizeForOrder n (height n i) + height n i * (i - 2 ^ (i.size - 1))

/-- The field of a node ends inside its row. -/
theorem location_add_height_le {n i : Nat} (hin : InTree n i) :
    location n i + height n i ≤ sizeForOrder n (height n i - 1) := by
  obtain ⟨h1, h2⟩ := row_bounds hin.pos
  rw [two_pow_size_sub_one hin.pos] at h2
  have hpos := hin.height_pos
  have hsize := hin.size_pos
  have hle := hin.size_le
  have hrow : n - height n i = i.size - 1 := by
    unfold height
    omega
  have hheight : height n i - 1 + 1 = height n i := by omega
  have hstep : sizeForOrder n (height n i - 1) =
      sizeForOrder n (height n i) + height n i * 2 ^ (i.size - 1) := by
    rw [sizeForOrder_step (by unfold height; omega), hheight, hrow]
  rw [hstep]
  calc location n i + height n i
      = sizeForOrder n (height n i) + height n i * (i - 2 ^ (i.size - 1) + 1) := by
        unfold location
        ring
    _ ≤ sizeForOrder n (height n i) + height n i * 2 ^ (i.size - 1) :=
        Nat.add_le_add_left (Nat.mul_le_mul_left _ (by omega)) _

theorem location_add_height_le_total {n i : Nat} (hin : InTree n i) :
    location n i + height n i ≤ sizeForOrder n 0 :=
  le_trans (location_add_height_le hin)
    (sizeForOrder_antitone (Nat.zero_le _) (by have := hin.size_pos; unfold height; omega))

/-- A node nearer to the root has its field before those of the rows below. -/
theorem location_lt_of_height_lt {n i j : Nat} (hi : InTree n i)
    (h : height n j < height n i) : location n i + height n i ≤ location n j := by
  calc location n i + height n i ≤ sizeForOrder n (height n i - 1) := location_add_height_le hi
    _ ≤ sizeForOrder n (height n j) :=
        sizeForOrder_antitone (by omega) (by have := hi.size_pos; unfold height; omega)
    _ ≤ location n j := Nat.le_add_right _ _

/-- Within a row the fields follow each other. -/
theorem location_lt_of_row {n i j : Nat} (hsize : i.size = j.size) (hpos : 0 < i) (h : i < j) :
    location n i + height n i ≤ location n j := by
  obtain ⟨h1, -⟩ := row_bounds hpos
  have hheight : height n j = height n i := by
    unfold height
    rw [hsize]
  calc location n i + height n i
      = sizeForOrder n (height n i) + height n i * (i - 2 ^ (i.size - 1) + 1) := by
        unfold location
        ring
    _ ≤ sizeForOrder n (height n i) + height n i * (j - 2 ^ (j.size - 1)) :=
        Nat.add_le_add_left (Nat.mul_le_mul_left _ (by rw [← hsize]; omega)) _
    _ = location n j := by rw [location, hheight]

/-- The fields of different nodes do not overlap. -/
theorem locations_disjoint {n i j : Nat} (hi : InTree n i) (hj : InTree n j) (hne : i ≠ j) :
    location n i + height n i ≤ location n j ∨ location n j + height n j ≤ location n i := by
  rcases Nat.lt_trichotomy (height n i) (height n j) with h | h | h
  · exact Or.inr (location_lt_of_height_lt hj h)
  · have hsize : i.size = j.size := by
      have h1 := hi.size_le
      have h2 := hj.size_le
      unfold height at h
      omega
    rcases Nat.lt_or_gt_of_ne hne with hlt | hlt
    · exact Or.inl (location_lt_of_row hsize hi.pos hlt)
    · exact Or.inr (location_lt_of_row hsize.symm hj.pos hlt)
  · exact Or.inl (location_lt_of_height_lt hi h)

/-- Siblings have neighbouring fields. -/
theorem location_right {n i : Nat} (hpos : 0 < i) :
    location n (2 * i + 1) = location n (2 * i) + height n (2 * i) := by
  obtain ⟨h1, -⟩ := row_bounds (show 0 < 2 * i by omega)
  have hheight : height n (2 * i + 1) = height n (2 * i) := by
    rw [height_left hpos, height_right hpos]
  have hsize : (2 * i + 1).size = (2 * i).size := by
    rw [size_double hpos, size_double_add_one hpos]
  unfold location
  rw [hheight, hsize, show 2 * i + 1 - 2 ^ ((2 * i).size - 1) = 2 * i - 2 ^ ((2 * i).size - 1) + 1
    by omega]
  ring

/-! ### Positions -/

/-- The position of node `i`. -/
def positionOf (i : Nat) : BuddyTreePos := ⟨i, i.size⟩

theorem shiftedOne_eq {k : Nat} (h : k < 32) : shiftedOne k = 2 ^ k :=
  Nat.mod_eq_of_lt (Nat.pow_lt_pow_right (by norm_num) h)

/-- Masking the highest bit out of an index leaves its place in the row. -/
theorem clear_highest_bit {k r : Nat} (hk : k < 64) (hr : r < 2 ^ k) :
    (2 ^ k + r) &&& (sizeMax - 1 - 2 ^ k) = r := by
  have hpow : 2 ^ k < 2 ^ 64 := Nat.pow_lt_pow_right (by norm_num) hk
  have hmask : sizeMax - 1 - 2 ^ k = 2 ^ 64 - (2 ^ k + 1) := by
    unfold sizeMax
    omega
  apply Nat.eq_of_testBit_eq
  intro j
  rw [hmask, Nat.testBit_and, Nat.testBit_two_pow_sub_succ hpow,
    show 2 ^ k + r = 2 ^ k * 1 + r by omega, Nat.two_pow_add_eq_or_of_lt hr, Nat.mul_one,
    Nat.testBit_or, Nat.testBit_two_pow]
  by_cases hjk : j < k
  · simp [show k ≠ j by omega, show j < 64 by omega]
  · have hclear : r.testBit j = false :=
      Nat.testBit_lt_two_pow (lt_of_lt_of_le hr (Nat.pow_le_pow_right (by norm_num) (by omega)))
    by_cases hjk' : k = j <;> simp [hclear, hjk']

theorem buddyTreeIndexInternal_positionOf {n i : Nat} (hn : n ≤ 31) (hin : InTree n i) :
    buddyTreeIndexInternal (positionOf i) = i - 2 ^ (i.size - 1) := by
  obtain ⟨h1, h2⟩ := row_bounds hin.pos
  rw [two_pow_size_sub_one hin.pos] at h2
  have hsize := hin.size_le
  obtain ⟨r, hr⟩ := Nat.exists_eq_add_of_le h1
  have hmask : shiftedOne ((i.size - 1) % (8 * charBit - 1)) = 2 ^ (i.size - 1) := by
    rw [Nat.mod_eq_of_lt (by simp only [charBit]; omega), shiftedOne_eq (by omega)]
  simp only [buddyTreeIndexInternal, positionOf, hmask]
  have hk : i.size - 1 < 64 := by omega
  generalize i.size - 1 = k at hr h1 h2 hk
  rw [hr, clear_highest_bit hk (by omega), Nat.add_sub_cancel_left]

/-! ### Well-formed trees -/

/-- What `buddy_tree_init` sets up for a tree of order `n` and no operation changes. -/
structure TreeOf (n : Nat) (t : BuddyTree) : Prop where
  order_pos : 0 < n
  order_le : n ≤ 31
  order_eq : t.order = n
  upperPosBound_eq : t.upperPosBound = 2 ^ n
  sizes_eq : ∀ h ≤ n, t.sizes[h]? = some (sizeForOrder n h)
  bits_large : sizeForOrder n 0 ≤ 8 * t.bits.size

theorem TreeOf.of_bits {n : Nat} {t : BuddyTree} {bits : Bytes} (h : TreeOf n t)
    (hsize : bits.size = t.bits.size) : TreeOf n { t with bits := bits } :=
  { h with bits_large := by rw [hsize]; exact h.bits_large }

theorem treeOf_buddyTreeInit {n : Nat} (hpos : 0 < n) (hle : n ≤ 31) :
    TreeOf n (buddyTreeInit n) where
  order_pos := hpos
  order_le := hle
  order_eq := rfl
  upperPosBound_eq := shiftedOne_eq (by omega)
  sizes_eq := by
    intro h hh
    simp only [buddyTreeInit]
    rw [Array.getElem?_ofFn, dif_pos (by omega)]
  bits_large := by
    simp only [buddyTreeInit, Array.size_replicate, bitsetSizeof, charBit]
    omega

/-- The status that the field of node `i` holds. -/
def cell (n : Nat) (t : BuddyTree) (i : Nat) : Nat :=
  (bitRow t.bits).readCell (location n i) (height n i)

theorem TreeOf.buddyTreeValid_iff {n : Nat} {t : BuddyTree} (h : TreeOf n t) (pos : BuddyTreePos) :
    buddyTreeValid t pos = true ↔ InTree n pos.index := by
  simp only [buddyTreeValid, h.upperPosBound_eq, InTree, ne_eq, decide_not, Bool.and_eq_true,
    Bool.not_eq_eq_eq_not, Bool.not_true, decide_eq_false_iff_not, decide_eq_true_eq]
  omega

theorem TreeOf.internalPosition {n i : Nat} {t : BuddyTree} (h : TreeOf n t) (hin : InTree n i) :
    buddyTreeInternalPositionTree t (positionOf i) = some ⟨height n i, location n i⟩ := by
  have hsize := hin.size_le
  have hpos := hin.size_pos
  have hheight : n - i.size + 1 = height n i := by
    unfold height
    omega
  have hindex := buddyTreeIndexInternal_positionOf h.order_le hin
  simp only [buddyTreeInternalPositionTree, buddyTreeSizeForOrder, h.order_eq]
  rw [show (positionOf i).depth = i.size from rfl, hheight,
    h.sizes_eq _ (by unfold height; omega), hindex]
  rfl

theorem readFromInternalPosition_spec {bitset : Bytes} {start width : Nat} (hwidth : 0 < width)
    (hend : start + width ≤ 8 * bitset.size) :
    readFromInternalPosition bitset ⟨width, start⟩ = some ((bitRow bitset).readCell start width) := by
  simp only [readFromInternalPosition, bitsetTest_spec (show start < 8 * bitset.size by omega),
    Option.bind_eq_bind, Option.bind_some, BitRow.readCell]
  by_cases hfirst : bitRow bitset start = true
  · rw [if_pos hfirst, if_pos hfirst, bitsetCountRange_spec (by omega) (by omega),
      show start + width - 1 + 1 - start = width by omega]
  · rw [if_neg hfirst, if_neg hfirst]
    rfl

theorem writeToInternalPosition_spec {bitset : Bytes} {start width value : Nat}
    (hvalue : value ≤ width) (hwidth : 0 < width) (hend : start + width ≤ 8 * bitset.size) :
    ∃ bitset', writeToInternalPosition bitset ⟨width, start⟩ value = some bitset' ∧
      bitset'.size = bitset.size ∧
      bitRow bitset' = (bitRow bitset).writeCell start width value := by
  unfold writeToInternalPosition BitRow.writeCell
  by_cases hzero : value = 0
  · simp only [if_pos hzero]
    exact bitsetClear_spec (by omega)
  · simp only [if_neg hzero]
    obtain ⟨bitset₁, heq₁, hsize₁, hrow₁⟩ :=
      bitsetClearRange_spec (show start ≤ start + width - 1 by omega)
        (show start + width - 1 < 8 * bitset.size by omega)
    obtain ⟨bitset₂, heq₂, hsize₂, hrow₂⟩ :=
      bitsetSetRange_spec (show start ≤ start + value - 1 by omega)
        (show start + value - 1 < 8 * bitset₁.size by omega)
    refine ⟨bitset₂, by rw [heq₁, Option.bind_eq_bind, Option.bind_some, heq₂], by omega, ?_⟩
    rw [hrow₂, hrow₁, show start + width - 1 + 1 - start = width by omega,
      show start + value - 1 + 1 - start = value by omega]

theorem TreeOf.readNode {n i : Nat} {t : BuddyTree} (h : TreeOf n t) (hin : InTree n i) :
    readFromInternalPosition t.bits ⟨height n i, location n i⟩ = some (cell n t i) :=
  readFromInternalPosition_spec hin.height_pos
    (le_trans (location_add_height_le_total hin) h.bits_large)

/-- Writing the field of one node changes that node's status only. -/
theorem TreeOf.writeNode {n i value : Nat} {t : BuddyTree} (h : TreeOf n t) (hin : InTree n i)
    (hvalue : value ≤ height n i) :
    ∃ bits, writeToInternalPosition t.bits ⟨height n i, location n i⟩ value = some bits ∧
      TreeOf n { t with bits := bits } ∧
      ∀ j, InTree n j → cell n { t with bits := bits } j = if j = i then value else cell n t j := by
  obtain ⟨bits, heq, hsize, hrow⟩ := writeToInternalPosition_spec hvalue
    hin.height_pos (le_trans (location_add_height_le_total hin) h.bits_large)
  refine ⟨bits, heq, h.of_bits hsize, fun j hj => ?_⟩
  simp only [cell, hrow]
  by_cases hji : j = i
  · rw [if_pos hji, hji, BitRow.readCell_writeCell_self _ hin.height_pos hvalue]
  · rw [if_neg hji, BitRow.readCell_writeCell_disjoint _ hin.height_pos hj.height_pos hvalue
      (locations_disjoint hin hj (Ne.symm hji))]

theorem buddyTreeStatus_eq_cell {n i : Nat} {t : BuddyTree} (h : TreeOf n t) (hin : InTree n i) :
    buddyTreeStatus t (positionOf i) = some (cell n t i) := by
  rw [buddyTreeStatus, h.internalPosition hin, Option.bind_eq_bind, Option.bind_some, h.readNode hin]

/-! ### Positions around a position -/

theorem buddyTreeLeftChild_positionOf {i : Nat} (h : 0 < i) :
    buddyTreeLeftChild (positionOf i) = positionOf (2 * i) := by
  simp only [buddyTreeLeftChild, positionOf, size_double h, Nat.mul_comm i 2]

theorem buddyTreeRightChild_positionOf {i : Nat} (h : 0 < i) :
    buddyTreeRightChild (positionOf i) = positionOf (2 * i + 1) := by
  simp only [buddyTreeRightChild, positionOf, size_double_add_one h, Nat.mul_comm i 2]

theorem double_xor_one (i : Nat) : (2 * i) ^^^ 1 = 2 * i + 1 := by
  have hhalf : ((2 * i) ^^^ 1) / 2 = i := by
    rw [Nat.xor_div_two, Nat.mul_div_cancel_left i (by omega), Nat.xor_zero]
  have hlow : ((2 * i) ^^^ 1) % 2 = 1 := by
    rw [Nat.xor_mod_two_eq_one]
    omega
  omega

theorem buddyTreeSibling_positionOf {i : Nat} (h : 0 < i) :
    buddyTreeSibling (positionOf (2 * i)) = positionOf (2 * i + 1) := by
  have hxor := double_xor_one i
  simp only [buddyTreeSibling, positionOf, hxor, size_double_add_one h, size_double h]

theorem buddyTreeParent_positionOf {i : Nat} (h : 1 < i) :
    buddyTreeParent (positionOf i) = positionOf (i / 2) := by
  simp only [buddyTreeParent, positionOf, size_half h]

/-! ### Updating the parents -/

theorem targetParent_eq_combine (x y : Nat) : targetParent x y = combine x y := by
  unfold targetParent combine
  by_cases hzero : x = 0 ∧ y = 0
  · rw [if_pos hzero, if_neg (by omega)]
  · rw [if_neg hzero, if_pos (by omega), min_def]

/-- The other child of the parent of `p`. -/
def sibling (p : Nat) : Nat := if p % 2 = 0 then p + 1 else p - 1

/-- Of two siblings, the even one is the left child. -/
theorem siblings_cases {p : Nat} (h : 1 < p) :
    (p = 2 * (p / 2) ∧ sibling p = 2 * (p / 2) + 1) ∨
      (p = 2 * (p / 2) + 1 ∧ sibling p = 2 * (p / 2)) := by
  unfold sibling
  split <;> omega

theorem inTree_sibling {n p : Nat} (hin : InTree n p) (h : 1 < p) :
    InTree n (sibling p) ∧ height n (sibling p) = height n p := by
  have hhalf := hin.half (by omega)
  have hinner : (p / 2).size < n := by
    have := hin.size_le
    have := hin.size_pos
    rw [size_half h]
    omega
  rcases siblings_cases h with ⟨hp, hs⟩ | ⟨hp, hs⟩
  · rw [hs]
    refine ⟨hhalf.right hinner, ?_⟩
    conv_rhs => rw [hp]
    rw [height_right hhalf.pos, height_left hhalf.pos]
  · rw [hs]
    refine ⟨hhalf.left hinner, ?_⟩
    conv_rhs => rw [hp]
    rw [height_right hhalf.pos, height_left hhalf.pos]

/-- The step of `update_parent_chain` from the field of a position to that of its sibling. -/
theorem location_sibling {n p : Nat} (h : 1 < p) :
    location n p + height n p - 2 * height n p * (p % 2) = location n (sibling p) := by
  have hheight : height n (2 * (p / 2) + 1) = height n (2 * (p / 2)) := by
    rw [height_left (by omega), height_right (by omega)]
  have hright := location_right (n := n) (show 0 < p / 2 by omega)
  rcases siblings_cases h with ⟨hp, hs⟩ | ⟨hp, hs⟩
  · rw [hs, hright, show p % 2 = 0 by omega, Nat.mul_zero, Nat.sub_zero, ← hp]
  · rw [hs, show p % 2 = 1 by omega, Nat.mul_one]
    rw [← hp] at hright hheight
    omega

/-- The status of a parent is the combination of those of a child and its sibling. -/
theorem status_half {n p : Nat} (T : Taken n) (hin : InTree n p) (h : 1 < p)
    (hmem : p / 2 ∉ T.nodes) : T.status (p / 2) = combine (T.status p) (T.status (sibling p)) := by
  rw [T.status_inner (hin.half (by omega)) hmem]
  rcases siblings_cases h with ⟨hp, hs⟩ | ⟨hp, hs⟩
  · rw [hs, ← hp]
  · rw [hs, ← hp, combine_comm]

theorem not_below_sibling {n p : Nat} (hin : InTree n p) (h : 1 < p) : ¬ Below (sibling p) p := by
  intro hb
  rcases siblings_cases h with ⟨hp, hsib⟩ | ⟨hp, hsib⟩
  · rw [hsib] at hb
    exact not_below_both_children (hin.half (by omega)).pos (hp ▸ Below.refl p) hb
  · rw [hsib] at hb
    exact not_below_both_children (hin.half (by omega)).pos hb (hp ▸ Below.refl p)

/-- One turn of the loop of `update_parent_chain`. -/
theorem updateParentChainLoop_step {n p x : Nat} {t : BuddyTree} (fuel : Nat) (h : TreeOf n t)
    (hin : InTree n p) (hp : 1 < p) :
    updateParentChainLoop (fuel + 1) t (positionOf p) ⟨height n p, location n p⟩ x =
      if combine x (cell n t (sibling p)) = cell n t (p / 2) then some t
      else (writeToInternalPosition t.bits ⟨height n (p / 2), location n (p / 2)⟩
          (combine x (cell n t (sibling p)))).bind fun bits =>
        updateParentChainLoop fuel { t with bits := bits } (positionOf (p / 2))
          ⟨height n (p / 2), location n (p / 2)⟩ (combine x (cell n t (sibling p))) := by
  have hhalf := hin.half (by omega)
  obtain ⟨hsib, hsibHeight⟩ := inTree_sibling hin hp
  have hindex : (positionOf p).index = p := rfl
  have hreadSib := h.readNode hsib
  rw [hsibHeight] at hreadSib
  rw [updateParentChainLoop, hindex, if_neg (by omega)]
  simp only [location_sibling hp, hreadSib, buddyTreeParent_positionOf hp, h.internalPosition hhalf,
    h.readNode hhalf, Option.bind_eq_bind, Option.bind_some, targetParent_eq_combine]

/-- The tree in the middle of an update from the taken set `T` to `T'`, which differ below `p` only:
    the nodes above `p` still show the old status, all others the new one. -/
structure Updating (n : Nat) (T T' : Taken n) (p : Nat) (t : BuddyTree) : Prop where
  tree : TreeOf n t
  above : ∀ j, InTree n j → Below j p → j ≠ p → cell n t j = T.status j
  others : ∀ j, InTree n j → ¬ (Below j p ∧ j ≠ p) → cell n t j = T'.status j

/-- `update_parent_chain` completes an update, also when it stops at a parent that does not
    change. -/
theorem updateParentChainLoop_spec {n : Nat} (T T' : Taken n) :
    ∀ (fuel p : Nat) (t : BuddyTree), InTree n p → p.size ≤ fuel →
      (∀ j, ¬ Below p j → (j ∈ T.nodes ↔ j ∈ T'.nodes)) →
      (∀ j ∈ T'.nodes, Below j p → j = p) → Updating n T T' p t →
      ∃ t', updateParentChainLoop fuel t (positionOf p) ⟨height n p, location n p⟩ (T'.status p) =
          some t' ∧ TreeOf n t' ∧ ∀ j, InTree n j → cell n t' j = T'.status j
  | 0, _, _, hin, hfuel, _, _, _ => by
      have := hin.size_pos
      omega
  | fuel + 1, p, t, hin, hfuel, hagree, hclear, hupd => by
      by_cases hroot : p = 1
      · subst hroot
        rw [updateParentChainLoop, if_pos (show (positionOf 1).index = 1 from rfl)]
        refine ⟨t, rfl, hupd.tree, fun j hj => hupd.others j hj fun hb => ?_⟩
        have hle := hb.1.le
        have hpos := hj.pos
        exact hb.2 (by omega)
      · have hp : 1 < p := by
          have := hin.pos
          omega
        have hhalf := hin.half hroot
        have hne : p / 2 ≠ p := by omega
        have hmem' : p / 2 ∉ T'.nodes := fun h => hne (hclear _ h (below_half p))
        have hsibCell : cell n t (sibling p) = T'.status (sibling p) :=
          hupd.others _ (inTree_sibling hin hp).1 fun hb => not_below_sibling hin hp hb.1
        have hagree' : ∀ j, ¬ Below (p / 2) j → (j ∈ T.nodes ↔ j ∈ T'.nodes) :=
          fun j hb => hagree j fun hb' => hb ((below_half p).trans hb')
        rw [updateParentChainLoop_step fuel hupd.tree hin hp, hsibCell,
          ← status_half T' hin hp hmem', hupd.above _ hhalf (below_half p) hne]
        by_cases hstop : T'.status (p / 2) = T.status (p / 2)
        · rw [if_pos hstop]
          refine ⟨t, rfl, hupd.tree, fun j hj => ?_⟩
          by_cases hb : Below j p ∧ j ≠ p
          · rw [hupd.above j hj hb.1 hb.2]
            exact T.status_eq_above T' hhalf hj.pos (hb.1.half_of_ne hb.2) hagree' hstop.symm
          · exact hupd.others j hj hb
        · rw [if_neg hstop]
          obtain ⟨bits, hwrite, htree, hcells⟩ :=
            hupd.tree.writeNode hhalf (T'.status_le_height hhalf)
          rw [hwrite, Option.bind_some]
          apply updateParentChainLoop_spec T T' fuel (p / 2) _ hhalf
            (by rw [size_half hp]; omega) hagree'
          · intro j hj hb
            have := hclear j hj (hb.trans (below_half p))
            have := hb.le
            omega
          · refine ⟨htree, fun j hj hb hne' => ?_, fun j hj hb => ?_⟩
            · rw [hcells j hj, if_neg hne']
              refine hupd.above j hj (hb.trans (below_half p)) fun h => ?_
              have := hb.le
              omega
            · rw [hcells j hj]
              by_cases hjhalf : j = p / 2
              · rw [if_pos hjhalf, hjhalf]
              · rw [if_neg hjhalf]
                exact hupd.others j hj fun hb' =>
                  hb ⟨hb'.1.half_of_ne hb'.2, hjhalf⟩

/-! ### Marking and releasing -/

/-- The tree `t` shows the statuses of the taken set `T`. -/
structure Represents (n : Nat) (t : BuddyTree) (T : Taken n) : Prop where
  tree : TreeOf n t
  shows : ∀ j, InTree n j → cell n t j = T.status j

/-- `buddy_tree_status` of a tree that represents a taken set. -/
theorem buddyTreeStatus_spec {n i : Nat} {t : BuddyTree} {T : Taken n} (h : Represents n t T)
    (hin : InTree n i) : buddyTreeStatus t (positionOf i) = some (T.status i) := by
  rw [buddyTreeStatus_eq_cell h.tree hin, h.shows i hin]

/-- Writing the status of `p` and updating its parents leads from a representation of `T` to one of
    `T'`, when the two sets differ in `p` only. -/
theorem buddyTreeToggle_spec (value : Nat) {n p : Nat} {t : BuddyTree} {T T' : Taken n}
    (h : Represents n t T) (hin : InTree n p)
    (hagree : ∀ j, j ≠ p → (j ∈ T.nodes ↔ j ∈ T'.nodes))
    (hclear : ∀ j ∈ T'.nodes, Below j p → j = p) (hvalue : T'.status p = value)
    {f : InternalPosition → Nat} (hf : f ⟨height n p, location n p⟩ = value) :
    ∃ t', buddyTreeToggle t (positionOf p) f = some t' ∧ Represents n t' T' := by
  obtain ⟨bits, hwrite, htree, hcells⟩ := h.tree.writeNode hin (T'.status_le_height hin)
  have hupd : Updating n T T' p { t with bits := bits } := by
    refine ⟨htree, fun j hj _ hne => ?_, fun j hj hb => ?_⟩
    · rw [hcells j hj, if_neg hne, h.shows j hj]
    · rw [hcells j hj]
      by_cases hjp : j = p
      · rw [if_pos hjp, hjp]
      · rw [if_neg hjp, h.shows j hj]
        refine T.status_eq_of_agree T' hj fun k hk => hagree k ?_
        rintro rfl
        exact hb ⟨hk, hjp⟩
  have hsize : p.size ≤ 64 := by
    have := hin.size_le
    have := h.tree.order_le
    omega
  obtain ⟨t', heq, htree', hshows⟩ := updateParentChainLoop_spec T T' 64 p _ hin hsize
    (fun j hb => hagree j fun he => hb (he ▸ Below.refl p)) hclear hupd
  refine ⟨t', ?_, htree', hshows⟩
  simp only [buddyTreeToggle, h.tree.internalPosition hin, Option.bind_eq_bind, Option.bind_some, hf,
    ← hvalue, hwrite]
  exact heq

/-- `buddy_tree_mark` takes a free node. -/
theorem buddyTreeMark_spec {n p : Nat} {t : BuddyTree} {T : Taken n} (h : Represents n t T)
    (hin : InTree n p) (hfree : T.Free p) :
    ∃ t', buddyTreeMark t (positionOf p) = some t' ∧ Represents n t' (T.insert p hin hfree) := by
  have hmem : p ∈ (T.insert p hin hfree).nodes := Finset.mem_insert_self p _
  apply buddyTreeToggle_spec (height n p) h hin
  · intro j hne
    exact ⟨Finset.mem_insert_of_mem, fun hj => Finset.mem_of_mem_insert_of_ne hj hne⟩
  · exact fun j hj hb => (T.insert p hin hfree).apart j hj p hmem hb
  · exact Taken.status_of_mem _ hmem
  · rfl

/-- `buddy_tree_release` gives a taken node back. -/
theorem buddyTreeRelease_spec {n p : Nat} {t : BuddyTree} {T : Taken n} (h : Represents n t T)
    (hmem : p ∈ T.nodes) :
    ∃ t', buddyTreeRelease t (positionOf p) = some t' ∧ Represents n t' (T.erase p) := by
  apply buddyTreeToggle_spec 0 h (T.inTree p hmem)
  · intro j hne
    exact ⟨Finset.mem_erase_of_ne_of_mem hne, Finset.mem_of_mem_erase⟩
  · exact fun j hj hb => T.apart j (Finset.mem_of_mem_erase hj) p hmem hb
  · rw [Taken.status_eq_zero_iff _ (T.inTree p hmem)]
    intro j hj hb
    have := T.apart p hmem j (Finset.mem_of_mem_erase hj) hb
    exact Finset.ne_of_mem_erase hj this.symm
  · rfl

/-! ### Searching -/

/-- The position that the search answers. -/
def searchAnswer : Option Nat → BuddyTreePos
  | none => invalidPos
  | some p => positionOf p

theorem buddyTreeFindFreeLoop_spec {n : Nat} {t : BuddyTree} {T : Taken n}
    (h : Represents n t T) (leftBias : Bool) :
    ∀ (k fuel i : Nat), InTree n i → i.size + k ≤ n → k < fuel →
      buddyTreeFindFreeLoop t (i.size + k) leftBias fuel (positionOf i) k i.size (T.status i) =
        some (searchAnswer (search T.status leftBias k i))
  | _, 0, _, _, _, hfuel => by omega
  | 0, fuel + 1, i, hin, hdepth, hfuel => by
      rw [buddyTreeFindFreeLoop, if_pos (Nat.add_zero i.size).symm, search]
      split <;> rfl
  | k + 1, fuel + 1, i, hin, hdepth, hfuel => by
      have hpos := hin.pos
      have hl := hin.left (by omega)
      have hr := hin.right (by omega)
      have hinternal := h.tree.internalPosition hl
      have hreadLeft := h.tree.readNode hl
      have hreadRight := h.tree.readNode hr
      rw [h.shows _ hl] at hreadLeft
      rw [h.shows _ hr, location_right hpos, height_right hpos, ← height_left hpos] at hreadRight
      have hleft := buddyTreeFindFreeLoop_spec h leftBias k fuel (2 * i) hl
        (by rw [size_double hpos]; omega) (by omega)
      have hright := buddyTreeFindFreeLoop_spec h leftBias k fuel (2 * i + 1) hr
        (by rw [size_double_add_one hpos]; omega) (by omega)
      rw [size_double hpos, Nat.add_assoc, Nat.add_comm 1 k] at hleft
      rw [size_double_add_one hpos, Nat.add_assoc, Nat.add_comm 1 k] at hright
      rw [buddyTreeFindFreeLoop, if_neg (by omega), search]
      by_cases hfull : k + 1 < T.status i
      · rw [if_pos hfull, if_pos hfull]
        rfl
      · rw [if_neg hfull, if_neg hfull]
        simp only [buddyTreeLeftChild_positionOf hpos, buddyTreeSibling_positionOf hpos, hinternal,
          hreadLeft, hreadRight, Option.bind_eq_bind, Option.bind_some, Nat.add_sub_cancel, hleft,
          hright]
        split_ifs <;> rfl

/-- `buddy_tree_find_free` is the abstract search from the root. -/
theorem buddyTreeFindFree_spec {n d : Nat} {t : BuddyTree} {T : Taken n} (h : Represents n t T)
    (leftBias : Bool) (hpos : 0 < d) (hle : d ≤ n) :
    buddyTreeFindFree t d leftBias = some (searchAnswer (search T.status leftBias (d - 1) 1)) := by
  have hroot := inTree_root h.tree.order_pos
  have hn := h.tree.order_le
  have hstart := buddyTreeStatus_spec h hroot
  have hloop := buddyTreeFindFreeLoop_spec h leftBias (d - 1) 256 1 hroot
    (by rw [Nat.size_one]; omega) (by omega)
  rw [Nat.size_one, show 1 + (d - 1) = d by omega] at hloop
  have hposition : buddyTreeRoot = positionOf 1 := by
    rw [positionOf, Nat.size_one]
    rfl
  rw [buddyTreeFindFree, hposition, hstart, Option.bind_eq_bind, Option.bind_some]
  rw [show (positionOf 1).depth = 1 from Nat.size_one]
  exact hloop

end Rpi4Kernel.Mem
