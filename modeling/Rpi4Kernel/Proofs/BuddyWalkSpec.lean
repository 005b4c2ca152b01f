/-
Module: Rpi4Kernel.Proofs.BuddyWalkSpec
Layer: Proofs
Purpose: The free-space count. `buddy_tree_walk` is a preorder walk that leaves out the subtrees it is
  told to leave; `buddy_arena_free_size` adds up the free slots of the taken set that the tree
  represents, and ends before it has visited every position twice.
Trusted boundary: none (fully proved)
Main exports: buddyTreeWalk_up, buddyTreeWalk_down, buddyArenaFreeSize_spec
-/
import Rpi4Kernel.Proofs.BuddySpec

namespace Rpi4Kernel.Mem

open Rpi4Kernel.Theory Rpi4Kernel.Theory.IndexTree

/-- The walk has just arrived at node `i` from above or from the left. -/
def visiting (i : Nat) : BuddyTreeWalkState := ⟨buddyTreeRoot, positionOf i, false, false⟩

/-- The walk leaves node `i` without going below it. -/
def leaving (i : Nat) : BuddyTreeWalkState := ⟨buddyTreeRoot, positionOf i, true, false⟩

/-- The state of the walk when it arrives at the next node, or at the end. -/
def arrival : Option Nat → BuddyTreeWalkState
  | none => ⟨buddyTreeRoot, positionOf 1, false, true⟩
  | some i => visiting i

theorem buddyTreeRightAdjacent_left {i : Nat} (h : 0 < i) :
    buddyTreeRightAdjacent (positionOf (2 * i)) = positionOf (2 * i + 1) := by
  have hxor : (2 * i + 1) ^^^ (2 * i) = 1 := by
    rw [← double_xor_one i, Nat.xor_comm, ← Nat.xor_assoc, Nat.xor_self, Nat.zero_xor]
  simp only [buddyTreeRightAdjacent, positionOf, hxor, size_double h, size_double_add_one h]
  rw [if_neg (by omega)]

theorem buddyTreeWalkBody_left (t : BuddyTree) {i : Nat} (h : 0 < i) :
    buddyTreeWalkBody t (leaving (2 * i)) = visiting (2 * i + 1) := by
  have hroot : ¬ (positionOf (2 * i)).index = buddyTreeRoot.index := by
    simp only [positionOf, buddyTreeRoot]
    omega
  have heven : ¬ (positionOf (2 * i)).index % 2 = 1 := by
    simp only [positionOf]
    omega
  simp only [buddyTreeWalkBody, leaving, hroot, heven, if_true, if_false,
    buddyTreeRightAdjacent_left h, visiting]

theorem buddyTreeWalkBody_right (t : BuddyTree) {i : Nat} (h : 0 < i) :
    buddyTreeWalkBody t (leaving (2 * i + 1)) = leaving i := by
  have hroot : ¬ (positionOf (2 * i + 1)).index = buddyTreeRoot.index := by
    simp only [positionOf, buddyTreeRoot]
    omega
  have hodd : (positionOf (2 * i + 1)).index % 2 = 1 := by
    simp only [positionOf]
    omega
  simp only [buddyTreeWalkBody, leaving, hroot, hodd, if_true, if_false,
    buddyTreeParent_positionOf (show 1 < 2 * i + 1 by omega), show (2 * i + 1) / 2 = i by omega]

/-- Going up ends at the node that follows the subtree in preorder. -/
theorem buddyTreeWalkLoop_up (t : BuddyTree) :
    ∀ (fuel i : Nat), 0 < i → i.size ≤ fuel →
      buddyTreeWalkLoop t fuel (leaving i) = some (arrival (nextAfter i))
  | 0, i, hpos, hfuel => by
      have := size_pos_of_pos hpos
      omega
  | fuel + 1, i, hpos, hfuel => by
      rcases Nat.even_or_odd' i with ⟨j, rfl | rfl⟩
      · have hj : 0 < j := by omega
        rw [buddyTreeWalkLoop, buddyTreeWalkBody_left t hj, nextAfter_left hj]
        rfl
      · rcases Nat.eq_zero_or_pos j with rfl | hj
        · rw [Nat.mul_zero, Nat.zero_add, nextAfter_one]
          rfl
        · rw [size_double_add_one hj] at hfuel
          rw [buddyTreeWalkLoop, buddyTreeWalkBody_right t hj, nextAfter_right hj]
          exact buddyTreeWalkLoop_up t fuel j hj (by omega)

theorem buddyTreeWalk_up {n i : Nat} (t : BuddyTree) (hn : n ≤ 31) (hin : InTree n i) :
    buddyTreeWalk t (leaving i) = some (arrival (nextAfter i)) :=
  buddyTreeWalkLoop_up t 66 i hin.pos (by have := hin.size_le; omega)

/-- Going down from an inner node arrives at its left child. -/
theorem buddyTreeWalk_down {n i : Nat} {t : BuddyTree} (h : TreeOf n t) (hin : InTree n i)
    (hinner : i.size < n) : buddyTreeWalk t (visiting i) = some (visiting (2 * i)) := by
  have hvalid : buddyTreeValid t (positionOf (2 * i)) = true :=
    (h.buddyTreeValid_iff _).mpr (hin.left hinner)
  have hbody : buddyTreeWalkBody t (visiting i) = visiting (2 * i) := by
    simp only [buddyTreeWalkBody, visiting, buddyTreeLeftChild_positionOf hin.pos, hvalid, if_true,
      Bool.false_eq_true, if_false]
  rw [buddyTreeWalk, buddyTreeWalkLoop, hbody]
  rfl

/-! ### The count -/

/-- How the count goes on from an arrival. -/
def countFrom (buddy : Buddy) (fuel : Nat) : Option Nat → Nat → Option Nat
  | none, result => some result
  | some i, result => buddyArenaFreeSizeLoop buddy fuel (visiting i) result

section Count

variable {s b : Nat} {buddy : Buddy}

/-- A full node adds nothing and its subtree is left out. -/
theorem buddyArenaFreeSizeLoop_full (harena : ArenaOf s b buddy)
    (ht : TreeOf (arenaOrder b) buddy.tree) {i : Nat} (hin : InTree (arenaOrder b) i)
    (hfull : cell (arenaOrder b) buddy.tree i = height (arenaOrder b) i) (fuel result : Nat) :
    buddyArenaFreeSizeLoop buddy (fuel + 1) (visiting i) result =
      countFrom buddy fuel (nextAfter i) result := by
  have hheight : buddy.tree.order - (positionOf i).depth + 1 = height (arenaOrder b) i := by
    have := hin.size_le
    simp only [ht.order_eq, positionOf, height]
    omega
  have hwalk := buddyTreeWalk_up buddy.tree (arenaOrder_le harena.blocks_le) hin
  rw [buddyArenaFreeSizeLoop]
  simp only [visiting, buddyTreeStatus_eq_cell ht hin, hheight, hfull, if_true, Option.bind_eq_bind,
    Option.bind_some]
  rw [← leaving, hwalk, Option.bind_some]
  cases nextAfter i <;> rfl

/-- A free node adds its whole size and its subtree is left out. -/
theorem buddyArenaFreeSizeLoop_free (harena : ArenaOf s b buddy)
    (ht : TreeOf (arenaOrder b) buddy.tree) {i : Nat} (hin : InTree (arenaOrder b) i)
    (hfree : cell (arenaOrder b) buddy.tree i = 0) (fuel result : Nat) :
    buddyArenaFreeSizeLoop buddy (fuel + 1) (visiting i) result =
      countFrom buddy fuel (nextAfter i) (result + 64 * slotCount (arenaOrder b) i) := by
  have hpos : ¬ (0 = buddy.tree.order - (positionOf i).depth + 1) := by omega
  have hwalk := buddyTreeWalk_up buddy.tree (arenaOrder_le harena.blocks_le) hin
  rw [buddyArenaFreeSizeLoop]
  simp only [visiting, buddyTreeStatus_eq_cell ht hin, hfree, if_neg hpos, if_true,
    harena.sizeForDepth_positionOf hin, Option.bind_eq_bind, Option.bind_some]
  rw [← leaving, hwalk, Option.bind_some]
  cases nextAfter i <;> rfl

/-- Below a node that is neither full nor free the count goes on with the left child. -/
theorem buddyArenaFreeSizeLoop_inner (ht : TreeOf (arenaOrder b) buddy.tree) {i : Nat}
    (hin : InTree (arenaOrder b) i) (hinner : i.size < arenaOrder b)
    (hfree : cell (arenaOrder b) buddy.tree i ≠ 0)
    (hfull : cell (arenaOrder b) buddy.tree i ≠ height (arenaOrder b) i) (fuel result : Nat) :
    buddyArenaFreeSizeLoop buddy (fuel + 1) (visiting i) result =
      buddyArenaFreeSizeLoop buddy fuel (visiting (2 * i)) result := by
  have hheight : buddy.tree.order - (positionOf i).depth + 1 = height (arenaOrder b) i := by
    simp only [ht.order_eq, positionOf, height]
    omega
  have hwalk := buddyTreeWalk_down ht hin hinner
  rw [buddyArenaFreeSizeLoop]
  simp only [visiting, buddyTreeStatus_eq_cell ht hin, hheight, if_neg hfull, if_neg hfree,
    Option.bind_eq_bind, Option.bind_some]
  rw [← visiting, hwalk, Option.bind_some]
  rfl

variable {T : Taken (arenaOrder b)}

/-- From its arrival at a node, the count adds the free slots below the node and arrives at the node
    that follows the subtree. It takes fewer turns than the subtree has nodes, and one. -/
theorem buddyArenaFreeSizeLoop_spec (h : Manages s b buddy T) {i : Nat}
    (hin : InTree (arenaOrder b) i) :
    ∃ used, used + 1 ≤ 2 ^ height (arenaOrder b) i ∧ ∀ fuel result,
      buddyArenaFreeSizeLoop buddy (fuel + used) (visiting i) result =
        countFrom buddy fuel (nextAfter i) (result + 64 * T.freeSlots i) := by
  refine Taken.subtree_induction (n := arenaOrder b) (motive := fun i =>
    ∃ used, used + 1 ≤ 2 ^ height (arenaOrder b) i ∧ ∀ fuel result,
      buddyArenaFreeSizeLoop buddy (fuel + used) (visiting i) result =
        countFrom buddy fuel (nextAfter i) (result + 64 * T.freeSlots i)) ?_ hin
  intro i hin ih
  have hpow : 2 ^ 1 ≤ 2 ^ height (arenaOrder b) i :=
    Nat.pow_le_pow_right (by norm_num) hin.height_pos
  by_cases hfull : T.status i = height (arenaOrder b) i
  · refine ⟨1, by omega, fun fuel result => ?_⟩
    rw [buddyArenaFreeSizeLoop_full h.arena h.tree.tree hin ((h.tree.shows i hin).trans hfull),
      T.freeSlots_of_status_full hin hfull, Nat.mul_zero, Nat.add_zero]
  by_cases hfree : T.status i = 0
  · refine ⟨1, by omega, fun fuel result => ?_⟩
    rw [buddyArenaFreeSizeLoop_free h.arena h.tree.tree hin ((h.tree.shows i hin).trans hfree),
      T.freeSlots_of_status_zero hin hfree]
  · have hmem : i ∉ T.nodes := fun hmem => hfull (T.status_of_mem hmem)
    have hinner : i.size < arenaOrder b := by
      have hle := hin.size_le
      by_contra hnot
      exact hfree (T.status_leaf (by omega) hmem)
    obtain ⟨⟨usedLeft, hboundLeft, hleft⟩, ⟨usedRight, hboundRight, hright⟩⟩ := ih hinner
    rw [height_left hin.pos] at hboundLeft
    rw [height_right hin.pos] at hboundRight
    have hdouble : 2 ^ height (arenaOrder b) i = 2 * 2 ^ (height (arenaOrder b) i - 1) := by
      rw [← Nat.pow_succ', Nat.succ_eq_add_one, Nat.sub_add_cancel hin.height_pos]
    refine ⟨usedRight + usedLeft + 1, by omega, fun fuel result => ?_⟩
    calc buddyArenaFreeSizeLoop buddy (fuel + (usedRight + usedLeft + 1)) (visiting i) result
        = buddyArenaFreeSizeLoop buddy (fuel + usedRight + usedLeft) (visiting (2 * i)) result := by
          rw [← Nat.add_assoc, ← Nat.add_assoc, buddyArenaFreeSizeLoop_inner h.tree.tree hin hinner
            ((h.tree.shows i hin).symm ▸ hfree) ((h.tree.shows i hin).symm ▸ hfull)]
      _ = buddyArenaFreeSizeLoop buddy (fuel + usedRight) (visiting (2 * i + 1))
            (result + 64 * T.freeSlots (2 * i)) := by
          rw [hleft, nextAfter_left hin.pos]
          rfl
      _ = countFrom buddy fuel (nextAfter i) (result + 64 * T.freeSlots i) := by
          rw [hright, nextAfter_right hin.pos, T.freeSlots_inner hin hinner hmem, Nat.mul_add,
            Nat.add_assoc]

/-- `buddy_arena_free_size` is the size of the free slots. -/
theorem buddyArenaFreeSize_spec (h : Manages s b buddy T) :
    buddyArenaFreeSize buddy = some (64 * T.freeSlots 1) := by
  have hin := inTree_root h.tree.tree.order_pos
  obtain ⟨used, hbound, hcount⟩ := buddyArenaFreeSizeLoop_spec h hin
  have hheight : height (arenaOrder b) 1 = arenaOrder b := by
    rw [height, Nat.size_one, Nat.add_sub_cancel]
  have hstart : buddyTreeWalkStateRoot = visiting 1 := by
    rw [visiting, ← positionOf_one]
    rfl
  rw [hheight] at hbound
  have hfuel : 2 ^ arenaOrder b = 2 ^ arenaOrder b - used + used := by omega
  rw [buddyArenaFreeSize, h.tree.tree.order_eq, hstart, hfuel, hcount, nextAfter_one, Nat.zero_add]
  rfl

end Count

end Rpi4Kernel.Mem
