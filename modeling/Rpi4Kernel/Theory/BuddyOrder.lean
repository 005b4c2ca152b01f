/-
Module: Rpi4Kernel.Theory.BuddyOrder
Layer: Theory
Purpose: The taken nodes of a buddy tree from left to right. They are listed in the order in which a
  walk meets them, and their slots follow each other in that order, which makes the list the only one
  of its kind.
Trusted boundary: none (fully proved)
Main exports: Taken.nodesBelow, Taken.mem_nodesBelow, Taken.nodesBelow_ordered, Before, eq_of_before
-/
import Rpi4Kernel.Theory.BuddyStatus
import Mathlib.Data.List.Sort

namespace Rpi4Kernel.Theory

open IndexTree

/-- The slots of node `i` end where those of node `j` begin, or before. -/
def Before (n i j : Nat) : Prop := firstSlot n i + slotCount n i ≤ firstSlot n j

theorem Before.irrefl {n i : Nat} : ¬ Before n i i := by
  have hcount := slotCount_pos n i
  simp only [Before]
  omega

theorem Before.asymm {n i j : Nat} (h : Before n i j) : ¬ Before n j i := by
  have hcount := slotCount_pos n i
  simp only [Before] at *
  omega

/-- The slots of a node below `i` are slots of `i`. -/
theorem slots_below {n i j : Nat} (hi : InTree n i) (hj : InTree n j) (h : Below i j) :
    firstSlot n i ≤ firstSlot n j ∧ firstSlot n j + slotCount n j ≤ firstSlot n i + slotCount n i := by
  have hcount := slotCount_pos n j
  have hend := firstSlot_add_slotCount_le hj
  have hfirst := (covers_iff_below hi (x := firstSlot n j) (by omega)).mpr
    (h.trans ((covers_iff_below hj (by omega)).mp (by omega)))
  have hlast := (covers_iff_below hi (x := firstSlot n j + slotCount n j - 1) (by omega)).mpr
    (h.trans ((covers_iff_below hj (by omega)).mp (by omega)))
  omega

/-- What lies below a left child is before what lies below its sibling. -/
theorem before_of_children {n i j k : Nat} (hi : InTree n i) (hinner : i.size < n) (hj : InTree n j)
    (hk : InTree n k) (hl : Below (2 * i) j) (hr : Below (2 * i + 1) k) : Before n j k := by
  obtain ⟨hfirst, hsecond, hcount, -⟩ := slots_children hi hinner
  have hleft := slots_below (hi.left hinner) hj hl
  have hright := slots_below (hi.right hinner) hk hr
  simp only [Before]
  omega

/-- Two lists of the same nodes, each with its nodes from left to right, are the same. -/
theorem eq_of_before {n : Nat} {xs ys : List Nat} (hxs : xs.Pairwise (Before n))
    (hys : ys.Pairwise (Before n))
    (hmem : ∀ i, i ∈ xs ↔ i ∈ ys) : xs = ys := by
  have hnodup : ∀ {zs : List Nat}, zs.Pairwise (Before n) → zs.Nodup := by
    intro zs hzs
    apply hzs.imp
    intro i j hij heq
    rw [heq] at hij
    exact Before.irrefl hij
  have hperm : xs.Perm ys := (List.perm_ext_iff_of_nodup (hnodup hxs) (hnodup hys)).mpr hmem
  exact hperm.eq_of_pairwise (fun i j _ _ hij hji => absurd hji hij.asymm) hxs hys

namespace Taken

variable {n : Nat}

/-- The taken nodes among `i` and the `h - 1` levels below it, from left to right. -/
def nodesWithin (nodes : Finset Nat) : Nat → Nat → List Nat
  | 0, _ => []
  | h + 1, i => if i ∈ nodes then [i]
    else nodesWithin nodes h (2 * i) ++ nodesWithin nodes h (2 * i + 1)

/-- The taken nodes below `i`, from left to right. -/
def nodesBelow (t : Taken n) (i : Nat) : List Nat := nodesWithin t.nodes (height n i) i

theorem nodesBelow_of_mem (t : Taken n) {i : Nat} (h : i ∈ t.nodes) : t.nodesBelow i = [i] := by
  obtain ⟨k, hk⟩ : ∃ k, height n i = k + 1 :=
    ⟨height n i - 1, by have := (t.inTree i h).height_pos; omega⟩
  rw [nodesBelow, hk, nodesWithin, if_pos h]

theorem nodesBelow_inner (t : Taken n) {i : Nat} (hin : InTree n i) (h : i ∉ t.nodes) :
    t.nodesBelow i = t.nodesBelow (2 * i) ++ t.nodesBelow (2 * i + 1) := by
  obtain ⟨k, hk⟩ : ∃ k, height n i = k + 1 := ⟨height n i - 1, by have := hin.height_pos; omega⟩
  rw [nodesBelow, hk, nodesWithin, if_neg h, nodesBelow, nodesBelow, height_left hin.pos,
    height_right hin.pos, hk, Nat.add_sub_cancel]

theorem nodesBelow_leaf (t : Taken n) {i : Nat} (hleaf : i.size = n) (h : i ∉ t.nodes) :
    t.nodesBelow i = [] := by
  have hk : height n i = 0 + 1 := by
    unfold height
    omega
  rw [nodesBelow, hk, nodesWithin, if_neg h]
  rfl

theorem mem_nodesBelow (t : Taken n) {i j : Nat} (hin : InTree n i) :
    j ∈ t.nodesBelow i ↔ j ∈ t.nodes ∧ Below i j := by
  refine subtree_induction (n := n) (motive := fun i => j ∈ t.nodesBelow i ↔ j ∈ t.nodes ∧
    Below i j) ?_ hin
  intro i hin ih
  by_cases hmem : i ∈ t.nodes
  · rw [t.nodesBelow_of_mem hmem, List.mem_singleton]
    constructor
    · intro heq
      rw [heq]
      exact ⟨hmem, Below.refl i⟩
    · intro hj
      exact (t.apart i hmem j hj.1 hj.2).symm
  · by_cases hinner : i.size < n
    · obtain ⟨ihLeft, ihRight⟩ := ih hinner
      rw [t.nodesBelow_inner hin hmem, List.mem_append, ihLeft, ihRight, ← and_or_left]
      apply and_congr_right
      intro hj
      constructor
      · intro hbelow
        cases hbelow with
        | inl hl => exact (below_left i).trans hl
        | inr hr => exact (below_right i).trans hr
      · intro hbelow
        exact hbelow.child fun heq => hmem (heq ▸ hj)
    · have hleaf : i.size = n := le_antisymm hin.size_le (not_lt.mp hinner)
      rw [t.nodesBelow_leaf hleaf hmem]
      constructor
      · intro hj
        cases hj
      · intro hj
        exact absurd (t.eq_of_below_leaf hin hleaf hj.1 hj.2 ▸ hj.1) hmem

theorem nodesBelow_of_status_zero (t : Taken n) {i : Nat} (hin : InTree n i) (h : t.status i = 0) :
    t.nodesBelow i = [] := by
  rw [List.eq_nil_iff_forall_not_mem]
  intro j hj
  obtain ⟨hmem, hbelow⟩ := (t.mem_nodesBelow hin).mp hj
  exact (t.status_eq_zero_iff hin).mp h j hmem hbelow

/-- Their slots follow each other. -/
theorem nodesBelow_ordered (t : Taken n) {i : Nat} (hin : InTree n i) :
    (t.nodesBelow i).Pairwise (Before n) := by
  refine subtree_induction (n := n) (motive := fun i => (t.nodesBelow i).Pairwise (Before n)) ?_ hin
  intro i hin ih
  by_cases hmem : i ∈ t.nodes
  · rw [t.nodesBelow_of_mem hmem]
    exact List.pairwise_singleton _ _
  · by_cases hinner : i.size < n
    · obtain ⟨ihLeft, ihRight⟩ := ih hinner
      rw [t.nodesBelow_inner hin hmem, List.pairwise_append]
      refine ⟨ihLeft, ihRight, fun j hj k hk => ?_⟩
      have hj' := (t.mem_nodesBelow (hin.left hinner)).mp hj
      have hk' := (t.mem_nodesBelow (hin.right hinner)).mp hk
      exact before_of_children hin hinner (t.inTree j hj'.1) (t.inTree k hk'.1) hj'.2 hk'.2
    · rw [t.nodesBelow_leaf (le_antisymm hin.size_le (not_lt.mp hinner)) hmem]
      exact List.Pairwise.nil

end Taken

end Rpi4Kernel.Theory
