/-
Module: Rpi4Kernel.Proofs.BuddyInitSpec
Layer: Proofs
Purpose: The initialization of the buddy allocator. The loop of `buddy_toggle_virtual_slots` goes down
  one level with every turn and masks the last slots of the node it stands at; the positions that it
  marks do not overlap, and together they are the part of the tree's span that lies behind the arena.
Trusted boundary: none (fully proved)
Main exports: maskedPositions_spec, foldlM_buddyTreeMark_spec, buddyToggleVirtualSlots_spec,
  buddyInit_spec, exists_fresh_taken
-/
import Rpi4Kernel.Mem.VirtualSlots
import Rpi4Kernel.Proofs.BuddySpec

namespace Rpi4Kernel.Mem

open Rpi4Kernel.Theory Rpi4Kernel.Theory.IndexTree

/-! ### The fresh tree -/

theorem represents_buddyTreeInit {n : Nat} (hpos : 0 < n) (hle : n ≤ 31) :
    Represents n (buddyTreeInit n) (Taken.empty n) where
  tree := treeOf_buddyTreeInit hpos hle
  shows := by
    intro j hj
    have hzero : (Taken.empty n).status j = 0 := by
      rw [Taken.status_eq_zero_iff _ hj]
      intro k hk
      simp [Taken.empty] at hk
    have hclear : bitRow (buddyTreeInit n).bits (location n j) = false := by
      simp only [bitRow, buddyTreeInit, Array.getD_eq_getD_getElem?, Array.getElem?_replicate]
      split <;> simp
    rw [hzero, cell, BitRow.readCell, hclear]
    rfl

/-! ### The positions that are marked -/

/-- The loop of `buddy_toggle_virtual_slots` marks these positions and does nothing else. -/
theorem buddyToggleVirtualSlotsLoop_eq (buddy : Buddy) (fuel : Nat) (tree : BuddyTree)
    (pos : BuddyTreePos) (delta : Nat) :
    buddyToggleVirtualSlotsLoop buddy fuel tree pos delta =
      (maskedPositionsLoop buddy fuel pos delta).bind fun masked =>
        masked.foldlM buddyTreeMark tree := by
  induction fuel generalizing tree pos delta with
  | zero => rfl
  | succ fuel ih =>
    rw [buddyToggleVirtualSlotsLoop, maskedPositionsLoop]
    split
    · rfl
    dsimp only
    split
    · simp [List.foldlM]
    split
    · rw [ih]
    · simp only [ih, Option.bind_eq_bind, Option.bind_assoc, Option.bind_some, List.foldlM_cons]
      rw [Option.bind_comm]

/-- The nodes below `p` that cover the last `delta` slots of `p`, none below another. -/
structure LastSlots (n p delta : Nat) (nodes : List Nat) : Prop where
  inside : ∀ i ∈ nodes, InTree n i ∧ Below p i
  apart : nodes.Pairwise fun i j => ¬ Below i j ∧ ¬ Below j i
  covers : ∀ x < 2 ^ (n - 1), (∃ i ∈ nodes, Below i (leaf n x)) ↔
    firstSlot n p + slotCount n p - delta ≤ x ∧ x < firstSlot n p + slotCount n p

namespace LastSlots

variable {n p delta : Nat} {nodes : List Nat}

theorem whole (hin : InTree n p) : LastSlots n p (slotCount n p) [p] where
  inside := by
    intro i hi
    rw [List.mem_singleton.mp hi]
    exact ⟨hin, Below.refl p⟩
  apart := List.pairwise_singleton _ _
  covers := by
    intro x hx
    rw [show firstSlot n p + slotCount n p - slotCount n p = firstSlot n p by omega,
      covers_iff_below hin hx]
    simp

/-- The last slots of a right child are the last slots of its parent. -/
theorem ofRight (hin : InTree n p) (hinner : p.size < n) (h : LastSlots n (2 * p + 1) delta nodes) :
    LastSlots n p delta nodes where
  inside := fun i hi => ⟨(h.inside i hi).1, (below_right p).trans (h.inside i hi).2⟩
  apart := h.apart
  covers := by
    intro x hx
    obtain ⟨-, hfirst, hcount, hwhole⟩ := slots_children hin hinner
    rw [h.covers x hx, hfirst, hcount, hwhole]
    omega

/-- The right child, and the last slots of the left one. -/
theorem ofLeft (hin : InTree n p) (hinner : p.size < n) (hle : delta ≤ slotCount n (2 * p))
    (h : LastSlots n (2 * p) delta nodes) :
    LastSlots n p (delta + slotCount n (2 * p)) ((2 * p + 1) :: nodes) where
  inside := by
    intro i hi
    rcases List.mem_cons.mp hi with rfl | hi
    · exact ⟨hin.right hinner, below_right p⟩
    · exact ⟨(h.inside i hi).1, (below_left p).trans (h.inside i hi).2⟩
  apart := by
    refine List.pairwise_cons.mpr ⟨fun i hi => ?_, h.apart⟩
    have hbelow := (h.inside i hi).2
    refine ⟨fun hr => not_below_both_children hin.pos hbelow hr, fun hr => ?_⟩
    exact not_below_both_children hin.pos (hbelow.trans hr) (Below.refl _)
  covers := by
    intro x hx
    obtain ⟨hfirstLeft, hfirst, hcount, hwhole⟩ := slots_children hin hinner
    have hleft := h.covers x hx
    have hright := covers_iff_below (hin.right hinner) hx
    simp only [List.mem_cons, exists_eq_or_imp, hleft, ← hright, hfirstLeft, hfirst, hcount, hwhole]
    omega

end LastSlots

/-- From a node with at least `delta` slots the loop marks the last `delta` of them. -/
theorem maskedPositionsLoop_spec {s b : Nat} {buddy : Buddy} (h : ArenaOf s b buddy) :
    ∀ (fuel p delta : Nat), InTree (arenaOrder b) p → 0 < delta → delta ≤ slotCount (arenaOrder b) p →
      arenaOrder b < p.size + fuel →
      ∃ nodes, maskedPositionsLoop buddy fuel (positionOf p) (64 * delta) =
        some (nodes.map positionOf) ∧ LastSlots (arenaOrder b) p delta nodes
  | 0, _, _, hin, _, _, hfuel => by
    have hsize := hin.size_le
    omega
  | fuel + 1, p, delta, hin, hpos, hle, hfuel => by
    rw [maskedPositionsLoop, if_neg (by omega)]
    simp only [h.sizeForDepth_positionOf hin]
    by_cases hwhole : delta = slotCount (arenaOrder b) p
    · rw [if_pos (by rw [hwhole])]
      exact ⟨[p], rfl, hwhole ▸ LastSlots.whole hin⟩
    · have hinner : p.size < arenaOrder b := by
        by_contra hnot
        have hleaf : slotCount (arenaOrder b) p = 1 := by
          rw [slotCount, Nat.sub_eq_zero_of_le (not_lt.mp hnot), Nat.pow_zero]
        omega
      obtain ⟨-, -, hcount, hdouble⟩ := slots_children hin hinner
      have hhalf : 64 * slotCount (arenaOrder b) p / 2 = 64 * slotCount (arenaOrder b) (2 * p) := by
        omega
      rw [if_neg (by omega), hhalf]
      by_cases hright : delta ≤ slotCount (arenaOrder b) (2 * p)
      · obtain ⟨nodes, heq, hlast⟩ := maskedPositionsLoop_spec h fuel (2 * p + 1) delta
          (hin.right hinner) hpos (by omega) (by rw [size_double_add_one hin.pos]; omega)
        rw [if_pos (by omega), buddyTreeRightChild_positionOf hin.pos]
        exact ⟨nodes, heq, hlast.ofRight hin hinner⟩
      · obtain ⟨nodes, heq, hlast⟩ := maskedPositionsLoop_spec h fuel (2 * p)
          (delta - slotCount (arenaOrder b) (2 * p)) (hin.left hinner) (by omega) (by omega)
          (by rw [size_double hin.pos]; omega)
        rw [if_neg (by omega), buddyTreeRightChild_positionOf hin.pos,
          buddyTreeLeftChild_positionOf hin.pos, ← Nat.mul_sub, heq]
        refine ⟨(2 * p + 1) :: nodes, rfl, ?_⟩
        have hall := hlast.ofLeft hin hinner (by omega)
        rwa [Nat.sub_add_cancel (by omega)] at hall

/-- Marking nodes that are free and apart takes them all. -/
theorem foldlM_buddyTreeMark_spec {n : Nat} :
    ∀ (nodes : List Nat) (t : BuddyTree) (T : Taken n), Represents n t T →
      (∀ i ∈ nodes, InTree n i ∧ T.Free i) →
      nodes.Pairwise (fun i j => ¬ Below i j ∧ ¬ Below j i) →
      ∃ t' T', (nodes.map positionOf).foldlM buddyTreeMark t = some t' ∧ Represents n t' T' ∧
        ∀ i, i ∈ T'.nodes ↔ i ∈ nodes ∨ i ∈ T.nodes
  | [], t, T, ht, _, _ => ⟨t, T, rfl, ht, by simp⟩
  | p :: nodes, t, T, ht, hfree, hapart => by
    obtain ⟨hp, hpfree⟩ := hfree p List.mem_cons_self
    obtain ⟨hpapart, hapart⟩ := List.pairwise_cons.mp hapart
    obtain ⟨t₁, heq₁, ht₁⟩ := buddyTreeMark_spec ht hp hpfree
    have hfree₁ : ∀ i ∈ nodes, InTree n i ∧ (T.insert p hp hpfree).Free i := by
      intro i hi
      obtain ⟨hiin, hifree⟩ := hfree i (List.mem_cons_of_mem p hi)
      refine ⟨hiin, fun j hj => ?_⟩
      rcases Finset.mem_insert.mp hj with rfl | hj
      · exact (hpapart i hi).symm
      · exact hifree j hj
    obtain ⟨t', T', heq, ht', hmem⟩ := foldlM_buddyTreeMark_spec nodes t₁ _ ht₁ hfree₁ hapart
    refine ⟨t', T', ?_, ht', fun i => ?_⟩
    · rw [List.map_cons, List.foldlM_cons, heq₁]
      exact heq
    · rw [hmem i, List.mem_cons, or_assoc, or_left_comm]
      exact or_congr_right Finset.mem_insert

/-- The nodes that `buddy_toggle_virtual_slots` marks: exactly the slots behind the arena are below
    them. -/
theorem maskedPositions_spec {s b : Nat} {buddy : Buddy} (h : ArenaOf s b buddy) :
    ∃ nodes : List Nat, maskedPositions buddy = some (nodes.map positionOf) ∧
      (∀ i ∈ nodes, InTree (arenaOrder b) i) ∧
      nodes.Pairwise (fun i j => ¬ Below i j ∧ ¬ Below j i) ∧
      ∀ x < 2 ^ (arenaOrder b - 1), (∃ i ∈ nodes, Below i (leaf (arenaOrder b) x)) ↔ b ≤ x := by
  have hslots := blocks_le_slots b
  simp only [maskedPositions, h.buddyEffectiveMemorySize_eq, h.memorySize_eq]
  by_cases hexact : 64 * 2 ^ (arenaOrder b - 1) = 64 * b
  · rw [if_pos hexact]
    refine ⟨[], rfl, nofun, List.Pairwise.nil, fun x hx => iff_of_false ?_ (by omega)⟩
    rintro ⟨i, hi, -⟩
    cases hi
  · have hone : 1 < b := by
      by_contra hnot
      have hb : b = 1 := by
        have hpos := h.blocks_pos
        omega
      subst hb
      simp [arenaOrder] at hexact
    have hclog : 0 < Nat.clog 2 b := Nat.clog_pos (by norm_num) hone
    have hhalf : 2 ^ (arenaOrder b - 2) < b := Nat.pow_pred_clog_lt_self (by norm_num) hone
    have horder : arenaOrder b = (arenaOrder b - 2) + 2 := by
      unfold arenaOrder
      omega
    have hinner : (1 : Nat).size < arenaOrder b := by
      rw [Nat.size_one]
      omega
    have hthree : (3 : Nat).size = 2 := size_double_add_one (i := 1) (by norm_num)
    have hin : InTree (arenaOrder b) 3 := (inTree_root (by omega)).right hinner
    have hcount : slotCount (arenaOrder b) 3 = 2 ^ (arenaOrder b - 2) := by
      rw [slotCount, hthree]
    have hfirst : firstSlot (arenaOrder b) 3 = 2 ^ (arenaOrder b - 2) := by
      rw [firstSlot, hthree]
      norm_num
    have hdouble : 2 ^ (arenaOrder b - 1) = 2 * 2 ^ (arenaOrder b - 2) := by
      rw [show arenaOrder b - 1 = (arenaOrder b - 2) + 1 by omega, Nat.pow_succ']
    obtain ⟨nodes, heq, hlast⟩ := maskedPositionsLoop_spec h 65 3 (2 ^ (arenaOrder b - 1) - b) hin
      (by omega) (by omega) (by have hle := arenaOrder_le h.blocks_le; omega)
    rw [if_neg hexact, positionOf_one, buddyTreeRightChild_positionOf (by norm_num), ← Nat.mul_sub]
    refine ⟨nodes, heq, fun i hi => (hlast.inside i hi).1, hlast.apart, fun x hx => ?_⟩
    rw [hlast.covers x hx]
    omega

/-- `buddy_toggle_virtual_slots` marks the masked positions and counts their slots. -/
theorem buddyToggleVirtualSlots_eq (buddy : Buddy) : buddyToggleVirtualSlots buddy =
    (maskedPositions buddy).bind fun masked =>
      (masked.foldlM buddyTreeMark buddy.tree).map fun tree =>
        { buddy with
          virtualSlots := (buddyEffectiveMemorySize buddy - buddy.memorySize) / buddyAllocAlign
          tree := tree } := by
  simp only [buddyToggleVirtualSlots, maskedPositions]
  split
  case isTrue hexact => simp [hexact]
  case isFalse =>
    rw [buddyToggleVirtualSlotsLoop_eq, Option.bind_eq_bind, Option.bind_assoc]
    congr 1
    funext masked
    cases masked.foldlM buddyTreeMark buddy.tree <;> rfl

/-- The tree of a buddy over `b` blocks after `buddy_toggle_virtual_slots` on the tree `before`: `nodes`
    are masked, and nothing else is taken. -/
structure TailMasked (b : Nat) (before : BuddyTree) (buddy : Buddy) (T : Taken (arenaOrder b))
    (nodes : List Nat) : Prop where
  positions : maskedPositions buddy = some (nodes.map positionOf)
  apart : nodes.Pairwise fun i j => ¬ Below i j ∧ ¬ Below j i
  mem_iff : ∀ i, i ∈ T.nodes ↔ i ∈ nodes
  marked : (nodes.map positionOf).foldlM buddyTreeMark before = some buddy.tree
  covers : ∀ x < 2 ^ (arenaOrder b - 1), T.Covers x ↔ b ≤ x

/-- What is masked depends on the size of the arena alone. -/
theorem maskedPositions_congr {buddy buddy' : Buddy} (h : buddy.memorySize = buddy'.memorySize) :
    maskedPositions buddy = maskedPositions buddy' := by
  have hdepth : sizeForDepth buddy = sizeForDepth buddy' := by
    funext d
    rw [sizeForDepth, sizeForDepth, h]
  have hloop : maskedPositionsLoop buddy = maskedPositionsLoop buddy' := by
    funext fuel
    induction fuel with
    | zero => rfl
    | succ fuel ih =>
      funext pos delta
      simp only [maskedPositionsLoop, hdepth, ih]
  rw [maskedPositions, maskedPositions, buddyEffectiveMemorySize, buddyEffectiveMemorySize, hloop, h]

/-- `buddy_toggle_virtual_slots` on a tree where nothing is taken: exactly the slots past the end of
    the arena are taken afterwards. -/
theorem buddyToggleVirtualSlots_spec {s b : Nat} {buddy : Buddy} (h : ArenaOf s b buddy)
    (ht : Represents (arenaOrder b) buddy.tree (Taken.empty (arenaOrder b))) :
    ∃ buddy' T nodes, buddyToggleVirtualSlots buddy = some buddy' ∧ Manages s b buddy' T ∧
      TailMasked b buddy.tree buddy' T nodes := by
  obtain ⟨nodes, hmasked, hin, hapart, hcovers⟩ := maskedPositions_spec h
  have hfree : ∀ i ∈ nodes, InTree (arenaOrder b) i ∧ (Taken.empty (arenaOrder b)).Free i := by
    refine fun i hi => ⟨hin i hi, fun j hj => ?_⟩
    simp [Taken.empty] at hj
  obtain ⟨t', T, hmark, ht', hmem⟩ := foldlM_buddyTreeMark_spec nodes buddy.tree _ ht hfree hapart
  have hnodes : ∀ i, i ∈ T.nodes ↔ i ∈ nodes := by
    intro i
    rw [hmem i]
    simp [Taken.empty]
  have htoggle := buddyToggleVirtualSlots_eq buddy
  rw [hmasked, Option.bind_some, hmark, Option.map_some] at htoggle
  obtain ⟨buddy', hbuddy', hsize, harena, hflags, rfl⟩ : ∃ buddy',
      buddyToggleVirtualSlots buddy = some buddy' ∧ buddy'.memorySize = buddy.memorySize ∧
        buddy'.arena = buddy.arena ∧ buddy'.buddyFlags = buddy.buddyFlags ∧ buddy'.tree = t' :=
    ⟨_, htoggle, rfl, rfl, rfl, rfl⟩
  refine ⟨buddy', T, nodes, hbuddy', ⟨⟨h.blocks_pos, h.blocks_le, ?_, ?_, ?_⟩, ht'⟩, ?_, hapart, hnodes,
    hmark, fun x hx => ?_⟩
  · rw [hsize, h.memorySize_eq]
  · rw [harena, h.arena_eq]
  · rw [hflags, h.flags_eq]
  · rw [maskedPositions_congr hsize, hmasked]
  · rw [← hcovers x hx]
    simp only [Taken.Covers, hnodes]

/-! ### `buddy_init` -/

theorem trimmed_eq (memorySize : Nat) :
    memorySize - memorySize % buddyAllocAlign = 64 * (memorySize / 64) := by
  have := Nat.div_add_mod memorySize 64
  simp only [buddyAllocAlign, charBit]
  omega

/-- The order of the tree of any arena in a 64-bit address space. -/
theorem buddyTreeOrderForMemory_eq {memorySize : Nat} (hpos : 0 < memorySize / 64)
    (hword : memorySize < 2 ^ 64) :
    buddyTreeOrderForMemory memorySize = arenaOrder (memorySize / 64) := by
  have hblocks : memorySize / buddyAllocAlign = memorySize / 64 := rfl
  have hclog : Nat.clog 2 (memorySize / 64) ≤ 58 :=
    (Nat.clog_le_iff_le_pow (by norm_num)).mpr (by omega)
  have hlt : 2 ^ Nat.clog 2 (memorySize / 64) < 2 ^ 64 :=
    Nat.pow_lt_pow_right (by norm_num) (by omega)
  simp only [buddyTreeOrderForMemory, hblocks,
    ceilingPowerOfTwo_eq hpos (show memorySize / 64 ≤ 2 ^ 63 by omega)]
  rw [highestBitPosition_eq_size hlt, Nat.size_pow, arenaOrder]

/-- The buddy that `buddy_init` sets up before it takes the virtual slots. -/
def freshBuddy (place main memorySize : Nat) : Buddy where
  self := place
  memorySize := memorySize
  virtualSlots := 0
  arena := main
  buddyFlags := 0
  free := memorySize
  tree := buddyTreeInit (buddyTreeOrderForMemory memorySize)

/-- The addresses that `buddy_init` accepts for its own data and for the arena. -/
def AcceptedPlaces (place main : Nat) : Prop :=
  place ≠ 0 ∧ main ≠ 0 ∧ place ≠ main ∧ place % 8 = 0 ∧ main % 8 = 0

theorem buddyInit_of_accepted {place main memorySize : Nat} (hplaces : AcceptedPlaces place main)
    (hpos : 0 < memorySize / 64) :
    buddyInit place main memorySize =
      (buddyToggleVirtualSlots (freshBuddy place main (64 * (memorySize / 64)))).map some := by
  obtain ⟨h1, h2, h3, h4, h5⟩ := hplaces
  have hsizeof : buddySizeof (64 * (memorySize / 64)) ≠ 0 := by
    simp only [buddySizeof, buddyAllocAlign, charBit]
    split <;> omega
  simp only [buddyInit, trimmed_eq]
  rw [if_neg h1, if_neg h2, if_neg h3, if_neg (not_not.mpr h4), if_neg (not_not.mpr h5),
    if_neg hsizeof, ← freshBuddy]
  cases buddyToggleVirtualSlots (freshBuddy place main (64 * (memorySize / 64))) <;> rfl

theorem buddyInit_of_refused {place main memorySize : Nat}
    (h : ¬ (AcceptedPlaces place main ∧ 0 < memorySize / 64)) :
    buddyInit place main memorySize = some none := by
  have hsizeof : memorySize / 64 = 0 → buddySizeof (64 * (memorySize / 64)) = 0 := by
    intro hzero
    rw [hzero]
    rfl
  simp only [buddyInit, trimmed_eq]
  split_ifs with h1 h2 h3 h4 h5 h6
  iterate 6 · rfl
  exact absurd ⟨⟨h1, h2, h3, not_not.mp h4, not_not.mp h5⟩,
    Nat.pos_of_ne_zero fun hzero => h6 (hsizeof hzero)⟩ h

/-- `buddy_init` answers a buddy exactly when it accepts the two addresses and the arena has at
    least one block. -/
theorem buddyInit_eq_some {place main memorySize : Nat} {buddy : Buddy} :
    buddyInit place main memorySize = some (some buddy) ↔
      (AcceptedPlaces place main ∧ 0 < memorySize / 64) ∧
        buddyToggleVirtualSlots (freshBuddy place main (64 * (memorySize / 64))) = some buddy := by
  by_cases h : AcceptedPlaces place main ∧ 0 < memorySize / 64
  · rw [buddyInit_of_accepted h.1 h.2, Option.map_eq_some_iff]
    simp only [Option.some.injEq, exists_eq_right, h, true_and]
  · rw [buddyInit_of_refused h]
    exact iff_of_false nofun fun hand => h hand.1

/-- Every accepted arena of up to `2 ^ 36` bytes is set up: the slots past its end are taken. -/
theorem buddyInit_spec {place main memorySize : Nat} (hplaces : AcceptedPlaces place main)
    (hpos : 0 < memorySize / 64) (hle : memorySize / 64 ≤ 2 ^ 30) :
    ∃ buddy T nodes, buddyInit place main memorySize = some (some buddy) ∧
      Manages main (memorySize / 64) buddy T ∧
      TailMasked (memorySize / 64) (buddyTreeInit (arenaOrder (memorySize / 64))) buddy T nodes := by
  have harena : ArenaOf main (memorySize / 64) (freshBuddy place main (64 * (memorySize / 64))) :=
    ⟨hpos, hle, rfl, rfl, rfl⟩
  have hfresh : (freshBuddy place main (64 * (memorySize / 64))).tree =
      buddyTreeInit (arenaOrder (memorySize / 64)) := by
    have hblocks : 64 * (memorySize / 64) / 64 = memorySize / 64 := by omega
    rw [freshBuddy, buddyTreeOrderForMemory_eq (by omega) (by omega), hblocks]
  have htree : Represents (arenaOrder (memorySize / 64))
      (freshBuddy place main (64 * (memorySize / 64))).tree (Taken.empty _) := by
    rw [hfresh]
    exact represents_buddyTreeInit (Nat.succ_pos _) (arenaOrder_le hle)
  obtain ⟨buddy, T, nodes, heq, hmanages, hmasked⟩ := buddyToggleVirtualSlots_spec harena htree
  exact ⟨buddy, T, nodes, buddyInit_eq_some.mpr ⟨⟨hplaces, hpos⟩, heq⟩, hmanages, hfresh ▸ hmasked⟩

/-- One taken set is that of every fresh buddy over an arena of the same size. -/
theorem exists_fresh_taken {b : Nat} (hpos : 0 < b) (hle : b ≤ 2 ^ 30) :
    ∃ T : Taken (arenaOrder b), (∀ x < 2 ^ (arenaOrder b - 1), T.Covers x ↔ b ≤ x) ∧
      ∀ {place main memorySize : Nat} {buddy : Buddy}, memorySize / 64 = b →
        buddyInit place main memorySize = some (some buddy) → Manages main b buddy T := by
  have hblocks : 64 * b / 64 = b := Nat.mul_div_cancel_left b (by norm_num)
  have hplaces : AcceptedPlaces 8 16 := by unfold AcceptedPlaces; decide
  have hone := buddyInit_spec hplaces (show 0 < 64 * b / 64 by omega) (by omega)
  rw [hblocks] at hone
  obtain ⟨buddy₁, T, nodes, -, hmanages₁, hmasked⟩ := hone
  refine ⟨T, hmasked.covers, fun {place main memorySize buddy} hsize heq => ?_⟩
  subst hsize
  obtain ⟨⟨hplaces', hpos'⟩, -⟩ := buddyInit_eq_some.mp heq
  obtain ⟨buddy', T', nodes', heq', hmanages', hmasked'⟩ := buddyInit_spec hplaces' hpos' hle
  obtain rfl : buddy' = buddy := by
    rw [heq'] at heq
    exact Option.some.inj (Option.some.inj heq)
  -- the two masked the same nodes, and so have the same taken set
  have hsame : nodes' = nodes := by
    have hpositions := (hmasked'.positions.symm.trans (maskedPositions_congr
      (hmanages'.arena.memorySize_eq.trans hmanages₁.arena.memorySize_eq.symm))).trans hmasked.positions
    exact List.map_injective_iff.mpr (fun i j hij => congrArg BuddyTreePos.index hij)
      (Option.some.inj hpositions)
  obtain rfl : T' = T := Taken.eq_of_nodes (by
    ext i
    rw [hmasked'.mem_iff, hmasked.mem_iff, hsame])
  exact hmanages'

end Rpi4Kernel.Mem
