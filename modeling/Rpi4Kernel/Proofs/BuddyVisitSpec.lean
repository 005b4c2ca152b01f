/-
Module: Rpi4Kernel.Proofs.BuddyVisitSpec
Layer: Proofs
Purpose: `buddy_walk` calls its function for the live blocks, each once and by rising address, until
  one of the calls returns a result. The walk meets the taken nodes from left to right, and those past
  the end of the arena are the last ones.
Trusted boundary: none (fully proved)
Main exports: buddyWalkLoop_spec, buddyWalk_nodes, visitBlocks, Books.nodesBelow_eq, buddyWalk_visits
-/
import Rpi4Kernel.Proofs.BuddyBuffersSpec
import Rpi4Kernel.Theory.BuddyOrder

namespace Rpi4Kernel.Mem

open Rpi4Kernel.Theory Rpi4Kernel.Theory.IndexTree

section

variable {γ ρ : Type} {s b : Nat} {buddy : Buddy} {T : Taken (arenaOrder b)}
  {fp : γ → Nat → Nat → γ × Option ρ}

/-! ### One node -/

/-- What the walk does at a taken node: it returns, or goes on with the context. -/
def visitNode (s b : Nat) (fp : γ → Nat → Nat → γ × Option ρ) (ctx : γ) (i : Nat) :
    Except (γ × Option ρ) γ :=
  if b < firstSlot (arenaOrder b) i + slotCount (arenaOrder b) i then .error (ctx, none)
  else buddyWalkAnswer (fp ctx (s + 64 * firstSlot (arenaOrder b) i) (64 * slotCount (arenaOrder b) i))

/-- The size of a node as `buddy_walk` computes it. -/
theorem Governs.effectiveSize (h : Governs s b buddy T) {i : Nat} (hin : InTree (arenaOrder b) i) :
    buddyEffectiveMemorySize buddy >>> ((positionOf i).depth - 1) =
      64 * slotCount (arenaOrder b) i := by
  have hsize := h.arena.sizeForDepth_positionOf hin
  have hdepth : (positionOf i).depth ≠ 0 := hin.size_pos.ne'
  rw [sizeForDepth, if_neg hdepth] at hsize
  exact hsize

theorem Governs.status_eq (h : Governs s b buddy T) {i : Nat} (hin : InTree (arenaOrder b) i) :
    buddyTreeStatus buddy.tree (positionOf i) = some (T.status i) := buddyTreeStatus_spec h.tree hin

theorem Governs.height_eq (h : Governs s b buddy T) {i : Nat} (hin : InTree (arenaOrder b) i) :
    buddy.tree.order - (positionOf i).depth + 1 = height (arenaOrder b) i := by
  have hle := hin.size_le
  simp only [h.tree.tree.order_eq, positionOf, height]
  omega

/-- A free node is left. -/
theorem buddyWalkTurn_free (h : Governs s b buddy T) {i : Nat} (hin : InTree (arenaOrder b) i)
    (hfree : T.status i = 0) (ctx : γ) :
    buddyWalkTurn buddy fp (visiting i) ctx = some (.ok (leaving i, ctx)) := by
  have hstatus := h.status_eq hin
  rw [hfree] at hstatus
  simp only [buddyWalkTurn, visiting, hstatus]
  rfl

/-- At a node that is not free the walk goes on as the test of the node says. -/
theorem buddyWalkTurn_used (h : Governs s b buddy T) {i : Nat} (hin : InTree (arenaOrder b) i)
    (hused : T.status i ≠ 0) {allocated : Bool}
    (hallocated : buddyWalkAllocated buddy.tree (positionOf i) (T.status i) = some allocated)
    (ctx : γ) :
    buddyWalkTurn buddy fp (visiting i) ctx = some (if allocated then
      (buddyWalkProcess buddy fp (positionOf i) ctx).map fun ctx => (visiting i, ctx)
      else .ok (visiting i, ctx)) := by
  have hstatus := h.status_eq hin
  obtain ⟨k, hk⟩ := Nat.exists_eq_succ_of_ne_zero hused
  rw [hk] at hstatus hallocated
  simp only [buddyWalkTurn, visiting, hstatus, hallocated]
  cases allocated <;> rfl

/-- The walk goes below a node that is not taken and not free. -/
theorem buddyWalkTurn_inner (h : Governs s b buddy T) {i : Nat} (hin : InTree (arenaOrder b) i)
    (hmem : i ∉ T.nodes) (hused : T.status i ≠ 0) (ctx : γ) :
    buddyWalkTurn buddy fp (visiting i) ctx = some (.ok (visiting i, ctx)) := by
  have hinner : i.size < arenaOrder b := by
    have hle := hin.size_le
    by_contra hnot
    exact hused (T.status_leaf (by omega) hmem)
  have hleft := hin.left hinner
  have hallocated : buddyWalkAllocated buddy.tree (positionOf i) (T.status i) = some false := by
    rw [buddyWalkAllocated, h.height_eq hin]
    cases decEq (T.status i) (height (arenaOrder b) i) with
    | isFalse hne => rw [if_neg hne]
    | isTrue hfull =>
      obtain ⟨hchild, -⟩ := T.children_full hin hinner hmem hfull
      have hpos := hleft.height_pos
      have hused' : T.status (2 * i) ≠ 0 := by omega
      rw [if_pos hfull, buddyTreeLeftChild_positionOf hin.pos, if_pos ((h.valid_iff (2 * i)).mpr hleft),
        h.status_eq hleft, Option.map_some, decide_eq_false hused']
  exact buddyWalkTurn_used h hin hused hallocated ctx

/-- At a taken node the function is called, unless the node is past the end of the arena. -/
theorem buddyWalkTurn_taken (h : Governs s b buddy T) {i : Nat} (hmem : i ∈ T.nodes) (ctx : γ) :
    buddyWalkTurn buddy fp (visiting i) ctx =
      some ((visitNode s b fp ctx i).map fun ctx => (visiting i, ctx)) := by
  have hin := T.inTree i hmem
  have hpos := hin.height_pos
  have hstatus := T.status_of_mem hmem
  have hallocated : buddyWalkAllocated buddy.tree (positionOf i) (T.status i) = some true := by
    rw [buddyWalkAllocated, h.height_eq hin, if_pos hstatus, buddyTreeLeftChild_positionOf hin.pos]
    dsimp only
    split
    case isTrue hvalid =>
      have hleftIn := (h.valid_iff (2 * i)).mp hvalid
      rw [h.status_eq hleftIn, (T.status_eq_zero_iff hleftIn).mpr, Option.map_some, decide_eq_true rfl]
      intro j hj hbelow
      have heq := T.apart i hmem j hj ((below_left i).trans hbelow)
      rw [← heq] at hbelow
      have hle := hbelow.le
      have hi := hin.pos
      omega
    case isFalse => rfl
  have hprocess : buddyWalkProcess buddy fp (positionOf i) ctx = visitNode s b fp ctx i := by
    have haddress : s + 64 * firstSlot (arenaOrder b) i - s + 64 * slotCount (arenaOrder b) i =
        64 * (firstSlot (arenaOrder b) i + slotCount (arenaOrder b) i) := by omega
    have hend : 64 * b < 64 * (firstSlot (arenaOrder b) i + slotCount (arenaOrder b) i) ↔
        b < firstSlot (arenaOrder b) i + slotCount (arenaOrder b) i := by omega
    simp only [buddyWalkProcess, h.effectiveSize hin, h.addressForPosition_eq hin, h.buddyMain_eq,
      h.memorySize_eq, haddress, hend, visitNode]
  rw [buddyWalkTurn_used h hin (by omega) hallocated, hprocess]
  rfl

/-! ### The walk -/

/-- What the walk does at taken nodes one after the other. -/
def visitNodes (s b : Nat) (fp : γ → Nat → Nat → γ × Option ρ) (nodes : List Nat) (ctx : γ) :
    Except (γ × Option ρ) γ :=
  nodes.foldlM (visitNode s b fp) ctx

/-- How the walk goes on when it arrives at the next node, or at the end. -/
def walkFrom (buddy : Buddy) (fp : γ → Nat → Nat → γ × Option ρ) (fuel : Nat) (ctx : γ) :
    Option Nat → Option (γ × Option ρ)
  | none => some (ctx, none)
  | some i => buddyWalkLoop buddy fp fuel (visiting i) ctx

/-- How the walk goes on from the subtree of node `i`. -/
def walkAfter (buddy : Buddy) (fp : γ → Nat → Nat → γ × Option ρ) (fuel i : Nat) :
    Except (γ × Option ρ) γ → Option (γ × Option ρ)
  | .error result => some result
  | .ok ctx => walkFrom buddy fp fuel ctx (nextAfter i)

/-- In `used` turns, fewer than there are nodes in the subtree of `i`, the walk visits the taken nodes
    there. -/
def Visits (s b : Nat) (buddy : Buddy) (T : Taken (arenaOrder b)) (fp : γ → Nat → Nat → γ × Option ρ)
    (i used : Nat) : Prop :=
  used + 1 ≤ 2 ^ height (arenaOrder b) i ∧ ∀ fuel ctx,
    buddyWalkLoop buddy fp (fuel + used) (visiting i) ctx =
      walkAfter buddy fp fuel i (visitNodes s b fp (T.nodesBelow i) ctx)

theorem two_le_two_pow_height {n i : Nat} (hin : InTree n i) : 2 ≤ 2 ^ height n i := by
  have hpow : 2 ^ 1 ≤ 2 ^ height n i := Nat.pow_le_pow_right (by norm_num) hin.height_pos
  omega

/-- The walk goes on from an arrival. -/
theorem walkFrom_arrival (fuel : Nat) (ctx : γ) (next : Option Nat) :
    (if (arrival next).walkDone = true then some (ctx, none)
      else buddyWalkLoop buddy fp fuel (arrival next) ctx) = walkFrom buddy fp fuel ctx next := by
  cases next <;> rfl

/-- There is nothing to visit in a free subtree. -/
theorem visits_free (h : Governs s b buddy T) {i : Nat} (hin : InTree (arenaOrder b) i)
    (hfree : T.status i = 0) : Visits s b buddy T fp i 1 := by
  refine ⟨two_le_two_pow_height hin, fun fuel ctx => ?_⟩
  have hwalk := buddyTreeWalk_up buddy.tree (arenaOrder_le h.arena.blocks_le) hin
  simp only [buddyWalkLoop, buddyWalkTurn_free h hin hfree, hwalk, walkFrom_arrival,
    T.nodesBelow_of_status_zero hin hfree]
  rfl

/-- After two subtrees of siblings. -/
theorem visits_children {i usedLeft usedRight : Nat} (hpos : 0 < i)
    (hleft : Visits s b buddy T fp (2 * i) usedLeft)
    (hright : Visits s b buddy T fp (2 * i + 1) usedRight)
    (fuel : Nat) (ctx : γ) :
    buddyWalkLoop buddy fp (fuel + usedRight + usedLeft) (visiting (2 * i)) ctx =
      walkAfter buddy fp fuel i
        (visitNodes s b fp (T.nodesBelow (2 * i) ++ T.nodesBelow (2 * i + 1)) ctx) := by
  rw [hleft.2, visitNodes, visitNodes, List.foldlM_append]
  cases (T.nodesBelow (2 * i)).foldlM (visitNode s b fp) ctx with
  | error result => rfl
  | ok ctx' =>
    have hnext := hright.2 fuel ctx'
    rw [walkAfter, nextAfter_left hpos, walkFrom, hnext]
    show walkAfter buddy fp fuel (2 * i + 1) (visitNodes s b fp (T.nodesBelow (2 * i + 1)) ctx') =
      walkAfter buddy fp fuel i (visitNodes s b fp (T.nodesBelow (2 * i + 1)) ctx')
    cases visitNodes s b fp (T.nodesBelow (2 * i + 1)) ctx' with
    | error result => rfl
    | ok ctx'' => rw [walkAfter, walkAfter, nextAfter_right hpos]

theorem two_pow_height {n i : Nat} (hin : InTree n i) : 2 ^ height n i = 2 * 2 ^ (height n i - 1) := by
  rw [← Nat.pow_succ', Nat.succ_eq_add_one, Nat.sub_add_cancel hin.height_pos]

/-- Below a node that is not taken and not free the walk visits the two subtrees. -/
theorem visits_inner (h : Governs s b buddy T) {i usedLeft usedRight : Nat}
    (hin : InTree (arenaOrder b) i)
    (hinner : i.size < arenaOrder b) (hmem : i ∉ T.nodes) (hused : T.status i ≠ 0)
    (hleft : Visits s b buddy T fp (2 * i) usedLeft)
    (hright : Visits s b buddy T fp (2 * i + 1) usedRight) :
    Visits s b buddy T fp i (usedRight + usedLeft + 1) := by
  have hboundLeft := hleft.1
  have hboundRight := hright.1
  rw [height_left hin.pos] at hboundLeft
  rw [height_right hin.pos] at hboundRight
  have hdouble := two_pow_height hin
  refine ⟨by omega, fun fuel ctx => ?_⟩
  have hchildren := visits_children hin.pos hleft hright fuel ctx
  have hwalk := buddyTreeWalk_down h.tree.tree hin hinner
  rw [← Nat.add_assoc, ← Nat.add_assoc, T.nodesBelow_inner hin hmem]
  simp only [buddyWalkLoop, buddyWalkTurn_inner h hin hmem hused, hwalk]
  exact hchildren

/-- A leaf has nothing below it to walk to. -/
theorem buddyTreeWalk_leaf (h : Governs s b buddy T) {i : Nat} (hin : InTree (arenaOrder b) i)
    (hleaf : i.size = arenaOrder b) :
    buddyTreeWalk buddy.tree (visiting i) = some (arrival (nextAfter i)) := by
  have hvalid : ¬ buddyTreeValid buddy.tree (positionOf (2 * i)) = true := by
    rw [h.valid_iff]
    intro hleft
    have hle := hleft.size_le
    rw [size_double hin.pos] at hle
    omega
  have hbody : buddyTreeWalkBody buddy.tree (visiting i) = leaving i := by
    simp only [buddyTreeWalkBody, visiting, buddyTreeLeftChild_positionOf hin.pos, if_neg hvalid,
      Bool.false_eq_true, if_false]
    rfl
  have horder := arenaOrder_le h.arena.blocks_le
  have hup := buddyTreeWalkLoop_up buddy.tree 65 i hin.pos (by omega)
  rw [buddyTreeWalk, buddyTreeWalkLoop, hbody]
  exact hup

/-- A taken node has no taken nodes below it. -/
theorem status_below_taken {i j : Nat} (hmem : i ∈ T.nodes) (hj : InTree (arenaOrder b) j)
    (hbelow : Below i j)
    (hne : j ≠ i) : T.status j = 0 := by
  rw [T.status_eq_zero_iff hj]
  intro k hk hjk
  have heq := T.apart i hmem k hk (hbelow.trans hjk)
  rw [← heq] at hjk
  exact hne (hjk.antisymm hbelow)

/-- At a taken node the function is called, and the walk goes on behind its subtree. -/
theorem visits_taken (h : Governs s b buddy T) {i : Nat} (hmem : i ∈ T.nodes) :
    ∃ used, Visits s b buddy T fp i used := by
  have hin := T.inTree i hmem
  have hpos := hin.pos
  have hnodes : ∀ ctx : γ, visitNodes s b fp (T.nodesBelow i) ctx = visitNode s b fp ctx i := by
    intro ctx
    rw [T.nodesBelow_of_mem hmem]
    simp [visitNodes]
  cases Nat.lt_or_ge i.size (arenaOrder b) with
  | inl hinner =>
    have hstatusLeft := status_below_taken hmem (hin.left hinner) (below_left i) (by omega)
    have hstatusRight := status_below_taken hmem (hin.right hinner) (below_right i) (by omega)
    have hleft : Visits s b buddy T fp (2 * i) 1 := visits_free h (hin.left hinner) hstatusLeft
    have hright : Visits s b buddy T fp (2 * i + 1) 1 := visits_free h (hin.right hinner) hstatusRight
    have hbound := two_le_two_pow_height (hin.left hinner)
    rw [height_left hpos] at hbound
    have hdouble := two_pow_height hin
    refine ⟨3, by omega, fun fuel ctx => ?_⟩
    have hwalk := buddyTreeWalk_down h.tree.tree hin hinner
    rw [hnodes, show fuel + 3 = (fuel + 1 + 1) + 1 from rfl]
    simp only [buddyWalkLoop.eq_2, buddyWalkTurn_taken h hmem]
    cases visitNode s b fp ctx i with
    | error result => rfl
    | ok ctx' =>
      have hchildren := visits_children hpos hleft hright fuel ctx'
      rw [T.nodesBelow_of_status_zero (hin.left hinner) hstatusLeft,
        T.nodesBelow_of_status_zero (hin.right hinner) hstatusRight] at hchildren
      simp only [Except.map, hwalk]
      exact hchildren
  | inr hleaf =>
    have hwalk := buddyTreeWalk_leaf h hin (le_antisymm hin.size_le hleaf)
    refine ⟨1, two_le_two_pow_height hin, fun fuel ctx => ?_⟩
    rw [hnodes]
    simp only [buddyWalkLoop, buddyWalkTurn_taken h hmem]
    cases visitNode s b fp ctx i with
    | error result => rfl
    | ok ctx' =>
      simp only [Except.map, hwalk, walkFrom_arrival]
      rfl

/-- The walk visits the taken nodes of every subtree. -/
theorem buddyWalkLoop_spec (h : Governs s b buddy T) {i : Nat} (hin : InTree (arenaOrder b) i) :
    ∃ used, Visits s b buddy T fp i used := by
  apply Taken.subtree_induction (motive := fun i => ∃ used, Visits s b buddy T fp i used) _ hin
  intro i hin ih
  by_cases hmem : i ∈ T.nodes
  · exact visits_taken h hmem
  · by_cases hfree : T.status i = 0
    · exact ⟨1, visits_free h hin hfree⟩
    · have hinner : i.size < arenaOrder b := by
        have hle := hin.size_le
        by_contra hnot
        exact hfree (T.status_leaf (by omega) hmem)
      obtain ⟨usedLeft, hleft⟩ := (ih hinner).1
      obtain ⟨usedRight, hright⟩ := (ih hinner).2
      exact ⟨_, visits_inner h hin hinner hmem hfree hleft hright⟩

/-- What `buddy_walk` returns after it has visited some nodes. -/
def walkResult : Except (γ × Option ρ) γ → γ × Option ρ
  | .error result => result
  | .ok ctx => (ctx, none)

/-- `buddy_walk` visits the taken nodes from left to right. -/
theorem buddyWalk_nodes (h : Governs s b buddy T) (ctx : γ) :
    buddyWalk buddy fp ctx = some (walkResult (visitNodes s b fp (T.nodesBelow 1) ctx)) := by
  have hin := inTree_root h.tree.tree.order_pos
  obtain ⟨used, hbound, hvisits⟩ : ∃ used, Visits s b buddy T fp 1 used := buddyWalkLoop_spec h hin
  have hheight : height (arenaOrder b) 1 = arenaOrder b := by
    rw [height, Nat.size_one, Nat.add_sub_cancel]
  have hstart : buddyTreeWalkStateRoot = visiting 1 := by
    rw [visiting, ← positionOf_one]
    rfl
  rw [hheight] at hbound
  have hfuel : 2 ^ arenaOrder b = 2 ^ arenaOrder b - used + used := by omega
  rw [buddyWalk, h.tree.tree.order_eq, hstart, hfuel, hvisits]
  cases visitNodes s b fp (T.nodesBelow 1) ctx with
  | error result => rfl
  | ok ctx' =>
    rw [walkAfter, nextAfter_one]
    rfl

/-! ### The live blocks -/

variable {tail : Taken (arenaOrder b)} {live : List LiveBlock}

/-- The function called for blocks one after the other, until a call returns a result. -/
def visitBlocks (fp : γ → Nat → Nat → γ × Option ρ) : List LiveBlock → γ → γ × Option ρ
  | [], ctx => (ctx, none)
  | block :: blocks, ctx =>
    match fp ctx block.ptr (blockSize block.size) with
    | (ctx, some result) => (ctx, some result)
    | (ctx, none) => visitBlocks fp blocks ctx

/-- The live blocks by rising address. -/
def byAddress (live : List LiveBlock) : List LiveBlock := live.mergeSort fun x y => x.ptr ≤ y.ptr

theorem mem_byAddress {block : LiveBlock} : block ∈ byAddress live ↔ block ∈ live :=
  (List.mergeSort_perm live _).mem_iff

/-- The nodes of the live blocks, by rising address. -/
theorem Books.byAddress_ordered (h : Books s b tail T live) :
    ((byAddress live).map (blockNode s b)).Pairwise (Before (arenaOrder b)) := by
  have hsorted : (byAddress live).Pairwise fun x y => x.ptr ≤ y.ptr := by
    have hsort : (byAddress live).Pairwise fun x y => decide (x.ptr ≤ y.ptr) = true := by
      apply List.pairwise_mergeSort
      · intro x y z hxy hyz
        simp only [decide_eq_true_eq] at *
        omega
      · intro x y
        simp only [Bool.or_eq_true, decide_eq_true_eq]
        omega
    exact hsort.imp fun hle => by simpa using hle
  have hnodup : ((byAddress live).map (blockNode s b)).Nodup :=
    ((List.mergeSort_perm live _).map (blockNode s b)).nodup_iff.mpr h.nodup
  rw [List.pairwise_map]
  apply (hsorted.and (List.pairwise_map.mp hnodup)).imp_of_mem
  intro x y hx hy hxy
  have hplacedX := h.placed x (mem_byAddress.mp hx)
  have hplacedY := h.placed y (mem_byAddress.mp hy)
  have hptr : x.ptr ≠ y.ptr := fun heq =>
    hxy.2 (by rw [h.eq_of_ptr (mem_byAddress.mp hx) (mem_byAddress.mp hy) heq])
  have hapart := h.blocks_apart (mem_byAddress.mp hx) (mem_byAddress.mp hy) hptr
  have hsize := hplacedY.blockSize_pos
  have hle := hxy.1
  rw [hplacedX.ptr_eq, hplacedX.size_eq, hplacedY.ptr_eq, hplacedY.size_eq] at hapart
  rw [hplacedY.size_eq] at hsize
  rw [hplacedX.ptr_eq, hplacedY.ptr_eq] at hle
  simp only [Before]
  omega

/-- From left to right the taken nodes are the live blocks by rising address, and then the tail. -/
theorem Books.nodesBelow_eq (h : Books s b tail T live)
    (htail : ∀ x < 2 ^ (arenaOrder b - 1), tail.Covers x ↔ b ≤ x) (horder : 0 < arenaOrder b) :
    T.nodesBelow 1 = (byAddress live).map (blockNode s b) ++ tail.nodesBelow 1 := by
  have hroot := inTree_root horder
  apply eq_of_before (T.nodesBelow_ordered hroot)
  · rw [List.pairwise_append]
    refine ⟨h.byAddress_ordered, tail.nodesBelow_ordered hroot, fun i hi j hj => ?_⟩
    obtain ⟨block, hblock, rfl⟩ := List.mem_map.mp hi
    have hplaced := h.placed block (mem_byAddress.mp hblock)
    have hmem := ((tail.mem_nodesBelow hroot).mp hj).1
    have hcount := slotCount_pos (arenaOrder b) j
    have hend := firstSlot_add_slotCount_le (tail.inTree j hmem)
    have hfirst := (htail (firstSlot (arenaOrder b) j) (by omega)).mp
      ⟨j, hmem, (covers_iff_below (tail.inTree j hmem) (by omega)).mp (by omega)⟩
    have hinside := hplaced.inside
    simp only [Before]
    omega
  · intro i
    rw [T.mem_nodesBelow hroot, List.mem_append, tail.mem_nodesBelow hroot, h.nodes_eq,
      Finset.mem_union, List.mem_toFinset, List.mem_map, List.mem_map]
    simp only [mem_byAddress]
    constructor
    · intro hi
      cases hi.1 with
      | inl htailMem => exact .inr ⟨htailMem, hi.2⟩
      | inr hlive => exact .inl hlive
    · intro hi
      cases hi with
      | inl hlive =>
        obtain ⟨block, hblock, rfl⟩ := hlive
        exact ⟨.inr ⟨block, hblock, rfl⟩, below_one (h.placed block hblock).inTree.pos⟩
      | inr htailMem => exact ⟨.inl htailMem.1, htailMem.2⟩

/-- At the end of the arena the walk is over. -/
theorem walkResult_tail (htail : ∀ x < 2 ^ (arenaOrder b - 1), tail.Covers x ↔ b ≤ x)
    (horder : 0 < arenaOrder b) (ctx : γ) :
    walkResult (visitNodes s b fp (tail.nodesBelow 1) ctx) = (ctx, none) := by
  cases hnodes : tail.nodesBelow 1 with
  | nil => rfl
  | cons i nodes =>
    have hmem : i ∈ tail.nodes := by
      have hi : i ∈ tail.nodesBelow 1 := by
        rw [hnodes]
        exact List.mem_cons_self
      exact ((tail.mem_nodesBelow (inTree_root horder)).mp hi).1
    have hcount := slotCount_pos (arenaOrder b) i
    have hend := firstSlot_add_slotCount_le (tail.inTree i hmem)
    have hfirst := (htail (firstSlot (arenaOrder b) i) (by omega)).mp
      ⟨i, hmem, (covers_iff_below (tail.inTree i hmem) (by omega)).mp (by omega)⟩
    have hstop : visitNode s b fp ctx i = .error (ctx, none) := by
      rw [visitNode, if_pos (by omega)]
    rw [visitNodes, List.foldlM_cons, hstop]
    rfl

/-- The walk over nodes of blocks of the arena, and then over some other nodes. -/
theorem walkResult_blocks {blocks : List LiveBlock} (hplaced : ∀ block ∈ blocks, Placed s b block)
    {nodes : List Nat} (hrest : ∀ ctx : γ, walkResult (visitNodes s b fp nodes ctx) = (ctx, none))
    (ctx : γ) :
    walkResult (visitNodes s b fp (blocks.map (blockNode s b) ++ nodes) ctx) =
      visitBlocks fp blocks ctx := by
  induction blocks generalizing ctx with
  | nil => exact hrest ctx
  | cons block blocks ih =>
    have hblock := hplaced block List.mem_cons_self
    have hinside := hblock.inside
    have hvisit : ∀ ctx' result, fp ctx block.ptr (blockSize block.size) = (ctx', result) →
        visitNode s b fp ctx (blockNode s b block) =
          result.elim (.ok ctx') fun result => .error (ctx', some result) := by
      intro ctx' result hcall
      rw [visitNode, if_neg (by omega), ← hblock.ptr_eq, ← hblock.size_eq, hcall]
      cases result <;> rfl
    cases hcall : fp ctx block.ptr (blockSize block.size) with
    | mk ctx' result =>
      rw [visitBlocks, hcall, List.map_cons, List.cons_append, visitNodes, List.foldlM_cons,
        hvisit _ _ hcall]
      cases result with
      | none => exact ih (fun x hx => hplaced x (List.mem_cons_of_mem _ hx)) ctx'
      | some result => rfl

end

/-- In every state that calls and writes of a client reach, `buddy_walk` calls its function for the
    live blocks with their addresses and sizes, once each and by rising address, until a call returns
    a result. -/
theorem buddyWalk_visits {place s memorySize : Nat} {buddy : Buddy} {mem : ByteMemory} {c : BuddyClient}
    {γ ρ : Type} (fp : γ → Nat → Nat → γ × Option ρ) (ctx : γ)
    (hinit : buddyInit place s memorySize = some (some buddy)) (hsize : memorySize ≤ 2 ^ 36)
    (hword : s + memorySize ≤ 2 ^ 64) (hrun : Run clientStep ⟨⟨buddy, mem⟩, []⟩ c) :
    buddyWalk c.heap.buddy fp ctx = some (visitBlocks fp (byAddress c.live) ctx) := by
  obtain ⟨tail, hstart⟩ := exists_clientInv mem hinit hsize hword
  obtain ⟨T, hinv⟩ := clientInv_of_run ⟨tail, hstart⟩ hrun
  have horder := hinv.governs.tree.tree.order_pos
  rw [buddyWalk_nodes hinv.governs, hinv.books.nodesBelow_eq hinv.tail_covers horder, walkResult_blocks]
  · intro block hblock
    exact hinv.books.placed block (mem_byAddress.mp hblock)
  · exact walkResult_tail hinv.tail_covers horder

/-- Two blocks, the one at the higher address taken first. -/
theorem buddyWalk_visits_two : ∃ buddy c, buddyInit 64 4096 192 = some (some buddy) ∧
    Run clientStep ⟨⟨buddy, fun _ => 0⟩, []⟩ c ∧ c.live = [⟨4096, 16⟩, ⟨4224, 10⟩] ∧
      buddyWalk c.heap.buddy (fun seen addr size => ((addr, size) :: seen, (none : Option Unit))) [] =
        some ([(4224, 64), (4096, 64)], none) := by
  have hcomputed : ((buddyInit 64 4096 192).bind id).any (fun buddy =>
      (Theory.replay clientStep (fun _ _ => true) ⟨⟨buddy, fun _ => 0⟩, []⟩
        [.malloc 10, .setLeftBias, .calloc 2 8]).any
          fun c => c.live = [⟨4096, 16⟩, ⟨4224, 10⟩]) = true := by
    decide +kernel
  obtain ⟨buddy, hbuddy, hcalls⟩ := (Option.any_eq_true _ _).mp hcomputed
  have hinit : buddyInit 64 4096 192 = some (some buddy) := by
    obtain ⟨answer, hanswer, hid⟩ := Option.bind_eq_some_iff.mp hbuddy
    rw [hanswer]
    exact congrArg some hid
  obtain ⟨c, hrun, hlive⟩ := RunWhere.exists_of_replay _ hcalls
  have hblocks : c.live = [⟨4096, 16⟩, ⟨4224, 10⟩] := by simpa using hlive
  have hvisits :=
    buddyWalk_visits (fun seen addr size => ((addr, size) :: seen, (none : Option Unit))) [] hinit
    (by norm_num) (by norm_num) hrun
  have hsorted : byAddress c.live = [⟨4096, 16⟩, ⟨4224, 10⟩] := by
    rw [hblocks]
    exact List.mergeSort_of_pairwise (by simp)
  refine ⟨buddy, c, hinit, hrun, hblocks, hvisits.trans ?_⟩
  rw [hsorted]
  decide +kernel

end Rpi4Kernel.Mem
