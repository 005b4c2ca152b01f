/-
Module: Rpi4Kernel.Proofs.KernelHeapSpec
Layer: Proofs
Purpose: The invariant of the kernel heap over whole histories. The taken set of the buddy tree is the
  tail past the end of the arena together with one node for each live block, and the node of a block
  can be read off its address and size. Safety, exact free space and independence of the history
  follow from the invariant alone.
Trusted boundary: none (fully proved)
Main exports: HeapInv, alloc_toUnsigned, alloc_panics, alloc_returns, dealloc_returns, blockLength_spec,
  heapStatus_spec, blocks_disjoint, freeSpace_add_live, HeapInv.step, heapInv_of_run, exists_freshTail
-/
import Rpi4Kernel.Mem.KernelHeapAllocator
import Rpi4Kernel.Proofs.BuddyInitSpec
import Rpi4Kernel.Proofs.BuddyWalkSpec

namespace Rpi4Kernel.Mem

open Rpi4Kernel.Theory Rpi4Kernel.Theory.IndexTree

/-! ### The node of a block -/

/-- The node of the tree that a block of the arena at `s` occupies. -/
def blockNode (s b : Nat) (block : LiveBlock) : Nat :=
  64 * 2 ^ (arenaOrder b - 1) / blockSize block.size + (block.ptr - s) / blockSize block.size

/-- A block lies where its node says, is as large as its node, and ends inside the arena. -/
structure Placed (s b : Nat) (block : LiveBlock) : Prop where
  inTree : InTree (arenaOrder b) (blockNode s b block)
  ptr_eq : block.ptr = s + 64 * firstSlot (arenaOrder b) (blockNode s b block)
  size_eq : blockSize block.size = 64 * slotCount (arenaOrder b) (blockNode s b block)
  inside : firstSlot (arenaOrder b) (blockNode s b block) +
    slotCount (arenaOrder b) (blockNode s b block) ≤ b

theorem blockNode_eq {s b size p : Nat} (hin : InTree (arenaOrder b) p)
    (hsize : blockSize size = 64 * slotCount (arenaOrder b) p) :
    blockNode s b ⟨s + 64 * firstSlot (arenaOrder b) p, size⟩ = p := by
  obtain ⟨h1, -⟩ := row_bounds hin.pos
  have hpos := slotCount_pos (arenaOrder b) p
  have hsplit : 2 ^ (p.size - 1) * slotCount (arenaOrder b) p = 2 ^ (arenaOrder b - 1) :=
    two_pow_split hin.size_pos hin.size_le
  have hrow : 64 * 2 ^ (arenaOrder b - 1) / (64 * slotCount (arenaOrder b) p) =
      2 ^ (p.size - 1) := by
    rw [Nat.mul_div_mul_left _ _ (by norm_num), ← hsplit, Nat.mul_div_cancel _ hpos]
  have hrank : 64 * firstSlot (arenaOrder b) p / (64 * slotCount (arenaOrder b) p) =
      p - 2 ^ (p.size - 1) := by
    rw [Nat.mul_div_mul_left _ _ (by norm_num)]
    exact Nat.mul_div_cancel _ hpos
  simp only [blockNode, hsize, Nat.add_sub_cancel_left]
  rw [hrow, hrank]
  omega

/-! ### The invariant -/

/-- The heap over `b` blocks at `s` holds the taken set `T`: the tail `tail` past the end of the arena
    and the nodes of the live blocks. -/
structure HeapInv (s b : Nat) (tail : Taken (arenaOrder b)) (heap : KernelHeapAllocator)
    (live : List LiveBlock) (T : Taken (arenaOrder b)) : Prop where
  buddy : ∃ buddy, heap.buddy = some buddy ∧ Manages s b buddy T
  start_ne_zero : s ≠ 0
  nodes_eq : T.nodes = tail.nodes ∪ (live.map (blockNode s b)).toFinset
  nodup : (live.map (blockNode s b)).Nodup
  apart : ∀ block ∈ live, blockNode s b block ∉ tail.nodes
  placed : ∀ block ∈ live, Placed s b block

section Heap

variable {s b : Nat} {tail T : Taken (arenaOrder b)} {heap heap' : KernelHeapAllocator}
  {live : List LiveBlock}

theorem HeapInv.mem_nodes (h : HeapInv s b tail heap live T) {block : LiveBlock}
    (hlive : block ∈ live) : blockNode s b block ∈ T.nodes := by
  rw [h.nodes_eq, Finset.mem_union, List.mem_toFinset]
  exact Or.inr (List.mem_map_of_mem hlive)

/-- Two occurrences of live blocks have nodes that are not one below the other. -/
theorem HeapInv.pairwise_apart (h : HeapInv s b tail heap live T) :
    live.Pairwise fun x y => ¬ Below (blockNode s b x) (blockNode s b y) ∧
      ¬ Below (blockNode s b y) (blockNode s b x) := by
  have hne : live.Pairwise fun x y => blockNode s b x ≠ blockNode s b y :=
    List.pairwise_map.mp h.nodup
  refine hne.imp_of_mem fun {x y} hx hy hxy => ⟨fun hb => ?_, fun hb => ?_⟩
  · exact hxy (T.apart _ (h.mem_nodes hx) _ (h.mem_nodes hy) hb)
  · exact hxy (T.apart _ (h.mem_nodes hy) _ (h.mem_nodes hx) hb).symm

/-- A size reaches the allocator as an `unsigned`. -/
theorem alloc_toUnsigned (heap : KernelHeapAllocator) (size : Nat) :
    heap.alloc (toUnsigned size) = heap.alloc size := by
  simp only [KernelHeapAllocator.alloc, toUnsigned_toUnsigned]

/-- The panic that ends an `alloc` whose request cannot be served. -/
theorem alloc_panics (h : HeapInv s b tail heap live T) {size : Nat} (hsize : size < 2 ^ 32)
    (hnot : ¬ Serves T size) : heap.alloc size = some (heap, .panicked buddyOutOfMemory) := by
  obtain ⟨buddy, hbuddy, hmanages⟩ := h.buddy
  rw [KernelHeapAllocator.alloc, toUnsigned_of_lt hsize]
  simp only [hbuddy, buddyMalloc_none hmanages hnot, Option.bind_eq_bind, Option.bind_some]
  rw [← hbuddy]
  rfl

/-- An `alloc` that can be served returns a block, and the block is live from then on. -/
theorem alloc_returns (h : HeapInv s b tail heap live T)
    (htail : ∀ x < 2 ^ (arenaOrder b - 1), b ≤ x → tail.Covers x) {size : Nat} (hsize : size < 2 ^ 32)
    (hserves : Serves T size) :
    ∃ heap' p T', heap.alloc size = some (heap', .returned p) ∧
      HeapInv s b tail heap' (⟨p, size⟩ :: live) T' := by
  obtain ⟨buddy, hbuddy, hmanages⟩ := h.buddy
  obtain ⟨hfits, p, hsearch⟩ := hserves
  obtain ⟨buddy', hin, hfree, hdepth, hmalloc, hmanages'⟩ :=
    buddyMalloc_some hmanages hfits hsearch
  have hclass : blockSize size = 64 * slotCount (arenaOrder b) p := by
    rw [(depthOf_spec hmanages.arena.blocks_pos hfits).2.2, ← hdepth, slotCount]
  have hnode : blockNode s b ⟨s + 64 * firstSlot (arenaOrder b) p, size⟩ = p :=
    blockNode_eq hin hclass
  have hnew : p ∉ T.nodes := fun hmem => (hfree p hmem).1 (Below.refl p)
  have htailNodes : ∀ j ∈ tail.nodes, j ∈ T.nodes := fun j hj => by
    rw [h.nodes_eq]
    exact Finset.mem_union_left _ hj
  have hinside := hfree.before_tail hin fun x hx hb => by
    obtain ⟨j, hj, hcover⟩ := htail x hx hb
    exact ⟨j, htailNodes j hj, hcover⟩
  refine ⟨{ heap with
      buddy := some buddy'
      bytesLeft := KernelHeapAllocator.subU64 heap.bytesLeft size
      allocations := (heap.allocations + 1) % sizeMax },
    s + 64 * firstSlot (arenaOrder b) p, T.insert p hin hfree, ?_,
    ⟨⟨buddy', rfl, hmanages'⟩, h.start_ne_zero, ?_, ?_, ?_, ?_⟩⟩
  · rw [KernelHeapAllocator.alloc, toUnsigned_of_lt hsize]
    simp only [hbuddy, hmalloc, Option.bind_eq_bind, Option.bind_some]
    rfl
  · rw [List.map_cons, hnode, List.toFinset_cons, Finset.union_insert, ← h.nodes_eq]
    rfl
  · rw [List.map_cons, hnode, List.nodup_cons]
    refine ⟨fun hmem => hnew ?_, h.nodup⟩
    rw [h.nodes_eq, Finset.mem_union, List.mem_toFinset]
    exact Or.inr hmem
  · intro block hblock
    rcases List.mem_cons.mp hblock with rfl | hblock
    · rw [hnode]
      exact fun hmem => hnew (htailNodes p hmem)
    · exact h.apart block hblock
  · intro block hblock
    rcases List.mem_cons.mp hblock with rfl | hblock
    · exact ⟨by rw [hnode]; exact hin, by rw [hnode], by rw [hnode]; exact hclass,
        by rw [hnode]; exact hinside⟩
    · exact h.placed block hblock

/-- The nodes of the live blocks without one of them. -/
theorem map_erase_toFinset (h : (live.map (blockNode s b)).Nodup) {block : LiveBlock}
    (hlive : block ∈ live) : ((live.erase block).map (blockNode s b)).toFinset =
      (live.map (blockNode s b)).toFinset.erase (blockNode s b block) := by
  have hnodup : live.Nodup := List.Nodup.of_map _ h
  ext j
  simp only [List.mem_toFinset, List.mem_map, Finset.mem_erase, hnodup.mem_erase_iff]
  constructor
  · rintro ⟨x, ⟨hne, hx⟩, rfl⟩
    exact ⟨fun heq => hne (List.inj_on_of_nodup_map h hx hlive heq), x, hx, rfl⟩
  · rintro ⟨hne, x, hx, rfl⟩
    exact ⟨x, ⟨fun heq => hne (by rw [heq]), hx⟩, rfl⟩

/-- A `free` of a live block returns, and the block is no longer live. -/
theorem dealloc_returns (h : HeapInv s b tail heap live T) {block : LiveBlock}
    (hlive : block ∈ live) :
    ∃ heap' T', heap.dealloc block.ptr = some (heap', .returned ()) ∧
      HeapInv s b tail heap' (live.erase block) T' := by
  obtain ⟨buddy, hbuddy, hmanages⟩ := h.buddy
  have hplaced := h.placed block hlive
  have hcount := slotCount_pos (arenaOrder b) (blockNode s b block)
  have hinside := hplaced.inside
  obtain ⟨buddy', hfree, hmanages'⟩ :=
    buddyFree_spec hmanages (h.mem_nodes hlive) h.start_ne_zero (by omega)
  rw [← hplaced.ptr_eq] at hfree
  refine ⟨{ heap with
      buddy := some buddy'
      allocations := KernelHeapAllocator.subU64 heap.allocations 1 },
    T.erase (blockNode s b block), ?_, ⟨⟨buddy', rfl, hmanages'⟩, h.start_ne_zero, ?_, ?_, ?_, ?_⟩⟩
  · simp only [KernelHeapAllocator.dealloc, hbuddy, hfree, Option.bind_eq_bind, Option.bind_some]
    rfl
  · rw [map_erase_toFinset h.nodup hlive, ← Finset.erase_eq_of_notMem (h.apart block hlive),
      ← Finset.erase_union_distrib, ← h.nodes_eq]
    rfl
  · exact h.nodup.sublist (List.erase_sublist.map _)
  · exact fun x hx => h.apart x (List.mem_of_mem_erase hx)
  · exact fun x hx => h.placed x (List.mem_of_mem_erase hx)

/-! ### Blocks, free space and statuses -/

/-- The length of the block at the address of `block`, as the allocator itself computes it: the size
    of the position that the address belongs to. -/
def blockLength (heap : KernelHeapAllocator) (block : LiveBlock) : Option Nat := do
  let buddy ← heap.buddy
  let pos ← positionForAddress buddy block.ptr
  return sizeForDepth buddy pos.depth

/-- `buddy_tree_status` at a position of the heap's tree. -/
def heapStatus (heap : KernelHeapAllocator) (pos : BuddyTreePos) : Option Nat := do
  let buddy ← heap.buddy
  buddyTreeStatus buddy.tree pos

theorem blockLength_spec (h : HeapInv s b tail heap live T) {block : LiveBlock}
    (hlive : block ∈ live) : blockLength heap block = some (blockSize block.size) := by
  obtain ⟨buddy, hbuddy, hmanages⟩ := h.buddy
  have hplaced := h.placed block hlive
  have hposition := positionForAddress_spec hmanages (h.mem_nodes hlive)
  rw [← hplaced.ptr_eq] at hposition
  simp only [blockLength, hbuddy, hposition, Option.bind_eq_bind, Option.bind_some, Option.pure_def,
    hmanages.arena.sizeForDepth_positionOf hplaced.inTree, hplaced.size_eq]

theorem heapStatus_spec (h : HeapInv s b tail heap live T) {i : Nat}
    (hin : InTree (arenaOrder b) i) : heapStatus heap (positionOf i) = some (T.status i) := by
  obtain ⟨buddy, hbuddy, hmanages⟩ := h.buddy
  simp only [heapStatus, hbuddy, Option.bind_eq_bind, Option.bind_some]
  exact buddyTreeStatus_spec hmanages.tree hin

/-- Live blocks do not overlap. -/
theorem blocks_disjoint (h : HeapInv s b tail heap live T) :
    live.Pairwise fun x y => x.ptr + blockSize x.size ≤ y.ptr ∨
      y.ptr + blockSize y.size ≤ x.ptr := by
  refine h.pairwise_apart.imp_of_mem fun {x y} hx hy hxy => ?_
  have hplacedX := h.placed x hx
  have hplacedY := h.placed y hy
  rw [hplacedX.ptr_eq, hplacedX.size_eq, hplacedY.ptr_eq, hplacedY.size_eq]
  have hslots := slots_disjoint hplacedX.inTree hplacedY.inTree hxy.1 hxy.2
  omega

/-- The sizes of the live blocks, counted in slots. -/
theorem sum_live_slots (h : HeapInv s b tail heap live T) :
    64 * ∑ j ∈ (live.map (blockNode s b)).toFinset, slotCount (arenaOrder b) j =
      (live.map fun block => blockSize block.size).sum := by
  have hmap : live.map (fun block => 64 * slotCount (arenaOrder b) (blockNode s b block)) =
      live.map fun block => blockSize block.size :=
    List.map_congr_left fun block hblock => (h.placed block hblock).size_eq.symm
  rw [List.sum_toFinset _ h.nodup, List.map_map, ← hmap, ← List.sum_map_mul_left]
  rfl

/-- Free space and the live blocks add up to the arena. -/
theorem freeSpace_add_live (h : HeapInv s b tail heap live T)
    (htail : ∀ x < 2 ^ (arenaOrder b - 1), tail.Covers x ↔ b ≤ x) :
    ∃ free, heap.freeSpace = some free ∧
      free + (live.map fun block => blockSize block.size).sum = 64 * b := by
  obtain ⟨buddy, hbuddy, hmanages⟩ := h.buddy
  have htotal := T.freeSlots_add_takenSlots hmanages.tree.tree.order_pos
  have hrest := tail.sum_slotCount_of_covers_from htail
  have hslots := blocks_le_slots b
  have hlive := sum_live_slots h
  have hdisjoint : Disjoint tail.nodes (live.map (blockNode s b)).toFinset := by
    rw [Finset.disjoint_left]
    intro j hj hmem
    obtain ⟨block, hblock, rfl⟩ := List.mem_map.mp (List.mem_toFinset.mp hmem)
    exact h.apart block hblock hj
  rw [h.nodes_eq, Finset.sum_union hdisjoint, hrest] at htotal
  refine ⟨64 * T.freeSlots 1, ?_, by omega⟩
  simp only [KernelHeapAllocator.freeSpace, hbuddy, Option.bind_eq_bind, Option.bind_some]
  exact buddyArenaFreeSize_spec hmanages

end Heap

/-- Blocks with the same start and the same block size have the same node. -/
theorem blockNode_congr {s b : Nat} {x y : LiveBlock} (hptr : x.ptr = y.ptr)
    (hsize : blockSize x.size = blockSize y.size) : blockNode s b x = blockNode s b y := by
  rw [blockNode, blockNode, hptr, hsize]

/-- Two lists of live blocks hold the same blocks: the same starts with the same block sizes. -/
def SameBlocks (live live' : List LiveBlock) : Prop :=
  ∀ ptr len, (∃ x ∈ live, x.ptr = ptr ∧ blockSize x.size = len) ↔
    ∃ y ∈ live', y.ptr = ptr ∧ blockSize y.size = len

theorem SameBlocks.nodes_eq {live live' : List LiveBlock} (h : SameBlocks live live') (s b : Nat) :
    (live.map (blockNode s b)).toFinset = (live'.map (blockNode s b)).toFinset := by
  ext j
  simp only [List.mem_toFinset, List.mem_map]
  constructor
  · rintro ⟨x, hx, rfl⟩
    obtain ⟨y, hy, hptr, hsize⟩ := (h x.ptr (blockSize x.size)).mp ⟨x, hx, rfl, rfl⟩
    exact ⟨y, hy, blockNode_congr hptr hsize⟩
  · rintro ⟨y, hy, rfl⟩
    obtain ⟨x, hx, hptr, hsize⟩ := (h y.ptr (blockSize y.size)).mpr ⟨y, hy, rfl, rfl⟩
    exact ⟨x, hx, blockNode_congr hptr hsize⟩

/-- The taken set is a function of the live blocks. -/
theorem HeapInv.nodes_eq_of_sameBlocks {s b : Nat} {tail T T' : Taken (arenaOrder b)}
    {heap heap' : KernelHeapAllocator} {live live' : List LiveBlock}
    (h : HeapInv s b tail heap live T) (h' : HeapInv s b tail heap' live' T')
    (hsame : SameBlocks live live') : T.nodes = T'.nodes := by
  rw [h.nodes_eq, h'.nodes_eq, hsame.nodes_eq]

/-! ### Histories -/

theorem subU64_eq {s e : Nat} (hle : s ≤ e) (hword : e < 2 ^ 64) :
    KernelHeapAllocator.subU64 e s = e - s := by
  unfold KernelHeapAllocator.subU64 sizeMax
  rw [show e + (2 ^ 64 - s) = (e - s) + 2 ^ 64 by omega, Nat.add_mod_right,
    Nat.mod_eq_of_lt (by omega)]

/-- A constructed heap that is usable holds the buddy that `buddy_init` answered. -/
theorem construct_usable {s e metadata : Nat} {heap : KernelHeapAllocator} {buddy : Buddy}
    (hle : s ≤ e) (hword : e < 2 ^ 64)
    (hcall : KernelHeapAllocator.construct s e metadata = some heap)
    (husable : heap.buddy = some buddy) : buddyInit metadata s (e - s) = some (some buddy) := by
  rw [KernelHeapAllocator.construct, subU64_eq hle hword] at hcall
  cases hinit : buddyInit metadata s (e - s) with
  | none =>
      rw [hinit] at hcall
      exact absurd hcall (by simp)
  | some answer =>
      rw [hinit] at hcall
      simp only [Option.bind_eq_bind, Option.bind_some, Option.pure_def, Option.some.injEq] at hcall
      rw [← hcall] at husable
      rw [← husable]

section Histories

variable {s e metadata b : Nat} {tail : Taken (arenaOrder b)} {heap heap' : KernelHeapAllocator}
  {live live' : List LiveBlock}

/-- The taken set `tail` is that of every heap freshly constructed over `[s, e)`. -/
def FreshTail (s e : Nat) (tail : Taken (arenaOrder b)) : Prop :=
  (∀ x < 2 ^ (arenaOrder b - 1), tail.Covers x ↔ b ≤ x) ∧
    ∀ {metadata : Nat} {heap : KernelHeapAllocator} {buddy : Buddy},
      KernelHeapAllocator.construct s e metadata = some heap → heap.buddy = some buddy →
        HeapInv s b tail heap [] tail

/-- One call keeps the invariant. -/
theorem HeapInv.step {T : Taken (arenaOrder b)} {c : HeapCall} (h : HeapInv s b tail heap live T)
    (htail : ∀ x < 2 ^ (arenaOrder b - 1), tail.Covers x ↔ b ≤ x)
    (hstep : HeapStep heap live c heap' live') : ∃ T', HeapInv s b tail heap' live' T' := by
  cases hstep with
  | allocated hunsigned hcall =>
      rename_i size p
      by_cases hserves : Serves T size
      · obtain ⟨heap₁, p₁, T₁, hcall₁, hinv₁⟩ :=
          alloc_returns h (fun x hx => (htail x hx).mpr) hunsigned hserves
        rw [hcall₁] at hcall
        cases hcall
        exact ⟨T₁, hinv₁⟩
      · rw [alloc_panics h hunsigned hserves] at hcall
        cases hcall
  | outOfMemory hunsigned hcall =>
      rename_i size message
      by_cases hserves : Serves T size
      · obtain ⟨heap₁, p₁, T₁, hcall₁, -⟩ :=
          alloc_returns h (fun x hx => (htail x hx).mpr) hunsigned hserves
        rw [hcall₁] at hcall
        cases hcall
      · rw [alloc_panics h hunsigned hserves] at hcall
        cases hcall
        exact ⟨T, h⟩
  | freed hlive hcall =>
      obtain ⟨heap₁, T₁, hcall₁, hinv₁⟩ := dealloc_returns h hlive
      rw [hcall₁] at hcall
      cases hcall
      exact ⟨T₁, hinv₁⟩

/-- The invariant holds after every history. -/
theorem heapInv_of_run (htail : FreshTail s e tail) (hrun : HeapRun s e metadata heap live) :
    ∃ T, HeapInv s b tail heap live T := by
  induction hrun with
  | constructed hcall husable => exact ⟨tail, htail.2 hcall husable⟩
  | call _ hstep ih =>
      obtain ⟨T, h⟩ := ih
      exact h.step htail.1 hstep

end Histories

/-- Every history starts from a heap with blocks, whose fresh taken set is the same for all
    histories over the arena. -/
theorem exists_freshTail {s e metadata : Nat} {heap : KernelHeapAllocator} {live : List LiveBlock}
    (hle : s ≤ e) (hword : e < 2 ^ 64) (hsize : e - s ≤ 2 ^ 36)
    (hrun : HeapRun s e metadata heap live) :
    ∃ tail : Taken (arenaOrder ((e - s) / 64)), FreshTail s e tail := by
  have hpos : 0 < (e - s) / 64 := by
    induction hrun with
    | constructed hcall husable =>
        exact (buddyInit_eq_some.mp (construct_usable hle hword hcall husable)).1.2
    | call _ _ ih => exact ih
  obtain ⟨tail, hcovers, hfresh⟩ := exists_fresh_taken hpos (by omega)
  refine ⟨tail, hcovers, fun {metadata heap buddy} hcall husable => ?_⟩
  have hinit := construct_usable hle hword hcall husable
  exact {
    buddy := ⟨buddy, husable, hfresh rfl hinit⟩
    start_ne_zero := (buddyInit_eq_some.mp hinit).1.1.2.1
    nodes_eq := by simp
    nodup := by simp
    apart := by simp
    placed := by simp }

end Rpi4Kernel.Mem
