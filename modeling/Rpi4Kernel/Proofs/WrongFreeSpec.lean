/-
Module: Rpi4Kernel.Proofs.WrongFreeSpec
Layer: Proofs
Purpose: What `free` does to a pointer that need not be the start of a live block. The lookup of the
  position climbs from the 64 bytes that hold the pointer to the first status that is not zero and
  compares neither the address nor the status with those of a live block, so a pointer into the arena
  only makes it panic while nothing at all is taken.
Trusted boundary: none (fully proved)
Main exports: Releases, FreesRightly, RightPointer, PointerRun, freesRightly_of_run, freesRightly_fails
-/
import Rpi4Kernel.Proofs.KernelHeapSpec

namespace Rpi4Kernel.Mem

open Rpi4Kernel.Theory Rpi4Kernel.Theory.IndexTree

/-! ### What a free has to do -/

/-- The heap `heap'` is `heap` with the live block `block` given back and nothing else changed: the
    statuses of its node and below are zero, those above follow from their children, all others stay,
    and the other live blocks keep their positions. -/
structure Releases (s b : Nat) (heap : KernelHeapAllocator) (live : List LiveBlock) (block : LiveBlock)
    (heap' : KernelHeapAllocator) : Prop where
  free : ∀ i, InTree (arenaOrder b) i → Below (blockNode s b block) i →
    heapStatus heap' (positionOf i) = some 0
  above : ∀ i, InTree (arenaOrder b) i → Below i (blockNode s b block) → i ≠ blockNode s b block →
    ∃ l r, heapStatus heap' (positionOf (2 * i)) = some l ∧
      heapStatus heap' (positionOf (2 * i + 1)) = some r ∧
      heapStatus heap' (positionOf i) = some (combine l r)
  elsewhere : ∀ i, InTree (arenaOrder b) i → ¬ Below (blockNode s b block) i →
    ¬ Below i (blockNode s b block) →
    heapStatus heap' (positionOf i) = heapStatus heap (positionOf i)
  kept : ∀ other ∈ live.erase block, blockLength heap' other = blockLength heap other

/-- `free(p)` releases the live block that starts at `p`, or panics and changes nothing when there is
    none. -/
def FreesRightly (s b : Nat) (heap : KernelHeapAllocator) (live : List LiveBlock) (p : Nat) : Prop :=
  (∃ block ∈ live, block.ptr = p ∧
    ∃ heap', heap.dealloc p = some (heap', .returned ()) ∧ Releases s b heap live block heap') ∨
  (∀ block ∈ live, block.ptr ≠ p) ∧ heap.dealloc p = some (heap, .panicked wrongBuddyFree)

/-- The pointers that `free` treats rightly: starts of live blocks, null, what is outside the managed
    arena, and anything while no block is live and no slot of the tree lies past the end of the
    arena. -/
def RightPointer (s b : Nat) (live : List LiveBlock) (p : Nat) : Prop :=
  (∃ block ∈ live, block.ptr = p) ∨ p = 0 ∨ p < s ∨ s + 64 * b ≤ p ∨ live = [] ∧ ∃ k, b = 2 ^ k

/-- A history with frees of pointers that need not be starts of live blocks. -/
inductive PointerRun (s e metadata : Nat) : KernelHeapAllocator → List LiveBlock → Prop where
  | constructed {heap : KernelHeapAllocator} {buddy : Buddy}
      (call : KernelHeapAllocator.construct s e metadata = some heap)
      (usable : heap.buddy = some buddy) : PointerRun s e metadata heap []
  | alloc {heap heap' : KernelHeapAllocator} {live live' : List LiveBlock} {size : Nat}
      (before : PointerRun s e metadata heap live)
      (step : HeapStep heap live (.alloc size) heap' live') : PointerRun s e metadata heap' live'
  | free {heap heap' : KernelHeapAllocator} {live : List LiveBlock} {p : Nat} {answer : HeapAnswer Unit}
      (before : PointerRun s e metadata heap live) (right : RightPointer s ((e - s) / 64) live p)
      (call : heap.dealloc p = some (heap', answer)) :
      PointerRun s e metadata heap' (live.eraseP fun block => block.ptr = p)

section Heap

variable {s b p : Nat} {tail T : Taken (arenaOrder b)} {heap : KernelHeapAllocator}
  {live : List LiveBlock}

/-- Nothing is taken exactly when no block is live and the arena fills the tree. -/
theorem HeapInv.nodes_eq_empty_iff (h : HeapInv s b tail heap live T)
    (htail : ∀ x < 2 ^ (arenaOrder b - 1), tail.Covers x ↔ b ≤ x) :
    T.nodes = ∅ ↔ live = [] ∧ ∃ k, b = 2 ^ k := by
  have hslots := blocks_le_slots b
  have horder : 2 ^ (arenaOrder b - 1) = 2 ^ Nat.clog 2 b := by
    rw [arenaOrder, Nat.add_sub_cancel]
  have hfull : tail.nodes = ∅ ↔ ∃ k, b = 2 ^ k := by
    constructor
    · intro hnodes
      refine ⟨Nat.clog 2 b, ?_⟩
      by_contra hne
      obtain ⟨j, hj, -⟩ := (htail b (by omega)).mpr le_rfl
      rw [hnodes] at hj
      exact absurd hj (Finset.notMem_empty j)
    · rintro ⟨k, hk⟩
      rw [Finset.eq_empty_iff_forall_notMem]
      intro j hj
      have hin := tail.inTree j hj
      have hcount := slotCount_pos (arenaOrder b) j
      have hslot := firstSlot_add_slotCount_le hin
      have hend := (htail (firstSlot (arenaOrder b) j) (by omega)).mp
        ⟨j, hj, (covers_iff_below hin (by omega)).mp (by omega)⟩
      have hwhole : 2 ^ Nat.clog 2 b = b := by
        rw [hk, Nat.clog_pow 2 k (by norm_num)]
      omega
  rw [h.nodes_eq, Finset.union_eq_empty, hfull, List.toFinset_eq_empty_iff, List.map_eq_nil_iff,
    and_comm]

/-! ### Right pointers -/

/-- A free of a live block gives back its node. -/
theorem dealloc_releases (h : HeapInv s b tail heap live T) {block : LiveBlock} (hlive : block ∈ live) :
    ∃ heap', heap.dealloc block.ptr = some (heap', .returned ()) ∧
      Releases s b heap live block heap' := by
  obtain ⟨heap', T', hcall, h'⟩ := dealloc_returns h hlive
  have hnode := (h.placed block hlive).inTree
  have hnodes : T'.nodes = T.nodes.erase (blockNode s b block) := by
    rw [h'.nodes_eq, h.nodes_eq, map_erase_toFinset h.nodup hlive, Finset.erase_union_distrib,
      Finset.erase_eq_of_notMem (h.apart block hlive)]
  have hstatus : ∀ i, InTree (arenaOrder b) i →
      heapStatus heap' (positionOf i) = some (T'.status i) := fun i hi => heapStatus_spec h' hi
  refine ⟨heap', hcall, fun i hi hb => ?_, fun i hi hb hne => ?_, fun i hi hb hb' => ?_,
    fun other hother => ?_⟩
  · have hzero : T'.status i = 0 := by
      rw [T'.status_eq_zero_iff hi]
      intro j hj hij
      rw [hnodes, Finset.mem_erase] at hj
      exact hj.1 (T.apart _ (h.mem_nodes hlive) j hj.2 (hb.trans hij)).symm
    rw [hstatus i hi, hzero]
  · have hinner : i.size < arenaOrder b := by
      have hsize := hb.size_le
      have hle := hnode.size_le
      have hdeeper : i.size ≠ (blockNode s b block).size := fun heq =>
        hne (hb.eq_of_size_eq hi.pos heq)
      omega
    have hmem : i ∉ T'.nodes := by
      rw [hnodes, Finset.mem_erase]
      exact fun hi' => hi'.1 (T.apart i hi'.2 _ (h.mem_nodes hlive) hb)
    exact ⟨_, _, hstatus _ (hi.left hinner), hstatus _ (hi.right hinner), by
      rw [hstatus i hi, T'.status_inner hi hmem]⟩
  · have hsame : T'.status i = T.status i := by
      refine T'.status_eq_of_agree T hi fun j hij => ?_
      have hne : j ≠ blockNode s b block := fun heq => hb' (heq ▸ hij)
      rw [hnodes, Finset.mem_erase, and_iff_right hne]
    rw [hstatus i hi, heapStatus_spec h hi, hsame]
  · rw [blockLength_spec h' hother, blockLength_spec h (List.mem_of_mem_erase hother)]

/-- A free of null, of a pointer outside the arena or with nothing taken panics. -/
theorem dealloc_panics (h : HeapInv s b tail heap live T)
    (hp : p = 0 ∨ p < s ∨ s + 64 * b ≤ p ∨ T.nodes = ∅) :
    heap.dealloc p = some (heap, .panicked wrongBuddyFree) := by
  obtain ⟨buddy, hbuddy, hmanages⟩ := h.buddy
  have hfree : buddyFree buddy p = some (.error wrongBuddyFree) := by
    simp only [buddyFree, hmanages.arena.buddyMain_eq, hmanages.arena.memorySize_eq]
    by_cases hzero : p = 0
    · rw [if_pos hzero]
    · rw [if_neg hzero]
      by_cases hout : p < s ∨ s + 64 * b ≤ p
      · rw [if_pos hout]
      · have hempty : T.nodes = ∅ := by tauto
        have hslots := blocks_le_slots b
        have hslot : (p - s) / 64 < 2 ^ (arenaOrder b - 1) := by omega
        have hn := hmanages.tree.tree.order_pos
        have hsize := size_leaf hn hslot
        have hle := hmanages.tree.tree.order_le
        have hposition : positionForAddress buddy p = some invalidPos := by
          simp only [positionForAddress, hmanages.arena.buddyMain_eq]
          rw [deepestPositionForOffset_eq hmanages.tree.tree hslot]
          exact positionForAddressLoop_of_empty hmanages.tree hempty 65 _ (inTree_leaf hn hslot)
            (by omega)
        have hinvalid : buddyTreeValid buddy.tree invalidPos = false := rfl
        rw [if_neg hout, hposition, Option.bind_eq_bind, Option.bind_some, hinvalid]
        rfl
  simp only [KernelHeapAllocator.dealloc, hbuddy, hfree, Option.bind_eq_bind, Option.bind_some]
  rfl

/-- A free of any pointer into the arena does not panic while something is taken: the climb ends inside
    the tree, and whatever position that is gets released. -/
theorem dealloc_not_panics (h : HeapInv s b tail heap live T) (hzero : p ≠ 0) (hlow : s ≤ p)
    (hhigh : p < s + 64 * b) (htaken : T.nodes ≠ ∅) (message : String) :
    heap.dealloc p ≠ some (heap, .panicked message) := by
  obtain ⟨buddy, hbuddy, hmanages⟩ := h.buddy
  have hn := hmanages.tree.tree.order_pos
  have hle := hmanages.tree.tree.order_le
  have hslots := blocks_le_slots b
  have hslot : (p - s) / 64 < 2 ^ (arenaOrder b - 1) := by omega
  have hsize := size_leaf hn hslot
  have hroot : T.status 1 ≠ 0 := by
    intro hstatus
    obtain ⟨j, hj⟩ := Finset.nonempty_iff_ne_empty.mpr htaken
    exact (T.status_eq_zero_iff (inTree_root hn)).mp hstatus j hj (below_one (T.inTree j hj).pos)
  obtain ⟨q, hq, hclimb⟩ := positionForAddressLoop_of_taken hmanages.tree hroot 65 _
    (inTree_leaf hn hslot) (by omega)
  have hposition : positionForAddress buddy p = some (positionOf q) := by
    simp only [positionForAddress, hmanages.arena.buddyMain_eq]
    rw [deepestPositionForOffset_eq hmanages.tree.tree hslot]
    exact hclimb
  have hvalid := (hmanages.tree.tree.buddyTreeValid_iff (positionOf q)).mpr hq
  simp only [KernelHeapAllocator.dealloc, hbuddy, buddyFree, hmanages.arena.buddyMain_eq,
    hmanages.arena.memorySize_eq]
  rw [if_neg hzero, if_neg (by omega), hposition, Option.bind_eq_bind, Option.bind_eq_bind,
    Option.bind_some, if_pos hvalid]
  cases buddyTreeRelease buddy.tree (positionOf q) <;> simp

end Heap

/-! ### Histories -/

/-- Frees of right pointers add no heap to those that frees of live blocks reach. -/
theorem heapRun_of_pointerRun {s e metadata : Nat} {heap : KernelHeapAllocator} {live : List LiveBlock}
    (hword : e < 2 ^ 64) (hle : s ≤ e) (hhigh : e ≤ s + 2 ^ 36)
    (hrun : PointerRun s e metadata heap live) : HeapRun s e metadata heap live := by
  induction hrun with
  | constructed hcall husable => exact .constructed hcall husable
  | alloc _ hstep ih => exact .call ih hstep
  | @free heap heap' live p answer _ hright hcall ih =>
      by_cases hlive : ∃ block ∈ live, block.ptr = p
      · obtain ⟨block, hmem, hptr⟩ := hlive
        obtain ⟨first, l₁, l₂, hbefore, hfirst, rfl, herase⟩ :=
          List.exists_of_eraseP (p := fun block => block.ptr = p) hmem (decide_eq_true hptr)
        have hnot : first ∉ l₁ := fun hin => hbefore first hin hfirst
        obtain rfl : first.ptr = p := of_decide_eq_true hfirst
        have hmem' : first ∈ l₁ ++ first :: l₂ := List.mem_append_right l₁ List.mem_cons_self
        have hstep := HeapStep.freed hmem' hcall
        rw [List.erase_append_right _ hnot, List.erase_cons_head, ← herase] at hstep
        exact .call ih hstep
      · obtain ⟨tail, htail⟩ := exists_freshTail hle hword (by omega) ih
        obtain ⟨T, h⟩ := heapInv_of_run htail ih
        have hpanics := dealloc_panics h (p := p) (by
          rcases hright with hright | hright
          · exact absurd hright hlive
          · rwa [h.nodes_eq_empty_iff htail.1])
        rw [hpanics] at hcall
        cases hcall
        have hnone : live.eraseP (fun block => block.ptr = p) = live :=
          List.eraseP_of_forall_not fun block hmem hptr => hlive ⟨block, hmem, of_decide_eq_true hptr⟩
        rwa [hnone]

/-- After every history of allocations and right frees, `free` treats a pointer rightly exactly when
    it is a right pointer. -/
theorem freesRightly_of_run {s e metadata : Nat} {heap : KernelHeapAllocator} {live : List LiveBlock}
    (hword : e < 2 ^ 64) (hle : s ≤ e) (hhigh : e ≤ s + 2 ^ 36)
    (hrun : PointerRun s e metadata heap live) (p : Nat) :
    FreesRightly s ((e - s) / 64) heap live p ↔ RightPointer s ((e - s) / 64) live p := by
  have hrun' := heapRun_of_pointerRun hword hle hhigh hrun
  obtain ⟨tail, htail⟩ := exists_freshTail hle hword (by omega) hrun'
  obtain ⟨T, h⟩ := heapInv_of_run htail hrun'
  constructor
  · rintro (⟨block, hlive, hptr, -⟩ | ⟨-, hpanics⟩)
    · exact .inl ⟨block, hlive, hptr⟩
    · by_contra hnot
      simp only [RightPointer, not_or] at hnot
      obtain ⟨-, hzero, hlow, hhigh', hempty⟩ := hnot
      rw [← h.nodes_eq_empty_iff htail.1] at hempty
      exact dealloc_not_panics h hzero (by omega) (by omega) hempty _ hpanics
  · intro hright
    by_cases hlive : ∃ block ∈ live, block.ptr = p
    · obtain ⟨block, hmem, rfl⟩ := hlive
      exact .inl ⟨block, hmem, rfl, dealloc_releases h hmem⟩
    · refine .inr ⟨fun block hmem hptr => hlive ⟨block, hmem, hptr⟩, dealloc_panics h ?_⟩
      rcases hright with hright | hright
      · exact absurd hright hlive
      · rwa [h.nodes_eq_empty_iff htail.1]

/-- A pointer past the arena of 192 managed bytes. -/
theorem freesRightly_of_outside :
    ∃ heap, PointerRun 4096 4296 64 heap [] ∧
      (FreesRightly 4096 3 heap [] 4288 ↔ RightPointer 4096 3 [] 4288) := by
  obtain ⟨heap, hheap⟩ := Option.isSome_iff_exists.mp
    (show (KernelHeapAllocator.construct 4096 4296 64).isSome by decide +kernel)
  obtain ⟨buddy, hbuddy⟩ := Option.isSome_iff_exists.mp
    (show ((KernelHeapAllocator.construct 4096 4296 64).bind KernelHeapAllocator.buddy).isSome by
      decide +kernel)
  rw [hheap] at hbuddy
  have hrun : PointerRun 4096 4296 64 heap [] := .constructed hheap hbuddy
  exact ⟨heap, hrun, freesRightly_of_run (by norm_num) (by norm_num) (by norm_num) hrun 4288⟩

/-- A free of an address inside a live block returns: it released the block. -/
theorem freesRightly_fails :
    ∃ heap, HeapRun 4096 4296 64 heap [⟨4096, 100⟩] ∧
    ¬ FreesRightly 4096 3 heap [⟨4096, 100⟩] 4160 := by
  have hanswer : ((replay 4096 4296 64 [.alloc 100]).bind fun state =>
      (state.1.dealloc 4160).map fun answer => (state.2, answer.2)) =
      some ([⟨4096, 100⟩], .returned ()) := by decide +kernel
  obtain ⟨⟨heap, live⟩, hreplay, hcall⟩ := Option.bind_eq_some_iff.mp hanswer
  obtain ⟨⟨heap', answer⟩, hcall, hsame⟩ := Option.map_eq_some_iff.mp hcall
  cases hsame
  refine ⟨heap, heapRun_of_replay hreplay, ?_⟩
  rintro (⟨block, hlive, hptr, -⟩ | ⟨-, hpanics⟩)
  · rw [List.mem_singleton] at hlive
    rw [hlive] at hptr
    exact absurd hptr (by norm_num)
  · rw [hcall] at hpanics
    cases hpanics

end Rpi4Kernel.Mem
