/-
Module: Rpi4Kernel.Proofs.ReservationsSpec
Layer: Proofs
Purpose: Ranges that a client reserves behave as buffers of one slot each. From the slot of its first
  byte on, a range takes as many slots of 64 bytes as its size needs; the other calls leave the slots
  alone until they are released, and give no part of them away.
Trusted boundary: none (fully proved)
Main exports: slotsOf, reserveStep, ReserveEffect, toggleRangeLoop_spec, reservations_buffers
-/
import Rpi4Kernel.Mem.Reservations
import Rpi4Kernel.Proofs.BuddyBuffersSpec

namespace Rpi4Kernel.Mem

open Rpi4Kernel.Theory Rpi4Kernel.Theory.IndexTree

/-! ### Clients that reserve -/

/-- The slots of a range, from that of its first byte on. -/
def slotsOf (s ptr size : Nat) : List Nat :=
  List.range' ((ptr - s) / buddyAllocAlign) ((size + (buddyAllocAlign - 1)) / buddyAllocAlign)

/-- The pointer of a slot. -/
def slotPtr (s k : Nat) : Nat := s + buddyAllocAlign * k

/-- A range of the arena that is not empty. -/
def RangeInside (s memorySize ptr size : Nat) : Prop :=
  ptr ≠ 0 ∧ size ≠ 0 ∧ s ≤ ptr ∧ ptr + size ≤ s + memorySize

instance (s memorySize ptr size : Nat) : Decidable (RangeInside s memorySize ptr size) :=
  inferInstanceAs (Decidable (_ ∧ _))

/-- The books after slots are reserved. -/
def reserved (s : Nat) (slots : List Nat) (live : List LiveBlock) : List LiveBlock :=
  slots.foldl (fun live k => ⟨slotPtr s k, buddyAllocAlign⟩ :: live) live

/-- The books after slots are released. -/
def released (s : Nat) (slots : List Nat) (live : List LiveBlock) : List LiveBlock :=
  slots.foldl (fun live k => without live (slotPtr s k)) live

/-- No live block meets the slot. -/
def SlotFree (s : Nat) (live : List LiveBlock) (k : Nat) : Bool :=
  live.all fun block => slotPtr s k + buddyAllocAlign ≤ block.ptr ∨
    block.ptr + blockSize block.size ≤ slotPtr s k

/-- A live block is the slot. -/
def SlotLive (s : Nat) (live : List LiveBlock) (k : Nat) : Bool :=
  (liveAt live (slotPtr s k)).any fun block => blockSize block.size = buddyAllocAlign

/-- A client reserves slots that are free and releases slots that are blocks of their own. A range
    that does not lie in the arena may be passed if its end does not wrap. -/
def ReserveAllowed (s memorySize : Nat) (live : List LiveBlock) : ReserveCall → Bool
  | .api call => Allowed live call
  | .reserveRange ptr size =>
    if RangeInside s memorySize ptr size.toNat then (slotsOf s ptr size.toNat).all (SlotFree s live)
    else ptr + size.toNat < 2 ^ 64
  | .unsafeReleaseRange ptr size =>
    if RangeInside s memorySize ptr size.toNat then (slotsOf s ptr size.toNat).all (SlotLive s live)
    else ptr + size.toNat < 2 ^ 64

/-- How a client keeps its books. -/
def afterReserve (s memorySize : Nat) (live : List LiveBlock) (answer : Option Nat) :
    ReserveCall → List LiveBlock
  | .api call => after live answer call
  | .reserveRange ptr size =>
    if RangeInside s memorySize ptr size.toNat then reserved s (slotsOf s ptr size.toNat) live else live
  | .unsafeReleaseRange ptr size =>
    if RangeInside s memorySize ptr size.toNat then released s (slotsOf s ptr size.toNat) live else live

/-- An allowed call of a client. -/
def reserveStep (s memorySize : Nat) (c : BuddyClient) (call : ReserveCall) : Option BuddyClient :=
  if ReserveAllowed s memorySize c.live call then
    (c.heap.reserveCall call).bind fun result =>
      result.toOption.map fun heap => ⟨heap.1, afterReserve s memorySize c.live heap.2 call⟩
  else none

/-- What each call does to the buffers in an arena of `b` blocks at `s`. -/
def ReserveEffect (s b : Nat) (B B' : Buffers) (answer : Option Nat) : ReserveCall → Prop
  | .api call => Effect s b B B' answer call
  | .reserveRange ptr size =>
    if RangeInside s (64 * b) ptr size.toNat then
      ∀ p, if p ∈ (slotsOf s ptr size.toNat).map (slotPtr s) then
        B p = none ∧ ∃ bytes, bytes.length = buddyAllocAlign ∧ B' p = some bytes
        else B' p = B p
    else B' = B
  | .unsafeReleaseRange ptr size =>
    if RangeInside s (64 * b) ptr size.toNat then
      ∀ p, B' p = if p ∈ (slotsOf s ptr size.toNat).map (slotPtr s) then none else B p
    else B' = B

theorem buddyAllocAlign_eq : buddyAllocAlign = 64 := rfl

section

variable {s b : Nat} {tail T : Taken (arenaOrder b)} {live : List LiveBlock}

/-! ### The books -/

theorem reserved_cons (k : Nat) (slots : List Nat) :
    reserved s (k :: slots) live = reserved s slots (⟨slotPtr s k, buddyAllocAlign⟩ :: live) := rfl

theorem released_cons (k : Nat) (slots : List Nat) :
    released s (k :: slots) live = released s slots (without live (slotPtr s k)) := rfl

theorem buffersIn_reserved (mem : ByteMemory) (slots : List Nat) (p : Nat) :
    buffersIn mem (reserved s slots live) p =
      if p ∈ slots.map (slotPtr s) then some (bytesAt mem p buddyAllocAlign)
      else buffersIn mem live p := by
  induction slots generalizing live with
  | nil => rfl
  | cons k slots ih =>
    rw [reserved_cons, ih, buffersIn_cons]
    cases decEq p (slotPtr s k) with
    | isTrue heq => simp [heq]
    | isFalse hne => simp [hne]

theorem buffersIn_released (mem : ByteMemory) (slots : List Nat) (p : Nat) :
    buffersIn mem (released s slots live) p =
      if p ∈ slots.map (slotPtr s) then none else buffersIn mem live p := by
  induction slots generalizing live with
  | nil => rfl
  | cons k slots ih =>
    rw [released_cons, ih, buffersIn_without]
    cases decEq p (slotPtr s k) with
    | isTrue heq => simp [heq]
    | isFalse hne => simp [hne]

/-- No buffer starts at a slot that is free. -/
theorem buffersIn_slotFree {k : Nat} (mem : ByteMemory) (h : SlotFree s live k = true) :
    buffersIn mem live (slotPtr s k) = none := by
  have hnone : liveAt live (slotPtr s k) = none := by
    apply liveAt_none.mpr
    intro block hlive heq
    have hapart := List.all_eq_true.mp h block hlive
    have hpos : 0 < blockSize block.size := Nat.pow_pos (by norm_num)
    rw [heq, decide_eq_true_eq, buddyAllocAlign_eq] at hapart
    omega
  rw [buffersIn, hnone]
  rfl

/-! ### Slots and leaves -/

theorem slotCount_leaf {n x : Nat} (hn : 0 < n) (hx : x < 2 ^ (n - 1)) :
    slotCount n (leaf n x) = 1 := by
  rw [slotCount, size_leaf hn hx, Nat.sub_self, Nat.pow_zero]

theorem firstSlot_leaf {n x : Nat} (hn : 0 < n) (hx : x < 2 ^ (n - 1)) :
    firstSlot n (leaf n x) = x := by
  have hcovers := (covers_iff_below (inTree_leaf hn hx) hx).mpr (Below.refl _)
  rw [slotCount_leaf hn hx] at hcovers
  omega

/-- A node of one slot is the leaf of the slot. -/
theorem eq_leaf {n i : Nat} (hin : InTree n i) (hcount : slotCount n i = 1) :
    i = leaf n (firstSlot n i) := by
  have hend := firstSlot_add_slotCount_le hin
  have hslot : firstSlot n i < 2 ^ (n - 1) := by omega
  have hpos : 0 < n := lt_of_lt_of_le hin.size_pos hin.size_le
  have hbelow := (covers_iff_below hin hslot).mp (by omega)
  apply (hbelow.eq_of_size_eq hin.pos _)
  have hle := hin.size_le
  have hpow : 2 ^ (n - i.size) = 2 ^ 0 := hcount
  have hzero := Nat.pow_right_injective le_rfl hpow
  rw [size_leaf hpos hslot]
  omega

/-! ### The loop -/

variable {c : BuddyClient} {k : Nat}

/-- The arena lies in the leaves. -/
theorem slot_lt (hk : k < b) : k < 2 ^ (arenaOrder b - 1) := lt_of_lt_of_le hk (blocks_le_slots b)

namespace ClientInv

theorem order_pos (h : ClientInv s b tail c T) : 0 < arenaOrder b := h.governs.tree.tree.order_pos

/-- The leaf of a slot that is free is free. -/
theorem leaf_free (h : ClientInv s b tail c T) (hk : k < b) (hfree : SlotFree s c.live k = true) :
    T.Free (leaf (arenaOrder b) k) := by
  have hslot := slot_lt hk
  have hleaf := inTree_leaf h.order_pos hslot
  have habove : ∀ j ∈ T.nodes, ¬ Below j (leaf (arenaOrder b) k) := by
    intro j hj hbelow
    rw [h.books.nodes_eq, Finset.mem_union, List.mem_toFinset] at hj
    cases hj with
    | inl htail =>
      have hcovered := (h.tail_covers k hslot).mp ⟨j, htail, hbelow⟩
      exact absurd hk (Nat.not_lt.mpr hcovered)
    | inr hlive =>
      obtain ⟨block, hmem, rfl⟩ := List.mem_map.mp hlive
      have hplaced := h.books.placed block hmem
      have hcovers := (covers_iff_below hplaced.inTree hslot).mpr hbelow
      have hapart := List.all_eq_true.mp hfree block hmem
      rw [decide_eq_true_eq, hplaced.ptr_eq, hplaced.size_eq, slotPtr, buddyAllocAlign_eq] at hapart
      omega
  intro j hj
  constructor
  · intro hbelow
    apply habove j hj
    rw [T.eq_of_below_leaf hleaf (size_leaf h.order_pos hslot) hj hbelow]
    exact Below.refl _
  · exact habove j hj

/-- One turn of the loop marks the leaf of a free slot: the slot becomes a block. -/
theorem mark (h : ClientInv s b tail c T) (hk : k < b) (hfree : SlotFree s c.live k = true) :
    ∃ tree T', buddyTreeMark c.heap.buddy.tree (positionOf (leaf (arenaOrder b) k)) = some tree ∧
      ClientInv s b tail ⟨{ c.heap with buddy := { c.heap.buddy with tree := tree } },
        ⟨slotPtr s k, buddyAllocAlign⟩ :: c.live⟩ T' := by
  have hslot := slot_lt hk
  have hleaf := inTree_leaf h.order_pos hslot
  obtain ⟨tree, hmark, htree⟩ := buddyTreeMark_spec h.governs.tree hleaf (h.leaf_free hk hfree)
  refine ⟨tree, _, hmark, { h with governs := h.governs.setTree htree, books := ?_ }⟩
  have hclass : blockSize buddyAllocAlign = 64 * slotCount (arenaOrder b) (leaf (arenaOrder b) k) := by
    rw [slotCount_leaf h.order_pos hslot]
    decide
  have hinsert := h.insert hleaf (h.leaf_free hk hfree) hclass
  rwa [firstSlot_leaf h.order_pos hslot] at hinsert

/-- One turn of the loop releases the leaf of a slot that is a block. -/
theorem release (h : ClientInv s b tail c T) (hlive : SlotLive s c.live k = true) :
    ∃ tree T', buddyTreeRelease c.heap.buddy.tree (positionOf (leaf (arenaOrder b) k)) = some tree ∧
      ClientInv s b tail ⟨{ c.heap with buddy := { c.heap.buddy with tree := tree } },
        without c.live (slotPtr s k)⟩ T' := by
  obtain ⟨block, hfound, hsize⟩ := (Option.any_eq_true _ _).mp hlive
  obtain ⟨hmem, hptr⟩ := liveAt_some hfound
  have hplaced := h.books.placed block hmem
  have hcount : slotCount (arenaOrder b) (blockNode s b block) = 1 := by
    rw [decide_eq_true_eq, hplaced.size_eq, buddyAllocAlign_eq] at hsize
    omega
  have hfirst : firstSlot (arenaOrder b) (blockNode s b block) = k := by
    rw [hplaced.ptr_eq, slotPtr, buddyAllocAlign_eq] at hptr
    omega
  have hleaf := eq_leaf hplaced.inTree hcount
  rw [hfirst] at hleaf
  obtain ⟨tree, hrelease, htree⟩ := buddyTreeRelease_spec h.governs.tree (h.books.mem_nodes hmem)
  rw [← hleaf, ← hptr]
  exact ⟨tree, _, hrelease, { h with governs := h.governs.setTree htree, books := h.books.erase hmem }⟩

end ClientInv

/-- The position of the next slot. -/
theorem positionOf_leaf_succ {n : Nat} (hn : 0 < n) (hk : k + 1 < 2 ^ (n - 1)) :
    { positionOf (leaf n k) with index := (positionOf (leaf n k)).index + 1 } =
      positionOf (leaf n (k + 1)) := by
  rw [positionOf, positionOf, size_leaf hn (Nat.lt_of_succ_lt hk), size_leaf hn hk]
  rfl

/-- The number of turns that are left. -/
theorem turns_step {size : Nat} (h : size ≠ 0) :
    (size + (buddyAllocAlign - 1)) / buddyAllocAlign =
      ((if size < buddyAllocAlign then 0 else size - buddyAllocAlign) + (buddyAllocAlign - 1)) /
        buddyAllocAlign + 1 := by
  rw [buddyAllocAlign_eq]
  split <;> omega

/-- The loop over the slots of a range, for what one turn does. -/
theorem toggleRangeLoop_spec {toggle : BuddyTree → BuddyTreePos → Option BuddyTree}
    {ready : List LiveBlock → Nat → Bool} {next : List LiveBlock → Nat → List LiveBlock}
    (hturn : ∀ (c : BuddyClient) (T : Taken (arenaOrder b)) (k : Nat), ClientInv s b tail c T → k < b →
      ready c.live k = true → ∃ tree T', toggle c.heap.buddy.tree
      (positionOf (leaf (arenaOrder b) k)) = some tree ∧
        ClientInv s b tail ⟨{ c.heap with buddy := { c.heap.buddy with tree := tree } },
          next c.live k⟩ T')
    (hrest : ∀ live k j, k < j → ready live j = true → ready (next live k) j = true) {size fuel : Nat}
    {pos : BuddyTreePos} (h : ClientInv s b tail c T)
    (hpos : size ≠ 0 → pos = positionOf (leaf (arenaOrder b) k))
      (hfuel : (size + (buddyAllocAlign - 1)) / buddyAllocAlign < fuel)
    (hinside : k + (size + (buddyAllocAlign - 1)) / buddyAllocAlign ≤ b)
    (hready : ∀ j ∈ List.range' k ((size + (buddyAllocAlign - 1)) / buddyAllocAlign),
      ready c.live j = true) :
    ∃ tree T', toggleRangeLoop toggle fuel size pos c.heap.buddy.tree = some tree ∧
      ClientInv s b tail ⟨{ c.heap with buddy := { c.heap.buddy with tree := tree } },
        (List.range' k ((size + (buddyAllocAlign - 1)) / buddyAllocAlign)).foldl next c.live⟩ T' := by
  induction fuel generalizing c T k size pos with
  | zero => exact absurd hfuel (Nat.not_lt_zero _)
  | succ fuel ih =>
    cases decEq size 0 with
    | isTrue hzero =>
      subst hzero
      exact ⟨c.heap.buddy.tree, T, rfl, h⟩
    | isFalse hne =>
      rw [turns_step hne] at hinside hready hfuel ⊢
      rw [List.range'_succ] at hready ⊢
      obtain ⟨tree, T', htoggle, h'⟩ :=
        hturn c T k h (lt_of_lt_of_le (Nat.lt_add_of_pos_right (Nat.succ_pos _)) hinside)
        (hready k List.mem_cons_self)
      rw [toggleRangeLoop, if_neg hne, hpos hne, htoggle]
      generalize hleft : (if size < buddyAllocAlign then 0 else size - buddyAllocAlign) =
        left at hinside hready hfuel ⊢
      have hnext : left ≠ 0 → { positionOf (leaf (arenaOrder b) k) with
          index := (positionOf (leaf (arenaOrder b) k)).index + 1 } =
            positionOf (leaf (arenaOrder b) (k + 1)) := by
        intro hleftNe
        apply positionOf_leaf_succ h.order_pos
        apply slot_lt
        rw [buddyAllocAlign_eq] at hinside
        omega
      apply ih h' hnext (Nat.lt_of_succ_lt_succ hfuel)
      · omega
      · intro j hj
        have hlarger := (List.mem_range'_1.mp hj).1
        exact hrest _ _ _ hlarger (hready j (List.mem_cons_of_mem _ hj))

/-! ### The calls -/

theorem slotFree_cons {j : Nat} (hlt : k < j) (h : SlotFree s live j = true) :
    SlotFree s (⟨slotPtr s k, buddyAllocAlign⟩ :: live) j = true := by
  have hsize : blockSize buddyAllocAlign = 64 := by decide
  rw [SlotFree, List.all_cons, Bool.and_eq_true, decide_eq_true_eq, hsize]
  constructor
  · right
    show slotPtr s k + 64 ≤ slotPtr s j
    rw [slotPtr, slotPtr, buddyAllocAlign_eq]
    omega
  · exact h

theorem slotLive_without {j : Nat} (hlt : k < j) (h : SlotLive s live j = true) :
    SlotLive s (without live (slotPtr s k)) j = true := by
  have hne : slotPtr s j ≠ slotPtr s k := by
    rw [slotPtr, slotPtr, buddyAllocAlign_eq]
    omega
  rw [SlotLive, liveAt_without hne]
  exact h

namespace ClientInv

variable {ptr size : Nat}

/-- A range that is not in the arena is passed over. -/
theorem toggle_outside (h : ClientInv s b tail c T) (hinside : ¬ RangeInside s (64 * b) ptr size)
    (hword : ptr + size < 2 ^ 64) (state : Bool) :
    buddyToggleRangeReservation c.heap.buddy ptr size state = some c.heap.buddy := by
  rw [buddyToggleRangeReservation]
  split
  case isTrue => rfl
  case isFalse hptr =>
    split
    case isTrue => rfl
    case isFalse hsize =>
      have hmod : (ptr + size) % sizeMax = ptr + size := Nat.mod_eq_of_lt hword
      simp only [h.governs.buddyMain_eq, h.governs.memorySize_eq, hmod]
      split
      case isTrue => rfl
      case isFalse hout =>
        exfalso
        apply hinside
        exact ⟨hptr, hsize, by omega, by omega⟩

/-- A range of the arena is toggled slot by slot. -/
theorem toggle_inside (h : ClientInv s b tail c T) (hinside : RangeInside s (64 * b) ptr size)
    (hword : s + 64 * b < 2 ^ 64) (state : Bool) :
    buddyToggleRangeReservation c.heap.buddy ptr size state =
      (toggleRangeLoop (if state then buddyTreeMark else buddyTreeRelease)
        (size / buddyAllocAlign + 2) size
        (positionOf (leaf (arenaOrder b) ((ptr - s) / buddyAllocAlign))) c.heap.buddy.tree).map
          fun tree => { c.heap.buddy with tree := tree } := by
  obtain ⟨hptr, hsize, hstart, hend⟩ := hinside
  have hmod : (ptr + size) % sizeMax = ptr + size := Nat.mod_eq_of_lt (lt_of_le_of_lt hend hword)
  have hslot : (ptr - s) / 64 < 2 ^ (arenaOrder b - 1) := slot_lt (by omega)
  rw [buddyToggleRangeReservation, if_neg hptr, if_neg hsize]
  simp only [h.governs.buddyMain_eq, h.governs.memorySize_eq, hmod]
  rw [if_neg (by omega), deepestPositionForOffset_eq h.governs.tree.tree hslot]
  rfl

/-- The slots of a range of the arena are slots of the arena. -/
theorem slots_inside (hinside : RangeInside s (64 * b) ptr size) :
    (ptr - s) / buddyAllocAlign + (size + (buddyAllocAlign - 1)) / buddyAllocAlign ≤ b := by
  obtain ⟨-, -, hstart, hend⟩ := hinside
  rw [buddyAllocAlign_eq]
  omega

theorem turns_lt (size : Nat) :
    (size + (buddyAllocAlign - 1)) / buddyAllocAlign < size / buddyAllocAlign + 2 := by
  rw [buddyAllocAlign_eq]
  omega

/-- `buddy_reserve_range` of free slots. -/
theorem reserveRange (h : ClientInv s b tail c T) (hinside : RangeInside s (64 * b) ptr size)
    (hword : s + 64 * b < 2 ^ 64) (hfree : (slotsOf s ptr size).all (SlotFree s c.live) = true) :
    ∃ buddy T', buddyReserveRange c.heap.buddy ptr size = some buddy ∧
      ClientInv s b tail ⟨{ c.heap with buddy := buddy }, reserved s (slotsOf s ptr size) c.live⟩
        T' := by
  obtain ⟨tree, T', hloop, hinv⟩ := toggleRangeLoop_spec (fun _ _ _ h hk hfree => h.mark hk hfree)
    (fun _ _ _ => slotFree_cons) h (fun _ => rfl) (turns_lt size) (slots_inside hinside)
    (List.all_eq_true.mp hfree)
  refine ⟨{ c.heap.buddy with tree := tree }, T', ?_, hinv⟩
  rw [buddyReserveRange, h.toggle_inside hinside hword, if_pos rfl, hloop]
  rfl

/-- `buddy_unsafe_release_range` of slots that are blocks. -/
theorem releaseRange (h : ClientInv s b tail c T) (hinside : RangeInside s (64 * b) ptr size)
    (hword : s + 64 * b < 2 ^ 64) (hlive : (slotsOf s ptr size).all (SlotLive s c.live) = true) :
    ∃ buddy T', buddyUnsafeReleaseRange c.heap.buddy ptr size = some buddy ∧
      ClientInv s b tail ⟨{ c.heap with buddy := buddy }, released s (slotsOf s ptr size) c.live⟩
        T' := by
  obtain ⟨tree, T', hloop, hinv⟩ := toggleRangeLoop_spec (fun _ _ _ h _ hlive => h.release hlive)
    (fun _ _ _ => slotLive_without) h (fun _ => rfl) (turns_lt size) (slots_inside hinside)
    (List.all_eq_true.mp hlive)
  refine ⟨{ c.heap.buddy with tree := tree }, T', ?_, hinv⟩
  rw [buddyUnsafeReleaseRange, h.toggle_inside hinside hword, if_neg Bool.false_ne_true, hloop]
  rfl

end ClientInv

/-- Every allowed call returns, keeps the invariant, and does to the buffers what its name says. -/
theorem clientInv_reserveCall {call : ReserveCall} (h : ClientInv s b tail c T)
    (hword : s + 64 * b < 2 ^ 64)
    (hallowed : ReserveAllowed s (64 * b) c.live call = true) :
    Answers s b tail (c.heap.reserveCall call)
    (fun answer => afterReserve s (64 * b) c.live answer call)
      fun B' answer => ReserveEffect s b c.buffers B' answer call := by
  cases call with
  | api call => exact clientInv_call h hallowed
  | reserveRange ptr size =>
    simp only [ReserveAllowed] at hallowed
    simp only [afterReserve, ReserveEffect, BuddyHeap.reserveCall]
    by_cases hinside : RangeInside s (64 * b) ptr size.toNat
    · rw [if_pos hinside] at hallowed
      obtain ⟨buddy, T', hcall, hinv⟩ := h.reserveRange hinside hword hallowed
      simp only [if_pos hinside]
      refine ⟨_, none, T', by rw [hcall]; rfl, hinv, fun p => ?_⟩
      split
      case isTrue hmem =>
        obtain ⟨k, hk, rfl⟩ := List.mem_map.mp hmem
        refine ⟨buffersIn_slotFree _ (List.all_eq_true.mp hallowed k hk),
          bytesAt c.heap.mem (slotPtr s k) _, length_bytesAt .., ?_⟩
        rw [buffersIn_reserved, if_pos hmem]
      case isFalse hmem =>
        rw [buffersIn_reserved, if_neg hmem]
        rfl
    · rw [if_neg hinside, decide_eq_true_eq] at hallowed
      simp only [if_neg hinside]
      refine ⟨c.heap, none, T, ?_, h, rfl⟩
      rw [buddyReserveRange, h.toggle_outside hinside hallowed]
      rfl
  | unsafeReleaseRange ptr size =>
    simp only [ReserveAllowed] at hallowed
    simp only [afterReserve, ReserveEffect, BuddyHeap.reserveCall]
    by_cases hinside : RangeInside s (64 * b) ptr size.toNat
    · rw [if_pos hinside] at hallowed
      obtain ⟨buddy, T', hcall, hinv⟩ := h.releaseRange hinside hword hallowed
      simp only [if_pos hinside]
      exact ⟨_, none, T', by rw [hcall]; rfl, hinv, fun p => buffersIn_released ..⟩
    · rw [if_neg hinside, decide_eq_true_eq] at hallowed
      simp only [if_neg hinside]
      refine ⟨c.heap, none, T, ?_, h, rfl⟩
      rw [buddyUnsafeReleaseRange, h.toggle_outside hinside hallowed]
      rfl

/-- The invariant holds for what every run reaches. -/
theorem clientInv_of_reserveRun {c₀ : BuddyClient} (h : ∃ T, ClientInv s b tail c₀ T)
    (hword : s + 64 * b < 2 ^ 64) (hrun : Run (reserveStep s (64 * b)) c₀ c) :
    ∃ T, ClientInv s b tail c T := by
  apply hrun.invariant h
  intro c call c' hinv _ hstep
  obtain ⟨T, hinv⟩ := hinv
  rw [reserveStep] at hstep
  split at hstep
  case isTrue hallowed =>
    obtain ⟨heap, answer, T', hcall, hinv, -⟩ := clientInv_reserveCall hinv hword hallowed
    rw [hcall] at hstep
    cases hstep
    exact ⟨T', hinv⟩
  case isFalse => cases hstep

end

/-- After every history of calls, writes, reservations and releases every allowed call returns and
    does to the buffers what its name says, the slots of reserved ranges being buffers too: no call
    gives a part of them away or writes to them. -/
theorem reservations_buffers {place s memorySize : Nat} {buddy : Buddy} {mem : ByteMemory}
    {c : BuddyClient}
    (call : ReserveCall) (hinit : buddyInit place s memorySize = some (some buddy))
    (hsize : memorySize ≤ 2 ^ 36) (hword : s + memorySize < 2 ^ 64)
    (hrun : Run (reserveStep s (64 * (memorySize / 64))) ⟨⟨buddy, mem⟩, []⟩ c)
    (hallowed : ReserveAllowed s (64 * (memorySize / 64)) c.live call = true) :
    c.buffers.Laid s (memorySize / 64) ∧ ∃ heap answer, c.heap.reserveCall call =
      some (.ok (heap, answer)) ∧ ReserveEffect s (memorySize / 64) c.buffers
        (buffersIn heap.mem (afterReserve s (64 * (memorySize / 64)) c.live answer call)) answer
          call := by
  obtain ⟨tail, hstart⟩ := exists_clientInv mem hinit hsize hword.le
  have htrimmed : s + 64 * (memorySize / 64) < 2 ^ 64 := by omega
  obtain ⟨T, hinv⟩ := clientInv_of_reserveRun ⟨tail, hstart⟩ htrimmed hrun
  obtain ⟨heap, answer, T', hcall, -, heffect⟩ := clientInv_reserveCall hinv htrimmed hallowed
  exact ⟨hinv.books.laid _, heap, answer, hcall, heffect⟩

/-- A range of 100 bytes takes two slots, and a block of 64 bytes comes behind it. -/
theorem reservations_buffers_behind : ∃ buddy c heap answer,
    buddyInit 64 4096 330 = some (some buddy) ∧
      Run (reserveStep 4096 (64 * (330 / 64))) ⟨⟨buddy, fun _ => 0⟩, []⟩ c ∧
      c.live = [⟨4224, 10⟩, ⟨4160, 64⟩, ⟨4096, 64⟩] ∧
      c.heap.reserveCall (.unsafeReleaseRange 4100 100) = some (.ok (heap, answer)) ∧
      ReserveEffect 4096 (330 / 64) c.buffers (buffersIn heap.mem
        (afterReserve 4096 (64 * (330 / 64)) c.live answer (.unsafeReleaseRange 4100 100))) answer
        (.unsafeReleaseRange 4100 100) := by
  have hcomputed : ((buddyInit 64 4096 330).bind id).any (fun buddy =>
      (Theory.replay (reserveStep 4096 (64 * (330 / 64))) (fun _ _ => true) ⟨⟨buddy, fun _ => 0⟩, []⟩
        [.reserveRange 4096 100, .api .setLeftBias, .api (.malloc 10)]).any
          fun c => c.live = [⟨4224, 10⟩, ⟨4160, 64⟩, ⟨4096, 64⟩]) = true := by
    decide +kernel
  obtain ⟨buddy, hbuddy, hcalls⟩ := (Option.any_eq_true _ _).mp hcomputed
  have hinit : buddyInit 64 4096 330 = some (some buddy) := by
    obtain ⟨answer, hanswer, hid⟩ := Option.bind_eq_some_iff.mp hbuddy
    rw [hanswer]
    exact congrArg some hid
  obtain ⟨c, hrun, hlive⟩ := RunWhere.exists_of_replay _ hcalls
  have hblocks : c.live = [⟨4224, 10⟩, ⟨4160, 64⟩, ⟨4096, 64⟩] := by simpa using hlive
  obtain ⟨-, heap, answer, hcall, heffect⟩ := reservations_buffers (.unsafeReleaseRange 4100 100) hinit
    (by norm_num) (by norm_num) hrun (by rw [hblocks]; decide)
  exact ⟨buddy, c, heap, answer, hinit, hrun, hblocks, hcall, heffect⟩

end Rpi4Kernel.Mem
