/-
Module: Rpi4Kernel.Proofs.BuddyBuffersSpec
Layer: Proofs
Purpose: What the calls of the buddy allocator mean to a client. It sees buffers, each of them a
  pointer with as many bytes as it has asked for; the calls add, resize and remove buffers, and a
  write changes one byte of one of them. After every history of calls and writes each call answers,
  and does to the buffers what its name says: no other buffer changes, and a buffer that is resized
  keeps its bytes.
Trusted boundary: none (fully proved)
Main exports: Buffers, Effect, BuddyClient, clientStep, Books, ClientInv, clientInv_call,
  clientInv_of_run, buddyApi_buffers
-/
import Rpi4Kernel.Proofs.BuddyApiSpec
import Rpi4Kernel.Proofs.OutOfMemorySpec
import Rpi4Kernel.Theory.Runs

namespace Rpi4Kernel.Mem

open Rpi4Kernel.Theory Rpi4Kernel.Theory.IndexTree

/-! ### Buffers -/

/-- The buffers that a client sees, by their pointers. -/
abbrev Buffers := Nat → Option (List Byte)

/-- The arena of `b` blocks at `s` has an aligned block of the size class of `n` that meets no
    buffer. -/
def Buffers.Room (s b : Nat) (B : Buffers) (n : Nat) : Prop :=
  ∃ ptr, s ≤ ptr ∧ blockSize n ∣ ptr - s ∧ ptr + blockSize n ≤ s + 64 * b ∧
    ∀ p bytes, B p = some bytes → p + blockSize bytes.length ≤ ptr ∨ ptr + blockSize n ≤ p

/-- A new buffer of `n` bytes; or there is no room for it, and the answer is the null pointer. -/
def Buffers.Gets (s b : Nat) (B B' : Buffers) (n : Nat) (filled : List Byte → Prop) : Option Nat → Prop
  | none => B' = B ∧ ¬ B.Room s b n
  | some p => p ≠ 0 ∧ B p = none ∧
    ∃ bytes, bytes.length = n ∧ filled bytes ∧ B' = Function.update B p (some bytes)

/-- A buffer gets the size `n`, at its old place or at a free one, and keeps its bytes; or there is no
    room for it, its own place included, it is left as it is, and the answer is the null pointer. -/
def Buffers.Resizes (s b : Nat) (B B' : Buffers) (ptr n : Nat) : Option Nat → Prop
  | none => B' = B ∧ ¬ Buffers.Room s b (Function.update B ptr none) n
  | some q => q ≠ 0 ∧ (q = ptr ∨ B q = none) ∧ ∃ old bytes, B ptr = some old ∧ bytes.length = n ∧
    bytes.take old.length = old.take n ∧
    B' = Function.update (Function.update B ptr none) q (some bytes)

/-- What `realloc` does: `malloc` for the null pointer, `free` for the size 0. -/
def Buffers.Reallocs (s b : Nat) (B B' : Buffers) (ptr n : Nat) (answer : Option Nat) : Prop :=
  if ptr = 0 then B.Gets s b B' n (fun _ => True) answer
  else if n = 0 then answer = none ∧ B' = Function.update B ptr none
  else B.Resizes s b B' ptr n answer

/-- The buffers lie in the arena, aligned and apart up to the ends of their blocks. -/
structure Buffers.Laid (s b : Nat) (B : Buffers) : Prop where
  inside : ∀ ptr bytes, B ptr = some bytes →
    s ≤ ptr ∧ blockSize bytes.length ∣ ptr - s ∧ ptr + blockSize bytes.length ≤ s + 64 * b
  apart : ∀ p x q y, B p = some x → B q = some y → p ≠ q →
    p + blockSize x.length ≤ q ∨ q + blockSize y.length ≤ p

/-- What each call does to the buffers in an arena of `b` blocks at `s`. -/
def Effect (s b : Nat) (B B' : Buffers) (answer : Option Nat) : BuddyCall → Prop
  | .malloc size => B.Gets s b B' size.toNat (fun _ => True) answer
  | .calloc membersCount memberSize =>
    if membersCount = 0 ∨ memberSize = 0 then B.Gets s b B' 1 (· = [0]) answer
    else if 2 ^ 64 ≤ membersCount.toNat * memberSize.toNat then answer = none ∧ B' = B
    else B.Gets s b B' (membersCount.toNat * memberSize.toNat)
      (· = List.replicate (membersCount.toNat * memberSize.toNat) 0) answer
  | .realloc ptr size => B.Reallocs s b B' ptr size.toNat answer
  | .reallocarray ptr membersCount memberSize =>
    if 2 ^ 64 ≤ membersCount.toNat * memberSize.toNat then answer = none ∧ B' = B
    else B.Reallocs s b B' ptr (membersCount.toNat * memberSize.toNat) answer
  | .free ptr => answer = none ∧ B' = Function.update B ptr none
  | .safeFree ptr size => answer = none ∧ ∃ old, B ptr = some old ∧
    B' = if blockSize size.toNat = blockSize old.length then Function.update B ptr none else B
  | .setLeftBias | .setOptimalFit => answer = none ∧ B' = B
  | .write ptr i v => answer = none ∧ ∃ old, B ptr = some old ∧
    B' = Function.update B ptr (some (old.set i v))

/-! ### Clients -/

/-- A client with the blocks that it has been given: their pointers, and the sizes that it has asked
    for. -/
structure BuddyClient where
  heap : BuddyHeap
  live : List LiveBlock

/-- The live block at a pointer. -/
def liveAt (live : List LiveBlock) (ptr : Nat) : Option LiveBlock :=
  live.find? fun block => block.ptr = ptr

/-- The live blocks but the one at a pointer. -/
def without (live : List LiveBlock) (ptr : Nat) : List LiveBlock :=
  live.filter fun block => block.ptr ≠ ptr

/-- A client passes pointers of live blocks only, and writes inside of them only. -/
def Allowed (live : List LiveBlock) : BuddyCall → Bool
  | .malloc _ | .calloc _ _ | .setLeftBias | .setOptimalFit => true
  | .realloc ptr _ | .reallocarray ptr _ _ => ptr = 0 || (liveAt live ptr).isSome
  | .free ptr | .safeFree ptr _ => (liveAt live ptr).isSome
  | .write ptr i _ => (liveAt live ptr).any fun block => i < block.size

/-- The live blocks after `realloc`. -/
def afterRealloc (live : List LiveBlock) (ptr size : Nat) (answer : Option Nat) : List LiveBlock :=
  if ptr ≠ 0 ∧ size = 0 then without live ptr
  else
    match answer with
    | none => live
    | some q => ⟨q, size⟩ :: without live ptr

/-- How a client keeps its books from the answer of a call. -/
def after (live : List LiveBlock) (answer : Option Nat) : BuddyCall → List LiveBlock
  | .malloc size => afterRealloc live 0 size.toNat answer
  | .calloc membersCount memberSize => afterRealloc live 0
    (if membersCount = 0 ∨ memberSize = 0 then 1 else membersCount.toNat * memberSize.toNat) answer
  | .realloc ptr size => afterRealloc live ptr size.toNat answer
  | .reallocarray ptr membersCount memberSize =>
    afterRealloc live ptr (membersCount.toNat * memberSize.toNat) answer
  | .free ptr => without live ptr
  | .safeFree ptr size =>
    if (liveAt live ptr).any fun block => blockSize size.toNat = blockSize block.size
      then without live ptr
    else live
  | .setLeftBias | .setOptimalFit | .write _ _ _ => live

/-- An allowed call of a client. A call that panics does not return. -/
def clientStep (c : BuddyClient) (call : BuddyCall) : Option BuddyClient :=
  if Allowed c.live call then
    match c.heap.call call with
    | some (.ok (heap, answer)) => some ⟨heap, after c.live answer call⟩
    | _ => none
  else none

/-- The bytes of a block. -/
def bytesAt (mem : ByteMemory) (ptr size : Nat) : List Byte :=
  (List.range size).map fun i => mem (byteAt (BitVec.ofNat 64 ptr) i)

/-- The buffers in the memory. -/
def buffersIn (mem : ByteMemory) (live : List LiveBlock) : Buffers := fun ptr =>
  (liveAt live ptr).map fun block => bytesAt mem ptr block.size

/-- The buffers of a client. -/
def BuddyClient.buffers (c : BuddyClient) : Buffers := buffersIn c.heap.mem c.live

/-! ### The books and the tree -/

/-- The taken nodes are those of the tail past the end of the arena and those of the live blocks. -/
structure Books (s b : Nat) (tail T : Taken (arenaOrder b)) (live : List LiveBlock) : Prop where
  nodes_eq : T.nodes = tail.nodes ∪ (live.map (blockNode s b)).toFinset
  nodup : (live.map (blockNode s b)).Nodup
  apart : ∀ block ∈ live, blockNode s b block ∉ tail.nodes
  placed : ∀ block ∈ live, Placed s b block

section

variable {s b : Nat} {tail T : Taken (arenaOrder b)} {live : List LiveBlock} {block : LiveBlock}

namespace Books

theorem start (tail : Taken (arenaOrder b)) : Books s b tail tail [] where
  nodes_eq := by simp
  nodup := by simp
  apart := by simp
  placed := by simp

theorem mem_nodes (h : Books s b tail T live) (hlive : block ∈ live) :
    blockNode s b block ∈ T.nodes := by
  rw [h.nodes_eq, Finset.mem_union, List.mem_toFinset]
  exact .inr (List.mem_map_of_mem hlive)

theorem tail_subset (h : Books s b tail T live) {j : Nat} (hj : j ∈ tail.nodes) : j ∈ T.nodes := by
  rw [h.nodes_eq]
  exact Finset.mem_union_left _ hj

/-- Two live blocks do not start at the same place. -/
theorem eq_of_ptr (h : Books s b tail T live) {x y : LiveBlock} (hx : x ∈ live) (hy : y ∈ live)
    (hptr : x.ptr = y.ptr) : x = y := by
  have hplacedX := h.placed x hx
  have hplacedY := h.placed y hy
  apply List.inj_on_of_nodup_map h.nodup hx hy
  by_contra hne
  have hapart := slots_disjoint hplacedX.inTree hplacedY.inTree
    (fun hb => hne (T.apart _ (h.mem_nodes hx) _ (h.mem_nodes hy) hb))
    (fun hb => hne (T.apart _ (h.mem_nodes hy) _ (h.mem_nodes hx) hb).symm)
  have hslots : firstSlot (arenaOrder b) (blockNode s b x) =
      firstSlot (arenaOrder b) (blockNode s b y) := by
    have hsame := hptr
    rw [hplacedX.ptr_eq, hplacedY.ptr_eq] at hsame
    omega
  have hcountX := slotCount_pos (arenaOrder b) (blockNode s b x)
  have hcountY := slotCount_pos (arenaOrder b) (blockNode s b y)
  omega

/-- A free node becomes a live block. -/
theorem insert (h : Books s b tail T live) (htail : ∀ x < 2 ^ (arenaOrder b - 1), b ≤ x → tail.Covers x)
    {p size : Nat} (hin : InTree (arenaOrder b) p) (hfree : T.Free p)
    (hclass : blockSize size = 64 * slotCount (arenaOrder b) p) :
    Books s b tail (T.insert p hin hfree) (⟨s + 64 * firstSlot (arenaOrder b) p, size⟩ :: live) := by
  have hnode : blockNode s b ⟨s + 64 * firstSlot (arenaOrder b) p, size⟩ = p := blockNode_eq hin hclass
  have hnew : p ∉ T.nodes := fun hmem => (hfree p hmem).1 (Below.refl p)
  have hinside := hfree.before_tail hin fun x hx hb => by
    obtain ⟨j, hj, hcover⟩ := htail x hx hb
    exact ⟨j, h.tail_subset hj, hcover⟩
  constructor
  · rw [List.map_cons, hnode, List.toFinset_cons, Finset.union_insert, ← h.nodes_eq]
    rfl
  · rw [List.map_cons, hnode, List.nodup_cons]
    refine ⟨fun hmem => hnew ?_, h.nodup⟩
    rw [h.nodes_eq, Finset.mem_union, List.mem_toFinset]
    exact .inr hmem
  · intro x hx
    cases List.mem_cons.mp hx with
    | inl heq =>
      rw [heq, hnode]
      exact fun hmem => hnew (h.tail_subset hmem)
    | inr hx => exact h.apart x hx
  · intro x hx
    cases List.mem_cons.mp hx with
    | inl heq =>
      rw [heq]
      exact ⟨by rw [hnode]; exact hin, by rw [hnode], by rw [hnode]; exact hclass,
        by rw [hnode]; exact hinside⟩
    | inr hx => exact h.placed x hx

theorem mem_without {x : LiveBlock} {ptr : Nat} : x ∈ without live ptr ↔ x ∈ live ∧ x.ptr ≠ ptr := by
  simp [without]

/-- A live block is given back. -/
theorem erase (h : Books s b tail T live) (hlive : block ∈ live) :
    Books s b tail (T.erase (blockNode s b block)) (without live block.ptr) := by
  have hothers : ∀ x ∈ live, x.ptr ≠ block.ptr ↔ blockNode s b x ≠ blockNode s b block := by
    intro x hx
    constructor
    · intro hne heq
      exact hne (by rw [List.inj_on_of_nodup_map h.nodup hx hlive heq])
    · intro hne heq
      exact hne (by rw [h.eq_of_ptr hx hlive heq])
  constructor
  · ext j
    simp only [Taken.erase, Finset.mem_erase, h.nodes_eq, Finset.mem_union, List.mem_toFinset,
      List.mem_map, mem_without]
    constructor
    · intro hj
      obtain ⟨hne, hj⟩ := hj
      cases hj with
      | inl htail => exact .inl htail
      | inr hmem =>
        obtain ⟨x, hx, rfl⟩ := hmem
        exact .inr ⟨x, ⟨hx, (hothers x hx).mpr hne⟩, rfl⟩
    · intro hj
      cases hj with
      | inl htail => exact ⟨fun heq => h.apart block hlive (heq ▸ htail), .inl htail⟩
      | inr hmem =>
        obtain ⟨x, ⟨hx, hne⟩, rfl⟩ := hmem
        exact ⟨(hothers x hx).mp hne, .inr ⟨x, hx, rfl⟩⟩
  · exact h.nodup.sublist (List.filter_sublist.map _)
  · exact fun x hx => h.apart x (mem_without.mp hx).1
  · exact fun x hx => h.placed x (mem_without.mp hx).1

theorem ptr_ne_zero (h : Books s b tail T live) (hs : s ≠ 0) (hlive : block ∈ live) :
    block.ptr ≠ 0 := by
  rw [(h.placed block hlive).ptr_eq]
  omega

theorem without_zero (h : Books s b tail T live) (hs : s ≠ 0) : without live 0 = live := by
  rw [without, List.filter_eq_self]
  intro x hx
  simpa using h.ptr_ne_zero hs hx

end Books

theorem liveAt_some {ptr : Nat} (h : liveAt live ptr = some block) :
    block ∈ live ∧ block.ptr = ptr := by
  have hptr := List.find?_some h
  exact ⟨List.mem_of_find?_eq_some h, by simpa using hptr⟩

theorem liveAt_none {ptr : Nat} : liveAt live ptr = none ↔ ∀ block ∈ live, block.ptr ≠ ptr := by
  simp [liveAt]

/-- The block at the pointer of a live block is the block itself. -/
theorem Books.liveAt_ptr (h : Books s b tail T live) (hlive : block ∈ live) :
    liveAt live block.ptr = some block := by
  cases hfound : liveAt live block.ptr with
  | none => exact absurd rfl (liveAt_none.mp hfound block hlive)
  | some x =>
    obtain ⟨hx, hptr⟩ := liveAt_some hfound
    rw [h.eq_of_ptr hx hlive hptr]

/-! ### Buffers and the books -/

@[simp] theorem length_bytesAt (mem : ByteMemory) (ptr size : Nat) :
    (bytesAt mem ptr size).length = size := by
  simp [bytesAt]

theorem bytesAt_congr {mem mem' : ByteMemory} {ptr ptr' size : Nat}
    (h : ∀ i < size, mem' (byteAt (BitVec.ofNat 64 ptr') i) = mem (byteAt (BitVec.ofNat 64 ptr) i)) :
    bytesAt mem' ptr' size = bytesAt mem ptr size := by
  apply List.map_congr_left
  intro i hi
  exact h i (List.mem_range.mp hi)

theorem take_bytesAt (mem : ByteMemory) (ptr size n : Nat) :
    (bytesAt mem ptr size).take n = bytesAt mem ptr (min n size) := by
  rw [bytesAt, ← List.map_take, List.take_range, bytesAt]

theorem bytesAt_memset (mem : ByteMemory) (ptr : Nat) (v : Byte) (n : BitVec 64) :
    bytesAt (memset mem (BitVec.ofNat 64 ptr) v n) ptr n.toNat = List.replicate n.toNat v := by
  rw [List.eq_replicate_iff]
  constructor
  · exact length_bytesAt ..
  · intro x hx
    obtain ⟨i, hi, rfl⟩ := List.mem_map.mp hx
    exact memset_set (List.mem_range.mp hi)

theorem buffersIn_cons (mem : ByteMemory) (ptr size : Nat) (live : List LiveBlock) :
    buffersIn mem (⟨ptr, size⟩ :: live) =
      Function.update (buffersIn mem live) ptr (some (bytesAt mem ptr size)) := by
  funext p
  cases decEq p ptr with
  | isTrue heq => simp [buffersIn, liveAt, heq]
  | isFalse hne => simp [buffersIn, liveAt, hne, Ne.symm hne]

theorem liveAt_without {p ptr : Nat} (hne : p ≠ ptr) : liveAt (without live ptr) p = liveAt live p := by
  rw [liveAt, without, List.find?_filter, liveAt]
  congr 1
  funext x
  by_cases hx : x.ptr = p <;> simp [hx, hne]

theorem buffersIn_without (mem : ByteMemory) (live : List LiveBlock) (ptr : Nat) :
    buffersIn mem (without live ptr) = Function.update (buffersIn mem live) ptr none := by
  funext p
  cases decEq p ptr with
  | isTrue heq =>
    have hnone : liveAt (without live ptr) ptr = none :=
      liveAt_none.mpr fun x hx => (Books.mem_without.mp hx).2
    simp [buffersIn, heq, hnone]
  | isFalse hne => rw [Function.update_of_ne hne, buffersIn, buffersIn, liveAt_without hne]

/-- Buffers whose bytes have not changed are the same. -/
theorem buffersIn_congr {mem mem' : ByteMemory}
    (h : ∀ block ∈ live, ∀ i < block.size, mem' (byteAt (BitVec.ofNat 64 block.ptr) i) =
      mem (byteAt (BitVec.ofNat 64 block.ptr) i)) : buffersIn mem' live = buffersIn mem live := by
  funext p
  cases hfound : liveAt live p with
  | none => simp [buffersIn, hfound]
  | some x =>
    obtain ⟨hx, hptr⟩ := liveAt_some hfound
    simp only [buffersIn, hfound, Option.map_some]
    rw [← hptr, bytesAt_congr fun i hi => h x hx i hi]

/-! ### Bytes of blocks -/

theorem exists_of_buffersIn {mem : ByteMemory} {ptr : Nat} {bytes : List Byte}
    (hbuffer : buffersIn mem live ptr = some bytes) :
    ∃ block ∈ live, block.ptr = ptr ∧ bytes.length = block.size := by
  obtain ⟨block, hfound, rfl⟩ := Option.map_eq_some_iff.mp hbuffer
  obtain ⟨hlive, hptr⟩ := liveAt_some hfound
  exact ⟨block, hlive, hptr, length_bytesAt ..⟩

theorem Placed.end_le (h : Placed s b block) : block.ptr + blockSize block.size ≤ s + 64 * b := by
  have hinside := h.inside
  rw [h.ptr_eq, h.size_eq]
  omega

theorem Placed.blockSize_pos (h : Placed s b block) : 0 < blockSize block.size := by
  have hcount := slotCount_pos (arenaOrder b) (blockNode s b block)
  rw [h.size_eq]
  omega

/-- The word that holds the pointer of a block. -/
theorem Placed.toNat_ptr (h : Placed s b block) (hword : s + 64 * b ≤ 2 ^ 64) :
    (BitVec.ofNat 64 block.ptr).toNat = block.ptr := by
  have hend := h.end_le
  have hsize := h.blockSize_pos
  rw [BitVec.toNat_ofNat, Nat.mod_eq_of_lt (by omega)]

namespace Books

/-- Two live blocks do not overlap. -/
theorem blocks_apart (h : Books s b tail T live) {x y : LiveBlock} (hx : x ∈ live) (hy : y ∈ live)
    (hne : x.ptr ≠ y.ptr) :
    x.ptr + blockSize x.size ≤ y.ptr ∨ y.ptr + blockSize y.size ≤ x.ptr := by
  have hplacedX := h.placed x hx
  have hplacedY := h.placed y hy
  have hnode : blockNode s b x ≠ blockNode s b y := by
    intro heq
    apply hne
    rw [hplacedX.ptr_eq, hplacedY.ptr_eq, heq]
  have hslots := slots_disjoint hplacedX.inTree hplacedY.inTree
    (fun hb => hnode (T.apart _ (h.mem_nodes hx) _ (h.mem_nodes hy) hb))
    (fun hb => hnode (T.apart _ (h.mem_nodes hy) _ (h.mem_nodes hx) hb).symm)
  rw [hplacedX.ptr_eq, hplacedX.size_eq, hplacedY.ptr_eq, hplacedY.size_eq]
  omega

/-- Two live blocks have no byte in common. -/
theorem byte_ne (h : Books s b tail T live) (hword : s + 64 * b ≤ 2 ^ 64) {x y : LiveBlock}
    (hx : x ∈ live) (hy : y ∈ live) (hne : x.ptr ≠ y.ptr) {i j : Nat} (hi : i < blockSize x.size)
    (hj : j < blockSize y.size) :
    byteAt (BitVec.ofNat 64 x.ptr) i ≠ byteAt (BitVec.ofNat 64 y.ptr) j := by
  have hplacedX := h.placed x hx
  have hplacedY := h.placed y hy
  have hendX := hplacedX.end_le
  have hendY := hplacedY.end_le
  have hapart := h.blocks_apart hx hy hne
  have hptrX := hplacedX.toNat_ptr hword
  have hptrY := hplacedY.toNat_ptr hword
  rw [ne_eq, byteAt_eq_iff (by omega) (by omega), hptrX, hptrY]
  omega

/-- What is written inside of one block leaves the buffers in the other ones as they are. -/
theorem frame (h : Books s b tail T live) (hword : s + 64 * b ≤ 2 ^ 64) (hblock : block ∈ live)
    (mem mem' : ByteMemory)
    (hmem : ∀ a, (∀ i < blockSize block.size, byteAt (BitVec.ofNat 64 block.ptr) i ≠ a) →
      mem' a = mem a) :
    buffersIn mem' (without live block.ptr) = buffersIn mem (without live block.ptr) := by
  apply buffersIn_congr
  intro x hx i hi
  obtain ⟨hxlive, hne⟩ := mem_without.mp hx
  apply hmem
  intro j hj
  exact h.byte_ne hword hblock hxlive hne.symm hj (lt_of_lt_of_le hi (le_blockSize x.size))

/-- The newest block is none of the older ones. -/
theorem without_newest (h : Books s b tail T (block :: live)) : without live block.ptr = live := by
  rw [without, List.filter_eq_self]
  intro x hx
  have hfresh := (List.nodup_cons.mp h.nodup).1
  have hne : x.ptr ≠ block.ptr := by
    intro heq
    apply hfresh
    rw [← h.eq_of_ptr (List.mem_cons_of_mem _ hx) List.mem_cons_self heq]
    exact List.mem_map_of_mem hx
  simpa using hne

/-- A new block leaves the older buffers as they are, whatever is written into it. -/
theorem frame_newest (h : Books s b tail T (block :: live)) (hword : s + 64 * b ≤ 2 ^ 64)
    {mem mem' : ByteMemory}
    (hmem : ∀ a, (∀ i < blockSize block.size, byteAt (BitVec.ofNat 64 block.ptr) i ≠ a) →
      mem' a = mem a) :
    buffersIn mem' live = buffersIn mem live := by
  have hsame : without (block :: live) block.ptr = live := by
    rw [without, List.filter_cons_of_neg (by simp)]
    exact h.without_newest
  have hframe := h.frame hword List.mem_cons_self mem mem' hmem
  rwa [hsame] at hframe

/-- The pointer of a new block is that of no older buffer. -/
theorem buffersIn_newest (h : Books s b tail T (block :: live)) (mem : ByteMemory) :
    buffersIn mem live block.ptr = none := by
  have hnone : liveAt live block.ptr = none := by
    rw [liveAt_none]
    intro x hx
    rw [← h.without_newest] at hx
    exact (mem_without.mp hx).2
  rw [buffersIn, hnone]
  rfl

theorem buffersIn_ptr (h : Books s b tail T live) (hlive : block ∈ live) (mem : ByteMemory) :
    buffersIn mem live block.ptr = some (bytesAt mem block.ptr block.size) := by
  rw [buffersIn, h.liveAt_ptr hlive]
  rfl

/-- The live blocks lie in the arena, aligned and apart. -/
theorem laid (h : Books s b tail T live) (mem : ByteMemory) : (buffersIn mem live).Laid s b where
  inside := by
    intro ptr bytes hbuffer
    obtain ⟨block, hlive, rfl, hlength⟩ := exists_of_buffersIn hbuffer
    have hplaced := h.placed block hlive
    rw [hlength]
    refine ⟨?_, ?_, hplaced.end_le⟩
    · rw [hplaced.ptr_eq]
      exact Nat.le_add_right ..
    · rw [hplaced.ptr_eq, hplaced.size_eq, Nat.add_sub_cancel_left]
      exact Nat.mul_dvd_mul_left 64 (Nat.dvd_mul_left ..)
  apart := by
    intro p x q y hx hy hne
    obtain ⟨block, hlive, rfl, hlength⟩ := exists_of_buffersIn hx
    obtain ⟨block', hlive', rfl, hlength'⟩ := exists_of_buffersIn hy
    rw [hlength, hlength']
    exact h.blocks_apart hlive hlive' hne

/-- Where the buffers have room, the tree has a block. -/
theorem hasBlock (h : Books s b tail T live) {buddy : Buddy} (hgoverns : Governs s b buddy T)
    (hs : s ≠ 0)
    (htail : ∀ x < 2 ^ (arenaOrder b - 1), tail.Covers x ↔ b ≤ x) {mem : ByteMemory} {n : Nat}
    (hroom : (buffersIn mem live).Room s b n) : n ≤ 64 * b ∧ HasBlock T n := by
  obtain ⟨ptr, hstart, haligned, hinside, hapart⟩ := hroom
  have havailable : Available s b live n ptr := by
    apply Available.mk hstart haligned hinside
    intro x hx
    have hbytes := hapart x.ptr _ (h.buffersIn_ptr hx mem)
    rwa [length_bytesAt] at hbytes
  have hinv : HeapInv s b tail ⟨s, 0, some buddy.unbiased, 0⟩ live T :=
    ⟨⟨_, rfl, hgoverns.manages⟩, hs, h.nodes_eq, h.nodup, h.apart, h.placed⟩
  obtain ⟨p, hin, hdepth, hfree⟩ :=
    (free_iff_available hinv htail havailable.size_le).mpr ⟨ptr, havailable⟩
  exact ⟨havailable.size_le, p, hin, hfree,
    blockSize_of_depth hgoverns.arena.blocks_pos havailable.size_le hdepth⟩

end Books

/-! ### The invariant of a client -/

/-- The heap of a client over `b` blocks at `s` holds the taken set `T`, and the client's books are
    right. -/
structure ClientInv (s b : Nat) (tail : Taken (arenaOrder b)) (c : BuddyClient)
    (T : Taken (arenaOrder b)) :
    Prop where
  governs : Governs s b c.heap.buddy T
  books : Books s b tail T c.live
  start_ne_zero : s ≠ 0
  word : s + 64 * b ≤ 2 ^ 64
  tail_covers : ∀ x < 2 ^ (arenaOrder b - 1), tail.Covers x ↔ b ≤ x

/-- A call returns, the invariant holds for what is live after it, and the buffers are as `effect`
    says. -/
def Answers (s b : Nat) (tail : Taken (arenaOrder b))
    (result : Option (Except String (BuddyHeap × Option Nat)))
    (live' : Option Nat → List LiveBlock) (effect : Buffers → Option Nat → Prop) : Prop :=
  ∃ heap answer T, result = some (.ok (heap, answer)) ∧
    ClientInv s b tail ⟨heap, live' answer⟩ T ∧ effect (buffersIn heap.mem (live' answer)) answer

namespace ClientInv

variable {c : BuddyClient} {n : Nat}

/-- A free node becomes a live block of the client. -/
theorem insert (h : ClientInv s b tail c T) {p : Nat} (hin : InTree (arenaOrder b) p) (hfree : T.Free p)
    (hclass : blockSize n = 64 * slotCount (arenaOrder b) p) :
    Books s b tail (T.insert p hin hfree) (⟨s + 64 * firstSlot (arenaOrder b) p, n⟩ :: c.live) :=
  h.books.insert (fun x hx => (h.tail_covers x hx).mpr) hin hfree hclass

/-- A buffer in a new block, whatever is written into the block. -/
theorem gets {ptr : Nat} {T' : Taken (arenaOrder b)} (h : ClientInv s b tail c T)
    (hbooks : Books s b tail T' (⟨ptr, n⟩ :: c.live)) {mem' : ByteMemory} {filled : List Byte → Prop}
    (hfilled : filled (bytesAt mem' ptr n))
    (hmem : ∀ a, (∀ i < blockSize n, byteAt (BitVec.ofNat 64 ptr) i ≠ a) → mem' a = c.heap.mem a) :
    c.buffers.Gets s b (buffersIn mem' (⟨ptr, n⟩ :: c.live)) n filled (some ptr) := by
  refine ⟨hbooks.ptr_ne_zero h.start_ne_zero List.mem_cons_self, hbooks.buffersIn_newest _,
    bytesAt mem' ptr n, length_bytesAt .., hfilled, ?_⟩
  rw [buffersIn_cons, hbooks.frame_newest h.word hmem]
  rfl

/-- No block of the tree, no room for a buffer. -/
theorem not_room (h : ClientInv s b tail c T) (hnone : n ≤ 64 * b → ¬ HasBlock T n) :
    ¬ c.buffers.Room s b n := by
  intro hroom
  obtain ⟨hfits, hblock⟩ := h.books.hasBlock h.governs h.start_ne_zero h.tail_covers hroom
  exact hnone hfits hblock

/-- `buddy_malloc` answers null, or a new block that it has not written to. -/
theorem malloc_cases (h : ClientInv s b tail c T) (size : BitVec 64) :
    (c.heap.malloc size = some (c.heap, none) ∧ ¬ c.buffers.Room s b size.toNat) ∨
      ∃ buddy ptr T', c.heap.malloc size = some (⟨buddy, c.heap.mem⟩, some ptr) ∧ Governs s b buddy T' ∧
        Books s b tail T' (⟨ptr, size.toNat⟩ :: c.live) := by
  cases h.governs.malloc size.toNat with
  | inl hnone =>
    left
    constructor
    · rw [BuddyHeap.malloc, hnone.1]
      rfl
    · exact h.not_room hnone.2
  | inr hsome =>
    right
    obtain ⟨buddy, p, hin, hfree, hclass, hmalloc, hgoverns⟩ := hsome
    refine ⟨buddy, _, _, ?_, hgoverns, h.insert hin hfree hclass⟩
    rw [BuddyHeap.malloc, hmalloc]
    rfl

/-- The books for a new block, where no pointer is given back. -/
theorem afterRealloc_zero (h : ClientInv s b tail c T) (n : Nat) (ptr : Nat) :
    afterRealloc c.live 0 n (some ptr) = ⟨ptr, n⟩ :: c.live := by
  simp [afterRealloc, h.books.without_zero h.start_ne_zero]

theorem malloc (h : ClientInv s b tail c T) (size : BitVec 64) :
    Answers s b tail ((c.heap.malloc size).map .ok) (afterRealloc c.live 0 size.toNat)
      fun B' answer => c.buffers.Gets s b B' size.toNat (fun _ => True) answer := by
  cases h.malloc_cases size with
  | inl hnone =>
    refine ⟨c.heap, none, T, by rw [hnone.1]; rfl, ?_, ?_⟩
    · simpa [afterRealloc] using h
    · simpa [afterRealloc, Buffers.Gets, BuddyClient.buffers] using hnone.2
  | inr hsome =>
    obtain ⟨buddy, ptr, T', hmalloc, hgoverns, hbooks⟩ := hsome
    refine ⟨⟨buddy, c.heap.mem⟩, some ptr, T', by rw [hmalloc]; rfl, ?_, ?_⟩
    · rw [h.afterRealloc_zero]
      exact { h with governs := hgoverns, books := hbooks }
    · rw [h.afterRealloc_zero]
      exact h.gets hbooks trivial fun a _ => rfl

/-- A call that answers null and changes nothing. -/
theorem refused (h : ClientInv s b tail c T) {result : Option (Except String (BuddyHeap × Option Nat))}
    {live' : Option Nat → List LiveBlock} {effect : Buffers → Option Nat → Prop}
    (hresult : result = some (.ok (c.heap, none))) (hlive : live' none = c.live)
    (heffect : effect c.buffers none) : Answers s b tail result live' effect := by
  refine ⟨c.heap, none, T, hresult, ?_, ?_⟩
  · rw [hlive]
    exact h
  · rw [hlive]
    exact heffect

/-- `buddy_calloc` of a product that is not 0. -/
theorem calloc_of_ne_zero (h : ClientInv s b tail c T) (membersCount memberSize : BitVec 64)
    (hzero : ¬ (membersCount = 0 ∨ memberSize = 0)) :
    Answers s b tail ((buddyCalloc c.heap membersCount memberSize).map .ok)
      (afterRealloc c.live 0 (membersCount.toNat * memberSize.toNat)) fun B' answer =>
        if 2 ^ 64 ≤ membersCount.toNat * memberSize.toNat then answer = none ∧ B' = c.buffers
        else c.buffers.Gets s b B' (membersCount.toNat * memberSize.toNat)
          (· = List.replicate (membersCount.toNat * memberSize.toNat) 0) answer := by
  have hoverflows := mul_udiv_ne_iff (k := memberSize) fun hm => hzero (.inl hm)
  simp only [buddyCalloc]
  rw [if_neg hzero]
  rcases Nat.lt_or_ge (membersCount.toNat * memberSize.toNat) (2 ^ 64) with hfits | hlarge
  · have htotal : (membersCount * memberSize).toNat = membersCount.toNat * memberSize.toNat := by
      rw [BitVec.toNat_mul, Nat.mod_eq_of_lt hfits]
    have hcases := h.malloc_cases (membersCount * memberSize)
    simp only [if_neg fun hne => hfits.not_ge (hoverflows.mp hne), if_neg hfits.not_ge]
    rw [htotal] at hcases
    cases hcases with
    | inl hnone =>
      apply h.refused
      · rw [hnone.1]
        rfl
      · rfl
      · exact ⟨rfl, hnone.2⟩
    | inr hsome =>
      obtain ⟨buddy, ptr, T', hmalloc, hgoverns, hbooks⟩ := hsome
      refine ⟨⟨buddy, memset c.heap.mem (BitVec.ofNat 64 ptr) 0 (membersCount * memberSize)⟩,
        some ptr, T',
        by rw [hmalloc]; rfl, ?_, ?_⟩
      · rw [h.afterRealloc_zero]
        exact { h with governs := hgoverns, books := hbooks }
      · rw [h.afterRealloc_zero]
        apply h.gets hbooks
        · rw [← htotal]
          exact bytesAt_memset c.heap.mem ptr 0 _
        · intro a ha
          apply memset_frame
          intro i hi
          rw [htotal] at hi
          exact ha i (lt_of_lt_of_le hi (le_blockSize _))
  · apply h.refused
    · rw [if_pos (hoverflows.mpr hlarge)]
      rfl
    · rfl
    · rw [if_pos hlarge]
      exact ⟨rfl, rfl⟩

/-- `buddy_calloc`. -/
theorem calloc (h : ClientInv s b tail c T) (membersCount memberSize : BitVec 64) :
    Answers s b tail ((buddyCalloc c.heap membersCount memberSize).map .ok)
      (fun answer => after c.live answer (.calloc membersCount memberSize))
      fun B' answer => Effect s b c.buffers B' answer (.calloc membersCount memberSize) := by
  by_cases hzero : membersCount = 0 ∨ memberSize = 0
  · have hone : buddyCalloc c.heap membersCount memberSize = buddyCalloc c.heap 1 1 := by
      have hnot : ¬ ((1 : BitVec 64) = 0 ∨ (1 : BitVec 64) = 0) := by decide
      simp only [buddyCalloc, if_pos hzero, if_neg hnot]
    have hresult := h.calloc_of_ne_zero 1 1 (by decide)
    simp only [after, Effect, hone, if_pos hzero]
    simpa using hresult
  · have hresult := h.calloc_of_ne_zero _ _ hzero
    simp only [after, Effect, if_neg hzero]
    exact hresult

/-- A buffer in a new block that takes the place of another one, with the bytes of the old one. -/
theorem resizes {block : LiveBlock} (h : ClientInv s b tail c T) (hlive : block ∈ c.live) {ptr : Nat}
    {T' : Taken (arenaOrder b)} (hbooks : Books s b tail T' (⟨ptr, n⟩ :: without c.live block.ptr))
    {mem' : ByteMemory}
    (hmem : ∀ a, (∀ i < blockSize n, byteAt (BitVec.ofNat 64 ptr) i ≠ a) → mem' a = c.heap.mem a)
    (hbytes : ∀ i < n, i < block.size →
      mem' (byteAt (BitVec.ofNat 64 ptr) i) = c.heap.mem (byteAt (BitVec.ofNat 64 block.ptr) i)) :
    c.buffers.Resizes s b (buffersIn mem' (⟨ptr, n⟩ :: without c.live block.ptr)) block.ptr n
    (some ptr) := by
  refine ⟨hbooks.ptr_ne_zero h.start_ne_zero List.mem_cons_self, ?_,
    bytesAt c.heap.mem block.ptr block.size,
    bytesAt mem' ptr n, h.books.buffersIn_ptr hlive _, length_bytesAt .., ?_, ?_⟩
  · cases decEq ptr block.ptr with
    | isTrue heq => exact .inl heq
    | isFalse hne =>
      right
      have hfresh := hbooks.buffersIn_newest c.heap.mem
      rw [buffersIn_without, Function.update_of_ne hne] at hfresh
      exact hfresh
  · rw [length_bytesAt, take_bytesAt, take_bytesAt, Nat.min_comm]
    apply bytesAt_congr
    intro i hi
    exact hbytes i (by omega) (by omega)
  · rw [buffersIn_cons, hbooks.frame_newest h.word hmem, buffersIn_without]
    rfl

/-- Where the tree has no block with one block given back, the buffers have no room without its
    buffer. -/
theorem not_room_without {block : LiveBlock} (h : ClientInv s b tail c T) (hlive : block ∈ c.live)
    (hnone : ¬ HasBlock (T.erase (blockNode s b block)) n) :
    ¬ Buffers.Room s b (Function.update c.buffers block.ptr none) n := by
  have hplaced := h.books.placed block hlive
  have hcount := slotCount_pos (arenaOrder b) (blockNode s b block)
  have hinside := hplaced.inside
  obtain ⟨_, -, hgoverns⟩ := h.governs.free (h.books.mem_nodes hlive) h.start_ne_zero (by omega)
  intro hroom
  rw [BuddyClient.buffers, ← buffersIn_without] at hroom
  exact hnone ((h.books.erase hlive).hasBlock hgoverns h.start_ne_zero h.tail_covers hroom).2

/-- `buddy_realloc` of a live block to a size that is not 0 and fits the arena. -/
theorem move {block : LiveBlock} (h : ClientInv s b tail c T) (hlive : block ∈ c.live) (hn : n ≠ 0)
    (hfits : n ≤ 64 * b) :
    Answers s b tail ((buddyMove c.heap block.ptr n).map .ok) (afterRealloc c.live block.ptr n)
      fun B' answer => c.buffers.Resizes s b B' block.ptr n answer := by
  have hplaced := h.books.placed block hlive
  have hmem := h.books.mem_nodes hlive
  have hlater : ∀ ptr, afterRealloc c.live block.ptr n (some ptr) =
      ⟨ptr, n⟩ :: without c.live block.ptr := by
    intro ptr
    simp [afterRealloc, hn]
  have hinsert : ∀ {q : Nat} (hq : InTree (arenaOrder b) q)
      (hfree : (T.erase (blockNode s b block)).Free q), blockSize n = 64 * slotCount (arenaOrder b) q →
      Books s b tail ((T.erase (blockNode s b block)).insert q hq hfree)
        (⟨s + 64 * firstSlot (arenaOrder b) q, n⟩ :: without c.live block.ptr) := fun hq hfree hclass =>
    (h.books.erase hlive).insert (fun x hx => (h.tail_covers x hx).mpr) hq hfree hclass
  obtain ⟨heap', answer, hmove, hcase⟩ := h.governs.move hmem hfits
  rw [← hplaced.ptr_eq] at hmove
  refine ⟨heap', answer, ?_⟩
  rw [hmove]
  cases hcase with
  | refused hgoverns hfull =>
    refine ⟨T, rfl, ?_, ?_⟩
    · rw [afterRealloc, if_neg fun hand => hn hand.2]
      exact { h with governs := hgoverns }
    · rw [afterRealloc, if_neg fun hand => hn hand.2]
      exact ⟨rfl, h.not_room_without hlive hfull⟩
  | kept hgoverns hclass =>
    have hbooks := hinsert hplaced.inTree (free_erase hmem) hclass
    rw [insert_erase hmem, ← hplaced.ptr_eq] at hbooks
    rw [← hplaced.ptr_eq]
    refine ⟨T, rfl, ?_, ?_⟩
    · rw [hlater]
      exact { h with governs := hgoverns, books := hbooks }
    · rw [hlater]
      exact h.resizes hlive hbooks (fun _ _ => rfl) fun _ _ _ => rfl
  | moved hq hfree hgoverns hclass =>
    rename_i buddy q
    have hbooks := hinsert hq hfree hclass
    have hinside := (hbooks.placed _ List.mem_cons_self).inside
    rw [blockNode_eq hq hclass] at hinside
    have hmoved := h.governs.memmove_blocks h.word hplaced.inTree hq hplaced.inside hinside c.heap.mem
    have hlength : (BitVec.ofNat 64 (movedSize b (blockNode s b block) q)).toNat =
        min (blockSize block.size) (blockSize n) := by
      have hle := h.governs.arena.blocks_le
      have hend := hplaced.inside
      rw [hplaced.size_eq, hclass, BitVec.toNat_ofNat, movedSize, Nat.mod_eq_of_lt (by omega)]
      omega
    refine ⟨(T.erase (blockNode s b block)).insert q hq hfree, rfl, ?_, ?_⟩
    · rw [hlater]
      exact { h with governs := hgoverns, books := hbooks }
    · rw [hlater]
      apply h.resizes hlive hbooks
      · intro a ha
        apply hmoved.frame
        intro i hi
        rw [hlength] at hi
        exact ha i (by omega)
      · intro i hi hi'
        have hsize := le_blockSize n
        have hsize' := le_blockSize block.size
        rw [hplaced.ptr_eq]
        apply hmoved.copied
        rw [hlength]
        omega

/-- `buddy_free` of a live block. -/
theorem free {block : LiveBlock} (h : ClientInv s b tail c T) (hlive : block ∈ c.live) :
    Answers s b tail ((c.heap.free block.ptr).map fun result => result.map fun heap => (heap, none))
      (fun _ => without c.live block.ptr)
      fun B' answer => answer = none ∧ B' = Function.update c.buffers block.ptr none := by
  have hplaced := h.books.placed block hlive
  have hcount := slotCount_pos (arenaOrder b) (blockNode s b block)
  have hinside := hplaced.inside
  obtain ⟨buddy, hfree, hgoverns⟩ := h.governs.free (h.books.mem_nodes hlive) h.start_ne_zero (by omega)
  rw [← hplaced.ptr_eq] at hfree
  refine ⟨⟨buddy, c.heap.mem⟩, none, T.erase (blockNode s b block), ?_, ?_, rfl, buffersIn_without ..⟩
  · rw [BuddyHeap.free, hfree]
    rfl
  · exact { h with governs := hgoverns, books := h.books.erase hlive }

/-- `buddy_safe_free` of a live block. -/
theorem safeFree {block : LiveBlock} (h : ClientInv s b tail c T) (hlive : block ∈ c.live)
    (size : Nat) :
    Answers s b tail
      ((buddySafeFree c.heap.buddy block.ptr size).map
        fun buddy => .ok ({ c.heap with buddy := buddy }, none))
      (fun _ => if blockSize size = blockSize block.size then without c.live block.ptr else c.live)
      fun B' answer => answer = none ∧
        B' = if blockSize size = blockSize block.size then Function.update c.buffers block.ptr none
          else c.buffers := by
  have hplaced := h.books.placed block hlive
  have hcount := slotCount_pos (arenaOrder b) (blockNode s b block)
  have hinside := hplaced.inside
  obtain ⟨buddy, hfree, hgoverns⟩ :=
    h.governs.safeFree (h.books.mem_nodes hlive) h.start_ne_zero (by omega) size
  rw [← hplaced.ptr_eq] at hfree
  rw [← hplaced.size_eq] at hgoverns
  refine ⟨⟨buddy, c.heap.mem⟩, none, _, by rw [hfree]; rfl,
    { h with governs := hgoverns, books := ?_ }, rfl, ?_⟩
  · split
    case isTrue => exact h.books.erase hlive
    case isFalse => exact h.books
  · split
    case isTrue => exact buffersIn_without ..
    case isFalse => rfl

/-- `buddy_realloc`. -/
theorem realloc (h : ClientInv s b tail c T) {ptr : Nat}
    (hptr : ptr = 0 ∨ ∃ block ∈ c.live, block.ptr = ptr)
    (size : BitVec 64) :
    Answers s b tail (buddyRealloc c.heap ptr size) (afterRealloc c.live ptr size.toNat)
      fun B' answer => c.buffers.Reallocs s b B' ptr size.toNat answer := by
  rw [buddyRealloc]
  cases decEq ptr 0 with
  | isTrue heq =>
    simp only [Buffers.Reallocs, heq, if_true]
    exact h.malloc size
  | isFalse hne =>
    obtain ⟨block, hlive, rfl⟩ := hptr.resolve_left hne
    simp only [Buffers.Reallocs, if_neg hne]
    cases decEq size 0 with
    | isTrue heq =>
      have hlater : afterRealloc c.live block.ptr 0 = fun _ => without c.live block.ptr := by
        funext answer
        simp [afterRealloc, hne]
      have hzero : (0 : BitVec 64).toNat = 0 := rfl
      simp only [heq, hzero, if_true, hlater]
      exact h.free hlive
    | isFalse hsize =>
      have hn : size.toNat ≠ 0 := fun hzero => hsize (BitVec.eq_of_toNat_eq hzero)
      simp only [if_neg hsize, if_neg hn]
      rcases Nat.lt_or_ge c.heap.buddy.memorySize size.toNat with hlarge | hfits
      · apply h.refused
        · rw [if_pos hlarge]
        · simp [afterRealloc, hn]
        · refine ⟨rfl, fun hroom => ?_⟩
          obtain ⟨p, hstart, -, hinside, -⟩ := hroom
          have hclass := le_blockSize size.toNat
          rw [h.governs.memorySize_eq] at hlarge
          omega
      · rw [if_neg hfits.not_gt]
        rw [h.governs.memorySize_eq] at hfits
        exact h.move hlive hn hfits

/-- `buddy_reallocarray`. -/
theorem reallocarray (h : ClientInv s b tail c T) {ptr : Nat}
    (hptr : ptr = 0 ∨ ∃ block ∈ c.live, block.ptr = ptr) (membersCount memberSize : BitVec 64) :
    Answers s b tail (buddyReallocarray c.heap ptr membersCount memberSize)
      (fun answer => after c.live answer (.reallocarray ptr membersCount memberSize))
      fun B' answer => Effect s b c.buffers B' answer (.reallocarray ptr membersCount memberSize) := by
  simp only [buddyReallocarray, after, Effect]
  by_cases hzero : membersCount = 0 ∨ memberSize = 0
  · have hproduct : membersCount.toNat * memberSize.toNat = 0 := by
      cases hzero with
      | inl heq => simp [heq]
      | inr heq => simp [heq]
    have hresult := h.realloc hptr 0
    simp only [if_pos hzero, hproduct]
    simpa using hresult
  · have hoverflows := mul_udiv_ne_iff (k := memberSize) fun hm => hzero (.inl hm)
    rw [if_neg hzero]
    rcases Nat.lt_or_ge (membersCount.toNat * memberSize.toNat) (2 ^ 64) with hfits | hlarge
    · have htotal : (membersCount * memberSize).toNat = membersCount.toNat * memberSize.toNat := by
        rw [BitVec.toNat_mul, Nat.mod_eq_of_lt hfits]
      have hresult := h.realloc hptr (membersCount * memberSize)
      simp only [if_neg fun hne => hfits.not_ge (hoverflows.mp hne), if_neg hfits.not_ge]
      rwa [htotal] at hresult
    · apply h.refused
      · rw [if_pos (hoverflows.mpr hlarge)]
      · have hn : membersCount.toNat * memberSize.toNat ≠ 0 := by omega
        simp [afterRealloc, hn]
      · rw [if_pos hlarge]
        exact ⟨rfl, rfl⟩

/-- A write into a live block changes one byte of its buffer. -/
theorem write {block : LiveBlock} (h : ClientInv s b tail c T) (hlive : block ∈ c.live) {i : Nat}
    (hi : i < block.size) (v : Byte) :
    buffersIn (Function.update c.heap.mem (byteAt (BitVec.ofNat 64 block.ptr) i) v) c.live =
      Function.update c.buffers block.ptr
      (some ((bytesAt c.heap.mem block.ptr block.size).set i v)) := by
  have hsplit : ∀ mem, buffersIn mem c.live = Function.update (buffersIn mem (without c.live block.ptr))
      block.ptr (some (bytesAt mem block.ptr block.size)) := by
    intro mem
    rw [buffersIn_without, Function.update_idem, ← h.books.buffersIn_ptr hlive, Function.update_eq_self]
  have hframe := h.books.frame h.word hlive c.heap.mem
    (Function.update c.heap.mem (byteAt (BitVec.ofNat 64 block.ptr) i) v) fun a ha =>
      Function.update_of_ne (ha i (lt_of_lt_of_le hi (le_blockSize _))).symm ..
  have hplaced := h.books.placed block hlive
  have hend := hplaced.end_le
  have hsize := le_blockSize block.size
  have hword := h.word
  have hinjective := byteAt_injectiveBelow (p := BitVec.ofNat 64 block.ptr) (n := block.size)
    (by rw [hplaced.toNat_ptr hword]; omega)
  have hset : bytesAt (Function.update c.heap.mem (byteAt (BitVec.ofNat 64 block.ptr) i) v) block.ptr
    block.size =
      (bytesAt c.heap.mem block.ptr block.size).set i v := by
    apply List.ext_getElem
    · simp
    · intro j hj hj'
      rw [length_bytesAt] at hj
      rw [List.getElem_set]
      simp only [bytesAt, List.getElem_map, List.getElem_range]
      cases decEq i j with
      | isTrue heq => rw [heq, if_pos rfl, Function.update_self]
      | isFalse hne =>
        rw [if_neg hne, Function.update_of_ne]
        intro heq
        exact hne (hinjective j hj i hi heq).symm
  rw [hsplit, hframe, hset, buffersIn_without, Function.update_idem]
  rfl

end ClientInv

/-! ### Runs of a client -/

variable {c c' : BuddyClient} {call : BuddyCall}

theorem exists_of_liveAt {ptr : Nat} (h : (liveAt live ptr).isSome = true) :
    ∃ block ∈ live, block.ptr = ptr := by
  obtain ⟨block, hfound⟩ := Option.isSome_iff_exists.mp h
  exact ⟨block, liveAt_some hfound⟩

/-- Every allowed call returns, keeps the invariant, and does to the buffers what its name says. -/
theorem clientInv_call (h : ClientInv s b tail c T) (hallowed : Allowed c.live call = true) :
    Answers s b tail (c.heap.call call) (fun answer => after c.live answer call)
      fun B' answer => Effect s b c.buffers B' answer call := by
  cases call with
  | malloc size => exact h.malloc size
  | calloc membersCount memberSize => exact h.calloc membersCount memberSize
  | realloc ptr size =>
    have hptr : ptr = 0 ∨ ∃ block ∈ c.live, block.ptr = ptr := by
      cases decEq ptr 0 with
      | isTrue heq => exact .inl heq
      | isFalse hne => exact .inr (exists_of_liveAt (by simpa [Allowed, hne] using hallowed))
    exact h.realloc hptr size
  | reallocarray ptr membersCount memberSize =>
    have hptr : ptr = 0 ∨ ∃ block ∈ c.live, block.ptr = ptr := by
      cases decEq ptr 0 with
      | isTrue heq => exact .inl heq
      | isFalse hne => exact .inr (exists_of_liveAt (by simpa [Allowed, hne] using hallowed))
    exact h.reallocarray hptr membersCount memberSize
  | free ptr =>
    obtain ⟨block, hlive, rfl⟩ := exists_of_liveAt hallowed
    exact h.free hlive
  | safeFree ptr size =>
    obtain ⟨block, hlive, rfl⟩ := exists_of_liveAt hallowed
    have hresult := h.safeFree hlive size.toNat
    simp only [after, Effect, h.books.liveAt_ptr hlive, Option.any_some, decide_eq_true_eq]
    obtain ⟨heap, answer, T', hcall, hinv, hanswer, hbuffers⟩ := hresult
    refine ⟨heap, answer, T', hcall, hinv, hanswer, _, h.books.buffersIn_ptr hlive _, ?_⟩
    rw [length_bytesAt]
    exact hbuffers
  | setLeftBias => exact ⟨_, none, T, rfl, { h with governs := h.governs.setLeftBias }, rfl, rfl⟩
  | setOptimalFit => exact ⟨_, none, T, rfl, { h with governs := h.governs.setOptimalFit }, rfl, rfl⟩
  | write ptr i v =>
    obtain ⟨block, hfound, hi⟩ := (Option.any_eq_true _ _).mp hallowed
    obtain ⟨hlive, rfl⟩ := liveAt_some hfound
    refine ⟨_, none, T, rfl, { h with }, rfl, _, h.books.buffersIn_ptr hlive _, ?_⟩
    exact h.write hlive (by simpa using hi) v

/-- The invariant holds for what every step reaches. -/
theorem clientInv_step (h : ClientInv s b tail c T) (hstep : clientStep c call = some c') :
    ∃ T', ClientInv s b tail c' T' := by
  rw [clientStep] at hstep
  split at hstep
  case isTrue hallowed =>
    obtain ⟨heap, answer, T', hcall, hinv, -⟩ := clientInv_call h hallowed
    rw [hcall] at hstep
    cases hstep
    exact ⟨T', hinv⟩
  case isFalse => cases hstep

/-- The invariant holds for what every run reaches. -/
theorem clientInv_of_run {c₀ : BuddyClient} (h : ∃ T, ClientInv s b tail c₀ T)
    (hrun : Run clientStep c₀ c) :
    ∃ T, ClientInv s b tail c T := by
  apply hrun.invariant h
  intro c call c' hinv _ hstep
  obtain ⟨T, hinv⟩ := hinv
  exact clientInv_step hinv hstep

end

/-- A client of a fresh buddy has the invariant. -/
theorem exists_clientInv {place s memorySize : Nat} {buddy : Buddy} (mem : ByteMemory)
    (hinit : buddyInit place s memorySize = some (some buddy)) (hsize : memorySize ≤ 2 ^ 36)
    (hword : s + memorySize ≤ 2 ^ 64) :
    ∃ tail : Taken (arenaOrder (memorySize / 64)),
      ClientInv s (memorySize / 64) tail ⟨⟨buddy, mem⟩, []⟩ tail := by
  obtain ⟨⟨hplaces, hpos⟩, -⟩ := buddyInit_eq_some.mp hinit
  obtain ⟨tail, hcovers, hfresh⟩ := exists_fresh_taken hpos (by omega)
  exact ⟨tail, {
    governs := .of_manages (hfresh rfl hinit)
    books := .start tail
    start_ne_zero := hplaces.2.1
    word := by omega
    tail_covers := hcovers }⟩

/-- After every history of calls and writes over an arena of up to `2 ^ 36` bytes, every allowed call
    returns and does to the buffers what its name says; it answers null only where there is no room. The
    buffers stay in the arena and apart. -/
theorem buddyApi_buffers {place s memorySize : Nat} {buddy : Buddy} {mem : ByteMemory} {c : BuddyClient}
    (call : BuddyCall) (hinit : buddyInit place s memorySize = some (some buddy))
    (hsize : memorySize ≤ 2 ^ 36) (hword : s + memorySize ≤ 2 ^ 64)
    (hrun : Run clientStep ⟨⟨buddy, mem⟩, []⟩ c) (hallowed : Allowed c.live call = true) :
    c.buffers.Laid s (memorySize / 64) ∧ ∃ heap answer, c.heap.call call = some (.ok (heap, answer)) ∧
      Effect s (memorySize / 64) c.buffers (buffersIn heap.mem (after c.live answer call)) answer
        call := by
  obtain ⟨tail, hstart⟩ := exists_clientInv mem hinit hsize hword
  obtain ⟨T, hinv⟩ := clientInv_of_run ⟨tail, hstart⟩ hrun
  obtain ⟨heap, answer, T', hcall, -, heffect⟩ := clientInv_call hinv hallowed
  exact ⟨hinv.books.laid _, heap, answer, hcall, heffect⟩

/-- A buffer of 16 bytes grows to 100 bytes, over the place of a buffer that was given back and its
    own. -/
theorem buddyApi_buffers_moved : ∃ buddy c heap answer,
    buddyInit 64 4096 192 = some (some buddy) ∧ Run clientStep ⟨⟨buddy, fun _ => 0⟩, []⟩ c ∧
      c.live = [⟨4160, 16⟩] ∧ c.buffers.Laid 4096 (192 / 64) ∧
      c.heap.call (.realloc 4160 100) = some (.ok (heap, answer)) ∧
      Effect 4096 (192 / 64) c.buffers
      (buffersIn heap.mem (after c.live answer (.realloc 4160 100))) answer
        (.realloc 4160 100) := by
  have hcomputed : ((buddyInit 64 4096 192).bind id).any (fun buddy =>
      (Theory.replay clientStep (fun _ _ => true) ⟨⟨buddy, fun _ => 0⟩, []⟩
        [.setLeftBias, .malloc 10, .calloc 2 8, .write 4160 3 7, .free 4096]).any
          fun c => c.live = [⟨4160, 16⟩]) = true := by
    decide +kernel
  obtain ⟨buddy, hbuddy, hcalls⟩ := (Option.any_eq_true _ _).mp hcomputed
  have hinit : buddyInit 64 4096 192 = some (some buddy) := by
    obtain ⟨answer, hanswer, hid⟩ := Option.bind_eq_some_iff.mp hbuddy
    rw [hanswer]
    exact congrArg some hid
  obtain ⟨c, hrun, hlive⟩ := RunWhere.exists_of_replay _ hcalls
  have hblocks : c.live = [⟨4160, 16⟩] := by simpa using hlive
  obtain ⟨hlaid, heap, answer, hcall, heffect⟩ := buddyApi_buffers (.realloc 4160 100) hinit
    (by norm_num) (by norm_num) hrun (by rw [hblocks]; decide)
  exact ⟨buddy, c, heap, answer, hinit, hrun, hblocks, hlaid, hcall, heffect⟩

end Rpi4Kernel.Mem
