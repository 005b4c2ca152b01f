/-
Module: Rpi4Kernel.Proofs.FsDriverSpec
Layer: Proofs
Purpose: Where the formatting tool writes. The inode tables stay in the partition for every size of
  it; the first blocks need 274 sectors, all positions are computed in 32 bits, and a seek that fails
  goes unnoticed. The signature of the disk and the result of the scan are not used, and the
  superblock does not describe the layout.
Trusted boundary: none (fully proved)
Main exports: Inside, requests_fit, MasterBootRecord.foundPartition, toolWrites_inside_iff,
  toolWrites_outside_of_seek, toolWrites_recognised_iff, DescribesLayout, not_describesLayout
-/
import Rpi4Kernel.Tools.FsDriver

namespace Rpi4Kernel.Tools

open Theory

variable {part uninitialised : PartitionEntry} {mbr : MasterBootRecord} {lo hi : ℕ}

/-! ### The geometry -/

/-- The first sector of a partition, in bytes. -/
def PartitionEntry.start (part : PartitionEntry) : ℕ := 512 * part.firstLbaSector.toNat

/-- The size of a partition in bytes. -/
def PartitionEntry.size (part : PartitionEntry) : ℕ := 512 * part.numSectors.toNat

theorem toNat_blockPoolSize : blockPoolSize.toNat = 16777216 := rfl

theorem toNat_poolSize : poolSize.toNat = 131072 + 16777216 := rfl

/-- The positions are computed in 32 bits. -/
theorem toNat_position (part : PartitionEntry) (offset : BitVec 32) :
    (partStart part + offset).toNat = (part.start + offset.toNat) % 2 ^ 32 := by
  have sector : (512 : BitVec 32).toNat = 512 := rfl
  rw [partStart, PartitionEntry.start, BitVec.toNat_add, BitVec.toNat_mul, sector, Nat.mod_add_mod,
    Nat.mul_comm]

theorem toNat_partStart (part : PartitionEntry) : (partStart part).toNat = part.start % 2 ^ 32 := by
  have h := toNat_position part 0
  rwa [add_zero] at h

/-- The pools fit into the partition behind the superblock, whether or not its size wraps round. -/
theorem pools_le (part : PartitionEntry) (hsize : 512 ≤ part.size) :
    (totUnits part).toNat * (131072 + 16777216) ≤ part.size - 512 := by
  have sector : (512 : BitVec 32).toNat = 512 := rfl
  have total : (totalSize part).toNat ≤ part.size - 512 := by
    rw [PartitionEntry.size] at *
    rw [totalSize, BitVec.toNat_sub, BitVec.toNat_mul, sector]
    omega
  have quotient : (totUnits part).toNat = (totalSize part).toNat / poolSize.toNat := BitVec.toNat_udiv
  rw [quotient, ← toNat_poolSize]
  exact (Nat.div_mul_le_self _ _).trans total

/-! ### Inside the partition -/

/-- Every byte of a write lies from `lo` to `hi - 1`. -/
def Inside (lo hi : ℕ) (w : Write Payload) : Prop :=
  ∀ o, w.position ≤ o → o < w.position + w.count → lo ≤ o ∧ o < hi

theorem pool_fits (at_ : Interval) (hfirst : lo ≤ at_.first)
    (hlast : at_.last + (131072 + 16777216) ≤ hi) :
    Fits lo hi at_ poolRequests ∧ at_.first ≤ (shiftAll at_ poolRequests).first ∧
      (shiftAll at_ poolRequests).last ≤ at_.last + (131072 + 16777216) := by
  have table : inodesInGroup.toNat * inodeSize.toNat = 131072 := rfl
  have moved : shiftAll at_ poolRequests =
      ⟨at_.first + blockPoolSize.toNat, at_.last + 131072 + blockPoolSize.toNat⟩ := by
    rw [poolRequests, shiftAll_append, shiftAll_replicate_write, table]
    rfl
  refine ⟨(fits_append at_).mpr ⟨fits_replicate_write _ hfirst (by omega), trivial⟩, ?_⟩
  rw [moved, toNat_blockPoolSize]
  constructor <;> dsimp only <;> omega

/-- With enough sectors, and no position that wraps round, all requests stay in the partition. -/
theorem requests_fit (at_ : Interval) (hstart : part.start + 139776 < 2 ^ 32)
    (hsize : 139810 ≤ part.size) :
    Fits part.start (part.start + part.size) at_ (requests part) := by
  have pools := pools_le part (by omega)
  have start : (partStart part).toNat = part.start := by
    rw [toNat_partStart]
    exact Nat.mod_eq_of_lt (by omega)
  have position (offset : BitVec 32) (hoffset : offset.toNat ≤ 139776) :
      (partStart part + offset).toNat = part.start + offset.toNat := by
    rw [toNat_position]
    exact Nat.mod_eq_of_lt (by omega)
  have tables : (partStart part + 512).toNat = part.start + 512 := position 512 (by decide)
  have block1 : (blockPosition part 1).toNat = part.start + 135680 := position _ (by decide)
  have block2 : (blockPosition part 2).toNat = part.start + 139776 := position _ (by decide)
  have inode : inodeSize.toNat = 128 := rfl
  simp only [requests, fits_append]
  refine ⟨⟨⟨?_, ?_⟩, ?_⟩, ?_⟩
  · simp only [superBlockRequests, Fits, FileOp.shift, start, and_true]
    omega
  · simp only [tableRequests, Fits, FileOp.shift, tables]
    apply fits_repeat pool_fits <;> dsimp only <;> omega
  · simp only [inodeRequests, Fits, FileOp.shift, tables, inode, and_true]
    omega
  · simp only [blockRequests, Fits, FileOp.shift, block1, block2, sizeofDirEntry, rootName,
      filename, content, List.length_cons, List.length_nil, and_true]
    omega

/-! ### What is written when no call fails -/

/-- The superblock is written first. -/
theorem superBlock_mem (k position : ℕ) : ⟨(partStart part).toNat, .superBlock (superBlock part), 512⟩ ∈
    writes allComplete k position (requests part) := by
  simp [requests, superBlockRequests, writes, allComplete]

/-- The second block is written last. -/
theorem block2_mem (part : PartitionEntry) (k position : ℕ) :
    ⟨(blockPosition part 2).toNat, .dirEntry (dirEntry filename), 8⟩ ∈
        writes allComplete k position (requests part) ∧
      ⟨(blockPosition part 2).toNat + 18, .string content, 16⟩ ∈
        writes allComplete k position (requests part) := by
  obtain ⟨k', position', split⟩ := writes_append k position
    (superBlockRequests part ++ tableRequests part ++ inodeRequests part) (blockRequests part)
  rw [requests, split]
  constructor
  · apply List.mem_append_right
    simp [blockRequests, writes, allComplete, sizeofDirEntry]
  · apply List.mem_append_right
    simp [blockRequests, writes, allComplete, sizeofDirEntry, rootName, filename, content]

/-- If all writes are inside whatever the outcomes are, no position has wrapped round, and the second
    block ends in the partition. -/
theorem conditions_of_inside
    (h : ∀ w ∈ writes allComplete 0 512 (requests part), Inside part.start (part.start + part.size) w) :
    part.start + 139776 < 2 ^ 32 ∧ 139810 ≤ part.size := by
  obtain ⟨first, last⟩ := block2_mem part 0 512
  have begins := (h _ (superBlock_mem 0 512) (partStart part).toNat le_rfl (by dsimp only; omega)).1
  have block := (h _ first (blockPosition part 2).toNat le_rfl (by dsimp only; omega)).1
  have ends :=
    (h _ last ((blockPosition part 2).toNat + 33) (by dsimp only; omega) (by dsimp only; omega)).2
  have offset : (512 + inodeTableSize + 2 * BLOCK_SIZE).toNat = 139776 := rfl
  rw [toNat_partStart] at begins
  rw [blockPosition, toNat_position, offset] at block ends
  have bound := Nat.mod_lt part.start (by norm_num : 2 ^ 32 > 0)
  omega

/-! ### The scan -/

/-- The entries before the first empty one. -/
def MasterBootRecord.entries (mbr : MasterBootRecord) : List PartitionEntry :=
  (List.ofFn mbr.partitions).takeWhile fun entry => entry.type ≠ 0

/-- The last entry of type 0x31 before the first empty one. -/
def MasterBootRecord.foundPartition (mbr : MasterBootRecord) : Option PartitionEntry :=
  (mbr.entries.filter fun entry => entry.type = 0x31).getLast?

theorem scanPartitions_eq (uninitialised : PartitionEntry) (entries : List PartitionEntry) :
    scanPartitions uninitialised entries =
      (((entries.takeWhile fun entry => entry.type ≠ 0).filter
        fun entry => entry.type = 0x31).getLast?).getD uninitialised := by
  induction entries generalizing uninitialised with
  | nil => rfl
  | cons entry rest ih =>
    rw [scanPartitions]
    by_cases empty : entry.type = 0
    · rw [if_pos empty, List.takeWhile_cons_of_neg (by simpa using empty)]
      rfl
    · rw [if_neg empty, List.takeWhile_cons_of_pos (by simpa using empty)]
      by_cases lagor : entry.type = 0x31
      · rw [if_pos lagor, List.filter_cons_of_pos (by simpa using lagor), List.getLast?_cons, ih,
          Option.getD_some]
      · rw [if_neg lagor, List.filter_cons_of_neg (by simpa using lagor), ih]

theorem lagorPartStart_of_found (found : mbr.foundPartition = some part) :
    mbr.lagorPartStart uninitialised = part := by
  have scanned := scanPartitions_eq uninitialised (List.ofFn mbr.partitions)
  rw [MasterBootRecord.foundPartition, MasterBootRecord.entries] at found
  rwa [found] at scanned

/-- As long as its seeks succeed, the formatter stays in the partition that its scan finds, whatever
    its calls to read and write answer, exactly when the partition has at least 274 sectors and the
    position of the second block, 139776 bytes behind its start, does not wrap round. -/
theorem toolWrites_inside_iff (mbr : MasterBootRecord) (part uninitialised : PartitionEntry)
    (found : mbr.foundPartition = some part) :
    (∀ outcome : Outcome, outcome.SeeksSucceed → ∀ w ∈ toolWrites outcome mbr uninitialised,
        Inside part.start (part.start + part.size) w) ↔
      part.start + 139776 < 2 ^ 32 ∧ 139810 ≤ part.size := by
  have scanned : mbr.lagorPartStart uninitialised = part := lagorPartStart_of_found found
  simp only [toolWrites, scanned]
  constructor
  · intro h
    exact conditions_of_inside (h allComplete fun _ => rfl)
  · rintro ⟨hstart, hsize⟩ outcome hseeks w hw o hbegin hend
    have bounds := writes_in_range (requests_fit ⟨512, 512⟩ hstart hsize) hseeks le_rfl le_rfl w hw
    omega

/-- If the disk does not let the tool go to its partition, the superblock is written right behind the
    master boot record. -/
theorem toolWrites_outside_of_seek (mbr : MasterBootRecord) (part uninitialised : PartitionEntry)
    (found : mbr.foundPartition = some part) (hstart : 2 ≤ part.firstLbaSector.toNat)
    (outcome : Outcome)
    (hfirst : outcome.seeks 0 = false) (hsecond : outcome.seeks 2 = false) {n : ℕ}
    (hwrite : outcome.transfers 3 512 = some (n + 1)) :
    ∃ w ∈ toolWrites outcome mbr uninitialised, ¬Inside part.start (part.start + part.size) w := by
  have scanned : mbr.lagorPartStart uninitialised = part := lagorPartStart_of_found found
  have read : min ((outcome.transfers 1 10).getD 0) 10 ≤ 10 := min_le_right _ _
  refine ⟨⟨512 + min ((outcome.transfers 1 10).getD 0) 10, .superBlock (superBlock part),
    min (n + 1) 512⟩, ?_, fun inside => ?_⟩
  · simp [toolWrites, scanned, requests, superBlockRequests, writes, hfirst, hsecond, hwrite]
  · have first := (inside _ le_rfl (by dsimp only; omega)).1
    rw [PartitionEntry.start] at first
    dsimp only at first
    omega

/-- A disk whose only partition has 131072 sectors, from sector 2048 on. -/
theorem toolWrites_inside_small :
    (⟨fun i => if i = 0 then ⟨0x31, 2048, 131072⟩
      else ⟨0, 0, 0⟩, 0xAA55⟩ : MasterBootRecord).foundPartition =
        some ⟨0x31, 2048, 131072⟩ ∧
      ∀ outcome : Outcome, outcome.SeeksSucceed →
        ∀ w ∈ toolWrites outcome ⟨fun i => if i = 0 then ⟨0x31, 2048, 131072⟩ else ⟨0, 0, 0⟩, 0xAA55⟩
          ⟨0, 0, 0⟩, Inside (512 * 2048) (512 * 2048 + 512 * 131072) w := by
  constructor
  · decide
  · exact (toolWrites_inside_iff _ ⟨0x31, 2048, 131072⟩ _ (by decide)).mpr (by decide)

/-- A partition that begins 4 GiB behind the start of the disk: its superblock is written to the
    master boot record. -/
theorem toolWrites_outside_far :
    ¬∀ (mbr : MasterBootRecord) (part uninitialised : PartitionEntry), mbr.foundPartition = some part →
      ∀ outcome : Outcome, outcome.SeeksSucceed → ∀ w ∈ toolWrites outcome mbr uninitialised,
        Inside part.start (part.start + part.size) w := by
  intro h
  have inside := h ⟨fun i => if i = 0 then ⟨0x31, 0x800000, 0x100000⟩ else ⟨0, 0, 0⟩, 0xAA55⟩
    ⟨0x31, 0x800000, 0x100000⟩ ⟨0, 0, 0⟩ (by decide) allComplete (fun _ => rfl) _ (superBlock_mem 0 512)
  have first := (inside 0 (by decide) (by decide)).1
  revert first
  decide

/-- The disk is one that the tool is for. -/
def Recognised (mbr : MasterBootRecord) : Prop :=
  mbr.bootSignature = BOOT_SIGNATURE ∧ ∃ entry ∈ mbr.entries, entry.type = 0x31

/-- The tool writes to every disk: a disk that it does not recognise is spared only if there is none. -/
theorem toolWrites_recognised_iff (mbr : MasterBootRecord) (uninitialised : PartitionEntry) :
    (¬Recognised mbr → ∀ outcome, toolWrites outcome mbr uninitialised = []) ↔ Recognised mbr := by
  constructor
  · intro spared
    by_contra unknown
    have nothing := spared unknown allComplete
    have written : _ ∈ toolWrites allComplete mbr uninitialised := superBlock_mem 0 512
    rw [nothing] at written
    cases written
  · intro known unknown
    exact absurd known unknown

/-- Without a partition to be found, the superblock is written where the uninitialised entry says. -/
theorem toolWrites_without_partition (mbr : MasterBootRecord) (uninitialised : PartitionEntry)
    (missing : mbr.foundPartition = none) :
    ⟨uninitialised.start % 2 ^ 32, .superBlock (superBlock uninitialised), 512⟩ ∈
      toolWrites allComplete mbr uninitialised := by
  have scanned := scanPartitions_eq uninitialised (List.ofFn mbr.partitions)
  rw [MasterBootRecord.foundPartition, MasterBootRecord.entries] at missing
  rw [missing, Option.getD_none] at scanned
  rw [toolWrites, MasterBootRecord.lagorPartStart, scanned, ← toNat_partStart]
  exact superBlock_mem 0 512

/-- A disk full of zeros gets a superblock where the uninitialised entry says. -/
theorem toolWrites_blank_disk :
    ¬∀ (mbr : MasterBootRecord) (uninitialised : PartitionEntry), ¬Recognised mbr →
      ∀ outcome, toolWrites outcome mbr uninitialised = [] := by
  intro h
  have nothing := h ⟨fun _ => ⟨0, 0, 0⟩, 0⟩ ⟨7, 11, 13⟩ (fun known => absurd known.1 (by decide))
    allComplete
  have written : _ ∈ toolWrites allComplete ⟨fun _ => ⟨0, 0, 0⟩, 0⟩ ⟨7, 11, 13⟩ := superBlock_mem 0 512
  rw [nothing] at written
  cases written

/-! ### The superblock -/

/-- The writes to a partition when no call fails. -/
def layout (part : PartitionEntry) : List (Write Payload) := writes allComplete 0 512 (requests part)

/-- The inode of a write to this position. -/
def Write.inodeAt (o : ℕ) (w : Write Payload) : Option INode :=
  match w.data with
  | .inode inode => if w.position = o then some inode else none
  | _ => none

/-- The inode written last to this position. -/
def lastInode (trace : List (Write Payload)) (o : ℕ) : Option INode :=
  (trace.filterMap (Write.inodeAt o)).getLast?

/-- The positions of the inodes that are in use in the end. -/
def inodesInUse (trace : List (Write Payload)) : Set ℕ :=
  {o | ∃ inode, lastInode trace o = some inode ∧ inode.type ≠ 0}

/-- The blocks that belong to inodes in use. -/
def blocksInUse (trace : List (Write Payload)) : Set (BitVec 32) :=
  {b | ∃ o inode, lastInode trace o = some inode ∧ inode.type ≠ 0 ∧ inode.block0 = b}

/-- Three kinds of data are laid out: the superblock, inodes, and the contents of blocks. -/
inductive Region where
  | superBlock
  | inodeTable
  | block
deriving DecidableEq, Repr

/-- Where a write belongs. -/
def Payload.region : Payload → Region
  | .superBlock _ => .superBlock
  | .inode _ => .inodeTable
  | .dirEntry _ | .string _ | .word _ => .block

namespace SuperBlock

/-- The size of a pool by the superblock. -/
def poolBytes (sb : SuperBlock) : ℕ :=
  sb.inodesInGroup.toNat * sb.inodeSize.toNat + sb.blocksInGroup.toNat * sb.blockSize.toNat

/-- Where the superblock has inode `i` of pool `p`. -/
def inodePosition (sb : SuperBlock) (start p i : ℕ) : ℕ :=
  start + 512 + p * sb.poolBytes + i * sb.inodeSize.toNat

/-- Where the superblock has block `b` of pool `p`. -/
def blockStart (sb : SuperBlock) (start p b : ℕ) : ℕ :=
  start + 512 + p * sb.poolBytes + sb.inodesInGroup.toNat * sb.inodeSize.toNat + b * sb.blockSize.toNat

end SuperBlock

/-- A superblock describes what was written to a partition. -/
structure DescribesLayout (part : PartitionEntry) (sb : SuperBlock) (trace : List (Write Payload)) :
    Prop where
  fits : 512 + sb.totalPools.toNat * sb.poolBytes ≤ part.size
  inodesTotal : sb.inodesTotal.toNat = sb.totalPools.toNat * sb.inodesInGroup.toNat
  blocksTotal : sb.blocksTotal.toNat = sb.totalPools.toNat * sb.blocksInGroup.toNat
  inodesFree : sb.inodesFree.toNat + (inodesInUse trace).ncard = sb.inodesTotal.toNat
  blocksFree : sb.blocksFree.toNat + (blocksInUse trace).ncard = sb.blocksTotal.toNat
  superBlock : ∀ w ∈ trace, w.data.region = .superBlock → w.position = part.start
  inodes : ∀ o, (∃ w ∈ trace, w.data.region = .inodeTable ∧ w.position = o) ↔
    ∃ p < sb.totalPools.toNat, ∃ i < sb.inodesInGroup.toNat, o = sb.inodePosition part.start p i
  blocks : ∀ w ∈ trace, w.data.region = .block →
    ∃ p < sb.totalPools.toNat, ∃ b < sb.blocksInGroup.toNat,
      sb.blockStart part.start p b ≤ w.position ∧
        w.position + w.count ≤ sb.blockStart part.start p b + sb.blockSize.toNat
  apart : ∀ w ∈ trace, ∀ w' ∈ trace, w.data.region ≠ w'.data.region →
    w.position + w.count ≤ w'.position ∨ w'.position + w'.count ≤ w.position

/-- The requests up to the end of the tables leave all inodes free. -/
theorem free_of_table {o k position : ℕ} {inode : INode}
    (h : lastInode (writes allComplete k position (superBlockRequests part ++ tableRequests part)) o =
      some inode) : inode = freeInode := by
  obtain ⟨w, hw, hinode⟩ := List.mem_filterMap.mp (List.mem_of_getLast? h)
  obtain ⟨size, request⟩ := data_of_mem_writes hw
  obtain ⟨_, data, _⟩ := w
  cases data with
  | inode written =>
    obtain ⟨-, same⟩ := Option.ite_none_right_eq_some.mp hinode
    cases same
    simp [superBlockRequests, tableRequests, poolRequests] at request
    obtain ⟨-, -, rfl, -⟩ := request
    rfl
  | _ => cases hinode

/-- Behind the tables, two inodes are written one after the other. -/
theorem inodes_behind_table (part : PartitionEntry) (k position o : ℕ) :
    (writes allComplete k position (inodeRequests part ++ blockRequests part)).filterMap
    (Write.inodeAt o) =
      if o = (partStart part + 512).toNat then [rootInode]
      else if o = (partStart part + 512).toNat + inodeSize.toNat then [fileInode] else [] := by
  have apart : (partStart part + 512).toNat ≠ (partStart part + 512).toNat + inodeSize.toNat := by
    have : inodeSize.toNat = 128 := rfl
    omega
  simp only [inodeRequests, blockRequests, List.cons_append, List.nil_append, writes,
    allComplete, min_self, List.filterMap_cons, List.filterMap_nil, Write.inodeAt]
  split_ifs with root file <;> simp_all [eq_comm]

/-- The first two inodes are in use in the end, and no others. -/
theorem inodesInUse_layout (part : PartitionEntry) :
    inodesInUse (layout part) =
      {(partStart part + 512).toNat, (partStart part + 512).toNat + inodeSize.toNat} := by
  obtain ⟨k, position, split⟩ := writes_append 0 512 (superBlockRequests part ++ tableRequests part)
    (inodeRequests part ++ blockRequests part)
  have whole : layout part = writes allComplete 0 512 (superBlockRequests part ++ tableRequests part) ++
      writes allComplete k position (inodeRequests part ++ blockRequests part) := by
    rw [← split, layout, requests, List.append_assoc (superBlockRequests part ++ tableRequests part)]
  ext o
  rw [inodesInUse, Set.mem_ofPred_eq, lastInode, whole, List.filterMap_append, inodes_behind_table,
    Set.mem_insert_iff, Set.mem_singleton_iff]
  split_ifs with root file
  · rw [List.getLast?_concat]
    exact iff_of_true ⟨rootInode, rfl, by decide⟩ (.inl root)
  · rw [List.getLast?_concat]
    exact iff_of_true ⟨fileInode, rfl, by decide⟩ (.inr file)
  · rw [List.append_nil]
    apply iff_of_false
    · rintro ⟨inode, hlast, used⟩
      rw [free_of_table hlast] at used
      exact used rfl
    · exact not_or.mpr ⟨root, file⟩

theorem ncard_inodesInUse (part : PartitionEntry) : (inodesInUse (layout part)).ncard = 2 := by
  have : inodeSize.toNat = 128 := rfl
  rw [inodesInUse_layout]
  exact Set.ncard_pair (by omega)

/-- By the superblock the blocks of a pool take 4096 times the room that the tool leaves for them: the
    number of blocks in a pool is given as their number of bytes. -/
theorem poolBytes_superBlock (part : PartitionEntry) :
    (superBlock part).poolBytes = inodeTableSize.toNat + BLOCK_SIZE.toNat * blockPoolSize.toNat := by
  have table : inodesInGroup.toNat * inodeSize.toNat = inodeTableSize.toNat := rfl
  calc (superBlock part).poolBytes
      = inodesInGroup.toNat * inodeSize.toNat + blockPoolSize.toNat * BLOCK_SIZE.toNat := rfl
    _ = inodeTableSize.toNat + BLOCK_SIZE.toNat * blockPoolSize.toNat := by
      rw [table, Nat.mul_comm BLOCK_SIZE.toNat]

/-- The number of free inodes is too small by one, or wraps round if there is no pool. -/
theorem inodesFree_superBlock (part : PartitionEntry) :
    (superBlock part).inodesFree.toNat + 2 ≠ (superBlock part).inodesTotal.toNat := by
  have three : (3 : BitVec 32).toNat = 3 := rfl
  have free : (superBlock part).inodesFree = (superBlock part).inodesTotal - 3 := rfl
  have bound := (superBlock part).inodesTotal.isLt
  rw [free, BitVec.toNat_sub, three]
  omega

/-- The superblock describes the layout of no partition. -/
theorem not_describesLayout (part : PartitionEntry) :
    ¬DescribesLayout part (superBlock part) (layout part) := by
  intro describes
  have free := describes.inodesFree
  rw [ncard_inodesInUse] at free
  exact inodesFree_superBlock part free

/-- In a partition of 131072 sectors there are three pools with 3072 inodes. Two of these are in use,
    and 3069 are said to be free. -/
theorem three_pools_not_described :
    ¬∀ part : PartitionEntry, DescribesLayout part (superBlock part) (layout part) := by
  intro h
  have free := (h ⟨0x31, 2048, 131072⟩).inodesFree
  rw [ncard_inodesInUse] at free
  revert free
  decide

end Rpi4Kernel.Tools
