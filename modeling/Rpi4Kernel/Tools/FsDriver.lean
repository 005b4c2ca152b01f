/-
Module: Rpi4Kernel.Tools.FsDriver
Layer: Tools
Purpose: The tool that formats a partition with the file system of the kernel
  (`tools/fs_driver/main.c`): it looks for the partition in the master boot record, computes the
  geometry, and writes the superblock, the inode tables, and the first two inodes and blocks.
Trusted boundary: the disk can be opened, and the master boot record is read in full; a position in
  the file has 64 bits. What every later seek, read and write answers is a parameter, and so is the
  value of `lagor_part_start` before the scan, which does not initialise it.
Main exports: PartitionEntry, MasterBootRecord, scanPartitions, SuperBlock, INode, Payload,
  superBlock, requests, toolWrites
-/
import Rpi4Kernel.Theory.FileTrace
import Mathlib.Data.BitVec

namespace Rpi4Kernel.Tools

open Theory (FileOp Outcome Write writes)

/-! ### The master boot record -/

/-- `BOOT_SIGNATURE`. -/
def BOOT_SIGNATURE : BitVec 16 := 0xAA55

/-- `BLOCK_SIZE`. -/
def BLOCK_SIZE : BitVec 32 := 4096

/-- `partition_entry`. -/
structure PartitionEntry where
  type : BitVec 8
  firstLbaSector : BitVec 32
  numSectors : BitVec 32
deriving DecidableEq, Repr

/-- `master_boot_record`. -/
structure MasterBootRecord where
  partitions : Fin 4 → PartitionEntry
  bootSignature : BitVec 16

/-- The loop over the partitions, with `lagor_part_start` before it. -/
def scanPartitions (lagorPartStart : PartitionEntry) : List PartitionEntry → PartitionEntry
  | [] => lagorPartStart
  | entry :: rest =>
    if entry.type = 0 then lagorPartStart
    else if entry.type = 0x31 then scanPartitions entry rest
    else scanPartitions lagorPartStart rest

/-- `lagor_part_start` after the loop. The test of the signature before it only prints a message. -/
def MasterBootRecord.lagorPartStart (mbr : MasterBootRecord) (uninitialised : PartitionEntry) :
    PartitionEntry :=
  scanPartitions uninitialised (List.ofFn mbr.partitions)

/-! ### What is written -/

/-- `SuperBlock`. -/
structure SuperBlock where
  signature : List Char
  inodesTotal : BitVec 32
  blocksTotal : BitVec 32
  inodesFree : BitVec 32
  blocksFree : BitVec 32
  blocksInGroup : BitVec 32
  inodesInGroup : BitVec 32
  inodeSize : BitVec 32
  blockSize : BitVec 32
  totalPools : BitVec 32
deriving DecidableEq, Repr

/-- `FILE`. -/
def FILE : BitVec 8 := 1

/-- `DIR`. -/
def DIR : BitVec 8 := 2

/-- `INode`, with the fields that the tool sets; the others stay 0. -/
structure INode where
  signature : BitVec 32
  type : BitVec 8
  block0 : BitVec 32
  length0 : BitVec 16
  permissions : BitVec 32
  size : BitVec 32
deriving DecidableEq, Repr

/-- `DirEntry`. -/
structure DirEntry where
  signature : BitVec 32
  nameLength : BitVec 16
deriving DecidableEq, Repr

/-- What is handed to `write`. -/
inductive Payload where
  | superBlock (sb : SuperBlock)
  | inode (inode : INode)
  | dirEntry (dir : DirEntry)
  | string (s : List Char)
  | word (n : BitVec 32)
deriving DecidableEq, Repr

/-- `sizeof(DirEntry)`. -/
def sizeofDirEntry : ℕ := 8

/-! ### The geometry -/

/-- `sb->inode_size`. -/
def inodeSize : BitVec 32 := 128

/-- `sb->inodes_in_group`. -/
def inodesInGroup : BitVec 32 := 1024

/-- `block_pool_size`. -/
def blockPoolSize : BitVec 32 := BLOCK_SIZE <<< 12

/-- `inode_table_size`. -/
def inodeTableSize : BitVec 32 := inodeSize * inodesInGroup

/-- `pool_size`. -/
def poolSize : BitVec 32 := inodeTableSize + blockPoolSize

/-- `total_size`. -/
def totalSize (lagorPartStart : PartitionEntry) : BitVec 32 := lagorPartStart.numSectors * 512 - 512

/-- `tot_units`. -/
def totUnits (lagorPartStart : PartitionEntry) : BitVec 32 := totalSize lagorPartStart / poolSize

/-- `*sb`. -/
def superBlock (lagorPartStart : PartitionEntry) : SuperBlock :=
  let totUnits := totUnits lagorPartStart
  let blocksFree := totUnits * blockPoolSize - 2
  { signature := ['L', 'a', 'g', 'o', 'r']
    inodesTotal := inodesInGroup * totUnits
    blocksTotal := blocksFree + 2
    inodesFree := inodesInGroup * totUnits - 3
    blocksFree := blocksFree
    blocksInGroup := blockPoolSize
    inodesInGroup := inodesInGroup
    inodeSize := inodeSize
    blockSize := BLOCK_SIZE
    totalPools := totUnits }

/-! ### The requests -/

/-- `*inode` after `calloc`. -/
def freeInode : INode := ⟨0, 0, 0, 0, 0, 0⟩

/-- `content`. -/
def content : List Char :=
  ['F', 'i', 'r', 's', 't', ' ', 'e', 'v', 'e', 'r', ' ', 'f', 'i', 'l', 'e', '\n']

/-- `root_name`. -/
def rootName : List Char := ['/']

/-- `filename`. -/
def filename : List Char := ['l', 'a', 'g', 'o', 'r', '.', 'c', 'o', 'n', 'f']

/-- The inode of the root directory. -/
def rootInode : INode := ⟨0xEEEE, DIR, 1, 1, 0x777, 4096⟩

/-- The inode of the first file. -/
def fileInode : INode := ⟨0xEEEE, FILE, 2, 1, 0x777, BitVec.ofNat 32 content.length⟩

/-- `*dir` for an entry with the given name. -/
def dirEntry (name : List Char) : DirEntry := ⟨0xDDDD, BitVec.ofNat 16 name.length⟩

/-- `lagor_part_start.first_lba_sector * 512`. -/
def partStart (lagorPartStart : PartitionEntry) : BitVec 32 := lagorPartStart.firstLbaSector * 512

/-- The position of a block, as it is computed for `lseek`. -/
def blockPosition (lagorPartStart : PartitionEntry) (blockNum : BitVec 32) : BitVec 32 :=
  partStart lagorPartStart + (512 + inodeTableSize + blockNum * BLOCK_SIZE)

/-- Up to the superblock. The read is there to print what was on the disk. -/
def superBlockRequests (lagorPartStart : PartitionEntry) : List (FileOp Payload) :=
  [.seekSet (partStart lagorPartStart).toNat, .read 10, .seekSet (partStart lagorPartStart).toNat,
    .write (.superBlock (superBlock lagorPartStart)) 512]

/-- The body of the loop over the pools: an inode table, and the step over the blocks. -/
def poolRequests : List (FileOp Payload) :=
  List.replicate inodesInGroup.toNat (.write (.inode freeInode) inodeSize.toNat) ++
    [.seekCur blockPoolSize.toNat]

/-- The loop over the pools. -/
def tableRequests (lagorPartStart : PartitionEntry) : List (FileOp Payload) :=
  .seekSet (partStart lagorPartStart + 512).toNat ::
    (List.replicate (totUnits lagorPartStart).toNat poolRequests).flatten

/-- The first two inodes. -/
def inodeRequests (lagorPartStart : PartitionEntry) : List (FileOp Payload) :=
  [.seekSet (partStart lagorPartStart + 512).toNat, .write (.inode rootInode) inodeSize.toNat,
    .write (.inode fileInode) inodeSize.toNat]

/-- The blocks 1 and 2. -/
def blockRequests (lagorPartStart : PartitionEntry) : List (FileOp Payload) :=
  [.seekSet (blockPosition lagorPartStart 1).toNat,
    .write (.dirEntry (dirEntry rootName)) sizeofDirEntry,
    .write (.string rootName) rootName.length, .write (.word 1) 4,
    .seekSet (blockPosition lagorPartStart 2).toNat,
    .write (.dirEntry (dirEntry filename)) sizeofDirEntry,
    .write (.string filename) filename.length, .write (.string content) content.length]

/-- All requests of `main` behind the scan. -/
def requests (lagorPartStart : PartitionEntry) : List (FileOp Payload) :=
  superBlockRequests lagorPartStart ++ tableRequests lagorPartStart ++ inodeRequests lagorPartStart ++
    blockRequests lagorPartStart

/-- The writes of the tool to a disk with this master boot record, which is 512 bytes long. The
    results of `lseek` are not looked at. -/
def toolWrites (outcome : Outcome) (mbr : MasterBootRecord) (uninitialised : PartitionEntry) :
    List (Write Payload) :=
  writes outcome 0 512 (requests (mbr.lagorPartStart uninitialised))

end Rpi4Kernel.Tools
