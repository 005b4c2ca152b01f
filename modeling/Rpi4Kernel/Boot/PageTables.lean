/-
Module: Rpi4Kernel.Boot.PageTables
Layer: Boot
Purpose: The page tables that `boot.S` sets up before the MMU is switched on (`memzero`,
  `create_table_entry`, `create_block_map`, `map_identity`, `map_high`, with the constants of `MMU.h`),
  instruction by instruction on the registers they use.
Trusted boundary: memory is a function from addresses to words of 8 bytes; all stores here are aligned.
Main exports: memzero, createTableEntry, createBlockMap, mapIdentity, mapHigh
-/
import Mathlib.Logic.Function.Basic
import Rpi4Kernel.Boot.ExceptionFrame

namespace Rpi4Kernel.Boot

/-! ### `MMU.h` -/

/-- `LINEAR_MAP_BASE`. -/
def linearMapBase : BitVec 64 := 0xffff000000000000

/-- `MATTR_DEVICE_nGnRnE` and its index. -/
def mattrDevice : BitVec 64 := 0x0
def mattrDeviceIndex : BitVec 64 := 0

/-- `MATTR_NORMAL_NC` and its index. -/
def mattrNormal : BitVec 64 := 0xFF
def mattrNormalIndex : BitVec 64 := 1

/-- `MAIR_EL1_VAL`. -/
def mairEl1Val : BitVec 64 :=
  (mattrNormal <<< (8 * mattrNormalIndex)) ||| (mattrDevice <<< (8 * mattrDeviceIndex))

/-- `TD_VALID`, `TD_BLOCK`, `TD_TABLE`, `TD_ACCESS`, `TD_KERNEL_PERMS` and `TD_OUTER_SHARABLE`. -/
def tdValid : BitVec 64 := 1 <<< 0
def tdBlock : BitVec 64 := 0 <<< 1
def tdTable : BitVec 64 := 1 <<< 1
def tdAccess : BitVec 64 := 1 <<< 10
def tdKernelPerms : BitVec 64 := 1 <<< 54
def tdOuterSharable : BitVec 64 := 3 <<< 8

/-- `TD_KERNEL_TABLE_FLAGS`. -/
def tdKernelTableFlags : BitVec 64 := tdTable ||| tdValid

/-- `TD_KERNEL_BLOCK_FLAGS`. -/
def tdKernelBlockFlags : BitVec 64 :=
  tdAccess ||| tdOuterSharable ||| tdKernelPerms ||| (mattrNormalIndex <<< 2) ||| tdBlock ||| tdValid

/-- `TD_DEVICE_BLOCK_FLAGS`. -/
def tdDeviceBlockFlags : BitVec 64 :=
  tdAccess ||| tdOuterSharable ||| tdKernelPerms ||| (mattrDeviceIndex <<< 2) ||| tdBlock ||| tdValid

/-- `PAGE_SHIFT`, `TABLE_SHIFT` and the shifts of the levels. -/
def pageShift : Nat := 12
def tableShift : Nat := 9
def sectionShift : Nat := pageShift + tableShift
def pudShift : Nat := pageShift + 2 * tableShift
def pgdShift : Nat := pageShift + 3 * tableShift

/-- `PAGE_SIZE`, `SECTION_SIZE` and `PUD_ENTRY_MAP_SIZE`. -/
def pageSize : BitVec 64 := 1 <<< pageShift
def sectionSize : BitVec 64 := 1 <<< sectionShift
def pudEntryMapSize : BitVec 64 := 1 <<< pudShift

/-- `ENTRIES_PER_TABLE`. -/
def entriesPerTable : BitVec 64 := 512

/-- `ID_MAP_TABLE_SIZE`, `HIGH_MAP_TABLE_SIZE` and `ID_MAP_SIZE`. -/
def idMapTableSize : BitVec 64 := 3 * pageSize
def highMapTableSize : BitVec 64 := 6 * pageSize
def idMapSize : BitVec 64 := 8 * sectionSize

/-- `FIRST_START` to `DEVICE_END`; the bounds of the high map are these and `LINEAR_MAP_BASE`. -/
def firstStart : BitVec 64 := 0x0
def firstEnd : BitVec 64 := 0x3F400000
def secondStart : BitVec 64 := 0x40000000
def secondEnd : BitVec 64 := 0x80000000
def thirdStart : BitVec 64 := 0x80000000
def thirdEnd : BitVec 64 := 0xC0000000
def fourthStart : BitVec 64 := 0xC0000000
def fourthEnd : BitVec 64 := 0xFC000000
def deviceStart : BitVec 64 := 0xFC000000
def deviceEnd : BitVec 64 := 0x100000000

/-! ### Macros and subroutines -/

/-- `memzero`: stores zeros from `x0` on until the count `x1`, 8 less each time, is not positive. -/
def memzero : Nat → Memory → BitVec 64 → BitVec 64 → Option Memory
  | 0, _, _, _ => none
  | fuel + 1, mem, x0, x1 =>
    let mem := Function.update mem x0 0
    let x0 := x0 + 8
    -- `b.gt` after `subs x1, x1, #8`
    if (8 : BitVec 64).slt x1 then memzero fuel mem x0 (x1 - 8) else some mem

/-- `create_table_entry`. -/
def createTableEntry (mem : Memory) (tbl ntbl va : BitVec 64) (shift : Nat) (flags : BitVec 64) :
    Memory :=
  let tmp1 := va >>> shift
  let tmp1 := tmp1 &&& (entriesPerTable - 1)
  let tmp2 := ntbl
  let tmp2 := tmp2 ||| flags
  Function.update mem (tbl + tmp1 <<< 3) tmp2

/-- The loop of `create_block_map`. -/
def blockLoop : Nat → Memory → (pmd vstart vend pa : BitVec 64) → Option Memory
  | 0, _, _, _, _, _ => none
  | fuel + 1, mem, pmd, vstart, vend, pa =>
    let mem := Function.update mem (pmd + vstart <<< 3) pa
    let pa := pa + sectionSize
    let vstart := vstart + 1
    if vstart.sle vend then blockLoop fuel mem pmd vstart vend pa else some mem

/-- `create_block_map`. -/
def createBlockMap (mem : Memory) (pmd vstart vend pa flags : BitVec 64) : Option Memory :=
  let vstart := vstart >>> sectionShift
  let vstart := vstart &&& (entriesPerTable - 1)
  let vend := vend >>> sectionShift
  let vend := vend - 1
  let vend := vend &&& (entriesPerTable - 1)
  let pa := pa >>> sectionShift
  let pa := pa <<< sectionShift
  let tmp1 := flags
  let pa := pa ||| tmp1
  blockLoop entriesPerTable.toNat mem pmd vstart vend pa

/-! ### The two maps -/

/-- `map_identity`. -/
def mapIdentity (mem : Memory) (idPgDir : BitVec 64) : Option Memory := do
  let x0 := idPgDir
  let x1 := idMapTableSize
  let mem ← memzero x1.toNat mem x0 x1
  let x0 := idPgDir
  let x1 := x0 + pageSize
  let x4 := 0
  let mem := createTableEntry mem x0 x1 x4 pgdShift tdKernelTableFlags
  let x0 := x0 + pageSize
  let x1 := x1 + pageSize
  let mem := createTableEntry mem x0 x1 x4 pudShift tdKernelTableFlags
  let x0 := x1
  let x2 := 0
  let x3 := idMapSize
  let x4 := 0
  createBlockMap mem x0 x2 x3 x4 tdKernelBlockFlags

/-- `map_high`. -/
def mapHigh (mem : Memory) (highPgDir : BitVec 64) : Option Memory := do
  let x0 := highPgDir
  let x1 := highMapTableSize
  let mem ← memzero x1.toNat mem x0 x1
  let x0 := highPgDir
  let x1 := x0 + pageSize
  let x4 := linearMapBase
  let mem := createTableEntry mem x0 x1 x4 pgdShift tdKernelTableFlags
  let x0 := x0 + pageSize
  let x1 := x1 + pageSize
  let x4 := linearMapBase
  let x5 := pudEntryMapSize
  let mem := createTableEntry mem x0 x1 x4 pudShift tdKernelTableFlags
  let x1 := x1 + pageSize
  let x4 := x4 + x5
  let mem := createTableEntry mem x0 x1 x4 pudShift tdKernelTableFlags
  let x1 := x1 + pageSize
  let x4 := x4 + x5
  let mem := createTableEntry mem x0 x1 x4 pudShift tdKernelTableFlags
  let x1 := x1 + pageSize
  let x4 := x4 + x5
  let mem := createTableEntry mem x0 x1 x4 pudShift tdKernelTableFlags
  let x0 := x0 + pageSize
  let mem ← createBlockMap mem x0 (firstStart + linearMapBase) (firstEnd + linearMapBase) firstStart
    tdKernelBlockFlags
  let x0 := x0 + pageSize
  let mem ← createBlockMap mem x0 (secondStart + linearMapBase) (secondEnd + linearMapBase) secondStart
    tdKernelBlockFlags
  let x0 := x0 + pageSize
  let mem ← createBlockMap mem x0 (thirdStart + linearMapBase) (thirdEnd + linearMapBase) thirdStart
    tdKernelBlockFlags
  let x0 := x0 + pageSize
  let mem ← createBlockMap mem x0 (fourthStart + linearMapBase) (fourthEnd + linearMapBase) fourthStart
    tdKernelBlockFlags
  createBlockMap mem x0 (deviceStart + linearMapBase) (deviceEnd + linearMapBase) deviceStart
    tdDeviceBlockFlags

/-- `high_pg_dir`, which follows the three pages of `id_pg_dir`. -/
def highPgDir (idPgDir : BitVec 64) : BitVec 64 := idPgDir + 3 * pageSize

/-- `bl map_identity` and `bl map_high`. -/
def mapTables (mem : Memory) (idPgDir : BitVec 64) : Option Memory := do
  let mem ← mapIdentity mem idPgDir
  mapHigh mem (highPgDir idPgDir)

end Rpi4Kernel.Boot
