/-
Module: Rpi4Kernel.Boot.CoreStart
Layer: Boot
Purpose: How the kernel brings up cores 1 to 3: `Core::start` (`Core.cpp`) on core 0 stores a function
  into the spin table of the armstub and sends an event; each of the other cores waits in
  `secondary_spin` (`firmware/armstub/armstub8.S`), branches to the function, and goes through
  `init_core` (`asm/functions.S`) from exception level 3 to `initSecondaryCore` at level 1.
Trusted boundary: memory is sequentially consistent in the words of the spin table, which the kernel
  writes through its linear map and the armstub reads without translation; cleaning the cache of a
  word changes nothing then. A core in `initSecondaryCore` does not come back. The set-up of the
  armstub before its test of the core number, and its path for core 0, are left out. Instructions are
  4 bytes each.
Main exports: Symbols, BootInstr, armstub, initCore, BootCore, BootCore.exec, startOps, Bringup,
  BringupEvent, bringupStep, Bringup.Reset
-/
import Rpi4Kernel.Boot.PageTables

namespace Rpi4Kernel.Boot

/-- A core that the kernel starts. -/
inductive SecondaryCore where
  | core1
  | core2
  | core3
deriving DecidableEq, Repr

/-- The number of a core. -/
def SecondaryCore.number : SecondaryCore → BitVec 64
  | .core1 => 1
  | .core2 => 2
  | .core3 => 3

/-- The addresses that the linker chooses. -/
structure Symbols where
  initCore : BitVec 64
  initSecondaryCore : BitVec 64
  cpu0Stack : BitVec 64
  vector : BitVec 64
  idPgDir : BitVec 64
deriving DecidableEq, Repr

/-- `TCR_EL1_VAL`. -/
def tcrEl1Val : BitVec 64 := (2 <<< 30) ||| ((64 - 48) <<< 16) ||| (0 <<< 14) ||| (64 - 48)

/-! ### Instructions -/

/-- The registers that the two routines use. -/
inductive BootReg where
  | x0
  | x1
  | x2
  | x3
  | x4
  | x5
  | x6
deriving DecidableEq, Repr

/-- The system registers that they set, the stack pointers apart. -/
inductive BootSysReg where
  | scrEl3
  | spsrEl3
  | elrEl3
  | cnthctlEl2
  | cntvoffEl2
  | hcrEl2
  | spsrEl2
  | elrEl2
  | vbarEl1
  | ttbr0El1
  | ttbr1El1
  | tcrEl1
  | mairEl1
  | sctlrEl1
deriving DecidableEq, Repr

/-- The instructions, with labels as indices into their routine. -/
inductive BootInstr where
  | mrsMpidr (d : BootReg)
  | mrsCurrentEL (d : BootReg)
  | mrs (d : BootReg) (s : BootSysReg)
  | msr (s : BootSysReg) (r : BootReg)
  /-- `msr s, xzr` -/
  | msrZero (s : BootSysReg)
  /-- `msr sp_el1, r` -/
  | msrSpEl1 (r : BootReg)
  /-- `msr SPSel, #1` -/
  | msrSPSel
  | mov (d : BootReg) (imm : BitVec 64)
  /-- `ldr d, =symbol` -/
  | ldrSymbol (d : BootReg) (symbol : Symbols → BitVec 64)
  /-- `adr d, label` -/
  | adr (d : BootReg) (label : Nat)
  /-- `adr d, spin_cpu0` -/
  | adrSpinCpu0 (d : BootReg)
  | andImm (d r : BootReg) (imm : BitVec 64)
  | orrImm (d r : BootReg) (imm : BitVec 64)
  | lslImm (d r : BootReg) (n : Nat)
  | add (d r₁ r₂ : BootReg)
  /-- `mov sp, r` -/
  | movSp (r : BootReg)
  | cmp (r : BootReg) (imm : BitVec 64)
  | beq (label : Nat)
  | bne (label : Nat)
  | b (label : Nat)
  | cbz (r : BootReg) (label : Nat)
  | wfe
  /-- `ldr d, [r₁, r₂, lsl #3]` -/
  | ldr (d r₁ r₂ : BootReg)
  | isb
  | dsb
  | eret
  | br (r : BootReg)

/-- An instruction that waits for an event. -/
def BootInstr.waits : BootInstr → Bool
  | .wfe => true
  | _ => false

/-- The armstub from the test of the core number on: `secondary_spin` is instruction 4 and `boot_kernel`
    instruction 10; `primary_cpu` is not here. -/
def armstub : List BootInstr :=
  [ .mrsMpidr .x6,
    .andImm .x6 .x6 3,
    .cbz .x6 14,
    .adrSpinCpu0 .x5,
    .wfe,
    .ldr .x4 .x5 .x6,
    .cmp .x4 0,
    .beq 4,
    .mov .x0 0,
    .b 10,
    .mov .x1 0,
    .mov .x2 0,
    .mov .x3 0,
    .br .x4 ]

/-- `init_core`: its two labels `5` are instructions 11 and 35. -/
def initCore : List BootInstr :=
  [ .mrsCurrentEL .x0,
    .andImm .x0 .x0 12,
    .cmp .x0 12,
    .bne 11,
    .mov .x2 0x5b1,
    .msr .scrEl3 .x2,
    .mov .x2 0x3c9,
    .msr .spsrEl3 .x2,
    .adr .x2 11,
    .msr .elrEl3 .x2,
    .eret,
    .cmp .x0 4,
    .beq 35,
    .mrs .x0 .cnthctlEl2,
    .orrImm .x0 .x0 3,
    .msr .cnthctlEl2 .x0,
    .msrZero .cntvoffEl2,
    .mov .x0 (1 <<< 31),
    .orrImm .x0 .x0 (1 <<< 1),
    .msr .hcrEl2 .x0,
    .mrs .x0 .hcrEl2,
    .ldrSymbol .x0 Symbols.vector,
    .msr .vbarEl1 .x0,
    .mrsMpidr .x1,
    .andImm .x1 .x1 3,
    .ldrSymbol .x2 Symbols.cpu0Stack,
    .lslImm .x1 .x1 12,
    .add .x3 .x2 .x1,
    .movSp .x3,
    .msrSpEl1 .x3,
    .mov .x2 0x3c4,
    .msr .spsrEl2 .x2,
    .adr .x2 35,
    .msr .elrEl2 .x2,
    .eret,
    .msrSPSel,
    .ldrSymbol .x0 Symbols.idPgDir,
    .msr .ttbr0El1 .x0,
    .ldrSymbol .x0 fun symbols => highPgDir symbols.idPgDir,
    .msr .ttbr1El1 .x0,
    .mov .x0 tcrEl1Val,
    .msr .tcrEl1 .x0,
    .mov .x0 mairEl1Val,
    .msr .mairEl1 .x0,
    .mov .x0 5,
    .dsb,
    .isb,
    .msr .sctlrEl1 .x0,
    .isb,
    .dsb,
    .mov .x0 0,
    .mov .x1 0,
    .mov .x2 0,
    .mov .x3 0,
    .ldrSymbol .x4 Symbols.initSecondaryCore,
    .br .x4 ]

/-! ### A core -/

/-- Where a core is. -/
inductive BootPlace where
  | armstub (n : Nat)
  | initCore (n : Nat)
  /-- At an address that is in neither of the two routines. -/
  | outside (address : BitVec 64)
deriving DecidableEq, Repr

/-- The registers of a core. `sp n` is `SP_ELn`, and `daif` the four masks. -/
structure BootCore where
  place : BootPlace
  x : BootReg → BitVec 64
  zero : Bool
  el : Nat
  spSel : Bool
  sp : Nat → BitVec 64
  daif : BitVec 4
  sys : BootSysReg → BitVec 64

/-- The address of an instruction of `init_core`. -/
def Symbols.label (symbols : Symbols) (n : Nat) : BitVec 64 :=
  symbols.initCore + BitVec.ofNat 64 (4 * n)

/-- Where a branch to an address goes. -/
def Symbols.place (symbols : Symbols) (address : BitVec 64) : BootPlace :=
  let offset := (address - symbols.initCore).toNat
  if offset % 4 = 0 ∧ offset / 4 < Boot.initCore.length then .initCore (offset / 4)
  else .outside address

/-- The physical address of `spin_cpu0`: the armstub is at address 0. -/
def spinCpu0 : BitVec 64 := 0xd8

/-- The exception level that a system register belongs to. -/
def BootSysReg.level : BootSysReg → Nat
  | .scrEl3 | .spsrEl3 | .elrEl3 => 3
  | .cnthctlEl2 | .cntvoffEl2 | .hcrEl2 | .spsrEl2 | .elrEl2 => 2
  | .vbarEl1 | .ttbr0El1 | .ttbr1El1 | .tcrEl1 | .mairEl1 | .sctlrEl1 => 1

namespace BootPlace

def next : BootPlace → BootPlace
  | .armstub n => .armstub (n + 1)
  | .initCore n => .initCore (n + 1)
  | .outside address => .outside address

/-- A label of the routine. -/
def goTo (label : Nat) : BootPlace → BootPlace
  | .armstub _ => .armstub label
  | .initCore _ => .initCore label
  | .outside address => .outside address

def fetch : BootPlace → Option BootInstr
  | .armstub n => Boot.armstub[n]?
  | .initCore n => Boot.initCore[n]?
  | .outside _ => none

end BootPlace

namespace BootCore

/-- Go on with the next instruction. -/
def next (s : BootCore) : BootCore := { s with place := s.place.next }

/-- Set a register and go on. -/
def setX (s : BootCore) (d : BootReg) (v : BitVec 64) : BootCore :=
  { s.next with x := Function.update s.x d v }

/-- Set a system register of this exception level or a lower one, and go on. -/
def setSys (s : BootCore) (r : BootSysReg) (v : BitVec 64) : Option BootCore :=
  if r.level ≤ s.el then some { s.next with sys := Function.update s.sys r v } else none

/-- Branch to a label of the routine. -/
def goTo (s : BootCore) (label : Nat) : BootCore := { s with place := s.place.goTo label }

/-- An exception return with the saved status and the address in two registers. -/
def exceptionReturn (symbols : Symbols) (s : BootCore) (spsr elr : BootSysReg) : BootCore :=
  { s with
    place := symbols.place (s.sys elr)
    el := (s.sys spsr).toNat >>> 2 % 4
    spSel := (s.sys spsr).getLsbD 0
    daif := (s.sys spsr).extractLsb' 6 4 }

/-- One instruction. An access that its exception level does not allow has no value. `wfe` goes on. -/
def exec (symbols : Symbols) (mpidr : BitVec 64) (mem : BitVec 64 → BitVec 64) (s : BootCore) :
    BootInstr → Option BootCore
  | .mrsMpidr d => some (s.setX d mpidr)
  | .mrsCurrentEL d => some (s.setX d (BitVec.ofNat 64 (4 * s.el)))
  | .mrs d r => if r.level ≤ s.el then some (s.setX d (s.sys r)) else none
  | .msr r d => s.setSys r (s.x d)
  | .msrZero r => s.setSys r 0
  | .msrSpEl1 r => if 2 ≤ s.el then some { s.next with sp := Function.update s.sp 1 (s.x r) } else none
  | .msrSPSel => some { s.next with spSel := true }
  | .mov d imm => some (s.setX d imm)
  | .ldrSymbol d symbol => some (s.setX d (symbol symbols))
  | .adr d label => some (s.setX d (symbols.label label))
  | .adrSpinCpu0 d => some (s.setX d spinCpu0)
  | .andImm d r imm => some (s.setX d (s.x r &&& imm))
  | .orrImm d r imm => some (s.setX d (s.x r ||| imm))
  | .lslImm d r n => some (s.setX d (s.x r <<< n))
  | .add d r₁ r₂ => some (s.setX d (s.x r₁ + s.x r₂))
  | .movSp r =>
    some { s.next with sp := Function.update s.sp (if s.spSel then s.el else 0) (s.x r) }
  | .cmp r imm => some { s.next with zero := s.x r == imm }
  | .beq label => some (if s.zero then s.goTo label else s.next)
  | .bne label => some (if s.zero then s.next else s.goTo label)
  | .b label => some (s.goTo label)
  | .cbz r label => some (if s.x r = 0 then s.goTo label else s.next)
  | .ldr d r₁ r₂ => some (s.setX d (mem (s.x r₁ + s.x r₂ <<< 3)))
  | .wfe | .isb | .dsb => some s.next
  | .eret =>
    if s.el = 3 then some (s.exceptionReturn symbols .spsrEl3 .elrEl3)
    else if s.el = 2 then some (s.exceptionReturn symbols .spsrEl2 .elrEl2)
    else none
  | .br r => some { s with place := symbols.place (s.x r) }

end BootCore

/-! ### `Core::start` -/

/-- What `Core::start` does on core 0. -/
inductive StartOp where
  | store64 (address value : BitVec 64)
  /-- `dc civac` -/
  | cleanCache (address : BitVec 64)
  | sev
deriving DecidableEq, Repr

/-- One case of the switch of `Core::start`. -/
def startOpsAt (address func : BitVec 64) : List StartOp :=
  [.store64 address func, .cleanCache address, .sev]

/-- `Core::start`. -/
def startOps (core : BitVec 32) (func : BitVec 64) : List StartOp :=
  if core < 1 ∨ 3 < core then []
  else if core = 1 then startOpsAt 0xffff0000000000E0 func
  else if core = 2 then startOpsAt 0xffff0000000000E8 func
  else startOpsAt 0xffff0000000000F0 func

/-! ### The four cores -/

/-- The memory by physical address, the event registers and the cores, and what is left of the call of
    `Core::start` that core 0 is in. `called` and `sent` are read by no step: they record the cores
    for which `Core::start` has been called, and those for which it has sent its event. -/
structure Bringup where
  mem : BitVec 64 → BitVec 64
  event : SecondaryCore → Bool
  core : SecondaryCore → BootCore
  calling : BitVec 32
  pending : List StartOp
  called : List (BitVec 32)
  sent : List (BitVec 32)

/-- What can happen next. -/
inductive BringupEvent where
  /-- Core 0 calls `Core::start`. -/
  | start (core : BitVec 32) (func : BitVec 64)
  /-- Core 0 goes on inside the call. -/
  | bootCore
  | proceed (core : SecondaryCore)
  /-- Something else sends an event to the core. -/
  | sendEvent (core : SecondaryCore)
deriving DecidableEq, Repr

namespace Bringup

/-- Core 0 does the next thing of `Core::start`. The linear map takes its addresses to physical ones. -/
def boot (s : Bringup) : Option Bringup :=
  match s.pending with
  | [] => none
  | .store64 address value :: rest =>
    some { s with mem := Function.update s.mem (address - linearMapBase) value, pending := rest }
  | .cleanCache _ :: rest => some { s with pending := rest }
  | .sev :: rest => some { s with event := fun _ => true, pending := rest, sent := s.calling :: s.sent }

/-- One of the other cores executes an instruction. At `wfe` it goes on if an event is held for it. -/
def proceed (symbols : Symbols) (mpidr : SecondaryCore → BitVec 64) (s : Bringup) (c : SecondaryCore) :
    Option Bringup :=
  match (s.core c).place.fetch with
  | none => none
  | some instr =>
    if instr.waits && !s.event c then none
    else
      ((s.core c).exec symbols (mpidr c) s.mem instr).map fun core =>
        { s with
          core := Function.update s.core c core
          event := if instr.waits then Function.update s.event c false else s.event }

/-- The cores have been reset: the armstub is at its test of the core number, at exception level 3,
    and the spin table is empty. -/
structure Reset (s : Bringup) : Prop where
  table : ∀ c : SecondaryCore, s.mem (spinCpu0 + c.number <<< 3) = 0
  place : ∀ c, (s.core c).place = .armstub 0
  el : ∀ c, (s.core c).el = 3
  notCalled : s.called = []
  notSent : s.sent = []
  idle : s.pending = []

end Bringup

/-- A step of the four cores. -/
def bringupStep (symbols : Symbols) (mpidr : SecondaryCore → BitVec 64) (s : Bringup) :
    BringupEvent → Option Bringup
  | .start core func =>
    if s.pending = [] then
      some { s with calling := core, pending := startOps core func, called := core :: s.called }
    else none
  | .bootCore => s.boot
  | .proceed c => s.proceed symbols mpidr c
  | .sendEvent c => some { s with event := Function.update s.event c true }

end Rpi4Kernel.Boot
