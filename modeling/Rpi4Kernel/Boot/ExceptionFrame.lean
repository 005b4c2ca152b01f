/-
Module: Rpi4Kernel.Boot.ExceptionFrame
Layer: Boot
Purpose: The exception entry and exit of `boot/boot.S` (`_kernel_entry`, `_kernel_exit`) as lists of
  instructions over the registers, system registers and memory of one core, and the packed struct
  `CoreContext` (`include/Task.h`) that the interrupt handler overlays on the frame.
Trusted boundary: memory is seen in 64-bit words at word addresses, which is what the instructions
  of the two macros access; the load of a 32-bit register reads the low half of a word, as the core
  runs little-endian.
Main exports: Cpu, Instr, exec, kernelEntry, kernelExit, CoreContext, loadContext, storeContext,
  TaskView, taskView, contextView
-/
import Rpi4Kernel.Theory.WordMemory

namespace Rpi4Kernel.Boot

open Rpi4Kernel.Theory

/-- A 64-bit register or word of memory. -/
abbrev Word := BitVec 64

/-- The general-purpose registers `x0` to `x30`. -/
abbrev Reg := Fin 31

/-- There is a register `x0`. -/
scoped instance neZero_registers : NeZero 31 := ⟨by decide⟩

/-- `lr`, also known as `x30`. -/
def lr : Reg := 30

/-- The system registers that the two macros move. -/
inductive SysReg where
  | elrEl1
  | spsrEl1
  | esrEl1
  | spEl0
  | farEl1
deriving DecidableEq, Repr

/-- Memory, by word address. -/
abbrev Memory := Word → Word

/-- A core in exception level 1: `sp` is `SP_EL1`. -/
structure Cpu where
  x : Reg → Word
  sp : Word
  sys : SysReg → Word
  mem : Memory

/-- The instructions of the two macros. Offsets are relative to `sp`. -/
inductive Instr where
  | subSp (imm : Word)
  | addSp (imm : Word)
  | movSp (d : Reg)
  | stp (r₁ r₂ : Reg) (offset : Word)
  | ldp (r₁ r₂ : Reg) (offset : Word)
  | ldrW (r : Reg) (offset : Word)
  | mrs (d : Reg) (s : SysReg)
  | msr (s : SysReg) (r : Reg)
deriving DecidableEq, Repr

/-- One instruction. -/
def step (c : Cpu) : Instr → Cpu
  | .subSp imm => { c with sp := c.sp - imm }
  | .addSp imm => { c with sp := c.sp + imm }
  | .movSp d => { c with x := Function.update c.x d c.sp }
  | .stp r₁ r₂ offset =>
    { c with
      mem := Function.update (Function.update c.mem (c.sp + offset) (c.x r₁))
        (c.sp + (offset + 8)) (c.x r₂) }
  | .ldp r₁ r₂ offset =>
    { c with
      x := Function.update (Function.update c.x r₁ (c.mem (c.sp + offset)))
        r₂ (c.mem (c.sp + (offset + 8))) }
  | .ldrW r offset =>
    { c with x := Function.update c.x r (((c.mem (c.sp + offset)).setWidth 32).setWidth 64) }
  | .mrs d s => { c with x := Function.update c.x d (c.sys s) }
  | .msr s r => { c with sys := Function.update c.sys s (c.x r) }

/-- A straight run of instructions. -/
def exec (instrs : List Instr) (c : Cpu) : Cpu := instrs.foldl step c

/-- `_kernel_entry`. -/
def kernelEntry : List Instr :=
  [ .subSp (16 * 18),
    .stp 0 1 (16 * 0),
    .stp 2 3 (16 * 1),
    .stp 4 5 (16 * 2),
    .stp 6 7 (16 * 3),
    .stp 8 9 (16 * 4),
    .stp 10 11 (16 * 5),
    .stp 12 13 (16 * 6),
    .stp 14 15 (16 * 7),
    .stp 16 17 (16 * 8),
    .stp 18 19 (16 * 9),
    .stp 20 21 (16 * 10),
    .stp 22 23 (16 * 11),
    .stp 24 25 (16 * 12),
    .stp 26 27 (16 * 13),
    .stp 28 29 (16 * 14),
    .mrs 1 .elrEl1,
    .mrs 2 .spsrEl1,
    .mrs 3 .esrEl1,
    .stp lr 1 (16 * 15),
    .stp 2 3 (16 * 16),
    .mrs 1 .spEl0,
    .mrs 2 .farEl1,
    .stp 1 2 (16 * 17),
    .movSp 0 ]

/-- `_kernel_exit` up to its final `eret`. -/
def kernelExit : List Instr :=
  [ .ldrW 19 (16 * 16),
    .ldp lr 20 (16 * 15),
    .msr .spsrEl1 19,
    .msr .elrEl1 20,
    .ldp 0 1 (16 * 0),
    .ldp 2 3 (16 * 1),
    .ldp 4 5 (16 * 2),
    .ldp 6 7 (16 * 3),
    .ldp 8 9 (16 * 4),
    .ldp 10 11 (16 * 5),
    .ldp 12 13 (16 * 6),
    .ldp 14 15 (16 * 7),
    .ldp 16 17 (16 * 8),
    .ldp 18 19 (16 * 9),
    .ldp 20 21 (16 * 10),
    .ldp 22 23 (16 * 11),
    .ldp 24 25 (16 * 12),
    .ldp 26 27 (16 * 13),
    .ldp 28 29 (16 * 17),
    .msr .spEl0 28,
    .ldp 28 29 (16 * 14),
    .addSp (16 * 18) ]

/-! ### The packed struct on the frame -/

/-- `struct CoreContext`. -/
structure CoreContext where
  gpr : Fin 30 → Word
  lr : Word
  elrEl1 : Word
  sprsEl1 : Word
  esrEl1 : Word
  spEl0 : Word
  farEl1 : Word

/-- The words of a `CoreContext` in the order of its fields: the struct is packed, so the word at
    position `k` lies at offset `8 * k`. -/
def CoreContext.words (ctx : CoreContext) : List Word :=
  List.ofFn ctx.gpr ++ [ctx.lr, ctx.elrEl1, ctx.sprsEl1, ctx.esrEl1, ctx.spEl0, ctx.farEl1]

/-- The `CoreContext` at an address. -/
def loadContext (mem : Memory) (addr : Word) : CoreContext where
  gpr i := mem (slot addr i)
  lr := mem (slot addr 30)
  elrEl1 := mem (slot addr 31)
  sprsEl1 := mem (slot addr 32)
  esrEl1 := mem (slot addr 33)
  spEl0 := mem (slot addr 34)
  farEl1 := mem (slot addr 35)

/-- Memory with a `CoreContext` written at an address. -/
def storeContext (mem : Memory) (addr : Word) (ctx : CoreContext) : Memory :=
  storeWords mem addr 0 ctx.words

/-! ### What a task sees -/

/-- What a task sees of its core: `x0` to `x30`, the program counter, the saved status and its stack
    pointer. -/
@[ext]
structure TaskView where
  x : Reg → Word
  pc : Word
  status : BitVec 32
  spEl0 : Word

/-- The task that an exception has interrupted, or that `eret` resumes: the program counter is in
    `ELR_EL1`, the status in the low half of `SPSR_EL1`. -/
def taskView (c : Cpu) : TaskView where
  x := c.x
  pc := c.sys .elrEl1
  status := (c.sys .spsrEl1).setWidth 32
  spEl0 := c.sys .spEl0

/-- The task that a saved context describes. -/
def contextView (ctx : CoreContext) : TaskView where
  x r := if h : r.val < 30 then ctx.gpr ⟨r, h⟩ else ctx.lr
  pc := ctx.elrEl1
  status := ctx.sprsEl1.setWidth 32
  spEl0 := ctx.spEl0

end Rpi4Kernel.Boot
