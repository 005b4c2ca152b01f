/-
Module: Rpi4Kernel.Drivers.Gic
Layer: Drivers
Purpose: The distributor of the interrupt controller and the driver's operations on it (`GIC.h`,
  `GIC.cpp`): enabling an interrupt, disabling it, and adding a core to its targets.
Trusted boundary: a one written to the set-enable bank enables an interrupt, a one written to the
  clear-enable bank disables it, and zeros are ignored in both; the other registers are ordinary
  memory. Interrupt numbers and cores are below 1020 and 8, where the arithmetic on them does not wrap
  round.
Main exports: Distributor, GIC400.enableInterrupt, GIC400.disInterrupt, GIC400.assignTarget, GicCall,
  GIC400.run
-/
import Mathlib.Data.BitVec
import Mathlib.Logic.Function.Basic
import Mathlib.Tactic

namespace Rpi4Kernel.Drivers

/-- `GIC_BASE`. -/
def GIC_BASE : BitVec 64 := 0xffff0000FF840000

/-- `GICD_DIST_BASE`. -/
def GICD_DIST_BASE : BitVec 64 := GIC_BASE + 0x00001000

/-- `GICD_ENABLE_IRQ_BASE`: the set-enable bank, `isenable`. -/
def GICD_ENABLE_IRQ_BASE : BitVec 64 := GICD_DIST_BASE + 0x00000100

/-- The clear-enable bank, `icenable` of `gic400_gicd_t`. -/
def GICD_ICENABLE : BitVec 64 := GICD_DIST_BASE + 0x00000180

/-- `GIC_IRQ_TARGET_BASE`. -/
def GIC_IRQ_TARGET_BASE : BitVec 64 := GICD_DIST_BASE + 0x00000800

/-! ### The distributor -/

/-- Which interrupts are enabled, and the registers that are ordinary memory. -/
structure Distributor where
  enabled : ℕ → Bool
  registers : BitVec 64 → BitVec 32

/-- The number of the register at `address` in a bank of 32 registers. -/
def bankWord (bank address : BitVec 64) : Option ℕ :=
  let offset := (address - bank).toNat
  if offset < 0x80 ∧ offset % 4 = 0 then some (offset / 4) else none

namespace Distributor

/-- `MMIO::write(reg, val)`. -/
def write (d : Distributor) (reg : BitVec 64) (val : BitVec 32) : Distributor :=
  match bankWord GICD_ENABLE_IRQ_BASE reg, bankWord GICD_ICENABLE reg with
  | some n, _ =>
    { d with enabled := fun irq => d.enabled irq || (irq / 32 == n && val.getLsbD (irq % 32)) }
  | none, some n =>
    { d with enabled := fun irq => d.enabled irq && !(irq / 32 == n && val.getLsbD (irq % 32)) }
  | none, none => { d with registers := Function.update d.registers reg val }

/-- `MMIO::read(reg)`, for the registers that are ordinary memory. -/
def read (d : Distributor) (reg : BitVec 64) : BitVec 32 := d.registers reg

/-- The register with the target bytes of four interrupts. -/
def targetRegister (irq : ℕ) : BitVec 64 := GIC_IRQ_TARGET_BASE + BitVec.ofNat 64 (4 * (irq / 4))

/-- The core is one of the targets of the interrupt. -/
def targets (d : Distributor) (irq cpu : ℕ) : Bool :=
  (d.registers (targetRegister irq)).getLsbD (irq % 4 * 8 + cpu)

end Distributor

/-! ### The driver -/

namespace GIC400

/-- `enable_interrupt(irq)`. -/
def enableInterrupt (d : Distributor) (irq : ℕ) : Distributor :=
  let n := irq / 32
  let offset := irq % 32
  let enableRegister := GICD_ENABLE_IRQ_BASE + BitVec.ofNat 64 (4 * n)
  d.write enableRegister (1#32 <<< offset)

/-- `dis_interrupt(irq)`. -/
def disInterrupt (d : Distributor) (irq : ℕ) : Distributor :=
  let n := irq / 32
  let offset := irq % 32
  let enableRegister := GICD_ENABLE_IRQ_BASE + BitVec.ofNat 64 (4 * n)
  d.write enableRegister (0#32 <<< offset)

/-- `assign_target(irq, cpu)`. -/
def assignTarget (d : Distributor) (irq cpu : ℕ) : Distributor :=
  let n := irq / 4
  let targetRegister := GIC_IRQ_TARGET_BASE + BitVec.ofNat 64 (4 * n)
  let byteOffset := irq % 4
  let shift := byteOffset * 8 + cpu
  d.write targetRegister (d.read targetRegister ||| 1#32 <<< shift)

end GIC400

/-- A call of the driver. -/
inductive GicCall where
  | enableInterrupt (irq : Fin 1020)
  | disInterrupt (irq : Fin 1020)
  | assignTarget (irq : Fin 1020) (cpu : Fin 8)
deriving DecidableEq, Repr

namespace GicCall

/-- The interrupt that a call is about. -/
def irq : GicCall → Fin 1020
  | .enableInterrupt irq | .disInterrupt irq | .assignTarget irq _ => irq

/-- What a call asks for: that `irq` is enabled, or that it is not. -/
def request (irq : Fin 1020) : GicCall → Option Bool
  | .enableInterrupt i => if i = irq then some true else none
  | .disInterrupt i => if i = irq then some false else none
  | .assignTarget _ _ => none

end GicCall

namespace GIC400

/-- One call. -/
def perform (d : Distributor) : GicCall → Distributor
  | .enableInterrupt irq => enableInterrupt d irq
  | .disInterrupt irq => disInterrupt d irq
  | .assignTarget irq cpu => assignTarget d irq cpu

/-- The calls one after the other. -/
def run (d : Distributor) (calls : List GicCall) : Distributor := calls.foldl perform d

/-- What the last call to enable or disable `irq` asks for. -/
def lastRequest (irq : Fin 1020) (calls : List GicCall) : Option Bool :=
  (calls.filterMap (GicCall.request irq)).getLast?

/-- Two states agree on whether `irq` is enabled, and on its targets. -/
def SameLine (d d' : Distributor) (irq : Fin 1020) : Prop :=
  d.enabled irq = d'.enabled irq ∧ ∀ cpu : Fin 8, d.targets irq cpu = d'.targets irq cpu

/-- Interrupts are tracked one by one through the calls: whether one is enabled is decided by the last
    call to enable or disable it, its targets grow by the cores assigned to it, and no call touches
    another interrupt. -/
structure TracksLines (d : Distributor) (calls : List GicCall) : Prop where
  enabled : ∀ irq : Fin 1020,
    (run d calls).enabled irq = (lastRequest irq calls).getD (d.enabled irq)
  targets : ∀ (irq : Fin 1020) (cpu : Fin 8),
    (run d calls).targets irq cpu = (d.targets irq cpu || decide (.assignTarget irq cpu ∈ calls))
  others : ∀ (before : List GicCall) (call : GicCall), before ++ [call] <+: calls →
    ∀ irq, irq ≠ call.irq → SameLine (run d (before ++ [call])) (run d before) irq

end GIC400

end Rpi4Kernel.Drivers
