/-
Module: Rpi4Kernel.Sched.Acknowledge
Layer: Sched
Purpose: The calls of `irq_handler_spx` (`IRQ.cpp`) from the read of `GICC_IAR` to the return: a call
  dispatches on the interrupt number, runs the handler of `Rpi4Kernel.Sched.Handlers` step by step
  where the interrupt is one of the scheduler, and writes `GICC_EOIR` at its end.
Trusted boundary: `GICC_IAR` returns an interrupt number in the bits 0 to 9, and for a
  software-generated interrupt the core that has sent it in the bits 10 to 12. What the other branches
  print, and what they do to their devices, is left out. A call keeps its local variables while the
  task of its core is switched. `returned` is not read by the code: it records what has happened.
Main exports: HandlerCall, Acknowledged, dispatch, AckEvent, ackStep, Acknowledged.Completes,
  sendsToOwnCore, requestedByCore0
-/
import Rpi4Kernel.Sched.Tasks
import Mathlib.Data.BitVec

namespace Rpi4Kernel.Sched

variable {β : Type}

/-! ### Interrupt numbers -/

/-- `SYSTEM_TIMER_IRQ_1`. -/
def SYSTEM_TIMER_IRQ_1 : BitVec 32 := 0x61

/-- `SYSTEM_RESCHEDULE_IRQ`. -/
def SYSTEM_RESCHEDULE_IRQ : BitVec 32 := 2

/-- `SYS_TIMER_IRQ_3`, which is the mask of the timer's channel and not its interrupt number. -/
def SYS_TIMER_IRQ_3 : BitVec 32 := 8

/-- `SYSTEM_WAKEUP_ALL`. -/
def SYSTEM_WAKEUP_ALL : BitVec 32 := 4

/-- `SYSTEM_SLEEP_IRQ`. -/
def SYSTEM_SLEEP_IRQ : BitVec 32 := 3

/-- `SYSTEM_UARTRX_IRQ`. -/
def SYSTEM_UARTRX_IRQ : BitVec 32 := 125

/-- `SYSTEM_HALT_IRQ`. -/
def SYSTEM_HALT_IRQ : BitVec 32 := 1

/-- `SYSTEM_SPOURIOUS_IRQ`. -/
def SYSTEM_SPOURIOUS_IRQ : BitVec 32 := 1023

/-- The interrupt number in a value of `GICC_IAR` or `GICC_EOIR`. -/
def interruptNumber (value : BitVec 32) : BitVec 32 := value &&& 0x3FF

/-- The requesting core in a value of `GICC_IAR` or `GICC_EOIR`. -/
def requestingCore (value : BitVec 32) : BitVec 32 := value >>> 10 &&& 7

/-- The requesting core of a software-generated interrupt, as a core. -/
def sourceOf (value : BitVec 32) : Core := Fin.ofNat 4 (requestingCore value).toNat

/-- The software-generated interrupts of the scheduler by their numbers. -/
def sgiOf (irq : BitVec 32) : Option Sgi :=
  if irq = SYSTEM_RESCHEDULE_IRQ then some .reschedule
  else if irq = SYSTEM_SLEEP_IRQ then some .sleep
  else if irq = SYSTEM_WAKEUP_ALL then some .wakeUpAll
  else none

/-! ### Calls of the handler -/

/-- A call of `irq_handler_spx`: what it has read from `GICC_IAR`, what it has written to `GICC_EOIR`,
    and whether it has come to its end. -/
structure HandlerCall where
  irqAckReg : BitVec 32
  completions : List (BitVec 32)
  ended : Bool
deriving DecidableEq, Repr

/-- `irq`. -/
def HandlerCall.irq (call : HandlerCall) : BitVec 32 := call.irqAckReg &&& 0x3FF

/-- The system with the calls of `irq_handler_spx`. -/
structure Acknowledged (β : Type) where
  system : State β
  /-- The call that is under way on a core. -/
  call : Core → Option HandlerCall
  /-- The calls that have returned, with their cores. -/
  returned : List (Core × HandlerCall)

/-- The system before its first step. -/
def Acknowledged.start (system : State β) : Acknowledged β := ⟨system, fun _ => none, []⟩

namespace State

/-- The interrupt is pending on core `c`, requested by core `source`. -/
def pending (s : State β) (c : Core) (sgi : Sgi) (source : Core) : Bool :=
  match sgi with
  | .reschedule => s.rescheduleIrq c source
  | .sleep => (s.sleepIrq c source).isSome
  | .wakeUpAll => s.wakeUpIrq c source

/-- The switch over `irq`. The handlers of the scheduler begin, with the interrupt of core `source` no
    longer pending; `SYSTEM_HALT_IRQ` hangs the core, and the other branches are done at once. -/
def dispatch (s : State β) (c : Core) (irq : BitVec 32) (source : Core) : Option (State β) :=
  if s.handler c ≠ .none then none
  -- the timer's interrupt is assigned to core 0
  else if irq = SYSTEM_TIMER_IRQ_1 then if c = 0 then takeTimer s else none
  else if irq = SYSTEM_RESCHEDULE_IRQ then takeInterrupt s c .reschedule source
  else if irq = SYS_TIMER_IRQ_3 then some s
  else if irq = SYSTEM_WAKEUP_ALL then takeInterrupt s c .wakeUpAll source
  else if irq = SYSTEM_SLEEP_IRQ then takeInterrupt s c .sleep source
  else if irq = SYSTEM_UARTRX_IRQ then some s
  else if irq = SYSTEM_HALT_IRQ then some (s.setHandler c .halted)
  else if irq = SYSTEM_SPOURIOUS_IRQ then some s
  else some s

end State

namespace Acknowledged

/-- `GICC_IAR` of core `c` can return this value: it has a number, and for a software-generated
    interrupt, which has a number below 16, a core that has sent it. -/
def delivers (s : Acknowledged β) (c : Core) (value : BitVec 32) : Bool :=
  value = interruptNumber value ||| requestingCore value <<< 10 &&
    match sgiOf (interruptNumber value) with
    | some sgi => requestingCore value < 4 && s.system.pending c sgi (sourceOf value)
    | none => if interruptNumber value < 16 then requestingCore value < 4 else requestingCore value = 0

/-- The system with the call of core `c` replaced. -/
def setCall (s : Acknowledged β) (c : Core) (call : Option HandlerCall) : Acknowledged β :=
  { s with call := Function.update s.call c call }

end Acknowledged

/-! ### Steps -/

/-- What can happen next, with what the step reads from outside. -/
inductive AckEvent (β : Type) where
  /-- Core `c` takes an interrupt and reads `GICC_IAR`. -/
  | acknowledge (c : Core) (irqAckReg : BitVec 32)
  | handle (c : Core) (reading : Nat)
  /-- `MMIO::write(GICC_EOIR, irq)`. -/
  | endOfInterrupt (c : Core)
  /-- The return from the exception. -/
  | eret (c : Core)
  | call (c : Core) (call : Call) (ret : β) (counter : Nat)
  | resume (c : Core) (exclusive : Bool) (counter : Nat)

/-- A step. Tasks make steps on cores on which no call of the handler is under way. -/
def ackStep (code : Code β) (s : Acknowledged β) : AckEvent β → Option (Acknowledged β)
  | .acknowledge c irqAckReg =>
    if s.call c = none ∧ s.delivers c irqAckReg then
      (s.system.dispatch c (irqAckReg &&& 0x3FF) (sourceOf irqAckReg)).map fun system =>
        { s with system := system }.setCall c (some ⟨irqAckReg, [], false⟩)
    else none
  | .handle c reading =>
    if (s.call c).isSome then (handle s.system c reading).map fun system => { s with system := system }
    else none
  | .endOfInterrupt c =>
    match s.call c with
    | some call =>
      if s.system.handler c = .none ∧ call.ended = false then
        some (s.setCall c
          (some { call with completions := call.completions ++ [call.irq], ended := true }))
      else none
    | none => none
  | .eret c =>
    match s.call c with
    | some call =>
      if call.ended then some { s.setCall c none with returned := s.returned ++ [(c, call)] } else none
    | none => none
  | .call c call ret counter =>
    if s.call c = none then
      (step code s.system (.call c call ret counter)).map fun system => { s with system := system }
    else none
  | .resume c exclusive counter =>
    if s.call c = none then
      (step code s.system (.resume c exclusive counter)).map fun system => { s with system := system }
    else none

/-! ### Properties -/

/-- A call has written `GICC_EOIR` once, with the number and the requesting core that it has read. -/
def HandlerCall.Completed (call : HandlerCall) : Prop :=
  ∃ value, call.completions = [value] ∧ interruptNumber value = interruptNumber call.irqAckReg ∧
    requestingCore value = requestingCore call.irqAckReg

/-- Every call that has returned has completed its interrupt. -/
def Acknowledged.Completes (s : Acknowledged β) : Prop := ∀ call ∈ s.returned, call.2.Completed

/-- A task that sends an interrupt sends it to the core on which it runs: it has not moved since
    `get_core()`. -/
def sendsToOwnCore (s : Acknowledged β) : AckEvent β → Bool
  | .resume c _ _ =>
    match s.system.regs c with
    | .sendSgi core _ => core = c
    | _ => true
  | _ => true

/-- The interrupt that a step takes, if it takes one, was requested by core 0 or by no core. -/
def requestedByCore0 (_ : Acknowledged β) : AckEvent β → Bool
  | .acknowledge _ irqAckReg => requestingCore irqAckReg = 0
  | _ => true

end Rpi4Kernel.Sched
