/-
Module: Rpi4Kernel.Irq.ContextSwitch
Layer: Irq
Purpose: What the scheduler interrupts of one core do to registers (`IRQ.cpp`, `Task.cpp`): the entry
  code, `reschedule` on the frame, the exit code. The choice of the next task is free here; the
  queues it comes from are modelled in the scheduler modules.
Trusted boundary: the C code between entry and exit returns with the stack pointer it was called with
  and writes to the frame through `regs` only, as the procedure call standard demands; everything
  else it leaves behind is arbitrary.
Main exports: copyRegs, createKernelTask, SwitchState, reschedule, TakeInterrupt, CoreRun
-/
import Rpi4Kernel.Boot.ExceptionFrame

namespace Rpi4Kernel.Irq

open Rpi4Kernel.Boot

/-- `copyRegs(s, d)`: the new value of `*d`. The field `far_el1` is not copied. -/
def copyRegs (s d : CoreContext) : CoreContext :=
  { d with
    gpr := s.gpr
    elrEl1 := s.elrEl1
    esrEl1 := s.esrEl1
    lr := s.lr
    sprsEl1 := s.sprsEl1
    spEl0 := s.spEl0 }

/-- A call of `Task::createKernelTask`: its argument, the address of the new stack, the value of
    `freePID` after the call, and what the fields that are not set held before. -/
structure NewTask where
  entryPoint : Word
  stack : Word
  freePID : Word
  uninitialized : CoreContext

/-- The context that `Task::createKernelTask` sets up. -/
def createKernelTask (task : NewTask) : CoreContext :=
  { task.uninitialized with
    lr := task.entryPoint
    elrEl1 := task.entryPoint
    spEl0 := task.stack + 4096
    sprsEl1 := 0x364
    gpr := fun i => if i = 10 then task.freePID else 0 }

/-- What a task that has never run starts with. -/
def newTaskView (task : NewTask) : TaskView where
  x r := if r = lr then task.entryPoint else if r = 10 then task.freePID else 0
  pc := task.entryPoint
  status := 0x364
  spEl0 := task.stack + 4096

variable {ι : Type} [DecidableEq ι]

/-- The part of the state of one core and its tasks that `reschedule` reads and writes, less the
    queues. -/
structure SwitchState (ι : Type) where
  current : ι
  contexts : ι → CoreContext
  premption : ι → Word

/-- `Core::isPreamptable`: `premption` is unsigned. -/
def SwitchState.isPreamptable (s : SwitchState ι) : Bool := s.premption s.current ≤ 0

/-- The first address of the kernel's half of the address space. -/
def kernelBase : Word := 0xFFFF000000000000

/-- `reschedule(regs)` with the task `next` that it picks. `none` when it hangs because the task would
    return to a wrong address. -/
def reschedule (s : SwitchState ι) (regs : CoreContext) (next : ι) :
    Option (SwitchState ι × CoreContext) :=
  if s.isPreamptable then
    let contexts := Function.update s.contexts s.current (copyRegs regs (s.contexts s.current))
    let regs := copyRegs (contexts next) regs
    let s := { s with current := next, contexts := contexts }
    if (contexts next).elrEl1 < kernelBase then none else some (s, regs)
  else some (s, regs)

/-- The interrupts that move tasks. -/
inductive SchedulerIrq where
  | timer
  | reschedule
  | sleep
  | wakeUpAll
deriving DecidableEq, Repr

/-- The handlers that call `reschedule`. -/
def SchedulerIrq.reschedules : SchedulerIrq → Bool
  | .timer | .reschedule | .sleep => true
  | .wakeUpAll => false

/-- What `irq_handler_spx` does to the frame. -/
def irqHandlerSpx (s : SwitchState ι) (irq : SchedulerIrq) (regs : CoreContext) (next : ι) :
    Option (SwitchState ι × CoreContext) :=
  if irq.reschedules then reschedule s regs next else some (s, regs)

/-- An interrupt from exception entry to exception return: `entered` is the core as the interrupted
    task leaves it, `handler` the core when the C code has returned, `resumed` the core at the
    `eret`. -/
inductive TakeInterrupt (s : SwitchState ι) (irq : SchedulerIrq) (entered : Cpu) (next : ι) :
    SwitchState ι → Cpu → Prop where
  | handled {s' : SwitchState ι} {regs' : CoreContext} (handler : Cpu)
      (call : irqHandlerSpx s irq
        (loadContext (exec kernelEntry entered).mem (exec kernelEntry entered).sp) next =
          some (s', regs'))
      (stack : handler.sp = (exec kernelEntry entered).sp)
      (frame : loadContext handler.mem handler.sp = regs') :
      TakeInterrupt s irq entered next s' (exec kernelExit handler)

/-- Does the interrupt switch tasks? Switching a task to itself counts. -/
def switches (s : SwitchState ι) (irq : SchedulerIrq) : Bool := irq.reschedules && s.isPreamptable

/-- The runs of one core whose tasks are `mine`, started by the task `boot`. The second state holds,
    for every task, what it saw at the exception entry at which `reschedule` last switched away from
    it. Between two interrupts the tasks of this core run and other cores act: both may change
    `premption` and the contexts of tasks of other cores. -/
inductive CoreRun (mine : ι → Prop) (boot : ι) (created : ι → NewTask) :
    SwitchState ι → (ι → Option TaskView) → Prop where
  | start {s : SwitchState ι} (current : s.current = boot) (owned : mine boot)
      (contexts : ∀ t, t ≠ boot → s.contexts t = createKernelTask (created t)) :
      CoreRun mine boot created s fun _ => none
  | interrupt {s s' : SwitchState ι} {left : ι → Option TaskView} {irq : SchedulerIrq}
      {entered resumed : Cpu} {next : ι} (before : CoreRun mine boot created s left)
      (owned : mine next) (taken : TakeInterrupt s irq entered next s' resumed) :
      CoreRun mine boot created s'
        (if switches s irq then Function.update left s.current (some (taskView entered)) else left)
  | elsewhere {s s' : SwitchState ι} {left : ι → Option TaskView}
      (before : CoreRun mine boot created s left) (current : s'.current = s.current)
      (contexts : ∀ t, mine t → s'.contexts t = s.contexts t) : CoreRun mine boot created s' left

end Rpi4Kernel.Irq
