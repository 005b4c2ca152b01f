/-
Module: Rpi4Kernel.Sched.Handlers
Layer: Sched
Purpose: The interrupt handlers of a core, section by section (`irq_handler_spx`, `reschedule`,
  `wakeUpTimers`, `wakeUpLocks` and `calcNextCore` in `IRQ.cpp`). A section guarded by a `runningQLock`
  is one step; the section guarded by `sleepingQLock` in the wake-up passes takes as many steps as it
  has inner sections, and other cores step in between.
Trusted boundary: a handler runs with interrupts masked, so its core takes none before it ends.
Main exports: handle, takeInterrupt, Sgi
-/
import Rpi4Kernel.Sched.State

namespace Rpi4Kernel.Sched

open Rpi4Kernel.Stdlib

variable {β : Type}

/-- What follows `reschedule`. -/
def Origin.after : Origin → Handler
  | .timer => .sendReschedule
  | .reschedule | .sleep => .none

/-- What follows a wake-up pass. -/
def Pass.after : Pass → Handler
  | .tick => .check .timer
  | .timers => .begin .locks
  | .locks => .none

namespace State

/-! ### `SYSTEM_SLEEP_IRQ` -/

/-- Under `runningQLock`: sorts the run queue of the current task and removes the task. What
    `removeElement` returns is not looked at. -/
def sleepRemove (s : State β) (c : Core) (requester : TaskId) : Option (State β) := do
  let t := s.currentTask c
  let p := (s.tasks t).p
  let q ← (s.runningQ c p).quickSort
  let (q, _) ← q.removeElement t
  some ((s.setRunningQ c p q).setHandler c (.sleepAdd requester))

/-- Under `sleepingQLock`: `sleepingQ->add(current)`. -/
def sleepAdd (s : State β) (c : Core) : Option (State β) :=
  if s.sleepingQLock = none then
    some ({ s with sleepingQ := s.sleepingQ.add (s.currentTask c) }.setHandler c (.check .sleep))
  else none

/-! ### The wake-up passes -/

/-- `sleepingQLock->spin()` and `sleepingQ->quickSort()`. -/
def wakeUpBegin (s : State β) (c : Core) (pass : Pass) : Option (State β) :=
  if s.sleepingQLock = none then do
    let q ← s.sleepingQ.quickSort
    some ({ s with sleepingQLock := some c, sleepingQ := q }.setHandler c (.scan pass 0))
  else none

/-- The test of a pass on a task: its timer has run out by `counter`, or its lock has no owner. -/
def ready (s : State β) (pass : Pass) (counter : Nat) (t : TaskId) : Bool :=
  match pass with
  | .tick | .timers => (s.tasks t).timer ≠ 0 && (s.tasks t).timer ≤ counter
  | .locks =>
    match (s.tasks t).sleepingOnLock with
    | none => false
    | some l => (s.locks l).ownerPid = 0

/-- What a pass clears in a task that is ready. -/
def clear (pass : Pass) (task : Task β) : Task β :=
  match pass with
  | .tick | .timers => { task with timer := 0 }
  | .locks => { task with sleepingOnLock := none }

/-- One turn of the loop over `sleepingQ`, or its end with `sleepingQLock->release()`. A task that is
    ready is cleared and `calcNextCore` starts, which is at its end at once for a pinned task. -/
def wakeUpScan (s : State β) (c : Core) (pass : Pass) (index counter : Nat) : State β :=
  match s.sleepingQ.get index with
  | none => { s with sleepingQLock := none }.setHandler c pass.after
  | some t =>
    if s.ready pass counter t then
      (s.updateTask t (clear pass)).setHandler c
        (match (s.tasks t).pinned with
          | some core => .move pass t core
          | none => .calcCore pass t 0 0xfffffff 0)
    else s.setHandler c (.scan pass (index + 1))

/-- One turn of the loop of `calcNextCore`, or its end. -/
def calcNextCore (s : State β) (c : Core) (pass : Pass) (t : TaskId) (i count : Nat) (outCore : Core) :
    State β :=
  if h : i < 4 then
    let size := (s.runningQ ⟨i, h⟩ (s.tasks t).p).getSize
    if size < count then s.setHandler c (.calcCore pass t (i + 1) size ⟨i, h⟩)
    else s.setHandler c (.calcCore pass t (i + 1) count outCore)
  else s.setHandler c (.move pass t outCore)

/-- Under `runningQLock[nextCore]`: `sleepingQ->removeElement(t)`, which must find it, and
    `runningQ[nextCore][t->p]->add(t)`. The pass then starts again from the first task. -/
def wakeUpMove (s : State β) (c : Core) (pass : Pass) (t : TaskId) (nextCore : Core) :
    Option (State β) := do
  let (q, found) ← s.sleepingQ.removeElement t
  if found then
    let p := (s.tasks t).p
    some (({ s with sleepingQ := q }.setRunningQ nextCore p
      ((s.runningQ nextCore p).add t)).setHandler c (.scan pass 0))
  else some (s.setHandler c .halted)

/-! ### `reschedule` -/

/-- The run queue of core `c` that `reschedule` takes a task from: the first that is not empty. -/
def firstQueue (s : State β) (c : Core) : Option Priority :=
  (List.finRange 21).find? fun p => 0 < (s.runningQ c p).getSize

/-- The choice of `next`. `none` where it stays uninitialised. -/
def pickNext (s : State β) (c : Core) (hash : Nat) : Option TaskId := do
  let p ← s.firstQueue c
  (s.runningQ c p).get ((hash % (s.runningQ c p).getSize : Nat) : Int)

/-- The section of `reschedule` guarded by `runningQLock`. -/
def pick (s : State β) (c : Core) (origin : Origin) (hash : Nat) : State β :=
  match s.pickNext c hash with
  | some next => s.setHandler c (.save origin next)
  | none => s.setHandler c .halted

/-- `copyRegs(regs, &current->context)`. -/
def save (s : State β) (c : Core) (origin : Origin) (next : TaskId) : State β :=
  let t := s.currentTask c
  { s.updateTask t fun task => { task with context := s.regs c } with
    unsaved := Function.update s.unsaved t none }.setHandler c (.load origin next)

/-- `copyRegs(&next->context, regs)`. -/
def load (s : State β) (c : Core) (origin : Origin) (next : TaskId) : State β :=
  { s.setRegs c (s.tasks next).context with
    unsaved := Function.update s.unsaved next (some c) }.setHandler c (.setCurrent origin next)

/-- `current = next`. -/
def setCurrent (s : State β) (c : Core) (origin : Origin) (next : TaskId) : State β :=
  { s with currentTask := Function.update s.currentTask c next }.setHandler c origin.after

/-- The timer handler of core 0 tells the cores 1, 2 and 3 to reschedule. -/
def sendReschedule (s : State β) (c : Core) : State β :=
  { s with
    rescheduleIrq := fun d source =>
      (d ≠ 0 && source = c) || s.rescheduleIrq d source }.setHandler c .none

end State

/-! ### The handlers -/

/-- The next step of the handler of core `c`. `reading` is what the system timer shows. -/
def handle (s : State β) (c : Core) (reading : Nat) : Option (State β) :=
  match s.handler c with
  | .none => none
  | .sleepRemove requester => s.sleepRemove c requester
  | .sleepAdd _ => s.sleepAdd c
  | .begin pass => s.wakeUpBegin c pass
  | .scan pass index => some (s.wakeUpScan c pass index reading)
  | .calcCore pass t i count outCore => some (s.calcNextCore c pass t i count outCore)
  | .move pass t nextCore => s.wakeUpMove c pass t nextCore
  | .check origin => some (s.setHandler c (if s.isPreamptable c then .pick origin else origin.after))
  | .pick origin => some (s.pick c origin reading)
  | .save origin next => some (s.save c origin next)
  | .load origin next => some (s.load c origin next)
  | .setCurrent origin next => some (s.setCurrent c origin next)
  | .sendReschedule => some (s.sendReschedule c)
  | .halted => none

/-- The software-generated interrupts of the scheduler. -/
inductive Sgi where
  | reschedule
  | sleep
  | wakeUpAll
deriving DecidableEq, Repr

/-- Core `c` takes the interrupt `irq` that core `source` has made pending, which is then no longer
    pending. -/
def takeInterrupt (s : State β) (c : Core) (irq : Sgi) (source : Core) : Option (State β) :=
  if s.handler c = .none then
    match irq with
    | .reschedule =>
      if s.rescheduleIrq c source then
        some ({ s with
          rescheduleIrq := Function.update s.rescheduleIrq c
            (Function.update (s.rescheduleIrq c) source false) }.setHandler c (.check .reschedule))
      else none
    | .sleep => do
      let requester ← s.sleepIrq c source
      some ({ s with
        sleepIrq := Function.update s.sleepIrq c
          (Function.update (s.sleepIrq c) source none) }.setHandler c (.sleepRemove requester))
    | .wakeUpAll =>
      if s.wakeUpIrq c source then
        some ({ s with
          wakeUpIrq := Function.update s.wakeUpIrq c
            (Function.update (s.wakeUpIrq c) source false) }.setHandler c (.begin .timers))
      else none
  else none

/-- Core 0 takes `SYSTEM_TIMER_IRQ_1`, which no other core does. -/
def takeTimer (s : State β) : Option (State β) :=
  if s.handler 0 = .none then some (s.setHandler 0 (.begin .tick)) else none

end Rpi4Kernel.Sched
