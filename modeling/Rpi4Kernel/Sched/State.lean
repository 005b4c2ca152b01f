/-
Module: Rpi4Kernel.Sched.State
Layer: Sched
Purpose: The data the scheduler works on (`Task.h`, `Spinlock.h`, `Core.h`): tasks, locks, the run
  queues and the queue of sleeping tasks, and for every core its current task, where its task stands,
  how far the interrupt handler has got, and which interrupts are pending.
Trusted boundary: the registers of a task are reduced to the place in its code at which it stands
  (`Rpi4Kernel.Irq.ContextSwitch` has them in full). Two fields, `unsaved` and `holds`, are read by no
  step: they record what has happened.
Main exports: Use, Send, Point, Task, Spinlock, Handler, State
-/
import Mathlib.Logic.Function.Basic
import Mathlib.Tactic
import Rpi4Kernel.Stdlib.ArrayList

namespace Rpi4Kernel.Sched

open Rpi4Kernel.Stdlib

/-- `NUM_CORES` is 4. -/
abbrev Core := Fin 4

/-- There is a core 0. -/
scoped instance neZero_cores : NeZero 4 := ⟨by decide⟩

/-- `PRIORITIES` is 21. -/
abbrev Priority := Fin 21

/-- There is a priority 0. -/
scoped instance neZero_priorities : NeZero 21 := ⟨by decide⟩

/-- A task. The numbers are in the order of the addresses, by which `ArrayList<Task*>` compares. -/
abbrev TaskId := Nat

/-- A lock. -/
abbrev LockId := Nat

/-! ### Tasks and locks -/

/-- What a task evaluates `current` for, with the place to which the call returns. -/
inductive Use (β : Type) where
  /-- `Task* curr = current` in `Task::sleep(ms)`. `called` is what the system timer showed at the call;
      no step reads it. -/
  | sleepMs (ms called : Nat) (ret : β)
  /-- `current->sleepingOnLock = this` in `Spinlock::get`. -/
  | sleepingOnLock (lock : LockId) (ret : β)
  /-- `ownerPid = current->pid` in `Spinlock::get`. -/
  | ownerPid (lock : LockId) (ret : β)
  /-- `current->premption++`, and `current->premption--`, which adds 2^64 - 1. -/
  | premption (change : Nat) (ret : β)
deriving DecidableEq, Repr

/-- What a task calls `GIC400::send_sgi(irq, get_core())` for, with the place to which the call
    returns. -/
inductive Send (β : Type) where
  /-- `Task::sleep()`. -/
  | sleep (ret : β)
  /-- `current->sleep()` in `Spinlock::get`, which tries `testAndSet` again. -/
  | getSleep (lock : LockId) (ret : β)
  /-- `SYSTEM_WAKEUP_ALL` in `Spinlock::free`. -/
  | free (ret : β)
deriving DecidableEq, Repr

/-- Where a task stands in its code, with what it has read. The places inside the calls that matter to
    the scheduler are spelled out; `β` has the places in between. `current` is
    `currentTask[get_core()]`: the task may be interrupted, and come back on another core, between the
    call of `get_core()`, the load from `currentTask` and the access through the pointer. -/
inductive Point (β : Type) where
  /-- `_hang_forever` and the loop of `_wait_for_interrupt`. -/
  | hang
  | user (place : β)
  /-- `current`, before `get_core()`. -/
  | getCore (use : Use β)
  /-- `current`, before the load of `currentTask[core]`. -/
  | loadCurrent (core : Core) (use : Use β)
  /-- `Task::sleep(ms)`, before `SystemTimer::getCounter()`. -/
  | readCounter (curr : TaskId) (ms called : Nat) (ret : β)
  /-- `Task::sleep(ms)`, before `curr->timer = time`. `asked` is what the system timer showed at the
      call plus what the caller asks for; no step reads it. -/
  | storeTimer (curr : TaskId) (time asked : Nat) (ret : β)
  /-- `Spinlock::get`, before `testAndSet`. -/
  | getTest (lock : LockId) (ret : β)
  /-- `Spinlock::get`, before `task->sleepingOnLock = this`. -/
  | getStore (task : TaskId) (lock : LockId) (ret : β)
  /-- `Spinlock::get`, before the load of `task->pid`. -/
  | loadPid (task : TaskId) (lock : LockId) (ret : β)
  /-- `Spinlock::get`, before `ownerPid = pid`. -/
  | getOwner (pid : Nat) (lock : LockId) (ret : β)
  /-- `Core::preemptDisable` and `Core::preemptEnable`, before the load of `task->premption`. -/
  | loadPremption (task : TaskId) (change : Nat) (ret : β)
  /-- `Core::preemptDisable` and `Core::preemptEnable`, before `task->premption = value`. -/
  | storePremption (task : TaskId) (value : Nat) (ret : β)
  /-- `Spinlock::free`, before `ownerPid = 0`. -/
  | freeOwner (lock : LockId) (ret : β)
  /-- `Spinlock::free`, before `_spin_unlock`. -/
  | freeUnlock (lock : LockId) (ret : β)
  /-- `GIC400::send_sgi(irq, get_core())`, before `get_core()`. -/
  | sendCore (send : Send β)
  /-- `GIC400::send_sgi(irq, core)`, before the write to `GICD_SGIR`. -/
  | sendSgi (core : Core) (send : Send β)
deriving DecidableEq, Repr

section Points

variable {β : Type}

/-- The place to which the call returns. -/
def Use.ret : Use β → β
  | .sleepMs _ _ ret | .sleepingOnLock _ ret | .ownerPid _ ret | .premption _ ret => ret

/-- The place to which the call returns. -/
def Send.ret : Send β → β
  | .sleep ret | .getSleep _ ret | .free ret => ret

/-- The place at which a task stands, or to which the call returns in which it is. -/
def Point.ret : Point β → Option β
  | .hang => none
  | .user place => some place
  | .getCore use | .loadCurrent _ use => some use.ret
  | .readCounter _ _ _ ret | .storeTimer _ _ _ ret => some ret
  | .getTest _ ret | .getStore _ _ ret | .loadPid _ _ ret | .getOwner _ _ ret => some ret
  | .loadPremption _ _ ret | .storePremption _ _ ret => some ret
  | .freeOwner _ ret | .freeUnlock _ ret => some ret
  | .sendCore send | .sendSgi _ send => some send.ret

/-- What a task does with the task that it has loaded as `current`. -/
def Use.through (use : Use β) (current : TaskId) : Point β :=
  match use with
  | .sleepMs ms called ret => .readCounter current ms called ret
  | .sleepingOnLock lock ret => .getStore current lock ret
  | .ownerPid lock ret => .loadPid current lock ret
  | .premption change ret => .loadPremption current change ret

/-- Where a task goes on after the write to `GICD_SGIR`. -/
def Send.after : Send β → Point β
  | .sleep ret | .free ret => .user ret
  | .getSleep lock ret => .getTest lock ret

/-- The write to `GICD_SGIR` asks for `SYSTEM_SLEEP_IRQ`. -/
def Send.asksSleep : Send β → Bool
  | .sleep _ | .getSleep _ _ => true
  | .free _ => false

/-- The core number that a task has read and will use. -/
def Point.core : Point β → Option Core
  | .loadCurrent core _ | .sendSgi core _ => some core
  | _ => none

end Points

/-- `Task`, less the fields that no one reads. `pinned` is `corePinned` where `isCorePinned` is set. -/
structure Task (β : Type) where
  context : Point β
  pid : Nat
  p : Priority
  premption : Nat
  timer : Nat
  sleepingOnLock : Option LockId
  pinned : Option Core

/-- `Spinlock`. `val` is `SPLCK_LOCKED` or not. -/
structure Spinlock where
  locked : Bool
  ownerPid : Nat
deriving DecidableEq, Repr

/-! ### Handlers -/

/-- The passes over the sleeping tasks: `wakeUpTimers` at a timer tick, `wakeUpTimers` at
    `SYSTEM_WAKEUP_ALL`, and `wakeUpLocks` after it. -/
inductive Pass where
  | tick
  | timers
  | locks
deriving DecidableEq, Repr

/-- The interrupts whose handlers call `reschedule`. -/
inductive Origin where
  | timer
  | reschedule
  | sleep
deriving DecidableEq, Repr

/-- What the interrupt handler of a core does next. Every step up to the next one is a section guarded
    by a lock, one reading of shared data, or one write to it. -/
inductive Handler where
  /-- No interrupt is being handled. -/
  | none
  /-- `SYSTEM_SLEEP_IRQ`: take the current task off its run queue. `requester` is not read. -/
  | sleepRemove (requester : TaskId)
  /-- `SYSTEM_SLEEP_IRQ`: put the current task into `sleepingQ`. -/
  | sleepAdd (requester : TaskId)
  /-- A wake-up pass: lock `sleepingQLock` and sort. -/
  | begin (pass : Pass)
  /-- A wake-up pass: look at the task in slot `index`. -/
  | scan (pass : Pass) (index : Nat)
  /-- `calcNextCore(task)`, about to look at core `i`. -/
  | calcCore (pass : Pass) (task : TaskId) (i count : Nat) (outCore : Core)
  /-- A wake-up pass: move `task` to a run queue of `nextCore`. -/
  | move (pass : Pass) (task : TaskId) (nextCore : Core)
  /-- `reschedule`: `Core::isPreamptable()`. -/
  | check (origin : Origin)
  /-- `reschedule`: the section guarded by `runningQLock`. -/
  | pick (origin : Origin)
  /-- `reschedule`: `copyRegs(regs, &current->context)`. -/
  | save (origin : Origin) (next : TaskId)
  /-- `reschedule`: `copyRegs(&next->context, regs)`. -/
  | load (origin : Origin) (next : TaskId)
  /-- `reschedule`: `current = next`. -/
  | setCurrent (origin : Origin) (next : TaskId)
  /-- `SYSTEM_TIMER_IRQ_1`: tell the other cores to reschedule. -/
  | sendReschedule
  /-- `Core::panic`, or a read through the uninitialised `next`. -/
  | halted
deriving DecidableEq, Repr

/-! ### The system -/

/-- The system. The interrupts are those that are pending on a core, by the core that has requested
    them; for `SYSTEM_SLEEP_IRQ` the task whose call made it pending is kept beside it. -/
structure State (β : Type) where
  currentTask : Core → TaskId
  regs : Core → Point β
  handler : Core → Handler
  sleepIrq : Core → Core → Option TaskId
  rescheduleIrq : Core → Core → Bool
  wakeUpIrq : Core → Core → Bool
  tasks : TaskId → Task β
  locks : LockId → Spinlock
  runningQ : Core → Priority → ArrayList TaskId
  sleepingQ : ArrayList TaskId
  sleepingQLock : Option Core
  /-- The core that has loaded the context of a task and not saved it since. -/
  unsaved : TaskId → Option Core
  /-- The task has set the lock by `testAndSet` and not freed it since. -/
  holds : TaskId → LockId → Bool

namespace State

variable {β : Type}

/-- `Core::isPreamptable()` on core `c`: `premption` is unsigned. -/
def isPreamptable (s : State β) (c : Core) : Bool := (s.tasks (s.currentTask c)).premption ≤ 0

/-- The system with the handler of core `c` at `h`. -/
def setHandler (s : State β) (c : Core) (h : Handler) : State β :=
  { s with handler := Function.update s.handler c h }

/-- The system with the registers of core `c` at `point`. -/
def setRegs (s : State β) (c : Core) (point : Point β) : State β :=
  { s with regs := Function.update s.regs c point }

/-- The system with task `t` changed by `f`. -/
def updateTask (s : State β) (t : TaskId) (f : Task β → Task β) : State β :=
  { s with tasks := Function.update s.tasks t (f (s.tasks t)) }

/-- The system with lock `l` changed by `f`. -/
def updateLock (s : State β) (l : LockId) (f : Spinlock → Spinlock) : State β :=
  { s with locks := Function.update s.locks l (f (s.locks l)) }

/-- The system with a run queue replaced. -/
def setRunningQ (s : State β) (c : Core) (p : Priority) (q : ArrayList TaskId) : State β :=
  { s with runningQ := Function.update s.runningQ c (Function.update (s.runningQ c) p q) }

end State

end Rpi4Kernel.Sched
