/-
Module: Rpi4Kernel.Sched.Tasks
Layer: Sched
Purpose: What tasks do between interrupts, as far as the scheduler sees it (`Task::sleep`,
  `Spinlock::get`, `Spinlock::free`, `Core::preemptDisable`, `Core::preemptEnable`), and the steps of
  the whole system: the four cores in any order.
Trusted boundary: `get_core()`, each load, each store and each write to `GICD_SGIR` is one step. The
  task on which `sleep` is called is not read by it, so its evaluation as `current` is left out.
  Sections that mask interrupts touch nothing of this and are steps like any other.
Main exports: Call, Code, Call.begin, enter, request, resume, Event, step
-/
import Rpi4Kernel.Sched.Handlers

namespace Rpi4Kernel.Sched

variable {β : Type}

/-- The calls of a task that matter to the scheduler; `compute` is everything else. -/
inductive Call where
  | compute
  | sleepMs (ms : Nat)
  | sleep
  | get (lock : LockId)
  | free (lock : LockId)
  | preemptDisable
  | preemptEnable
deriving DecidableEq, Repr

/-- The code of the tasks: which calls can be made at a place, and the places to which they return. -/
abbrev Code (β : Type) := β → Call → β → Bool

/-- Where a task stands that makes a call; `counter` is what the system timer shows. -/
def Call.begin (call : Call) (ret : β) (counter : Nat) : Point β :=
  match call with
  | .compute => .user ret
  | .sleepMs ms => .getCore (.sleepMs ms counter ret)
  | .sleep => .sendCore (.sleep ret)
  | .get l => .getTest l ret
  | .free l => .freeOwner l ret
  | .preemptDisable => .getCore (.premption 1 ret)
  | .preemptEnable => .getCore (.premption 0xffffffffffffffff ret)

namespace State

/-- The current task of core `c` makes a call that returns to `ret`. -/
def enter (s : State β) (c : Core) (call : Call) (ret : β) (counter : Nat) : State β :=
  s.setRegs c (call.begin ret counter)

/-- Core `c` writes to `GICD_SGIR`: the interrupt is pending on `core` from now on. Nothing changes if
    the one that core `c` has requested there before is still pending. -/
def request (s : State β) (c core : Core) (send : Send β) : State β :=
  if send.asksSleep then
    { s with
      sleepIrq := Function.update s.sleepIrq core
        (Function.update (s.sleepIrq core) c (some ((s.sleepIrq core c).getD (s.currentTask c)))) }
  else
    { s with
      wakeUpIrq := Function.update s.wakeUpIrq core (Function.update (s.wakeUpIrq core) c true) }

/-- The current task of core `c` takes its next step inside a call. `exclusive` is whether the `stxr` of
    `_test_set_lock` succeeds: `testAndSet` fails when the lock is set, and when that does. `counter` is
    what the system timer shows. -/
def resume (s : State β) (c : Core) (exclusive : Bool) (counter : Nat) : Option (State β) :=
  let t := s.currentTask c
  match s.regs c with
  | .hang | .user _ => none
  | .getCore use => some (s.setRegs c (.loadCurrent c use))
  | .loadCurrent core use => some (s.setRegs c (use.through (s.currentTask core)))
  | .readCounter curr ms called ret =>
    some (s.setRegs c (.storeTimer curr ((counter + ms * 1000) % 2 ^ 64) (called + ms * 1000) ret))
  | .storeTimer curr time _ ret =>
    some ((s.updateTask curr fun task => { task with timer := time }).setRegs c
      (.sendCore (.sleep ret)))
  | .getTest l ret =>
    if !(s.locks l).locked && exclusive then
      some ({ s.updateLock l fun lock => { lock with locked := true } with
        holds := Function.update s.holds t (Function.update (s.holds t) l true) }.setRegs c
          (.getCore (.ownerPid l ret)))
    else some (s.setRegs c (.getCore (.sleepingOnLock l ret)))
  | .getStore task l ret =>
    some ((s.updateTask task fun task => { task with sleepingOnLock := some l }).setRegs c
      (.sendCore (.getSleep l ret)))
  | .loadPid task l ret => some (s.setRegs c (.getOwner (s.tasks task).pid l ret))
  | .getOwner pid l ret =>
    some ((s.updateLock l fun lock => { lock with ownerPid := pid }).setRegs c (.user ret))
  | .loadPremption task change ret =>
    some (s.setRegs c (.storePremption task (((s.tasks task).premption + change) % 2 ^ 64) ret))
  | .storePremption task value ret =>
    some ((s.updateTask task fun task => { task with premption := value }).setRegs c (.user ret))
  | .freeOwner l ret =>
    some ((s.updateLock l fun lock => { lock with ownerPid := 0 }).setRegs c (.freeUnlock l ret))
  | .freeUnlock l ret =>
    some ({ s.updateLock l fun lock => { lock with locked := false } with
      holds := Function.update s.holds t (Function.update (s.holds t) l false) }.setRegs c
        (.sendCore (.free ret)))
  | .sendCore send => some (s.setRegs c (.sendSgi c send))
  | .sendSgi core send => some ((s.request c core send).setRegs c send.after)

end State

/-- What can happen next, with what the step reads from outside. -/
inductive Event (β : Type) where
  /-- Core 0 takes the interrupt of the system timer. -/
  | timer
  /-- Core `c` takes an interrupt that core `source` has requested. -/
  | interrupt (c : Core) (irq : Sgi) (source : Core)
  | handle (c : Core) (reading : Nat)
  | call (c : Core) (call : Call) (ret : β) (counter : Nat)
  | resume (c : Core) (exclusive : Bool) (counter : Nat)

/-- The core of an event. -/
def Event.core : Event β → Core
  | .timer => 0
  | .interrupt c _ _ | .handle c _ | .call c _ _ _ | .resume c _ _ => c

/-- A step of the system. Tasks make steps on cores that handle no interrupt. -/
def step (code : Code β) (s : State β) : Event β → Option (State β)
  | .timer => takeTimer s
  | .interrupt c irq source => takeInterrupt s c irq source
  | .handle c reading => handle s c reading
  | .call c call ret counter =>
    match s.regs c with
    | .user b =>
      if s.handler c = .none ∧ code b call ret then some (s.enter c call ret counter) else none
    | _ => none
  | .resume c exclusive counter => if s.handler c = .none then s.resume c exclusive counter else none

end Rpi4Kernel.Sched
