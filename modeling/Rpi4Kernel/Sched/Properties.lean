/-
Module: Rpi4Kernel.Sched.Properties
Layer: Sched
Purpose: What the scheduler is meant to guarantee, as properties of states, and the conditions on single
  steps under which it does. The conditions look at the state before a step only.
Trusted boundary: none
Main exports: occurrences, Picks, RunsOnOneCore, SleepsOnRequest, WakesUp, SleepsOnOthersLock,
  takenPreemptible, preemptible, switchedAway, keepsRequester, requestsOwnCore, wakeable,
  insertedInTime, freedInTime, ownerMatches, retriesClean
-/
import Mathlib.Algebra.BigOperators.Group.Finset.Basic
import Mathlib.Data.Fintype.Basic
import Rpi4Kernel.Sched.KernelTasks

namespace Rpi4Kernel.Sched

open Rpi4Kernel.Stdlib

variable {β : Type}

/-! ### Phases of a handler -/

namespace Handler

/-- The core has locked `sleepingQLock` for a wake-up pass. -/
def inSleepingQ : Handler → Bool
  | .scan _ _ | .calcCore _ _ _ _ _ | .move _ _ _ => true
  | _ => false

/-- The task that a wake-up pass has found ready and not yet moved. -/
def waking : Handler → Option TaskId
  | .calcCore _ t _ _ _ | .move _ t _ => some t
  | _ => Option.none

/-- The task that `reschedule` has chosen. -/
def next : Handler → Option TaskId
  | .save _ t | .load _ t | .setCurrent _ t => some t
  | _ => Option.none

/-- The requester of the sleep interrupt whose task is not in `sleepingQ` yet. -/
def requester : Handler → Option TaskId
  | .sleepRemove r | .sleepAdd r => some r
  | _ => Option.none

/-- `SYSTEM_WAKEUP_ALL` is being handled. -/
def handlesWakeUp : Handler → Bool
  | .begin pass | .scan pass _ | .calcCore pass _ _ _ _ | .move pass _ _ => pass ≠ .tick
  | _ => false

end Handler

namespace State

/-! ### Properties -/

/-- How often a task is in the queues, all of them taken together. -/
def occurrences (s : State β) (t : TaskId) : Nat :=
  ∑ c, ∑ p, (s.runningQ c p).array.count t + s.sleepingQ.array.count t

/-- `reschedule` on core `c` picks a task whatever the timer shows: the one it reads, at an index below
    the size, from the first queue of the core that is not empty. -/
def Picks (s : State β) (c : Core) : Prop :=
  ∀ hash, ∃ p next, (∀ q < p, (s.runningQ c q).getSize = 0) ∧
    hash % (s.runningQ c p).getSize < (s.runningQ c p).getSize ∧
    (s.runningQ c p).array[hash % (s.runningQ c p).getSize]? = some next ∧
    s.pickNext c hash = some next

/-- No task is the current task of two cores, and no core is about to load the context of a task that
    another load has left unsaved. -/
def RunsOnOneCore (s : State β) : Prop :=
  (∀ c d, s.currentTask c = s.currentTask d → c = d) ∧
    ∀ c origin next, s.handler c = .load origin next → s.unsaved next = none

/-- Some wake-up pass can find the task. -/
def awaitsWakeUp (s : State β) (t : TaskId) : Bool :=
  (s.tasks t).timer ≠ 0 || (s.tasks t).sleepingOnLock.isSome

/-- The handler of `SYSTEM_SLEEP_IRQ` moves the task whose call has made it pending, and the tasks in
    `sleepingQ` can be found by a wake-up pass (when no pass is moving one). -/
def SleepsOnRequest (s : State β) : Prop :=
  (∀ c r, (s.handler c).requester = some r → s.currentTask c = r) ∧
    (s.sleepingQLock = none → ∀ t ∈ s.sleepingQ.array, s.awaitsWakeUp t = true)

/-- `SYSTEM_WAKEUP_ALL` is pending or being handled on some core. -/
def wakeUpComes (s : State β) : Bool :=
  ∃ c, (∃ source, s.wakeUpIrq c source) ∨ (s.handler c).handlesWakeUp

/-- `SYSTEM_WAKEUP_ALL` is being handled on core `c`, and its pass over the locks is not past task
    `t`. -/
def passesTo (s : State β) (c : Core) (t : TaskId) : Bool :=
  match s.handler c with
  | .scan .locks index => t ∉ s.sleepingQ.array.take index
  | handler => handler.handlesWakeUp

/-- `SYSTEM_WAKEUP_ALL` is pending on some core, or it is being handled and has yet to look at task
    `t`. -/
def wakeUpReaches (s : State β) (t : TaskId) : Bool :=
  ∃ c, (∃ source, s.wakeUpIrq c source) ∨ s.passesTo c t

/-- No task sleeps on a lock that is not set unless a wake-up is on its way. -/
def WakesUp (s : State β) : Prop :=
  ∀ t ∈ s.sleepingQ.array, ∀ l, (s.tasks t).sleepingOnLock = some l → (s.locks l).locked = false →
    s.wakeUpComes = true

/-- No task sleeps on a lock that it has set. -/
def SleepsOnOthersLock (s : State β) : Prop :=
  ∀ t ∈ s.sleepingQ.array, ∀ l, (s.tasks t).sleepingOnLock = some l → s.holds t l = false

end State

/-! ### Conditions on steps -/

/-- A sleep interrupt is taken with preemption enabled. -/
def takenPreemptible (s : State β) : Event β → Bool
  | .interrupt c .sleep _ => s.isPreamptable c
  | _ => true

/-- The `reschedule` of a sleep interrupt finds preemption enabled. -/
def preemptible (s : State β) : Event β → Bool
  | .handle c _ => s.handler c ≠ .check .sleep || s.isPreamptable c
  | _ => true

/-- A wake-up pass puts no task on a run queue of one core that is the current task of another. -/
def switchedAway (s : State β) : Event β → Bool
  | .handle c _ =>
    match s.handler c with
    | .move _ t nextCore => ∀ d, s.currentTask d = t → d = nextCore
    | _ => true
  | _ => true

/-- `reschedule` does not replace the current task of a core on which a sleep interrupt is pending. -/
def keepsRequester (s : State β) : Event β → Bool
  | .handle c _ =>
    match s.handler c with
    | .setCurrent _ next => (∀ source, s.sleepIrq c source = none) ∨ next = s.currentTask c
    | _ => true
  | _ => true

/-- A sleep interrupt is requested for the core on which the request is made: the task has not moved
    since it called `get_core()`. -/
def requestsOwnCore (s : State β) : Event β → Bool
  | .resume c _ _ =>
    match s.regs c with
    | .sendSgi core send => !send.asksSleep || core = c
    | _ => true
  | _ => true

/-- `Task::sleep(ms)` stores a timer that is not zero, and a sleep interrupt is requested by a task
    that a wake-up pass can find. -/
def wakeable (s : State β) : Event β → Bool
  | .resume c _ _ =>
    match s.regs c with
    | .storeTimer _ time _ _ => time ≠ 0
    | .sendSgi _ send => !send.asksSleep || s.awaitsWakeUp (s.currentTask c)
    | _ => true
  | _ => true

/-- A task enters `sleepingQ` while its lock is still set or a wake-up is on its way; and so it is
    when the lock is stored in `sleepingOnLock` of a task that is in `sleepingQ`. -/
def insertedInTime (s : State β) : Event β → Bool
  | .handle c _ =>
    match s.handler c with
    | .sleepAdd _ =>
      match (s.tasks (s.currentTask c)).sleepingOnLock with
      | none => true
      | some l => (s.locks l).locked || s.wakeUpComes
    | _ => true
  | .resume c _ _ =>
    match s.regs c with
    | .getStore task l _ => task ∉ s.sleepingQ.array || (s.locks l).locked || s.wakeUpReaches task
    | _ => true
  | _ => true

/-- `Spinlock::free` unlocks a lock on which tasks sleep while a wake-up is on its way to them. -/
def freedInTime (s : State β) : Event β → Bool
  | .resume c _ _ =>
    match s.regs c with
    | .freeUnlock l _ =>
      ∀ t ∈ s.sleepingQ.array, (s.tasks t).sleepingOnLock = some l → s.wakeUpReaches t = true
    | _ => true
  | _ => true

/-- A wake-up pass that looks at a task whose lock is not set finds no owner there. -/
def ownerMatches (s : State β) : Event β → Bool
  | .handle c _ =>
    match s.handler c with
    | .scan .locks index =>
      match s.sleepingQ.get index with
      | none => true
      | some t => (s.tasks t).sleepingOnLock.all fun l => (s.locks l).locked || (s.locks l).ownerPid = 0
    | _ => true
  | _ => true

/-- `testAndSet` succeeds only for a task that is not marked as sleeping on the lock, and no task is
    marked as sleeping on a lock that it has set. -/
def retriesClean (s : State β) : Event β → Bool
  | .resume c exclusive _ =>
    match s.regs c with
    | .getTest l _ =>
      (s.locks l).locked || !exclusive || (s.tasks (s.currentTask c)).sleepingOnLock ≠ some l
    | .getStore task l _ => !s.holds task l
    | _ => true
  | _ => true

end Rpi4Kernel.Sched
