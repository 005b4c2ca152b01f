/-
Module: Rpi4Kernel.Sched.SleepClock
Layer: Sched
Purpose: The scheduler with the system timer beside it: every step happens at a time, the times do not
  go back, and what a step reads from the timer is its time. What the calls of `Task::sleep(ms)` have
  asked for is recorded from the call to the moment a wake-up pass returns the task to a run queue.
Trusted boundary: `SystemTimer::getCounter()` is exact and stays below 2^64. The record is read by no
  step of the scheduler.
Main exports: SleepStage, SleepCalls, Clocked, stepAt, Clocked.WakesInTime, sleepsClean
-/
import Mathlib.Tactic.DeriveFintype
import Rpi4Kernel.Sched.KernelTasks

namespace Rpi4Kernel.Sched

variable {β : Type}

/-! ### What the calls have asked for -/

/-- How far a call of `Task::sleep(ms)` has come. -/
inductive SleepStage where
  /-- The timer is stored, and the sleep interrupt not requested yet. -/
  | called
  /-- Core `source` has requested the sleep interrupt of `core`, which has not taken it yet. -/
  | asked (core source : Core)
  /-- The handler of `core` is about to put the task to sleep. -/
  | taken (core : Core)
  /-- The task is in `sleepingQ`. -/
  | queued
deriving DecidableEq, Fintype

/-- The times before which the tasks that have called `Task::sleep(ms)` are not to run again. -/
abbrev SleepCalls := TaskId → SleepStage → Option Nat

/-- The time for which a call of `Task::sleep(ms)` asks that has not stored its timer yet. -/
def Point.asking : Point β → Option Nat
  | .getCore (.sleepMs ms called _) | .loadCurrent _ (.sleepMs ms called _) => some (called + ms * 1000)
  | .readCounter _ ms called _ => some (called + ms * 1000)
  | .storeTimer _ _ asked _ => some asked
  | _ => none

namespace SleepCalls

/-- Nothing is asked for. -/
def empty : SleepCalls := fun _ _ => none

/-- A call of task `t` has come to a stage. -/
def record (calls : SleepCalls) (t : TaskId) (stage : SleepStage) (time : Option Nat) : SleepCalls :=
  Function.update calls t (Function.update (calls t) stage time)

/-- No call of a task is at the stage any more. -/
def forget (calls : SleepCalls) (stage : SleepStage) : SleepCalls :=
  fun t => Function.update (calls t) stage none

/-- Some call of task `t` asks that it does not run before `time`. -/
def Promised (calls : SleepCalls) (t : TaskId) (time : Nat) : Prop := ∃ stage, calls t stage = some time

/-- A call of task `t` is under way. -/
def underWay (calls : SleepCalls) (t : TaskId) : Bool := ∃ stage, (calls t stage).isSome

/-- No call of task `t` that is under way asks for a later time. -/
def endsBy (calls : SleepCalls) (t : TaskId) (time : Nat) : Bool :=
  ∀ stage, (calls t stage).all (· ≤ time)

/-- The record after a step. A sleep interrupt serves the task that it finds, if this one has asked
    for it; the requests of other tasks are lost with it. -/
def next (calls : SleepCalls) (s : State β) : Event β → SleepCalls
  | .resume c _ _ =>
    let t := s.currentTask c
    match s.regs c with
    | .storeTimer _ _ asked _ => calls.record t .called (some asked)
    | .sendSgi core (.sleep _) =>
      (calls.record t (.asked core c) ((calls t .called).or (calls t (.asked core c)))).record t
        .called none
    | _ => calls
  | .interrupt c .sleep source =>
    let t := s.currentTask c
    (calls.record t (.taken c) (calls t (.asked c source))).forget (.asked c source)
  | .handle c _ =>
    match s.handler c with
    | .sleepAdd _ =>
      let t := s.currentTask c
      let asked := (s.regs c).asking.or (calls t .queued)
      (calls.record t .queued ((calls t (.taken c)).or ((calls t .called).or asked))).forget (.taken c)
    | .move _ t _ => calls.record t .queued none
    | _ => calls
  | _ => calls

end SleepCalls

/-! ### Steps in time -/

/-- The system, the time of its last step, and what the calls of `Task::sleep(ms)` have asked for. -/
structure Clocked (β : Type) where
  system : State β
  now : Nat
  calls : SleepCalls

/-- The system before its first step. -/
def Clocked.start (system : State β) : Clocked β := ⟨system, 0, .empty⟩

/-- What the system timer shows to a step, where that matters: with `SystemTimer::getCounter()`, and
    at a call of `Task::sleep(ms)`. -/
def readsCounter (s : State β) : Event β → Option Nat
  | .call _ (.sleepMs _) _ counter => some counter
  | .resume c _ counter =>
    match s.regs c with
    | .readCounter _ _ _ _ => some counter
    | _ => none
  | .handle c reading =>
    match s.handler c with
    | .scan .tick _ | .scan .timers _ => some reading
    | _ => none
  | _ => none

/-- A step at a time. -/
def stepAt (code : Code β) (s : Clocked β) (e : Event β × Nat) : Option (Clocked β) :=
  if s.now ≤ e.2 ∧ e.2 < 2 ^ 64 ∧ (readsCounter s.system e.1).getD e.2 = e.2 then
    (step code s.system e.1).map fun system => ⟨system, e.2, s.calls.next s.system e.1⟩
  else none

/-! ### Properties -/

/-- A wake-up pass that is about to return a task to a run queue does so no earlier than the call of
    `Task::sleep(ms)` has asked for. -/
def Clocked.WakesInTime (s : Clocked β) : Prop :=
  ∀ c pass t nextCore time, s.system.handler c = .move pass t nextCore →
    s.calls t .queued = some time → time ≤ s.now

/-- `Task::sleep(ms)` asks for a time below 2^64; it stores its timer in the task that has called it,
    with `sleepingOnLock` null, and replaces no later timer of a call that is under way.
    `Spinlock::get` stores `sleepingOnLock` only in a task with no such call under way, and no task is
    put to sleep inside such a call before its timer is stored. -/
def sleepsClean (s : Clocked β) (e : Event β × Nat) : Bool :=
  match e.1 with
  | .resume c _ counter =>
    let t := s.system.currentTask c
    match s.system.regs c with
    | .readCounter _ ms _ _ => counter + ms * 1000 < 2 ^ 64
    | .storeTimer curr _ asked _ =>
      curr = t && s.calls.endsBy t asked && (s.system.tasks t).sleepingOnLock.isNone
    | .getStore task _ _ => !s.calls.underWay task
    | _ => true
  | .handle c _ =>
    match s.system.handler c with
    | .sleepAdd _ => (s.system.regs c).asking.isNone
    | _ => true
  | _ => true

end Rpi4Kernel.Sched
