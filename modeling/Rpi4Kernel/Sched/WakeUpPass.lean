/-
Module: Rpi4Kernel.Sched.WakeUpPass
Layer: Sched
Purpose: A whole wake-up pass of one core (`wakeUpTimers`, `wakeUpLocks` and `calcNextCore` in
  `IRQ.cpp`) as the steps of its handler one after the other, with a reading of the system timer for
  each step, and what such a pass is for: the tasks that it moves, in order, each with the run queue
  it goes to.
Trusted boundary: the other cores do not touch the queues or the tasks while the pass is under way.
Main exports: handleFor, State.LooksAt, cleared, ChosenCore, Appends
-/
import Rpi4Kernel.Sched.Handlers

namespace Rpi4Kernel.Sched

open Rpi4Kernel.Stdlib

variable {β : Type}

/-- The first `n` steps of the handler of core `c` from `s`. The system timer shows `readings k` at
    step `k`. -/
def handleFor (c : Core) (readings : ℕ → ℕ) : ℕ → State β → Option (State β)
  | 0, s => some s
  | n + 1, s => do
    let s ← handleFor c readings n s
    handle s c (readings n)

/-- The handler of core `c` is about to test task `t` in the loop of the pass. -/
def State.LooksAt (s : State β) (c : Core) (pass : Pass) (t : TaskId) : Prop :=
  ∃ index, s.handler c = .scan pass index ∧ s.sleepingQ.array[index]? = some t

/-- The tasks, with what the pass clears cleared in those of the list. -/
def cleared (pass : Pass) (moved : List TaskId) (tasks : TaskId → Task β) : TaskId → Task β :=
  fun t => if t ∈ moved then State.clear pass (tasks t) else tasks t

/-- The run queues with `t` at the end of one of them. -/
def appendTo (runningQ : Core → Priority → ArrayList TaskId) (core : Core) (p : Priority) (t : TaskId) :
    Core → Priority → ArrayList TaskId :=
  Function.update runningQ core (Function.update (runningQ core) p ((runningQ core p).add t))

/-- The core for a task: the one it is pinned to, or the first of those with the shortest queue of its
    level. Queues of 0xfffffff tasks and more are not told apart: with no shorter one it is core 0. -/
def ChosenCore (runningQ : Core → Priority → ArrayList TaskId) (task : Task β) (core : Core) : Prop :=
  let size := fun d => (runningQ d task.p).getSize
  match task.pinned with
  | some pin => core = pin
  | none =>
    (size core < 0xfffffff ∧ (∀ d, size core ≤ size d) ∧ ∀ d, d < core → size core < size d) ∨
    (core = 0 ∧ ∀ d, 0xfffffff ≤ size d)

/-- The tasks of the list are appended to run queues in this order, each to the queue of its level on
    the core that is chosen for it at that moment. -/
inductive Appends (tasks : TaskId → Task β) :
    (Core → Priority → ArrayList TaskId) → List TaskId → (Core → Priority → ArrayList TaskId) →
    Prop where
  | nil {runningQ : Core → Priority → ArrayList TaskId} : Appends tasks runningQ [] runningQ
  | cons {runningQ after : Core → Priority → ArrayList TaskId} {t : TaskId} {moved : List TaskId}
      {core : Core} (chosen : ChosenCore runningQ (tasks t) core)
      (rest : Appends tasks (appendTo runningQ core (tasks t).p t) moved after) :
      Appends tasks runningQ (t :: moved) after

end Rpi4Kernel.Sched
