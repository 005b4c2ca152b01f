/-
Module: Rpi4Kernel.Sched.BootOrder
Layer: Sched
Purpose: The system while its cores come up (`kernel_main` from the first `Core::start`,
  `initSecondaryCore`): a core creates its run queues one by one, then its tasks, and then enables its
  interrupts, while the cores that have done so already schedule.
Trusted boundary: what `initSecondaryCore` does to a queue is one step although it takes no lock. A
  handler that goes through an entry of `runningQ` that is still null takes no step here.
Main exports: Plan, BootState, bootStep, Starting, kernelPlan, kernelStart
-/
import Mathlib.Data.Fintype.Prod
import Rpi4Kernel.Sched.KernelTasks
import Rpi4Kernel.Sched.Properties

namespace Rpi4Kernel.Sched

open Rpi4Kernel.Stdlib

/-! ### Which entries of `runningQ` a handler uses -/

/-- The entries of `runningQ` that the next step of the handler of core `c` reads. -/
def State.usedQueues {β : Type} (s : State β) (c : Core) : List (Core × Priority) :=
  match s.handler c with
  | .sleepRemove _ => [(c, (s.tasks (s.currentTask c)).p)]
  | .calcCore _ t i _ _ => if h : i < 4 then [(⟨i, h⟩, (s.tasks t).p)] else []
  | .move _ t nextCore => [(nextCore, (s.tasks t).p)]
  | .pick _ =>
    ((List.finRange 21).filter fun p => ∀ q < p, (s.runningQ c q).getSize = 0).map fun p => (c, p)
  | _ => []

/-- The entries of `runningQ` that an event reads. -/
def Event.usedQueues {β : Type} (s : State β) : Event β → List (Core × Priority)
  | .handle c _ => s.usedQueues c
  | _ => []

/-! ### Initialisation -/

/-- The tasks that each core creates, in their order, and the body of each. -/
structure Plan where
  tasks : Core → List TaskId
  body : TaskId → Body

/-- The system, and how many steps of its initialisation each core has done. -/
structure BootState where
  sched : State KernelPoint
  progress : Core → Nat

/-- What can happen next. Creating a queue leaves its field `sorted`, and creating a task its field
    `sleepingOnLock`, as the memory has it. -/
inductive BootEvent where
  | init (c : Core) (sorted : Bool) (pid : Nat) (sleepingOnLock : Option LockId)
  | run (e : Event KernelPoint)

namespace BootState

/-- Core `c` has created its queue of priority `p`. -/
def created (b : BootState) (c : Core) (p : Priority) : Bool := p.val < b.progress c

/-- Core `c` has enabled its interrupts. -/
def enabled (plan : Plan) (b : BootState) (c : Core) : Bool :=
  21 + (plan.tasks c).length < b.progress c

/-- The next step of the initialisation of core `c`. -/
def init (plan : Plan) (b : BootState) (c : Core) (sorted : Bool) (pid : Nat)
    (sleepingOnLock : Option LockId) : Option BootState :=
  let progress := Function.update b.progress c (b.progress c + 1)
  if h : b.progress c < 21 then
    some {
      sched := b.sched.setRunningQ c ⟨b.progress c, h⟩ (ArrayList.new sorted)
      progress := progress }
  else
    match (plan.tasks c)[b.progress c - 21]? with
    | some t =>
      let task := (plan.body t).create c pid sleepingOnLock
      some
        { sched :=
            (b.sched.updateTask t fun _ => task).setRunningQ c task.p
              ((b.sched.runningQ c task.p).add t)
          progress := progress }
    | none => if b.enabled plan c then none else some { b with progress := progress }

/-- No handler is about to use an entry of `runningQ` that its core has not created. -/
def UsesCreated (b : BootState) : Prop :=
  ∀ c, ∀ used ∈ b.sched.usedQueues c, b.created used.1 used.2 = true

end BootState

/-- A step of the system: of the initialisation of a core, or of a core that is up. -/
def bootStep (plan : Plan) (b : BootState) : BootEvent → Option BootState
  | .init c sorted pid sleepingOnLock => b.init plan c sorted pid sleepingOnLock
  | .run e =>
    if b.enabled plan e.core ∧ ∀ used ∈ e.usedQueues b.sched, b.created used.1 used.2 then
      (step kernelCode b.sched e).map fun s => { b with sched := s }
    else none

/-- A sleep interrupt is taken with preemption enabled. -/
def bootTakenPreemptible (b : BootState) : BootEvent → Bool
  | .init .. => true
  | .run e => takenPreemptible b.sched e

/-- A sleep interrupt is requested for the core on which the request is made. -/
def bootRequestsOwnCore (b : BootState) : BootEvent → Bool
  | .init .. => true
  | .run e => requestsOwnCore b.sched e

/-- When a wake-up pass finds a task that is not pinned ready, every core has created its queue of the
    priority of the task. -/
def wakesAfterQueues (b : BootState) : BootEvent → Bool
  | .run (.handle c reading) =>
    match b.sched.handler c with
    | .scan pass index =>
      match b.sched.sleepingQ.get index with
      | some t => !b.sched.ready pass reading t || (b.sched.tasks t).pinned.isSome ||
          decide (∀ d, b.created d (b.sched.tasks t).p)
      | none => true
    | _ => true
  | _ => true

/-! ### The start of the cores -/

/-- No task is created twice, and every core creates an idle task. -/
structure Plan.WellFormed (plan : Plan) : Prop where
  nodup : ∀ c, (plan.tasks c).Nodup
  disjoint : ∀ c d t, t ∈ plan.tasks c → t ∈ plan.tasks d → c = d
  idle : ∀ c, ∃ t ∈ plan.tasks c, plan.body t = .idle

/-- Core 0 has created its queues and tasks and is about to enable its interrupts; the other cores have
    done nothing yet. -/
structure Starting (plan : Plan) (b : BootState) : Prop where
  wellFormed : plan.WellFormed
  first : b.progress 0 = 21 + (plan.tasks 0).length
  others : ∀ c, c ≠ 0 → b.progress c = 0
  queued : ∀ p t, (b.sched.runningQ 0 p).array.count t =
    if t ∈ plan.tasks 0 ∧ (b.sched.tasks t).p = p then 1 else 0
  create : ∀ t ∈ plan.tasks 0, ∃ pid sleepingOnLock,
    b.sched.tasks t = (plan.body t).create 0 pid sleepingOnLock
  empty : ∀ c, c ≠ 0 → ∀ p, (b.sched.runningQ c p).array = []
  sleepingQ : b.sched.sleepingQ.array = []
  sleepingQLock : b.sched.sleepingQLock = none
  handler : ∀ c, b.sched.handler c = .none
  sleepIrq : ∀ c source, b.sched.sleepIrq c source = none
  boot : ∀ c d, b.sched.currentTask c ∉ plan.tasks d
  hang : ∀ c, b.sched.regs c = .hang

/-- The tasks of `kernel_main` and `initSecondaryCore` with `THREAD_N` equal to `n`. -/
def kernelPlan (n : Nat) : Plan where
  tasks c := (List.range (n + 2)).map (taskOf n c)
  body := taskBody n

/-- `kernel_main` when it starts the other cores. -/
def kernelStart (n : Nat) : BootState where
  sched :=
    { kernelBoot n with
      runningQ := fun c p => if c = 0 then (kernelBoot n).runningQ 0 p else ArrayList.new false }
  progress c := if c = 0 then 21 + (n + 2) else 0

end Rpi4Kernel.Sched
