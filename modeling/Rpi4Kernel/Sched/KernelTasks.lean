/-
Module: Rpi4Kernel.Sched.KernelTasks
Layer: Sched
Purpose: The kernel's own tasks (`idleTask`, `kernelTask`, `screenTask` in `Task.cpp`), how they are
  created, and the system as `kernel_main` and `initSecondaryCore` leave it.
Trusted boundary: all four cores are initialised before the first timer interrupt, which is armed
  100000 microseconds after the last core has been started. Whether `circles` is empty when
  `screenTask` looks is left open. `createKernelTask` leaves `sleepingOnLock` as the memory has it,
  and the constructor of `Spinlock` does so with `ownerPid`; `kernelBoot` has fresh memory filled with
  zeros.
Main exports: KernelPoint, kernelCode, createKernelTask, Booted, KernelBooted, kernelBoot
-/
import Rpi4Kernel.Sched.Tasks

namespace Rpi4Kernel.Sched

open Rpi4Kernel.Stdlib

/-! ### The bodies -/

/-- The places between the calls in `kernelTask` (with `paintCircle`) and in `screenTask`. -/
inductive KernelPoint where
  /-- The head of the loop of `kernelTask`. -/
  | kernelBegin
  /-- `paintCircle`, before `fb_lock->get()`. -/
  | paintCircle
  /-- `paintCircle`, with `fb_lock`. -/
  | painting
  /-- `kernelTask`, after `paintCircle`. -/
  | painted
  /-- The label `_begin` of `screenTask`. -/
  | screenBegin
  /-- `screenTask`, with `fb_lock`, before the test of `circles->getSize()`. -/
  | screenTest
  /-- `screenTask`, about to draw. -/
  | screenDraw
  /-- `screenTask`, drawing with preemption disabled. -/
  | drawing
  /-- `screenTask`, done with drawing. -/
  | drawn
  /-- The label `_sleep` of `screenTask`. -/
  | screenSleep
deriving DecidableEq, Repr

/-- The lock `fb_lock`. -/
def fbLock : LockId := 0

/-- The code of `kernelTask` and `screenTask`. -/
def kernelCode : Code KernelPoint
  | .kernelBegin, .sleepMs ms, .paintCircle => 2000 ≤ ms && ms < 3000
  | .paintCircle, .get l, .painting => l = fbLock
  | .painting, .free l, .painted => l = fbLock
  | .painted, .sleepMs ms, .kernelBegin => ms = 1000
  | .screenBegin, .get l, .screenTest => l = fbLock
  | .screenTest, .compute, .screenDraw => true
  | .screenTest, .free l, .screenSleep => l = fbLock
  | .screenDraw, .preemptDisable, .drawing => true
  | .drawing, .preemptEnable, .drawn => true
  | .drawn, .free l, .screenBegin => l = fbLock
  | .screenSleep, .sleepMs ms, .screenBegin => ms = 16
  | _, _, _ => false

/-! ### Creation -/

/-- `Task::createKernelTask(entryPoint)`, which leaves `sleepingOnLock` as it is. -/
def createKernelTask {β : Type} (entryPoint : Point β) (pid : Nat) (sleepingOnLock : Option LockId) :
    Task β where
  context := entryPoint
  pid := pid
  p := 20
  premption := 0
  timer := 0
  sleepingOnLock := sleepingOnLock
  pinned := none

/-- The three bodies. -/
inductive Body where
  | idle
  | kernel
  | screen
deriving DecidableEq, Repr

/-- A task as `kernel_main` and `initSecondaryCore` set it up for their core. -/
def Body.create (body : Body) (core : Core) (pid : Nat) (sleepingOnLock : Option LockId) :
    Task KernelPoint :=
  match body with
  | .idle => createKernelTask .hang pid sleepingOnLock
  | .kernel => { createKernelTask (.user .kernelBegin) pid sleepingOnLock with p := 19 }
  | .screen =>
    { createKernelTask (.user .screenBegin) pid sleepingOnLock with p := 0, pinned := some core }

/-! ### The system after boot -/

/-- The system with its cores up and no interrupt taken yet: the created tasks are in the run queues
    of their cores, each once, and about to begin their code; every core still runs the task object it
    has set up for itself, which is in no queue and loops for ever. `home` has the core of each task
    that was created. -/
structure Booted {β : Type} (home : TaskId → Option Core) (s : State β) : Prop where
  queued : ∀ c p t, (s.runningQ c p).array.count t =
    if home t = some c ∧ (s.tasks t).p = p then 1 else 0
  sleepingQ : s.sleepingQ.array = []
  sleepingQLock : s.sleepingQLock = none
  handler : ∀ c, s.handler c = .none
  sleepIrq : ∀ c source, s.sleepIrq c source = none
  entry : ∀ t, (s.tasks t).context = .hang ∨ ∃ place, (s.tasks t).context = .user place
  boot : ∀ c, home (s.currentTask c) = none
  hang : ∀ c, s.regs c = .hang
  distinct : ∀ c d, s.currentTask c = s.currentTask d → c = d
  unsaved : ∀ t d, s.unsaved t = some d → s.currentTask d = t
  pinned : ∀ t c d, home t = some c → (s.tasks t).pinned = some d → d = c

/-- The system booted with the kernel's own tasks, an idle task on every core. -/
structure KernelBooted (home : TaskId → Option Core) (body : TaskId → Body) (s : State KernelPoint) :
    Prop extends Booted home s where
  created : ∀ t c, home t = some c →
    ∃ pid sleepingOnLock, s.tasks t = (body t).create c pid sleepingOnLock
  idle : ∀ c, ∃ t, home t = some c ∧ body t = .idle

/-- Task `i` of core `c` when every core creates `n` kernel tasks: task 0 is the idle task and task
    `n + 1` the screen task. -/
def taskOf (n : Nat) (c : Core) (i : Nat) : TaskId := c * (n + 2) + i

/-- The core that has created a task. -/
def taskHome (n : Nat) (t : TaskId) : Option Core :=
  if h : t / (n + 2) < 4 then some ⟨t / (n + 2), h⟩ else none

/-- The body of a task. -/
def taskBody (n : Nat) (t : TaskId) : Body :=
  if t % (n + 2) = 0 then .idle else if t % (n + 2) = n + 1 then .screen else .kernel

/-- The tasks in a run queue when its core is up, in the order in which they were added. -/
def bootQueue (n : Nat) (c : Core) (p : Priority) : List TaskId :=
  if p = 20 then [taskOf n c 0]
  else if p = 19 then (List.range n).map fun i => taskOf n c (i + 1)
  else if p = 0 then [taskOf n c (n + 1)]
  else []

/-- The system after `kernel_main` and `initSecondaryCore` with `THREAD_N` equal to `n`, the cores being
    initialised in order. -/
def kernelBoot (n : Nat) : State KernelPoint where
  currentTask c := 4 * (n + 2) + c
  regs _ := .hang
  handler _ := .none
  sleepIrq _ _ := none
  rescheduleIrq _ _ := false
  wakeUpIrq _ _ := false
  tasks t :=
    match taskHome n t with
    | some c => (taskBody n t).create c (t + 1) none
    | none =>
      { context := .hang, pid := 0, p := 0, premption := 0, timer := 0, sleepingOnLock := none
        pinned := none }
  locks _ := { locked := false, ownerPid := 0 }
  runningQ c p := (bootQueue n c p).foldl ArrayList.add (ArrayList.new false)
  sleepingQ := ArrayList.new false
  sleepingQLock := none
  unsaved t := (List.finRange 4).find? fun c => 4 * (n + 2) + c = t
  holds _ _ := false

/-- `THREAD_N`. -/
def threadN : Nat := 100

/-! ### Schedules -/

/-- `reschedule` on core `c` from its first to its last step. -/
def switchTask (c : Core) (hash : Nat) : List (Event KernelPoint) := List.replicate 5 (.handle c hash)

/-- A reschedule interrupt on core `c`. -/
def rescheduleNow (c : Core) (hash : Nat) : List (Event KernelPoint) :=
  .interrupt c .reschedule 0 :: switchTask c hash

/-- A sleep interrupt on core `c`, which it has requested itself. -/
def sleepNow (c : Core) (hash : Nat) : List (Event KernelPoint) :=
  .interrupt c .sleep c :: .handle c 0 :: .handle c 0 :: switchTask c hash

/-- A timer tick while no task sleeps. -/
def firstTick : List (Event KernelPoint) := .timer :: List.replicate 8 (.handle 0 0)

/-- The task of core `c` takes `n` steps inside a call. -/
def resumes {β : Type} (c : Core) (now n : Nat) : List (Event β) :=
  List.replicate n (.resume c true now)

/-- `Task::sleep(ms)` up to its return. -/
def callSleep {β : Type} (c : Core) (ms now : Nat) (ret : β) : List (Event β) :=
  .call c (.sleepMs ms) ret now :: resumes c now 6

/-- `fb_lock->get()` when the lock is free. -/
def callGet {β : Type} (c : Core) (ret : β) : List (Event β) :=
  .call c (.get fbLock) ret 0 :: resumes c 0 5

/-- `fb_lock->get()` when the lock is set, up to the request to sleep. -/
def callGetBusy {β : Type} (c : Core) (ret : β) : List (Event β) :=
  .call c (.get fbLock) ret 0 :: resumes c 0 6

/-- `fb_lock->free()`. -/
def callFree {β : Type} (c : Core) (ret : β) : List (Event β) :=
  .call c (.free fbLock) ret 0 :: resumes c 0 4

/-- A turn of `screenTask` without a circle to draw, up to the return of `sleep(16)`. -/
def screenTurn (c : Core) (now : Nat) : List (Event KernelPoint) :=
  callGet c .screenTest ++ callFree c .screenSleep ++ callSleep c 16 now .screenBegin

end Rpi4Kernel.Sched
