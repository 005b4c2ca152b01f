/-
Module: Rpi4Kernel.Sched.SpinLocks
Layer: Sched
Purpose: The scheduler and the kernel's own tasks with every spinlock under them: `sleepingQLock`, the
  four `runningQLock` and the lock of `KernelHeapAllocator`. A section of `Rpi4Kernel.Sched.Handlers`
  is one step again, now between the steps that lock and unlock what guards it and what the allocator
  adds; tasks allocate and free in `kernelTask`, `paintCircle` and `screenTask`, with interrupts
  masked there by the bit of `PSTATE` that the context of a task keeps.
Trusted boundary: `_spin_lock` goes on in one step once the lock is free. Whether `circles` has to
  grow and whether the allocator finds a block are left open; without a block the core is in
  `Core::panic`. Who holds a lock is recorded beside it: `spin` asks only whether someone does.
Main exports: SchedLock, LockOp, TaskPlace, lockCode, SpinState, spinStep, SpinState.spinsOn,
  SpinState.LocksInOrder
-/
import Mathlib.Data.Fintype.Basic
import Rpi4Kernel.Sched.KernelTasks
import Rpi4Kernel.Theory.LockOrder

namespace Rpi4Kernel.Sched

open Rpi4Kernel.Stdlib Rpi4Kernel.Theory

/-! ### Locks and what is done with them -/

/-- The spinlocks of the scheduler and of the allocator. -/
inductive SchedLock where
  | sleepingQLock
  | runningQLock (core : Core)
  | heapLock
deriving DecidableEq, Repr

/-- The order in which the locks are acquired. -/
def SchedLock.rank : SchedLock → Nat
  | .sleepingQLock => 0
  | .runningQLock _ => 1
  | .heapLock => 2

/-- What the code does beside locking and unlocking. -/
inductive CoreOp where
  | disableIRQ
  | enableIRQ
  /-- `if (out == NULL)` in `KernelHeapAllocator::alloc`, where `Core::panic` follows. -/
  | checkNull
deriving DecidableEq, Repr

/-- An operation: `spin()`, `release()`, or one of the above. -/
abbrev LockOp := LockAction SchedLock CoreOp

/-- `KernelHeapAllocator::alloc`. -/
def heapAlloc : List LockOp := [.acquire .heapLock, .release .heapLock, .other .checkNull]

/-- `KernelHeapAllocator::free`. -/
def heapFree : List LockOp := [.acquire .heapLock, .release .heapLock]

/-- `ArrayList::reallocate()`: a new array, then the old one is deleted. -/
def reallocate : List LockOp := heapAlloc ++ heapFree

/-- `ArrayList::add(element)`. -/
def addOps {α : Type} (list : ArrayList α) : List LockOp :=
  if (list.getSize : Int) - 1 = list.capacity then reallocate else []

/-! ### Tasks -/

/-- A place in the code of a task with what is to be done before the next call. -/
structure TaskPlace where
  point : KernelPoint
  /-- The bit of `PSTATE` that masks interrupts. -/
  masked : Bool
  ops : List LockOp
deriving DecidableEq, Repr

/-- A section of a task with interrupts masked. -/
def masking (ops : List LockOp) : List LockOp :=
  .other .disableIRQ :: ops ++ [.other .enableIRQ]

/-- What a task does from a place on before it makes the next call. -/
def sections : KernelPoint → List (List LockOp)
  -- `kernelTask`: allocates the circle
  | .paintCircle => [masking heapAlloc]
  -- `paintCircle`: `circles->add(c)`
  | .painting => [masking [], masking reallocate]
  -- `screenTask`: `circles->remove(0)`
  | .screenDraw => [masking []]
  -- `screenTask`: draws, then `delete drawMe`
  | .drawing => [masking heapFree]
  | _ => [[]]

/-- The mask after an operation. -/
def LockOp.masks (op : LockOp) (masked : Bool) : Bool :=
  match op with
  | .other .disableIRQ => true
  | .other .enableIRQ => false
  | _ => masked

/-- The code of the kernel's own tasks with their operations: one after the other, then the next
    call. -/
def lockCode : Code TaskPlace := fun place call ret =>
  match place.ops with
  | [] =>
    kernelCode place.point call ret.point && ret.masked = place.masked && ret.ops ∈ sections ret.point
  | op :: ops =>
    call = .compute && ret = { place with masked := LockOp.masks op place.masked, ops := ops }

/-- The operation that a task does next. -/
def nextOp : Point TaskPlace → Option LockOp
  | .user place => place.ops.head?
  | _ => none

/-! ### Handlers -/

/-- The lock that the handler of core `c` acquires before its next section. -/
def lockFor (c : Core) : Handler → Option SchedLock
  | .sleepRemove _ => some (.runningQLock c)
  | .sleepAdd _ => some .sleepingQLock
  | .begin _ => some .sleepingQLock
  | .calcCore _ _ i _ _ => if h : i < 4 then some (.runningQLock ⟨i, h⟩) else none
  | .move _ _ nextCore => some (.runningQLock nextCore)
  | .pick _ => some (.runningQLock c)
  | _ => none

/-- What follows the section before the handler goes on, in the system before the section. A task that
    is not found in `sleepingQ` ends in `Core::panic` with the locks held. -/
def opsAfter {β : Type} (s : State β) (c : Core) : Handler → List LockOp
  | .sleepRemove _ => [.release (.runningQLock c)]
  | .sleepAdd _ => addOps s.sleepingQ ++ [.release .sleepingQLock]
  | .scan _ index => if (s.sleepingQ.get index).isNone then [.release .sleepingQLock] else []
  | .calcCore _ _ i _ _ => if h : i < 4 then [.release (.runningQLock ⟨i, h⟩)] else []
  | .move _ t nextCore =>
    match s.sleepingQ.removeElement t with
    | some (_, true) =>
      addOps (s.runningQ nextCore (s.tasks t).p) ++ [.release (.runningQLock nextCore)]
    | _ => []
  | .pick _ => [.release (.runningQLock c)]
  | _ => []

/-! ### The system -/

/-- Which code of a core has acquired a lock. -/
inductive Side where
  | task
  | handler
deriving DecidableEq, Repr

/-- The system with its spinlocks. -/
structure SpinState where
  system : State TaskPlace
  owner : SchedLock → Option (Core × Side)
  /-- What the handler of a core does before its next section. -/
  pending : Core → List LockOp
  /-- The handler of a core has acquired the lock for its next section. -/
  entered : Core → Bool
  /-- The core is in `Core::panic`: the allocator had no block. -/
  panicked : Core → Bool

/-- What can happen next. `found` is whether the allocator finds a block. -/
inductive SpinEvent where
  /-- A step of the scheduler or of a task. -/
  | system (e : Event TaskPlace) (found : Bool)
  /-- The handler of core `c` does its next operation. -/
  | handler (c : Core) (found : Bool)

namespace SpinState

/-- The code on core `c` does an operation. `_spin_lock` waits while the lock is held. -/
def exec (s : SpinState) (c : Core) (side : Side) (op : LockOp) (found : Bool) : Option SpinState :=
  match op with
  | .acquire l =>
    if s.owner l = none then some { s with owner := Function.update s.owner l (some (c, side)) }
    else none
  | .release l => some { s with owner := Function.update s.owner l none }
  | .other .checkNull =>
    some (if found then s else { s with panicked := Function.update s.panicked c true })
  | .other .disableIRQ | .other .enableIRQ => some s

/-- The handler of core `c` does its next operation. -/
def handlerOp (s : SpinState) (c : Core) (found : Bool) : Option SpinState :=
  match s.pending c with
  | op :: ops =>
    (s.exec c .handler op found).map fun s' => { s' with pending := Function.update s'.pending c ops }
  | [] =>
    match lockFor c (s.system.handler c) with
    | some l =>
      if s.entered c then none
      else
        (s.exec c .handler (.acquire l) found).map fun s' =>
          { s' with entered := Function.update s'.entered c true }
    | none => none

/-- The interrupts of core `c` are masked by its task. -/
def masked (s : SpinState) (c : Core) : Bool :=
  match (s.system.regs c).ret with
  | some place => place.masked
  | none => false

/-- A step of the scheduler or of a task. -/
def systemStep (s : SpinState) (e : Event TaskPlace) (found : Bool) : Option SpinState :=
  match e with
  | .timer | .interrupt _ _ _ =>
    if s.masked e.core then none
    else (step lockCode s.system e).map fun system => { s with system := system }
  | .handle c _ =>
    if (lockFor c (s.system.handler c)).isSome && !s.entered c then none
    else
      (step lockCode s.system e).map fun system =>
        { s with
          system := system
          pending := Function.update s.pending c (opsAfter s.system c (s.system.handler c))
          entered := Function.update s.entered c false }
  | .call c _ _ _ => do
    let s' ← match nextOp (s.system.regs c) with
      | some op => s.exec c .task op found
      | none => some s
    let system ← step lockCode s.system e
    some { s' with system := system }
  | .resume _ _ _ => (step lockCode s.system e).map fun system => { s with system := system }

end SpinState

/-- A step of the system. -/
def spinStep (s : SpinState) : SpinEvent → Option SpinState
  | .handler c found => if s.panicked c then none else s.handlerOp c found
  | .system e found =>
    if s.panicked e.core ∨ s.pending e.core ≠ [] then none else s.systemStep e found

/-! ### Properties -/

namespace SpinState

/-- Core `c` handles an interrupt. -/
def inHandler (s : SpinState) (c : Core) : Bool :=
  s.system.handler c ≠ .none || s.pending c ≠ []

/-- The lock that core `c` is about to acquire, on which it spins while another holds it. -/
def spinsOn (s : SpinState) (c : Core) : Option SchedLock :=
  if s.panicked c then none
  else
    match s.pending c with
    | .acquire l :: _ => some l
    | _ :: _ => none
    | [] =>
      if s.system.handler c ≠ .none then
        if s.entered c then none else lockFor c (s.system.handler c)
      else
        match nextOp (s.system.regs c) with
        | some (.acquire l) => some l
        | _ => none

/-- The core that holds a lock. -/
def holder (s : SpinState) (l : SchedLock) : Option Core := (s.owner l).map Prod.fst

/-- The locks are acquired in their order, no handler waits for the task that it has interrupted, and
    the cores do not wait for one another in a circle. -/
structure LocksInOrder (s : SpinState) : Prop where
  acquires : ∀ e s' l c side, spinStep s e = some s' → s'.owner l = some (c, side) →
    s.owner l ≠ some (c, side) → ∀ x, s.holder x = some c → x.rank < l.rank
  spins : ∀ c l x, s.spinsOn c = some l → s.holder x = some c → x.rank < l.rank
  interrupted : ∀ c l, s.inHandler c = true → s.owner l ≠ some (c, .task)
  acyclic : ∀ c, ¬ Relation.TransGen (WaitsFor s.spinsOn s.holder) c c

/-- The system booted with the kernel's own tasks and all locks free. -/
structure Started (home : TaskId → Option Core) (s : SpinState) : Prop where
  booted : Booted home s.system
  context : ∀ t, (s.system.tasks t).context = .hang ∨
    (s.system.tasks t).context = .user ⟨.kernelBegin, false, []⟩ ∨
    (s.system.tasks t).context = .user ⟨.screenBegin, false, []⟩
  owner : ∀ l, s.owner l = none
  pending : ∀ c, s.pending c = []
  entered : ∀ c, s.entered c = false

end SpinState

/-! ### The kernel after boot -/

/-- What `current` is evaluated for with its places renamed. -/
def Use.map {β γ : Type} (f : β → γ) : Use β → Use γ
  | .sleepMs ms called ret => .sleepMs ms called (f ret)
  | .sleepingOnLock l ret => .sleepingOnLock l (f ret)
  | .ownerPid l ret => .ownerPid l (f ret)
  | .premption change ret => .premption change (f ret)

/-- What an interrupt is sent for with its places renamed. -/
def Send.map {β γ : Type} (f : β → γ) : Send β → Send γ
  | .sleep ret => .sleep (f ret)
  | .getSleep l ret => .getSleep l (f ret)
  | .free ret => .free (f ret)

/-- A point with its places renamed. -/
def Point.map {β γ : Type} (f : β → γ) : Point β → Point γ
  | .hang => .hang
  | .user place => .user (f place)
  | .getCore use => .getCore (use.map f)
  | .loadCurrent core use => .loadCurrent core (use.map f)
  | .readCounter curr ms called ret => .readCounter curr ms called (f ret)
  | .storeTimer curr time asked ret => .storeTimer curr time asked (f ret)
  | .getTest l ret => .getTest l (f ret)
  | .getStore task l ret => .getStore task l (f ret)
  | .loadPid task l ret => .loadPid task l (f ret)
  | .getOwner pid l ret => .getOwner pid l (f ret)
  | .loadPremption task change ret => .loadPremption task change (f ret)
  | .storePremption task value ret => .storePremption task value (f ret)
  | .freeOwner l ret => .freeOwner l (f ret)
  | .freeUnlock l ret => .freeUnlock l (f ret)
  | .sendCore send => .sendCore (send.map f)
  | .sendSgi core send => .sendSgi core (send.map f)

/-- A task with the places of its code renamed. -/
def Task.map {β γ : Type} (f : β → γ) (task : Task β) : Task γ where
  context := task.context.map f
  pid := task.pid
  p := task.p
  premption := task.premption
  timer := task.timer
  sleepingOnLock := task.sleepingOnLock
  pinned := task.pinned

/-- A system with the places of its code renamed. -/
def State.map {β γ : Type} (f : β → γ) (s : State β) : State γ where
  currentTask := s.currentTask
  regs c := (s.regs c).map f
  handler := s.handler
  sleepIrq := s.sleepIrq
  rescheduleIrq := s.rescheduleIrq
  wakeUpIrq := s.wakeUpIrq
  tasks t := (s.tasks t).map f
  locks := s.locks
  runningQ := s.runningQ
  sleepingQ := s.sleepingQ
  sleepingQLock := s.sleepingQLock
  unsaved := s.unsaved
  holds := s.holds

/-- A place at which nothing is to be done before the next call, with interrupts unmasked. -/
def TaskPlace.start (point : KernelPoint) : TaskPlace := ⟨point, false, []⟩

/-- The system after `kernel_main` and `initSecondaryCore` with `THREAD_N` equal to `n`. -/
def spinBoot (n : Nat) : SpinState where
  system := (kernelBoot n).map TaskPlace.start
  owner _ := none
  pending _ := []
  entered _ := false
  panicked _ := false

end Rpi4Kernel.Sched
