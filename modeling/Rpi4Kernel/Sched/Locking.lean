/-
Module: Rpi4Kernel.Sched.Locking
Layer: Sched
Purpose: One `Spinlock` (`Spinlock.cpp`) under any number of agents that call `spin`, `get`, `release`
  and `free` in any order. An agent is a task in the code that it runs on some core, that of a handler
  that interrupts it included. `current` is evaluated in more than one step, with interrupts enabled
  or not, so what an agent finds there need not be itself: each access through it is given what was
  found.
Trusted boundary: `_test_set_lock`, the successful exit of `_spin_lock` and `_spin_unlock` are one
  step each, and so is every store. Agents are never held back by the scheduler, so every order of
  steps of the real system is one of these. `holds`, `acquired` and `stored` are read by no step but
  the check that a caller of `release` and `free` holds the lock: they record what has happened.
Main exports: LockPoint, LockState, LockCall, LockEvent, lockStep, LockState.Fresh, findsItself
-/
import Rpi4Kernel.Sched.State

namespace Rpi4Kernel.Sched

variable {α : Type} [DecidableEq α]

/-- Where an agent stands in a call on the lock. -/
inductive LockPoint where
  /-- In no call. -/
  | outside
  /-- `Spinlock::spin`, before `_spin_lock` exits. -/
  | spinLock
  /-- `Spinlock::spin`, before `ownerPid = current->pid`. -/
  | spinOwner
  /-- `Spinlock::get`, before `testAndSet`. -/
  | getTest
  /-- `Spinlock::get`, before `current->sleepingOnLock = this`. -/
  | getStore
  /-- `Spinlock::get`, before `current->sleep()`. -/
  | getSleep
  /-- `Spinlock::get`, before `ownerPid = current->pid`. -/
  | getOwner
  /-- `Spinlock::release`, called by `free` or not, before `ownerPid = 0`. -/
  | releaseOwner (byFree : Bool)
  /-- `Spinlock::release`, before `_spin_unlock`. -/
  | releaseUnlock (byFree : Bool)
  /-- `Spinlock::free`, before `GIC400::send_sgi`. -/
  | freeSgi
deriving DecidableEq, Repr

/-- The lock and the agents that use it. `sleepingOnLock` is whether the task of an agent points to this
    lock. -/
structure LockState (α : Type) where
  lock : Spinlock
  point : α → LockPoint
  sleepingOnLock : α → Bool
  /-- The agent has acquired the lock and not unlocked it since. -/
  holds : α → Bool
  /-- The lock has been acquired. -/
  acquired : Bool
  /-- The last store of an owner: the agent that has made it, and the one that it had found as
      `current`. -/
  stored : Option (α × α)

/-- The four calls. -/
inductive LockCall where
  | spin
  | get
  | release
  | free
deriving DecidableEq, Repr

/-- What can happen next. `exclusive` is whether an `stxr` succeeds, and `current` what the agent has
    found as `current` where it uses it. -/
inductive LockEvent (α : Type) where
  | call (agent : α) (call : LockCall)
  | proceed (agent : α) (exclusive : Bool) (current : α)
  /-- `wakeUpLocks` finds the task of the agent. -/
  | wakeUp (agent : α)
deriving DecidableEq, Repr

namespace LockState

/-- The lock with agent `a` at `point`. -/
def setPoint (s : LockState α) (a : α) (point : LockPoint) : LockState α :=
  { s with point := Function.update s.point a point }

/-- The lock acquired by agent `a`, which goes on at `point`. -/
def acquire (s : LockState α) (a : α) (point : LockPoint) : LockState α :=
  { s.setPoint a point with
    lock := { s.lock with locked := true }
    holds := Function.update s.holds a true
    acquired := true }

/-- `ownerPid = current->pid`. -/
def storeOwner (pid : α → Nat) (s : LockState α) (a current : α) : LockState α :=
  { s.setPoint a .outside with
    lock := { s.lock with ownerPid := pid current }
    stored := some (a, current) }

/-- An agent enters a call. Only the holder calls `release` and `free`. -/
def enter (s : LockState α) (a : α) : LockCall → Option (LockState α)
  | .spin => some (s.setPoint a .spinLock)
  | .get => some (s.setPoint a .getTest)
  | .release => if s.holds a then some (s.setPoint a (.releaseOwner false)) else none
  | .free => if s.holds a then some (s.setPoint a (.releaseOwner true)) else none

/-- An agent takes its next step inside a call. `_spin_lock` goes on waiting while the lock is set or
    the store fails; `_test_set_lock` answers 0. -/
def proceed (pid : α → Nat) (s : LockState α) (a : α) (exclusive : Bool) (current : α) :
    Option (LockState α) :=
  match s.point a with
  | .outside => none
  | .spinLock => if !s.lock.locked && exclusive then some (s.acquire a .spinOwner) else some s
  | .spinOwner => some (s.storeOwner pid a current)
  | .getTest =>
    if !s.lock.locked && exclusive then some (s.acquire a .getOwner) else some (s.setPoint a .getStore)
  | .getStore =>
    some { s.setPoint a .getSleep with sleepingOnLock := Function.update s.sleepingOnLock current true }
  | .getSleep => some (s.setPoint a .getTest)
  | .getOwner => some (s.storeOwner pid a current)
  | .releaseOwner byFree =>
    some { s.setPoint a (.releaseUnlock byFree) with lock := { s.lock with ownerPid := 0 } }
  | .releaseUnlock byFree =>
    some { s.setPoint a (if byFree then .freeSgi else .outside) with
      lock := { s.lock with locked := false }
      holds := Function.update s.holds a false }
  | .freeSgi => some (s.setPoint a .outside)

/-- A lock as the constructor leaves it: it sets `l.val` and nothing else. -/
structure Fresh (s : LockState α) : Prop where
  unlocked : s.lock.locked = false
  outside : ∀ a, s.point a = .outside
  notHeld : ∀ a, s.holds a = false
  notAcquired : s.acquired = false
  notStored : s.stored = none

end LockState

/-- A step of the lock. -/
def lockStep (pid : α → Nat) (s : LockState α) : LockEvent α → Option (LockState α)
  | .call a call => if s.point a = .outside then s.enter a call else none
  | .proceed a exclusive current => s.proceed pid a exclusive current
  | .wakeUp a =>
    if s.sleepingOnLock a = true ∧ s.lock.ownerPid = 0 then
      some { s with sleepingOnLock := Function.update s.sleepingOnLock a false }
    else none

/-- The agent has acquired the lock and stores its pid next. -/
def LockPoint.storing : LockPoint → Bool
  | .spinOwner | .getOwner => true
  | _ => false

/-- An agent that stores the owner has found itself as `current`: it has not moved to another core
    while it evaluated it. -/
def findsItself (s : LockState α) : LockEvent α → Bool
  | .proceed a _ current => !(s.point a).storing || current = a
  | _ => true

end Rpi4Kernel.Sched
