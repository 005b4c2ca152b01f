/-
Module: Rpi4Kernel.Sched.LockRoutines
Layer: Sched
Purpose: The routines `_spin_lock`, `_test_set_lock` and `_spin_unlock` of `functions.S` instruction
  by instruction, and `Spinlock.cpp` calling them: every agent is at a statement of `Spinlock.cpp`, or
  at an instruction of the routine that the statement calls.
Trusted boundary: the memory is sequentially consistent for the one word. A store-exclusive may fail
  for no reason. Whatever else the core of an agent does ends with an exception return, which clears
  the exclusive monitor and sets the event register; events may be sent to any core at any time.
  `owned` is read by no step but the check that a caller of `release` and `free` owns the lock.
Main exports: LockInstr, LockRegs, _spin_lock, _test_set_lock, _spin_unlock, LockPoint.routine,
  LockMachine, LockAsmEvent, lockAsmStep, LockMachine.Fresh
-/
import Rpi4Kernel.Sched.Locking
import Rpi4Kernel.Theory.ExclusiveMonitor

namespace Rpi4Kernel.Sched

open Rpi4Kernel.Theory

/-! ### Instructions -/

/-- The instructions of the three routines, with the operands that they have there. -/
inductive LockInstr where
  /-- `mov w2, #imm` -/
  | movW2 (imm : BitVec 32)
  /-- `mov x0, imm` -/
  | movX0 (imm : BitVec 64)
  | sevl
  | wfe
  /-- `ldaxr w1, [x0]` -/
  | ldaxr
  /-- `stxr w1, w2, [x0]` -/
  | stxr
  /-- `stlr wzr, [x0]` -/
  | stlr
  /-- `cbnz w1, target` -/
  | cbnzW1 (target : Nat)
  | b (target : Nat)
  | ret
deriving DecidableEq, Repr

/-- `_spin_lock`: `l1` is instruction 2, `l2` is instruction 3. -/
def _spin_lock : List LockInstr :=
  [.movW2 1, .sevl, .wfe, .ldaxr, .cbnzW1 2, .stxr, .cbnzW1 3, .ret]

/-- `_test_set_lock`: `busy` is instruction 7, `end` is instruction 8. -/
def _test_set_lock : List LockInstr :=
  [.movW2 1, .ldaxr, .cbnzW1 7, .stxr, .cbnzW1 7, .movX0 1, .b 8, .movX0 0, .ret]

/-- `_spin_unlock`. -/
def _spin_unlock : List LockInstr :=
  [.stlr, .ret]

/-- The routine that a statement of `Spinlock.cpp` calls. -/
def LockPoint.routine : LockPoint → List LockInstr
  | .spinLock => _spin_lock
  | .getTest => _test_set_lock
  | .releaseUnlock _ => _spin_unlock
  | _ => []

/-- The registers that the routines use, and the program counter in the routine. -/
structure LockRegs where
  x0 : BitVec 64
  w1 : BitVec 32
  w2 : BitVec 32
  pc : Nat
deriving DecidableEq, Repr

/-- The registers after an instruction that goes on with the next one. -/
def LockRegs.next (r : LockRegs) : LockRegs :=
  { r with pc := r.pc + 1 }

/-! ### Agents -/

/-- The word of the lock with the monitors and event registers, and the agents. `owned` is whether the
    agent has returned from `spin` or `get` and called neither `release` nor `free` since. -/
structure LockMachine (α : Type) where
  memory : MonitoredWord α (BitVec 32)
  ownerPid : Nat
  point : α → LockPoint
  regs : α → LockRegs
  sleepingOnLock : α → Bool
  owned : α → Bool

/-- What can happen next. `lets` is whether the hardware lets an `stxr` succeed, and `current` what
    the agent has found as `current` where it uses it. -/
inductive LockAsmEvent (α : Type) where
  | call (agent : α) (call : LockCall)
  | proceed (agent : α) (lets : Bool) (current : α)
  /-- `wakeUpLocks` finds the task of the agent. -/
  | wakeUp (agent : α)
  /-- The core of the agent returns from an exception. -/
  | eret (agent : α)
  /-- An event is sent to the core of the agent. -/
  | sendEvent (agent : α)
deriving DecidableEq, Repr

variable {α : Type} [DecidableEq α]

namespace LockMachine

/-- The agent goes on at `point`, with the pointer `lock` to the word as the argument of the routine
    that is called there. -/
def goTo (lock : BitVec 64) (s : LockMachine α) (a : α) (point : LockPoint) : LockMachine α :=
  { s with
    point := Function.update s.point a point
    regs := Function.update s.regs a { s.regs a with x0 := lock, pc := 0 } }

/-- The registers of the agent are set. -/
def setRegs (s : LockMachine α) (a : α) (r : LockRegs) : LockMachine α :=
  { s with regs := Function.update s.regs a r }

/-- The memory is set. -/
def setMemory (s : LockMachine α) (m : MonitoredWord α (BitVec 32)) : LockMachine α :=
  { s with memory := m }

/-- The agent executes an instruction other than `ret`. An access to anything else than the word of the
    lock is outside the model. -/
def execute (lock : BitVec 64) (s : LockMachine α) (a : α) (lets : Bool) :
    LockInstr → Option (LockMachine α)
  | .movW2 imm => some (s.setRegs a { (s.regs a).next with w2 := imm })
  | .movX0 imm => some (s.setRegs a { (s.regs a).next with x0 := imm })
  | .sevl => some ((s.setMemory (s.memory.sendEvent a)).setRegs a (s.regs a).next)
  | .wfe => (s.memory.waitForEvent a).map fun m => (s.setMemory m).setRegs a (s.regs a).next
  | .ldaxr =>
    if (s.regs a).x0 = lock then
      some ((s.setMemory (s.memory.loadExclusive a)).setRegs a
        { (s.regs a).next with w1 := s.memory.word })
    else none
  | .stxr =>
    if (s.regs a).x0 = lock then
      some ((s.setMemory (s.memory.storeExclusive a (s.regs a).w2 lets)).setRegs a
        { (s.regs a).next with w1 := if s.memory.succeeds a lets then 0 else 1 })
    else none
  | .stlr =>
    if (s.regs a).x0 = lock then
      some ((s.setMemory (s.memory.store a 0)).setRegs a (s.regs a).next)
    else none
  | .cbnzW1 target =>
    some (s.setRegs a (if (s.regs a).w1 ≠ 0 then { s.regs a with pc := target } else (s.regs a).next))
  | .b target => some (s.setRegs a { s.regs a with pc := target })
  | .ret => none

/-- The agent returns from the routine to `Spinlock.cpp`. `testAndSet` returns the low half of `x0`. -/
def ret (lock : BitVec 64) (s : LockMachine α) (a : α) : Option (LockMachine α) :=
  match s.point a with
  | .spinLock => some (s.goTo lock a .spinOwner)
  | .getTest =>
    if (s.regs a).x0.setWidth 32 = 0 then some (s.goTo lock a .getStore)
    else some (s.goTo lock a .getOwner)
  | .releaseUnlock byFree => some (s.goTo lock a (if byFree then .freeSgi else .outside))
  | _ => none

/-- The agent executes a statement of `Spinlock.cpp` that calls no routine of `functions.S`. -/
def statement (lock : BitVec 64) (pid : α → Nat) (s : LockMachine α) (a current : α) :
    Option (LockMachine α) :=
  match s.point a with
  | .spinOwner | .getOwner =>
    some { s.goTo lock a .outside with
      ownerPid := pid current
      owned := Function.update s.owned a true }
  | .getStore =>
    some { s.goTo lock a .getSleep with
      sleepingOnLock := Function.update s.sleepingOnLock current true }
  | .getSleep => some (s.goTo lock a .getTest)
  | .releaseOwner byFree => some { s.goTo lock a (.releaseUnlock byFree) with ownerPid := 0 }
  | .freeSgi => some (s.goTo lock a .outside)
  | .outside | .spinLock | .getTest | .releaseUnlock _ => none

/-- The agent takes its next step inside a call. -/
def proceed (lock : BitVec 64) (pid : α → Nat) (s : LockMachine α) (a : α) (lets : Bool) (current : α) :
    Option (LockMachine α) :=
  match (s.point a).routine[(s.regs a).pc]? with
  | some .ret => s.ret lock a
  | some instr => s.execute lock a lets instr
  | none => s.statement lock pid a current

/-- An agent enters a call. Only the owner calls `release` and `free`. -/
def enter (lock : BitVec 64) (s : LockMachine α) (a : α) : LockCall → Option (LockMachine α)
  | .spin => some (s.goTo lock a .spinLock)
  | .get => some (s.goTo lock a .getTest)
  | .release =>
    if s.owned a then
      some { s.goTo lock a (.releaseOwner false) with owned := Function.update s.owned a false }
    else none
  | .free =>
    if s.owned a then
      some { s.goTo lock a (.releaseOwner true) with owned := Function.update s.owned a false }
    else none

/-- A lock as the constructor leaves it: it sets `l.val` and nothing else. -/
structure Fresh (s : LockMachine α) : Prop where
  unlocked : s.memory.word = 0
  outside : ∀ a, s.point a = .outside
  notOwned : ∀ a, s.owned a = false

end LockMachine

/-- A step of the lock, instruction by instruction. -/
def lockAsmStep (lock : BitVec 64) (pid : α → Nat) (s : LockMachine α) :
    LockAsmEvent α → Option (LockMachine α)
  | .call a call => if s.point a = .outside then s.enter lock a call else none
  | .proceed a lets current => s.proceed lock pid a lets current
  | .wakeUp a =>
    if s.sleepingOnLock a = true ∧ s.ownerPid = 0 then
      some { s with sleepingOnLock := Function.update s.sleepingOnLock a false }
    else none
  | .eret a => some (s.setMemory (s.memory.resume a))
  | .sendEvent a => some (s.setMemory (s.memory.sendEvent a))

end Rpi4Kernel.Sched
