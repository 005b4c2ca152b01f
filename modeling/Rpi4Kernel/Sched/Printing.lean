/-
Module: Rpi4Kernel.Sched.Printing
Layer: Sched
Purpose: `Console::print` and `Console::print_no_lock` (`Console.cpp`) called by any number of agents
  at a time, as `setKernelConsole` leaves the console: with a UART behind `kernel_console` and one
  `Spinlock` in `lock`. A character is written by `UART::write(const char)`, which polls
  `AUX_MU_LSR_REG` until its bit for an empty transmitter is set and stores to `AUX_MU_IO_REG` then.
Trusted boundary: what a call does to the console and to the lock is what `print` of `Drivers.Console`
  computes; every access to a register of the UART and every step of the lock is one step. `locks` and
  `calls` are read by no step: they record what has happened, as the mark on each store does.
Main exports: PrintCall, Printing, PrintEvent, printStep, Printing.Fresh
-/
import Rpi4Kernel.Sched.Locking
import Rpi4Kernel.Drivers.Console

namespace Rpi4Kernel.Sched

open Rpi4Kernel.Drivers Rpi4Kernel.Stdlib

variable {α : Type} [DecidableEq α]

/-- What an agent does on the console. -/
structure PrintCall where
  /-- What is left of its call. -/
  left : List ConsoleEffect
  /-- `isWriteByteReady` has just answered that it is. -/
  ready : Bool
  /-- The call is one of `print`. -/
  locks : Bool
  /-- What its calls of `print` do, the one that is not over included. -/
  calls : List (List ConsoleEffect)

/-- The lock of the console, the agents, and the stores to `AUX_MU_IO_REG`, each with whether `print`
    makes it. -/
structure Printing (α : Type) where
  lock : LockState α
  agent : α → PrintCall
  stores : List (Bool × Char)

/-- What can happen next. `buf` is what the array `buf` of the call holds, `lsr` what `AUX_MU_LSR_REG`
    reads and `exclusive` whether an `stxr` succeeds and `current` what the agent has found as
    `current`. -/
inductive PrintEvent (α : Type) where
  | print (agent : α) (format : CString) (args : Nat → Slot) (buf : Buffer 40)
  | printNoLock (agent : α) (format : CString) (args : Nat → Slot) (buf : Buffer 40)
  | proceed (agent : α) (exclusive : Bool) (current : α) (lsr : Nat)

namespace Printing

/-- Agent `a` goes on with `call`. -/
def setAgent (s : Printing α) (a : α) (call : PrintCall) : Printing α :=
  { s with agent := Function.update s.agent a call }

/-- `kernel_console->write(c)` with `rest` left of the call behind it. -/
def write (s : Printing α) (a : α) (c : Char) (rest : List ConsoleEffect) (lsr : Nat) : Printing α :=
  let call := s.agent a
  if call.ready then
    { s.setAgent a { call with left := rest, ready := false } with
      stores := s.stores ++ [(call.locks, c)] }
  else s.setAgent a { call with ready := lsr &&& 0x20 != 0 }

/-- The next step of an agent in no call on the lock. -/
def next (s : Printing α) (a : α) (lsr : Nat) : Option (Printing α) :=
  let call := s.agent a
  match call.left with
  | [] => none
  | .spin :: rest =>
    (s.lock.enter a .spin).map fun lock => { s.setAgent a { call with left := rest } with lock := lock }
  | .write c :: rest => some (s.write a c rest lsr)
  | .release :: rest =>
    (s.lock.enter a .release).map fun lock =>
      { s.setAgent a { call with left := rest } with lock := lock }

/-- Nobody has called. -/
structure Fresh (s : Printing α) : Prop where
  lock : s.lock.Fresh
  idle : ∀ a, (s.agent a).left = []
  notCalled : ∀ a, (s.agent a).calls = []
  noStores : s.stores = []

end Printing

/-- A step of the agents that print. An agent calls when its last call is over. -/
def printStep (pid : α → Nat) (strings : Slot → CString) (s : Printing α) :
    PrintEvent α → Option (Printing α)
  | .print a format args buf =>
    if (s.agent a).left = [] ∧ s.lock.point a = .outside then
      (Drivers.print ⟨true, true⟩ strings format args buf).map fun effects =>
        s.setAgent a ⟨effects, false, true, (s.agent a).calls ++ [effects]⟩
    else none
  | .printNoLock a format args buf =>
    if (s.agent a).left = [] ∧ s.lock.point a = .outside then
      (Drivers.printNoLock ⟨true, true⟩ strings format args buf).map fun effects =>
        s.setAgent a ⟨effects, false, false, (s.agent a).calls⟩
    else none
  | .proceed a exclusive current lsr =>
    if s.lock.point a = .outside then s.next a lsr
    else (s.lock.proceed pid a exclusive current).map fun lock => { s with lock := lock }

end Rpi4Kernel.Sched
