/-
Module: Rpi4Kernel.Drivers.SystemTimer
Layer: Drivers
Purpose: The system timer of the board and its driver (`SystemTimer.h`, `SystemTimer.cpp`): a
  free-running 64-bit counter that is read in halves of 32 bits, four compare registers, and a status
  register whose match flags are cleared by writing a one. Time passes between any two accesses to a
  register.
Trusted boundary: the counter does not go backwards; it is at `time k` when the driver makes access
  number `k` to a register of the timer. The flag of a channel is set when the low half of the counter
  becomes equal to its compare register.
Main exports: readCounter, getCounter, SystemTimer, waitMicroT1, systemTimerIrq1
-/
import Mathlib.Logic.Function.Basic
import Mathlib.Tactic

namespace Rpi4Kernel.Drivers

/-! ### The counter -/

/-- `counter_lo`, when the counter shows `counter`. -/
def counterLo (counter : ℕ) : ℕ := counter % 2 ^ 32

/-- `counter_hi`. -/
def counterHi (counter : ℕ) : ℕ := counter / 2 ^ 32 % 2 ^ 32

/-- The loop of `getCounter`, `WaitMicroT1` and `WaitMicroT3`, which reads the low half, the high half
    and the high half again: `lo`, `hi` and the number of the access after it. It begins with access
    `k`. -/
def readCounter (time : ℕ → ℕ) : ℕ → ℕ → Option (ℕ × ℕ × ℕ)
  | 0, _ => none
  | fuel + 1, k =>
    let lo := counterLo (time k)
    let hi := counterHi (time (k + 1))
    if hi ≠ counterHi (time (k + 2)) then readCounter time fuel (k + 3) else some (lo, hi, k + 3)

/-- `getCounter()`: its value and the number of the access after it. -/
def getCounter (time : ℕ → ℕ) (fuel k : ℕ) : Option (ℕ × ℕ) := do
  let (lo, hi, k) ← readCounter time fuel k
  let out := hi <<< 32 % 2 ^ 64
  some ((out + lo) % 2 ^ 64, k)

/-! ### The registers -/

/-- The timer: `compare0` to `compare3`, and the match flags, which are the bits 0 to 3 of
    `control_status`. -/
structure SystemTimer where
  counter : ℕ
  compare : Fin 4 → ℕ
  controlStatus : Fin 4 → Bool

namespace SystemTimer

/-- The low half of the counter becomes equal to `compare` while the counter goes on to `time`. -/
def reaches (t : SystemTimer) (time compare : ℕ) : Bool :=
  ∃ e < time - t.counter, counterLo (t.counter + 1 + e) = compare

/-- The timer when its counter has gone on to `time`. -/
def advanceTo (t : SystemTimer) (time : ℕ) : SystemTimer where
  counter := time
  compare := t.compare
  controlStatus := fun n => t.controlStatus n || t.reaches time (t.compare n)

/-- A write to `compare0` to `compare3`. -/
def writeCompare (t : SystemTimer) (n : Fin 4) (value : ℕ) : SystemTimer :=
  { t with compare := Function.update t.compare n value }

/-- A write to `control_status`: the flags written as one are cleared. -/
def writeControlStatus (t : SystemTimer) (value : Fin 4 → Bool) : SystemTimer :=
  { t with controlStatus := fun n => t.controlStatus n && !value n }

/-- What `WaitMicroT1` and `WaitMicroT3` do for their channels: the timer, and the number of the access
    after it. -/
def waitMicro (n : Fin 4) (time : ℕ → ℕ) (fuel k : ℕ) (t : SystemTimer) (us : ℕ) :
    Option (SystemTimer × ℕ) := do
  let (lo, _, k) ← readCounter time fuel k
  some ((t.advanceTo (time k)).writeCompare n ((lo + us) % 2 ^ 32), k + 1)

/-- `WaitMicroT1(us)`. -/
def waitMicroT1 := waitMicro 1

/-- `WaitMicroT3(us)`. -/
def waitMicroT3 := waitMicro 3

/-- What the timer shows around the acknowledgement of an interrupt. -/
structure Acknowledged where
  /-- At the read of `control_status`. -/
  before : SystemTimer
  /-- After the write of `control_status`. -/
  after : SystemTimer
  /-- When the handler returns, at `time` of `returned`. -/
  last : SystemTimer
  returned : ℕ

/-- The accesses of `SYSTEM_TIMER_IRQ_1` in `irq_handler_spx` that write to the timer, behind
    `wakeUpTimers` and `reschedule`: `WaitMicroT1(2000)` and `control_status |= 0b0010`, which reads the
    register before it writes it. -/
def systemTimerIrq1 (time : ℕ → ℕ) (fuel k : ℕ) (t : SystemTimer) : Option Acknowledged := do
  let (t, k) ← t.waitMicroT1 time fuel k 2000
  let before := t.advanceTo (time k)
  let value := fun n => before.controlStatus n || n = 1
  let after := (before.advanceTo (time (k + 1))).writeControlStatus value
  some { before := before, after := after, last := after.advanceTo (time (k + 2)), returned := k + 2 }

/-- The next tick is not lost: its flag is set, or the counter comes to `compare1` within 2000
    microseconds. -/
def TickComes (t : SystemTimer) : Prop :=
  t.controlStatus 1 = true ∨ ∃ e, 1 ≤ e ∧ e ≤ 2000 ∧ counterLo (t.counter + e) = t.compare 1

end SystemTimer

end Rpi4Kernel.Drivers
