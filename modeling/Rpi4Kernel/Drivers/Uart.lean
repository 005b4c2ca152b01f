/-
Module: Rpi4Kernel.Drivers.Uart
Layer: Drivers
Purpose: The output queue of the UART driver (`Uart.h`, `Uart.cpp`): a byte written by the driver
  waits in a ring of `UART_MAX_QUEUE` slots until the transmitter takes it.
Trusted boundary: the driver runs alone; `lsr k` is what access number `k` to `AUX_MU_LSR_REG` reads.
  A loop that is still running when its fuel is used up has no value.
Main exports: UART, UART.isWriteByteReady, UART.loadOutputFifo, UART.writeByteBlocking,
  UART.drainOutputQueue, UartCall, UART.run
-/
import Rpi4Kernel.Theory.RingBuffer

namespace Rpi4Kernel.Drivers

/-- `UART_MAX_QUEUE`. -/
def UART_MAX_QUEUE : ℕ := 16 * 1024

/-- The static members of `UART`, the bytes written to `AUX_MU_IO_REG`, and how often `AUX_MU_LSR_REG`
    was read. -/
structure UART where
  uartOutputQueue : ℕ → BitVec 8
  uartOutputQueueWrite : ℕ
  uartOutputQueueRead : ℕ
  ioReg : List (BitVec 8)
  polls : ℕ

/-- `(index + 1) & (UART_MAX_QUEUE - 1)`, for an `unsigned int`. -/
def nextSlot (index : ℕ) : ℕ := (index + 1) % 2 ^ 32 &&& (UART_MAX_QUEUE - 1)

namespace UART

/-- `UART(GPIO *g)`. The constructor leaves the array as it is. -/
def construct (uartOutputQueue : ℕ → BitVec 8) : UART where
  uartOutputQueue := uartOutputQueue
  uartOutputQueueWrite := 0
  uartOutputQueueRead := 0
  ioReg := []
  polls := 0

/-- `isOutputQueueEmpty()`. -/
def isOutputQueueEmpty (u : UART) : Bool := u.uartOutputQueueRead == u.uartOutputQueueWrite

section Transmitter

variable (lsr : ℕ → ℕ)

/-- `isWriteByteReady()`. -/
def isWriteByteReady (u : UART) : Bool × UART :=
  (lsr u.polls &&& 0x20 != 0, { u with polls := u.polls + 1 })

/-- `MMIO::write(AUX_MU_IO_REG, ch)`. -/
def writeIoReg (u : UART) (ch : BitVec 8) : UART := { u with ioReg := u.ioReg ++ [ch] }

/-- `writeByteBlockingActual(ch)`. -/
def writeByteBlockingActual : ℕ → BitVec 8 → UART → Option UART
  | 0, _, _ => none
  | fuel + 1, ch, u =>
    let (ready, u) := isWriteByteReady lsr u
    if ready then some (u.writeIoReg ch) else writeByteBlockingActual fuel ch u

/-- `loadOutputFifo()`. -/
def loadOutputFifo : ℕ → UART → Option UART
  | 0, _ => none
  | fuel + 1, u =>
    if u.isOutputQueueEmpty then some u
    else
      let (ready, u) := isWriteByteReady lsr u
      if ready then do
        let u ← writeByteBlockingActual lsr fuel (u.uartOutputQueue u.uartOutputQueueRead) u
        loadOutputFifo fuel { u with uartOutputQueueRead := nextSlot u.uartOutputQueueRead }
      else some u

/-- `while (next == uart_output_queue_read) loadOutputFifo()`. -/
def waitForSlot : ℕ → ℕ → UART → Option UART
  | 0, _, _ => none
  | fuel + 1, next, u =>
    if next = u.uartOutputQueueRead then do
      let u ← loadOutputFifo lsr fuel u
      waitForSlot fuel next u
    else some u

/-- The two assignments behind the loop of `writeByteBlocking`. -/
def store (u : UART) (ch : BitVec 8) (next : ℕ) : UART :=
  { u with
    uartOutputQueue := Function.update u.uartOutputQueue u.uartOutputQueueWrite ch
    uartOutputQueueWrite := next }

/-- `writeByteBlocking(ch)`. -/
def writeByteBlocking (fuel : ℕ) (ch : BitVec 8) (u : UART) : Option UART := do
  let next := nextSlot u.uartOutputQueueWrite
  let u ← waitForSlot lsr fuel next u
  return u.store ch next

/-- `drainOutputQueue()`. -/
def drainOutputQueue : ℕ → UART → Option UART
  | 0, _ => none
  | fuel + 1, u =>
    if u.isOutputQueueEmpty then some u
    else do
      let u ← loadOutputFifo lsr fuel u
      drainOutputQueue fuel u

end Transmitter

end UART

/-! ### Sequences of calls -/

/-- A call on the output queue. -/
inductive UartCall where
  | writeByteBlocking (ch : BitVec 8)
  | loadOutputFifo
  | drainOutputQueue
deriving DecidableEq, Repr

namespace UART

/-- One call. -/
def perform (lsr : ℕ → ℕ) (fuel : ℕ) (u : UART) : UartCall → Option UART
  | .writeByteBlocking ch => writeByteBlocking lsr fuel ch u
  | .loadOutputFifo => loadOutputFifo lsr fuel u
  | .drainOutputQueue => drainOutputQueue lsr fuel u

/-- The calls one after the other, provided that all of them return. -/
def run (lsr : ℕ → ℕ) (fuel : ℕ) (u : UART) (calls : List UartCall) : Option UART :=
  calls.foldlM (perform lsr fuel) u

/-- The slots that hold a byte not sent yet, the next one to be sent at the head. -/
def unsentSlots (u : UART) : List ℕ :=
  Theory.RingBuffer.occupied UART_MAX_QUEUE u.uartOutputQueueRead u.uartOutputQueueWrite

/-- The bytes still queued. -/
def pending (u : UART) : List (BitVec 8) :=
  Theory.RingBuffer.contents UART_MAX_QUEUE u.uartOutputQueue u.uartOutputQueueRead
    u.uartOutputQueueWrite

end UART

/-- The bytes passed to `writeByteBlocking`. -/
def bytesWritten (calls : List UartCall) : List (BitVec 8) :=
  calls.filterMap fun
    | .writeByteBlocking ch => some ch
    | _ => none

end Rpi4Kernel.Drivers
