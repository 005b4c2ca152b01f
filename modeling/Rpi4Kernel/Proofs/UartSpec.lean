/-
Module: Rpi4Kernel.Proofs.UartSpec
Layer: Proofs
Purpose: The output queue of the UART loses no byte and keeps the order: what was sent and what is still
  queued are together what was written, after any calls and for any answers of the transmitter.
Trusted boundary: none (fully proved)
Main exports: Lossless, loadOutputFifo_lossless, waitForSlot_lossless, perform_lossless, run_lossless,
  output_queue_fifo
-/
import Rpi4Kernel.Drivers.Uart

namespace Rpi4Kernel.Drivers

open Theory

/-- The mask takes the index round the ring. -/
theorem nextSlot_eq (index : ℕ) : nextSlot index = RingBuffer.next UART_MAX_QUEUE index := by
  have divides : UART_MAX_QUEUE ∣ 2 ^ 32 := by decide
  have mask : UART_MAX_QUEUE - 1 = 2 ^ 14 - 1 := by decide
  rw [nextSlot, mask, Nat.and_two_pow_sub_one_eq_mod]
  exact Nat.mod_mod_of_dvd _ divides

theorem uartMaxQueue_pos : 0 < UART_MAX_QUEUE := by decide

theorem nextSlot_lt (index : ℕ) : nextSlot index < UART_MAX_QUEUE := by
  rw [nextSlot_eq]
  exact RingBuffer.next_lt uartMaxQueue_pos index

namespace UART

variable {lsr : ℕ → ℕ} {fuel next : ℕ} {u u' : UART} {ch : BitVec 8} {bytes : List (BitVec 8)}

/-- Of the bytes written, those sent come first and those queued follow. -/
structure Lossless (bytes : List (BitVec 8)) (u : UART) : Prop where
  write_lt : u.uartOutputQueueWrite < UART_MAX_QUEUE
  read_lt : u.uartOutputQueueRead < UART_MAX_QUEUE
  fifo : u.ioReg ++ u.pending = bytes

theorem construct_lossless (queue : ℕ → BitVec 8) : Lossless [] (construct queue) where
  write_lt := uartMaxQueue_pos
  read_lt := uartMaxQueue_pos
  fifo := by simp only [construct, pending, RingBuffer.contents_self, List.append_nil]

theorem isOutputQueueEmpty_iff :
    u.isOutputQueueEmpty = true ↔ u.uartOutputQueueRead = u.uartOutputQueueWrite :=
  beq_iff_eq

/-! ### Sending -/

theorem isWriteByteReady_eq {ready : Bool} {polled : UART}
    (h : isWriteByteReady lsr u = (ready, polled)) : polled = { u with polls := u.polls + 1 } := by
  cases h
  rfl

/-- Waiting for the transmitter only reads its status. -/
theorem writeByteBlockingActual_eq (h : writeByteBlockingActual lsr fuel ch u = some u') :
    ∃ polls, u' = { u with ioReg := u.ioReg ++ [ch], polls := polls } := by
  induction fuel generalizing u with
  | zero => cases h
  | succ fuel ih =>
    rcases poll : isWriteByteReady lsr u with ⟨ready, polled⟩
    obtain rfl := isWriteByteReady_eq poll
    simp only [writeByteBlockingActual, poll] at h
    cases ready with
    | true =>
      cases h
      exact ⟨u.polls + 1, rfl⟩
    | false =>
      have later := ih (u := { u with polls := u.polls + 1 }) h
      exact later

/-- The byte at the read index is sent. -/
theorem Lossless.send (h : Lossless bytes u) (queued : u.isOutputQueueEmpty = false) (polls : ℕ) :
    Lossless bytes { u with
      ioReg := u.ioReg ++ [u.uartOutputQueue u.uartOutputQueueRead]
      polls := polls
      uartOutputQueueRead := nextSlot u.uartOutputQueueRead } where
  write_lt := h.write_lt
  read_lt := nextSlot_lt _
  fifo := by
    have some_left : u.uartOutputQueueRead ≠ u.uartOutputQueueWrite := by
      intro empty
      rw [isOutputQueueEmpty_iff.mpr empty] at queued
      cases queued
    have first := RingBuffer.contents_pop u.uartOutputQueue h.read_lt h.write_lt some_left
    have all := h.fifo
    rw [pending, first] at all
    rw [pending, nextSlot_eq, List.append_assoc]
    exact all

/-- `loadOutputFifo` sends from the head of the queue, and does not write to the queue. -/
theorem loadOutputFifo_lossless (hu : Lossless bytes u) (h : loadOutputFifo lsr fuel u = some u') :
    Lossless bytes u' ∧ u'.uartOutputQueueWrite = u.uartOutputQueueWrite := by
  induction fuel generalizing u with
  | zero => cases h
  | succ fuel ih =>
    rcases poll : isWriteByteReady lsr u with ⟨ready, polled⟩
    obtain rfl := isWriteByteReady_eq poll
    simp only [loadOutputFifo, poll] at h
    split at h
    case isTrue =>
      cases h
      exact ⟨hu, rfl⟩
    case isFalse queued =>
      cases ready with
      | true =>
        obtain ⟨sent, hsent, rest⟩ := Option.bind_eq_some_iff.mp h
        obtain ⟨polls, rfl⟩ := writeByteBlockingActual_eq hsent
        have step := hu.send (Bool.eq_false_iff.mpr queued) polls
        have later := ih step rest
        exact later
      | false =>
        cases h
        exact ⟨⟨hu.write_lt, hu.read_lt, hu.fifo⟩, rfl⟩

/-- The loop of `drainOutputQueue`. -/
theorem drainOutputQueue_lossless (hu : Lossless bytes u)
    (h : drainOutputQueue lsr fuel u = some u') : Lossless bytes u' := by
  induction fuel generalizing u with
  | zero => cases h
  | succ fuel ih =>
    rw [drainOutputQueue] at h
    split at h
    case isTrue =>
      cases h
      exact hu
    case isFalse =>
      obtain ⟨loaded, hloaded, rest⟩ := Option.bind_eq_some_iff.mp h
      exact ih (loadOutputFifo_lossless hu hloaded).1 rest

/-! ### Queueing -/

/-- `writeByteBlocking` goes on when the slot behind the write index is free. -/
theorem waitForSlot_lossless (hu : Lossless bytes u) (h : waitForSlot lsr fuel next u = some u') :
    Lossless bytes u' ∧ u'.uartOutputQueueWrite = u.uartOutputQueueWrite ∧
      next ≠ u'.uartOutputQueueRead := by
  induction fuel generalizing u with
  | zero => cases h
  | succ fuel ih =>
    rw [waitForSlot] at h
    split at h
    case isTrue full =>
      obtain ⟨loaded, hloaded, rest⟩ := Option.bind_eq_some_iff.mp h
      obtain ⟨hl, same⟩ := loadOutputFifo_lossless hu hloaded
      obtain ⟨hu', unmoved, room⟩ := ih hl rest
      exact ⟨hu', unmoved.trans same, room⟩
    case isFalse room =>
      cases h
      exact ⟨hu, rfl, room⟩

/-- A byte stored when there is room for it comes last. -/
theorem Lossless.store (hu : Lossless bytes u)
    (room : nextSlot u.uartOutputQueueWrite ≠ u.uartOutputQueueRead) :
    Lossless (bytes ++ [ch]) (u.store ch (nextSlot u.uartOutputQueueWrite)) where
  write_lt := nextSlot_lt _
  read_lt := hu.read_lt
  fifo := by
    rw [nextSlot_eq] at room
    have last := RingBuffer.contents_push u.uartOutputQueue ch hu.read_lt hu.write_lt room
    calc u.ioReg ++ (u.store ch (nextSlot u.uartOutputQueueWrite)).pending
        = u.ioReg ++ (u.pending ++ [ch]) := by rw [pending, UART.store, nextSlot_eq, last]; rfl
      _ = bytes ++ [ch] := by rw [← List.append_assoc, hu.fifo]

theorem writeByteBlocking_lossless (hu : Lossless bytes u)
    (h : writeByteBlocking lsr fuel ch u = some u') : Lossless (bytes ++ [ch]) u' := by
  obtain ⟨waited, hwaited, stored⟩ := Option.bind_eq_some_iff.mp h
  cases stored
  obtain ⟨hw, same, room⟩ := waitForSlot_lossless hu hwaited
  rw [← same] at room ⊢
  exact hw.store room

/-! ### Sequences of calls -/

/-- One call. -/
theorem perform_lossless {call : UartCall} (hu : Lossless bytes u)
    (h : u.perform lsr fuel call = some u') : Lossless (bytes ++ bytesWritten [call]) u' := by
  cases call with
  | writeByteBlocking ch => exact writeByteBlocking_lossless hu h
  | loadOutputFifo =>
    have kept := (loadOutputFifo_lossless hu h).1
    rwa [bytesWritten, List.filterMap_cons_none rfl, List.filterMap_nil, List.append_nil]
  | drainOutputQueue =>
    have kept := drainOutputQueue_lossless hu h
    rwa [bytesWritten, List.filterMap_cons_none rfl, List.filterMap_nil, List.append_nil]

/-- Every call keeps what was written before and appends its own byte, if it has one. -/
theorem run_lossless {calls : List UartCall} (hu : Lossless bytes u)
    (h : u.run lsr fuel calls = some u') : Lossless (bytes ++ bytesWritten calls) u' := by
  induction calls generalizing u bytes with
  | nil =>
    cases h
    rwa [bytesWritten, List.filterMap_nil, List.append_nil]
  | cons call calls ih =>
    obtain ⟨between, first, rest⟩ := Option.bind_eq_some_iff.mp (List.foldlM_cons.symm.trans h)
    have whole := ih (perform_lossless hu first) rest
    have split : bytesWritten (call :: calls) = bytesWritten [call] ++ bytesWritten calls :=
      List.filterMap_append (l := [call])
    rwa [split, ← List.append_assoc]

/-- Whatever the calls and the answers of the transmitter are, the bytes sent followed by the bytes
    queued are the bytes written, in order. The indices stay in the array, one slot stays free, and
    the slot in which the next byte will be stored does not hold a byte that is still to be sent. -/
theorem output_queue_fifo (lsr : ℕ → ℕ) (fuel : ℕ) (queue : ℕ → BitVec 8) (calls : List UartCall)
    (h : (construct queue).run lsr fuel calls = some u) :
    u.ioReg ++ u.pending = bytesWritten calls ∧
      u.uartOutputQueueWrite < UART_MAX_QUEUE ∧ u.uartOutputQueueRead < UART_MAX_QUEUE ∧
      u.pending.length ≤ UART_MAX_QUEUE - 1 ∧
      ∀ (fuel : ℕ) (waited : UART),
        u.waitForSlot lsr fuel (nextSlot u.uartOutputQueueWrite) = some waited →
          waited.uartOutputQueueWrite ∉ waited.unsentSlots := by
  have hu : Lossless (bytesWritten calls) u := run_lossless (construct_lossless queue) h
  refine ⟨hu.fifo, hu.write_lt, hu.read_lt, ?_, ?_⟩
  · have bound : u.pending.length < UART_MAX_QUEUE := by
      rw [pending, RingBuffer.length_contents]
      exact RingBuffer.count_lt uartMaxQueue_pos
    exact Nat.le_sub_one_of_lt bound
  · intro fuel waited hwaited
    have hw := (waitForSlot_lossless hu hwaited).1
    exact RingBuffer.write_notMem_occupied hw.read_lt hw.write_lt

/-- Three bytes, a transmitter that is ready at every second access, and a call that sends what it
    can. -/
theorem output_queue_fifo_partial :
    ∃ u, (construct fun _ => 0).run (fun k => if k % 2 = 0 then 0x20 else 0) 10
        [.writeByteBlocking 7, .writeByteBlocking 8, .loadOutputFifo, .writeByteBlocking 9] = some u ∧
      u.ioReg ++ u.pending = [7, 8, 9] := by
  obtain ⟨u, hu⟩ := Option.isSome_iff_exists.mp (by decide :
    ((construct fun _ => 0).run (fun k => if k % 2 = 0 then 0x20 else 0) 10
      [.writeByteBlocking 7, .writeByteBlocking 8, .loadOutputFifo, .writeByteBlocking 9]).isSome =
        true)
  exact ⟨u, hu, (output_queue_fifo _ _ _ _ hu).1⟩

end UART

end Rpi4Kernel.Drivers
