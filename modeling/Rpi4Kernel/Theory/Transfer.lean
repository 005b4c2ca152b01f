/-
Module: Rpi4Kernel.Theory.Transfer
Layer: Theory
Purpose: A list that is on its way over a first-in first-out channel: what has been received, what is
  in the channel and what is still to be sent make up the whole. Sending and receiving keep this, so
  that what has been received is at every time a prefix of the whole.
Trusted boundary: none (fully proved)
Main exports: Transfer, Transfer.send, Transfer.receive, Transfer.received_prefix,
  Transfer.received_eq
-/
import Mathlib.Data.List.Basic

namespace Rpi4Kernel.Theory

variable {α : Type*} {whole received wire left : List α} {x : α}

/-- `whole` is on its way. -/
def Transfer (whole received wire left : List α) : Prop :=
  received ++ (wire ++ left) = whole

namespace Transfer

theorem start (whole : List α) : Transfer whole [] [] whole := rfl

theorem send (h : Transfer whole received wire (x :: left)) :
    Transfer whole received (wire ++ [x]) left := by
  simpa [Transfer] using h

theorem receive (h : Transfer whole received (x :: wire) left) :
    Transfer whole (received ++ [x]) wire left := by
  simpa [Transfer] using h

theorem received_prefix (h : Transfer whole received wire left) : received <+: whole :=
  ⟨_, h⟩

theorem length_eq (h : Transfer whole received wire left) :
    received.length + (wire.length + left.length) = whole.length := by
  rw [← h]
  simp

/-- As long as not everything has been received, something is in the channel or left to be sent. -/
theorem pending (h : Transfer whole received wire left) (hlt : received.length < whole.length) :
    wire ≠ [] ∨ left ≠ [] := by
  by_contra hnone
  simp only [not_or, not_not] at hnone
  have hlength := h.length_eq
  simp only [hnone.1, hnone.2, List.length_nil] at hlength
  exact absurd hlength (Nat.ne_of_lt hlt)

/-- What has been received is known from how much it is. -/
theorem received_eq (h : Transfer whole received wire left) :
    received = whole.take received.length :=
  List.prefix_iff_eq_take.mp h.received_prefix

theorem wire_eq_nil (h : Transfer whole received wire left) (heq : received.length = whole.length) :
    wire = [] ∧ left = [] := by
  have hlength := h.length_eq
  constructor
  · apply List.eq_nil_of_length_eq_zero
    omega
  · apply List.eq_nil_of_length_eq_zero
    omega

end Transfer

end Rpi4Kernel.Theory
