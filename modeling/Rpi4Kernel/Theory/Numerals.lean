/-
Module: Rpi4Kernel.Theory.Numerals
Layer: Theory
Purpose: The numerals of the natural numbers as lists of characters, most significant digit first: how a
  loop that divides produces them from the last digit on, that none has a leading zero, and that none
  contains a NUL.
Trusted boundary: none (fully proved)
Main exports: IsNumeral, IsSignedNumeral, toDigits_reverse, isNumeral_toDigits
-/
import Mathlib.Data.Nat.Basic
import Mathlib.Data.Int.Basic

namespace Rpi4Kernel.Theory

/-- `s` is the numeral of `n` in base `b`, without leading zeros. -/
structure IsNumeral (b n : Nat) (s : List Char) : Prop where
  digits : s = Nat.toDigits b n
  noLeadingZero : s.head? = some '0' → s = ['0']

/-- `s` is the decimal numeral of `z`, with a minus sign when `z` is negative. -/
def IsSignedNumeral (z : Int) (s : List Char) : Prop :=
  if z < 0 then ∃ digits, s = '-' :: digits ∧ IsNumeral 10 z.natAbs digits else IsNumeral 10 z.natAbs s

variable {b n : Nat}

/-- The digits from the last one on. -/
theorem toDigits_reverse (hb : 1 < b) : (Nat.toDigits b n).reverse =
    if n < b then [Nat.digitChar n] else Nat.digitChar (n % b) :: (Nat.toDigits b (n / b)).reverse := by
  rw [Nat.toDigits_eq_if hb]
  split
  · rfl
  · rw [List.reverse_append]
    rfl

/-- The first digit of a numeral is a zero only in the numeral of 0. -/
theorem toDigits_head_zero (hb : 1 < b) (hb16 : b ≤ 16)
    (h : (Nat.toDigits b n).head? = some '0') : n = 0 := by
  induction n using Nat.strong_induction_on with
  | _ n ih =>
      have hdigit : ∀ d < 16, Nat.digitChar d = '0' → d = 0 := by decide
      rw [Nat.toDigits_eq_if hb] at h
      split at h
      case isTrue hlt => exact hdigit n (by omega) (Option.some.inj h)
      case isFalse hle =>
        have hsome := List.head?_eq_some_head (Nat.toDigits_ne_nil (b := b) (n := n / b))
        rw [List.head?_append, hsome, Option.some_or, ← hsome] at h
        have hzero := ih (n / b) (Nat.div_lt_self (by omega) hb) h
        exact absurd hzero (Nat.ne_of_gt (Nat.div_pos (by omega) (by omega)))

theorem isNumeral_toDigits (hb : 1 < b) (hb16 : b ≤ 16) : IsNumeral b n (Nat.toDigits b n) := by
  refine ⟨rfl, fun hhead => ?_⟩
  rw [toDigits_head_zero hb hb16 hhead]
  exact Nat.toDigits_zero b

/-- No digit is a NUL. -/
theorem nul_not_mem_toDigits (hb : 1 < b) : Char.ofNat 0 ∉ Nat.toDigits b n := by
  induction n using Nat.strong_induction_on with
  | _ n ih =>
      rw [Nat.toDigits_eq_if hb]
      split
      case isTrue => simp
      case isFalse hle =>
        have hrest := ih (n / b) (Nat.div_lt_self (by omega) hb)
        simp [hrest]

end Rpi4Kernel.Theory
