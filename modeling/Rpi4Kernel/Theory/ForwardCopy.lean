/-
Module: Rpi4Kernel.Theory.ForwardCopy
Layer: Theory
Purpose: An element-by-element copy in one direction inside one memory. The elements at the addresses
  `src 0`, `src 1`, .. are copied one after the other to `dst 0`, `dst 1`, ... A copy whose source is
  never hit by an earlier store is right; a copy onto its own source `d` places further on repeats the
  first `d` elements, and is right exactly when the source already repeats with period `d`.
Trusted boundary: none (fully proved)
Main exports: copyForward, copyForward_frame, copyForward_of_unhit, copyForward_shifted,
  copyForward_shifted_right_iff
-/
import Mathlib.Logic.Function.Basic
import Mathlib.Tactic

namespace Rpi4Kernel.Theory

variable {A α : Type} [DecidableEq A]

/-- The memory after the first `n` elements were copied. -/
def copyForward (dst src : Nat → A) : Nat → (A → α) → (A → α)
  | 0, mem => mem
  | n + 1, mem =>
    let mem := copyForward dst src n mem
    Function.update mem (dst n) (mem (src n))

/-- The addresses of the first `n` elements are different. -/
def InjectiveBelow (p : Nat → A) (n : Nat) : Prop := ∀ i < n, ∀ j < n, p i = p j → i = j

section

variable {dst src : Nat → A} {mem : A → α}

/-- What is not a destination is left alone. -/
theorem copyForward_frame {n : Nat} {a : A} (h : ∀ i < n, dst i ≠ a) :
    copyForward dst src n mem a = mem a := by
  induction n with
  | zero => rfl
  | succ n ih =>
      rw [copyForward, Function.update_of_ne (h n (Nat.lt_succ_self n)).symm]
      apply ih
      intro i hi
      exact h i (Nat.lt_succ_of_lt hi)

/-- A destination keeps the element that was copied in its own turn. -/
theorem copyForward_dst {n i : Nat} (hinj : InjectiveBelow dst n) (hi : i < n) :
    copyForward dst src n mem (dst i) = copyForward dst src i mem (src i) := by
  induction n with
  | zero => exact absurd hi (Nat.not_lt_zero i)
  | succ n ih =>
      rw [copyForward]
      rcases Nat.lt_succ_iff_lt_or_eq.mp hi with hlt | rfl
      · have hne : dst i ≠ dst n := by
          intro heq
          have := hinj i hi n (Nat.lt_succ_self n) heq
          omega
        rw [Function.update_of_ne hne]
        apply ih _ hlt
        intro j hj k hk
        exact hinj j (Nat.lt_succ_of_lt hj) k (Nat.lt_succ_of_lt hk)
      · exact Function.update_self _ _ _

/-- A source that no earlier turn has written is copied as it was. -/
theorem copyForward_of_unhit {n i : Nat} (hinj : InjectiveBelow dst n) (hi : i < n)
    (hunhit : ∀ j < i, dst j ≠ src i) : copyForward dst src n mem (dst i) = mem (src i) := by
  rw [copyForward_dst hinj hi]
  exact copyForward_frame hunhit

end

/-! ### A copy onto its own source -/

section

variable {dst src : Nat → A} {mem : A → α} {n d : Nat}

/-- With the destination `d` places behind the source, the turns after the first `d` read what the copy
    itself wrote. -/
theorem copyForward_shifted_step {i : Nat} (hinj : InjectiveBelow dst n)
    (hshift : ∀ j < n, d ≤ j → src j = dst (j - d)) (hd : 0 < d) (hi : i < n) (hle : d ≤ i) :
    copyForward dst src n mem (dst i) = copyForward dst src n mem (dst (i - d)) := by
  have hinj' : InjectiveBelow dst i := by
    intro j hj k hk
    exact hinj j (lt_trans hj hi) k (lt_trans hk hi)
  rw [copyForward_dst hinj hi, hshift i hi hle, copyForward_dst hinj' (by omega),
    ← copyForward_dst hinj (show i - d < n by omega)]

/-- Such a copy repeats the first `d` elements of the source. -/
theorem copyForward_shifted (hinj : InjectiveBelow dst n)
    (hshift : ∀ j < n, d ≤ j → src j = dst (j - d)) (hd : 0 < d)
    (hfresh : ∀ i < n, i < d → ∀ j < i, dst j ≠ src i) :
    ∀ i < n, copyForward dst src n mem (dst i) = mem (src (i % d)) := by
  intro i
  induction i using Nat.strong_induction_on with
  | _ i ih =>
      intro hi
      rcases Nat.lt_or_ge i d with hlt | hle
      · rw [Nat.mod_eq_of_lt hlt]
        exact copyForward_of_unhit hinj hi (hfresh i hi hlt)
      · rw [copyForward_shifted_step hinj hshift hd hi hle, ih (i - d) (by omega) (by omega),
          Nat.mod_eq_sub_mod hle]

/-- A row of elements repeats with period `d` exactly when each one is that of the first `d` it falls
    on. -/
theorem periodic_iff_mod {f : Nat → α} (hd : 0 < d) :
    (∀ i < n, f (i % d) = f i) ↔ ∀ i < n, d ≤ i → f i = f (i - d) := by
  constructor
  · intro h i hi hle
    rw [← h i hi, ← h (i - d) (by omega), Nat.mod_eq_sub_mod hle]
  · intro h i
    induction i using Nat.strong_induction_on with
    | _ i ih =>
        intro hi
        rcases Nat.lt_or_ge i d with hlt | hle
        · rw [Nat.mod_eq_of_lt hlt]
        · rw [h i hi hle, Nat.mod_eq_sub_mod hle]
          exact ih (i - d) (by omega) (by omega)

/-- A forward copy to a place behind its source is right exactly when the source repeats with the
    distance as its period. -/
theorem copyForward_shifted_right_iff (hinj : InjectiveBelow dst n)
    (hshift : ∀ j < n, d ≤ j → src j = dst (j - d)) (hd : 0 < d)
    (hfresh : ∀ i < n, i < d → ∀ j < i, dst j ≠ src i) :
    (∀ i < n, copyForward dst src n mem (dst i) = mem (src i)) ↔
      ∀ i < n, d ≤ i → mem (src i) = mem (src (i - d)) := by
  rw [← @periodic_iff_mod α n d (fun i => mem (src i)) hd]
  have hcopy := @copyForward_shifted A α _ dst src mem n d hinj hshift hd hfresh
  constructor
  · intro h i hi
    rw [← hcopy i hi]
    exact h i hi
  · intro h i hi
    rw [hcopy i hi]
    exact h i hi

end

end Rpi4Kernel.Theory
