/-
Module: Rpi4Kernel.Theory.RangeOrder
Layer: Theory
Purpose: In-place sorting, range by range. A step rearranges a range of a list when it permutes the
  list, leaves the slots outside the range alone and brings no element into the range; such steps
  compose, and a bound on the elements of a range survives them. Two sorted ranges around a pivot make
  one.
Trusted boundary: none (fully proved)
Main exports: swapped, Rearranged, SortedOn, Rearranged.forall_inside, Rearranged.swapped,
  SortedOn.around
-/
import Mathlib.Data.List.GetD
import Mathlib.Order.Basic
import Mathlib.Tactic

namespace Rpi4Kernel.Theory

variable {α : Type*} {d : α} {a b c : List α} {lo hi i j k : ℕ}

/-! ### Slots -/

theorem getD_set_self (h : i < a.length) (x : α) : (a.set i x).getD i d = x := by
  simp [List.getD_eq_getElem?_getD, h]

theorem getD_set_ne (h : k ≠ i) (x : α) : (a.set i x).getD k d = a.getD k d := by
  simp [List.getD_eq_getElem?_getD, h.symm]

theorem set_getD (h : i < a.length) : a.set i (a.getD i d) = a := by
  simp [List.getD_eq_getElem?_getD, h]

/-- The list with the slots `i` and `j` exchanged. -/
def swapped (d : α) (a : List α) (i j : ℕ) : List α := (a.set i (a.getD j d)).set j (a.getD i d)

@[simp] theorem length_swapped : (swapped d a i j).length = a.length := by simp [swapped]

theorem getD_swapped_left (hi : i < a.length) (hj : j < a.length) :
    (swapped d a i j).getD i d = a.getD j d := by
  by_cases h : i = j
  · subst h
    rw [swapped, getD_set_self (by simpa using hi)]
  · rw [swapped, getD_set_ne h, getD_set_self hi]

theorem getD_swapped_right (hj : j < a.length) : (swapped d a i j).getD j d = a.getD i d :=
  getD_set_self (by simpa using hj) _

theorem getD_swapped_ne (hi : k ≠ i) (hj : k ≠ j) : (swapped d a i j).getD k d = a.getD k d := by
  rw [swapped, getD_set_ne hj, getD_set_ne hi]

theorem swapped_perm (hi : i < a.length) (hj : j < a.length) : (swapped d a i j).Perm a := by
  have h := List.set_set_perm hi hj
  rwa [← List.getD_eq_getElem a d hi, ← List.getD_eq_getElem a d hj] at h

/-! ### Rearranging a range -/

/-- `b` comes from `a` by moving elements around within the slots from `lo` to `hi`. -/
structure Rearranged (d : α) (lo hi : ℕ) (a b : List α) : Prop where
  perm : b.Perm a
  outside : ∀ k, k < lo ∨ hi < k → b.getD k d = a.getD k d
  inside : ∀ k, lo ≤ k → k ≤ hi → ∃ m, lo ≤ m ∧ m ≤ hi ∧ b.getD k d = a.getD m d

namespace Rearranged

theorem refl : Rearranged d lo hi a a := ⟨.refl _, fun _ _ => rfl, fun k h h' => ⟨k, h, h', rfl⟩⟩

theorem trans (hab : Rearranged d lo hi a b) (hbc : Rearranged d lo hi b c) :
    Rearranged d lo hi a c where
  perm := hbc.perm.trans hab.perm
  outside k hk := (hbc.outside k hk).trans (hab.outside k hk)
  inside k hk hk' := by
    obtain ⟨m, hm, hm', hbm⟩ := hbc.inside k hk hk'
    obtain ⟨n, hn, hn', han⟩ := hab.inside m hm hm'
    exact ⟨n, hn, hn', hbm.trans han⟩

theorem mono {lo' hi' : ℕ} (h : Rearranged d lo' hi' a b) (hlo : lo ≤ lo') (hhi : hi' ≤ hi) :
    Rearranged d lo hi a b where
  perm := h.perm
  outside k hk := h.outside k (by omega)
  inside k hk hk' := by
    by_cases hin : lo' ≤ k ∧ k ≤ hi'
    · obtain ⟨m, hm, hm', hbm⟩ := h.inside k hin.1 hin.2
      exact ⟨m, by omega, by omega, hbm⟩
    · exact ⟨k, hk, hk', h.outside k (by omega)⟩

theorem length_eq (h : Rearranged d lo hi a b) : b.length = a.length := h.perm.length_eq

/-- What holds of every element of the range still does. -/
theorem forall_inside {p : α → Prop} (h : Rearranged d lo hi a b)
    (hp : ∀ k, lo ≤ k → k ≤ hi → p (a.getD k d)) : ∀ k, lo ≤ k → k ≤ hi → p (b.getD k d) := by
  intro k hk hk'
  obtain ⟨m, hm, hm', hbm⟩ := h.inside k hk hk'
  exact hbm ▸ hp m hm hm'

theorem swapped (hilo : lo ≤ i) (hihi : i ≤ hi) (hjlo : lo ≤ j) (hjhi : j ≤ hi)
    (hia : i < a.length) (hja : j < a.length) : Rearranged d lo hi a (swapped d a i j) where
  perm := swapped_perm hia hja
  outside k hk := getD_swapped_ne (by omega) (by omega)
  inside k hk hk' := by
    by_cases hj : k = j
    · subst hj
      exact ⟨i, hilo, hihi, getD_swapped_right hja⟩
    by_cases hi : k = i
    · subst hi
      exact ⟨j, hjlo, hjhi, getD_swapped_left hia hja⟩
    · exact ⟨k, hk, hk', getD_swapped_ne hi hj⟩

end Rearranged

/-! ### Sorted ranges -/

section Order

variable [Preorder α]

/-- The slots from `lo` to `hi` are in order. -/
def SortedOn (d : α) (lo hi : ℕ) (a : List α) : Prop :=
  ∀ j k, lo ≤ j → j ≤ k → k ≤ hi → a.getD j d ≤ a.getD k d

theorem sortedOn_of_le (h : hi ≤ lo) : SortedOn d lo hi a := by
  intro j k hj hjk hk
  rw [show j = k by omega]

/-- A range that a step leaves alone stays sorted. -/
theorem SortedOn.of_outside {lo' hi' : ℕ} (h : SortedOn d lo hi a) (hab : Rearranged d lo' hi' a b)
    (houtside : hi < lo' ∨ hi' < lo) : SortedOn d lo hi b := by
  intro j k hj hjk hk
  rw [hab.outside j (by omega), hab.outside k (by omega)]
  exact h j k hj hjk hk

/-- Sorted ranges on both sides of a pivot in slot `i`. -/
theorem SortedOn.around {i : ℕ} (hbelow : SortedOn d lo (i - 1) a) (habove : SortedOn d (i + 1) hi a)
    (hle : ∀ k, lo ≤ k → k < i → a.getD k d ≤ a.getD i d)
    (hge : ∀ k, i < k → k ≤ hi → a.getD i d ≤ a.getD k d) : SortedOn d lo hi a := by
  intro j k hj hjk hk
  rcases Nat.lt_trichotomy j i with hji | rfl | hij
  · rcases Nat.lt_trichotomy k i with hki | rfl | hik
    · exact hbelow j k hj hjk (by omega)
    · exact hle j hj hji
    · exact (hle j hj hji).trans (hge k hik hk)
  · rcases Nat.eq_or_lt_of_le hjk with rfl | hik
    · exact le_refl _
    · exact hge k hik hk
  · exact habove j k hij hjk hk

/-- A list all of whose slots are in order is sorted. -/
theorem SortedOn.pairwise (h : SortedOn d 0 (a.length - 1) a) : a.Pairwise (· ≤ ·) := by
  rw [List.pairwise_iff_getElem]
  intro j k hj hk hjk
  have := h j k (Nat.zero_le _) hjk.le (by omega)
  rwa [List.getD_eq_getElem _ _ hj, List.getD_eq_getElem _ _ hk] at this

end Order

end Rpi4Kernel.Theory
