/-
Module: Rpi4Kernel.Theory.Consecutive
Layer: Theory
Purpose: Blocks laid one behind the other, as an allocator does that never takes one back, and the
  requests that such an allocator can serve from a given space. Consecutive blocks are disjoint and
  fill a range; they all start at multiples of `k` exactly when every length but the last is one.
Trusted boundary: none (fully proved)
Main exports: consecutive, consecutive_bounds, consecutive_pairwise, consecutive_aligned_iff, fitting
-/
import Mathlib.Tactic

namespace Rpi4Kernel.Theory

/-- The starts and lengths of blocks of these lengths, from `base` on. -/
def consecutive (base : Nat) : List Nat → List (Nat × Nat)
  | [] => []
  | size :: sizes => (base, size) :: consecutive (base + size) sizes

/-- The requests that are served, in order, from a space that each of them shrinks. -/
def fitting (space : Int) : List Nat → List Nat
  | [] => []
  | size :: sizes =>
    if (size : Int) ≤ space then size :: fitting (space - size) sizes else fitting space sizes

theorem consecutive_bounds {base : Nat} {sizes : List Nat} {block : Nat × Nat}
    (h : block ∈ consecutive base sizes) :
    base ≤ block.1 ∧ block.1 + block.2 ≤ base + sizes.sum := by
  induction sizes generalizing base with
  | nil => cases h
  | cons size sizes ih =>
      rw [List.sum_cons]
      rcases List.mem_cons.mp h with rfl | hrest
      · constructor
        · exact le_rfl
        · exact Nat.add_le_add_left (Nat.le_add_right _ _) _
      · have := ih hrest
        omega

theorem consecutive_pairwise (base : Nat) (sizes : List Nat) :
    (consecutive base sizes).Pairwise fun a b => a.1 + a.2 ≤ b.1 := by
  induction sizes generalizing base with
  | nil => exact List.Pairwise.nil
  | cons size sizes ih =>
      apply List.Pairwise.cons _ (ih _)
      intro block hblock
      exact (consecutive_bounds hblock).1

theorem consecutive_sizes (base : Nat) (sizes : List Nat) :
    (consecutive base sizes).map Prod.snd = sizes := by
  induction sizes generalizing base with
  | nil => rfl
  | cons size sizes ih =>
      rw [consecutive, List.map_cons, ih]

/-- Consecutive blocks from a multiple of `k` on all start at multiples of `k` exactly when each length
    with a block behind it is a multiple of `k`. -/
theorem consecutive_aligned_iff {k base : Nat} {sizes : List Nat} (hbase : k ∣ base) :
    (∀ block ∈ consecutive base sizes, k ∣ block.1) ↔ ∀ size ∈ sizes.dropLast, k ∣ size := by
  induction sizes generalizing base with
  | nil => simp [consecutive]
  | cons size sizes ih =>
      cases sizes with
      | nil => simp [consecutive, hbase]
      | cons next sizes =>
          rw [consecutive, List.dropLast_cons_cons, List.forall_mem_cons, List.forall_mem_cons]
          have hnext : (base + size, next) ∈ consecutive (base + size) (next :: sizes) :=
            List.mem_cons_self
          constructor
          · intro h
            have hstart : k ∣ base + size := h.2 _ hnext
            exact ⟨(Nat.dvd_add_right hbase).mp hstart, (ih hstart).mp h.2⟩
          · intro h
            exact ⟨hbase, (ih (Nat.dvd_add hbase h.1)).mpr h.2⟩

theorem fitting_sum_le {space : Int} {sizes : List Nat} (h : 0 ≤ space) :
    ((fitting space sizes).sum : Int) ≤ space := by
  induction sizes generalizing space with
  | nil => simpa [fitting] using h
  | cons size sizes ih =>
      rw [fitting]
      split
      case isTrue hfits =>
        have hrest := ih (show 0 ≤ space - size by omega)
        rw [List.sum_cons]
        omega
      case isFalse => exact ih h

/-- Nothing fits into less than no space. -/
theorem fitting_of_neg {space : Int} (h : space < 0) (sizes : List Nat) : fitting space sizes = [] := by
  induction sizes with
  | nil => rfl
  | cons size sizes ih => rw [fitting, if_neg (by omega), ih]

theorem fitting_append (space : Int) (before after : List Nat) :
    fitting space (before ++ after) =
      fitting space before ++ fitting (space - (fitting space before).sum) after := by
  induction before generalizing space with
  | nil => simp [fitting]
  | cons size before ih =>
      rw [List.cons_append, fitting, fitting]
      split
      case isTrue hfits =>
        rw [ih, List.cons_append, List.sum_cons]
        congr 3
        omega
      case isFalse => exact ih space

end Rpi4Kernel.Theory
