/-
Module: Rpi4Kernel.Theory.LockOrder
Layer: Theory
Purpose: Programs that acquire and release locks, for any locks and any agents. A program is ascending
  when it acquires every lock above those that it holds then, by some rank of the locks; where all
  agents acquire in the order of the rank, the relation of waiting for one another has no cycle.
Trusted boundary: none (fully proved)
Main exports: LockAction, expects, ascending, rank_lt_of_acquire, mem_expects_of_acquire,
  mem_expects_tail, WaitsFor, not_transGen_waitsFor
-/
import Mathlib.Data.List.Basic
import Mathlib.Data.Nat.Basic
import Mathlib.Logic.Relation

namespace Rpi4Kernel.Theory

/-- An action of a program that uses locks `ι`. -/
inductive LockAction (ι α : Type*) where
  | acquire (lock : ι)
  | release (lock : ι)
  | other (action : α)
deriving DecidableEq, Repr

variable {ι α κ : Type*}

/-! ### Programs -/

section Programs

variable [DecidableEq ι] {rank : ι → Nat} {l x : ι} {p : List (LockAction ι α)}

/-- The locks that a program expects to hold when it starts: those it releases before it acquires
    them. -/
def expects : List (LockAction ι α) → List ι
  | [] => []
  | .acquire l :: p => (expects p).filter fun x => x ≠ l
  | .release l :: p => l :: expects p
  | .other _ :: p => expects p

/-- A program releases every lock that it acquires, and the other locks that it holds at that time are
    of a lower rank. -/
def ascending (rank : ι → Nat) : List (LockAction ι α) → Bool
  | [] => true
  | .acquire l :: p => l ∈ expects p && (expects p).all (fun x => x = l || rank x < rank l) &&
    ascending rank p
  | .release _ :: p => ascending rank p
  | .other _ :: p => ascending rank p

@[simp] theorem expects_nil : expects ([] : List (LockAction ι α)) = [] := rfl

@[simp] theorem expects_acquire : expects (.acquire l :: p) = (expects p).filter fun x => x ≠ l := rfl

@[simp] theorem expects_release : expects (.release l :: p) = l :: expects p := rfl

@[simp] theorem expects_other (a : α) : expects (.other a :: p) = expects p := rfl

theorem ascending_acquire (h : ascending rank (.acquire l :: p) = true) :
    l ∈ expects p ∧ (∀ x ∈ expects p, x = l ∨ rank x < rank l) ∧ ascending rank p = true := by
  simpa [ascending, and_assoc] using h

/-- What is left of an ascending program is ascending. -/
theorem ascending_tail {a : LockAction ι α} (h : ascending rank (a :: p) = true) :
    ascending rank p = true := by
  cases a with
  | acquire l => exact (ascending_acquire h).2.2
  | release l => exact h
  | other a => exact h

/-- An ascending program acquires a lock above all those that it expects to hold. -/
theorem rank_lt_of_acquire (h : ascending rank (.acquire l :: p) = true)
    (hx : x ∈ expects (.acquire l :: p)) : rank x < rank l := by
  obtain ⟨hmem, hne⟩ := List.mem_filter.mp hx
  exact ((ascending_acquire h).2.1 x hmem).resolve_left (of_decide_eq_true hne)

/-- A lock that is acquired is expected from then on. -/
theorem mem_expects_of_acquire (h : ascending rank (.acquire l :: p) = true) : l ∈ expects p :=
  (ascending_acquire h).1

/-- A lock stays expected until it is released. -/
theorem mem_expects_tail {a : LockAction ι α} (hx : x ∈ expects (a :: p)) (hne : a ≠ .release x) :
    x ∈ expects p := by
  cases a with
  | acquire l => exact (List.mem_filter.mp hx).1
  | release l =>
    refine (List.mem_cons.mp hx).resolve_left fun heq => ?_
    exact hne (by rw [heq])
  | other a => exact hx

end Programs

/-! ### Waiting -/

variable {wants : κ → Option ι} {holder : ι → Option κ} {rank : ι → Nat} {a b : κ}

/-- Agent `a` waits for a lock that agent `b` holds. -/
def WaitsFor (wants : κ → Option ι) (holder : ι → Option κ) (a b : κ) : Prop :=
  ∃ l, wants a = some l ∧ holder l = some b

/-- Every agent that waits holds locks of a lower rank only. -/
def InOrder (rank : ι → Nat) (wants : κ → Option ι) (holder : ι → Option κ) : Prop :=
  ∀ a l x, wants a = some l → holder x = some a → rank x < rank l

/-- Along a chain of agents that wait for one another the locks rise. -/
theorem exists_rank_le (horder : InOrder rank wants holder)
    (h : Relation.TransGen (WaitsFor wants holder) a b) :
    ∃ l x, wants a = some l ∧ holder x = some b ∧ rank l ≤ rank x := by
  induction h with
  | single hab =>
    obtain ⟨l, hwants, hholder⟩ := hab
    exact ⟨l, l, hwants, hholder, le_rfl⟩
  | @tail b c _ hbc ih =>
    obtain ⟨l, x, hl, hx, hle⟩ := ih
    obtain ⟨y, hwants, hholder⟩ := hbc
    have hlt : rank x < rank y := horder b y x hwants hx
    exact ⟨l, y, hl, hholder, Nat.le_trans hle (Nat.le_of_lt hlt)⟩

/-- Agents that acquire in order never wait for one another in a circle. -/
theorem not_transGen_waitsFor (horder : InOrder rank wants holder) (a : κ) :
    ¬ Relation.TransGen (WaitsFor wants holder) a a := by
  intro h
  obtain ⟨l, x, hl, hx, hle⟩ := exists_rank_le horder h
  exact absurd (horder a l x hl hx) (not_lt.mpr hle)

end Rpi4Kernel.Theory
