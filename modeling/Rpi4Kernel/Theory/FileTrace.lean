/-
Module: Rpi4Kernel.Theory.FileTrace
Layer: Theory
Purpose: A program that moves about in a file and writes to it, seen from its requests: absolute and
  relative seeks, reads and writes. A seek may fail, which leaves the position; a write may fail,
  which ends the program; reads and writes may be short. The writes of a program whose seeks succeed
  are bounded by an analysis of the positions it can be at, whatever the other calls answer.
Trusted boundary: none (fully proved)
Main exports: FileOp, Write, Outcome, writes, allComplete, Interval, FileOp.shift, Fits, fits_append,
  writes_in_range, writes_append, data_of_mem_writes
-/
import Mathlib.Data.List.Basic
import Mathlib.Tactic

namespace Rpi4Kernel.Theory

/-- A request for an open file. A seek is to a position, or by a distance. -/
inductive FileOp (α : Type) where
  | seekSet (position : ℕ)
  | seekCur (distance : ℕ)
  | read (size : ℕ)
  | write (data : α) (size : ℕ)

/-- A write: where it begins, and how many bytes of its data are written. -/
structure Write (α : Type) where
  position : ℕ
  data : α
  count : ℕ

/-- What the calls answer, by their numbers: whether a seek succeeds, and how many bytes a read or a
    write has transferred of those that it is asked for, unless it fails. -/
structure Outcome where
  seeks : ℕ → Bool
  transfers : ℕ → ℕ → Option ℕ

/-- Every seek succeeds. -/
def Outcome.SeeksSucceed (outcome : Outcome) : Prop := ∀ k, outcome.seeks k = true

variable {α : Type} {ops ops' : List (FileOp α)} {outcome : Outcome} {lo hi : ℕ}

/-- The writes of a program from the given position on, with `k` calls made before. It stops at a
    write that fails, and goes on where it is after a seek that fails. -/
def writes (outcome : Outcome) : ℕ → ℕ → List (FileOp α) → List (Write α)
  | _, _, [] => []
  | k, position, .seekSet target :: ops =>
    writes outcome (k + 1) (if outcome.seeks k then target else position) ops
  | k, position, .seekCur distance :: ops =>
    writes outcome (k + 1) (if outcome.seeks k then position + distance else position) ops
  | k, position, .read size :: ops =>
    writes outcome (k + 1) (position + min ((outcome.transfers k size).getD 0) size) ops
  | k, position, .write data size :: ops =>
    match outcome.transfers k size with
    | none => []
    | some n => ⟨position, data, min n size⟩ :: writes outcome (k + 1) (position + min n size) ops

/-- Every seek succeeds, and every other call transfers all bytes. -/
def allComplete : Outcome := ⟨fun _ => true, fun _ size => some size⟩

/-! ### Where a program writes -/

/-- The positions that a program may be at. -/
structure Interval where
  first : ℕ
  last : ℕ

/-- The positions after a request. Seeks succeed, reads and writes may be short. -/
def FileOp.shift (at_ : Interval) : FileOp α → Interval
  | .seekSet position => ⟨position, position⟩
  | .seekCur distance => ⟨at_.first + distance, at_.last + distance⟩
  | .read size => ⟨at_.first, at_.last + size⟩
  | .write _ size => ⟨at_.first, at_.last + size⟩

/-- The positions after all requests. -/
def shiftAll (at_ : Interval) (ops : List (FileOp α)) : Interval := ops.foldl FileOp.shift at_

/-- Wherever in the interval the program begins, it writes from `lo` to `hi - 1` only. -/
def Fits (lo hi : ℕ) : Interval → List (FileOp α) → Prop
  | _, [] => True
  | at_, .write data size :: ops =>
    lo ≤ at_.first ∧ at_.last + size ≤ hi ∧ Fits lo hi (FileOp.shift at_ (.write data size)) ops
  | at_, op :: ops => Fits lo hi (FileOp.shift at_ op) ops

theorem fits_append (at_ : Interval) :
    Fits lo hi at_ (ops ++ ops') ↔ Fits lo hi at_ ops ∧ Fits lo hi (shiftAll at_ ops) ops' := by
  induction ops generalizing at_ with
  | nil => simp [Fits, shiftAll]
  | cons op ops ih =>
    cases op with
    | write data size => simp only [List.cons_append, Fits, ih, shiftAll, List.foldl_cons, and_assoc]
    | _ => simp only [List.cons_append, Fits, ih, shiftAll, List.foldl_cons]

theorem shiftAll_append (at_ : Interval) :
    shiftAll at_ (ops ++ ops') = shiftAll (shiftAll at_ ops) ops' :=
  List.foldl_append

/-- Writing `n` times. -/
theorem shiftAll_replicate_write (data : α) (size n : ℕ) (at_ : Interval) :
    shiftAll at_ (List.replicate n (.write data size)) = ⟨at_.first, at_.last + n * size⟩ := by
  induction n generalizing at_ with
  | zero => simp [shiftAll]
  | succ n ih =>
    refine (ih _).trans ?_
    rw [FileOp.shift, Nat.succ_mul, Nat.add_assoc, Nat.add_comm size]

theorem fits_replicate_write (data : α) {size n : ℕ} {at_ : Interval} (hfirst : lo ≤ at_.first)
    (hlast : at_.last + n * size ≤ hi) : Fits lo hi at_ (List.replicate n (.write data size)) := by
  induction n generalizing at_ with
  | zero => trivial
  | succ n ih =>
    rw [Nat.succ_mul] at hlast
    refine ⟨hfirst, by omega, ih hfirst ?_⟩
    rw [FileOp.shift]
    dsimp only
    omega

/-- Repeating a program that writes, and moves on, by at most `step` bytes. -/
theorem fits_repeat {body : List (FileOp α)} {step : ℕ}
    (hbody : ∀ at_ : Interval, lo ≤ at_.first → at_.last + step ≤ hi →
      Fits lo hi at_ body ∧ at_.first ≤ (shiftAll at_ body).first ∧
        (shiftAll at_ body).last ≤ at_.last + step)
    {n : ℕ} {at_ : Interval} (hfirst : lo ≤ at_.first) (hlast : at_.last + n * step ≤ hi) :
    Fits lo hi at_ (List.replicate n body).flatten := by
  induction n generalizing at_ with
  | zero => trivial
  | succ n ih =>
    rw [Nat.succ_mul] at hlast
    obtain ⟨fits, forward, moved⟩ := hbody at_ hfirst (by omega)
    rw [List.replicate_succ, List.flatten_cons, fits_append]
    exact ⟨fits, ih (hfirst.trans forward) (by omega)⟩

/-- Whatever the other calls answer, a program that fits and whose seeks succeed writes where it is said
    to. -/
theorem writes_in_range {at_ : Interval} {k position : ℕ} (h : Fits lo hi at_ ops)
    (hseeks : outcome.SeeksSucceed) (hfirst : at_.first ≤ position) (hlast : position ≤ at_.last) :
    ∀ w ∈ writes outcome k position ops, lo ≤ w.position ∧ w.position + w.count ≤ hi := by
  induction ops generalizing at_ k position with
  | nil => simp [writes]
  | cons op ops ih =>
    cases op with
    | seekSet target =>
      rw [writes, if_pos (hseeks k)]
      exact ih h le_rfl le_rfl
    | seekCur distance =>
      rw [writes, if_pos (hseeks k)]
      exact ih h (Nat.add_le_add_right hfirst _) (Nat.add_le_add_right hlast _)
    | read size =>
      have short : min ((outcome.transfers k size).getD 0) size ≤ size := min_le_right _ _
      exact ih h (hfirst.trans (Nat.le_add_right _ _)) (Nat.add_le_add hlast short)
    | write data size =>
      obtain ⟨above, below, rest⟩ := h
      rw [writes]
      cases outcome.transfers k size with
      | none => simp
      | some n =>
        have short : min n size ≤ size := min_le_right _ _
        refine List.forall_mem_cons.mpr ⟨⟨above.trans hfirst, by dsimp only; omega⟩, ?_⟩
        exact ih rest (hfirst.trans (Nat.le_add_right _ _)) (Nat.add_le_add hlast short)

/-! ### Programs one after the other -/

/-- As long as no call fails, the second program goes on where the first one has ended. -/
theorem writes_append (k position : ℕ) (ops ops' : List (FileOp α)) :
    ∃ k' position', writes allComplete k position (ops ++ ops') =
      writes allComplete k position ops ++ writes allComplete k' position' ops' := by
  induction ops generalizing k position with
  | nil => exact ⟨k, position, rfl⟩
  | cons op ops ih =>
    cases op with
    | seekSet target => exact ih (k + 1) target
    | seekCur distance => exact ih (k + 1) (position + distance)
    | read size => exact ih (k + 1) _
    | write data size =>
      obtain ⟨k', position', h⟩ := ih (k + 1) (position + min size size)
      exact ⟨k', position', congrArg (List.cons _) h⟩

/-- The data of the writes are those of the requests. -/
theorem data_of_mem_writes {k position : ℕ} {w : Write α} (h : w ∈ writes outcome k position ops) :
    ∃ size, .write w.data size ∈ ops := by
  induction ops generalizing k position with
  | nil => cases h
  | cons op ops ih =>
    have later {k position : ℕ} (h : w ∈ writes outcome k position ops) :
        ∃ size, .write w.data size ∈ op :: ops := by
      obtain ⟨size, hmem⟩ := ih h
      exact ⟨size, List.mem_cons_of_mem _ hmem⟩
    cases op with
    | seekSet target => exact later h
    | seekCur distance => exact later h
    | read size => exact later h
    | write data size =>
      rw [writes] at h
      cases hout : outcome.transfers k size with
      | none =>
        rw [hout] at h
        cases h
      | some n =>
        rw [hout] at h
        rcases List.mem_cons.mp h with rfl | hrest
        · exact ⟨size, List.mem_cons_self⟩
        · exact later hrest

end Rpi4Kernel.Theory
