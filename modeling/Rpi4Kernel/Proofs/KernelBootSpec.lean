/-
Module: Rpi4Kernel.Proofs.KernelBootSpec
Layer: Proofs
Purpose: The system that `kernel_main` and `initSecondaryCore` set up is booted in the sense in which
  the results about runs ask for it, for every number of kernel tasks.
Trusted boundary: none (fully proved)
Main exports: kernelBooted_kernelBoot
-/
import Mathlib.Data.List.Nodup
import Mathlib.Tactic
import Rpi4Kernel.Sched.KernelTasks

namespace Rpi4Kernel.Sched

open Rpi4Kernel.Stdlib

variable {n i : Nat} {c : Core} {p : Priority} {t : TaskId}

theorem foldl_add_array {α : Type} (q : ArrayList α) (l : List α) :
    (l.foldl ArrayList.add q).array = q.array ++ l := by
  induction l generalizing q with
  | nil => simp
  | cons x l ih => rw [List.foldl_cons, ih, ArrayList.add, List.append_assoc, List.singleton_append]

/-! ### The tasks and their numbers -/

theorem taskOf_div (hi : i < n + 2) : taskOf n c i / (n + 2) = c := by
  rw [taskOf, Nat.mul_comm, Nat.mul_add_div (by omega), Nat.div_eq_of_lt hi, Nat.add_zero]

theorem taskOf_mod (hi : i < n + 2) : taskOf n c i % (n + 2) = i := by
  rw [taskOf, Nat.mul_comm, Nat.mul_add_mod, Nat.mod_eq_of_lt hi]

theorem taskHome_taskOf (hi : i < n + 2) : taskHome n (taskOf n c i) = some c := by
  rw [taskHome, dif_pos (by rw [taskOf_div hi]; exact c.isLt)]
  simp [taskOf_div hi]

/-- A task of core `c` is one of its `n + 2` tasks. -/
theorem eq_taskOf (h : taskHome n t = some c) : ∃ i, i < n + 2 ∧ t = taskOf n c i := by
  unfold taskHome at h
  split at h
  case isTrue hlt =>
    refine ⟨t % (n + 2), Nat.mod_lt _ (by omega), ?_⟩
    cases h
    rw [taskOf, Nat.mul_comm]
    exact (Nat.div_add_mod t (n + 2)).symm
  case isFalse => cases h

/-- The priority that task `i` of a core is given. -/
def taskPriority (n i : Nat) : Priority := if i = 0 then 20 else if i = n + 1 then 0 else 19

theorem kernelBoot_tasks (hi : i < n + 2) :
    (kernelBoot n).tasks (taskOf n c i) =
      (taskBody n (taskOf n c i)).create c (taskOf n c i + 1) none := by
  simp only [kernelBoot, taskHome_taskOf hi]

theorem taskBody_taskOf (hi : i < n + 2) :
    taskBody n (taskOf n c i) = if i = 0 then .idle else if i = n + 1 then .screen else .kernel := by
  rw [taskBody, taskOf_mod hi]

theorem kernelBoot_p (hi : i < n + 2) :
    ((kernelBoot n).tasks (taskOf n c i)).p = taskPriority n i := by
  rw [kernelBoot_tasks hi, taskBody_taskOf hi, taskPriority]
  split
  · rfl
  · split <;> rfl

/-! ### The run queues -/

theorem mem_bootQueue : t ∈ bootQueue n c p ↔ ∃ i, i < n + 2 ∧ t = taskOf n c i ∧
    taskPriority n i = p := by
  have h20 : ∀ i, i ≠ 0 → taskPriority n i ≠ 20 := by
    intro i hi
    rw [taskPriority, if_neg hi]
    split <;> decide
  unfold bootQueue
  split
  case isTrue hp =>
    subst hp
    simp only [List.mem_singleton]
    refine ⟨fun ht => ⟨0, by omega, ht, by simp [taskPriority]⟩, fun ⟨i, _, ht, hpi⟩ => ?_⟩
    by_cases hi : i = 0
    · exact hi ▸ ht
    · exact absurd hpi (h20 i hi)
  case isFalse hp20 =>
    split
    case isTrue hp =>
      subst hp
      simp only [List.mem_map, List.mem_range]
      constructor
      · rintro ⟨i, hi, rfl⟩
        exact ⟨i + 1, by omega, rfl, by simp [taskPriority, show i ≠ n by omega]⟩
      · rintro ⟨i, hi, rfl, hpi⟩
        have h0 : i ≠ 0 := by
          rintro rfl
          simp [taskPriority] at hpi
        have hn : i ≠ n + 1 := by
          rintro rfl
          simp [taskPriority] at hpi
        exact ⟨i - 1, by omega, by rw [Nat.sub_add_cancel (by omega)]⟩
    case isFalse hp19 =>
      have hpi : ∀ i, taskPriority n i = p → i = n + 1 ∧ p = 0 := by
        intro i hi
        unfold taskPriority at hi
        split at hi
        · exact absurd hi.symm hp20
        · split at hi
          · exact ⟨‹_›, hi.symm⟩
          · exact absurd hi.symm hp19
      split
      case isTrue hp =>
        subst hp
        simp only [List.mem_singleton]
        refine ⟨fun ht => ⟨n + 1, by omega, ht, by simp [taskPriority]⟩, fun ⟨i, _, ht, h⟩ => ?_⟩
        rw [← (hpi i h).1]
        exact ht
      case isFalse hp0 =>
        simp only [List.not_mem_nil, false_iff, not_exists, not_and]
        exact fun i _ _ h => hp0 (hpi i h).2

theorem nodup_bootQueue : (bootQueue n c p).Nodup := by
  unfold bootQueue
  split
  · simp
  · split
    · refine List.nodup_range.map fun i j hij => ?_
      exact Nat.succ.inj (Nat.add_left_cancel hij)
    · split <;> simp

theorem count_kernelBoot (c : Core) (p : Priority) (t : TaskId) :
    ((kernelBoot n).runningQ c p).array.count t =
      if taskHome n t = some c ∧ ((kernelBoot n).tasks t).p = p then 1 else 0 := by
  rw [show ((kernelBoot n).runningQ c p).array = bootQueue n c p by
    simp [kernelBoot, foldl_add_array, ArrayList.new], List.Nodup.count nodup_bootQueue]
  congr 1
  rw [mem_bootQueue]
  apply propext
  constructor
  · rintro ⟨i, hi, rfl, hp⟩
    exact ⟨taskHome_taskOf hi, by rw [kernelBoot_p hi, hp]⟩
  · rintro ⟨hhome, hp⟩
    obtain ⟨i, hi, rfl⟩ := eq_taskOf hhome
    exact ⟨i, hi, rfl, by rw [← hp, kernelBoot_p hi]⟩

/-! ### The system after boot -/

theorem kernelBooted_kernelBoot (n : Nat) : KernelBooted (taskHome n) (taskBody n) (kernelBoot n) where
  queued := count_kernelBoot
  sleepingQ := rfl
  sleepingQLock := rfl
  handler _ := rfl
  sleepIrq _ _ := rfl
  entry t := by
    simp only [kernelBoot]
    split
    · cases taskBody n t with
      | idle => exact .inl rfl
      | kernel => exact .inr ⟨.kernelBegin, rfl⟩
      | screen => exact .inr ⟨.screenBegin, rfl⟩
    · exact .inl rfl
  boot c := by
    have hdiv : ¬ (4 * (n + 2) + c.val) / (n + 2) < 4 := by
      rw [Nat.div_lt_iff_lt_mul (by omega)]
      omega
    simp [kernelBoot, taskHome, hdiv]
  hang _ := rfl
  distinct c d h := by
    exact Fin.ext (Nat.add_left_cancel h)
  unsaved t d h := by simpa [kernelBoot] using List.find?_some h
  pinned t c d ht hd := by
    simp only [kernelBoot, ht] at hd
    cases hbody : taskBody n t <;> simp_all [Body.create, createKernelTask]
  created t c ht := ⟨t + 1, none, by simp only [kernelBoot, ht]⟩
  idle c := ⟨taskOf n c 0, taskHome_taskOf (by omega), by rw [taskBody_taskOf (by omega), if_pos rfl]⟩

end Rpi4Kernel.Sched
