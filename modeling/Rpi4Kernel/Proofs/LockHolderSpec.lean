/-
Module: Rpi4Kernel.Proofs.LockHolderSpec
Layer: Proofs
Purpose: No task sleeps on a lock that it has set itself, as long as `testAndSet` does not succeed for a
  task that is still marked as sleeping on the lock. It does when the lock is freed between a failed
  `testAndSet` and the sleep interrupt that `Spinlock::get` has asked for.
Trusted boundary: none (fully proved)
Main exports: HoldsAwake, holdsAwake_step, sleepsOnOthersLock_of_run
-/
import Rpi4Kernel.Proofs.KernelBootSpec
import Rpi4Kernel.Proofs.PlacementSpec

namespace Rpi4Kernel.Sched

open Rpi4Kernel.Theory

variable {β : Type} {s s' : State β} {c : Core} {t : TaskId}

/-- A task that has set a lock is not marked as sleeping on it. -/
def HoldsAwake (s : State β) : Prop :=
  ∀ t l, s.holds t l = true → (s.tasks t).sleepingOnLock ≠ some l

/-- Locks are forgotten only, and no lock changes hands. -/
theorem HoldsAwake.frame (h : HoldsAwake s) (hholds : s'.holds = s.holds)
    (htasks : ∀ t, (s'.tasks t).sleepingOnLock = (s.tasks t).sleepingOnLock ∨
      (s'.tasks t).sleepingOnLock = none) : HoldsAwake s' := by
  intro t l hl
  rw [hholds] at hl
  rcases htasks t with heq | heq
  · rw [heq]
    exact h t l hl
  · rw [heq]
    nofun

/-- A change of one task that keeps its lock, or clears it. -/
theorem updateTask_sleepingOnLock {f : Task β → Task β}
    (hf : ∀ task, (f task).sleepingOnLock = task.sleepingOnLock ∨ (f task).sleepingOnLock = none)
    (t u : TaskId) : ((s.updateTask t f).tasks u).sleepingOnLock = (s.tasks u).sleepingOnLock ∨
      ((s.updateTask t f).tasks u).sleepingOnLock = none := by
  by_cases hu : u = t
  · subst hu
    simpa [State.updateTask] using hf (s.tasks u)
  · simp [State.updateTask, hu]

theorem holdsAwake_handlerStep {reading : Nat} (h : HoldsAwake s) (hs : HandlerStep s c reading s') :
    HoldsAwake s' := by
  cases hs with
  | @found pass index t phase slot ready =>
    exact h.frame rfl (updateTask_sleepingOnLock
      (fun task => by cases pass <;> simp [State.clear]) t)
  | saved phase =>
    exact h.frame rfl (updateTask_sleepingOnLock (f := fun task => { task with context := s.regs c })
      (fun _ => .inl rfl) _)
  | _ => exact h.frame rfl fun _ => .inl rfl

theorem holdsAwake_taskStep {exclusive : Bool} {counter : Nat} (h : HoldsAwake s)
    (hok : retriesClean s (.resume c exclusive counter) = true)
    (hs : TaskStep s c exclusive counter s') : HoldsAwake s' := by
  intro t l hl
  by_cases hold : s.holds t l = true
  · -- the task has set the lock before, so that no store marks it
    obtain hsame | ⟨l', ret, hregs, hmark⟩ := hs.sleepingOnLock_eq t
    · rw [hsame]
      exact h t l hold
    · have hno : s.holds t l' = false := by simpa [retriesClean, hregs] using hok
      rw [hmark]
      rintro ⟨⟩
      exact absurd (hold.symm.trans hno) nofun
  · cases hs with
    | @acquired l' ret phase free stores =>
      -- the lock is set now, by a task that is not marked as sleeping on it
      have hmine : t = s.currentTask c ∧ l = l' := by
        by_contra hne
        refine hold ?_
        by_cases ht : t = s.currentTask c
        · subst ht
          have hll : l ≠ l' := fun heq => hne ⟨rfl, heq⟩
          simpa [State.setRegs, State.updateLock, hll] using hl
        · simpa [State.setRegs, State.updateLock, ht] using hl
      obtain ⟨rfl, rfl⟩ := hmine
      simpa [retriesClean, phase, free, stores, State.setRegs, State.updateLock] using hok
    | @unlocked l' ret phase =>
      refine absurd ?_ hold
      by_cases ht : t = s.currentTask c
      · subst ht
        by_cases hll : l = l'
        · simp [State.setRegs, hll] at hl
        · simpa [State.setRegs, hll] using hl
      · simpa [State.setRegs, State.updateLock, ht] using hl
    | @sent core send phase =>
      refine absurd ?_ hold
      unfold State.request at hl
      split at hl <;> exact hl
    | _ => exact absurd hl hold

theorem holdsAwake_step {code : Code β} {e : Event β} (h : HoldsAwake s) (g : s.Guarded)
    (hok : retriesClean s e = true) (hs : step code s e = some s') : HoldsAwake s' := by
  cases e with
  | timer =>
    obtain ⟨-, rfl⟩ := takeTimer_spec hs
    exact h
  | interrupt c irq source =>
    obtain ⟨-, _, _, _, _, -, rfl⟩ := takeInterrupt_frame hs
    exact h
  | handle c reading => exact holdsAwake_handlerStep h (handlerStep_of_handle g hs)
  | call c call ret counter =>
    obtain ⟨-, -, rfl⟩ := step_call hs
    exact h
  | resume c exclusive counter => exact holdsAwake_taskStep h hok (step_resume hs).2

/-- In runs of any tasks in which `testAndSet` succeeds for tasks that are not marked only, and no task
    that has set a lock is marked as sleeping on it, no task sleeps on a lock that it has set. -/
theorem sleepsOnOthersLock_of_run {home : TaskId → Option Core} {code : Code β} {s₀ : State β}
    (hboot : Booted home s₀) (hnone : ∀ t l, s₀.holds t l = false)
    (hrun : RunWhere (step code) retriesClean s₀ s) : s.SleepsOnOthersLock := by
  have hinv := hrun.invariant_of (p := State.Guarded) (q := HoldsAwake)
    (fun _ hs => guarded_of_run hboot hs) (fun t l hl => by simp [hnone] at hl)
    fun _ _ _ g h hok hs => holdsAwake_step h g hok hs
  exact fun t _ l hl => by
    by_contra hne
    exact hinv t l (by simpa using hne) hl

/-- The screen tasks of the cores 0 and 1 ask for the lock, which the second has, and the first goes to
    sleep on it. -/
def screensMeet : List (Event KernelPoint) :=
  firstTick ++ rescheduleNow 1 0 ++ callGet 1 .screenTest ++ callGetBusy 0 .screenTest

theorem sleepsOnOthersLock_of_sleep :
    ∃ s, RunWhere (step kernelCode) retriesClean (kernelBoot threadN) s ∧
      taskOf threadN 0 101 ∈ s.sleepingQ.array ∧ s.SleepsOnOthersLock := by
  obtain ⟨s, hrun, hs⟩ : ∃ s, RunWhere (step kernelCode) retriesClean (kernelBoot threadN) s ∧
      decide (taskOf threadN 0 101 ∈ s.sleepingQ.array) = true :=
    RunWhere.exists_of_replay (screensMeet ++ sleepNow 0 0) (by decide +kernel)
  exact ⟨s, hrun, by simpa using hs, sleepsOnOthersLock_of_run
    (kernelBooted_kernelBoot threadN).toBooted (fun _ _ => rfl) hrun⟩

/-- In the kernel a screen task does go to sleep with the lock that it sleeps on: the other one frees
    the lock, the first one sets it, and only then is its sleep interrupt taken. -/
theorem sleepsOnOthersLock_fails :
    ¬ ∀ s, Run (step kernelCode) (kernelBoot threadN) s → s.SleepsOnOthersLock := by
  intro hall
  obtain ⟨s, hrun, hs⟩ : ∃ s, Run (step kernelCode) (kernelBoot threadN) s ∧
      decide (taskOf threadN 0 101 ∈ s.sleepingQ.array ∧
        (s.tasks (taskOf threadN 0 101)).sleepingOnLock = some fbLock ∧
        s.holds (taskOf threadN 0 101) fbLock = true) = true :=
    RunWhere.exists_of_replay (screensMeet ++ callFree 1 .screenSleep ++
      resumes 0 0 2 ++ [.interrupt 0 .sleep 0, .handle 0 0, .handle 0 0])
      (by decide +kernel)
  obtain ⟨hmem, hlock, hholds⟩ := of_decide_eq_true hs
  exact absurd (hholds.symm.trans (hall s hrun _ hmem _ hlock)) nofun

end Rpi4Kernel.Sched
