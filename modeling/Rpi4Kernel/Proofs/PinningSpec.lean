/-
Module: Rpi4Kernel.Proofs.PinningSpec
Layer: Proofs
Purpose: Every task in a run queue has the priority of the queue and, if it is pinned, is pinned to
  the core of the queue, in every run of any tasks: `calcNextCore` sends a pinned task home, and
  nothing else puts tasks into run queues.
Trusted boundary: none (fully proved)
Main exports: State.Matched, Matching, matching_step, matched_of_run
-/
import Rpi4Kernel.Proofs.KernelBootSpec
import Rpi4Kernel.Proofs.PlacementSpec

namespace Rpi4Kernel.Sched

open Rpi4Kernel.Stdlib Rpi4Kernel.Theory

variable {β : Type} {s s' : State β} {c d : Core} {t : TaskId}

/-- The tasks in the run queues are where their priority and their pinning put them. -/
def State.Matched (s : State β) : Prop :=
  ∀ c p, ∀ t ∈ (s.runningQ c p).array, (s.tasks t).p = p ∧ ∀ d, (s.tasks t).pinned = some d → d = c

/-- A wake-up pass looks for a core for tasks that are not pinned, and moves others to their core. -/
structure Matching (s : State β) : Prop where
  matched : s.Matched
  looking : ∀ c pass t i count out, s.handler c = .calcCore pass t i count out →
    (s.tasks t).pinned = none
  moving : ∀ c pass t n, s.handler c = .move pass t n → ∀ d, (s.tasks t).pinned = some d → d = n

namespace Matching

/-- The priority and the pinning of tasks stay, nothing new is queued, and handlers go on with a task
    that may go there. -/
theorem frame (h : Matching s) (hp : ∀ t, (s'.tasks t).p = (s.tasks t).p)
    (hpinned : ∀ t, (s'.tasks t).pinned = (s.tasks t).pinned)
    (hqueue : ∀ c p, ∀ t ∈ (s'.runningQ c p).array, t ∈ (s.runningQ c p).array ∨
      (s.tasks t).p = p ∧ ∀ d, (s.tasks t).pinned = some d → d = c)
    (hlooking : ∀ c pass t i count out, s'.handler c = .calcCore pass t i count out →
      (s.tasks t).pinned = none)
    (hmoving : ∀ c pass t n, s'.handler c = .move pass t n → ∀ d, (s.tasks t).pinned = some d → d = n) :
    Matching s' where
  matched c p t ht := by
    rw [hp, hpinned]
    exact (hqueue c p t ht).elim (h.matched c p t) id
  looking c pass t i count out hc := by
    rw [hpinned]
    exact hlooking c pass t i count out hc
  moving c pass t n hc := by
    rw [hpinned]
    exact hmoving c pass t n hc

/-- A handler goes on without a task in hand, or with one that may go on. -/
theorem go {after : Handler} (h : Matching s) (hp : ∀ t, (s'.tasks t).p = (s.tasks t).p)
    (hpinned : ∀ t, (s'.tasks t).pinned = (s.tasks t).pinned)
    (hqueue : ∀ c p, ∀ t ∈ (s'.runningQ c p).array, t ∈ (s.runningQ c p).array ∨
      (s.tasks t).p = p ∧ ∀ d, (s.tasks t).pinned = some d → d = c)
    (hhandler : s'.handler = Function.update s.handler c after)
    (hlooking : ∀ pass t i count out, after = .calcCore pass t i count out → (s.tasks t).pinned = none)
    (hmoving : ∀ pass t n, after = .move pass t n → ∀ d, (s.tasks t).pinned = some d → d = n) :
    Matching s' := by
  refine h.frame hp hpinned hqueue (fun d pass t i count out hd => ?_) fun d pass t n hd => ?_
  · rw [hhandler] at hd
    by_cases hdc : d = c
    · subst hdc
      exact hlooking pass t i count out (by simpa using hd)
    · exact h.looking d pass t i count out (by rwa [Function.update_of_ne hdc] at hd)
  · rw [hhandler] at hd
    by_cases hdc : d = c
    · subst hdc
      exact hmoving pass t n (by simpa using hd)
    · exact h.moving d pass t n (by rwa [Function.update_of_ne hdc] at hd)

/-- Tasks move no task. -/
theorem placesKept (h : Matching s) (u : PlacesKept s s') : Matching s' :=
  h.frame u.p u.pinned (fun _ _ _ ht => .inl (u.runningQ ▸ ht)) (u.handler ▸ h.looking)
    (u.handler ▸ h.moving)

/-- A handler goes on with no task in hand and no queue touched. -/
theorem go_on {after : Handler} (h : Matching s) (htasks : s'.tasks = s.tasks)
    (hqueue : s'.runningQ = s.runningQ) (hhandler : s'.handler = Function.update s.handler c after)
    (hafter : after.waking = none) : Matching s' :=
  h.go (fun _ => by rw [htasks]) (fun _ => by rw [htasks]) (fun _ _ _ ht => .inl (hqueue ▸ ht)) hhandler
    (fun _ _ _ _ _ heq => by simp [heq, Handler.waking] at hafter)
    (fun _ _ _ heq => by simp [heq, Handler.waking] at hafter)

end Matching

theorem clear_pinned (pass : Pass) (task : Task β) : (State.clear pass task).pinned = task.pinned := by
  cases pass <;> rfl

theorem updateTask_pinned {f : Task β → Task β} (hf : ∀ task, (f task).pinned = task.pinned)
    (t x : TaskId) : ((s.updateTask t f).tasks x).pinned = (s.tasks x).pinned :=
  updateTask_keeps Task.pinned hf s t x

theorem mem_setRunningQ {s : State β} {p q : Priority} {l : ArrayList TaskId}
    (ht : t ∈ ((s.setRunningQ c p l).runningQ d q).array) :
    t ∈ (s.runningQ d q).array ∨ d = c ∧ q = p ∧ t ∈ l.array := by
  by_cases hd : d = c
  · subst hd
    by_cases hq : q = p
    · subst hq
      exact .inr ⟨rfl, rfl, by simpa [State.setRunningQ] using ht⟩
    · exact .inl (by simpa [State.setRunningQ, hq] using ht)
  · exact .inl (by simpa [State.setRunningQ, hd] using ht)

theorem matching_handlerStep {reading : Nat} (h : Matching s) (hs : HandlerStep s c reading s') :
    Matching s' := by
  cases hs with
  | removed q phase sub =>
    refine h.go (fun _ => rfl) (fun _ => rfl) (fun d p t ht => .inl ?_) rfl nofun nofun
    rcases mem_setRunningQ ht with hold | ⟨rfl, rfl, hnew⟩
    · exact hold
    · exact sub t hnew
  | @found pass index t phase slot ready =>
    refine h.go (updateTask_p (clear_p pass) t) (updateTask_pinned (clear_pinned pass) t)
      (fun _ _ _ ht => .inl ht) rfl (fun pass' t' i count out heq => ?_) fun pass' t' n heq d hd => ?_
    · cases hpin : (s.tasks t).pinned <;> simp only [State.afterReady, hpin] at heq <;> cases heq
      exact hpin
    · cases hpin : (s.tasks t).pinned <;> simp only [State.afterReady, hpin] at heq <;> cases heq
      exact Option.some.inj (hd.symm.trans hpin)
  | compared phase =>
    exact h.go (fun _ => rfl) (fun _ => rfl) (fun _ _ _ ht => .inl ht) rfl
      (fun _ _ _ _ _ heq => by cases heq; exact h.looking c _ _ _ _ _ phase) nofun
  | chosen phase =>
    exact h.go (fun _ => rfl) (fun _ => rfl) (fun _ _ _ ht => .inl ht) rfl nofun
      (fun _ _ _ heq d hd => by
        cases heq
        rw [h.looking c _ _ _ _ _ phase] at hd
        cases hd)
  | @moved pass t n q phase perm =>
    refine h.go (fun _ => rfl) (fun _ => rfl) (fun d p x hx => ?_) rfl nofun nofun
    rcases mem_setRunningQ (s := { s with sleepingQ := q }) hx with hold | ⟨rfl, rfl, hnew⟩
    · exact .inl hold
    · rcases List.mem_append.mp hnew with hold | hx
      · exact .inl hold
      · cases List.mem_singleton.mp hx
        exact .inr ⟨rfl, h.moving c pass _ _ phase⟩
  | saved phase =>
    exact h.go (updateTask_p (f := fun task => { task with context := s.regs c }) (fun _ => rfl) _)
      (updateTask_pinned (f := fun task => { task with context := s.regs c }) (fun _ => rfl) _)
      (fun _ _ _ ht => .inl ht) rfl nofun nofun
  | @ended pass _ _ _ => exact h.go_on rfl rfl rfl (by cases pass <;> rfl)
  | @refused o _ _ => exact h.go_on rfl rfl rfl (by cases o <;> rfl)
  | @switched o _ _ => exact h.go_on rfl rfl rfl (by cases o <;> rfl)
  | added => exact h.go_on rfl rfl rfl rfl
  | begun => exact h.go_on rfl rfl rfl rfl
  | passed => exact h.go_on rfl rfl rfl rfl
  | allowed => exact h.go_on rfl rfl rfl rfl
  | picked => exact h.go_on rfl rfl rfl rfl
  | uninitialized => exact h.go_on rfl rfl rfl rfl
  | loaded => exact h.go_on rfl rfl rfl rfl
  | sent => exact h.go_on rfl rfl rfl rfl

theorem matching_step {code : Code β} {e : Event β} (h : Matching s) (g : s.Guarded)
    (hs : step code s e = some s') : Matching s' := by
  cases e with
  | timer =>
    obtain ⟨-, rfl⟩ := takeTimer_spec hs
    exact h.go_on rfl rfl rfl rfl
  | interrupt c irq source =>
    obtain ⟨-, after, _, _, _, hstart, rfl⟩ := takeInterrupt_frame hs
    exact h.go_on rfl rfl rfl (Handler.waking_of_starts hstart)
  | handle c reading => exact matching_handlerStep h (handlerStep_of_handle g hs)
  | call c call ret counter =>
    obtain ⟨-, -, rfl⟩ := step_call hs
    exact h.placesKept placesKept_setRegs
  | resume c exclusive counter => exact h.placesKept (step_resume hs).2.placesKept

theorem matching_of_booted {home : TaskId → Option Core} (h : Booted home s) : Matching s where
  matched c p t ht := by
    obtain ⟨hhome, hp⟩ : home t = some c ∧ (s.tasks t).p = p := by
      by_contra hn
      rw [← List.count_pos_iff, h.queued, if_neg hn] at ht
      exact lt_irrefl _ ht
    exact ⟨hp, fun d hd => h.pinned t c d hhome hd⟩
  looking c pass t i count out hc := by simp [h.handler] at hc
  moving c pass t n hc := by simp [h.handler] at hc

theorem matching_of_run {home : TaskId → Option Core} {code : Code β} {ok : State β → Event β → Bool}
    {s₀ : State β} (hboot : Booted home s₀) (hrun : RunWhere (step code) ok s₀ s) : Matching s :=
  hrun.invariant_of (p := State.Guarded) (fun _ hs => guarded_of_run hboot hs)
    (matching_of_booted hboot) fun _ _ _ g h _ hs => matching_step h g hs

/-- In every run of any tasks, every task in a run queue has the priority of the queue and is pinned to
    no other core than that of the queue. -/
theorem matched_of_run {home : TaskId → Option Core} {code : Code β} {s₀ : State β}
    (hboot : Booted home s₀) (hrun : Run (step code) s₀ s) : s.Matched :=
  (matching_of_run hboot hrun).matched

theorem matched_of_wakeUp :
    ∃ s, Run (step kernelCode) (kernelBoot threadN) s ∧
      taskOf threadN 0 101 ∈ (s.runningQ 0 0).array ∧ s.currentTask 0 = taskOf threadN 0 1 ∧
      s.Matched := by
  obtain ⟨s, hrun, hs⟩ : ∃ s, Run (step kernelCode) (kernelBoot threadN) s ∧
      decide (taskOf threadN 0 101 ∈ (s.runningQ 0 0).array ∧
        s.currentTask 0 = taskOf threadN 0 1) = true :=
    RunWhere.exists_of_replay (firstTick ++ screenTurn 0 0 ++ sleepNow 0 0 ++
      .timer :: List.replicate 3 (.handle 0 16000)) (by decide +kernel)
  obtain ⟨hmem, hcur⟩ := of_decide_eq_true hs
  exact ⟨s, hrun, hmem, hcur, matched_of_run (kernelBooted_kernelBoot threadN).toBooted hrun⟩

end Rpi4Kernel.Sched
