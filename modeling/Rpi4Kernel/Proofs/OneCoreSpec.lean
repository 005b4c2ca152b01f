/-
Module: Rpi4Kernel.Proofs.OneCoreSpec
Layer: Proofs
Purpose: No task runs on two cores as long as sleep interrupts find preemption enabled and no wake-up
  pass puts a task on the run queue of one core that another core still has as its current task.
  Without the second condition it does happen: `SYSTEM_SLEEP_IRQ` publishes the task in `sleepingQ`
  before `reschedule` has saved its registers.
Trusted boundary: none (fully proved)
Main exports: OneCore, oneCore_step, runsOnOneCore_of_run
-/
import Rpi4Kernel.Proofs.KernelBootSpec
import Rpi4Kernel.Proofs.PlacementSpec

namespace Rpi4Kernel.Sched

open Rpi4Kernel.Stdlib Rpi4Kernel.Theory

variable {β : Type} {s s' : State β} {place place' : TaskId → Place} {c d : Core} {t : TaskId}

/-- The registers or the current task of the core are about to change. -/
def Handler.switching : Handler → Bool
  | .load _ _ | .setCurrent _ _ => true
  | _ => false

/-- A task that is queued on a core or has registers that are not saved is the current task of no other
    core. -/
structure OneCore (s : State β) (place : TaskId → Place) : Prop where
  distinct : ∀ c d, s.currentTask c = s.currentTask d → c = d
  home : ∀ c d, place (s.currentTask d) = .queued c → d = c
  loaded : ∀ t d, s.unsaved t = some d → s.currentTask d = t ∨ ∃ o, s.handler d = .setCurrent o t
  saved : ∀ c o n, s.handler c = .load o n → s.unsaved (s.currentTask c) = none
  left : ∀ c o n, s.handler c = .setCurrent o n → n ≠ s.currentTask c →
    s.unsaved (s.currentTask c) = none

namespace OneCore

/-- Steps that switch no task keep this if the tasks they place are placed where they run. -/
theorem frame (h : OneCore s place) (hcurrent : s'.currentTask = s.currentTask)
    (hunsaved : s'.unsaved = s.unsaved)
    (hswitch : ∀ d, (s.handler d).switching = true ∨ (s'.handler d).switching = true →
      s'.handler d = s.handler d)
    (hhome : ∀ c d, place' (s.currentTask d) = .queued c → d = c) : OneCore s' place' where
  distinct := by rw [hcurrent]; exact h.distinct
  home := by rw [hcurrent]; exact hhome
  loaded t d ht := by
    rw [hunsaved] at ht
    rw [hcurrent]
    refine (h.loaded t d ht).imp_right fun ⟨o, ho⟩ => ⟨o, ?_⟩
    rw [hswitch d (.inl (by rw [ho]; rfl)), ho]
  saved d o n hd := by
    rw [hunsaved, hcurrent]
    exact h.saved d o n (by rw [← hswitch d (.inr (by rw [hd]; rfl)), hd])
  left d o n hd := by
    rw [hunsaved, hcurrent]
    exact h.left d o n (by rw [← hswitch d (.inr (by rw [hd]; rfl)), hd])

/-- Tasks switch no task. -/
theorem placesKept (h : OneCore s place) (u : PlacesKept s s')
    (hhome : ∀ c d, place' (s.currentTask d) = .queued c → d = c) : OneCore s' place' :=
  h.frame u.currentTask u.unsaved (fun _ _ => by rw [u.handler]) hhome

/-- A handler goes on outside the switch. -/
theorem go {after : Handler} (h : OneCore s place) (hcurrent : s'.currentTask = s.currentTask)
    (hunsaved : s'.unsaved = s.unsaved) (hhandler : s'.handler = Function.update s.handler c after)
    (hfrom : (s.handler c).switching = false) (hto : after.switching = false)
    (hhome : ∀ c d, place' (s.currentTask d) = .queued c → d = c) : OneCore s' place' := by
  refine h.frame hcurrent hunsaved (fun d hd => ?_) hhome
  rw [hhandler] at hd ⊢
  by_cases hdc : d = c
  · subst hdc
    simp [hfrom, hto] at hd
  · rw [Function.update_of_ne hdc]

/-- The registers of the current task are saved. -/
theorem save {o : Origin} (h : OneCore s place) (hc : s.handler c = .save o t) :
    OneCore (s.save c o t) place where
  distinct := h.distinct
  home := h.home
  loaded u d hu := by
    by_cases hne : u = s.currentTask c
    · subst hne
      simp [State.save, State.setHandler] at hu
    · refine (h.loaded u d (by simpa [State.save, State.setHandler, hne] using hu)).imp_right
        (Exists.imp fun o' ho' => ?_)
      by_cases hd : d = c
      · subst hd
        simp [hc] at ho'
      · simpa [State.save, State.setHandler, State.updateTask, hd] using ho'
  saved d o' n hd := by
    by_cases hdc : d = c
    · subst hdc
      simp [State.save, State.setHandler, State.updateTask]
    · have hd' : s.handler d = .load o' n := by
        simpa [State.save, State.setHandler, State.updateTask, hdc] using hd
      have hne : s.currentTask d ≠ s.currentTask c := fun heq => hdc (h.distinct d c heq)
      simpa [State.save, State.setHandler, State.updateTask, hne] using h.saved d o' n hd'
  left d o' n hd hn := by
    by_cases hdc : d = c
    · subst hdc
      simp [State.save, State.setHandler] at hd
    · have hd' : s.handler d = .setCurrent o' n := by
        simpa [State.save, State.setHandler, State.updateTask, hdc] using hd
      have hne : s.currentTask d ≠ s.currentTask c := fun heq => hdc (h.distinct d c heq)
      simpa [State.save, State.setHandler, State.updateTask, hne] using h.left d o' n hd' hn

/-- The registers of the next task are loaded; no other core has it as its current task. -/
theorem load {o : Origin} (h : OneCore s place) (hc : s.handler c = .load o t)
    (ht : place t = .queued c) : OneCore (s.load c o t) place where
  distinct := h.distinct
  home := h.home
  loaded u d hu := by
    by_cases hne : u = t
    · subst hne
      have hdc : d = c := by simpa [State.load, State.setHandler, eq_comm] using hu
      subst hdc
      exact .inr ⟨o, by simp [State.load, State.setHandler]⟩
    · refine (h.loaded u d
        (by simpa [State.load, State.setHandler, State.setRegs, hne] using hu)).imp_right
        (Exists.imp fun o' ho' => ?_)
      by_cases hd : d = c
      · subst hd
        simp [hc] at ho'
      · simpa [State.load, State.setHandler, State.setRegs, hd] using ho'
  saved d o' n hd := by
    by_cases hdc : d = c
    · subst hdc
      simp [State.load, State.setHandler] at hd
    · have hd' : s.handler d = .load o' n := by
        simpa [State.load, State.setHandler, State.setRegs, hdc] using hd
      have hne : s.currentTask d ≠ t := fun heq => hdc (h.home c d (by rw [heq, ht]))
      simpa [State.load, State.setHandler, State.setRegs, hne] using h.saved d o' n hd'
  left d o' n hd hn := by
    by_cases hdc : d = c
    · subst hdc
      have hnt : t = n := by
        simp only [State.load, State.setHandler, Function.update_self, Handler.setCurrent.injEq] at hd
        exact hd.2
      have hne : s.currentTask d ≠ t := by
        rw [hnt]
        exact Ne.symm hn
      simpa [State.load, State.setHandler, State.setRegs, hne] using h.saved d o t hc
    · have hd' : s.handler d = .setCurrent o' n := by
        simpa [State.load, State.setHandler, State.setRegs, hdc] using hd
      have hne : s.currentTask d ≠ t := fun heq => hdc (h.home c d (by rw [heq, ht]))
      simpa [State.load, State.setHandler, State.setRegs, hne] using h.left d o' n hd' hn

/-- The next task becomes the current one. -/
theorem setCurrent {o : Origin} (h : OneCore s place) (hc : s.handler c = .setCurrent o t)
    (ht : place t = .queued c) : OneCore (s.setCurrent c o t) place := by
  have hafter : o.after.switching = false := by cases o <;> rfl
  have hother : ∀ d, d ≠ c → s.currentTask d ≠ t := fun d hd heq =>
    hd (h.home c d (by rw [heq, ht]))
  constructor
  case distinct =>
    intro d e hde
    by_cases hd : d = c
    · by_cases he : e = c
      · rw [hd, he]
      · subst hd
        simp [State.setCurrent, State.setHandler, he] at hde
        exact absurd hde.symm (hother e he)
    · by_cases he : e = c
      · subst he
        simp [State.setCurrent, State.setHandler, hd] at hde
        exact absurd hde (hother d hd)
      · exact h.distinct d e (by simpa [State.setCurrent, State.setHandler, hd, he] using hde)
  case home =>
    intro e d hd
    by_cases hdc : d = c
    · subst hdc
      simpa [State.setCurrent, State.setHandler, ht] using hd
    · exact h.home e d (by simpa [State.setCurrent, State.setHandler, hdc] using hd)
  case loaded =>
    intro u d hu
    have hold := h.loaded u d hu
    by_cases hdc : d = c
    · subst hdc
      left
      -- the task left behind has been saved
      obtain hcur | ⟨o', ho'⟩ := hold
      · by_cases hne : t = s.currentTask d
        · simpa [State.setCurrent, State.setHandler, ← hne] using hcur.symm.trans hne.symm |>.symm
        · have := h.left d o t hc hne
          rw [hcur] at this
          cases this.symm.trans hu
      · rw [hc] at ho'
        cases ho'
        simp [State.setCurrent, State.setHandler]
    · simpa [State.setCurrent, State.setHandler, hdc] using hold
  case saved =>
    intro d o' n hd
    by_cases hdc : d = c
    · subst hdc
      simp only [State.setCurrent, State.setHandler, Function.update_self] at hd
      rw [hd] at hafter
      cases hafter
    · have := h.saved d o' n (by simpa [State.setCurrent, State.setHandler, hdc] using hd)
      simpa [State.setCurrent, State.setHandler, hdc] using this
  case left =>
    intro d o' n hd hn
    by_cases hdc : d = c
    · subst hdc
      simp only [State.setCurrent, State.setHandler, Function.update_self] at hd
      rw [hd] at hafter
      cases hafter
    · have := h.left d o' n (by simpa [State.setCurrent, State.setHandler, hdc] using hd)
        (by simpa [State.setCurrent, State.setHandler, hdc] using hn)
      simpa [State.setCurrent, State.setHandler, hdc] using this

end OneCore

/-! ### Every step -/

/-- Tasks stay placed where they run, since a wake-up pass only moves tasks that have been switched away
    from. -/
theorem home_placeAfter {e : Event β} (h : OneCore s place) (hok : switchedAway s e = true) :
    ∀ c d, placeAfter s place e (s.currentTask d) = .queued c → d = c := by
  intro c d hd
  have hupdate : ∀ (t : TaskId) (b : Place), (∀ n, b ≠ .queued n) →
      Function.update place t b (s.currentTask d) = .queued c → d = c := by
    intro t b hb heq
    by_cases ht : s.currentTask d = t
    · rw [ht, Function.update_self] at heq
      exact absurd heq (hb c)
    · rw [Function.update_of_ne ht] at heq
      exact h.home c d heq
  cases e with
  | handle e reading =>
    cases hc : s.handler e
    all_goals simp only [placeAfter, hc] at hd
    case sleepRemove => exact hupdate _ _ (by simp) hd
    case sleepAdd => exact hupdate _ _ (by simp) hd
    case move pass t n =>
      by_cases ht : s.currentTask d = t
      · simp only [switchedAway, hc, decide_eq_true_eq] at hok
        rw [ht, Function.update_self] at hd
        cases hd
        exact hok d ht
      · rw [Function.update_of_ne ht] at hd
        exact h.home c d hd
    all_goals exact h.home c d hd
  | timer => exact h.home c d hd
  | interrupt => exact h.home c d hd
  | call => exact h.home c d hd
  | resume => exact h.home c d hd

theorem Handler.switching_of_starts {after : Handler} (h : after.starts = true) :
    after.switching = false := by
  cases after with
  | load o t => cases h
  | setCurrent o t => cases h
  | _ => rfl

theorem oneCore_handlerStep {reading : Nat} (h : OneCore s place) (p : Placed s place)
    (hok : switchedAway s (.handle c reading) = true) (hs : HandlerStep s c reading s') :
    OneCore s' (placeAfter s place (.handle c reading)) := by
  have hhome := home_placeAfter h hok
  cases hs with
  | saved phase =>
    simp only [placeAfter, phase]
    exact h.save phase
  | loaded phase =>
    simp only [placeAfter, phase]
    exact h.load phase (p.next c _ (by rw [phase]; rfl))
  | switched phase =>
    simp only [placeAfter, phase]
    exact h.setCurrent phase (p.next c _ (by rw [phase]; rfl))
  | @found pass index t phase slot ready =>
    refine h.go rfl rfl rfl (by rw [phase]; rfl) ?_ hhome
    unfold State.afterReady
    split <;> rfl
  | @ended pass index phase all =>
    exact h.go rfl rfl rfl (by rw [phase]; rfl) (by cases pass <;> rfl) hhome
  | @refused o phase _ => exact h.go rfl rfl rfl (by rw [phase]; rfl) (by cases o <;> rfl) hhome
  | removed q phase _ => exact h.go rfl rfl rfl (by rw [phase]; rfl) rfl hhome
  | added phase _ => exact h.go rfl rfl rfl (by rw [phase]; rfl) rfl hhome
  | begun phase _ _ => exact h.go rfl rfl rfl (by rw [phase]; rfl) rfl hhome
  | passed phase _ _ => exact h.go rfl rfl rfl (by rw [phase]; rfl) rfl hhome
  | compared phase => exact h.go rfl rfl rfl (by rw [phase]; rfl) rfl hhome
  | chosen phase => exact h.go rfl rfl rfl (by rw [phase]; rfl) rfl hhome
  | moved phase _ => exact h.go rfl rfl rfl (by rw [phase]; rfl) rfl hhome
  | allowed phase _ => exact h.go rfl rfl rfl (by rw [phase]; rfl) rfl hhome
  | picked phase _ => exact h.go rfl rfl rfl (by rw [phase]; rfl) rfl hhome
  | uninitialized phase => exact h.go rfl rfl rfl (by rw [phase]; rfl) rfl hhome
  | sent phase => exact h.go rfl rfl rfl (by rw [phase]; rfl) rfl hhome

theorem oneCore_step {code : Code β} {e : Event β} (h : OneCore s place) (p : Placed s place)
    (g : s.Guarded) (hok : switchedAway s e = true) (hs : step code s e = some s') :
    OneCore s' (placeAfter s place e) := by
  have hhome := home_placeAfter h hok
  cases e with
  | timer =>
    obtain ⟨hc, rfl⟩ := takeTimer_spec hs
    exact h.go rfl rfl rfl (by rw [hc]; rfl) rfl hhome
  | interrupt c irq source =>
    obtain ⟨hc, after, _, _, _, hstart, rfl⟩ := takeInterrupt_frame hs
    exact h.go rfl rfl rfl (by rw [hc]; rfl) (Handler.switching_of_starts hstart) hhome
  | handle c reading => exact oneCore_handlerStep h p hok (handlerStep_of_handle g hs)
  | call c call ret counter =>
    obtain ⟨-, -, rfl⟩ := step_call hs
    exact h.placesKept placesKept_setRegs hhome
  | resume c exclusive counter => exact h.placesKept (step_resume hs).2.placesKept hhome

theorem OneCore.runsOnOneCore (h : OneCore s place) (p : Placed s place) : s.RunsOnOneCore := by
  refine ⟨h.distinct, fun c o next hc => ?_⟩
  have hplace := p.next c next (by rw [hc]; rfl)
  by_contra hne
  obtain ⟨d, hd⟩ := Option.ne_none_iff_exists'.mp hne
  obtain hcur | ⟨o', ho'⟩ := h.loaded next d hd
  · have hdc : d = c := h.home c d (by rw [hcur, hplace])
    subst hdc
    have hnone := h.saved d o next hc
    rw [hcur, hd] at hnone
    cases hnone
  · have hdc : Place.queued d = .queued c := (p.next d next (by rw [ho']; rfl)).symm.trans hplace
    cases hdc
    rw [hc] at ho'
    cases ho'

theorem oneCore_of_booted {home : TaskId → Option Core} (h : Booted home s) :
    OneCore s (bootPlace home) where
  distinct := h.distinct
  home c d hd := by simp [bootPlace, h.boot] at hd
  loaded t d ht := .inl (h.unsaved t d ht)
  saved c o n hc := by simp [h.handler] at hc
  left c o n hc := by simp [h.handler] at hc

/-- In runs of any tasks in which every sleep interrupt finds preemption enabled and every task that is
    woken up on a core is no longer the current task of another, no task runs on two cores and no core
    loads registers that another core has yet to save. -/
theorem runsOnOneCore_of_run {home : TaskId → Option Core} {code : Code β} {s₀ : State β}
    (hboot : Booted home s₀)
    (hrun : RunWhere (step code) (fun s e => preemptible s e && switchedAway s e) s₀ s) :
    s.RunsOnOneCore := by
  have hinv := hrun.invariant_of (p := State.Guarded)
    (q := fun s => ∃ place, Placed s place ∧ OneCore s place) (fun s hs => guarded_of_run hboot hs)
    ⟨_, placed_of_booted hboot, oneCore_of_booted hboot⟩
    fun s e s' g ⟨place, p, h⟩ hok hs => by
      obtain ⟨hpre, haway⟩ := Bool.and_eq_true_iff.mp hok
      exact ⟨_, placed_step p g hpre hs, oneCore_step h p g haway hs⟩
  obtain ⟨place, p, h⟩ := hinv
  exact h.runsOnOneCore p

theorem runsOnOneCore_of_sleep :
    ∃ s, RunWhere (step kernelCode) (fun s e => preemptible s e && switchedAway s e)
      (kernelBoot threadN) s ∧ s.currentTask 0 = taskOf threadN 0 1 ∧ s.RunsOnOneCore := by
  obtain ⟨s, hrun, hs⟩ : ∃ s, RunWhere (step kernelCode)
      (fun s e => preemptible s e && switchedAway s e) (kernelBoot threadN) s ∧
        decide (s.currentTask 0 = taskOf threadN 0 1) = true :=
    RunWhere.exists_of_replay (firstTick ++ screenTurn 0 0 ++ sleepNow 0 0) (by decide +kernel)
  exact ⟨s, hrun, by simpa using hs,
    runsOnOneCore_of_run (kernelBooted_kernelBoot threadN).toBooted hrun⟩

/-- The run of the kernel's own tasks that `runsOnOneCore_fails` takes. A kernel task of core 0 has gone
    to sleep on `fb_lock`, which the screen task of core 1 has, and is in `sleepingQ`; the handler of
    core 0 has yet to switch. Core 1 frees the lock and wakes the task up on core 2, which has the
    fewest tasks to run, and core 2 switches to it. -/
def lateSwitch : List (Event KernelPoint) :=
  firstTick ++ screenTurn 0 0 ++ sleepNow 0 0 ++ callSleep 0 2000 0 .paintCircle ++ sleepNow 0 0 ++
  rescheduleNow 2 0 ++ [.timer] ++ List.replicate 17 (.handle 0 2000000) ++
  screenTurn 0 2000000 ++ sleepNow 0 99 ++
  screenTurn 2 2000000 ++ sleepNow 2 0 ++ callSleep 2 2000 2000000 .paintCircle ++ sleepNow 2 0 ++
  callSleep 2 2000 2000000 .paintCircle ++ sleepNow 2 0 ++
  rescheduleNow 1 0 ++ callGet 1 .screenTest ++
  callGetBusy 0 .painting ++ [.interrupt 0 .sleep 0, .handle 0 0, .handle 0 0] ++
  callFree 1 .screenSleep ++ [.interrupt 1 .wakeUpAll 1] ++ List.replicate 15 (.handle 1 2000000) ++
  rescheduleNow 2 98

/-- In the kernel a task does come to run on two cores. -/
theorem runsOnOneCore_fails :
    ¬ ∀ s, Run (step kernelCode) (kernelBoot threadN) s → s.RunsOnOneCore := by
  intro hall
  obtain ⟨s, hrun, hs⟩ : ∃ s, Run (step kernelCode) (kernelBoot threadN) s ∧
      decide (s.currentTask 0 = s.currentTask 2) = true :=
    RunWhere.exists_of_replay lateSwitch (by decide +kernel)
  exact absurd ((hall s hrun).1 0 2 (by simpa using hs)) (by decide)

end Rpi4Kernel.Sched
