/-
Module: Rpi4Kernel.Proofs.SleepRequestSpec
Layer: Proofs
Purpose: A sleep interrupt puts to sleep the task that has asked for it, and no task sleeps that
  nothing can wake up, as long as sleep interrupts are requested for the core of their task and
  `reschedule` does not replace the current task of a core while one is pending there. It does when a
  reschedule interrupt is taken first.
Trusted boundary: none (fully proved)
Main exports: Asked, asked_step, sleepsOnRequest_of_run
-/
import Rpi4Kernel.Proofs.KernelBootSpec
import Rpi4Kernel.Proofs.OwnRequestsSpec

namespace Rpi4Kernel.Sched

open Rpi4Kernel.Stdlib Rpi4Kernel.Theory

variable {β : Type} {s s' : State β} {place place' : TaskId → Place} {c d : Core} {t r : TaskId}

/-- The requester of a sleep interrupt is the current task until it sleeps, and a wake-up pass can find
    it; it can find the tasks that sleep, too, except the one that is being moved. -/
structure Asked (s : State β) (place : TaskId → Place) : Prop where
  pending : ∀ c source r, s.sleepIrq c source = some r →
    s.currentTask c = r ∧ s.awaitsWakeUp r = true
  handled : ∀ c r, (s.handler c).requester = some r → s.currentTask c = r ∧ s.awaitsWakeUp r = true
  asleep : ∀ t, place t = .asleep → s.awaitsWakeUp t = true ∨ ∃ c, (s.handler c).waking = some t

/-- The requester of a sleep interrupt that is pending takes part in no wake-up pass. -/
theorem OwnRequests.not_asleep {source : Core} (o : OwnRequests s place)
    (hr : s.sleepIrq c source = some r) : place r ≠ .asleep := by
  rw [o.requester c source r hr]
  nofun

theorem Placed.current_not_asleep (p : Placed s place) (hr : (s.handler c).requester = some r) :
    place (s.currentTask c) ≠ .asleep := by
  cases hc : s.handler c with
  | sleepRemove r' =>
    rw [p.removing c r' hc]
    nofun
  | sleepAdd r' =>
    rw [(p.moving c _).mpr ⟨⟨r', hc⟩, rfl⟩]
    nofun
  | _ => simp [hc, Handler.requester] at hr

/-- A change of one task seen from the wake-up passes. -/
theorem awaitsWakeUp_updateTask {f : Task β → Task β} (s : State β) (t u : TaskId) :
    (s.updateTask t f).awaitsWakeUp u =
      if u = t then (f (s.tasks t)).timer ≠ 0 || (f (s.tasks t)).sleepingOnLock.isSome
      else s.awaitsWakeUp u := by
  by_cases hu : u = t
  · subst hu
    simp [State.awaitsWakeUp, State.updateTask]
  · simp [State.awaitsWakeUp, State.updateTask, hu]

namespace Asked

/-- Steps that change no current task and ask for nothing new. -/
theorem frame (h : Asked s place) (p : Placed s place) (o : OwnRequests s place)
    (hcurrent : s'.currentTask = s.currentTask)
    (hirq : ∀ d source r, s'.sleepIrq d source = some r → s.sleepIrq d source = some r)
    (hrequester : ∀ d r, (s'.handler d).requester = some r →
      (s.handler d).requester = some r ∨ ∃ source, s.sleepIrq d source = some r)
    (hawake : ∀ t, place t ≠ .asleep → s.awaitsWakeUp t = true → s'.awaitsWakeUp t = true)
    (hasleep : ∀ t, place' t = .asleep →
      s'.awaitsWakeUp t = true ∨ ∃ c, (s'.handler c).waking = some t) : Asked s' place' where
  pending d source r hr := by
    obtain ⟨hcur, haw⟩ := h.pending d source r (hirq d source r hr)
    exact ⟨hcurrent ▸ hcur, hawake r (o.not_asleep (hirq d source r hr)) haw⟩
  handled d r hr := by
    rw [hcurrent]
    rcases hrequester d r hr with hr | ⟨source, hr⟩
    · obtain ⟨hcur, haw⟩ := h.handled d r hr
      exact ⟨hcur, hawake r (hcur ▸ p.current_not_asleep hr) haw⟩
    · obtain ⟨hcur, haw⟩ := h.pending d source r hr
      exact ⟨hcur, hawake r (o.not_asleep hr) haw⟩
  asleep := hasleep

/-- A handler goes on and no timer or lock of a task changes. -/
theorem go {after : Handler} (h : Asked s place) (p : Placed s place) (o : OwnRequests s place)
    (hcurrent : s'.currentTask = s.currentTask) (hirq : s'.sleepIrq = s.sleepIrq)
    (hhandler : s'.handler = Function.update s.handler c after)
    (hawaits : ∀ t, s'.awaitsWakeUp t = s.awaitsWakeUp t)
    (hrequester : ∀ r, after.requester = some r → (s.handler c).requester = some r)
    (hwaking : ∀ t, (s.handler c).waking = some t → place' t = .asleep → after.waking = some t)
    (hplace : ∀ t, place' t = .asleep → place t = .asleep ∨ s.awaitsWakeUp t = true) :
    Asked s' place' := by
  refine h.frame p o hcurrent (fun d source r hr => hirq ▸ hr) (fun d r hr => ?_)
    (fun t _ ht => (hawaits t).trans ht) fun t ht => ?_
  · rw [hhandler] at hr
    left
    by_cases hd : d = c
    · subst hd
      exact hrequester r (by simpa using hr)
    · rwa [Function.update_of_ne hd] at hr
  · rw [hawaits, hhandler]
    rcases hplace t ht with hold | hnew
    · refine (h.asleep t hold).imp_right fun ⟨d, hd⟩ => ?_
      by_cases hdc : d = c
      · subst hdc
        exact ⟨d, by simpa using hwaking t hd ht⟩
      · exact ⟨d, by rwa [Function.update_of_ne hdc]⟩
    · exact .inl hnew

/-- A handler goes on that had found no task, and that serves no request afterwards. -/
theorem goOn {after : Handler} (h : Asked s place) (p : Placed s place) (o : OwnRequests s place)
    (hcurrent : s'.currentTask = s.currentTask) (hirq : s'.sleepIrq = s.sleepIrq)
    (hhandler : s'.handler = Function.update s.handler c after)
    (hawaits : ∀ t, s'.awaitsWakeUp t = s.awaitsWakeUp t) (hserves : after.requester = none)
    (hfound : (s.handler c).waking = none) : Asked s' place := by
  apply h.go p o hcurrent hirq hhandler hawaits
  · intro r hr
    rw [hserves] at hr
    cases hr
  · intro t ht
    rw [hfound] at ht
    cases ht
  · exact fun t ht => .inl ht

/-- A pass has found a task ready and clears what it has waited for. -/
theorem found {pass : Pass} (h : Asked s place) (p : Placed s place) (o : OwnRequests s place)
    (hrequester : (s.handler c).requester = none) (hwaking : (s.handler c).waking = none)
    (ht : place t = .asleep) :
    Asked ((s.updateTask t (State.clear pass)).setHandler c (s.afterReady pass t)) place := by
  have hother : ∀ u, u ≠ t → ((s.updateTask t (State.clear pass)).setHandler c
      (s.afterReady pass t)).awaitsWakeUp u = s.awaitsWakeUp u := fun u hu =>
    (awaitsWakeUp_updateTask s t u).trans (if_neg hu)
  refine h.frame p o rfl (fun _ _ _ hr => hr) (fun d r hr => .inl ?_) (fun u hu haw => ?_)
    fun u hu => ?_
  · by_cases hd : d = c
    · subst hd
      have hnone : (s.afterReady pass t).requester = none := by
        unfold State.afterReady
        split <;> rfl
      simp [State.setHandler, hnone] at hr
    · simpa [State.setHandler, State.updateTask, hd] using hr
  · rw [hother u (fun heq => hu (heq ▸ ht))]
    exact haw
  · by_cases hut : u = t
    · exact .inr ⟨c, by rw [hut]; simpa [State.setHandler] using afterReady_waking s pass t⟩
    · rw [hother u hut]
      refine (h.asleep u hu).imp_right (Exists.imp fun d hd => ?_)
      by_cases hdc : d = c
      · subst hdc
        rw [hwaking] at hd
        cases hd
      · simpa [State.setHandler, State.updateTask, hdc] using hd

/-- The current task changes, to the requester where a sleep interrupt is pending. -/
theorem switched {o : Origin} (h : Asked s place) (hc : s.handler c = .setCurrent o t)
    (hkeep : (∀ source, s.sleepIrq c source = none) ∨ t = s.currentTask c) :
    Asked (s.setCurrent c o t) place where
  pending d source r hr := by
    obtain ⟨hcur, haw⟩ := h.pending d source r hr
    refine ⟨?_, haw⟩
    by_cases hd : d = c
    · subst hd
      rcases hkeep with hnone | hsame
      · exact absurd (hr.symm.trans (hnone source)) (by simp)
      · simpa [State.setCurrent, State.setHandler, hsame] using hcur
    · simpa [State.setCurrent, State.setHandler, hd] using hcur
  handled d r hr := by
    by_cases hd : d = c
    · subst hd
      cases o <;> simp [State.setCurrent, State.setHandler, Origin.after, Handler.requester] at hr
    · obtain ⟨hcur, haw⟩ := h.handled d r (by simpa [State.setCurrent, State.setHandler, hd] using hr)
      exact ⟨by simpa [State.setCurrent, State.setHandler, hd] using hcur, haw⟩
  asleep u hu := by
    refine (h.asleep u hu).imp_right (Exists.imp fun d hd => ?_)
    by_cases hdc : d = c
    · subst hdc
      simp [hc, Handler.waking] at hd
    · simpa [State.setCurrent, State.setHandler, hdc] using hd

end Asked

/-! ### Every step -/

theorem asked_handlerStep {reading : Nat} (h : Asked s place) (p : Placed s place)
    (own : OwnRequests s place) (hkeep : keepsRequester s (.handle c reading) = true)
    (hs : HandlerStep s c reading s') :
    Asked s' (placeAfter s place (.handle c reading)) := by
  have hupdate : ∀ (t : TaskId) (b : Place), b ≠ .asleep → ∀ u,
      Function.update place t b u = .asleep → place u = .asleep ∨ s.awaitsWakeUp u = true := by
    intro t b hb u hu
    by_cases hut : u = t
    · rw [hut, Function.update_self] at hu
      exact absurd hu hb
    · rw [Function.update_of_ne hut] at hu
      exact .inl hu
  cases hs with
  | removed q phase _ =>
    simp only [placeAfter, phase]
    exact h.go p own rfl rfl rfl (fun _ => rfl) (fun r' hr' => by rw [phase]; exact hr')
      (by simp [phase, Handler.waking]) (hupdate _ _ (by simp))
  | added phase _ =>
    simp only [placeAfter, phase]
    obtain ⟨hcur, haw⟩ := h.handled c _ (by rw [phase]; rfl)
    refine h.go p own rfl rfl rfl (fun _ => rfl) (by rintro _ ⟨⟩) (by simp [phase, Handler.waking])
      fun u hu => ?_
    by_cases hut : u = s.currentTask c
    · exact .inr (by rw [hut, hcur]; exact haw)
    · rw [Function.update_of_ne hut] at hu
      exact .inl hu
  | found phase slot _ =>
    simp only [placeAfter, phase]
    exact h.found p own (by rw [phase]; rfl) (by rw [phase]; rfl)
      (p.mem_sleepingQ_iff.mp (List.mem_of_getElem? slot))
  | moved phase _ =>
    simp only [placeAfter, phase]
    refine h.go p own rfl rfl rfl (fun _ => rfl) (by rintro _ ⟨⟩) (fun u hu => ?_)
      (hupdate _ _ (by simp))
    rw [phase] at hu
    cases hu
    simp
  | switched phase =>
    simp only [placeAfter, phase]
    refine h.switched phase ?_
    simpa [keepsRequester, phase] using hkeep
  | begun phase _ _ =>
    simp only [placeAfter, phase]
    exact h.goOn p own rfl rfl rfl (fun _ => rfl) rfl (by rw [phase]; rfl)
  | @ended pass index phase all =>
    simp only [placeAfter, phase]
    exact h.goOn p own rfl rfl rfl (fun _ => rfl) (by cases pass <;> rfl) (by rw [phase]; rfl)
  | passed phase _ _ =>
    simp only [placeAfter, phase]
    exact h.goOn p own rfl rfl rfl (fun _ => rfl) rfl (by rw [phase]; rfl)
  | compared phase =>
    simp only [placeAfter, phase]
    exact h.go p own rfl rfl rfl (fun _ => rfl) (by rintro _ ⟨⟩)
      (fun u hu _ => by rw [phase] at hu; exact hu)
      fun u hu => .inl hu
  | chosen phase =>
    simp only [placeAfter, phase]
    exact h.go p own rfl rfl rfl (fun _ => rfl) (by rintro _ ⟨⟩)
      (fun u hu _ => by rw [phase] at hu; exact hu)
      fun u hu => .inl hu
  | allowed phase _ =>
    simp only [placeAfter, phase]
    exact h.goOn p own rfl rfl rfl (fun _ => rfl) rfl (by rw [phase]; rfl)
  | @refused o phase _ =>
    simp only [placeAfter, phase]
    exact h.goOn p own rfl rfl rfl (fun _ => rfl) (by cases o <;> rfl) (by rw [phase]; rfl)
  | picked phase _ =>
    simp only [placeAfter, phase]
    exact h.goOn p own rfl rfl rfl (fun _ => rfl) rfl (by rw [phase]; rfl)
  | uninitialized phase =>
    simp only [placeAfter, phase]
    exact h.goOn p own rfl rfl rfl (fun _ => rfl) rfl (by rw [phase]; rfl)
  | saved phase =>
    simp only [placeAfter, phase]
    refine h.goOn p own rfl rfl rfl (fun u => ?_) rfl (by rw [phase]; rfl)
    refine (awaitsWakeUp_updateTask (f := fun task => { task with context := s.regs c }) s _ u).trans ?_
    split
    · rename_i hu
      rw [hu]
      rfl
    · rfl
  | loaded phase =>
    simp only [placeAfter, phase]
    exact h.goOn p own rfl rfl rfl (fun _ => rfl) rfl (by rw [phase]; rfl)
  | sent phase =>
    simp only [placeAfter, phase]
    exact h.goOn p own rfl rfl rfl (fun _ => rfl) rfl (by rw [phase]; rfl)

/-- A step inside a call leaves every task to be found, if it stores no timer that is zero. -/
theorem TaskStep.awaitsWakeUp {exclusive : Bool} {counter : Nat}
    (hs : TaskStep s c exclusive counter s')
    (htimer : ∀ t time asked ret, s.regs c = .storeTimer t time asked ret → time ≠ 0)
    (haw : s.awaitsWakeUp t = true) : s'.awaitsWakeUp t = true := by
  simp only [State.awaitsWakeUp, Bool.or_eq_true, decide_eq_true_eq] at haw ⊢
  rcases hs.timer_eq t with htime | ⟨time, asked, ret, hregs, htime⟩
  · rw [htime]
    refine haw.imp_right fun hlock => ?_
    rcases hs.sleepingOnLock_eq t with hsame | ⟨l, ret, -, hl⟩
    · rwa [hsame]
    · rw [hl]
      rfl
  · left
    rw [htime]
    exact htimer t time asked ret hregs

theorem asked_step {code : Code β} {e : Event β} (h : Asked s place) (p : Placed s place)
    (own : OwnRequests s place) (g : s.Guarded) (hkeep : keepsRequester s e = true)
    (hown : requestsOwnCore s e = true) (hwake : wakeable s e = true) (hs : step code s e = some s') :
    Asked s' (placeAfter s place e) := by
  cases e with
  | timer =>
    obtain ⟨hc, rfl⟩ := takeTimer_spec hs
    exact h.goOn p own rfl rfl rfl (fun _ => rfl) rfl (by rw [hc]; rfl)
  | interrupt c irq source =>
    cases irq with
    | reschedule =>
      obtain ⟨hc, -, rfl⟩ := takeInterrupt_reschedule hs
      exact h.goOn p own rfl rfl rfl (fun _ => rfl) rfl (by rw [hc]; rfl)
    | sleep =>
      obtain ⟨hc, r, hr, rfl⟩ := takeInterrupt_sleep hs
      refine h.frame p own rfl (fun d from_ r' hr' => of_cleared (Option.some_ne_none r') hr')
        (fun d r' hr' => ?_) (fun _ _ ht => ht) fun u hu => ?_
      · by_cases hd : d = c
        · subst hd
          have hrr : r = r' := by simpa [State.setHandler, Handler.requester] using hr'
          exact .inr ⟨source, hrr ▸ hr⟩
        · left
          simpa [State.setHandler, hd] using hr'
      · refine (h.asleep u hu).imp_right (Exists.imp fun d hd => ?_)
        by_cases hdc : d = c
        · subst hdc
          simp [hc, Handler.waking] at hd
        · simpa [State.setHandler, hdc] using hd
    | wakeUpAll =>
      obtain ⟨hc, -, rfl⟩ := takeInterrupt_wakeUpAll hs
      exact h.goOn p own rfl rfl rfl (fun _ => rfl) rfl (by rw [hc]; rfl)
  | handle c reading => exact asked_handlerStep h p own hkeep (handlerStep_of_handle g hs)
  | call c call ret counter =>
    obtain ⟨-, -, rfl⟩ := step_call hs
    exact h.frame p own rfl (fun _ _ _ hr => hr) (fun _ _ hr => .inl hr) (fun _ _ ht => ht) h.asleep
  | resume c exclusive counter =>
    have hr := (step_resume hs).2
    have haw : ∀ t, s.awaitsWakeUp t = true → s'.awaitsWakeUp t = true := fun t =>
      hr.awaitsWakeUp fun u time asked ret hregs => by simpa [wakeable, hregs] using hwake
    have u := hr.placesKept
    constructor
    case pending =>
      intro d source r hd
      rw [u.currentTask]
      rcases hr.sleepIrq hd with hold | ⟨-, rfl, send, hsend, hasks⟩
      · obtain ⟨hcur, hold⟩ := h.pending d source r hold
        exact ⟨hcur, haw r hold⟩
      · have hdc : d = c := by simpa [requestsOwnCore, hsend, hasks] using hown
        exact ⟨by rw [hdc], haw _ (by simpa [wakeable, hsend, hasks] using hwake)⟩
    case handled =>
      intro d r hd
      rw [u.handler] at hd
      rw [u.currentTask]
      exact (h.handled d r hd).imp_right (haw r)
    case asleep =>
      intro t ht
      rw [u.handler]
      exact (h.asleep t ht).imp_left (haw t)

theorem Asked.sleepsOnRequest (h : Asked s place) (p : Placed s place) (g : s.Guarded) :
    s.SleepsOnRequest := by
  refine ⟨fun c r hr => (h.handled c r hr).1, fun hfree t ht => ?_⟩
  refine (h.asleep t (p.mem_sleepingQ_iff.mp ht)).resolve_right fun ⟨c, hc⟩ => ?_
  have hlock := (g.inside_iff c).mp (Guarded.inSleepingQ_of_waking hc)
  rw [hfree] at hlock
  cases hlock

theorem asked_of_booted {home : TaskId → Option Core} (h : Booted home s) :
    Asked s (bootPlace home) where
  pending c source r hr := by simp [h.sleepIrq] at hr
  handled c r hr := by simp [h.handler, Handler.requester] at hr
  asleep t ht := absurd ht bootPlace_ne.1

/-- The steps after which a sleep interrupt still finds its requester, and the requester can be woken
    up. -/
def sleepsSafely (s : State β) (e : Event β) : Bool :=
  preemptible s e && keepsRequester s e && requestsOwnCore s e && wakeable s e

/-- In runs of any tasks with such steps only, the sleep interrupt moves the task whose call has raised
    it, and every task that sleeps can be woken up. -/
theorem sleepsOnRequest_of_run {home : TaskId → Option Core} {code : Code β} {s₀ : State β}
    (hboot : Booted home s₀) (hrun : RunWhere (step code) sleepsSafely s₀ s) : s.SleepsOnRequest := by
  have hguard : ∀ s, RunWhere (step code) sleepsSafely s₀ s → s.Guarded := fun _ hs =>
    guarded_of_run hboot hs
  obtain ⟨place, p, -, h⟩ := hrun.invariant_of (p := State.Guarded)
    (q := fun s => ∃ place, Placed s place ∧ OwnRequests s place ∧ Asked s place) hguard
    ⟨_, placed_of_booted hboot, ownRequests_of_none hboot.sleepIrq, asked_of_booted hboot⟩
    fun s e s' g ⟨place, p, own, h⟩ hok hs => by
      simp only [sleepsSafely, Bool.and_eq_true] at hok
      obtain ⟨⟨⟨hpre, hkeep⟩, hown⟩, hwake⟩ := hok
      exact ⟨_, placed_step p g hpre hs, ownRequests_step own p g hown hs,
        asked_step h p own g hkeep hown hwake hs⟩
  exact h.sleepsOnRequest p (hguard s hrun)

theorem sleepsOnRequest_of_sleep :
    ∃ s, RunWhere (step kernelCode) sleepsSafely (kernelBoot threadN) s ∧
      taskOf threadN 0 101 ∈ s.sleepingQ.array ∧ s.SleepsOnRequest := by
  obtain ⟨s, hrun, hs⟩ : ∃ s, RunWhere (step kernelCode) sleepsSafely (kernelBoot threadN) s ∧
      decide (taskOf threadN 0 101 ∈ s.sleepingQ.array) = true :=
    RunWhere.exists_of_replay (firstTick ++ screenTurn 0 0 ++ sleepNow 0 0) (by decide +kernel)
  exact ⟨s, hrun, by simpa using hs,
    sleepsOnRequest_of_run (kernelBooted_kernelBoot threadN).toBooted hrun⟩

/-- The run of the kernel's own tasks that `sleepsOnRequest_fails` takes. A kernel task of core 1 has
    called `sleep(2000)`; a reschedule interrupt is taken before the sleep interrupt and switches to
    another kernel task, which is put to sleep with no timer and no lock. -/
def lateSleep : List (Event KernelPoint) :=
  firstTick ++ rescheduleNow 1 0 ++ screenTurn 1 0 ++ sleepNow 1 0 ++
  .timer :: List.replicate 9 (.handle 0 0) ++
  callSleep 1 2000 0 .paintCircle ++ rescheduleNow 1 1 ++
    [.interrupt 1 .sleep 1, .handle 1 0, .handle 1 0]

/-- In the kernel a sleep interrupt does put the wrong task to sleep, for good. -/
theorem sleepsOnRequest_fails :
    ¬ ∀ s, Run (step kernelCode) (kernelBoot threadN) s → s.SleepsOnRequest := by
  intro hall
  obtain ⟨s, hrun, hs⟩ : ∃ s, Run (step kernelCode) (kernelBoot threadN) s ∧
      decide (s.sleepingQLock = none ∧ taskOf threadN 1 2 ∈ s.sleepingQ.array ∧
        s.awaitsWakeUp (taskOf threadN 1 2) = false) = true :=
    RunWhere.exists_of_replay lateSleep (by decide +kernel)
  obtain ⟨hfree, hmem, haw⟩ := of_decide_eq_true hs
  exact absurd ((hall s hrun).2 hfree _ hmem) (by rw [haw]; nofun)

end Rpi4Kernel.Sched
