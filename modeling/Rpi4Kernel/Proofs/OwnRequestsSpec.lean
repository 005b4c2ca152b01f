/-
Module: Rpi4Kernel.Proofs.OwnRequestsSpec
Layer: Proofs
Purpose: Where a sleep interrupt finds its requester. In runs in which every sleep interrupt is
  requested for the core on which its task runs, the requester of one that is pending is in a run
  queue of that core, and so is the task that is current there. This holds for any tasks.
Trusted boundary: none (fully proved)
Main exports: currentTask_step, sleepIrq_step, OwnRequests, ownRequests_step
-/
import Rpi4Kernel.Proofs.PlacementSpec

namespace Rpi4Kernel.Sched

open Rpi4Kernel.Stdlib Rpi4Kernel.Theory

variable {β : Type} {s s' : State β} {place : TaskId → Place} {c d source : Core} {t r : TaskId}
  {code : Code β} {e : Event β}

/-! ### What one step changes -/

/-- The current task of a core changes in `reschedule` only. -/
theorem currentTask_step (g : s.Guarded) (hs : step code s e = some s') (d : Core) :
    s'.currentTask d = s.currentTask d ∨ ∃ o, s.handler d = .setCurrent o (s'.currentTask d) := by
  cases e with
  | timer =>
    obtain ⟨-, rfl⟩ := takeTimer_spec hs
    exact .inl rfl
  | interrupt c irq source =>
    obtain ⟨-, _, _, _, _, -, rfl⟩ := takeInterrupt_frame hs
    exact .inl rfl
  | handle c reading =>
    cases handlerStep_of_handle g hs with
    | @switched o t phase =>
      by_cases hdc : d = c
      · subst hdc
        exact .inr ⟨o, by simpa [State.setCurrent, State.setHandler] using phase⟩
      · exact .inl (by simp [State.setCurrent, State.setHandler, hdc])
    | _ => exact .inl rfl
  | call c call ret counter =>
    obtain ⟨-, -, rfl⟩ := step_call hs
    exact .inl rfl
  | resume c exclusive counter => exact .inl (congrFun (step_resume hs).2.placesKept.currentTask d)

/-- A handler step leaves pending what sleep interrupts are. -/
theorem HandlerStep.sleepIrq_eq {reading : Nat} (h : HandlerStep s c reading s') :
    s'.sleepIrq = s.sleepIrq := by
  cases h <;> rfl

/-- A sleep interrupt that is pending after a step was pending before and is not the one that was taken,
    or a task that runs has just requested it. -/
theorem sleepIrq_step (g : s.Guarded) (hs : step code s e = some s')
    (hr : s'.sleepIrq d source = some r) :
    (s.sleepIrq d source = some r ∧ e ≠ .interrupt d .sleep source) ∨
      ∃ exclusive counter send, e = .resume source exclusive counter ∧ s.handler source = .none ∧
        r = s.currentTask source ∧ s.regs source = .sendSgi d send ∧ send.asksSleep = true := by
  cases e with
  | timer =>
    obtain ⟨-, rfl⟩ := takeTimer_spec hs
    exact .inl ⟨hr, by rintro ⟨⟩⟩
  | interrupt c irq from_ =>
    left
    cases irq with
    | reschedule =>
      obtain ⟨-, -, rfl⟩ := takeInterrupt_reschedule hs
      exact ⟨hr, by rintro ⟨⟩⟩
    | wakeUpAll =>
      obtain ⟨-, -, rfl⟩ := takeInterrupt_wakeUpAll hs
      exact ⟨hr, by rintro ⟨⟩⟩
    | sleep =>
      obtain ⟨-, r', -, rfl⟩ := takeInterrupt_sleep hs
      refine ⟨of_cleared (Option.some_ne_none r) hr, ?_⟩
      intro heq
      obtain ⟨rfl, -, rfl⟩ := Event.interrupt.inj heq
      simp [State.setHandler] at hr
  | handle c reading => exact .inl ⟨(handlerStep_of_handle g hs).sleepIrq_eq ▸ hr, by rintro ⟨⟩⟩
  | call c call ret counter =>
    obtain ⟨-, -, rfl⟩ := step_call hs
    exact .inl ⟨hr, by rintro ⟨⟩⟩
  | resume c exclusive counter =>
    obtain ⟨hc, hstep⟩ := step_resume hs
    rcases hstep.sleepIrq hr with hold | ⟨rfl, hcur, send, hsend, hasks⟩
    · exact .inl ⟨hold, by rintro ⟨⟩⟩
    · exact .inr ⟨exclusive, counter, send, rfl, hc, hcur, hsend, hasks⟩

/-- `SYSTEM_SLEEP_IRQ` is being handled. -/
def Handler.handlesSleep : Handler → Bool
  | .sleepRemove _ | .sleepAdd _ => true
  | .check origin | .pick origin | .save origin _ | .load origin _ | .setCurrent origin _ =>
    origin = .sleep
  | _ => false

/-- The handler of a sleep interrupt starts when one is taken. -/
theorem handlesSleep_step (g : s.Guarded) (hs : step code s e = some s')
    (hno : (s.handler d).handlesSleep = false) (htake : ∀ source, e ≠ .interrupt d .sleep source) :
    (s'.handler d).handlesSleep = false := by
  have hgo : ∀ {c : Core} {after : Handler}, (d = c → after.handlesSleep = false) →
      (Function.update s.handler c after d).handlesSleep = false := by
    intro c after hafter
    by_cases hd : d = c
    · subst hd
      rw [Function.update_self]
      exact hafter rfl
    · rwa [Function.update_of_ne hd]
  cases e with
  | timer =>
    obtain ⟨-, rfl⟩ := takeTimer_spec hs
    exact hgo fun _ => rfl
  | interrupt c irq source =>
    cases irq with
    | reschedule =>
      obtain ⟨-, -, rfl⟩ := takeInterrupt_reschedule hs
      exact hgo fun _ => rfl
    | wakeUpAll =>
      obtain ⟨-, -, rfl⟩ := takeInterrupt_wakeUpAll hs
      exact hgo fun _ => rfl
    | sleep =>
      obtain ⟨-, r, -, rfl⟩ := takeInterrupt_sleep hs
      exact hgo fun hd => absurd rfl (hd ▸ htake source)
  | handle c reading =>
    cases handlerStep_of_handle g hs with
    | removed q phase _ => exact hgo fun hd => by simp [hd, phase, Handler.handlesSleep] at hno
    | added phase _ => exact hgo fun hd => by simp [hd, phase, Handler.handlesSleep] at hno
    | found _ _ _ =>
      refine hgo fun _ => ?_
      unfold State.afterReady
      split <;> rfl
    | @ended pass _ _ _ => exact hgo fun _ => by cases pass <;> rfl
    | @refused o _ _ => exact hgo fun _ => by cases o <;> rfl
    | @switched o _ _ => exact hgo fun _ => by cases o <;> rfl
    -- inside `reschedule` the origin stays
    | allowed phase _ | picked phase _ | saved phase | loaded phase =>
      refine hgo fun hd => ?_
      rw [hd, phase] at hno
      exact hno
    | _ => exact hgo fun _ => rfl
  | call c call ret counter =>
    obtain ⟨-, -, rfl⟩ := step_call hs
    exact hno
  | resume c exclusive counter =>
    rw [(step_resume hs).2.placesKept.handler]
    exact hno

/-- A task stays in the run queues of a core until the handler of a sleep interrupt takes it out. -/
theorem Placed.queued_step (p : Placed s place) (g : s.Guarded) (ht : place t = .queued d) :
    placeAfter s place e t = .queued d ∨ (∃ r, s.handler d = .sleepRemove r) ∧ t = s.currentTask d := by
  have hupdate : ∀ (u : TaskId) (b : Place), place u ≠ .queued d →
      Function.update place u b t = .queued d := by
    intro u b hu
    have htu : t ≠ u := by
      rintro rfl
      exact hu ht
    rwa [Function.update_of_ne htu]
  cases e with
  | handle c reading =>
    simp only [placeAfter]
    cases hc : s.handler c with
    | sleepRemove r =>
      by_cases htc : t = s.currentTask c
      · rw [htc, p.removing c r hc] at ht
        cases ht
        exact .inr ⟨⟨r, hc⟩, htc⟩
      · exact .inl ((Function.update_of_ne htc ..).trans ht)
    | sleepAdd r =>
      refine .inl (hupdate _ _ ?_)
      rw [(p.moving c _).mpr ⟨⟨r, hc⟩, rfl⟩]
      rintro ⟨⟩
    | move pass u n =>
      refine .inl (hupdate _ _ ?_)
      rw [p.waking_asleep g (c := c) (by rw [hc]; rfl)]
      rintro ⟨⟩
    | _ => exact .inl ht
  | _ => exact .inl ht

/-- And so it stays while no sleep interrupt is being handled there. -/
theorem Placed.queued_of_awake (p : Placed s place) (g : s.Guarded) (ht : place t = .queued d)
    (hno : (s.handler d).handlesSleep = false) : placeAfter s place e t = .queued d := by
  refine (p.queued_step g ht).resolve_right fun ⟨⟨r, hr⟩, _⟩ => ?_
  rw [hr] at hno
  cases hno

/-! ### The invariant -/

/-- Every sleep interrupt that is pending was requested on its own core, whose handler puts no task to
    sleep at the moment; the requester and the current task are in the run queues of the core. -/
structure OwnRequests (s : State β) (place : TaskId → Place) : Prop where
  source : ∀ c source r, s.sleepIrq c source = some r → source = c
  requester : ∀ c source r, s.sleepIrq c source = some r → place r = .queued c
  current : ∀ c source r, s.sleepIrq c source = some r → place (s.currentTask c) = .queued c
  awake : ∀ c source r, s.sleepIrq c source = some r → (s.handler c).handlesSleep = false

theorem ownRequests_step (h : OwnRequests s place) (p : Placed s place) (g : s.Guarded)
    (hok : requestsOwnCore s e = true) (hs : step code s e = some s') :
    OwnRequests s' (placeAfter s place e) := by
  have hall : ∀ d source r, s'.sleepIrq d source = some r → source = d ∧
      placeAfter s place e r = .queued d ∧ placeAfter s place e (s'.currentTask d) = .queued d ∧
      (s'.handler d).handlesSleep = false := by
    intro d source r hr
    obtain ⟨hold, hother⟩ | ⟨exclusive, counter, send, rfl, hc, rfl, hsend, hasks⟩ :=
      sleepIrq_step g hs hr
    · have hsource := h.source d source r hold
      have hawake := h.awake d source r hold
      refine ⟨hsource, p.queued_of_awake g (h.requester d source r hold) hawake,
        p.queued_of_awake g ?_ hawake, handlesSleep_step g hs hawake fun from_ htake => ?_⟩
      · obtain hsame | ⟨o, hset⟩ := currentTask_step g hs d
        · rw [hsame]
          exact h.current d source r hold
        · exact p.next d _ (by rw [hset]; rfl)
      · -- the only sleep interrupt that core `d` can take is the one that is still pending
        subst htake
        obtain ⟨-, r', hr', -⟩ := takeInterrupt_sleep hs
        exact hother (by rw [h.source d from_ r' hr', hsource])
    · have hdc : d = source := by simpa [requestsOwnCore, hsend, hasks] using hok
      subst hdc
      have hcur : place (s.currentTask d) = .queued d :=
        (p.current d (by rw [hc]; rfl)).resolve_right
          (p.current_ne_absent hc (by rw [hsend]; nofun))
      have u := (step_resume hs).2.placesKept
      rw [u.currentTask, u.handler, hc]
      exact ⟨rfl, hcur, hcur, rfl⟩
  exact ⟨fun d source r hr => (hall d source r hr).1, fun d source r hr => (hall d source r hr).2.1,
    fun d source r hr => (hall d source r hr).2.2.1, fun d source r hr => (hall d source r hr).2.2.2⟩

/-- While nothing is pending there is nothing to keep. -/
theorem ownRequests_of_none (h : ∀ c source, s.sleepIrq c source = none) : OwnRequests s place := by
  constructor <;> exact fun c source r hr => by simp [h] at hr

end Rpi4Kernel.Sched
