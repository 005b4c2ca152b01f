/-
Module: Rpi4Kernel.Proofs.IdleTasksSpec
Layer: Proofs
Purpose: The idle task of a core is neither current nor next there while a sleep interrupt is pending,
  so that it stays on its run queue, in every run of the kernel's own tasks in which sleep interrupts
  are requested for the core of their task. The requester of a pending sleep interrupt is on a queue
  of the core, of a higher priority than the idle task, and `reschedule` takes the first queue that is
  not empty.
Trusted boundary: none (fully proved)
Main exports: picks_of_mem, Idles, idles_step
-/
import Rpi4Kernel.Proofs.KernelTasksSpec
import Rpi4Kernel.Proofs.OwnRequestsSpec

namespace Rpi4Kernel.Sched

open Rpi4Kernel.Stdlib Rpi4Kernel.Theory

variable {s s' : State KernelPoint} {c d : Core} {t r : TaskId} {home : TaskId → Option Core}
  {body : TaskId → Body} {place : TaskId → Place} {e : Event KernelPoint}

theorem Body.create_p (body : Body) (core : Core) (pid : Nat) (lock : Option LockId) :
    (body.create core pid lock).p = 20 ↔ body = .idle := by
  cases body <;> simp [create, createKernelTask]

/-! ### The choice of `reschedule` -/

/-- The first queue that is not empty comes before every other one. -/
theorem firstQueue_spec {p : Priority} (h : s.firstQueue c = some p) :
    0 < (s.runningQ c p).getSize ∧ ∀ q, 0 < (s.runningQ c q).getSize → p ≤ q := by
  obtain ⟨hpos, i, hi, hip, hbefore⟩ := List.find?_eq_some_iff_getElem.mp h
  refine ⟨by simpa using hpos, fun q hq => not_lt.mp fun hqp => ?_⟩
  rw [List.getElem_finRange] at hip
  have hqi : q.val < i := by
    have hlt := Fin.lt_def.mp hqp
    rwa [← hip] at hlt
  have hempty := hbefore q.val hqi
  rw [List.getElem_finRange] at hempty
  simp at hempty
  omega

theorem picks_of_mem {p : Priority} (ht : t ∈ (s.runningQ c p).array) : s.Picks c := by
  have hsome : (s.firstQueue c).isSome := by
    rw [State.firstQueue, List.find?_isSome]
    exact ⟨p, List.mem_finRange p, decide_eq_true (List.length_pos_of_mem ht)⟩
  obtain ⟨q, hq⟩ := Option.isSome_iff_exists.mp hsome
  obtain ⟨hpos, hfirst⟩ := firstQueue_spec hq
  intro hash
  have hindex : hash % (s.runningQ c q).getSize < (s.runningQ c q).array.length := Nat.mod_lt _ hpos
  have hslot := List.getElem?_eq_getElem hindex
  refine ⟨q, _, fun q' hq' => ?_, hindex, hslot, ?_⟩
  · by_contra hne
    exact absurd (hfirst q' (Nat.pos_of_ne_zero hne)) (not_le.mpr hq')
  · simp only [State.pickNext, hq, ArrayList.get, readAt_natCast t hindex, bind, Option.bind]
    rw [List.getD_eq_getElem _ _ hindex]

/-! ### What one step changes -/

/-- A task keeps its priority. -/
theorem p_step (g : s.Guarded) (hs : step kernelCode s e = some s') (t : TaskId) :
    (s'.tasks t).p = (s.tasks t).p := by
  cases e with
  | timer =>
    obtain ⟨-, rfl⟩ := takeTimer_spec hs
    rfl
  | interrupt c irq source =>
    obtain ⟨-, _, _, _, _, -, rfl⟩ := takeInterrupt_frame hs
    rfl
  | handle c reading =>
    cases handlerStep_of_handle g hs with
    | @found pass index u _ _ _ => exact updateTask_p (clear_p pass) u t
    | saved _ =>
      exact updateTask_p (f := fun task => { task with context := s.regs c }) (fun _ => rfl) _ t
    | _ => rfl
  | call c call ret counter =>
    obtain ⟨-, -, rfl⟩ := step_call hs
    rfl
  | resume c exclusive counter => exact (step_resume hs).2.placesKept.p t

/-- The task that `reschedule` has chosen was chosen before, or has just been picked. -/
theorem next_step (g : s.Guarded) (hs : step kernelCode s e = some s')
    (hn : (s'.handler d).next = some t) :
    (s.handler d).next = some t ∨ ∃ hash, s.pickNext d hash = some t := by
  have hgo : ∀ {c : Core} {after : Handler}, (Function.update s.handler c after d).next = some t →
      (d = c → after.next = some t → (s.handler d).next = some t ∨ ∃ hash, s.pickNext d hash = some t) →
      (s.handler d).next = some t ∨ ∃ hash, s.pickNext d hash = some t := by
    intro c after hupdate hafter
    by_cases hd : d = c
    · subst hd
      exact hafter rfl (by simpa using hupdate)
    · exact .inl (by simpa [hd] using hupdate)
  cases e with
  | timer =>
    obtain ⟨-, rfl⟩ := takeTimer_spec hs
    exact hgo hn fun _ => nofun
  | interrupt c irq source =>
    obtain ⟨-, after, _, _, _, hstart, rfl⟩ := takeInterrupt_frame hs
    refine hgo hn fun _ hafter => ?_
    cases after <;> cases hafter <;> cases hstart
  | handle c reading =>
    cases handlerStep_of_handle g hs with
    | found _ _ _ =>
      refine hgo hn fun _ hafter => ?_
      unfold State.afterReady at hafter
      split at hafter <;> cases hafter
    | @ended pass _ _ _ => exact hgo hn fun _ hafter => by cases pass <;> cases hafter
    | @refused o _ _ => exact hgo hn fun _ hafter => by cases o <;> cases hafter
    | @switched o _ _ => exact hgo hn fun _ hafter => by cases o <;> cases hafter
    | picked phase pick =>
      exact hgo hn fun hd hafter => .inr ⟨reading, by cases hafter; rw [hd]; exact pick⟩
    | saved phase => exact hgo hn fun hd hafter => .inl (by rw [hd, phase]; exact hafter)
    | loaded phase => exact hgo hn fun hd hafter => .inl (by rw [hd, phase]; exact hafter)
    | _ => exact hgo hn fun _ => nofun
  | call c call ret counter =>
    obtain ⟨-, -, rfl⟩ := step_call hs
    exact .inl hn
  | resume c exclusive counter =>
    rw [(step_resume hs).2.placesKept.handler] at hn
    exact .inl hn

/-- The handler of a sleep interrupt is in its first phase when it has just been taken, or stays
    there. -/
theorem sleepRemove_step (g : s.Guarded) (hs : step kernelCode s e = some s')
    (hd : s'.handler d = .sleepRemove r) :
    s'.currentTask d = s.currentTask d ∧
      (s.handler d = .sleepRemove r ∨ ∃ source, s.sleepIrq d source = some r) := by
  have hgo : ∀ {c : Core} {after : Handler}, Function.update s.handler c after d = .sleepRemove r →
      (∀ r', after ≠ .sleepRemove r') → s.handler d = .sleepRemove r := by
    intro c after hupdate hafter
    by_cases hdc : d = c
    · subst hdc
      exact absurd (by simpa using hupdate) (hafter r)
    · simpa [hdc] using hupdate
  cases e with
  | timer =>
    obtain ⟨-, rfl⟩ := takeTimer_spec hs
    exact ⟨rfl, .inl (hgo hd (by rintro _ ⟨⟩))⟩
  | interrupt c irq source =>
    cases irq with
    | reschedule =>
      obtain ⟨-, -, rfl⟩ := takeInterrupt_reschedule hs
      exact ⟨rfl, .inl (hgo hd (by rintro _ ⟨⟩))⟩
    | wakeUpAll =>
      obtain ⟨-, -, rfl⟩ := takeInterrupt_wakeUpAll hs
      exact ⟨rfl, .inl (hgo hd (by rintro _ ⟨⟩))⟩
    | sleep =>
      obtain ⟨-, r', hr', rfl⟩ := takeInterrupt_sleep hs
      refine ⟨rfl, ?_⟩
      by_cases hdc : d = c
      · subst hdc
        have hrr : r' = r := by simpa [State.setHandler] using hd
        exact .inr ⟨source, hrr ▸ hr'⟩
      · exact .inl (by simpa [State.setHandler, hdc] using hd)
  | handle c reading =>
    cases handlerStep_of_handle g hs with
    | found _ _ _ =>
      refine ⟨rfl, .inl (hgo hd ?_)⟩
      unfold State.afterReady
      split <;> rintro _ ⟨⟩
    | @ended pass _ _ _ => exact ⟨rfl, .inl (hgo hd (by cases pass <;> rintro _ ⟨⟩))⟩
    | @refused o _ _ => exact ⟨rfl, .inl (hgo hd (by cases o <;> rintro _ ⟨⟩))⟩
    | @switched o n phase =>
      have hold := hgo hd (by cases o <;> rintro _ ⟨⟩)
      have hdc : d ≠ c := by
        rintro rfl
        rw [phase] at hold
        cases hold
      exact ⟨by simp [State.setCurrent, State.setHandler, hdc], .inl hold⟩
    | _ => exact ⟨rfl, .inl (hgo hd (by rintro _ ⟨⟩))⟩
  | call c call ret counter =>
    obtain ⟨-, -, rfl⟩ := step_call hs
    exact ⟨rfl, .inl hd⟩
  | resume c exclusive counter =>
    have u := (step_resume hs).2.placesKept
    rw [u.handler] at hd
    rw [u.currentTask]
    exact ⟨rfl, .inl hd⟩

/-! ### The invariant -/

/-- The idle tasks are the tasks of the last priority. They stay on the run queues of their cores,
    since no sleep interrupt finds one of them. -/
structure Idles (home : TaskId → Option Core) (body : TaskId → Body) (s : State KernelPoint)
    (place : TaskId → Place) : Prop where
  priority : ∀ t, place t ≠ .absent → ((s.tasks t).p = 20 ↔ body t = .idle)
  idle : ∀ t, place t ≠ .absent → body t = .idle → ∃ c, home t = some c ∧ place t = .queued c
  requester : ∀ c source r, s.sleepIrq c source = some r → body r ≠ .idle
  current : ∀ c source r, s.sleepIrq c source = some r → body (s.currentTask c) ≠ .idle
  next : ∀ c source r n, s.sleepIrq c source = some r → (s.handler c).next = some n → body n ≠ .idle
  removing : ∀ c r, s.handler c = .sleepRemove r → body (s.currentTask c) ≠ .idle

/-- A core with a pending sleep interrupt has a task that is not its idle task, and picks no idle
    task. -/
theorem Idles.picked {hash : Nat} {source : Core} (h : Idles home body s place) (p : Placed s place)
    (own : OwnRequests s place) (hpick : s.pickNext c hash = some t)
    (hr : s.sleepIrq c source = some r) : body t ≠ .idle := by
  obtain ⟨q, hq, hmem⟩ := pickNext_spec hpick
  obtain ⟨hplace, hp⟩ := p.of_mem_runningQ hmem
  have hrplace := own.requester c source r hr
  have hle : q ≤ (s.tasks r).p :=
    (firstQueue_spec hq).2 _ (List.length_pos_of_mem (p.mem_runningQ hrplace))
  have hr20 : (s.tasks r).p ≠ 20 :=
    mt (h.priority r (by simp [hrplace])).mp (h.requester c source r hr)
  intro hbody
  have h20 : (s.tasks t).p = 20 := (h.priority t (by simp [hplace])).mpr hbody
  rw [hp] at h20
  exact hr20 (le_antisymm (Fin.le_last _) (h20 ▸ hle))

theorem idles_step (h : Idles home body s place) (k : KernelTasks body s place) (p : Placed s place)
    (own : OwnRequests s place) (g : s.Guarded) (hok : requestsOwnCore s e = true)
    (hs : step kernelCode s e = some s') : Idles home body s' (placeAfter s place e) := by
  have hpending : ∀ d source r, s'.sleepIrq d source = some r → body r ≠ .idle ∧
      body (s'.currentTask d) ≠ .idle ∧ ∀ n, (s'.handler d).next = some n → body n ≠ .idle := by
    intro d source r hr
    obtain ⟨hold, -⟩ | ⟨exclusive, counter, send, rfl, hc, rfl, hsend, hasks⟩ := sleepIrq_step g hs hr
    · refine ⟨h.requester d source r hold, ?_, fun n hn => ?_⟩
      · obtain hsame | ⟨o, hset⟩ := currentTask_step g hs d
        · rw [hsame]
          exact h.current d source r hold
        · exact h.next d source r _ hold (by rw [hset]; rfl)
      · obtain hn | ⟨hash, hpick⟩ := next_step g hs hn
        · exact h.next d source r n hold hn
        · exact h.picked p own hpick hold
    · have hdc : d = source := by simpa [requestsOwnCore, hsend, hasks] using hok
      subst hdc
      have hregs : s.regs d ≠ .hang := by rw [hsend]; rintro ⟨⟩
      have hbody := (k.stands p hc hregs).has.ne_idle hregs
      have u := (step_resume hs).2.placesKept
      rw [u.currentTask, u.handler, hc]
      exact ⟨hbody, hbody, by rintro _ ⟨⟩⟩
  constructor
  case priority =>
    intro t ht
    rw [p_step g hs]
    exact h.priority t (mt (p.placeAfter_eq_absent g t).mpr ht)
  case idle =>
    intro t ht hbody
    obtain ⟨c, hhome, hplace⟩ := h.idle t (mt (p.placeAfter_eq_absent g t).mpr ht) hbody
    refine ⟨c, hhome, (p.queued_step g hplace).resolve_right ?_⟩
    rintro ⟨⟨r, hr⟩, ht⟩
    exact h.removing c r hr (ht ▸ hbody)
  case requester => exact fun d source r hr => (hpending d source r hr).1
  case current => exact fun d source r hr => (hpending d source r hr).2.1
  case next => exact fun d source r n hr hn => (hpending d source r hr).2.2 n hn
  case removing =>
    intro d r hd
    obtain ⟨hcur, hold | ⟨source, hr⟩⟩ := sleepRemove_step g hs hd
    · rw [hcur]
      exact h.removing d r hold
    · rw [hcur]
      exact h.current d source r hr

end Rpi4Kernel.Sched
