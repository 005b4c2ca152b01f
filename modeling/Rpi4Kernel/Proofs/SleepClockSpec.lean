/-
Module: Rpi4Kernel.Proofs.SleepClockSpec
Layer: Proofs
Purpose: No early wake from `Task::sleep(ms)` in runs in which every such call stores its timer in its
  own task and with `sleepingOnLock` null, which stays null until the call has been served.
  `Spinlock::get` leaves `sleepingOnLock` set when a later `testAndSet` succeeds, and then the pass
  over the locks wakes the task up as soon as the lock is free.
Trusted boundary: none (fully proved)
Main exports: timer_step, sleepingOnLock_step, PointsTimely, Timely, timely_step, wakesInTime_of_run
-/
import Rpi4Kernel.Proofs.KernelBootSpec
import Rpi4Kernel.Proofs.PlacementSpec
import Rpi4Kernel.Sched.SleepClock

namespace Rpi4Kernel.Sched

open Rpi4Kernel.Stdlib Rpi4Kernel.Theory

variable {β : Type} {s s' : State β} {c : Core} {t : TaskId} {calls : SleepCalls} {time : Nat}

/-! ### Who writes `timer` and `sleepingOnLock` -/

theorem clear_timer (pass : Pass) (task : Task β) :
    (State.clear pass task).timer = task.timer ∨ (State.clear pass task).timer = 0 := by
  cases pass
  · exact .inr rfl
  · exact .inr rfl
  · exact .inl rfl

theorem clear_sleepingOnLock (pass : Pass) (task : Task β) :
    (State.clear pass task).sleepingOnLock = task.sleepingOnLock ∨
      (State.clear pass task).sleepingOnLock = none := by
  cases pass
  · exact .inl rfl
  · exact .inl rfl
  · exact .inr rfl

/-- The handlers write to the two fields only to clear them. -/
theorem handlerStep_clears {reading : Nat} (hs : HandlerStep s c reading s') (t : TaskId) :
    ((s'.tasks t).timer = (s.tasks t).timer ∨ (s'.tasks t).timer = 0) ∧
      ((s'.tasks t).sleepingOnLock = (s.tasks t).sleepingOnLock ∨
        (s'.tasks t).sleepingOnLock = none) := by
  cases hs with
  | @found pass index u phase slot ready =>
    have htimer := updateTask_field Task.timer (State.clear pass) s u t
    have hlock := updateTask_field Task.sleepingOnLock (State.clear pass) s u t
    split at htimer
    · rename_i hu
      subst hu
      rw [if_pos rfl] at hlock
      exact ⟨(clear_timer pass (s.tasks t)).imp htimer.trans htimer.trans,
        (clear_sleepingOnLock pass (s.tasks t)).imp hlock.trans hlock.trans⟩
    · rename_i hu
      rw [if_neg hu] at hlock
      exact ⟨.inl htimer, .inl hlock⟩
  | saved phase =>
    exact ⟨.inl (updateTask_keeps Task.timer
        (f := fun task => { task with context := s.regs c }) (fun _ => rfl) s _ t),
      .inl (updateTask_keeps Task.sleepingOnLock
        (f := fun task => { task with context := s.regs c }) (fun _ => rfl) s _ t)⟩
  | _ => exact ⟨.inl rfl, .inl rfl⟩

/-- A timer is stored by `Task::sleep(ms)`; every other step leaves it or clears it. -/
theorem timer_step {code : Code β} {e : Event β} (g : s.Guarded) (hs : step code s e = some s')
    (t : TaskId) :
    (s'.tasks t).timer = (s.tasks t).timer ∨ (s'.tasks t).timer = 0 ∨
      ∃ c exclusive counter asked ret, e = .resume c exclusive counter ∧
        s.regs c = .storeTimer t (s'.tasks t).timer asked ret := by
  cases e with
  | timer =>
    obtain ⟨-, rfl⟩ := takeTimer_spec hs
    exact .inl rfl
  | interrupt c irq source =>
    obtain ⟨-, _, _, _, _, -, rfl⟩ := takeInterrupt_frame hs
    exact .inl rfl
  | handle c reading =>
    have h := (handlerStep_clears (handlerStep_of_handle g hs) t).1
    exact h.imp_right .inl
  | call c call ret counter =>
    obtain ⟨-, -, rfl⟩ := step_call hs
    exact .inl rfl
  | resume c exclusive counter =>
    refine ((step_resume hs).2.timer_eq t).imp_right fun ⟨time, asked, ret, hregs, htime⟩ => .inr ?_
    exact ⟨c, exclusive, counter, asked, ret, rfl, htime ▸ hregs⟩

/-- The store of a timer stores it. -/
theorem TaskStep.timer_stored {exclusive : Bool} {counter timer asked : Nat} {curr : TaskId} {ret : β}
    (hs : TaskStep s c exclusive counter s') (hregs : s.regs c = .storeTimer curr timer asked ret) :
    (s'.tasks curr).timer = timer := by
  cases hs with
  | timer phase =>
    cases phase.symm.trans hregs
    simp [State.setRegs, State.updateTask]
  | _ phase => cases phase.symm.trans hregs

/-- A lock is stored in `sleepingOnLock` by `Spinlock::get`; every other step leaves the field or clears
    it. -/
theorem sleepingOnLock_step {code : Code β} {e : Event β} (g : s.Guarded)
    (hs : step code s e = some s') (t : TaskId) :
    (s'.tasks t).sleepingOnLock = (s.tasks t).sleepingOnLock ∨ (s'.tasks t).sleepingOnLock = none ∨
      ∃ c exclusive counter l ret, e = .resume c exclusive counter ∧ s.regs c = .getStore t l ret := by
  cases e with
  | timer =>
    obtain ⟨-, rfl⟩ := takeTimer_spec hs
    exact .inl rfl
  | interrupt c irq source =>
    obtain ⟨-, _, _, _, _, -, rfl⟩ := takeInterrupt_frame hs
    exact .inl rfl
  | handle c reading =>
    have h := (handlerStep_clears (handlerStep_of_handle g hs) t).2
    exact h.imp_right .inl
  | call c call ret counter =>
    obtain ⟨-, -, rfl⟩ := step_call hs
    exact .inl rfl
  | resume c exclusive counter =>
    refine ((step_resume hs).2.sleepingOnLock_eq t).imp_right fun ⟨l, ret, hregs, _⟩ => .inr ?_
    exact ⟨c, exclusive, counter, l, ret, rfl, hregs⟩

/-! ### Who wakes a task up -/

/-- A task is found by a pass that looks at it and finds it ready; then the pass goes on with it. -/
theorem waking_step {code : Code β} {e : Event β} (g : s.Guarded) (hs : step code s e = some s')
    (hw : (s'.handler c).waking = some t) :
    (s.handler c).waking = some t ∨ ∃ reading pass index, e = .handle c reading ∧
      s.handler c = .scan pass index ∧ s.ready pass reading t = true := by
  have hgo : ∀ {d : Core} {after : Handler}, s'.handler = Function.update s.handler d after →
      (after.waking = some t → (s.handler d).waking = some t) → (s.handler c).waking = some t := by
    intro d after hhandler hafter
    rw [hhandler] at hw
    by_cases hd : c = d
    · subst hd
      exact hafter (by simpa using hw)
    · rwa [Function.update_of_ne hd] at hw
  cases e with
  | timer =>
    obtain ⟨-, rfl⟩ := takeTimer_spec hs
    exact .inl (hgo rfl (by rintro ⟨⟩))
  | interrupt d irq source =>
    obtain ⟨-, after, _, _, _, hstart, rfl⟩ := takeInterrupt_frame hs
    refine .inl (hgo rfl fun h => ?_)
    rw [Handler.waking_of_starts hstart] at h
    cases h
  | handle d reading =>
    cases handlerStep_of_handle g hs with
    | @found pass index u phase slot ready =>
      by_cases hd : c = d
      · subst hd
        have hu : u = t := by
          simpa [State.setHandler, afterReady_waking] using hw
        exact .inr ⟨reading, pass, index, rfl, phase, hu ▸ ready⟩
      · left
        simpa [State.setHandler, State.updateTask, hd] using hw
    | compared phase => exact .inl (hgo rfl fun h => by rw [phase]; exact h)
    | chosen phase => exact .inl (hgo rfl fun h => by rw [phase]; exact h)
    | @ended pass index phase all => exact .inl (hgo rfl (by cases pass <;> intro h <;> cases h))
    | @refused o phase _ => exact .inl (hgo rfl (by cases o <;> intro h <;> cases h))
    | @switched o u phase => exact .inl (hgo rfl (by cases o <;> intro h <;> cases h))
    | _ => exact .inl (hgo rfl (by rintro ⟨⟩))
  | call d call ret counter =>
    obtain ⟨-, -, rfl⟩ := step_call hs
    exact .inl hw
  | resume d exclusive counter =>
    rw [(step_resume hs).2.placesKept.handler] at hw
    exact .inl hw

/-- A task enters `sleepingQ` while no wake-up pass is on. -/
theorem not_waking_of_sleepAdd {code : Code β} {r : TaskId} {d : Core} {reading : Nat} (g : s.Guarded)
    (hd : s.handler d = .sleepAdd r) (hs : step code s (.handle d reading) = some s') (c : Core) :
    (s.handler c).waking = none := by
  have hfree : s.sleepingQLock = none := by
    simp only [step, handle, hd] at hs
    exact (sleepAdd_spec hs).1
  cases hw : (s.handler c).waking with
  | none => rfl
  | some u =>
    have hlock := (g.inside_iff c).mp (Guarded.inSleepingQ_of_waking hw)
    rw [hfree] at hlock
    cases hlock

/-! ### The record of the calls -/

namespace SleepCalls

theorem not_promised_of_idle (h : calls.underWay t = false) : ¬ calls.Promised t time := by
  rintro ⟨stage, hp⟩
  simp only [underWay, decide_eq_false_iff_not, not_exists] at h
  exact h stage (by simp [hp])

theorem le_of_endsBy {limit : Nat} (h : calls.endsBy t limit = true) (hp : calls.Promised t time) :
    time ≤ limit := by
  obtain ⟨stage, hp⟩ := hp
  simp only [endsBy, decide_eq_true_eq] at h
  simpa [hp] using h stage

theorem promised_record {u : TaskId} {stage : SleepStage} {asked : Option Nat}
    (h : (calls.record u stage asked).Promised t time) :
    calls.Promised t time ∨ t = u ∧ asked = some time := by
  obtain ⟨stage', hp⟩ := h
  by_cases ht : t = u
  · subst ht
    by_cases hstage : stage' = stage
    · subst hstage
      exact .inr ⟨rfl, by simpa [record] using hp⟩
    · exact .inl ⟨stage', by simpa [record, hstage] using hp⟩
  · exact .inl ⟨stage', by simpa [record, ht] using hp⟩

theorem promised_forget {stage : SleepStage} (h : (calls.forget stage).Promised t time) :
    calls.Promised t time := by
  obtain ⟨stage', hp⟩ := h
  by_cases hstage : stage' = stage
  · subst hstage
    simp [forget] at hp
  · exact ⟨stage', by simpa [forget, hstage] using hp⟩

theorem record_ne {u : TaskId} {stage stage' : SleepStage} {asked : Option Nat} (h : stage' ≠ stage) :
    calls.record u stage asked t stage' = calls t stage' := by
  by_cases ht : t = u
  · subst ht
    simp [record, h]
  · simp [record, ht]

theorem forget_ne {stage stage' : SleepStage} (h : stage' ≠ stage) :
    calls.forget stage t stage' = calls t stage' := by
  simp [forget, h]

/-- A call of `Task::sleep(ms)` is recorded when it stores its timer, or when its task is put to sleep
    before that. -/
theorem promised_next {e : Event β} (h : (calls.next s e).Promised t time) :
    calls.Promised t time ∨
      (∃ c exclusive counter curr timer ret, e = .resume c exclusive counter ∧ s.currentTask c = t ∧
        s.regs c = .storeTimer curr timer time ret) ∨
      ∃ c reading r, e = .handle c reading ∧ s.handler c = .sleepAdd r ∧ s.currentTask c = t ∧
        (s.regs c).asking = some time := by
  cases e with
  | timer => exact .inl h
  | call c call ret counter => exact .inl h
  | interrupt c irq source =>
    cases irq with
    | sleep =>
      left
      obtain hold | ⟨rfl, hp⟩ := promised_record (promised_forget h)
      · exact hold
      · exact ⟨_, hp⟩
    | _ => exact .inl h
  | resume c exclusive counter =>
    cases hregs : s.regs c with
    | storeTimer curr timer asked ret =>
      simp only [next, hregs] at h
      refine (promised_record h).imp_right fun ⟨ht, hp⟩ => .inl ?_
      exact ⟨c, exclusive, counter, curr, timer, ret, rfl, ht.symm, Option.some.inj hp ▸ hregs⟩
    | sendSgi core send =>
      left
      cases send with
      | sleep ret =>
        simp only [next, hregs] at h
        obtain hold | ⟨-, hp⟩ := promised_record h
        · obtain hold | ⟨rfl, hp⟩ := promised_record hold
          · exact hold
          · exact (Option.or_eq_some_iff.mp hp).elim (fun hp => ⟨_, hp⟩) fun hp => ⟨_, hp.2⟩
        · cases hp
      | _ =>
        simp only [next, hregs] at h
        exact h
    | _ =>
      simp only [next, hregs] at h
      exact .inl h
  | handle c reading =>
    cases hc : s.handler c with
    | sleepAdd r =>
      simp only [next, hc] at h
      obtain hold | ⟨rfl, hp⟩ := promised_record (promised_forget h)
      · exact .inl hold
      · simp only [Option.or_eq_some_iff] at hp
        obtain hp | ⟨-, hp | ⟨-, hp | ⟨-, hp⟩⟩⟩ := hp
        · exact .inl ⟨_, hp⟩
        · exact .inl ⟨_, hp⟩
        · exact .inr (.inr ⟨c, reading, r, rfl, hc, rfl, hp⟩)
        · exact .inl ⟨_, hp⟩
    | move pass u nextCore =>
      simp only [next, hc] at h
      obtain hold | ⟨-, hp⟩ := promised_record h
      · exact .inl hold
      · cases hp
    | _ =>
      simp only [next, hc] at h
      exact .inl h

/-- A task is recorded as queued by the sleep interrupt that puts it to sleep. -/
theorem queued_next {e : Event β} (h : calls.next s e t .queued = some time) :
    calls t .queued = some time ∨
      ∃ c reading r, e = .handle c reading ∧ s.handler c = .sleepAdd r := by
  cases e with
  | timer => exact .inl h
  | call c call ret counter => exact .inl h
  | interrupt c irq source =>
    cases irq with
    | sleep => exact .inl (by simpa [next, record_ne, forget_ne] using h)
    | _ => exact .inl h
  | resume c exclusive counter =>
    left
    cases hregs : s.regs c with
    | storeTimer curr timer asked ret => simpa [next, hregs, record_ne] using h
    | sendSgi core send => cases send <;> simpa [next, hregs, record_ne] using h
    | _ =>
      simp only [next, hregs] at h
      exact h
  | handle c reading =>
    cases hc : s.handler c with
    | sleepAdd r => exact .inr ⟨c, reading, r, rfl, hc⟩
    | move pass u nextCore =>
      simp only [next, hc] at h
      left
      by_cases ht : t = u
      · subst ht
        simp [record] at h
      · simpa [record, ht] using h
    | _ =>
      simp only [next, hc] at h
      exact .inl h

end SleepCalls

/-! ### What a task has read from the timer -/

/-- A call of `Task::sleep(ms)` that has not read the timer was made before now, and one that has
    stores no earlier time than it asks for. -/
def Point.timely (now : Nat) : Point β → Prop
  | .getCore (.sleepMs _ called _) | .loadCurrent _ (.sleepMs _ called _) => called ≤ now
  | .readCounter _ _ called _ => called ≤ now
  | .storeTimer _ time asked _ => asked ≤ time
  | _ => True

/-- All tasks stand so, those that run and those that do not. -/
structure PointsTimely (s : State β) (now : Nat) : Prop where
  regs : ∀ c, (s.regs c).timely now
  context : ∀ t, (s.tasks t).context.timely now

theorem Point.timely.mono {point : Point β} {now later : Nat} (h : point.timely now)
    (hle : now ≤ later) :
    point.timely later := by
  unfold Point.timely at h ⊢
  split at h <;> first | exact h.trans hle | exact h

theorem PointsTimely.mono {now later : Nat} (h : PointsTimely s now) (hle : now ≤ later) :
    PointsTimely s later where
  regs c := (h.regs c).mono hle
  context t := (h.context t).mono hle

/-- A task stands at another point, and the tasks that do not run stay where they are. -/
theorem PointsTimely.moved {now : Nat} {point : Point β} (h : PointsTimely s now) (u : PlacesKept s s')
    (hregs : s'.regs = Function.update s.regs c point) (hpoint : point.timely now) :
    PointsTimely s' now where
  regs d := by
    rw [hregs]
    by_cases hd : d = c
    · subst hd
      rwa [Function.update_self]
    · rw [Function.update_of_ne hd]
      exact h.regs d
  context t := by
    rw [u.context]
    exact h.context t

/-- The handlers copy points only. -/
theorem PointsTimely.handlerStep {now reading : Nat} (h : PointsTimely s now)
    (hs : HandlerStep s c reading s') : PointsTimely s' now := by
  cases hs with
  | @found pass index u phase slot ready =>
    refine ⟨h.regs, fun t => ?_⟩
    have hcontext := updateTask_keeps Task.context (clear_context pass) s u t
    exact hcontext.symm ▸ h.context t
  | saved phase =>
    refine ⟨h.regs, fun t => ?_⟩
    by_cases ht : t = s.currentTask c
    · subst ht
      simpa [State.save, State.setHandler, State.updateTask] using h.regs c
    · simpa [State.save, State.setHandler, State.updateTask, ht] using h.context t
  | @loaded o u phase =>
    refine ⟨fun d => ?_, h.context⟩
    by_cases hd : d = c
    · subst hd
      simpa [State.load, State.setHandler, State.setRegs] using h.context u
    · simpa [State.load, State.setHandler, State.setRegs, hd] using h.regs d
  | _ => exact ⟨h.regs, h.context⟩

/-- A step inside a call at `now`: the time that is stored is no earlier than the one that is asked for,
    if it has not come round to 0. -/
theorem PointsTimely.taskStep {now counter : Nat} {exclusive : Bool} (h : PointsTimely s now)
    (hread : ∀ curr ms called ret, s.regs c = .readCounter curr ms called ret →
      counter = now ∧ counter + ms * 1000 < 2 ^ 64)
    (hs : TaskStep s c exclusive counter s') : PointsTimely s' now := by
  have hc := h.regs c
  have u := hs.placesKept
  cases hs with
  | @core use phase =>
    rw [phase] at hc
    exact h.moved u rfl (by cases use <;> exact hc)
  | @current core use phase =>
    rw [phase] at hc
    exact h.moved u rfl (by cases use <;> exact hc)
  | @counter curr ms called ret phase =>
    rw [phase] at hc
    obtain ⟨hnow, hlt⟩ := hread curr ms called ret phase
    refine h.moved u rfl ?_
    change called + ms * 1000 ≤ (counter + ms * 1000) % 2 ^ 64
    rw [Nat.mod_eq_of_lt hlt, hnow]
    exact Nat.add_le_add_right hc _
  | @sent core send phase =>
    have hregs : ((s.request c core send).setRegs c send.after).regs =
        Function.update s.regs c send.after := by
      unfold State.request
      split <;> rfl
    exact h.moved u hregs (by cases send <;> trivial)
  | _ phase => exact h.moved u rfl trivial

/-! ### Every step -/

/-- A task that has asked not to run before a time has no lock to be found by and no earlier timer; one
    that a pass has found has had its time. -/
structure Timely (s : Clocked β) : Prop where
  guarded : s.system.Guarded
  points : PointsTimely s.system s.now
  late : ∀ t time, s.calls.Promised t time → (s.system.tasks t).sleepingOnLock = none ∧
    ((s.system.tasks t).timer = 0 ∨ time ≤ (s.system.tasks t).timer)
  waking : ∀ c t time, (s.system.handler c).waking = some t → s.calls t .queued = some time →
    time ≤ s.now

/-- The parts of a step at a time. -/
theorem stepAt_spec {code : Code β} {s s' : Clocked β} {e : Event β × Nat}
    (hs : stepAt code s e = some s') :
    s.now ≤ e.2 ∧ (readsCounter s.system e.1).getD e.2 = e.2 ∧
      step code s.system e.1 = some s'.system ∧ s'.now = e.2 ∧
      s'.calls = s.calls.next s.system e.1 := by
  rw [stepAt] at hs
  split at hs
  case isTrue hok =>
    obtain ⟨system, hstep, rfl⟩ := Option.map_eq_some_iff.mp hs
    exact ⟨hok.1, hok.2.2, hstep, rfl, rfl⟩
  case isFalse => cases hs

/-- A task that is ready while a call of its own is under way has had its time. -/
theorem Timely.ready {s : Clocked β} {pass : Pass} {counter : Nat} (h : Timely s)
    (hp : s.calls.Promised t time) (hr : s.system.ready pass counter t = true) :
    pass ≠ .locks ∧ time ≤ counter := by
  obtain ⟨hlock, htimer⟩ := h.late t time hp
  cases pass with
  | locks => simp [State.ready, hlock] at hr
  | tick | timers =>
    simp only [State.ready, ne_eq, Bool.and_eq_true, decide_eq_true_eq] at hr
    exact ⟨nofun, (htimer.resolve_left hr.1).trans hr.2⟩

/-- What the condition says of the store of a timer. -/
theorem sleepsClean_storeTimer {s : Clocked β} {exclusive : Bool} {curr : TaskId}
    {counter now timer asked : Nat} {ret : β}
    (hregs : s.system.regs c = .storeTimer curr timer asked ret)
    (h : sleepsClean s (.resume c exclusive counter, now) = true) :
    curr = s.system.currentTask c ∧ s.calls.endsBy (s.system.currentTask c) asked = true ∧
      (s.system.tasks (s.system.currentTask c)).sleepingOnLock = none := by
  simp only [sleepsClean, hregs, Bool.and_eq_true, Option.isNone_iff_eq_none, decide_eq_true_eq] at h
  exact ⟨h.1.1, h.1.2, h.2⟩

/-- A task with a call under way keeps its timer, or has it cleared or put off, and gets no lock. -/
theorem Timely.late_kept {code : Code β} {s s' : Clocked β} {e : Event β × Nat} (h : Timely s)
    (hclean : sleepsClean s e = true) (hstep : step code s.system e.1 = some s'.system)
    (hp : s.calls.Promised t time) : (s'.system.tasks t).sleepingOnLock = none ∧
      ((s'.system.tasks t).timer = 0 ∨ time ≤ (s'.system.tasks t).timer) := by
  obtain ⟨e, now⟩ := e
  obtain ⟨hlock, htimer⟩ := h.late t time hp
  constructor
  · obtain heq | hnone | ⟨c, exclusive, counter, l, ret, rfl, hregs⟩ :=
      sleepingOnLock_step h.guarded hstep t
    · exact heq.trans hlock
    · exact hnone
    · have hidle : s.calls.underWay t = false := by simpa [sleepsClean, hregs] using hclean
      exact absurd hp (SleepCalls.not_promised_of_idle hidle)
  · obtain heq | hzero | ⟨c, exclusive, counter, asked, ret, rfl, hregs⟩ := timer_step h.guarded hstep t
    · rw [heq]
      exact htimer
    · exact .inl hzero
    · -- a later call of the task replaces the timer
      obtain ⟨rfl, hends, -⟩ := sleepsClean_storeTimer hregs hclean
      have hstored := h.points.regs c
      rw [hregs] at hstored
      exact .inr ((SleepCalls.le_of_endsBy hends hp).trans hstored)

/-- A call of `Task::sleep(ms)` stores a timer that is no earlier than what it asks for in its own task,
    which has no lock. -/
theorem Timely.late_of_store {code : Code β} {s s' : Clocked β} {exclusive : Bool} {curr : TaskId}
    {counter now timer : Nat} {ret : β} (h : Timely s)
    (hregs : s.system.regs c = .storeTimer curr timer time ret)
    (hclean : sleepsClean s (.resume c exclusive counter, now) = true)
    (hstep : step code s.system (.resume c exclusive counter) = some s'.system) :
    (s'.system.tasks (s.system.currentTask c)).sleepingOnLock = none ∧
      time ≤ (s'.system.tasks (s.system.currentTask c)).timer := by
  obtain ⟨rfl, -, hlock⟩ := sleepsClean_storeTimer hregs hclean
  have hstored := h.points.regs c
  rw [hregs] at hstored
  have hstep' := (step_resume hstep).2
  have hsame := (hstep'.sleepingOnLock_eq (s.system.currentTask c)).resolve_right
    fun ⟨l, ret', hmark, _⟩ => by rw [hregs] at hmark; cases hmark
  exact ⟨hsame.trans hlock, (hstep'.timer_stored hregs).symm ▸ hstored⟩

/-- The points of the tasks after a step. -/
theorem Timely.points_step {code : Code β} {s s' : Clocked β} {e : Event β × Nat} (h : Timely s)
    (hclean : sleepsClean s e = true) (hs : stepAt code s e = some s') :
    PointsTimely s'.system s'.now := by
  obtain ⟨e, now⟩ := e
  obtain ⟨hle, hread, hstep, rfl, -⟩ := stepAt_spec hs
  have hpoints := h.points.mono hle
  cases e with
  | timer =>
    obtain ⟨-, heq⟩ := takeTimer_spec hstep
    rw [heq]
    exact ⟨hpoints.regs, hpoints.context⟩
  | interrupt c irq source =>
    obtain ⟨-, _, _, _, _, -, heq⟩ := takeInterrupt_frame hstep
    rw [heq]
    exact ⟨hpoints.regs, hpoints.context⟩
  | handle c reading => exact hpoints.handlerStep (handlerStep_of_handle h.guarded hstep)
  | call c call ret counter =>
    obtain ⟨-, -, heq⟩ := step_call hstep
    rw [heq]
    refine hpoints.moved placesKept_setRegs rfl ?_
    cases call with
    | sleepMs ms => exact hread.le
    | _ => trivial
  | resume c exclusive counter =>
    refine hpoints.taskStep (fun curr ms called ret hregs => ?_) (step_resume hstep).2
    simp only [readsCounter, hregs, Option.getD_some] at hread
    exact ⟨hread, by simpa [sleepsClean, hregs] using hclean⟩

theorem timely_step {code : Code β} {s s' : Clocked β} {e : Event β × Nat} (h : Timely s)
    (hclean : sleepsClean s e = true) (hs : stepAt code s e = some s') : Timely s' := by
  have hpoints := h.points_step hclean hs
  obtain ⟨e, now⟩ := e
  obtain ⟨hle, hread, hstep, hnow, hcalls⟩ := stepAt_spec hs
  refine ⟨guarded_step h.guarded hstep, hpoints, fun t time hp => ?_, fun c t time hw hq => ?_⟩
  · rw [hcalls] at hp
    obtain hold | ⟨c, exclusive, counter, curr, timer, ret, rfl, rfl, hregs⟩ |
      ⟨c, reading, r, rfl, hc, -, hasking⟩ := SleepCalls.promised_next hp
    · exact h.late_kept hclean hstep hold
    · exact (h.late_of_store hregs hclean hstep).imp_right .inr
    · simp [sleepsClean, hc, hasking] at hclean
  · rw [hcalls] at hq
    rw [hnow]
    obtain hold | ⟨d, reading, r, rfl, hd⟩ := SleepCalls.queued_next hq
    · obtain hw | ⟨reading, pass, index, rfl, hc, hr⟩ := waking_step h.guarded hstep hw
      · exact (h.waking c t time hw hold).trans hle
      · obtain ⟨hpass, hreading⟩ := h.ready ⟨_, hold⟩ hr
        -- the pass has read the timer at this step
        cases pass with
        | locks => exact absurd rfl hpass
        | tick | timers =>
          simp only [readsCounter, hc, Option.getD_some] at hread
          exact hread ▸ hreading
    · -- no pass is on when a task enters the queue
      obtain hw | ⟨reading', pass, index, heq, hc, -⟩ := waking_step h.guarded hstep hw
      · rw [not_waking_of_sleepAdd h.guarded hd hstep c] at hw
        cases hw
      · cases heq
        rw [hd] at hc
        cases hc

/-! ### Runs -/

theorem timely_of_booted {home : TaskId → Option Core} {s : State β} (h : Booted home s) :
    Timely (Clocked.start s) where
  guarded := guarded_of_booted h
  points :=
    { regs := fun c => by
        rw [show (Clocked.start s).system.regs c = .hang from h.hang c]
        trivial
      context := fun t => by
        change (s.tasks t).context.timely _
        rcases h.entry t with heq | ⟨place, heq⟩ <;> rw [heq] <;> trivial }
  late t time hp := by
    obtain ⟨stage, hp⟩ := hp
    cases hp
  waking c t time hw hq := by cases hq

theorem Timely.wakesInTime {s : Clocked β} (h : Timely s) : s.WakesInTime := fun c _ t _ time hc hq =>
  h.waking c t time (by rw [hc]; rfl) hq

/-- In runs of any tasks with clean sleeps only, no wake-up pass returns a task to a run queue before
    the time that its call of `Task::sleep(ms)` has asked for. -/
theorem wakesInTime_of_run {home : TaskId → Option Core} {code : Code β} {s₀ : State β}
    {s : Clocked β} (hboot : Booted home s₀)
    (hrun : RunWhere (stepAt code) sleepsClean (Clocked.start s₀) s) : s.WakesInTime :=
  (hrun.invariant (timely_of_booted hboot) fun _ _ _ h hok hs => timely_step h hok hs).wakesInTime

/-- A schedule all of whose steps happen at one time. -/
def allAt (now : Nat) (es : List (Event KernelPoint)) : List (Event KernelPoint × Nat) :=
  es.map fun e => (e, now)

/-- The screen task of core 0 sleeps for 16 ms and is found by the timer tick 16000 microseconds
    later. -/
theorem wakesInTime_of_screenTurn :
    ∃ s, RunWhere (stepAt kernelCode) sleepsClean (Clocked.start (kernelBoot threadN)) s ∧
      s.system.handler 0 = .move .tick (taskOf threadN 0 101) 0 ∧
      s.calls (taskOf threadN 0 101) .queued = some 16000 ∧ s.WakesInTime := by
  obtain ⟨s, hrun, hs⟩ :
      ∃ s, RunWhere (stepAt kernelCode) sleepsClean (Clocked.start (kernelBoot threadN)) s ∧
        decide (s.system.handler 0 = .move .tick (taskOf threadN 0 101) 0 ∧
          s.calls (taskOf threadN 0 101) .queued = some 16000) = true :=
    RunWhere.exists_of_replay
      (allAt 0 (firstTick ++ screenTurn 0 0 ++ sleepNow 0 0) ++
        allAt 16000 [.timer, .handle 0 0, .handle 0 16000]) (by decide +kernel)
  obtain ⟨hmove, hqueued⟩ := of_decide_eq_true hs
  exact ⟨s, hrun, hmove, hqueued,
    wakesInTime_of_run (kernelBooted_kernelBoot threadN).toBooted hrun⟩

/-- The run of the screen tasks of cores 0 and 1 in which `fb_lock` is taken when core 0 asks for it and
    free when it asks again, before the sleep interrupt is taken. `sleepingOnLock` stays set, and the
    interrupt is taken once the task has called `sleep(16)`; the wake-up of core 1 then finds it. -/
def earlyWake : List (Event KernelPoint) :=
  firstTick ++ rescheduleNow 1 0 ++ callGet 1 .screenTest ++ callGetBusy 0 .screenTest ++
  callFree 1 .screenSleep ++ resumes 0 0 5 ++ callFree 0 .screenSleep ++
  callSleep 0 16 0 .screenBegin ++ [.interrupt 0 .sleep 0, .handle 0 0, .handle 0 0] ++
  .interrupt 1 .wakeUpAll 1 :: List.replicate 5 (.handle 1 0)

/-- In the kernel a task is woken up before its timed sleep is over. -/
theorem wakesInTime_fails :
    ¬ ∀ s, Run (stepAt kernelCode) (Clocked.start (kernelBoot threadN)) s → s.WakesInTime := by
  intro hall
  obtain ⟨s, hrun, hs⟩ :
      ∃ s, Run (stepAt kernelCode) (Clocked.start (kernelBoot threadN)) s ∧
        decide (s.system.handler 1 = .move .locks (taskOf threadN 0 101) 0 ∧
          s.calls (taskOf threadN 0 101) .queued = some 16000 ∧ s.now = 0) = true :=
    RunWhere.exists_of_replay (allAt 0 earlyWake) (by decide +kernel)
  obtain ⟨hmove, hqueued, hnow⟩ := of_decide_eq_true hs
  have hlate := hall s hrun 1 .locks _ 0 16000 hmove hqueued
  rw [hnow] at hlate
  exact absurd hlate (by decide)

end Rpi4Kernel.Sched
