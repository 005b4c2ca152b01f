/-
Module: Rpi4Kernel.Proofs.LockWakeUpSpec
Layer: Proofs
Purpose: No wake-up on a lock is lost, as long as a task enters `sleepingQ` while its lock is still
  set or a wake-up is on its way, and a lock on which tasks sleep is not unlocked before a wake-up is
  on its way to them. A wake-up is lost for good when the lock is freed, and the wake-up pass is over,
  before the sleep interrupt has put the task into `sleepingQ`; and `Spinlock::free` unlocks first and
  requests the wake-up afterwards.
Trusted boundary: none (fully proved)
Main exports: WokenInTime, wokenInTime_step, wakesUp_of_run
-/
import Rpi4Kernel.Proofs.LockHolderSpec

namespace Rpi4Kernel.Sched

open Rpi4Kernel.Stdlib Rpi4Kernel.Theory

variable {β : Type} {s s' : State β} {c d : Core} {t : TaskId} {l : LockId}

/-- A wake-up is pending on core `c`, or being handled there and not past task `t`. -/
def State.wakes (s : State β) (c : Core) (t : TaskId) : Prop :=
  (∃ source, s.wakeUpIrq c source = true) ∨ s.passesTo c t = true

/-- The task sleeps on a lock that is not set. -/
def State.Misses (s : State β) (t : TaskId) : Prop :=
  ∃ l, (s.tasks t).sleepingOnLock = some l ∧ (s.locks l).locked = false

/-- A task in `sleepingQ` whose lock is not set has a wake-up coming. -/
def WokenInTime (s : State β) : Prop :=
  ∀ t ∈ s.sleepingQ.array, s.Misses t → ∃ c, s.wakes c t

theorem wakeUpReaches_iff : s.wakeUpReaches t = true ↔ ∃ c, s.wakes c t := by
  simp [State.wakeUpReaches, State.wakes]

theorem passesTo_scan {index : Nat} (hc : s.handler c = .scan .locks index) :
    s.passesTo c t = true ↔ t ∉ s.sleepingQ.array.take index := by
  simp [State.passesTo, hc]

theorem passesTo_congr (hhandler : s'.handler d = s.handler d) (hqueue : s'.sleepingQ = s.sleepingQ) :
    s'.passesTo d t = s.passesTo d t := by
  simp only [State.passesTo, hhandler, hqueue]

theorem passesTo_of_handlesWakeUp (hc : (s.handler c).handlesWakeUp = true)
    (hno : ∀ index, s.handler c ≠ .scan .locks index) : s.passesTo c t = true := by
  unfold State.passesTo
  split
  · exact absurd ‹_› (hno _)
  · exact hc

/-- A wake-up that has reached the task is on its way. -/
theorem handlesWakeUp_of_passesTo (h : s.passesTo c t = true) : (s.handler c).handlesWakeUp = true := by
  unfold State.passesTo at h
  split at h
  case h_1 index hc => rw [hc]; rfl
  case h_2 => exact h

theorem wakeUpComes_of_wakes (h : s.wakes c t) : s.wakeUpComes = true := by
  have hc : (∃ source, s.wakeUpIrq c source = true) ∨ (s.handler c).handlesWakeUp = true :=
    h.imp_right handlesWakeUp_of_passesTo
  simp only [State.wakeUpComes, decide_eq_true_eq]
  exact ⟨c, hc⟩

/-- While no core goes through `sleepingQ`, a wake-up that is on its way reaches every task. -/
theorem wakes_of_wakeUpComes (h : s.wakeUpComes = true)
    (hfree : ∀ d, (s.handler d).inSleepingQ = false) : ∃ c, s.wakes c t := by
  simp only [State.wakeUpComes, decide_eq_true_eq] at h
  obtain ⟨c, hc⟩ := h
  refine ⟨c, hc.imp_right fun hc => passesTo_of_handlesWakeUp hc fun index hscan => ?_⟩
  have hno := hfree c
  rw [hscan] at hno
  cases hno

namespace WokenInTime

/-- A wake-up reaches the tasks it has reached while the queue stays as it is and the handler of core
    `c` does not go past them. -/
theorem wakes_update {after : Handler} (hqueue : s'.sleepingQ = s.sleepingQ)
    (hirq : s'.wakeUpIrq = s.wakeUpIrq) (hhandler : s'.handler = Function.update s.handler c after)
    (hgo : s.passesTo c t = true → s'.passesTo c t = true) : s.wakes d t → s'.wakes d t := by
  refine Or.imp (fun hd => hirq ▸ hd) fun hd => ?_
  by_cases hdc : d = c
  · exact hdc ▸ hgo (hdc ▸ hd)
  · exact (passesTo_congr (by rw [hhandler, Function.update_of_ne hdc]) hqueue).trans hd

/-- A handler goes on, ends no wake-up and does not go through the queue for locks; locks of tasks may
    be forgotten. -/
theorem go {after : Handler} (h : WokenInTime s) (hlocks : s'.locks = s.locks)
    (hqueue : s'.sleepingQ = s.sleepingQ) (hirq : s'.wakeUpIrq = s.wakeUpIrq)
    (hhandler : s'.handler = Function.update s.handler c after)
    (hgo : (s.handler c).handlesWakeUp = true → after.handlesWakeUp = true)
    (hto : ∀ index, after ≠ .scan .locks index)
    (htasks : ∀ t, (s'.tasks t).sleepingOnLock = (s.tasks t).sleepingOnLock ∨
      (s'.tasks t).sleepingOnLock = none) : WokenInTime s' := by
  intro t ht ⟨l, hl, hunset⟩
  have hold : (s.tasks t).sleepingOnLock = some l :=
    (htasks t).elim (fun heq => heq ▸ hl) fun heq => by rw [heq] at hl; cases hl
  obtain ⟨d, hd⟩ := h t (hqueue ▸ ht) ⟨l, hold, hlocks ▸ hunset⟩
  refine ⟨d, wakes_update hqueue hirq hhandler (fun hpass => ?_) hd⟩
  have hself : s'.handler c = after := by rw [hhandler, Function.update_self]
  exact passesTo_of_handlesWakeUp (hself ▸ hgo (handlesWakeUp_of_passesTo hpass))
    fun index => hself ▸ hto index

/-- A handler goes on that handles no wake-up and does not begin to. -/
theorem goOn {after : Handler} (h : WokenInTime s) (hlocks : s'.locks = s.locks)
    (hqueue : s'.sleepingQ = s.sleepingQ) (hirq : s'.wakeUpIrq = s.wakeUpIrq)
    (hhandler : s'.handler = Function.update s.handler c after) (htasks : s'.tasks = s.tasks)
    (hfrom : (s.handler c).handlesWakeUp = false) (hto : after.handlesWakeUp = false) :
    WokenInTime s' := by
  apply h.go hlocks hqueue hirq hhandler
  · intro hwakes
    rw [hfrom] at hwakes
    cases hwakes
  · rintro i rfl
    cases hto
  · intro t
    exact .inl (congrArg (fun tasks => (tasks t).sleepingOnLock) htasks)

/-- The queue changes while no other core goes through it, and the handler of core `c` goes through it
    from the start or not at all. -/
theorem requeue {after : Handler} (h : WokenInTime s) (hlocks : s'.locks = s.locks)
    (hirq : s'.wakeUpIrq = s.wakeUpIrq) (hhandler : s'.handler = Function.update s.handler c after)
    (htasks : s'.tasks = s.tasks)
    (hgo : (s.handler c).handlesWakeUp = true → after.handlesWakeUp = true)
    (hto : ∀ index, after = .scan .locks index → index = 0)
    (hothers : ∀ d, d ≠ c → (s.handler d).inSleepingQ = false)
    (hqueue : ∀ t ∈ s'.sleepingQ.array, s.Misses t → t ∈ s.sleepingQ.array ∨ ∃ d, s.wakes d t) :
    WokenInTime s' := by
  intro t ht hm
  have hm' : s.Misses t := by simpa only [State.Misses, hlocks, htasks] using hm
  obtain ⟨d, hd⟩ := (hqueue t ht hm').elim (fun hold => h t hold hm') id
  refine ⟨d, hd.imp (fun hd => hirq ▸ hd) fun hd => ?_⟩
  have hwakes := handlesWakeUp_of_passesTo hd
  by_cases hdc : d = c
  · subst hdc
    have hself : s'.handler d = after := by rw [hhandler, Function.update_self]
    by_cases hscan : ∃ index, after = .scan .locks index
    · obtain ⟨index, hindex⟩ := hscan
      rw [passesTo_scan (hself.trans hindex), hto index hindex, List.take_zero]
      exact List.not_mem_nil
    · exact passesTo_of_handlesWakeUp (hself ▸ hgo hwakes) fun index hindex =>
        hscan ⟨index, hself ▸ hindex⟩
  · have hsame : s'.handler d = s.handler d := by rw [hhandler, Function.update_of_ne hdc]
    refine passesTo_of_handlesWakeUp (hsame ▸ hwakes) fun index hindex => ?_
    have hno := hothers d hdc
    rw [← hsame, hindex] at hno
    cases hno

end WokenInTime

/-! ### Every step -/

/-- A pass over the locks goes past a task that does not miss a wake-up. -/
theorem wokenInTime_passed {index : Nat} {u : TaskId} (h : WokenInTime s)
    (hc : s.handler c = .scan .locks index) (hslot : s.sleepingQ.array[index]? = some u)
    (hno : ¬ s.Misses u) : WokenInTime (s.setHandler c (.scan .locks (index + 1))) := by
  intro t ht hm
  obtain ⟨d, hd⟩ := h t ht hm
  refine ⟨d, WokenInTime.wakes_update (s := s) (c := c) rfl rfl rfl (fun hpass => ?_) hd⟩
  have hself : (s.setHandler c (.scan .locks (index + 1))).handler c = .scan .locks (index + 1) :=
    Function.update_self ..
  rw [passesTo_scan hself]
  change t ∉ s.sleepingQ.array.take (index + 1)
  rw [List.take_add_one, hslot, List.mem_append]
  rintro (hold | hnew)
  · exact (passesTo_scan hc).mp hpass hold
  · obtain rfl : t = u := by simpa using hnew
    exact hno hm

theorem wokenInTime_handlerStep {reading : Nat} (h : WokenInTime s) (g : s.Guarded)
    (hok : insertedInTime s (.handle c reading) = true)
    (hown : ownerMatches s (.handle c reading) = true) (hs : HandlerStep s c reading s') :
    WokenInTime s' := by
  have hinside : (s.handler c).inSleepingQ = true → ∀ d, d ≠ c → (s.handler d).inSleepingQ = false := by
    intro hin d hd
    by_contra hne
    have hd' := (g.inside_iff d).mp (by simpa using hne)
    exact hd (Option.some.inj (hd'.symm.trans ((g.inside_iff c).mp hin)))
  have hfree : s.sleepingQLock = none → ∀ d, (s.handler d).inSleepingQ = false := by
    intro hlock d
    by_contra hne
    have hd' := (g.inside_iff d).mp (by simpa using hne)
    rw [hlock] at hd'
    cases hd'
  cases hs with
  | added phase free =>
    refine h.requeue rfl rfl rfl rfl (by simp [phase, Handler.handlesWakeUp]) (by simp)
      (fun d _ => hfree free d) fun t ht ⟨l, hl, hunset⟩ => ?_
    rcases List.mem_append.mp ht with hold | hnew
    · exact .inl hold
    · cases List.mem_singleton.mp hnew
      refine .inr (wakes_of_wakeUpComes ?_ (hfree free))
      simpa [insertedInTime, phase, hl, hunset] using hok
  | begun phase free perm =>
    refine h.requeue rfl rfl rfl rfl (by simp [phase, Handler.handlesWakeUp])
      (by rintro _ ⟨⟩; rfl) (fun d _ => hfree free d) fun t ht _ => .inl (perm.mem_iff.mp ht)
  | moved phase perm =>
    refine h.requeue rfl rfl rfl rfl (by simp [phase, Handler.handlesWakeUp])
      (by rintro _ ⟨⟩; rfl) (hinside (by rw [phase]; rfl))
      fun t ht _ => .inl (perm.mem_iff.mpr (List.mem_cons_of_mem _ ht))
  | @ended pass index phase all =>
    cases pass with
    | tick => exact h.goOn rfl rfl rfl rfl rfl (by rw [phase]; rfl) rfl
    | timers => exact h.go rfl rfl rfl rfl (fun _ => rfl) (by rintro _ ⟨⟩) fun _ => .inl rfl
    | locks =>
      -- the pass is past every task, so a task that misses its wake-up has another one coming
      intro t ht hm
      obtain ⟨d, hd⟩ := h t ht hm
      refine ⟨d, WokenInTime.wakes_update (s := s) (c := c) rfl rfl rfl (fun hpass => ?_) hd⟩
      rw [passesTo_scan phase, List.take_of_length_le all] at hpass
      exact absurd ht hpass
  | @found pass index t phase slot ready =>
    refine h.go rfl rfl rfl rfl ?_ ?_ (updateTask_sleepingOnLock
      (fun task => by cases pass <;> simp [State.clear]) t)
    · rw [phase]
      unfold State.afterReady
      split <;> exact id
    · unfold State.afterReady
      split <;> simp
  | @passed pass index t phase slot waits =>
    by_cases hpass : pass = .locks
    · subst hpass
      refine wokenInTime_passed h phase slot fun ⟨l, hl, hunset⟩ => ?_
      -- a lock that is not set has no owner, so that the task would have been ready
      have hget : s.sleepingQ.get (index : Nat) = some t := by simp [ArrayList.get, readAt, slot]
      have howner : (s.locks l).ownerPid = 0 := by
        simpa [ownerMatches, phase, hget, hl, hunset] using hown
      simp [State.ready, hl, howner] at waits
    · exact h.go rfl rfl rfl rfl (by simp [phase, Handler.handlesWakeUp])
        (fun i hi => hpass (by cases hi; rfl)) fun _ => .inl rfl
  | saved phase =>
    exact h.go rfl rfl rfl rfl (by simp [phase, Handler.handlesWakeUp]) (by rintro _ ⟨⟩)
      (updateTask_sleepingOnLock (f := fun task => { task with context := s.regs c })
        (fun _ => .inl rfl) _)
  | @refused o phase _ =>
    exact h.goOn rfl rfl rfl rfl rfl (by rw [phase]; rfl) (by cases o <;> rfl)
  | @switched o t phase =>
    exact h.goOn rfl rfl rfl rfl rfl (by rw [phase]; rfl) (by cases o <;> rfl)
  | removed q phase _ =>
    exact h.goOn rfl rfl rfl rfl rfl (by rw [phase]; rfl) rfl
  | compared phase =>
    exact h.go rfl rfl rfl rfl (by simp [phase, Handler.handlesWakeUp]) (by rintro _ ⟨⟩)
      fun _ => .inl rfl
  | chosen phase =>
    exact h.go rfl rfl rfl rfl (by simp [phase, Handler.handlesWakeUp]) (by rintro _ ⟨⟩)
      fun _ => .inl rfl
  | allowed phase _ =>
    exact h.goOn rfl rfl rfl rfl rfl (by rw [phase]; rfl) rfl
  | picked phase _ =>
    exact h.goOn rfl rfl rfl rfl rfl (by rw [phase]; rfl) rfl
  | uninitialized phase =>
    exact h.goOn rfl rfl rfl rfl rfl (by rw [phase]; rfl) rfl
  | loaded phase =>
    exact h.goOn rfl rfl rfl rfl rfl (by rw [phase]; rfl) rfl
  | sent phase =>
    exact h.goOn rfl rfl rfl rfl rfl (by rw [phase]; rfl) rfl

/-- Tasks end no wake-up. -/
theorem TaskStep.wakes {exclusive : Bool} {counter : Nat} (hs : TaskStep s c exclusive counter s')
    (h : s.wakes d t) : s'.wakes d t := by
  have u := hs.placesKept
  exact h.imp (Exists.imp fun source => hs.wakeUpIrq)
    (passesTo_congr (congrFun u.handler d) u.sleepingQ).trans

/-- A step inside a call unlocks only what `Spinlock::free` frees. -/
theorem TaskStep.locked {exclusive : Bool} {counter : Nat} (hs : TaskStep s c exclusive counter s')
    (hl : (s'.locks l).locked = false) :
    (s.locks l).locked = false ∨ ∃ ret, s.regs c = .freeUnlock l ret := by
  have hupdate : ∀ (l' : LockId) (lock : Spinlock), (Function.update s.locks l' lock l).locked = false →
      (l = l' → lock.locked = false → (s.locks l).locked = false ∨ ∃ ret, s.regs c =
        .freeUnlock l ret) →
      (s.locks l).locked = false ∨ ∃ ret, s.regs c = .freeUnlock l ret := by
    intro l' lock hupdate hself
    by_cases hll : l = l'
    · subst hll
      exact hself rfl (by simpa using hupdate)
    · exact .inl (by simpa [hll] using hupdate)
  cases hs with
  | acquired _ _ _ => exact hupdate _ _ hl fun _ hlocked => by cases hlocked
  | owned _ => exact hupdate _ _ hl fun hll hlocked => .inl (hll ▸ hlocked)
  | disowned _ => exact hupdate _ _ hl fun hll hlocked => .inl (hll ▸ hlocked)
  | @unlocked l' ret phase => exact hupdate _ _ hl fun hll _ => .inr ⟨ret, hll ▸ phase⟩
  | @sent core send _ =>
    unfold State.request at hl
    split at hl <;> exact .inl hl
  | _ => exact .inl hl

theorem wokenInTime_taskStep {exclusive : Bool} {counter : Nat} (h : WokenInTime s)
    (hin : insertedInTime s (.resume c exclusive counter) = true)
    (hfreed : freedInTime s (.resume c exclusive counter) = true)
    (hs : TaskStep s c exclusive counter s') : WokenInTime s' := by
  intro t ht ⟨l, hl, hunset⟩
  rw [hs.placesKept.sleepingQ] at ht
  suffices hwakes : ∃ d, s.wakes d t from hwakes.imp fun d => hs.wakes
  obtain hmark | ⟨l', ret, hregs, hmark⟩ := hs.sleepingOnLock_eq t
  · rw [hmark] at hl
    obtain hfree | ⟨ret, hregs⟩ := hs.locked hunset
    · exact h t ht ⟨l, hl, hfree⟩
    · -- the lock is unlocked now
      rw [← wakeUpReaches_iff]
      simp only [freedInTime, hregs, decide_eq_true_eq] at hfreed
      exact hfreed t ht hl
  · -- the task is marked now
    obtain rfl : l' = l := Option.some.inj (hmark.symm.trans hl)
    have hfree : (s.locks l').locked = false :=
      (hs.locked hunset).resolve_right fun ⟨ret', hunlock⟩ => by rw [hregs] at hunlock; cases hunlock
    rw [← wakeUpReaches_iff]
    simpa [insertedInTime, hregs, ht, hfree] using hin

theorem wokenInTime_step {code : Code β} {e : Event β} (h : WokenInTime s) (g : s.Guarded)
    (hin : insertedInTime s e = true) (hfreed : freedInTime s e = true) (hown : ownerMatches s e = true)
    (hs : step code s e = some s') : WokenInTime s' := by
  cases e with
  | timer =>
    obtain ⟨hc, rfl⟩ := takeTimer_spec hs
    exact h.goOn rfl rfl rfl rfl rfl (by rw [hc]; rfl) rfl
  | interrupt c irq source =>
    cases irq with
    | reschedule =>
      obtain ⟨hc, -, rfl⟩ := takeInterrupt_reschedule hs
      exact h.goOn rfl rfl rfl rfl rfl (by rw [hc]; rfl) rfl
    | sleep =>
      obtain ⟨hc, r, -, rfl⟩ := takeInterrupt_sleep hs
      exact h.goOn rfl rfl rfl rfl rfl (by rw [hc]; rfl) rfl
    | wakeUpAll =>
      obtain ⟨hc, hirq, rfl⟩ := takeInterrupt_wakeUpAll hs
      intro t ht hm
      obtain ⟨d, hd⟩ := h t ht hm
      refine ⟨d, ?_⟩
      by_cases hdc : d = c
      · subst hdc
        exact .inr (by simp [State.passesTo, State.setHandler, Handler.handlesWakeUp])
      · have hsame : (s.setHandler c (.begin .timers)).handler d = s.handler d :=
          Function.update_of_ne hdc ..
        refine hd.imp (fun hd => by simpa [State.setHandler, hdc] using hd) fun hd => ?_
        exact (passesTo_congr (s := s) hsame rfl).trans hd
  | handle c reading => exact wokenInTime_handlerStep h g hin hown (handlerStep_of_handle g hs)
  | call c call ret counter =>
    obtain ⟨-, -, rfl⟩ := step_call hs
    exact h
  | resume c exclusive counter => exact wokenInTime_taskStep h hin hfreed (step_resume hs).2

/-- The steps after which no task misses a wake-up. -/
def wakesSafely (s : State β) (e : Event β) : Bool :=
  insertedInTime s e && freedInTime s e && ownerMatches s e

/-- In runs of any tasks with such steps only, no task sleeps on a lock that is not set unless a wake-up
    is on its way. -/
theorem wakesUp_of_run {home : TaskId → Option Core} {code : Code β} {s₀ : State β}
    (hboot : Booted home s₀) (hrun : RunWhere (step code) wakesSafely s₀ s) : s.WakesUp := by
  have hinv := hrun.invariant_of (p := State.Guarded) (q := WokenInTime)
    (fun _ hs => guarded_of_run hboot hs) (fun t ht => by simp [hboot.sleepingQ] at ht)
    fun s e s' g h hok hs => by
      simp only [wakesSafely, Bool.and_eq_true] at hok
      exact wokenInTime_step h g hok.1.1 hok.1.2 hok.2 hs
  intro t ht l hl hunset
  obtain ⟨c, hc⟩ := hinv t ht ⟨l, hl, hunset⟩
  exact wakeUpComes_of_wakes hc

/-- The screen task of core 1 draws, frees the lock and takes it again, and the screen task of core 0
    goes to sleep on it. Then the first frees the lock again, while its first wake-up is still
    pending. -/
def screensMeetTwice : List (Event KernelPoint) :=
  firstTick ++ rescheduleNow 1 0 ++ callGet 1 .screenTest ++ .call 1 .compute .screenDraw 0 ::
  .call 1 .preemptDisable .drawing 0 :: resumes 1 0 4 ++ .call 1 .preemptEnable .drawn 0 ::
  resumes 1 0 4 ++ callFree 1 .screenBegin ++ callGet 1 .screenTest ++ callGetBusy 0 .screenTest ++
  sleepNow 0 0 ++ callFree 1 .screenSleep

theorem wakesUp_of_sleep :
    ∃ s, RunWhere (step kernelCode) wakesSafely (kernelBoot threadN) s ∧
      taskOf threadN 0 101 ∈ s.sleepingQ.array ∧ (s.locks fbLock).locked = false ∧ s.WakesUp := by
  obtain ⟨s, hrun, hs⟩ : ∃ s, RunWhere (step kernelCode) wakesSafely (kernelBoot threadN) s ∧
      decide (taskOf threadN 0 101 ∈ s.sleepingQ.array ∧ (s.locks fbLock).locked = false) = true :=
    RunWhere.exists_of_replay screensMeetTwice (by decide +kernel)
  obtain ⟨hmem, hfree⟩ := of_decide_eq_true hs
  exact ⟨s, hrun, hmem, hfree, wakesUp_of_run (kernelBooted_kernelBoot threadN).toBooted hrun⟩

/-- In the kernel a wake-up is lost for good: the sleep interrupt of a screen task has taken it off
    its run queue when the other one frees the lock, and the wake-up pass is over when the first
    enters `sleepingQ`. No free is under way in the state that is reached. -/
theorem wakesUp_fails : ¬ ∀ s, Run (step kernelCode) (kernelBoot threadN) s → s.WakesUp := by
  intro hall
  obtain ⟨s, hrun, hs⟩ : ∃ s, Run (step kernelCode) (kernelBoot threadN) s ∧
      decide (taskOf threadN 0 101 ∈ s.sleepingQ.array ∧
        (s.tasks (taskOf threadN 0 101)).sleepingOnLock = some fbLock ∧
        (s.locks fbLock).locked = false ∧ s.wakeUpComes = false) = true :=
    RunWhere.exists_of_replay (screensMeet ++ [.interrupt 0 .sleep 0, .handle 0 0] ++
      callFree 1 .screenSleep ++ .interrupt 1 .wakeUpAll 1 :: List.replicate 4 (.handle 1 0) ++
      [.handle 0 0]) (by decide +kernel)
  obtain ⟨hmem, hlock, hfree, hcomes⟩ := of_decide_eq_true hs
  exact absurd ((hall s hrun _ hmem _ hlock hfree).symm.trans hcomes) nofun

end Rpi4Kernel.Sched
