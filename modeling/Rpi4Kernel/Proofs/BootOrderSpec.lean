/-
Module: Rpi4Kernel.Proofs.BootOrderSpec
Layer: Proofs
Purpose: While the cores come up, no handler uses a run queue that does not exist yet as long as every
  core has created its queues when a wake-up pass finds a task ready that is not pinned. In the kernel
  no core waits for the others, and `calcNextCore` does go through a null entry.
Trusted boundary: none (fully proved)
Main exports: BootState.Made, init_cases, Ordered, ordered_step, usesCreated_of_run
-/
import Rpi4Kernel.Proofs.KernelTasksSpec
import Rpi4Kernel.Sched.BootOrder

namespace Rpi4Kernel.Sched

open Rpi4Kernel.Stdlib Rpi4Kernel.Theory

variable {plan : Plan} {b b' : BootState} {s s' : State KernelPoint} {c d : Core} {t u r : TaskId}

/-! ### Initialisation -/

/-- The task has been created. -/
def BootState.Made (plan : Plan) (b : BootState) (t : TaskId) : Prop :=
  ∃ c i, (plan.tasks c)[i]? = some t ∧ 21 + i < b.progress c

@[simp] theorem made_sched (s : State KernelPoint) :
    ({ b with sched := s } : BootState).Made plan t ↔ b.Made plan t := Iff.rfl

/-- The three kinds of steps of `initSecondaryCore`. -/
theorem init_cases {sorted : Bool} {pid : Nat} {lock : Option LockId}
    (h : b.init plan c sorted pid lock = some b') :
    b'.progress = Function.update b.progress c (b.progress c + 1) ∧
      ((∃ hk : b.progress c < 21,
          b'.sched = b.sched.setRunningQ c ⟨b.progress c, hk⟩ (ArrayList.new sorted)) ∨
        (∃ t task, 21 ≤ b.progress c ∧ (plan.tasks c)[b.progress c - 21]? = some t ∧
          task = (plan.body t).create c pid lock ∧
          b'.sched = (b.sched.updateTask t fun _ => task).setRunningQ c task.p
            ((b.sched.runningQ c task.p).add t)) ∨
        (b.progress c = 21 + (plan.tasks c).length ∧ b'.sched = b.sched)) := by
  unfold BootState.init at h
  dsimp only at h
  split at h
  case isTrue hk =>
    cases h
    exact ⟨rfl, .inl ⟨hk, rfl⟩⟩
  case isFalse hk =>
    cases ht : (plan.tasks c)[b.progress c - 21]? with
    | some t =>
      simp only [ht, Option.some.injEq] at h
      subst h
      exact ⟨rfl, .inr (.inl ⟨t, _, by omega, rfl, rfl, rfl⟩)⟩
    | none =>
      simp only [ht] at h
      split at h
      case isTrue => cases h
      case isFalse hen =>
        cases h
        have hlen := List.getElem?_eq_none_iff.mp ht
        simp only [BootState.enabled, decide_eq_true_eq] at hen
        exact ⟨rfl, .inr (.inr ⟨by omega, rfl⟩)⟩

theorem progress_mono (h : b'.progress = Function.update b.progress c (b.progress c + 1)) (d : Core) :
    b.progress d ≤ b'.progress d := by
  rw [h]
  by_cases hd : d = c
  · subst hd
    simp
  · simp [hd]

theorem Made.mono (hle : ∀ d, b.progress d ≤ b'.progress d) (h : b.Made plan t) : b'.Made plan t := by
  obtain ⟨d, i, hi, hlt⟩ := h
  exact ⟨d, i, hi, lt_of_lt_of_le hlt (hle d)⟩

theorem created_mono {p : Priority} (hle : ∀ d, b.progress d ≤ b'.progress d)
    (h : b.created c p = true) : b'.created c p = true := by
  simp only [BootState.created, decide_eq_true_eq] at h ⊢
  exact lt_of_lt_of_le h (hle c)

theorem created_of_le {p : Priority} (h : 21 ≤ b.progress c) : b.created c p = true := by
  simp only [BootState.created, decide_eq_true_eq]
  omega

theorem created_of_enabled {p : Priority} (h : b.enabled plan c = true) : b.created c p = true := by
  simp only [BootState.enabled, decide_eq_true_eq] at h
  exact created_of_le (by omega)

/-- The task that a core creates next has not been created. -/
theorem not_made_next (hplan : plan.WellFormed)
    (ht : (plan.tasks c)[b.progress c - 21]? = some t) : ¬ b.Made plan t := by
  rintro ⟨d, i, hi, hlt⟩
  obtain rfl := hplan.disjoint d c t (List.mem_of_getElem? hi) (List.mem_of_getElem? ht)
  obtain ⟨hilt, hit⟩ := List.getElem?_eq_some_iff.mp hi
  obtain ⟨hklt, hkt⟩ := List.getElem?_eq_some_iff.mp ht
  have hik := (List.Nodup.getElem_inj_iff (hplan.nodup d)).mp (hit.trans hkt.symm)
  omega

/-- What a step of the initialisation creates. -/
theorem made_init (hprogress : b'.progress = Function.update b.progress c (b.progress c + 1))
    (h : b'.Made plan u) :
    b.Made plan u ∨ 21 ≤ b.progress c ∧ (plan.tasks c)[b.progress c - 21]? = some u := by
  obtain ⟨d, i, hi, hlt⟩ := h
  rw [hprogress] at hlt
  by_cases hd : d = c
  · subst hd
    rw [Function.update_self] at hlt
    rcases Nat.lt_or_ge (21 + i) (b.progress d) with hold | hnew
    · exact .inl ⟨d, i, hi, hold⟩
    · refine .inr ⟨by omega, ?_⟩
      rwa [show b.progress d - 21 = i by omega]
  · rw [Function.update_of_ne hd] at hlt
    exact .inl ⟨d, i, hi, hlt⟩

theorem enabled_mono (hle : ∀ d, b.progress d ≤ b'.progress d) (h : b.enabled plan c = true) :
    b'.enabled plan c = true := by
  simp only [BootState.enabled, decide_eq_true_eq] at h ⊢
  exact lt_of_lt_of_le h (hle c)

theorem Body.create_pinned {body : Body} {pid : Nat} {lock : Option LockId}
    (h : (body.create c pid lock).pinned = some d) : d = c := by
  cases body <;> simp [Body.create, createKernelTask] at h
  exact h.symm

theorem Body.create_core {body : Body} {pid : Nat} {lock : Option LockId} :
    (body.create c pid lock).context.core = none := by
  cases body <;> rfl

/-! ### The invariant -/

/-- Only tasks that were created are queued, run or sleep, also on a core that a task or a sleep
    interrupt refers to; a core handles interrupts when it has enabled them; a pinned task has a core
    that has created its queues, and a task that is being moved goes where there is a queue for it. -/
structure Ordered (plan : Plan) (b : BootState) : Prop where
  started : ∀ c, b.sched.handler c ≠ .none → b.enabled plan c = true
  queued : ∀ c p, ∀ t ∈ (b.sched.runningQ c p).array, b.Made plan t
  asleep : ∀ t ∈ b.sched.sleepingQ.array, b.Made plan t
  next : ∀ c t, (b.sched.handler c).next = some t → b.Made plan t
  current : ∀ c, (∀ o n, b.sched.handler c ≠ .setCurrent o n) →
    b.Made plan (b.sched.currentTask c) ∨ b.sched.regs c = .hang
  sleeper : ∀ c, (∃ source, b.sched.sleepIrq c source ≠ none) ∨ (b.sched.handler c).requester ≠ none →
    b.Made plan (b.sched.currentTask c)
  named : ∀ c d, (b.sched.regs c).core = some d → b.Made plan (b.sched.currentTask d)
  saved : ∀ t d, b.Made plan t → (b.sched.tasks t).context.core = some d →
    b.Made plan (b.sched.currentTask d)
  pinned : ∀ t d, b.Made plan t → (b.sched.tasks t).pinned = some d → 21 ≤ b.progress d
  looking : ∀ c pass t i count out, b.sched.handler c = .calcCore pass t i count out →
    ∀ d, b.created d (b.sched.tasks t).p = true
  moving : ∀ c pass t n, b.sched.handler c = .move pass t n → b.created n (b.sched.tasks t).p = true

namespace Ordered

/-- A handler goes on and `reschedule` does not switch. -/
theorem go {after : Handler} (h : Ordered plan b) (hen : b.enabled plan c = true)
    (htasks : ∀ t, (s'.tasks t).p = (b.sched.tasks t).p ∧
      (s'.tasks t).pinned = (b.sched.tasks t).pinned)
    (hcontext : ∀ t, (s'.tasks t).context = (b.sched.tasks t).context ∨
      ∃ d, (s'.tasks t).context = b.sched.regs d)
    (hqueued : ∀ c p, ∀ t ∈ (s'.runningQ c p).array, b.Made plan t)
    (hasleep : ∀ t ∈ s'.sleepingQ.array, b.Made plan t)
    (hcurrent : s'.currentTask = b.sched.currentTask)
    (hirq : ∀ d source r, s'.sleepIrq d source = some r → b.sched.sleepIrq d source = some r)
    (hregs : s'.regs = b.sched.regs)
    (hhandler : s'.handler = Function.update b.sched.handler c after)
    (hfrom : ∀ o n, b.sched.handler c ≠ .setCurrent o n)
    (hnext : ∀ t, after.next = some t → b.Made plan t)
    (hrequester : after.requester ≠ none → b.Made plan (b.sched.currentTask c))
    (hlooking : ∀ pass t i count out, after = .calcCore pass t i count out →
      ∀ d, b.created d (b.sched.tasks t).p = true)
    (hmoving : ∀ pass t n, after = .move pass t n → b.created n (b.sched.tasks t).p = true) :
    Ordered plan { b with sched := s' } := by
  constructor
  case queued => exact hqueued
  case asleep => exact hasleep
  case pinned => exact fun t d ht hd => h.pinned t d ht ((htasks t).2 ▸ hd)
  case started =>
    intro d hd
    by_cases hdc : d = c
    · exact hdc ▸ hen
    · exact h.started d (by simpa [hhandler, hdc] using hd)
  case next =>
    intro d t hd
    by_cases hdc : d = c
    · subst hdc
      exact hnext t (by simpa [hhandler] using hd)
    · exact h.next d t (by simpa [hhandler, hdc] using hd)
  case current =>
    intro d hd
    change b.Made plan (s'.currentTask d) ∨ s'.regs d = .hang
    rw [hcurrent, hregs]
    refine h.current d fun o n hon => ?_
    by_cases hdc : d = c
    · exact hfrom o n (hdc ▸ hon)
    · exact hd o n (by simpa [hhandler, hdc] using hon)
  case sleeper =>
    intro d hd
    change b.Made plan (s'.currentTask d)
    rw [hcurrent]
    rcases hd with ⟨source, hd⟩ | hd
    · obtain ⟨r, hr⟩ := Option.ne_none_iff_exists'.mp hd
      exact h.sleeper d (.inl ⟨source, by simp [hirq d source r hr]⟩)
    · by_cases hdc : d = c
      · subst hdc
        exact hrequester (by simpa [hhandler] using hd)
      · exact h.sleeper d (.inr (by simpa [hhandler, hdc] using hd))
  case named => exact fun d e hd => hcurrent ▸ h.named d e (hregs ▸ hd)
  case saved =>
    intro t d ht hd
    change b.Made plan (s'.currentTask d)
    rw [hcurrent]
    rcases hcontext t with hsame | ⟨e, he⟩
    · exact h.saved t d ht (hsame ▸ hd)
    · exact h.named e d (he ▸ hd)
  case looking =>
    intro d pass t i count out hd e
    change b.created e (s'.tasks t).p = true
    rw [(htasks t).1]
    by_cases hdc : d = c
    · subst hdc
      exact hlooking pass t i count out (by simpa [hhandler] using hd) e
    · exact h.looking d pass t i count out (by simpa [hhandler, hdc] using hd) e
  case moving =>
    intro d pass t n hd
    change b.created n (s'.tasks t).p = true
    rw [(htasks t).1]
    by_cases hdc : d = c
    · subst hdc
      exact hmoving pass t n (by simpa [hhandler] using hd)
    · exact h.moving d pass t n (by simpa [hhandler, hdc] using hd)

/-- A handler goes on and touches no task and no queue. -/
theorem go_on {after : Handler} (h : Ordered plan b) (hen : b.enabled plan c = true)
    (htasks : s'.tasks = b.sched.tasks) (hqueued : s'.runningQ = b.sched.runningQ)
    (hasleep : ∀ t ∈ s'.sleepingQ.array, t ∈ b.sched.sleepingQ.array)
    (hcurrent : s'.currentTask = b.sched.currentTask) (hirq : s'.sleepIrq = b.sched.sleepIrq)
    (hregs : s'.regs = b.sched.regs) (hhandler : s'.handler = Function.update b.sched.handler c after)
    (hfrom : ∀ o n, b.sched.handler c ≠ .setCurrent o n) (hnext : after.next = none)
    (hrequester : after.requester = none) (hwaking : after.waking = none) :
    Ordered plan { b with sched := s' } :=
  h.go hen (fun _ => by rw [htasks]; exact ⟨rfl, rfl⟩) (fun _ => .inl (by rw [htasks]))
    (hqueued ▸ h.queued)
    (fun t ht => h.asleep t (hasleep t ht)) hcurrent (fun _ _ _ hd => hirq ▸ hd) hregs hhandler hfrom
    (fun t ht => by simp [hnext] at ht) (fun hr => absurd hrequester hr)
    (fun pass t i count out heq => by simp [heq, Handler.waking] at hwaking)
    fun pass t n heq => by simp [heq, Handler.waking] at hwaking

/-- A pass has found a task ready. -/
theorem found {pass : Pass} {reading index : Nat} (h : Ordered plan b)
    (hen : b.enabled plan c = true) (hc : b.sched.handler c = .scan pass index)
    (hslot : b.sched.sleepingQ.array[index]? = some t) (hready : b.sched.ready pass reading t = true)
    (hok : wakesAfterQueues b (.run (.handle c reading)) = true) :
    Ordered plan { b with sched :=
      (b.sched.updateTask t (State.clear pass)).setHandler c (b.sched.afterReady pass t) } := by
  have hget : b.sched.sleepingQ.get (index : Nat) = some t := by simp [ArrayList.get, readAt, hslot]
  simp only [wakesAfterQueues, hc, hget, hready, Bool.not_true, Bool.false_or, Bool.or_eq_true,
    decide_eq_true_eq] at hok
  refine h.go hen
    (fun u => ⟨updateTask_p (clear_p pass) t u, updateTask_pinned (clear_pinned pass) t u⟩)
    (fun u => .inl (updateTask_keeps Task.context (clear_context pass) b.sched t u))
    h.queued h.asleep rfl (fun _ _ _ hd => hd) rfl rfl (by simp [hc]) ?_ ?_ ?_ ?_
  all_goals unfold State.afterReady
  · split <;> simp [Handler.next]
  · split <;> simp [Handler.requester]
  · split
    · simp
    · rename_i hnone
      rintro _ _ _ _ _ ⟨⟩
      exact hok.resolve_left (by simp [hnone])
  · split
    · rename_i e he
      rintro _ _ _ ⟨⟩
      exact created_of_le (h.pinned t e (h.asleep t (List.mem_of_getElem? hslot)) he)
    · simp

/-- The next task becomes the current one. -/
theorem setCurrent {o : Origin} (h : Ordered plan b) (hc : b.sched.handler c = .setCurrent o t) :
    Ordered plan { b with sched := b.sched.setCurrent c o t } := by
  have ht : b.Made plan t := h.next c t (by rw [hc]; rfl)
  have hmade : ∀ d, b.Made plan (b.sched.currentTask d) →
      b.Made plan ((b.sched.setCurrent c o t).currentTask d) := by
    intro d hd
    by_cases hdc : d = c
    · subst hdc
      simpa [State.setCurrent, State.setHandler] using ht
    · simpa [State.setCurrent, State.setHandler, hdc] using hd
  constructor
  case named => exact fun d e hd => hmade e (h.named d e hd)
  case saved => exact fun u d hu hd => hmade d (h.saved u d hu hd)
  case queued => exact h.queued
  case asleep => exact h.asleep
  case pinned => exact h.pinned
  case started =>
    intro d hd
    by_cases hdc : d = c
    · exact h.started d (by simp [hdc, hc])
    · exact h.started d (by simpa [State.setCurrent, State.setHandler, hdc] using hd)
  case next =>
    intro d u hd
    by_cases hdc : d = c
    · subst hdc
      cases o <;> simp [State.setCurrent, State.setHandler, Origin.after, Handler.next] at hd
    · exact h.next d u (by simpa [State.setCurrent, State.setHandler, hdc] using hd)
  case current =>
    intro d hd
    by_cases hdc : d = c
    · subst hdc
      exact .inl (by simpa [State.setCurrent, State.setHandler] using ht)
    · have hold := h.current d fun o' n hon => hd o' n
        (by simpa [State.setCurrent, State.setHandler, hdc] using hon)
      simpa [State.setCurrent, State.setHandler, hdc] using hold
  case sleeper =>
    intro d hd
    by_cases hdc : d = c
    · subst hdc
      simpa [State.setCurrent, State.setHandler] using ht
    · have hold := h.sleeper d (by simpa [State.setCurrent, State.setHandler, hdc] using hd)
      simpa [State.setCurrent, State.setHandler, hdc] using hold
  case looking =>
    intro d pass u i count out hd
    by_cases hdc : d = c
    · subst hdc
      cases o <;> simp [State.setCurrent, State.setHandler, Origin.after] at hd
    · exact h.looking d pass u i count out (by simpa [State.setCurrent, State.setHandler, hdc] using hd)
  case moving =>
    intro d pass u n hd
    by_cases hdc : d = c
    · subst hdc
      cases o <;> simp [State.setCurrent, State.setHandler, Origin.after] at hd
    · exact h.moving d pass u n (by simpa [State.setCurrent, State.setHandler, hdc] using hd)

end Ordered

/-! ### Every step -/

theorem ordered_handlerStep {reading : Nat} (h : Ordered plan b)
    (hen : b.enabled plan c = true) (hok : wakesAfterQueues b (.run (.handle c reading)) = true)
    (hs : HandlerStep b.sched c reading s') : Ordered plan { b with sched := s' } := by
  have hsame : ∀ t, (b.sched.tasks t).p = (b.sched.tasks t).p ∧
      (b.sched.tasks t).pinned = (b.sched.tasks t).pinned := fun _ => ⟨rfl, rfl⟩
  cases hs with
  | removed q phase sub =>
    have hcurrent := h.sleeper c (.inr (by simp [phase, Handler.requester]))
    refine h.go hen hsame (fun _ => .inl rfl) (fun d p t ht => ?_) h.asleep rfl
      (fun _ _ _ hd => hd) rfl rfl (by simp [phase])
      (by simp [Handler.next]) (fun _ => hcurrent) (by simp) (by simp)
    rcases mem_setRunningQ ht with hold | ⟨rfl, rfl, hnew⟩
    · exact h.queued d p t hold
    · exact h.queued d _ t (sub t hnew)
  | added phase free =>
    have hcurrent := h.sleeper c (.inr (by simp [phase, Handler.requester]))
    refine h.go hen hsame (fun _ => .inl rfl) h.queued (fun t ht => ?_) rfl
      (fun _ _ _ hd => hd) rfl rfl (by simp [phase])
      (by simp [Handler.next]) (by simp [Handler.requester]) (by simp) (by simp)
    rcases List.mem_append.mp ht with hold | hnew
    · exact h.asleep t hold
    · exact List.mem_singleton.mp hnew ▸ hcurrent
  | begun phase free perm =>
    exact h.go_on hen rfl rfl (fun t ht => perm.mem_iff.mp ht) rfl rfl rfl rfl (by simp [phase]) rfl rfl
      rfl
  | @ended pass index phase all =>
    exact h.go_on hen rfl rfl (fun _ ht => ht) rfl rfl rfl rfl (by simp [phase])
      (by cases pass <;> rfl) (by cases pass <;> rfl) (by cases pass <;> rfl)
  | found phase slot ready => exact h.found hen phase slot ready hok
  | compared phase =>
    refine h.go hen hsame (fun _ => .inl rfl) h.queued h.asleep rfl (fun _ _ _ hd => hd) rfl rfl
      (by simp [phase])
      (by simp [Handler.next]) (by simp [Handler.requester]) ?_ (by simp)
    rintro _ _ _ _ _ ⟨⟩
    exact h.looking c _ _ _ _ _ phase
  | chosen phase =>
    refine h.go hen hsame (fun _ => .inl rfl) h.queued h.asleep rfl (fun _ _ _ hd => hd) rfl rfl
      (by simp [phase])
      (by simp [Handler.next]) (by simp [Handler.requester]) (by simp) ?_
    rintro _ _ _ ⟨⟩
    exact h.looking c _ _ _ _ _ phase _
  | @moved pass t n q phase perm =>
    refine h.go hen hsame (fun _ => .inl rfl) (fun d p u hu => ?_) (fun u hu => ?_) rfl
      (fun _ _ _ hd => hd) rfl rfl
      (by simp [phase]) (by simp [Handler.next]) (by simp [Handler.requester]) (by simp) (by simp)
    · rcases mem_setRunningQ (s := { b.sched with sleepingQ := q }) hu with hold | ⟨rfl, rfl, hnew⟩
      · exact h.queued d p u hold
      · rcases List.mem_append.mp hnew with hold | hnew
        · exact h.queued d _ u hold
        · rw [List.mem_singleton.mp hnew]
          exact h.asleep t (perm.mem_iff.mpr List.mem_cons_self)
    · exact h.asleep u (perm.mem_iff.mpr (List.mem_cons_of_mem t hu))
  | passed phase _ _ =>
    exact h.go_on hen rfl rfl (fun _ ht => ht) rfl rfl rfl rfl (by simp [phase]) rfl rfl rfl
  | allowed phase _ =>
    exact h.go_on hen rfl rfl (fun _ ht => ht) rfl rfl rfl rfl (by simp [phase]) rfl rfl rfl
  | @refused o phase _ =>
    exact h.go_on hen rfl rfl (fun _ ht => ht) rfl rfl rfl rfl (by simp [phase]) (by cases o <;> rfl)
      (by cases o <;> rfl) (by cases o <;> rfl)
  | picked phase pick =>
    refine h.go hen hsame (fun _ => .inl rfl) h.queued h.asleep rfl (fun _ _ _ hd => hd) rfl rfl
      (by simp [phase]) ?_
      (by simp [Handler.requester]) (by simp) (by simp)
    rintro t ⟨⟩
    obtain ⟨p, -, hmem⟩ := pickNext_spec pick
    exact h.queued c p _ hmem
  | uninitialized phase =>
    exact h.go_on hen rfl rfl (fun _ ht => ht) rfl rfl rfl rfl (by simp [phase]) rfl rfl rfl
  | saved phase =>
    refine h.go hen (fun u => ⟨?_, ?_⟩) (fun u => ?_) h.queued h.asleep rfl (fun _ _ _ hd => hd) rfl rfl
      (by simp [phase]) ?_ (by simp [Handler.requester]) (by simp) (by simp)
    · exact updateTask_p (f := fun task => { task with context := b.sched.regs c }) (fun _ => rfl) _ u
    · exact updateTask_pinned (f := fun task => { task with context := b.sched.regs c }) (fun _ => rfl)
        _ u
    · by_cases hu : u = b.sched.currentTask c
      · exact .inr ⟨c, by simp [State.save, State.setHandler, State.updateTask, hu]⟩
      · exact .inl (by simp [State.save, State.setHandler, State.updateTask, hu])
    · rintro t ⟨⟩
      exact h.next c _ (by rw [phase]; rfl)
  | @loaded o t phase =>
    have ht : b.Made plan t := h.next c t (by rw [phase]; rfl)
    constructor
    case queued => exact h.queued
    case asleep => exact h.asleep
    case pinned => exact h.pinned
    case saved => exact h.saved
    case named =>
      intro d e hd
      by_cases hdc : d = c
      · subst hdc
        exact h.saved t e ht (by simpa [State.load, State.setHandler, State.setRegs] using hd)
      · exact h.named d e (by simpa [State.load, State.setHandler, State.setRegs, hdc] using hd)
    case started =>
      intro d hd
      by_cases hdc : d = c
      · exact hdc ▸ hen
      · exact h.started d (by simpa [State.load, State.setHandler, State.setRegs, hdc] using hd)
    case next =>
      intro d u hd
      by_cases hdc : d = c
      · subst hdc
        have heq : t = u := by simpa [State.load, State.setHandler, Handler.next] using hd
        exact heq ▸ ht
      · exact h.next d u (by simpa [State.load, State.setHandler, State.setRegs, hdc] using hd)
    case current =>
      intro d hd
      by_cases hdc : d = c
      · subst hdc
        exact absurd (by simp [State.load, State.setHandler]) (hd o t)
      · have hold := h.current d fun o' n hon => hd o' n
          (by simpa [State.load, State.setHandler, State.setRegs, hdc] using hon)
        simpa [State.load, State.setHandler, State.setRegs, hdc] using hold
    case sleeper =>
      intro d hd
      by_cases hdc : d = c
      · subst hdc
        exact h.sleeper d (by simpa [State.load, State.setHandler, State.setRegs, Handler.requester,
          phase] using hd)
      · exact h.sleeper d (by simpa [State.load, State.setHandler, State.setRegs, hdc] using hd)
    case looking =>
      intro d pass u i count out hd
      by_cases hdc : d = c
      · subst hdc
        simp [State.load, State.setHandler] at hd
      · exact h.looking d pass u i count out
          (by simpa [State.load, State.setHandler, State.setRegs, hdc] using hd)
    case moving =>
      intro d pass u n hd
      by_cases hdc : d = c
      · subst hdc
        simp [State.load, State.setHandler] at hd
      · exact h.moving d pass u n
          (by simpa [State.load, State.setHandler, State.setRegs, hdc] using hd)
  | switched phase => exact h.setCurrent phase
  | sent phase =>
    exact h.go_on hen rfl rfl (fun _ ht => ht) rfl rfl rfl rfl (by simp [phase]) rfl rfl rfl

/-- A task takes a step. Only tasks that were created do, and ask to sleep. -/
theorem Ordered.task_step {point : Point KernelPoint} (h : Ordered plan b) (u : PlacesKept b.sched s')
    (hc : b.sched.handler c = .none) (hregs : b.sched.regs c ≠ .hang)
    (hpoint : s'.regs = Function.update b.sched.regs c point) (hcore : ∀ d, point.core = some d → d = c)
    (hirq : ∀ d source r, s'.sleepIrq d source = some r →
      b.sched.sleepIrq d source = some r ∨ (b.sched.regs c).core = some d) :
    Ordered plan { b with sched := s' } := by
  have hmade : b.Made plan (b.sched.currentTask c) :=
    (h.current c (by simp [hc])).resolve_right hregs
  constructor
  case started => exact fun d hd => h.started d (u.handler ▸ hd)
  case queued => exact u.runningQ ▸ h.queued
  case asleep => exact u.sleepingQ ▸ h.asleep
  case next => exact u.handler ▸ h.next
  case pinned => exact fun t d ht hd => h.pinned t d ht (u.pinned t ▸ hd)
  case looking =>
    intro d pass t i count out hd e
    change b.created e (s'.tasks t).p = true
    rw [u.p]
    exact h.looking d pass t i count out (u.handler ▸ hd) e
  case moving =>
    intro d pass t n hd
    change b.created n (s'.tasks t).p = true
    rw [u.p]
    exact h.moving d pass t n (u.handler ▸ hd)
  case current =>
    intro d hd
    change b.Made plan (s'.currentTask d) ∨ s'.regs d = .hang
    rw [u.currentTask, hpoint]
    by_cases hdc : d = c
    · exact .inl (hdc ▸ hmade)
    · rw [Function.update_of_ne hdc]
      exact h.current d (u.handler ▸ hd)
  case sleeper =>
    intro d hd
    change b.Made plan (s'.currentTask d)
    rw [u.currentTask]
    rcases hd with ⟨source, hd⟩ | hd
    · obtain ⟨r, hr⟩ := Option.ne_none_iff_exists'.mp hd
      rcases hirq d source r hr with hold | hnamed
      · exact h.sleeper d (.inl ⟨source, by simp [hold]⟩)
      · exact h.named c d hnamed
    · exact h.sleeper d (.inr (u.handler ▸ hd))
  case named =>
    intro d e hd
    change b.Made plan (s'.currentTask e)
    rw [u.currentTask]
    replace hd : (Function.update b.sched.regs c point d).core = some e := hpoint ▸ hd
    by_cases hdc : d = c
    · subst hdc
      rw [Function.update_self] at hd
      exact hcore e hd ▸ hmade
    · rw [Function.update_of_ne hdc] at hd
      exact h.named d e hd
  case saved =>
    intro t d ht hd
    change b.Made plan (s'.currentTask d)
    rw [u.currentTask]
    exact h.saved t d ht (u.context t ▸ hd)

theorem ordered_step {e : Event KernelPoint} (h : Ordered plan b) (g : b.sched.Guarded)
    (hen : b.enabled plan e.core = true) (hok : wakesAfterQueues b (.run e) = true)
    (hs : step kernelCode b.sched e = some s') : Ordered plan { b with sched := s' } := by
  cases e with
  | timer =>
    obtain ⟨hc, rfl⟩ := takeTimer_spec hs
    exact h.go_on hen rfl rfl (fun _ ht => ht) rfl rfl rfl rfl (by simp [Event.core, hc]) rfl rfl rfl
  | interrupt c irq source =>
    cases irq with
    | reschedule =>
      obtain ⟨hc, -, rfl⟩ := takeInterrupt_reschedule hs
      exact h.go_on hen rfl rfl (fun _ ht => ht) rfl rfl rfl rfl (by simp [Event.core, hc]) rfl rfl rfl
    | sleep =>
      obtain ⟨hc, r, hr, rfl⟩ := takeInterrupt_sleep hs
      exact h.go hen (fun _ => ⟨rfl, rfl⟩) (fun _ => .inl rfl) h.queued h.asleep rfl
        (fun d from_ r' hd => of_cleared (Option.some_ne_none r') hd) rfl rfl
        (by simp [Event.core, hc]) (by simp [Handler.next])
        (fun _ => h.sleeper c (.inl ⟨source, by simp [hr]⟩)) (by rintro _ _ _ _ _ ⟨⟩)
        (by rintro _ _ _ ⟨⟩)
    | wakeUpAll =>
      obtain ⟨hc, -, rfl⟩ := takeInterrupt_wakeUpAll hs
      exact h.go_on hen rfl rfl (fun _ ht => ht) rfl rfl rfl rfl (by simp [Event.core, hc]) rfl rfl rfl
  | handle c reading => exact ordered_handlerStep h hen hok (handlerStep_of_handle g hs)
  | call c call ret counter =>
    obtain ⟨hc, ⟨p, hp, -⟩, rfl⟩ := step_call hs
    exact h.task_step placesKept_setRegs hc (by simp [hp]) rfl (by simp [call.begin_core])
      fun _ _ _ hr => .inl hr
  | resume c exclusive counter =>
    obtain ⟨hc, hr⟩ := step_resume hs
    obtain ⟨hregs, point, hpoint, -, hcore⟩ := hr.point
    refine h.task_step hr.placesKept hc hregs hpoint hcore fun d source r hd => ?_
    obtain hold | ⟨-, -, send, hsend, -⟩ := hr.sleepIrq hd
    · exact .inl hold
    · exact .inr (by rw [hsend]; rfl)

/-- The initialisation of a core creates a queue or a task and touches no task that was created. -/
theorem Ordered.grow (h : Ordered plan b) (g : b.sched.Guarded)
    (hle : ∀ d, b.progress d ≤ b'.progress d)
    (htasks : ∀ t, b.Made plan t → (b'.sched.tasks t).p = (b.sched.tasks t).p)
    (hpinned : ∀ t d, b'.Made plan t → (b'.sched.tasks t).pinned = some d → 21 ≤ b'.progress d)
    (hcontext : ∀ t d, b'.Made plan t → (b'.sched.tasks t).context.core = some d →
      b.Made plan t ∧ (b.sched.tasks t).context.core = some d)
    (hqueued : ∀ c p, ∀ t ∈ (b'.sched.runningQ c p).array, b'.Made plan t)
    (hasleep : b'.sched.sleepingQ = b.sched.sleepingQ) (hhandler : b'.sched.handler = b.sched.handler)
    (hcurrent : b'.sched.currentTask = b.sched.currentTask) (hregs : b'.sched.regs = b.sched.regs)
    (hirq : b'.sched.sleepIrq = b.sched.sleepIrq) : Ordered plan b' where
  started d hd := enabled_mono hle (h.started d (hhandler ▸ hd))
  queued := hqueued
  asleep t ht := Made.mono hle (h.asleep t (hasleep ▸ ht))
  next d t hd := Made.mono hle (h.next d t (hhandler ▸ hd))
  current d hd := by
    rw [hhandler] at hd
    rw [hcurrent, hregs]
    exact (h.current d hd).imp_left (Made.mono hle)
  sleeper d hd := by
    rw [hirq, hhandler] at hd
    rw [hcurrent]
    exact Made.mono hle (h.sleeper d hd)
  named d e hd := by
    rw [hregs] at hd
    rw [hcurrent]
    exact Made.mono hle (h.named d e hd)
  saved t d ht hd := by
    obtain ⟨hmade, hd⟩ := hcontext t d ht hd
    rw [hcurrent]
    exact Made.mono hle (h.saved t d hmade hd)
  pinned := hpinned
  looking d pass t i count out hd e := by
    rw [hhandler] at hd
    have ht := h.asleep t (g.waking d t (by rw [hd]; rfl))
    rw [htasks t ht]
    exact created_mono hle (h.looking d pass t i count out hd e)
  moving d pass t n hd := by
    rw [hhandler] at hd
    have ht := h.asleep t (g.waking d t (by rw [hd]; rfl))
    rw [htasks t ht]
    exact created_mono hle (h.moving d pass t n hd)

theorem ordered_init {sorted : Bool} {pid : Nat} {lock : Option LockId} (hplan : plan.WellFormed)
    (h : Ordered plan b) (g : b.sched.Guarded) (hs : b.init plan c sorted pid lock = some b') :
    Ordered plan b' := by
  obtain ⟨hprogress, hcases⟩ := init_cases hs
  have hle := progress_mono hprogress
  have hold : ∀ t d, b.Made plan t → (b.sched.tasks t).pinned = some d → 21 ≤ b'.progress d :=
    fun t d ht hd => le_trans (h.pinned t d ht hd) (hle d)
  obtain ⟨hk, hsched⟩ | ⟨t, task, hk, hnext, htask, hsched⟩ | ⟨hk, hsched⟩ := hcases
  · have hmade : ∀ u, b'.Made plan u → b.Made plan u := fun u hu =>
      (made_init hprogress hu).resolve_right fun hnew => absurd hnew.1 (by omega)
    refine h.grow g hle (fun _ _ => by rw [hsched]; rfl) (fun u d hu hd => ?_)
      (fun u d hu hd => ⟨hmade u hu, by rw [hsched] at hd; exact hd⟩) (fun d p u hu => ?_)
      (by rw [hsched]; rfl) (by rw [hsched]; rfl) (by rw [hsched]; rfl) (by rw [hsched]; rfl)
      (by rw [hsched]; rfl)
    · rw [hsched] at hd
      exact hold u d (hmade u hu) hd
    · rw [hsched] at hu
      rcases mem_setRunningQ hu with hu | ⟨-, -, hu⟩
      · exact Made.mono hle (h.queued d p u hu)
      · simp [ArrayList.new] at hu
  · have hnot := not_made_next hplan hnext
    have hmade : b'.Made plan t := by
      refine ⟨c, b.progress c - 21, hnext, ?_⟩
      rw [hprogress, Function.update_self]
      omega
    have hother : ∀ u, u ≠ t → b'.sched.tasks u = b.sched.tasks u := fun u hu => by
      simp [hsched, State.setRunningQ, State.updateTask, hu]
    have hself : b'.sched.tasks t = task := by simp [hsched, State.setRunningQ, State.updateTask]
    have hbefore : ∀ u, u ≠ t → b'.Made plan u → b.Made plan u := fun u hut hu =>
      (made_init hprogress hu).resolve_right fun hnew => hut (Option.some.inj (hnew.2.symm.trans hnext))
    refine h.grow g hle (fun u hu => ?_) (fun u d hu hd => ?_) (fun u d hu hd => ?_)
      (fun d p u hu => ?_)
      (by rw [hsched]; rfl) (by rw [hsched]; rfl) (by rw [hsched]; rfl) (by rw [hsched]; rfl)
      (by rw [hsched]; rfl)
    · rw [hother u fun heq => hnot (heq ▸ hu)]
    · by_cases hut : u = t
      · rw [hut, hself, htask] at hd
        rw [Body.create_pinned hd, hprogress, Function.update_self]
        omega
      · rw [hother u hut] at hd
        exact hold u d (hbefore u hut hu) hd
    · by_cases hut : u = t
      · rw [hut, hself, htask, Body.create_core] at hd
        cases hd
      · rw [hother u hut] at hd
        exact ⟨hbefore u hut hu, hd⟩
    · rw [hsched] at hu
      rcases mem_setRunningQ hu with hu | ⟨-, -, hu⟩
      · exact Made.mono hle (h.queued d p u hu)
      · rcases List.mem_append.mp hu with hu | hu
        · exact Made.mono hle (h.queued c _ u hu)
        · exact List.mem_singleton.mp hu ▸ hmade
  · have hmade : ∀ u, b'.Made plan u → b.Made plan u := fun u hu =>
      (made_init hprogress hu).resolve_right fun hnew => by
        have hlt := (List.getElem?_eq_some_iff.mp hnew.2).1
        omega
    refine h.grow g hle (fun _ _ => by rw [hsched])
      (fun u d hu hd => hold u d (hmade u hu) (hsched ▸ hd))
      (fun u d hu hd => ⟨hmade u hu, hsched ▸ hd⟩) (fun d p u hu => Made.mono hle
        (h.queued d p u (hsched ▸ hu))) (by rw [hsched]) (by rw [hsched])
      (by rw [hsched]) (by rw [hsched]) (by rw [hsched])

/-! ### Runs -/

theorem guarded_init {sorted : Bool} {pid : Nat} {lock : Option LockId} (g : b.sched.Guarded)
    (hs : b.init plan c sorted pid lock = some b') : b'.sched.Guarded := by
  obtain ⟨-, ⟨_, hsched⟩ | ⟨_, _, -, -, -, hsched⟩ | ⟨-, hsched⟩⟩ := init_cases hs
  · exact hsched ▸ g
  · exact hsched ▸ g
  · exact hsched ▸ g

/-- A step is one of the initialisation, or one of the scheduler on a core that is up. -/
theorem bootStep_run {e : Event KernelPoint} (hs : bootStep plan b (.run e) = some b') :
    b.enabled plan e.core = true ∧
      (∀ used ∈ e.usedQueues b.sched, b.created used.1 used.2 = true) ∧
      ∃ s', step kernelCode b.sched e = some s' ∧ b' = { b with sched := s' } := by
  simp only [bootStep] at hs
  split at hs
  case isTrue hup =>
    obtain ⟨s', hs', rfl⟩ := Option.map_eq_some_iff.mp hs
    exact ⟨hup.1, hup.2, s', hs', rfl⟩
  case isFalse => cases hs

theorem guarded_bootStep {e : BootEvent} (g : b.sched.Guarded) (hs : bootStep plan b e = some b') :
    b'.sched.Guarded := by
  cases e with
  | init c sorted pid lock => exact guarded_init g hs
  | run e =>
    obtain ⟨-, -, s', hs', rfl⟩ := bootStep_run hs
    exact guarded_step g hs'

theorem Starting.guarded (h : Starting plan b) : b.sched.Guarded where
  inside_iff c := by simp [h.handler, h.sleepingQLock, Handler.inSleepingQ]
  searchable c hc := by simp [h.sleepingQLock] at hc
  waking c t ht := by simp [h.handler, Handler.waking] at ht

theorem Starting.made_iff (h : Starting plan b) : b.Made plan t ↔ t ∈ plan.tasks 0 := by
  constructor
  · rintro ⟨c, i, hi, hlt⟩
    by_cases hc : c = 0
    · exact hc ▸ List.mem_of_getElem? hi
    · rw [h.others c hc] at hlt
      exact absurd hlt (Nat.not_lt_zero _)
  · intro ht
    obtain ⟨i, hi, hit⟩ := List.mem_iff_getElem.mp ht
    refine ⟨0, i, List.getElem?_eq_some_iff.mpr ⟨hi, hit⟩, ?_⟩
    rw [h.first]
    omega

theorem Starting.mem_of_mem_runningQ {p : Priority} (h : Starting plan b)
    (ht : t ∈ (b.sched.runningQ c p).array) : c = 0 ∧ t ∈ plan.tasks 0 ∧ (b.sched.tasks t).p = p := by
  by_cases hc : c = 0
  · subst hc
    rw [← List.count_pos_iff, h.queued] at ht
    split at ht
    case isTrue hmem => exact ⟨rfl, hmem⟩
    case isFalse => exact absurd ht (lt_irrefl _)
  · rw [h.empty c hc] at ht
    cases ht

theorem Starting.ordered (h : Starting plan b) : Ordered plan b where
  started c hc := absurd (h.handler c) hc
  queued c p t ht := h.made_iff.mpr (h.mem_of_mem_runningQ ht).2.1
  asleep t ht := by simp [h.sleepingQ] at ht
  next c t ht := by simp [h.handler, Handler.next] at ht
  current c _ := .inr (h.hang c)
  sleeper c hc := by simp [h.sleepIrq, h.handler, Handler.requester] at hc
  named c d hd := by simp [h.hang, Point.core] at hd
  saved t d ht hd := by
    obtain ⟨pid, lock, heq⟩ := h.create t (h.made_iff.mp ht)
    rw [heq, Body.create_core] at hd
    cases hd
  pinned t d ht hd := by
    obtain ⟨pid, lock, heq⟩ := h.create t (h.made_iff.mp ht)
    rw [heq] at hd
    rw [Body.create_pinned hd, h.first]
    omega
  looking c pass t i count out hc := by simp [h.handler] at hc
  moving c pass t n hc := by simp [h.handler] at hc

/-- The core of a handler has created its queues, and the tasks that it moves go where there is a queue
    for them. -/
theorem Ordered.usesCreated (h : Ordered plan b) : b.UsesCreated := by
  intro c used hused
  have hup : b.sched.handler c ≠ .none → ∀ p, b.created c p = true := fun hc _ =>
    created_of_enabled (h.started c hc)
  unfold State.usedQueues at hused
  cases hc : b.sched.handler c with
  | sleepRemove r =>
    simp only [hc, List.mem_singleton] at hused
    exact hused ▸ hup (by simp [hc]) _
  | calcCore pass t i count out =>
    simp only [hc] at hused
    split at hused
    case isTrue => exact List.mem_singleton.mp hused ▸ h.looking c pass t i count out hc _
    case isFalse => cases hused
  | move pass t n =>
    simp only [hc, List.mem_singleton] at hused
    exact hused ▸ h.moving c pass t n hc
  | pick o =>
    simp only [hc, List.mem_map] at hused
    obtain ⟨p, -, rfl⟩ := hused
    exact hup (by simp [hc]) p
  | _ => simp [hc] at hused

/-- In runs in which every core has created its queues of the priority of a task that is not pinned when
    a wake-up pass finds it ready, no handler uses a queue that does not exist. -/
theorem usesCreated_of_run {b₀ : BootState} (hstart : Starting plan b₀)
    (hrun : RunWhere (bootStep plan) wakesAfterQueues b₀ b) : b.UsesCreated := by
  have hguard : ∀ b, RunWhere (bootStep plan) wakesAfterQueues b₀ b → b.sched.Guarded := fun b hb =>
    hb.invariant (p := fun b => b.sched.Guarded) hstart.guarded fun _ _ _ g _ hs =>
      guarded_bootStep g hs
  refine (hrun.invariant_of (p := fun b => b.sched.Guarded) (q := Ordered plan) hguard hstart.ordered
    fun b e b' g h hok hs => ?_).usesCreated
  cases e with
  | init c sorted pid lock => exact ordered_init hstart.wellFormed h g hs
  | run e =>
    obtain ⟨hen, -, s', hs', rfl⟩ := bootStep_run hs
    exact ordered_step h g hen hok hs'

/-! ### The kernel -/

theorem mem_kernelPlan {n : Nat} : t ∈ (kernelPlan n).tasks c ↔ taskHome n t = some c := by
  simp only [kernelPlan, List.mem_map, List.mem_range]
  constructor
  · rintro ⟨i, hi, rfl⟩
    exact taskHome_taskOf hi
  · intro ht
    obtain ⟨i, hi, rfl⟩ := eq_taskOf ht
    exact ⟨i, hi, rfl⟩

theorem wellFormed_kernelPlan (n : Nat) : (kernelPlan n).WellFormed where
  nodup c := List.nodup_range.map fun i j h => Nat.add_left_cancel h
  disjoint c d t hc hd :=
    Option.some.inj ((mem_kernelPlan.mp hc).symm.trans (mem_kernelPlan.mp hd))
  idle c := by
    obtain ⟨t, ht, hbody⟩ := (kernelBooted_kernelBoot n).idle c
    exact ⟨t, mem_kernelPlan.mpr ht, hbody⟩

theorem starting_kernelStart (n : Nat) : Starting (kernelPlan n) (kernelStart n) where
  wellFormed := wellFormed_kernelPlan n
  first := by simp [kernelStart, kernelPlan]
  others c hc := by simp [kernelStart, hc]
  queued p t := by
    simp only [mem_kernelPlan]
    exact (kernelBooted_kernelBoot n).queued 0 p t
  create t ht := (kernelBooted_kernelBoot n).created t 0 (mem_kernelPlan.mp ht)
  empty c hc p := by simp [kernelStart, hc, ArrayList.new]
  sleepingQ := rfl
  sleepingQLock := rfl
  handler _ := rfl
  sleepIrq _ _ := rfl
  boot c d h := by
    have hnone := (kernelBooted_kernelBoot n).boot c
    have hsome := mem_kernelPlan.mp h
    simp [show (kernelStart n).sched.currentTask c = (kernelBoot n).currentTask c from rfl, hnone]
      at hsome
  hang _ := rfl

/-- Core 0 enables its interrupts, and its screen task goes to sleep for 16 milliseconds. -/
def firstSleep : List BootEvent :=
  .init 0 false 0 none :: (firstTick ++ screenTurn 0 0 ++ sleepNow 0 0).map .run

theorem usesCreated_of_wakeUp :
    ∃ b, RunWhere (bootStep (kernelPlan threadN)) wakesAfterQueues (kernelStart threadN) b ∧
      b.sched.handler 0 = .move .tick (taskOf threadN 0 101) 0 ∧ b.progress 1 = 2 ∧ b.UsesCreated := by
  obtain ⟨b, hrun, hb⟩ :
      ∃ b, RunWhere (bootStep (kernelPlan threadN)) wakesAfterQueues (kernelStart threadN) b ∧
        decide (b.sched.handler 0 = .move .tick (taskOf threadN 0 101) 0 ∧ b.progress 1 = 2) = true :=
    RunWhere.exists_of_replay
      (firstSleep ++ [.init 1 false 0 none, .init 1 true 0 none, .run .timer] ++
        (List.replicate 2 (.handle 0 16000)).map .run) (by decide +kernel)
  obtain ⟨hmove, hprogress⟩ := of_decide_eq_true hb
  exact ⟨b, hrun, hmove, hprogress, usesCreated_of_run (starting_kernelStart threadN) hrun⟩

/-- In the kernel `calcNextCore` does go through a null entry: a kernel task of core 0 has slept for two
    seconds when core 1 has created no queue yet. -/
theorem usesCreated_fails :
    ¬ ∀ b, RunWhere (bootStep (kernelPlan threadN)) (fun _ _ => true) (kernelStart threadN) b →
      b.UsesCreated := by
  intro hall
  obtain ⟨b, hrun, hb⟩ :
      ∃ b, RunWhere (bootStep (kernelPlan threadN)) (fun _ _ => true) (kernelStart threadN) b ∧
        decide ((1, 19) ∈ b.sched.usedQueues 0 ∧ b.created 1 19 = false) = true :=
    RunWhere.exists_of_replay
      (firstSleep ++ (callSleep 0 2000 0 KernelPoint.paintCircle ++ sleepNow 0 0).map .run ++
        [.run .timer] ++
        (List.replicate 3 (.handle 0 2000000)).map .run) (by decide +kernel)
  obtain ⟨hused, hnot⟩ := of_decide_eq_true hb
  exact absurd (hall b hrun 0 _ hused) (by simp [hnot])

end Rpi4Kernel.Sched
