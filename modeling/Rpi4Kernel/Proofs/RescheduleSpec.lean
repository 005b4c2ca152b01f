/-
Module: Rpi4Kernel.Proofs.RescheduleSpec
Layer: Proofs
Purpose: `reschedule` always has a task to pick. From the moment at which a core has enabled its
  interrupts its idle task stays in its last run queue, while the other cores still come up and after
  it, in every run of the kernel's own tasks in which sleep interrupts are requested for the core of
  their task and taken with preemption enabled.
Trusted boundary: none (fully proved)
Main exports: Plan.home, Settled, settled_run, picks_of_run
-/
import Rpi4Kernel.Proofs.BootOrderSpec
import Rpi4Kernel.Proofs.IdleTasksSpec

namespace Rpi4Kernel.Sched

open Rpi4Kernel.Stdlib Rpi4Kernel.Theory

variable {plan : Plan} {b b' : BootState} {s s' : State KernelPoint} {c d : Core} {t u : TaskId}

/-- The core that creates a task. -/
def Plan.home (plan : Plan) (t : TaskId) : Option Core :=
  (List.finRange 4).find? fun c => t ∈ plan.tasks c

theorem Plan.WellFormed.home_eq (h : plan.WellFormed) (ht : t ∈ plan.tasks c) :
    plan.home t = some c := by
  have hsome : (plan.home t).isSome := by
    rw [Plan.home, List.find?_isSome]
    exact ⟨c, List.mem_finRange c, by simpa using ht⟩
  obtain ⟨d, hd⟩ := Option.isSome_iff_exists.mp hsome
  have hmem : t ∈ plan.tasks d := by simpa using List.find?_some hd
  rw [hd, h.disjoint d c t hmem ht]

/-! ### A task is created -/

variable {home : TaskId → Option Core} {body : TaskId → Body} {place : TaskId → Place}

/-- The system with a new task in a queue of core `c`. -/
def State.create (s : State KernelPoint) (c : Core) (t : TaskId) (task : Task KernelPoint) :
    State KernelPoint :=
  (s.updateTask t fun _ => task).setRunningQ c task.p ((s.runningQ c task.p).add t)

@[simp] theorem create_tasks_self {task : Task KernelPoint} : (s.create c t task).tasks t = task := by
  simp [State.create, State.setRunningQ, State.updateTask]

@[simp] theorem create_currentTask {task : Task KernelPoint} :
    (s.create c t task).currentTask = s.currentTask := rfl

theorem create_tasks_ne {task : Task KernelPoint} (hu : u ≠ t) :
    (s.create c t task).tasks u = s.tasks u := by
  simp [State.create, State.setRunningQ, State.updateTask, hu]

theorem Placed.create {task : Task KernelPoint} (h : Placed s place) (ht : place t = .absent)
    (hcurrent : ∀ d, s.currentTask d ≠ t) (hcore : task.context.core = none) :
    Placed (s.create c t task) (Function.update place t (.queued c)) := by
  have hne : ∀ u, place u ≠ .absent → u ≠ t := fun u hu heq => hu (heq ▸ ht)
  have hold : ∀ u, u ≠ t → Function.update place t (.queued c) u = place u :=
    fun u hu => Function.update_of_ne hu ..
  constructor
  case queued =>
    intro d p u
    refine (setRunningQ_count (s.updateTask t fun _ => task) c d task.p p _ u).trans ?_
    rw [count_add]
    change (if _ then (s.runningQ c task.p).array.count u + _ else (s.runningQ d p).array.count u) = _
    rw [h.queued, h.queued]
    by_cases hu : u = t
    · subst hu
      rw [create_tasks_self, Function.update_self]
      simp only [ht, reduceCtorEq, false_and, if_false, Nat.zero_add, if_true, Place.queued.injEq]
      exact if_congr (by rw [eq_comm (a := d), eq_comm (a := p)]) rfl rfl
    · rw [create_tasks_ne hu, hold u hu, if_neg hu, Nat.add_zero]
      split
      case isTrue heq => rw [heq.1, heq.2]
      case isFalse => rfl
  case asleep =>
    intro u
    refine (h.asleep u).trans ?_
    by_cases hu : u = t
    · subst hu
      simp [ht]
    · rw [hold u hu]
  case moving =>
    intro d u
    by_cases hu : u = t
    · subst hu
      simpa using fun _ _ => hcurrent d
    · rw [hold u hu]
      exact h.moving d u
  case current =>
    intro d hd
    rw [create_currentTask, hold _ (hcurrent d)]
    exact h.current d hd
  case next =>
    intro d u hd
    have hu := h.next d u hd
    rwa [hold u (hne u (by simp [hu]))]
  case sleepIrq =>
    intro d source hr
    rw [create_currentTask, hold _ (hcurrent d)]
    exact h.sleepIrq d source hr
  case named =>
    intro d e hd
    rw [create_currentTask, hold _ (hcurrent e)]
    exact h.named d e hd
  case saved =>
    intro u d hu hd
    rw [create_currentTask, hold _ (hcurrent d)]
    by_cases hut : u = t
    · subst hut
      rw [create_tasks_self, hcore] at hd
      cases hd
    · rw [create_tasks_ne hut] at hd
      exact h.saved u d (hold u hut ▸ hu) hd
  case removing =>
    intro d r hr
    exact (hold _ (hcurrent d)).trans (h.removing d r hr)
  case hang =>
    intro d hd
    exact h.hang d ((hold _ (hcurrent d)).symm.trans hd)

theorem Matching.create {task : Task KernelPoint} (h : Matching s) (p : Placed s place)
    (g : s.Guarded) (ht : place t = .absent) (hpinned : ∀ d, task.pinned = some d → d = c) :
    Matching (s.create c t task) := by
  have hne : ∀ u, place u ≠ .absent → u ≠ t := fun u hu heq => hu (heq ▸ ht)
  constructor
  case matched =>
    intro d q u hu
    by_cases hut : u = t
    · subst hut
      rw [create_tasks_self]
      rcases mem_setRunningQ hu with hold | ⟨rfl, rfl, -⟩
      · exact absurd (p.of_mem_runningQ hold).1 (by simp [ht])
      · exact ⟨rfl, hpinned⟩
    · rw [create_tasks_ne hut]
      rcases mem_setRunningQ hu with hold | ⟨rfl, rfl, hnew⟩
      · exact h.matched d q u hold
      · rcases List.mem_append.mp hnew with hold | hnew
        · exact h.matched d _ u hold
        · exact absurd (List.mem_singleton.mp hnew) hut
  case looking =>
    intro d pass u i count out hd
    have hu : place u = .asleep := p.waking_asleep g (c := d) (by
      rw [show s.handler d = .calcCore pass u i count out from hd]; rfl)
    rw [create_tasks_ne (hne u (by simp [hu]))]
    exact h.looking d pass u i count out hd
  case moving =>
    intro d pass u n hd
    have hu : place u = .asleep := p.waking_asleep g (c := d) (by
      rw [show s.handler d = .move pass u n from hd]; rfl)
    rw [create_tasks_ne (hne u (by simp [hu]))]
    exact h.moving d pass u n hd

theorem KernelTasks.create {pid : Nat} {lock : Option LockId} (h : KernelTasks body s place)
    (hcurrent : ∀ d, s.currentTask d ≠ t)
    (hnext : ∀ d n, (s.handler d).next = some n → n ≠ t) :
    KernelTasks body (s.create c t ((body t).create c pid lock))
      (Function.update place t (.queued c)) := by
  have hold : ∀ u, u ≠ t → Function.update place t (.queued c) u = place u :=
    fun u hu => Function.update_of_ne hu ..
  constructor
  case context =>
    intro u hu
    by_cases hut : u = t
    · subst hut
      rw [create_tasks_self]
      exact stands_create c pid lock
    · rw [create_tasks_ne hut]
      exact h.context u (hold u hut ▸ hu)
  case regs =>
    intro d hd hno
    rw [create_currentTask, create_tasks_ne (hcurrent d)]
    exact h.regs d (fun habsent => hd ((hold _ (hcurrent d)).trans habsent)) hno
  case loaded =>
    intro d o n hd
    rw [create_tasks_ne (hnext d n (by rw [show s.handler d = .setCurrent o n from hd]; rfl))]
    exact h.loaded d o n hd
  case screen =>
    intro u hu hbody
    by_cases hut : u = t
    · subst hut
      rw [create_tasks_self, hbody]
      simp [Body.create]
    · rw [create_tasks_ne hut]
      exact h.screen u (hold u hut ▸ hu) hbody
  case here =>
    intro d e hd he
    rw [create_currentTask, create_tasks_ne (hcurrent d)] at he
    exact h.here d e (fun habsent => hd ((hold _ (hcurrent d)).trans habsent)) he
  case preemptable =>
    intro d hd
    have hpre := h.preemptable d hd
    rw [State.isPreamptable] at hpre ⊢
    rwa [create_currentTask, create_tasks_ne (hcurrent d)]

theorem OwnRequests.create {task : Task KernelPoint} (h : OwnRequests s place) (ht : place t = .absent)
    (hcurrent : ∀ d, s.currentTask d ≠ t) :
    OwnRequests (s.create c t task) (Function.update place t (.queued c)) where
  source := h.source
  requester d source r hr := by
    have hplace := h.requester d source r hr
    rwa [Function.update_of_ne fun heq => by simp [← heq, hplace] at ht]
  current d source r hr := by
    rw [create_currentTask, Function.update_of_ne (hcurrent d)]
    exact h.current d source r hr
  awake := h.awake

theorem Idles.create {pid : Nat} {lock : Option LockId} (h : Idles home body s place)
    (hhome : home t = some c) :
    Idles home body (s.create c t ((body t).create c pid lock))
      (Function.update place t (.queued c)) := by
  have hold : ∀ u, u ≠ t → Function.update place t (.queued c) u = place u :=
    fun u hu => Function.update_of_ne hu ..
  constructor
  case priority =>
    intro u hu
    by_cases hut : u = t
    · subst hut
      rw [create_tasks_self]
      exact Body.create_p _ c pid lock
    · rw [create_tasks_ne hut]
      exact h.priority u (hold u hut ▸ hu)
  case idle =>
    intro u hu hbody
    by_cases hut : u = t
    · subst hut
      exact ⟨c, hhome, Function.update_self ..⟩
    · rw [hold u hut] at hu ⊢
      exact h.idle u hu hbody
  case requester => exact h.requester
  case current => exact h.current
  case next => exact h.next
  case removing => exact h.removing

/-! ### Steps of the scheduler -/

/-- A step changes a run queue only if it uses it. -/
theorem runningQ_step {e : Event KernelPoint} {p : Priority} (g : s.Guarded)
    (hs : step kernelCode s e = some s') (hused : (d, p) ∉ e.usedQueues s) :
    s'.runningQ d p = s.runningQ d p := by
  have hother : ∀ (s₁ : State KernelPoint) {c : Core} {q : Priority} {l : ArrayList TaskId},
      (d, p) ≠ (c, q) → (s₁.setRunningQ c q l).runningQ d p = s₁.runningQ d p := by
    intro s₁ c q l hne
    by_cases hd : d = c
    · subst hd
      have hq : p ≠ q := fun heq => hne (heq ▸ rfl)
      simp [State.setRunningQ, hq]
    · simp [State.setRunningQ, hd]
  cases e with
  | timer =>
    obtain ⟨-, rfl⟩ := takeTimer_spec hs
    rfl
  | interrupt c irq source =>
    obtain ⟨-, _, _, _, _, -, rfl⟩ := takeInterrupt_frame hs
    rfl
  | handle c reading =>
    cases handlerStep_of_handle g hs with
    | removed q phase _ =>
      refine hother s fun heq => hused ?_
      simp [Event.usedQueues, State.usedQueues, phase, heq]
    | @moved pass t n q phase _ =>
      refine hother { s with sleepingQ := q } fun heq => hused ?_
      simp [Event.usedQueues, State.usedQueues, phase, heq]
    | _ => rfl
  | call c call ret counter =>
    obtain ⟨-, -, rfl⟩ := step_call hs
    rfl
  | resume c exclusive counter => rw [(step_resume hs).2.placesKept.runningQ]

/-! ### The invariant -/

/-- The tasks that were created are placed and run the kernel's bodies; the others wait for their
    creation, and the queues that were not created are empty. -/
structure Settled (plan : Plan) (b : BootState) (place : TaskId → Place) : Prop where
  placed : Placed b.sched place
  own : OwnRequests b.sched place
  tasks : KernelTasks plan.body b.sched place
  idles : Idles plan.home plan.body b.sched place
  matching : Matching b.sched
  guarded : b.sched.Guarded
  made : ∀ t, place t ≠ .absent ↔ b.Made plan t
  boot : ∀ c, place (b.sched.currentTask c) = .absent → ∀ d, b.sched.currentTask c ∉ plan.tasks d
  empty : ∀ c p, b.created c p = false → (b.sched.runningQ c p).array = []

theorem settled_run {e : Event KernelPoint} (h : Settled plan b place)
    (hok : takenPreemptible b.sched e = true) (hown : requestsOwnCore b.sched e = true)
    (hs : step kernelCode b.sched e = some s')
    (hused : ∀ used ∈ e.usedQueues b.sched, b.created used.1 used.2 = true) :
    Settled plan { b with sched := s' } (placeAfter b.sched place e) where
  placed := placed_step h.placed h.guarded h.tasks.preemptible hs
  own := ownRequests_step h.own h.placed h.guarded hown hs
  idles := idles_step h.idles h.tasks h.placed h.own h.guarded hown hs
  tasks := kernelTasks_step h.tasks h.placed h.matching h.guarded hok hs
  matching := matching_step h.matching h.guarded hs
  guarded := guarded_step h.guarded hs
  made t := (not_congr (h.placed.placeAfter_eq_absent h.guarded t)).trans (h.made t)
  boot c hc d := by
    have hold := (h.placed.placeAfter_eq_absent h.guarded _).mp hc
    rcases currentTask_step h.guarded hs c with hsame | ⟨o, hset⟩
    · rw [hsame] at hold
      exact fun hmem => h.boot c hold d (hsame ▸ hmem)
    · rw [h.placed.next c _ (by rw [hset]; rfl)] at hold
      cases hold
  empty c p hp := by
    refine (congrArg ArrayList.array (runningQ_step h.guarded hs fun hmem => ?_)).trans (h.empty c p hp)
    exact Bool.false_ne_true (hp.symm.trans (hused _ hmem))

/-- A core creates a queue, which was empty. -/
theorem Settled.newQueue {sorted : Bool} (h : Settled plan b place) (hk : b.progress c < 21)
    (hprogress : b'.progress = Function.update b.progress c (b.progress c + 1))
    (hsched : b'.sched = b.sched.setRunningQ c ⟨b.progress c, hk⟩ (ArrayList.new sorted)) :
    Settled plan b' place := by
  have hempty : (b.sched.runningQ c ⟨b.progress c, hk⟩).array = [] :=
    h.empty c _ (by simp [BootState.created])
  have harray : ∀ d p, (b'.sched.runningQ d p).array = (b.sched.runningQ d p).array := by
    intro d p
    rw [hsched]
    by_cases hd : d = c
    · subst hd
      by_cases hp : p = ⟨b.progress d, hk⟩
      · subst hp
        simp [State.setRunningQ, ArrayList.new, hempty]
      · simp [State.setRunningQ, hp]
    · simp [State.setRunningQ, hd]
  have hplaced := h.placed
  have hown := h.own
  have htasks := h.tasks
  have hidles := h.idles
  have hmatching := h.matching
  have hmade : ∀ t, b'.Made plan t ↔ b.Made plan t := fun t =>
    ⟨fun ht => (made_init hprogress ht).resolve_right fun hnew => absurd hnew.1 (by omega),
      Made.mono (progress_mono hprogress)⟩
  obtain ⟨s', progress'⟩ := b'
  dsimp only at hsched harray
  subst hsched
  exact
    { placed := { hplaced with queued := fun d p t => (by rw [harray]; exact hplaced.queued d p t) }
      own := { hown with }
      tasks := { htasks with }
      idles := { hidles with }
      matching := { hmatching with
        matched := fun d p t ht => hmatching.matched d p t (harray d p ▸ ht) }
      guarded := h.guarded
      made := fun t => (h.made t).trans (hmade t).symm
      boot := h.boot
      empty := fun d p hp => (harray d p).trans (h.empty d p (by
        by_contra hcreated
        rw [created_mono (progress_mono hprogress) (by simpa using hcreated)] at hp
        cases hp)) }

/-- A core creates a task and queues it. -/
theorem Settled.newTask {task : Task KernelPoint} {pid : Nat} {lock : Option LockId}
    (hplan : plan.WellFormed) (h : Settled plan b place) (hk : 21 ≤ b.progress c)
    (hnext : (plan.tasks c)[b.progress c - 21]? = some t)
    (htask : task = (plan.body t).create c pid lock)
    (hprogress : b'.progress = Function.update b.progress c (b.progress c + 1))
    (hsched : b'.sched = b.sched.create c t task) :
    Settled plan b' (Function.update place t (.queued c)) := by
  have hmem := List.mem_of_getElem? hnext
  have habsent : place t = .absent := by
    by_contra hne
    exact not_made_next hplan hnext ((h.made t).mp hne)
  have hcurrent : ∀ d, b.sched.currentTask d ≠ t := by
    rintro d rfl
    exact h.boot d habsent c hmem
  have hpinned : ∀ d, task.pinned = some d → d = c := fun d hd => by
    rw [htask] at hd
    exact Body.create_pinned hd
  have hmade : b'.Made plan t := by
    refine ⟨c, b.progress c - 21, hnext, ?_⟩
    rw [hprogress, Function.update_self]
    omega
  constructor
  case placed =>
    exact hsched ▸ h.placed.create habsent hcurrent (by rw [htask]; exact Body.create_core)
  case own => exact hsched ▸ h.own.create habsent hcurrent
  case tasks =>
    rw [hsched, htask]
    refine h.tasks.create hcurrent fun d n hn heq => ?_
    rw [heq] at hn
    simp [h.placed.next d t hn] at habsent
  case idles =>
    rw [hsched, htask]
    exact h.idles.create (hplan.home_eq hmem)
  case matching => exact hsched ▸ h.matching.create h.placed h.guarded habsent hpinned
  case guarded => exact hsched ▸ h.guarded
  case made =>
    intro u
    by_cases hu : u = t
    · subst hu
      simpa using hmade
    · rw [Function.update_of_ne hu, h.made u]
      refine ⟨Made.mono (progress_mono hprogress), fun hnew => ?_⟩
      refine (made_init hprogress hnew).resolve_right fun hnow => hu ?_
      exact Option.some.inj (hnow.2.symm.trans hnext)
  case boot =>
    intro d hd e
    rw [hsched, create_currentTask] at hd ⊢
    rw [Function.update_of_ne (hcurrent d)] at hd
    exact h.boot d hd e
  case empty =>
    intro d p hp
    have hdc : d ≠ c := by
      rintro rfl
      rw [created_mono (progress_mono hprogress) (created_of_le hk)] at hp
      cases hp
    have hold : b.created d p = false := by
      simpa [BootState.created, hprogress, hdc] using hp
    rw [hsched]
    simpa [State.create, State.setRunningQ, State.updateTask, hdc] using h.empty d p hold

theorem settled_init {sorted : Bool} {pid : Nat} {lock : Option LockId} (hplan : plan.WellFormed)
    (h : Settled plan b place) (hs : b.init plan c sorted pid lock = some b') :
    ∃ place', Settled plan b' place' := by
  obtain ⟨hprogress, hcases⟩ := init_cases hs
  obtain ⟨hk, hsched⟩ | ⟨t, task, hk, hnext, htask, hsched⟩ | ⟨hk, hsched⟩ := hcases
  · exact ⟨_, h.newQueue hk hprogress hsched⟩
  · exact ⟨_, h.newTask hplan hk hnext htask hprogress hsched⟩
  · refine ⟨place, ?_⟩
    have hmade : ∀ t, b'.Made plan t ↔ b.Made plan t := fun t =>
      ⟨fun ht => (made_init hprogress ht).resolve_right fun hnew => by
          have hlt := (List.getElem?_eq_some_iff.mp hnew.2).1
          omega,
        Made.mono (progress_mono hprogress)⟩
    constructor
    case placed => exact hsched ▸ h.placed
    case own => exact hsched ▸ h.own
    case tasks => exact hsched ▸ h.tasks
    case idles => exact hsched ▸ h.idles
    case matching => exact hsched ▸ h.matching
    case guarded => exact hsched ▸ h.guarded
    case made => exact fun t => (h.made t).trans (hmade t).symm
    case boot => exact hsched ▸ h.boot
    case empty =>
      intro d p hp
      rw [hsched]
      refine h.empty d p (Bool.eq_false_iff.mpr fun hcreated => ?_)
      exact Bool.false_ne_true (hp.symm.trans (created_mono (progress_mono hprogress) hcreated))

/-! ### Runs -/

/-- Where the tasks are when the cores start. -/
def startPlace (plan : Plan) (t : TaskId) : Place :=
  if t ∈ plan.tasks 0 then .queued 0 else .absent

theorem settled_of_starting (h : Starting plan b) : Settled plan b (startPlace plan) := by
  have hplace : ∀ t, startPlace plan t ≠ .absent → t ∈ plan.tasks 0 ∧ startPlace plan t =
      .queued 0 := by
    intro t ht
    unfold startPlace at ht ⊢
    split
    case isTrue hmem => exact ⟨hmem, rfl⟩
    case isFalse hmem => simp [hmem] at ht
  have hqueued : ∀ t c, startPlace plan t = .queued c ↔ t ∈ plan.tasks 0 ∧ c = 0 := by
    intro t c
    unfold startPlace
    split <;> simp_all [eq_comm]
  have hne : ∀ t, startPlace plan t ≠ .asleep ∧ ∀ c, startPlace plan t ≠ .moving c := by
    intro t
    unfold startPlace
    split <;> simp
  have hcurrent : ∀ c, startPlace plan (b.sched.currentTask c) = .absent := fun c =>
    if_neg (h.boot c 0)
  constructor
  case guarded => exact h.guarded
  case made =>
    intro t
    rw [h.made_iff]
    unfold startPlace
    split <;> simp_all
  case boot => exact fun c _ d => h.boot c d
  case empty =>
    intro c p hp
    by_cases hc : c = 0
    · subst hc
      rw [created_of_le (by rw [h.first]; omega)] at hp
      cases hp
    · exact h.empty c hc p
  case placed =>
    constructor
    case queued =>
      intro c p t
      by_cases hc : c = 0
      · subst hc
        simp only [h.queued, hqueued, and_true]
      · simp [h.empty c hc, hqueued, hc]
    case asleep => exact fun t => by simp [h.sleepingQ, (hne t).1]
    case moving => exact fun c t => by simp [h.handler, (hne t).2]
    case current => exact fun c _ => .inr (hcurrent c)
    case next => exact fun c t ht => by simp [h.handler, Handler.next] at ht
    case sleepIrq => exact fun c source hr => by simp [h.sleepIrq] at hr
    case named => exact fun c d hd => by simp [h.hang, Point.core] at hd
    case saved =>
      intro t d ht hd
      obtain ⟨pid, lock, heq⟩ := h.create t (hplace t ht).1
      rw [heq, Body.create_core] at hd
      cases hd
    case removing => exact fun c r hr => by simp [h.handler] at hr
    case hang => exact fun c _ _ => h.hang c
  case matching =>
    constructor
    case matched =>
      intro c p t ht
      obtain ⟨hc, hmem, hp⟩ := h.mem_of_mem_runningQ ht
      obtain ⟨pid, lock, heq⟩ := h.create t hmem
      refine ⟨hp, fun d hd => ?_⟩
      rw [heq] at hd
      rw [Body.create_pinned hd, hc]
    case looking => exact fun c _ _ _ _ _ hc => by simp [h.handler] at hc
    case moving => exact fun c _ _ _ hc => by simp [h.handler] at hc
  case own => exact ownRequests_of_none h.sleepIrq
  case tasks =>
    constructor
    case context =>
      intro t ht
      obtain ⟨pid, lock, heq⟩ := h.create t (hplace t ht).1
      rw [heq]
      exact stands_create 0 pid lock
    case screen =>
      intro t ht hbody
      obtain ⟨pid, lock, heq⟩ := h.create t (hplace t ht).1
      simp [heq, hbody, Body.create]
    case regs => exact fun c hc => absurd (hcurrent c) hc
    case loaded => exact fun c o n hc => by simp [h.handler] at hc
    case here => exact fun c d hc => absurd (hcurrent c) hc
    case preemptable => exact fun c hc => by simp [h.handler, Handler.removes] at hc
  case idles =>
    constructor
    case priority =>
      intro t ht
      obtain ⟨pid, lock, heq⟩ := h.create t (hplace t ht).1
      exact heq ▸ Body.create_p _ 0 pid lock
    case idle =>
      intro t ht _
      exact ⟨0, h.wellFormed.home_eq (hplace t ht).1, (hplace t ht).2⟩
    case requester => exact fun c source r hr => by simp [h.sleepIrq] at hr
    case current => exact fun c source r hr => by simp [h.sleepIrq] at hr
    case next => exact fun c source r n hr => by simp [h.sleepIrq] at hr
    case removing => exact fun c r hr => by simp [h.handler] at hr

/-- Sleep interrupts are requested by a task for the core on which it runs, and taken with preemption
    enabled. -/
def sleepsInOrder (b : BootState) (e : BootEvent) : Bool :=
  bootTakenPreemptible b e && bootRequestsOwnCore b e

/-- In runs of the kernel's own tasks with such steps only, every core that is up has its idle task in
    its last run queue, and `reschedule` picks a task there. -/
theorem picks_of_run {b₀ : BootState} (hstart : Starting plan b₀)
    (hrun : RunWhere (bootStep plan) sleepsInOrder b₀ b) (hup : b.enabled plan c = true) :
    (∃ t ∈ plan.tasks c, plan.body t = .idle) ∧
      (∀ t ∈ plan.tasks c, plan.body t = .idle → t ∈ (b.sched.runningQ c 20).array) ∧
      b.sched.Picks c := by
  obtain ⟨place, h⟩ : ∃ place, Settled plan b place := by
    refine hrun.invariant (p := fun b => ∃ place, Settled plan b place)
      ⟨_, settled_of_starting hstart⟩ fun b e b' ⟨place, h⟩ hok hs => ?_
    cases e with
    | init c sorted pid lock => exact settled_init hstart.wellFormed h hs
    | run e =>
      obtain ⟨-, hused, s', hs', rfl⟩ := bootStep_run hs
      obtain ⟨htaken, hown⟩ := Bool.and_eq_true_iff.mp hok
      exact ⟨_, settled_run h htaken hown hs' hused⟩
  have hidle : ∀ t ∈ plan.tasks c, plan.body t = .idle → t ∈ (b.sched.runningQ c 20).array := by
    intro t ht hbody
    obtain ⟨i, hi, hit⟩ := List.mem_iff_getElem.mp ht
    simp only [BootState.enabled, decide_eq_true_eq] at hup
    have hplace := (h.made t).mpr ⟨c, i, List.getElem?_eq_some_iff.mpr ⟨hi, hit⟩, by omega⟩
    obtain ⟨d, hd, hqueued⟩ := h.idles.idle t hplace hbody
    obtain rfl : c = d := Option.some.inj ((hstart.wellFormed.home_eq ht).symm.trans hd)
    have hmem := h.placed.mem_runningQ hqueued
    rwa [(h.idles.priority t hplace).mpr hbody] at hmem
  obtain ⟨t, ht, hbody⟩ := hstart.wellFormed.idle c
  exact ⟨⟨t, ht, hbody⟩, hidle, picks_of_mem (hidle t ht hbody)⟩

theorem picks_of_firstSleep :
    ∃ b, RunWhere (bootStep (kernelPlan threadN)) sleepsInOrder (kernelStart threadN) b ∧
      b.sched.handler 0 = .pick .sleep ∧ b.sched.Picks 0 := by
  obtain ⟨b, hrun, hb⟩ :
      ∃ b, RunWhere (bootStep (kernelPlan threadN)) sleepsInOrder (kernelStart threadN) b ∧
        decide (b.sched.handler 0 = .pick .sleep ∧ b.enabled (kernelPlan threadN) 0 = true) = true :=
    RunWhere.exists_of_replay
      (.init 0 false 0 none :: (firstTick ++ screenTurn 0 0 ++ (sleepNow 0 0).take 4).map .run)
      (by decide +kernel)
  obtain ⟨hpick, hup⟩ := of_decide_eq_true hb
  exact ⟨b, hrun, hpick, (picks_of_run (starting_kernelStart threadN) hrun hup).2.2⟩

end Rpi4Kernel.Sched
