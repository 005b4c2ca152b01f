/-
Module: Rpi4Kernel.Proofs.KernelTasksSpec
Layer: Proofs
Purpose: What the kernel's own tasks add to the placement of tasks. Each task stays in its body, and
  screen tasks run on their own core only, so that they reach no `premption` but their own although
  they may be interrupted between `get_core()` and the access. A sleep interrupt that is taken with
  preemption enabled therefore finds it enabled in `reschedule` too.
Trusted boundary: none (fully proved)
Main exports: Stands, KernelTasks, kernelTasks_step, KernelTasks.preemptible, occurrences_of_run
-/
import Rpi4Kernel.Proofs.KernelBootSpec
import Rpi4Kernel.Proofs.PinningSpec

namespace Rpi4Kernel.Sched

open Rpi4Kernel.Stdlib Rpi4Kernel.Theory

/-! ### Bodies -/

/-- The body that a place is in. -/
def KernelPoint.body : KernelPoint → Body
  | .kernelBegin | .paintCircle | .painting | .painted => .kernel
  | .screenBegin | .screenTest | .screenDraw | .drawing | .drawn | .screenSleep => .screen

/-- A task with this body can stand at this point. -/
def Body.Has (body : Body) (point : Point KernelPoint) : Prop :=
  match point.ret with
  | none => body = .idle
  | some b => b.body = body

/-- The point is inside `preemptDisable` or `preemptEnable`. -/
def Point.changesPremption {β : Type} : Point β → Bool
  | .getCore (.premption _ _) | .loadCurrent _ (.premption _ _) | .loadPremption _ _ _
  | .storePremption _ _ _ => true
  | _ => false

/-- A task can stand at this point: in its body, and with `premption` of no other task in reach. -/
structure Stands (body : TaskId → Body) (pinned : Option Core) (t : TaskId)
    (point : Point KernelPoint) : Prop where
  has : (body t).Has point
  screen : point.changesPremption = true → body t = .screen
  core : ∀ d change ret, point = .loadCurrent d (.premption change ret) → pinned = some d
  loads : ∀ u change ret, point = .loadPremption u change ret → u = t
  stores : ∀ u value ret, point = .storePremption u value ret → u = t

theorem KernelPoint.body_ne_idle (b : KernelPoint) : b.body ≠ .idle := by cases b <;> simp [body]

theorem Body.Has.ne_idle {body : Body} {point : Point KernelPoint} (h : body.Has point)
    (hpoint : point ≠ .hang) : body ≠ .idle := by
  cases point with
  | hang => exact absurd rfl hpoint
  | _ => exact h ▸ KernelPoint.body_ne_idle _

theorem stands_create {body : TaskId → Body} {t : TaskId} {pinned : Option Core} (core : Core)
    (pid : Nat)
    (lock : Option LockId) : Stands body pinned t ((body t).create core pid lock).context := by
  cases h : body t <;> constructor <;>
    simp [Body.create, createKernelTask, h, Body.Has, Point.ret, KernelPoint.body,
      Point.changesPremption]

/-- The calls of a task lead to places of the same body. -/
theorem kernelCode_body {b ret : KernelPoint} {call : Call} (h : kernelCode b call ret = true) :
    ret.body = b.body := by
  unfold kernelCode at h
  split at h <;> first | rfl | cases h

/-- Only screen tasks disable and enable preemption. -/
theorem kernelCode_premption {b ret : KernelPoint} {call : Call} (h : kernelCode b call ret = true)
    (hcall : call = .preemptDisable ∨ call = .preemptEnable) : b.body = .screen := by
  unfold kernelCode at h
  split at h <;> first | rfl | simp_all

variable {s s' : State KernelPoint} {c d : Core} {t r : TaskId} {body : TaskId → Body}
  {place place' : TaskId → Place} {pinned : Option Core}

/-- A task that makes a call of its body stands where it may. -/
theorem Stands.call {b ret : KernelPoint} {call : Call} (h : Stands body pinned t (.user b))
    (hcode : kernelCode b call ret = true) (counter : Nat) :
    Stands body pinned t (call.begin ret counter) where
  has := by
    have hbody : b.body = body t := h.has
    rw [Body.Has, call.begin_ret]
    exact (kernelCode_body hcode).trans hbody
  screen hchanges := by
    have hbody : b.body = body t := h.has
    rw [← hbody]
    cases call with
    | preemptDisable => exact kernelCode_premption hcode (.inl rfl)
    | preemptEnable => exact kernelCode_premption hcode (.inr rfl)
    | _ => cases hchanges
  core d change ret' heq := by cases call <;> cases heq
  loads u change ret' heq := by cases call <;> cases heq
  stores u value ret' heq := by cases call <;> cases heq

/-- The current task of a core stands where it may after a step inside a call. `get_core()` gives a
    screen task the core to which it is pinned, and `currentTask` of that core is the task itself. -/
theorem Stands.taskStep {exclusive : Bool} {counter : Nat}
    (h : Stands body pinned (s.currentTask c) (s.regs c))
    (hpinned : body (s.currentTask c) = .screen → pinned = some c)
    (hs : TaskStep s c exclusive counter s') : Stands body pinned (s.currentTask c) (s'.regs c) := by
  have hhas : (body (s.currentTask c)).Has (s'.regs c) := by
    obtain ⟨-, point, hpoint, hret, -⟩ := hs.point
    rw [hpoint, Function.update_self, Body.Has, hret]
    exact h.has
  cases hs with
  | @core use phase =>
    rw [phase] at h
    refine ⟨hhas, fun hchanges => ?_, fun d change ret heq => ?_, fun _ _ _ heq => ?_,
      fun _ _ _ heq => ?_⟩
    all_goals simp only [State.setRegs, Function.update_self] at *
    · cases use <;> first | exact h.screen rfl | cases hchanges
    · cases heq
      exact hpinned (h.screen rfl)
    · cases heq
    · cases heq
  | @current core use phase =>
    rw [phase] at h
    refine ⟨hhas, fun hchanges => ?_, fun d change ret heq => ?_, fun u change ret heq => ?_,
      fun _ _ _ heq => ?_⟩
    all_goals simp only [State.setRegs, Function.update_self] at *
    · cases use <;> first | exact h.screen rfl | cases hchanges
    · cases use <;> cases heq
    · cases use <;> cases heq
      have hcore : some core = some c :=
        (h.core core _ _ rfl).symm.trans (hpinned (h.screen rfl))
      rw [Option.some.inj hcore]
    · cases use <;> cases heq
  | @premption task change ret phase =>
    rw [phase] at h
    refine ⟨hhas, fun _ => h.screen rfl, fun _ _ _ heq => ?_, fun _ _ _ heq => ?_,
      fun u value ret' heq => ?_⟩
    all_goals simp only [State.setRegs, Function.update_self] at *
    · cases heq
    · cases heq
    · cases heq
      exact h.loads task change ret rfl
  | @sent core send phase =>
    refine ⟨hhas, fun hchanges => ?_, fun _ _ _ heq => ?_, fun _ _ _ heq => ?_, fun _ _ _ heq => ?_⟩
    all_goals
      simp only [State.setRegs, Function.update_self] at *
      cases send <;> simp_all [Send.after, Point.changesPremption]
  | _ phase =>
    refine ⟨hhas, fun hchanges => ?_, fun _ _ _ heq => ?_, fun _ _ _ heq => ?_, fun _ _ _ heq => ?_⟩
    all_goals simp_all [State.setRegs, Point.changesPremption]

/-! ### The invariant -/

/-- The current task of the core is on its way to sleep, and `reschedule` has not looked at `premption`
    yet. -/
def Handler.removes : Handler → Bool
  | .sleepRemove _ | .sleepAdd _ | .check .sleep => true
  | _ => false

/-- The tasks that were created run the kernel's bodies. -/
structure KernelTasks (body : TaskId → Body) (s : State KernelPoint) (place : TaskId → Place) :
    Prop where
  context : ∀ t, place t ≠ .absent → Stands body (s.tasks t).pinned t (s.tasks t).context
  regs : ∀ c, place (s.currentTask c) ≠ .absent → (∀ o n, s.handler c ≠ .setCurrent o n) →
    Stands body (s.tasks (s.currentTask c)).pinned (s.currentTask c) (s.regs c)
  loaded : ∀ c o n, s.handler c = .setCurrent o n → Stands body (s.tasks n).pinned n (s.regs c)
  screen : ∀ t, place t ≠ .absent → body t = .screen → (s.tasks t).pinned ≠ none
  here : ∀ c d, place (s.currentTask c) ≠ .absent →
    (s.tasks (s.currentTask c)).pinned = some d → d = c
  preemptable : ∀ c, (s.handler c).removes = true → s.isPreamptable c = true

namespace KernelTasks

/-- A handler goes on without switching, and the tasks keep what they were created with. -/
theorem go {after : Handler} (h : KernelTasks body s place)
    (htasks : ∀ t, (s'.tasks t).pinned = (s.tasks t).pinned ∧
      (s'.tasks t).premption = (s.tasks t).premption)
    (hcontext : ∀ t, place t ≠ .absent → Stands body (s'.tasks t).pinned t (s'.tasks t).context)
    (hcurrent : s'.currentTask = s.currentTask) (hregs : s'.regs = s.regs)
    (hhandler : s'.handler = Function.update s.handler c after)
    (hfrom : ∀ o n, s.handler c ≠ .setCurrent o n) (hto : ∀ o n, after ≠ .setCurrent o n)
    (hremoves : after.removes = true → (s.handler c).removes = true)
    (habsent : ∀ t, place' t = .absent ↔ place t = .absent) : KernelTasks body s' place' where
  context t ht := hcontext t (mt (habsent t).mpr ht)
  regs d hd hno := by
    rw [hcurrent] at hd ⊢
    rw [hregs, (htasks _).1]
    refine h.regs d (mt (habsent _).mpr hd) fun o n hon => ?_
    by_cases hdc : d = c
    · exact hfrom o n (hdc ▸ hon)
    · exact hno o n (by rwa [hhandler, Function.update_of_ne hdc])
  loaded d o n hd := by
    rw [hregs, (htasks n).1]
    rw [hhandler] at hd
    by_cases hdc : d = c
    · subst hdc
      exact absurd (by simpa using hd) (hto o n)
    · exact h.loaded d o n (by rwa [Function.update_of_ne hdc] at hd)
  screen t ht hbody := by
    rw [(htasks t).1]
    exact h.screen t (mt (habsent t).mpr ht) hbody
  here d e hd he := by
    rw [hcurrent] at hd he
    rw [(htasks _).1] at he
    exact h.here d e (mt (habsent _).mpr hd) he
  preemptable d hd := by
    have hold : (s.handler d).removes = true := by
      rw [hhandler] at hd
      by_cases hdc : d = c
      · subst hdc
        exact hremoves (by simpa using hd)
      · rwa [Function.update_of_ne hdc] at hd
    have hpre := h.preemptable d hold
    rw [State.isPreamptable] at hpre ⊢
    rwa [hcurrent, (htasks _).2]

/-- A handler goes on and touches no task. -/
theorem go_on {after : Handler} (h : KernelTasks body s place) (htasks : s'.tasks = s.tasks)
    (hcurrent : s'.currentTask = s.currentTask) (hregs : s'.regs = s.regs)
    (hhandler : s'.handler = Function.update s.handler c after)
    (hfrom : ∀ o n, s.handler c ≠ .setCurrent o n) (hnext : after.next = none)
    (hremoves : after.removes = false) : KernelTasks body s' place :=
  h.go (fun _ => by rw [htasks]; exact ⟨rfl, rfl⟩) (htasks ▸ h.context) hcurrent hregs hhandler hfrom
    (fun o n hon => by simp [hon, Handler.next] at hnext) (fun hr => by simp [hremoves] at hr)
    fun _ => Iff.rfl

/-- The registers of the next task are loaded. -/
theorem load {o : Origin} (h : KernelTasks body s place) (p : Placed s place)
    (hc : s.handler c = .load o t) : KernelTasks body (s.load c o t) place where
  context := h.context
  regs d hd hno := by
    by_cases hdc : d = c
    · subst hdc
      exact absurd (by simp [State.load, State.setHandler]) (hno o t)
    · have hold := h.regs d hd fun o' n hon => hno o' n
        (by simpa [State.load, State.setHandler, State.setRegs, hdc] using hon)
      simpa [State.load, State.setHandler, State.setRegs, hdc] using hold
  loaded d o' n hd := by
    by_cases hdc : d = c
    · subst hdc
      have hn : t = n := by
        have heq : Handler.setCurrent o t = .setCurrent o' n := by
          simpa [State.load, State.setHandler] using hd
        cases heq
        rfl
      have hplace : place t = .queued d := p.next d t (by rw [hc]; rfl)
      have hcontext := h.context t (by simp [hplace])
      simpa [State.load, State.setHandler, State.setRegs, ← hn] using hcontext
    · have hold := h.loaded d o' n
        (by simpa [State.load, State.setHandler, State.setRegs, hdc] using hd)
      simpa [State.load, State.setHandler, State.setRegs, hdc] using hold
  screen := h.screen
  here := h.here
  preemptable d hd := by
    by_cases hdc : d = c
    · subst hdc
      simp [State.load, State.setHandler, Handler.removes] at hd
    · exact h.preemptable d
        (by simpa [State.load, State.setHandler, State.setRegs, hdc] using hd)

/-- The next task becomes the current one. -/
theorem setCurrent {o : Origin} (h : KernelTasks body s place) (p : Placed s place)
    (m : Matching s) (hc : s.handler c = .setCurrent o t) :
    KernelTasks body (s.setCurrent c o t) place := by
  have hplace : place t = .queued c := p.next c t (by rw [hc]; rfl)
  have hremoves : o.after.removes = false := by cases o <;> rfl
  constructor
  case context => exact h.context
  case screen => exact h.screen
  case regs =>
    intro d hd hno
    by_cases hdc : d = c
    · subst hdc
      simpa [State.setCurrent, State.setHandler] using h.loaded d o t hc
    · have hold := h.regs d (by simpa [State.setCurrent, State.setHandler, hdc] using hd)
        fun o' n hon => hno o' n (by simpa [State.setCurrent, State.setHandler, hdc] using hon)
      simpa [State.setCurrent, State.setHandler, hdc] using hold
  case loaded =>
    intro d o' n hd
    by_cases hdc : d = c
    · subst hdc
      cases o <;> simp [State.setCurrent, State.setHandler, Origin.after] at hd
    · exact h.loaded d o' n (by simpa [State.setCurrent, State.setHandler, hdc] using hd)
  case here =>
    intro d e hd he
    by_cases hdc : d = c
    · subst hdc
      exact (m.matched d _ t (p.mem_runningQ hplace)).2 e
        (by simpa [State.setCurrent, State.setHandler] using he)
    · exact h.here d e (by simpa [State.setCurrent, State.setHandler, hdc] using hd)
        (by simpa [State.setCurrent, State.setHandler, hdc] using he)
  case preemptable =>
    intro d hd
    by_cases hdc : d = c
    · subst hdc
      simp [State.setCurrent, State.setHandler, hremoves] at hd
    · have hold := h.preemptable d (by simpa [State.setCurrent, State.setHandler, hdc] using hd)
      simpa [State.isPreamptable, State.setCurrent, State.setHandler, hdc] using hold

end KernelTasks

/-! ### Every step -/

namespace KernelTasks

/-- The sleep interrupt is taken with preemption enabled. -/
theorem take_sleep {source : Core} (h : KernelTasks body s place) (hc : s.handler c = .none)
    (hpre : s.isPreamptable c = true) :
    KernelTasks body ({ s with
      sleepIrq := Function.update s.sleepIrq c
        (Function.update (s.sleepIrq c) source none) }.setHandler c (.sleepRemove r)) place where
  context := h.context
  regs d hd hno := by
    refine h.regs d hd fun o n hon => ?_
    by_cases hdc : d = c
    · subst hdc
      simp [hc] at hon
    · exact hno o n (by simpa [State.setHandler, hdc] using hon)
  loaded d o n hd := by
    by_cases hdc : d = c
    · subst hdc
      simp [State.setHandler] at hd
    · exact h.loaded d o n (by simpa [State.setHandler, hdc] using hd)
  screen := h.screen
  here := h.here
  preemptable d hd := by
    by_cases hdc : d = c
    · subst hdc
      exact hpre
    · exact h.preemptable d (by simpa [State.setHandler, hdc] using hd)

/-- The current task of a core that handles no interrupt and is not hanging stands in its body. -/
theorem stands (h : KernelTasks body s place) (p : Placed s place) (hc : s.handler c = .none)
    (hregs : s.regs c ≠ .hang) :
    Stands body (s.tasks (s.currentTask c)).pinned (s.currentTask c) (s.regs c) :=
  h.regs c (p.current_ne_absent hc hregs) (by simp [hc])

/-- A screen task runs on the core to which it is pinned. -/
theorem pinned_here (h : KernelTasks body s place) (hcreated : place (s.currentTask c) ≠ .absent)
    (hbody : body (s.currentTask c) = .screen) : (s.tasks (s.currentTask c)).pinned = some c := by
  obtain ⟨e, he⟩ := Option.ne_none_iff_exists'.mp (h.screen _ hcreated hbody)
  rw [he, h.here c e hcreated he]

/-- A task takes a step in its body. Only a screen task may change `premption`, its own, and it is the
    current task of no other core. -/
theorem task_step {point : Point KernelPoint} (h : KernelTasks body s place) (p : Placed s place)
    (u : PlacesKept s s') (hc : s.handler c = .none) (hregs : s.regs c ≠ .hang)
    (hpoint : s'.regs = Function.update s.regs c point)
    (hstands : Stands body (s.tasks (s.currentTask c)).pinned (s.currentTask c) point)
    (hpremption : ∀ t, (s'.tasks t).premption = (s.tasks t).premption ∨
      t = s.currentTask c ∧ body t = .screen) : KernelTasks body s' place := by
  have hcreated := p.current_ne_absent hc hregs
  constructor
  case context =>
    intro t ht
    rw [u.pinned, u.context]
    exact h.context t ht
  case screen =>
    intro t ht
    rw [u.pinned]
    exact h.screen t ht
  case regs =>
    intro d hd hno
    rw [u.currentTask] at hd ⊢
    rw [u.handler] at hno
    rw [u.pinned, hpoint]
    by_cases hdc : d = c
    · subst hdc
      rwa [Function.update_self]
    · rw [Function.update_of_ne hdc]
      exact h.regs d hd hno
  case loaded =>
    intro d o n hd
    rw [u.handler] at hd
    rw [u.pinned, hpoint, Function.update_of_ne fun hdc => by simp [hdc, hc] at hd]
    exact h.loaded d o n hd
  case here =>
    intro d e hd he
    rw [u.currentTask] at hd he
    rw [u.pinned] at he
    exact h.here d e hd he
  case preemptable =>
    intro d hd
    rw [u.handler] at hd
    have hdc : d ≠ c := by
      rintro rfl
      simp [hc, Handler.removes] at hd
    have hpre := h.preemptable d hd
    rw [State.isPreamptable] at hpre ⊢
    rw [u.currentTask]
    obtain hsame | ⟨hcur, hbody⟩ := hpremption (s.currentTask d)
    · rwa [hsame]
    · -- a screen task is pinned, so that it is the current task of its own core only
      have hhere := h.pinned_here hcreated (hcur ▸ hbody)
      exact absurd (h.here d c (hcur ▸ hcreated) (hcur ▸ hhere)).symm hdc

end KernelTasks

theorem kernelTasks_handlerStep {reading : Nat} (h : KernelTasks body s place)
    (p : Placed s place) (m : Matching s) (hs : HandlerStep s c reading s') :
    KernelTasks body s' (placeAfter s place (.handle c reading)) := by
  have hsame : ∀ t, (s.tasks t).pinned = (s.tasks t).pinned ∧
      (s.tasks t).premption = (s.tasks t).premption := fun t => ⟨rfl, rfl⟩
  have hupdate : ∀ (t : TaskId) (b : Place), place t ≠ .absent → b ≠ .absent → ∀ u,
      Function.update place t b u = .absent ↔ place u = .absent := by
    intro t b ht hb u
    by_cases hu : u = t
    · subst hu
      simp [ht, hb]
    · rw [Function.update_of_ne hu]
  cases hs with
  | removed q phase sub =>
    simp only [placeAfter, phase]
    refine h.go hsame h.context rfl rfl rfl (by simp [phase]) (by simp) (fun _ => by rw [phase]; rfl)
      (hupdate _ _ ?_ (by simp))
    rw [p.removing c _ phase]
    simp
  | added phase free =>
    simp only [placeAfter, phase]
    have hmoving : place (s.currentTask c) = .moving c := (p.moving c _).mpr ⟨⟨_, phase⟩, rfl⟩
    exact h.go hsame h.context rfl rfl rfl (by simp [phase]) (by simp) (fun _ => by rw [phase]; rfl)
      (hupdate _ _ (by simp [hmoving]) (by simp))
  | @moved pass t n q phase perm =>
    simp only [placeAfter, phase]
    have hasleep : place t = .asleep :=
      p.mem_sleepingQ_iff.mp (perm.mem_iff.mpr List.mem_cons_self)
    exact h.go hsame h.context rfl rfl rfl (by simp [phase]) (by simp) (by simp [Handler.removes])
      (hupdate _ _ (by simp [hasleep]) (by simp))
  | @found pass index t phase slot ready =>
    simp only [placeAfter, phase]
    have htasks : ∀ u, ((s.updateTask t (State.clear pass)).tasks u).context = (s.tasks u).context ∧
        ((s.updateTask t (State.clear pass)).tasks u).premption = (s.tasks u).premption := by
      intro u
      by_cases hu : u = t
      · subst hu
        cases pass <;> simp [State.updateTask, State.clear]
      · simp [State.updateTask, hu]
    have hpinned := updateTask_pinned (s := s) (clear_pinned pass) t
    refine h.go (fun u => ⟨hpinned u, (htasks u).2⟩) (fun u hu => ?_) rfl rfl rfl
      (by simp [phase]) ?_ ?_
      fun _ => Iff.rfl
    · change Stands body ((s.updateTask t (State.clear pass)).tasks u).pinned u
        ((s.updateTask t (State.clear pass)).tasks u).context
      rw [hpinned u, (htasks u).1]
      exact h.context u hu
    all_goals
      unfold State.afterReady
      split <;> simp [Handler.removes]
  | @ended pass index phase all =>
    simp only [placeAfter, phase]
    exact h.go_on rfl rfl rfl rfl (by simp [phase]) (by cases pass <;> rfl) (by cases pass <;> rfl)
  | @allowed o phase preemptable =>
    simp only [placeAfter, phase]
    exact h.go_on rfl rfl rfl rfl (by simp [phase]) rfl rfl
  | @refused o phase preemptable =>
    simp only [placeAfter, phase]
    exact h.go_on rfl rfl rfl rfl (by simp [phase]) (by cases o <;> rfl) (by cases o <;> rfl)
  | @picked o t phase pick =>
    simp only [placeAfter, phase]
    exact h.go hsame h.context rfl rfl rfl (by simp [phase]) (by simp) (by simp [Handler.removes])
      fun _ => Iff.rfl
  | @saved o t phase =>
    simp only [placeAfter, phase]
    have hpinned := updateTask_pinned (s := s) (f := fun task => { task with context := s.regs c })
      (fun _ => rfl) (s.currentTask c)
    refine h.go (fun u => ⟨hpinned u, ?_⟩) (fun u hu => ?_) rfl rfl rfl (by simp [phase]) (by simp)
      (by simp [Handler.removes]) fun _ => Iff.rfl
    · by_cases hu : u = s.currentTask c
      · subst hu
        simp [State.save, State.setHandler, State.updateTask]
      · simp [State.save, State.setHandler, State.updateTask, hu]
    · by_cases hcur : u = s.currentTask c
      · subst hcur
        simpa [State.save, State.setHandler, State.updateTask] using h.regs c hu (by simp [phase])
      · simpa [State.save, State.setHandler, State.updateTask, hcur] using h.context u hu
  | loaded phase =>
    simp only [placeAfter, phase]
    exact h.load p phase
  | switched phase =>
    simp only [placeAfter, phase]
    exact h.setCurrent p m phase
  | begun phase _ _ =>
    simp only [placeAfter, phase]
    exact h.go_on rfl rfl rfl rfl (by simp [phase]) rfl rfl
  | passed phase _ _ =>
    simp only [placeAfter, phase]
    exact h.go_on rfl rfl rfl rfl (by simp [phase]) rfl rfl
  | compared phase =>
    simp only [placeAfter, phase]
    exact h.go_on rfl rfl rfl rfl (by simp [phase]) rfl rfl
  | chosen phase =>
    simp only [placeAfter, phase]
    exact h.go_on rfl rfl rfl rfl (by simp [phase]) rfl rfl
  | uninitialized phase =>
    simp only [placeAfter, phase]
    exact h.go_on rfl rfl rfl rfl (by simp [phase]) rfl rfl
  | sent phase =>
    simp only [placeAfter, phase]
    exact h.go_on rfl rfl rfl rfl (by simp [phase]) rfl rfl

theorem kernelTasks_step {e : Event KernelPoint} (h : KernelTasks body s place)
    (p : Placed s place) (m : Matching s) (g : s.Guarded) (hok : takenPreemptible s e = true)
    (hs : step kernelCode s e = some s') : KernelTasks body s' (placeAfter s place e) := by
  cases e with
  | timer =>
    obtain ⟨hc, rfl⟩ := takeTimer_spec hs
    exact h.go_on rfl rfl rfl rfl (by simp [hc]) rfl rfl
  | interrupt c irq source =>
    cases irq with
    | reschedule =>
      obtain ⟨hc, -, rfl⟩ := takeInterrupt_reschedule hs
      exact h.go_on rfl rfl rfl rfl (by simp [hc]) rfl rfl
    | sleep =>
      obtain ⟨hc, r, -, rfl⟩ := takeInterrupt_sleep hs
      exact h.take_sleep hc hok
    | wakeUpAll =>
      obtain ⟨hc, -, rfl⟩ := takeInterrupt_wakeUpAll hs
      exact h.go_on rfl rfl rfl rfl (by simp [hc]) rfl rfl
  | handle c reading => exact kernelTasks_handlerStep h p m (handlerStep_of_handle g hs)
  | call c call ret counter =>
    obtain ⟨hc, ⟨b, hb, hcode⟩, rfl⟩ := step_call hs
    have hregs : s.regs c ≠ .hang := by simp [hb]
    have hstands := h.stands p hc hregs
    rw [hb] at hstands
    exact h.task_step p placesKept_setRegs hc hregs rfl (hstands.call hcode counter) fun _ => .inl rfl
  | resume c exclusive counter =>
    obtain ⟨hc, hr⟩ := step_resume hs
    obtain ⟨hregs, point, hpoint, -, -⟩ := hr.point
    have hstands := h.stands p hc hregs
    have hafter := hstands.taskStep (h.pinned_here (p.current_ne_absent hc hregs)) hr
    rw [hpoint, Function.update_self] at hafter
    refine h.task_step p hr.placesKept hc hregs hpoint hafter fun t => ?_
    refine (hr.premption_eq t).imp_right fun ⟨value, ret, hstore⟩ => ?_
    rw [hstore] at hstands
    obtain rfl := hstands.stores t value ret rfl
    exact ⟨rfl, hstands.screen rfl⟩

/-- A sleep interrupt that was taken with preemption enabled finds it enabled in `reschedule`. -/
theorem KernelTasks.preemptible {e : Event KernelPoint} (h : KernelTasks body s place) :
    preemptible s e = true := by
  cases e with
  | handle c reading =>
    simp only [Sched.preemptible, Bool.or_eq_true, decide_eq_true_eq]
    by_cases hc : s.handler c = .check .sleep
    · exact .inr (h.preemptable c (by rw [hc]; rfl))
    · exact .inl hc
  | _ => rfl

/-- No step creates a task or takes one out of the system. -/
theorem Placed.placeAfter_eq_absent {e : Event KernelPoint} (p : Placed s place) (g : s.Guarded)
    (t : TaskId) : placeAfter s place e t = .absent ↔ place t = .absent := by
  have hupdate : ∀ (u : TaskId) (b : Place), place u ≠ .absent → b ≠ .absent →
      (Function.update place u b t = .absent ↔ place t = .absent) := by
    intro u b hu hb
    by_cases ht : t = u
    · subst ht
      simp [hu, hb]
    · rw [Function.update_of_ne ht]
  cases e with
  | handle c reading =>
    simp only [placeAfter]
    cases hc : s.handler c with
    | sleepRemove r => exact hupdate _ _ (by simp [p.removing c r hc]) (by simp)
    | sleepAdd r => exact hupdate _ _ (by simp [(p.moving c _).mpr ⟨⟨r, hc⟩, rfl⟩]) (by simp)
    | move pass u n =>
      exact hupdate _ _ (by simp [p.waking_asleep g (t := u) (c := c) (by rw [hc]; rfl)]) (by simp)
    | _ => exact Iff.rfl
  | _ => exact Iff.rfl

/-! ### Runs -/

variable {home : TaskId → Option Core}

theorem kernelTasks_of_booted (h : KernelBooted home body s) : KernelTasks body s (bootPlace home) := by
  have hcreated : ∀ t, bootPlace home t ≠ .absent → ∃ c, home t = some c ∧
      ∃ pid lock, s.tasks t = (body t).create c pid lock := by
    intro t ht
    cases hhome : home t with
    | none => simp [bootPlace, hhome] at ht
    | some c => exact ⟨c, rfl, h.created t c hhome⟩
  have hcurrent : ∀ c, bootPlace home (s.currentTask c) = .absent := fun c => by
    simp [bootPlace, h.boot]
  constructor
  case context =>
    intro t ht
    obtain ⟨c, -, pid, lock, heq⟩ := hcreated t ht
    rw [heq]
    exact stands_create c pid lock
  case screen =>
    intro t ht hbody
    obtain ⟨c, -, pid, lock, heq⟩ := hcreated t ht
    simp [heq, hbody, Body.create]
  case regs => exact fun c hc => absurd (hcurrent c) hc
  case loaded => exact fun c o n hc => by simp [h.handler] at hc
  case here => exact fun c d hc => absurd (hcurrent c) hc
  case preemptable => exact fun c hc => by simp [h.handler, Handler.removes] at hc

/-- A task that is in one place is in one queue, once. -/
theorem Placed.occurrences_eq_one (p : Placed s place) (ht : place t ≠ .absent)
    (hmoving : ∀ c, place t ≠ .moving c) : s.occurrences t = 1 := by
  unfold State.occurrences
  simp only [p.queued, p.asleep]
  cases hplace : place t with
  | absent => exact absurd hplace ht
  | moving c => exact absurd hplace (hmoving c)
  | asleep => simp
  | queued c =>
    rw [if_neg (by simp), Finset.sum_eq_single c, Finset.sum_eq_single (s.tasks t).p]
    · simp
    · exact fun q _ hq => if_neg fun h => hq h.2.symm
    · exact fun h => absurd (Finset.mem_univ _) h
    · intro d _ hd
      exact Finset.sum_eq_zero fun q _ => if_neg fun h => hd (Place.queued.inj h.1).symm
    · exact fun h => absurd (Finset.mem_univ _) h

/-- In runs of the kernel's own tasks in which sleep interrupts are taken with preemption enabled, every
    task that was created and queued at boot is, whenever no handler is in progress, in one of the
    queues, and once. -/
theorem occurrences_of_run {s₀ : State KernelPoint} (hboot : KernelBooted home body s₀)
    (hrun : RunWhere (step kernelCode) takenPreemptible s₀ s) (hquiet : ∀ c, s.handler c = .none)
    (ht : home t = some c) : s.occurrences t = 1 := by
  have hinv := hrun.invariant_of (p := fun s => s.Guarded ∧ Matching s)
    (q := fun s => ∃ place, Placed s place ∧ KernelTasks body s place ∧
      ∀ t, place t = .absent ↔ bootPlace home t = .absent)
    (fun _ hs => ⟨guarded_of_run hboot.toBooted hs, matching_of_run hboot.toBooted hs⟩)
    ⟨_, placed_of_booted hboot.toBooted, kernelTasks_of_booted hboot, fun _ => Iff.rfl⟩
    fun s e s' ⟨g, m⟩ ⟨place, p, h, habsent⟩ hok hs => by
      exact ⟨_, placed_step p g h.preemptible hs, kernelTasks_step h p m g hok hs,
        fun t => (p.placeAfter_eq_absent g t).trans (habsent t)⟩
  obtain ⟨place, p, -, habsent⟩ := hinv
  refine p.occurrences_eq_one (mt (habsent t).mp ?_) fun d hd => ?_
  · simp [bootPlace, ht]
  · obtain ⟨⟨r, hr⟩, -⟩ := (p.moving d t).mp hd
    simp [hquiet] at hr

theorem occurrences_of_sleep :
    ∃ s, RunWhere (step kernelCode) takenPreemptible (kernelBoot threadN) s ∧
      taskOf threadN 0 101 ∈ s.sleepingQ.array ∧ s.occurrences (taskOf threadN 0 101) = 1 := by
  obtain ⟨s, hrun, hs⟩ : ∃ s, RunWhere (step kernelCode) takenPreemptible (kernelBoot threadN) s ∧
      decide (taskOf threadN 0 101 ∈ s.sleepingQ.array ∧ ∀ c, s.handler c = .none) = true :=
    RunWhere.exists_of_replay (firstTick ++ screenTurn 0 0 ++ sleepNow 0 0) (by decide +kernel)
  obtain ⟨hmem, hquiet⟩ := of_decide_eq_true hs
  exact ⟨s, hrun, hmem, occurrences_of_run (kernelBooted_kernelBoot threadN) hrun hquiet (c := 0)
    (by decide)⟩

end Rpi4Kernel.Sched
