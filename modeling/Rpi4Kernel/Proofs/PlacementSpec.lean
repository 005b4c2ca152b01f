/-
Module: Rpi4Kernel.Proofs.PlacementSpec
Layer: Proofs
Purpose: Where every task is. In runs in which the `reschedule` of each sleep interrupt finds preemption
  enabled, each task that was created is in one run queue, in `sleepingQ`, or on its way between them in
  one handler, and the current task of a core is in a run queue of that core unless the handler of the
  core has put it to sleep and has not switched away yet. This holds for any tasks.
Trusted boundary: none (fully proved)
Main exports: Place, Placed, placed_of_booted, placed_step, guarded_of_run
-/
import Rpi4Kernel.Proofs.SleepingQSpec
import Rpi4Kernel.Theory.Runs

namespace Rpi4Kernel.Sched

open Rpi4Kernel.Stdlib Rpi4Kernel.Theory

variable {β : Type} {s s' : State β} {c d : Core} {t r : TaskId}

/-- Where a task is: `moving c` is between a run queue and `sleepingQ` in the handler of core `c`;
    `absent` are the tasks that were not created for a queue. -/
inductive Place where
  | absent
  | queued (c : Core)
  | asleep
  | moving (c : Core)
deriving DecidableEq

namespace Handler

/-- The current task of the core may be on no run queue of it: it was put to sleep. -/
def displaced : Handler → Bool
  | .sleepAdd _ | .check .sleep | .pick .sleep | .save .sleep _ | .load .sleep _ | .setCurrent .sleep _
  | .halted => true
  | _ => false

/-- The phases at which the queues, the registers or the current task change. -/
def turning : Handler → Bool
  | .sleepRemove _ | .sleepAdd _ | .setCurrent _ _ => true
  | _ => false

end Handler

/-- Every task is where `place` says, and a core that a task or a sleep interrupt refers to has taken a
    task from its queues. -/
structure Placed (s : State β) (place : TaskId → Place) : Prop where
  queued : ∀ c p t, (s.runningQ c p).array.count t =
    if place t = .queued c ∧ (s.tasks t).p = p then 1 else 0
  asleep : ∀ t, s.sleepingQ.array.count t = if place t = .asleep then 1 else 0
  moving : ∀ c t, place t = .moving c ↔ (∃ r, s.handler c = .sleepAdd r) ∧ s.currentTask c = t
  current : ∀ c, (s.handler c).displaced = false →
    place (s.currentTask c) = .queued c ∨ place (s.currentTask c) = .absent
  next : ∀ c t, (s.handler c).next = some t → place t = .queued c
  sleepIrq : ∀ c source, s.sleepIrq c source ≠ none → place (s.currentTask c) ≠ .absent
  named : ∀ c d, (s.regs c).core = some d → place (s.currentTask d) ≠ .absent
  saved : ∀ t d, place t ≠ .absent → (s.tasks t).context.core = some d →
    place (s.currentTask d) ≠ .absent
  removing : ∀ c r, s.handler c = .sleepRemove r → place (s.currentTask c) = .queued c
  hang : ∀ c, place (s.currentTask c) = .absent → (∀ o t, s.handler c ≠ .setCurrent o t) →
    s.regs c = .hang

variable {place : TaskId → Place}

/-! ### Counting -/

theorem count_of_perm_cons {l q : List TaskId} (h : l.Perm (t :: q)) (x : TaskId) :
    l.count x = q.count x + if x = t then 1 else 0 := by
  rw [h.count_eq, List.count_cons]
  simp only [beq_iff_eq, eq_comm (a := t)]

theorem count_add (q : ArrayList TaskId) (t x : TaskId) :
    (q.add t).array.count x = q.array.count x + if x = t then 1 else 0 := by
  simp only [ArrayList.add, List.count_append, List.count_singleton, beq_iff_eq, eq_comm (a := t)]

theorem setRunningQ_count (s : State β) (c d : Core) (p q : Priority) (l : ArrayList TaskId)
    (x : TaskId) : ((s.setRunningQ c p l).runningQ d q).array.count x =
      if d = c ∧ q = p then l.array.count x else (s.runningQ d q).array.count x := by
  simp only [State.setRunningQ]
  by_cases hd : d = c
  · subst hd
    by_cases hq : q = p
    · subst hq
      simp
    · simp [hq]
  · simp [hd]

namespace Placed

theorem mem_runningQ (h : Placed s place) (ht : place t = .queued c) :
    t ∈ (s.runningQ c (s.tasks t).p).array := by
  rw [← List.count_pos_iff, h.queued, if_pos ⟨ht, rfl⟩]
  exact Nat.one_pos

theorem of_mem_runningQ {p : Priority} (h : Placed s place) (ht : t ∈ (s.runningQ c p).array) :
    place t = .queued c ∧ (s.tasks t).p = p := by
  by_contra hn
  rw [← List.count_pos_iff, h.queued, if_neg hn] at ht
  exact lt_irrefl _ ht

theorem mem_sleepingQ_iff (h : Placed s place) : t ∈ s.sleepingQ.array ↔ place t = .asleep := by
  rw [← List.count_pos_iff, h.asleep]
  split <;> simp_all

theorem waking_asleep (h : Placed s place) (g : s.Guarded) (ht : (s.handler c).waking = some t) :
    place t = .asleep := h.mem_sleepingQ_iff.mp (g.waking c t ht)

/-! ### Steps that move no task -/

/-- The handler of a core goes on to `after`, and no queue, current task or register changes. -/
theorem advance {after : Handler} (h : Placed s place) (hrun : s'.runningQ = s.runningQ)
    (hsleep : ∀ t, s'.sleepingQ.array.count t = s.sleepingQ.array.count t)
    (hcurrent : s'.currentTask = s.currentTask) (hirq : s'.sleepIrq = s.sleepIrq)
    (hregs : s'.regs = s.regs) (hp : ∀ t, (s'.tasks t).p = (s.tasks t).p)
    (hcontext : ∀ t, (s'.tasks t).context = (s.tasks t).context ∨ ∃ d, (s'.tasks t).context = s.regs d)
    (hhandler : s'.handler = Function.update s.handler c after)
    (hfrom : (s.handler c).turning = false) (hto : after.turning = false)
    (hdisplaced : after.displaced = false → (s.handler c).displaced = false)
    (hnext : ∀ t, after.next = some t → place t = .queued c) : Placed s' place where
  queued d p t := by rw [hrun, hp, h.queued]
  asleep t := by rw [hsleep, h.asleep]
  moving d t := by
    rw [h.moving, hcurrent, hhandler]
    by_cases hd : d = c
    · subst hd
      have hfrom' : ∀ r, s.handler d ≠ .sleepAdd r := fun r hr => by simp [hr, Handler.turning] at hfrom
      have hto' : ∀ r, after ≠ .sleepAdd r := fun r hr => by simp [hr, Handler.turning] at hto
      simp [hfrom', hto']
    · rw [Function.update_of_ne hd]
  current d hd := by
    rw [hcurrent]
    rw [hhandler] at hd
    by_cases hdc : d = c
    · subst hdc
      rw [Function.update_self] at hd
      exact h.current d (hdisplaced hd)
    · rw [Function.update_of_ne hdc] at hd
      exact h.current d hd
  next d t hd := by
    rw [hhandler] at hd
    by_cases hdc : d = c
    · subst hdc
      rw [Function.update_self] at hd
      exact hnext t hd
    · rw [Function.update_of_ne hdc] at hd
      exact h.next d t hd
  sleepIrq d source hd := hcurrent ▸ h.sleepIrq d source (hirq ▸ hd)
  named d e hd := hcurrent ▸ h.named d e (hregs ▸ hd)
  saved t d ht hd := by
    rw [hcurrent]
    rcases hcontext t with hsame | ⟨e, he⟩
    · exact h.saved t d ht (hsame ▸ hd)
    · exact h.named e d (he ▸ hd)
  removing d r hd := by
    rw [hhandler] at hd
    by_cases hdc : d = c
    · subst hdc
      rw [Function.update_self] at hd
      simp [hd, Handler.turning] at hto
    · rw [Function.update_of_ne hdc] at hd
      rw [hcurrent]
      exact h.removing d r hd
  hang d hd hno := by
    rw [hcurrent] at hd
    rw [hregs]
    refine h.hang d hd fun o t hot => ?_
    by_cases hdc : d = c
    · subst hdc
      simp [hot, Handler.turning] at hfrom
    · exact hno o t (by rw [hhandler, Function.update_of_ne hdc, hot])

/-- The current task of a core that handles no interrupt and is not hanging was created. -/
theorem current_ne_absent (h : Placed s place) (hc : s.handler c = .none) (hregs : s.regs c ≠ .hang) :
    place (s.currentTask c) ≠ .absent := fun habsent => hregs (h.hang c habsent (by simp [hc]))

/-- A task takes a step: only where its core stands and the sleep interrupts pending may change. -/
theorem task_step {point : Point β} (h : Placed s place) (u : PlacesKept s s')
    (hc : s.handler c = .none)
    (hregs : s.regs c ≠ .hang) (hpoint : s'.regs = Function.update s.regs c point)
    (hcore : ∀ d, point.core = some d → d = c)
    (hirq : ∀ d source r, s'.sleepIrq d source = some r →
      s.sleepIrq d source = some r ∨ (s.regs c).core = some d) : Placed s' place where
  queued d p t := by rw [u.runningQ, u.p, h.queued]
  asleep t := by rw [u.sleepingQ, h.asleep]
  moving d t := by rw [h.moving, u.currentTask, u.handler]
  current d hd := by
    rw [u.currentTask]
    exact h.current d (u.handler ▸ hd)
  next d t hd := h.next d t (u.handler ▸ hd)
  sleepIrq d source hd := by
    obtain ⟨r, hr⟩ := Option.ne_none_iff_exists'.mp hd
    rw [u.currentTask]
    rcases hirq d source r hr with hold | hnamed
    · exact h.sleepIrq d source (by simp [hold])
    · exact h.named c d hnamed
  named d e hd := by
    rw [u.currentTask]
    rw [hpoint] at hd
    by_cases hdc : d = c
    · subst hdc
      rw [Function.update_self] at hd
      exact hcore e hd ▸ h.current_ne_absent hc hregs
    · rw [Function.update_of_ne hdc] at hd
      exact h.named d e hd
  saved t d ht hd := by
    rw [u.currentTask]
    rw [u.context] at hd
    exact h.saved t d ht hd
  removing d r hd := by
    rw [u.currentTask]
    exact h.removing d r (u.handler ▸ hd)
  hang d hd hno := by
    rw [u.currentTask] at hd
    rw [u.handler] at hno
    have hhang := h.hang d hd hno
    by_cases hdc : d = c
    · exact absurd (hdc ▸ hhang) hregs
    · rwa [hpoint, Function.update_of_ne hdc]

/-! ### Steps that move tasks -/

/-- The sleep interrupt is taken: its requester is forgotten and the current task is to be removed. -/
theorem take_sleep {source : Core} (h : Placed s place) (hc : s.handler c = .none)
    (hr : s.sleepIrq c source = some r) :
    Placed ({ s with
      sleepIrq := Function.update s.sleepIrq c
        (Function.update (s.sleepIrq c) source none) }.setHandler c (.sleepRemove r)) place where
  queued := h.queued
  asleep := h.asleep
  moving d t := by
    rw [h.moving]
    by_cases hd : d = c
    · subst hd
      simp [State.setHandler, hc]
    · simp [State.setHandler, hd]
  current d hd := by
    by_cases hdc : d = c
    · subst hdc
      exact h.current d (by rw [hc]; rfl)
    · exact h.current d (by simpa [State.setHandler, hdc] using hd)
  next d t hd := by
    by_cases hdc : d = c
    · subst hdc
      simp [State.setHandler, Handler.next] at hd
    · exact h.next d t (by simpa [State.setHandler, hdc] using hd)
  sleepIrq d from_ hd := by
    obtain ⟨r', hr'⟩ := Option.ne_none_iff_exists'.mp hd
    exact h.sleepIrq d from_ (by simp [of_cleared (by simp) hr'])
  named := h.named
  saved := h.saved
  removing d r' hd := by
    by_cases hdc : d = c
    · subst hdc
      exact (h.current d (by rw [hc]; rfl)).resolve_right (h.sleepIrq d source (by simp [hr]))
    · exact h.removing d r' (by simpa [State.setHandler, hdc] using hd)
  hang d hd hno := by
    refine h.hang d hd fun o t hot => ?_
    by_cases hdc : d = c
    · subst hdc
      simp [hc] at hot
    · exact hno o t (by simpa [State.setHandler, hdc] using hot)

/-- The handler of core `c` moves a task, which no other core has as its current or next task, and goes
    on to `after`. -/
theorem relocate (after : Handler) {b : Place} (h : Placed s place)
    (hqueued : ∀ d p x, (s'.runningQ d p).array.count x =
      if Function.update place t b x = .queued d ∧ (s'.tasks x).p = p then 1 else 0)
    (hasleep : ∀ x, s'.sleepingQ.array.count x =
      if Function.update place t b x = .asleep then 1 else 0)
    (hcurrent : s'.currentTask = s.currentTask) (hirq : s'.sleepIrq = s.sleepIrq)
    (hregs : s'.regs = s.regs) (hcontext : ∀ x, (s'.tasks x).context = (s.tasks x).context)
    (hhandler : s'.handler = Function.update s.handler c after)
    (hplace : place t = .queued c ∨ place t = .asleep ∨ place t = .moving c)
    (hfrom : (∃ r, s.handler c = .sleepAdd r) ↔ place t = .moving c)
    (hto : (∃ r, after = .sleepAdd r) ↔ b = .moving c) (hmine : b = .moving c → s.currentTask c = t)
    (hb : b ≠ .absent ∧ ∀ d, d ≠ c → b ≠ .moving d)
    (hdisplaced : after.displaced = false → place t = .asleep ∧ (s.handler c).displaced = false)
    (hnext : after.next = none) (hremoving : ∀ r, after ≠ .sleepRemove r)
    (hset : ∀ o u, s.handler c ≠ .setCurrent o u) :
    Placed s' (Function.update place t b) := by
  have hother : ∀ d x, d ≠ c → place x = .queued d → x ≠ t := by
    rintro d x hd hx rfl
    simp [hx, hd] at hplace
  have habsent : ∀ x, place x = .absent → x ≠ t := by
    rintro x hx rfl
    simp [hx] at hplace
  have hcreated : ∀ x, Function.update place t b x = .absent ↔ place x = .absent := by
    intro x
    by_cases hx : x = t
    · subst hx
      rw [Function.update_self]
      exact ⟨fun hbx => absurd hbx hb.1, fun hx => absurd rfl (habsent x hx)⟩
    · rw [Function.update_of_ne hx]
  constructor
  case queued => exact hqueued
  case asleep => exact hasleep
  case moving =>
    intro d x
    have hold := h.moving d x
    have hcur := h.moving c t
    rw [hcurrent, hhandler]
    by_cases hd : d = c
    · subst hd
      rw [Function.update_self, hto]
      by_cases hx : x = t
      · subst hx
        rw [Function.update_self]
        exact ⟨fun hb' => ⟨hb', hmine hb'⟩, And.left⟩
      · rw [Function.update_of_ne hx, hold, hfrom]
        exact ⟨fun ⟨ht, hcx⟩ => absurd (hcx.symm.trans (hcur.mp ht).2) hx,
          fun ⟨hb', hcx⟩ => absurd (hcx.symm.trans (hmine hb')) hx⟩
    · rw [Function.update_of_ne hd, ← hold]
      by_cases hx : x = t
      · subst hx
        rw [Function.update_self]
        exact ⟨fun hb' => absurd hb' (hb.2 d hd), fun ht => by simp [ht, hd] at hplace⟩
      · rw [Function.update_of_ne hx]
  case current =>
    intro d hd
    rw [hhandler] at hd
    rw [hcurrent]
    by_cases hdc : d = c
    · subst hdc
      obtain ⟨hasl, hdis⟩ := hdisplaced (by simpa using hd)
      have hcur := h.current d hdis
      rwa [Function.update_of_ne (by rintro heq; simp [heq, hasl] at hcur)]
    · have hcur := h.current d (by simpa [hdc] using hd)
      rwa [Function.update_of_ne (hcur.elim (hother d _ hdc) (habsent _))]
  case next =>
    intro d x hd
    rw [hhandler] at hd
    by_cases hdc : d = c
    · subst hdc
      simp [hnext] at hd
    · have hx := h.next d x (by simpa [hdc] using hd)
      rwa [Function.update_of_ne (hother d x hdc hx)]
  case sleepIrq =>
    intro d source hd
    rw [hcurrent]
    exact mt (hcreated _).mp (h.sleepIrq d source (hirq ▸ hd))
  case named =>
    intro d e hd
    rw [hcurrent]
    exact mt (hcreated _).mp (h.named d e (hregs ▸ hd))
  case saved =>
    intro x d hx hd
    rw [hcurrent]
    exact mt (hcreated _).mp (h.saved x d (mt (hcreated x).mpr hx) (hcontext x ▸ hd))
  case removing =>
    intro d r hd
    rw [hhandler] at hd
    rw [hcurrent]
    by_cases hdc : d = c
    · subst hdc
      exact absurd (by simpa using hd) (hremoving r)
    · have hcur := h.removing d r (by simpa [hdc] using hd)
      rwa [Function.update_of_ne (hother d _ hdc hcur)]
  case hang =>
    intro d hd hno
    rw [hcurrent] at hd
    rw [hhandler] at hno
    rw [hregs]
    have hne : s.currentTask d ≠ t := by
      rintro heq
      rw [heq, Function.update_self] at hd
      exact hb.1 hd
    rw [Function.update_of_ne hne] at hd
    refine h.hang d hd fun o u hou => ?_
    by_cases hdc : d = c
    · exact hset o u (hdc ▸ hou)
    · exact hno o u (by rwa [Function.update_of_ne hdc])

/-- The current task leaves its run queue. -/
theorem sleepRemove (h : Placed s place) (hc : s.handler c = .sleepRemove r)
    (hs : s.sleepRemove c r = some s') :
    Placed s' (Function.update place (s.currentTask c) (.moving c)) := by
  have hplace := h.removing c r hc
  obtain ⟨q, hperm, rfl⟩ := sleepRemove_spec (h.mem_runningQ hplace) hs
  refine h.relocate (.sleepAdd r) ?_ ?_ rfl rfl rfl (fun _ => rfl) rfl (.inl hplace) ?_ (by simp)
    (by simp) (by simp [eq_comm]) nofun rfl nofun (by simp [hc])
  · intro d p x
    have hcount := count_of_perm_cons hperm x
    rw [h.queued] at hcount
    refine (setRunningQ_count s c d _ p q x).trans ?_
    rw [h.queued]
    change _ = if _ ∧ (s.tasks x).p = p then 1 else 0
    by_cases hx : x = s.currentTask c
    · subst hx
      simp only [hplace, Function.update_self] at hcount ⊢
      grind
    · rw [Function.update_of_ne hx]
      grind
  · intro x
    refine (h.asleep x).trans ?_
    by_cases hx : x = s.currentTask c
    · subst hx
      simp [hplace]
    · rw [Function.update_of_ne hx]
  · simp [hc, hplace]

/-- The current task enters `sleepingQ`. -/
theorem sleepAdd (h : Placed s place) (hc : s.handler c = .sleepAdd r)
    (hs : s.sleepAdd c = some s') : Placed s' (Function.update place (s.currentTask c) .asleep) := by
  have hplace : place (s.currentTask c) = .moving c := (h.moving c _).mpr ⟨⟨r, hc⟩, rfl⟩
  obtain ⟨-, rfl⟩ := sleepAdd_spec hs
  refine h.relocate (.check .sleep) ?_ ?_ rfl rfl rfl (fun _ => rfl) rfl (.inr (.inr hplace)) ?_
    (by simp) nofun (by simp) nofun rfl nofun (by simp [hc])
  · intro d p x
    refine (h.queued d p x).trans ?_
    change _ = if _ ∧ (s.tasks x).p = p then 1 else 0
    by_cases hx : x = s.currentTask c
    · subst hx
      simp [hplace]
    · simp only [Function.update_of_ne hx]
  · intro x
    refine (count_add s.sleepingQ _ x).trans ?_
    rw [h.asleep]
    by_cases hx : x = s.currentTask c
    · subst hx
      simp [hplace]
    · simp [hx]
  · simp [hc, hplace]

/-- A wake-up pass moves a task to a run queue. -/
theorem wakeUpMove {pass : Pass} {n : Core} (h : Placed s place) (g : s.Guarded)
    (hc : s.handler c = .move pass t n) (hs : s.wakeUpMove c pass t n = some s') :
    Placed s' (Function.update place t (.queued n)) := by
  have hplace : place t = .asleep := h.waking_asleep g (c := c) (by rw [hc]; rfl)
  obtain ⟨q, hperm, -, rfl⟩ := wakeUpMove_spec
    (g.searchable c ((g.inside_iff c).mp (by rw [hc]; rfl))) (h.mem_sleepingQ_iff.mpr hplace) hs
  refine h.relocate (.scan pass 0) ?_ ?_ rfl rfl rfl (fun _ => rfl) rfl (.inr (.inl hplace)) ?_
    (by simp) nofun (by simp) (fun _ => ⟨hplace, by rw [hc]; rfl⟩) rfl nofun (by simp [hc])
  · intro d p x
    refine (setRunningQ_count { s with sleepingQ := q } n d _ p _ x).trans ?_
    change (if _ then _ else (s.runningQ d p).array.count x) = if _ ∧ (s.tasks x).p = p then 1 else 0
    rw [count_add, h.queued, h.queued]
    by_cases hx : x = t
    · subst hx
      simp only [hplace, Function.update_self]
      grind
    · rw [Function.update_of_ne hx]
      grind
  · intro x
    have hcount := count_of_perm_cons hperm x
    rw [h.asleep] at hcount
    change q.array.count x = _
    by_cases hx : x = t
    · subst hx
      simp only [hplace, if_true] at hcount
      simp only [Function.update_self, reduceCtorEq, if_false]
      omega
    · rw [Function.update_of_ne hx]
      simpa [hx] using hcount.symm
  · simp [hc, hplace]

/-! ### Switching tasks -/

/-- The registers of the next task are loaded. -/
theorem load {o : Origin} (h : Placed s place) (hc : s.handler c = .load o t) :
    Placed (s.load c o t) place := by
  have hdis : (Handler.setCurrent o t).displaced = (s.handler c).displaced := by
    rw [hc]
    cases o <;> rfl
  constructor
  case queued => exact h.queued
  case asleep => exact h.asleep
  case moving =>
    intro d x
    rw [h.moving]
    by_cases hd : d = c
    · subst hd
      simp [State.load, State.setHandler, hc]
    · simp [State.load, State.setHandler, State.setRegs, hd]
  case current =>
    intro d hd
    refine h.current d ?_
    by_cases hdc : d = c
    · subst hdc
      rw [← hdis]
      simpa [State.load, State.setHandler] using hd
    · simpa [State.load, State.setHandler, State.setRegs, hdc] using hd
  case next =>
    intro d x hd
    refine h.next d x ?_
    by_cases hdc : d = c
    · subst hdc
      rw [hc]
      simpa [State.load, State.setHandler, Handler.next] using hd
    · simpa [State.load, State.setHandler, State.setRegs, hdc] using hd
  case sleepIrq => exact h.sleepIrq
  case named =>
    intro d e hd
    by_cases hdc : d = c
    · subst hdc
      refine h.saved t e ?_ (by simpa [State.load, State.setHandler, State.setRegs] using hd)
      rw [h.next d t (by rw [hc]; rfl)]
      rintro ⟨⟩
    · exact h.named d e (by simpa [State.load, State.setHandler, State.setRegs, hdc] using hd)
  case saved => exact h.saved
  case removing =>
    intro d r hd
    by_cases hdc : d = c
    · subst hdc
      simp [State.load, State.setHandler] at hd
    · exact h.removing d r (by simpa [State.load, State.setHandler, State.setRegs, hdc] using hd)
  case hang =>
    intro d hd hno
    by_cases hdc : d = c
    · subst hdc
      exact absurd (by simp [State.load, State.setHandler]) (hno o t)
    · have hhang := h.hang d hd fun o' u hou => hno o' u
        (by simpa [State.load, State.setHandler, State.setRegs, hdc] using hou)
      simpa [State.load, State.setHandler, State.setRegs, hdc] using hhang

/-- The next task becomes the current one. -/
theorem setCurrent {o : Origin} (h : Placed s place) (hc : s.handler c = .setCurrent o t) :
    Placed (s.setCurrent c o t) place := by
  have ht : place t = .queued c := h.next c t (by rw [hc]; rfl)
  have hafter : o.after.displaced = false ∧ o.after.next = none ∧
      (∀ r, o.after ≠ .sleepRemove r) ∧ ∀ r, o.after ≠ .sleepAdd r := by
    cases o <;> simp [Origin.after, Handler.displaced, Handler.next]
  obtain ⟨-, hnext, hrem, hadd⟩ := hafter
  have hcreated : ∀ d, place (s.currentTask d) ≠ .absent →
      place ((s.setCurrent c o t).currentTask d) ≠ .absent := by
    intro d hd
    by_cases hdc : d = c
    · subst hdc
      simp [State.setCurrent, State.setHandler, ht]
    · simpa [State.setCurrent, State.setHandler, hdc] using hd
  constructor
  case queued => exact h.queued
  case asleep => exact h.asleep
  case moving =>
    intro d x
    rw [h.moving]
    by_cases hd : d = c
    · subst hd
      simp [State.setCurrent, State.setHandler, hc, hadd]
    · simp [State.setCurrent, State.setHandler, hd]
  case current =>
    intro d hd
    by_cases hdc : d = c
    · subst hdc
      exact .inl (by simpa [State.setCurrent, State.setHandler] using ht)
    · have hcur := h.current d (by simpa [State.setCurrent, State.setHandler, hdc] using hd)
      simpa [State.setCurrent, State.setHandler, hdc] using hcur
  case next =>
    intro d x hd
    by_cases hdc : d = c
    · subst hdc
      simp [State.setCurrent, State.setHandler, hnext] at hd
    · exact h.next d x (by simpa [State.setCurrent, State.setHandler, hdc] using hd)
  case sleepIrq => exact fun d source hd => hcreated d (h.sleepIrq d source hd)
  case named => exact fun d e hd => hcreated e (h.named d e hd)
  case saved => exact fun x d hx hd => hcreated d (h.saved x d hx hd)
  case removing =>
    intro d r hd
    by_cases hdc : d = c
    · subst hdc
      exact absurd (by simpa [State.setCurrent, State.setHandler] using hd) (hrem r)
    · have hcur := h.removing d r (by simpa [State.setCurrent, State.setHandler, hdc] using hd)
      simpa [State.setCurrent, State.setHandler, hdc] using hcur
  case hang =>
    intro d hd hno
    by_cases hdc : d = c
    · subst hdc
      simp [State.setCurrent, State.setHandler, ht] at hd
    · exact h.hang d (by simpa [State.setCurrent, State.setHandler, hdc] using hd) fun o' u hou =>
        hno o' u (by simpa [State.setCurrent, State.setHandler, hdc] using hou)

end Placed

/-! ### Every step -/

/-- Where the tasks are after a step. -/
def placeAfter (s : State β) (place : TaskId → Place) : Event β → TaskId → Place
  | .handle c _ =>
    match s.handler c with
    | .sleepRemove _ => Function.update place (s.currentTask c) (.moving c)
    | .sleepAdd _ => Function.update place (s.currentTask c) .asleep
    | .move _ t nextCore => Function.update place t (.queued nextCore)
    | _ => place
  | _ => place

/-- A handler goes on outside the sections that move tasks. -/
theorem Placed.go {after : Handler} (h : Placed s place) (hfrom : (s.handler c).turning = false)
    (hto : after.turning = false)
    (hdisplaced : after.displaced = false → (s.handler c).displaced = false)
    (hnext : ∀ t, after.next = some t → place t = .queued c) :
    Placed (s.setHandler c after) place :=
  h.advance rfl (fun _ => rfl) rfl rfl rfl (fun _ => rfl) (fun _ => .inl rfl) rfl hfrom hto hdisplaced
    hnext

theorem updateTask_p {f : Task β → Task β} (hf : ∀ task, (f task).p = task.p) (t x : TaskId) :
    ((s.updateTask t f).tasks x).p = (s.tasks x).p := updateTask_keeps Task.p hf s t x

theorem placed_handle {reading : Nat} (h : Placed s place) (g : s.Guarded)
    (hok : s.handler c = .check .sleep → s.isPreamptable c = true)
    (hs : handle s c reading = some s') : Placed s' (placeAfter s place (.handle c reading)) := by
  unfold handle at hs
  cases hc : s.handler c with
  | none => simp [hc] at hs
  | halted => simp [hc] at hs
  | sleepRemove r =>
    simp only [placeAfter, hc] at hs ⊢
    exact h.sleepRemove hc hs
  | sleepAdd r =>
    simp only [placeAfter, hc] at hs ⊢
    exact h.sleepAdd hc hs
  | begin pass =>
    simp only [placeAfter, hc] at hs ⊢
    obtain ⟨-, q, hperm, -, rfl⟩ := wakeUpBegin_spec hs
    exact h.advance rfl (fun t => hperm.count_eq t) rfl rfl rfl (fun _ => rfl) (fun _ => .inl rfl) rfl
      (by rw [hc]; rfl) rfl (fun _ => by rw [hc]; rfl) (by rintro _ ⟨⟩)
  | scan pass index =>
    simp only [placeAfter, hc, Option.some.injEq] at hs ⊢
    subst hs
    obtain ⟨-, heq⟩ | ⟨t, -, -, heq⟩ | ⟨t, -, -, heq⟩ := wakeUpScan_cases s c pass index reading
    · rw [heq]
      refine h.advance rfl (fun _ => rfl) rfl rfl rfl (fun _ => rfl) (fun _ => .inl rfl) rfl
        (by rw [hc]; rfl) ?_ (fun _ => by rw [hc]; rfl) ?_ <;> cases pass <;>
        simp [Pass.after, Handler.turning, Handler.next]
    · rw [heq]
      refine h.advance rfl (fun _ => rfl) rfl rfl rfl (updateTask_p (clear_p pass) t)
        (fun u => .inl (updateTask_keeps Task.context (clear_context pass) s t u)) rfl
        (by rw [hc]; rfl) ?_ (fun _ => by rw [hc]; rfl) ?_ <;> unfold State.afterReady <;> split <;>
        simp [Handler.turning, Handler.next]
    · rw [heq]
      exact h.go (by rw [hc]; rfl) rfl (fun _ => by rw [hc]; rfl) (by rintro _ ⟨⟩)
  | calcCore pass t i count out =>
    simp only [placeAfter, hc, Option.some.injEq] at hs ⊢
    subst hs
    obtain ⟨i', count', out', heq⟩ | heq := calcNextCore_cases s c pass t i count out <;> rw [heq]
    · exact h.go (by rw [hc]; rfl) rfl (fun _ => by rw [hc]; rfl) (by rintro _ ⟨⟩)
    · exact h.go (by rw [hc]; rfl) rfl (fun _ => by rw [hc]; rfl) (by rintro _ ⟨⟩)
  | move pass t n =>
    simp only [placeAfter, hc] at hs ⊢
    exact h.wakeUpMove g hc hs
  | check o =>
    simp only [placeAfter, hc, Option.some.injEq] at hs ⊢
    subst hs
    by_cases hpre : s.isPreamptable c = true
    · rw [if_pos hpre]
      refine h.go (by rw [hc]; rfl) rfl ?_ (by rintro _ ⟨⟩)
      rw [hc]
      cases o <;> simp [Handler.displaced]
    · rw [if_neg hpre]
      -- a sleep interrupt finds preemption enabled, so the handler goes on without a switch
      -- only for the other two
      cases o with
      | sleep => exact absurd (hok hc) hpre
      | timer => exact h.go (by rw [hc]; rfl) rfl (fun _ => by rw [hc]; rfl) (by rintro _ ⟨⟩)
      | reschedule => exact h.go (by rw [hc]; rfl) rfl (fun _ => by rw [hc]; rfl) (by rintro _ ⟨⟩)
  | pick o =>
    simp only [placeAfter, hc, Option.some.injEq] at hs ⊢
    subst hs
    obtain ⟨t, hpick, heq⟩ | heq := pick_cases s c o reading <;> rw [heq]
    · obtain ⟨p, -, hmem⟩ := pickNext_spec hpick
      refine h.go (by rw [hc]; rfl) rfl ?_ ?_
      · rw [hc]
        cases o <;> simp [Handler.displaced]
      · rintro t' ⟨⟩
        exact (h.of_mem_runningQ hmem).1
    · exact h.go (by rw [hc]; rfl) rfl (by rintro ⟨⟩) (by rintro _ ⟨⟩)
  | save o t =>
    simp only [placeAfter, hc, Option.some.injEq] at hs ⊢
    subst hs
    refine h.advance rfl (fun _ => rfl) rfl rfl rfl
      (updateTask_p (f := fun task => { task with context := s.regs c }) (fun _ => rfl) _) (fun u => ?_)
      rfl (by rw [hc]; rfl) rfl ?_ ?_
    · change ((s.updateTask (s.currentTask c) fun task =>
        { task with context := s.regs c }).tasks u).context = _ ∨ _
      by_cases hu : u = s.currentTask c
      · exact .inr ⟨c, by simp [State.save, State.setHandler, State.updateTask, hu]⟩
      · exact .inl (by simp [State.updateTask, hu])
    · rw [hc]
      cases o <;> simp [Handler.displaced]
    · rintro t' ⟨⟩
      exact h.next c t (by rw [hc]; rfl)
  | load o t =>
    simp only [placeAfter, hc, Option.some.injEq] at hs ⊢
    exact hs ▸ h.load hc
  | setCurrent o t =>
    simp only [placeAfter, hc, Option.some.injEq] at hs ⊢
    exact hs ▸ h.setCurrent hc
  | sendReschedule =>
    simp only [placeAfter, hc, Option.some.injEq] at hs ⊢
    subst hs
    exact h.advance rfl (fun _ => rfl) rfl rfl rfl (fun _ => rfl) (fun _ => .inl rfl) rfl
      (by rw [hc]; rfl) rfl (fun _ => by rw [hc]; rfl) (by rintro _ ⟨⟩)

/-- Every step of any tasks keeps every task where `placeAfter` says. -/
theorem placed_step {code : Code β} {e : Event β} (h : Placed s place) (g : s.Guarded)
    (hok : preemptible s e = true) (hs : step code s e = some s') :
    Placed s' (placeAfter s place e) := by
  cases e with
  | timer =>
    obtain ⟨hc, rfl⟩ := takeTimer_spec hs
    exact h.go (by rw [hc]; rfl) rfl (fun _ => by rw [hc]; rfl) nofun
  | interrupt c irq source =>
    cases irq with
    | reschedule =>
      obtain ⟨hc, -, rfl⟩ := takeInterrupt_reschedule hs
      exact h.advance rfl (fun _ => rfl) rfl rfl rfl (fun _ => rfl) (fun _ => .inl rfl) rfl
        (by rw [hc]; rfl) rfl (fun _ => by rw [hc]; rfl) nofun
    | sleep =>
      obtain ⟨hc, r, hr, rfl⟩ := takeInterrupt_sleep hs
      exact h.take_sleep hc hr
    | wakeUpAll =>
      obtain ⟨hc, -, rfl⟩ := takeInterrupt_wakeUpAll hs
      exact h.advance rfl (fun _ => rfl) rfl rfl rfl (fun _ => rfl) (fun _ => .inl rfl) rfl
        (by rw [hc]; rfl) rfl (fun _ => by rw [hc]; rfl) nofun
  | handle c reading =>
    refine placed_handle h g (fun hc => ?_) hs
    simpa [preemptible, hc] using hok
  | call c call ret counter =>
    obtain ⟨hc, ⟨b, hb, -⟩, rfl⟩ := step_call hs
    exact h.task_step placesKept_setRegs hc (by simp [hb]) rfl (by simp [call.begin_core])
      fun _ _ _ hr => .inl hr
  | resume c exclusive counter =>
    obtain ⟨hc, hr⟩ := step_resume hs
    obtain ⟨hregs, point, hpoint, -, hcore⟩ := hr.point
    refine h.task_step hr.placesKept hc hregs hpoint hcore fun d source r hd => ?_
    exact (hr.sleepIrq hd).imp_right fun ⟨_, _, send, hsend, _⟩ => by rw [hsend]; rfl

/-! ### Runs -/

/-- Where the tasks are after boot. -/
def bootPlace (home : TaskId → Option Core) (t : TaskId) : Place :=
  match home t with
  | some c => .queued c
  | none => .absent

theorem bootPlace_eq_queued {home : TaskId → Option Core} :
    bootPlace home t = .queued c ↔ home t = some c := by
  unfold bootPlace
  split <;> simp_all

theorem bootPlace_ne {home : TaskId → Option Core} :
    bootPlace home t ≠ .asleep ∧ ∀ d, bootPlace home t ≠ .moving d := by
  unfold bootPlace
  split <;> simp

theorem placed_of_booted {home : TaskId → Option Core} (h : Booted home s) :
    Placed s (bootPlace home) where
  queued c p t := by simp only [h.queued, bootPlace_eq_queued]
  asleep t := by simp [h.sleepingQ, bootPlace_ne.1]
  moving c t := by simp [h.handler, bootPlace_ne.2]
  current c _ := .inr (by simp [bootPlace, h.boot])
  next c t ht := by simp [h.handler, Handler.next] at ht
  sleepIrq c source hr := by simp [h.sleepIrq] at hr
  named c d hd := by simp [h.hang, Point.core] at hd
  saved t d _ hd := by
    rcases h.entry t with hhang | ⟨place, hplace⟩
    · simp [hhang, Point.core] at hd
    · simp [hplace, Point.core] at hd
  removing c r hr := by simp [h.handler] at hr
  hang c _ _ := h.hang c

theorem guarded_of_booted {home : TaskId → Option Core} (h : Booted home s) : s.Guarded where
  inside_iff c := by simp [h.handler, h.sleepingQLock, Handler.inSleepingQ]
  searchable c hc := by simp [h.sleepingQLock] at hc
  waking c t ht := by simp [h.handler, Handler.waking] at ht

/-- The section guarded by `sleepingQLock` is guarded in every run. -/
theorem guarded_of_run {home : TaskId → Option Core} {code : Code β} {ok : State β → Event β → Bool}
    {s₀ : State β} (hboot : Booted home s₀) (hrun : RunWhere (step code) ok s₀ s) : s.Guarded :=
  hrun.invariant (guarded_of_booted hboot) fun _ _ _ g _ hs => guarded_step g hs

end Rpi4Kernel.Sched
