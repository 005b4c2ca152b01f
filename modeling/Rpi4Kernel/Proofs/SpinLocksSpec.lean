/-
Module: Rpi4Kernel.Proofs.SpinLocksSpec
Layer: Proofs
Purpose: No spinlock deadlock in scheduling and allocation. Every section of a handler and every section
  that a task runs with interrupts masked is an ascending program over the locks, so in every run each
  core acquires them in their order, and a task that is interrupted holds none.
Trusted boundary: none (fully proved)
Main exports: step_other, TaskPlace.Valid, Disciplined, disciplined_step, locksInOrder_of_run
-/
import Rpi4Kernel.Proofs.KernelBootSpec
import Rpi4Kernel.Proofs.PlacementSpec
import Rpi4Kernel.Sched.SpinLocks

namespace Rpi4Kernel.Sched

open Rpi4Kernel.Stdlib Rpi4Kernel.Theory

variable {c d : Core} {l x : SchedLock} {side : Side}

/-! ### A step leaves the other cores where they are -/

section Frame

variable {β : Type} {s s' : State β}

theorem handlerStep_other {reading : Nat} (hs : HandlerStep s c reading s') (hd : d ≠ c) :
    s'.handler d = s.handler d ∧ s'.regs d = s.regs d := by
  cases hs with
  | loaded phase =>
    exact ⟨Function.update_of_ne hd _ _, Function.update_of_ne hd _ _⟩
  | _ => exact ⟨Function.update_of_ne hd _ _, rfl⟩

theorem step_other {code : Code β} {e : Event β} (g : s.Guarded) (hs : step code s e = some s')
    (hd : d ≠ e.core) : s'.handler d = s.handler d ∧ s'.regs d = s.regs d := by
  cases e with
  | timer =>
    obtain ⟨-, rfl⟩ := takeTimer_spec hs
    exact ⟨Function.update_of_ne hd _ _, rfl⟩
  | interrupt c irq source =>
    obtain ⟨-, _, _, _, _, -, rfl⟩ := takeInterrupt_frame hs
    exact ⟨Function.update_of_ne hd _ _, rfl⟩
  | handle c reading => exact handlerStep_other (handlerStep_of_handle g hs) hd
  | call c call ret counter =>
    obtain ⟨-, -, rfl⟩ := step_call hs
    exact ⟨rfl, Function.update_of_ne hd _ _⟩
  | resume c exclusive counter =>
    obtain ⟨-, ts⟩ := step_resume hs
    obtain ⟨-, point, hregs, -⟩ := ts.point
    rw [hregs]
    exact ⟨congrFun ts.placesKept.handler d, Function.update_of_ne hd _ _⟩

/-- All steps but those of the handlers are made on cores that handle no interrupt. -/
theorem handler_of_step {code : Code β} {e : Event β} (hs : step code s e = some s')
    (he : ∀ reading, e ≠ .handle e.core reading) : s.handler e.core = .none := by
  cases e with
  | timer => exact (takeTimer_spec hs).1
  | interrupt c irq source => exact (takeInterrupt_frame hs).1
  | handle c reading => exact absurd rfl (he reading)
  | call c call ret counter => exact (step_call hs).1
  | resume c exclusive counter => exact (step_resume hs).1

end Frame

/-! ### The operations -/

theorem addOps_cases {α : Type} (list : ArrayList α) : addOps list = [] ∨ addOps list = reallocate := by
  unfold addOps
  split
  · exact .inr rfl
  · exact .inl rfl

/-- A program of a handler: ascending, and the only lock that it acquires is the one of the
    allocator. -/
def HandlerProgram (ops : List LockOp) : Prop :=
  ascending SchedLock.rank ops = true ∧ ∀ l, .acquire l ∈ ops → l = .heapLock

theorem handlerProgram_nil : HandlerProgram [] := ⟨rfl, nofun⟩

theorem handlerProgram_release (l : SchedLock) : HandlerProgram [.release l] :=
  ⟨rfl, fun x hx => by simp at hx⟩

theorem HandlerProgram.tail {op : LockOp} {ops : List LockOp} (h : HandlerProgram (op :: ops)) :
    HandlerProgram ops :=
  ⟨ascending_tail h.1, fun l hl => h.2 l (List.mem_cons_of_mem _ hl)⟩

/-- A queue append under a lock of the scheduler: the lock is held throughout, the heap lock above
    it. -/
theorem append_program {α : Type} (list : ArrayList α) (hl : l ≠ .heapLock) :
    HandlerProgram (addOps list ++ [.release l]) ∧ l ∈ expects (addOps list ++ [.release l]) := by
  have hrank : l.rank < SchedLock.rank .heapLock := by
    cases l with
    | heapLock => exact absurd rfl hl
    | sleepingQLock => exact Nat.zero_lt_two
    | runningQLock core => exact Nat.one_lt_two
  obtain h | h := addOps_cases list <;> rw [h]
  · exact ⟨handlerProgram_release l, by simp⟩
  · refine ⟨⟨?_, fun x hx => ?_⟩, ?_⟩
    · simp [reallocate, heapAlloc, heapFree, ascending, hl, hrank]
    · simpa [reallocate, heapAlloc, heapFree] using hx
    · simp [reallocate, heapAlloc, heapFree, hl]

theorem opsAfter_program {β : Type} (s : State β) (c : Core) (h : Handler) :
    HandlerProgram (opsAfter s c h) := by
  cases h with
  | sleepRemove r => exact handlerProgram_release _
  | sleepAdd r => exact (append_program (l := .sleepingQLock) _ nofun).1
  | scan pass index =>
    simp only [opsAfter]
    split
    · exact handlerProgram_release _
    · exact handlerProgram_nil
  | calcCore pass t i count out =>
    simp only [opsAfter]
    split
    · exact handlerProgram_release _
    · exact handlerProgram_nil
  | move pass t nextCore =>
    simp only [opsAfter]
    split
    · exact (append_program (l := .runningQLock nextCore) _ nofun).1
    · exact handlerProgram_nil
  | pick o => exact handlerProgram_release _
  | _ => exact handlerProgram_nil

/-- What guards the section of a handler is held on: by what follows the section, or because the handler
    is still among the sleeping tasks. -/
theorem held_after_handle {β : Type} {s s' : State β} {reading : Nat} (g : s.Guarded)
    (hs : handle s c reading = some s')
    (hl : (l = .sleepingQLock ∧ (s.handler c).inSleepingQ = true) ∨ lockFor c (s.handler c) = some l) :
    l ∈ expects (opsAfter s c (s.handler c)) ∨
      (l = .sleepingQLock ∧ (s'.handler c).inSleepingQ = true) := by
  cases handlerStep_of_handle g hs with
  | removed q phase sub =>
    left
    simp only [phase, Handler.inSleepingQ, lockFor, Option.some.injEq] at hl
    simp [phase, opsAfter, hl.resolve_left (by simp)]
  | added phase free =>
    left
    simp only [phase, Handler.inSleepingQ, lockFor, Option.some.injEq] at hl
    rw [phase, ← hl.resolve_left (by simp)]
    exact (append_program (l := .sleepingQLock) _ (by simp)).2
  | begun phase free perm =>
    right
    simp only [phase, Handler.inSleepingQ, lockFor, Option.some.injEq] at hl
    exact ⟨(hl.resolve_left (by simp)).symm, by simp [State.setHandler, Handler.inSleepingQ]⟩
  | @ended pass index phase all =>
    left
    simp only [phase, Handler.inSleepingQ, lockFor, and_true, reduceCtorEq, or_false] at hl
    have hget : s.sleepingQ.get (index : Int) = none := by
      simpa [ArrayList.get, readAt] using all
    simp [phase, opsAfter, hget, hl]
  | found phase slot ready =>
    right
    simp only [phase, Handler.inSleepingQ, lockFor, and_true, reduceCtorEq, or_false] at hl
    exact ⟨hl, by simp [State.setHandler, afterReady_inSleepingQ]⟩
  | passed phase slot waits =>
    right
    simp only [phase, Handler.inSleepingQ, lockFor, and_true, reduceCtorEq, or_false] at hl
    exact ⟨hl, by simp [State.setHandler, Handler.inSleepingQ]⟩
  | @compared pass t i count i' count' out out' phase =>
    simp only [phase, Handler.inSleepingQ, lockFor, and_true] at hl
    rcases hl with hl | hl
    · exact .inr ⟨hl, by simp [State.setHandler, Handler.inSleepingQ]⟩
    · left
      split at hl <;> simp_all [opsAfter]
  | @chosen pass t i count out phase =>
    simp only [phase, Handler.inSleepingQ, lockFor, and_true] at hl
    rcases hl with hl | hl
    · exact .inr ⟨hl, by simp [State.setHandler, Handler.inSleepingQ]⟩
    · left
      split at hl <;> simp_all [opsAfter]
  | @moved pass t n q phase perm =>
    simp only [phase, Handler.inSleepingQ, lockFor, and_true, Option.some.injEq] at hl
    rcases hl with hl | hl
    · exact .inr ⟨hl, by simp [State.setHandler, Handler.inSleepingQ]⟩
    · left
      obtain ⟨q', hq', -⟩ := ArrayList.removeElement_spec
        (g.searchable c ((g.inside_iff c).mp (by rw [phase]; rfl)))
        (g.waking c t (by rw [phase]; rfl))
      simp only [phase, opsAfter, hq', ← hl]
      exact (append_program (l := .runningQLock n) _ (by simp)).2
  | allowed phase _ => simp [phase, Handler.inSleepingQ, lockFor] at hl
  | refused phase _ => simp [phase, Handler.inSleepingQ, lockFor] at hl
  | picked phase _ =>
    left
    simp only [phase, Handler.inSleepingQ, lockFor, Option.some.injEq] at hl
    simp [phase, opsAfter, hl.resolve_left (by simp)]
  | uninitialized phase =>
    left
    simp only [phase, Handler.inSleepingQ, lockFor, Option.some.injEq] at hl
    simp [phase, opsAfter, hl.resolve_left (by simp)]
  | saved phase => simp [phase, Handler.inSleepingQ, lockFor] at hl
  | loaded phase => simp [phase, Handler.inSleepingQ, lockFor] at hl
  | switched phase => simp [phase, Handler.inSleepingQ, lockFor] at hl
  | sent phase => simp [phase, Handler.inSleepingQ, lockFor] at hl

/-! ### The places of the tasks -/

/-- Interrupts are masked wherever locks are held. -/
def maskedWhile : Bool → List LockOp → Bool
  | _, [] => true
  | masked, op :: ops =>
    (masked || (expects (op :: ops)).isEmpty) && maskedWhile (LockOp.masks op masked) ops

/-- What is left to do at a place is ascending, and it holds locks only with interrupts masked. -/
structure TaskPlace.Valid (place : TaskPlace) : Prop where
  ascending : ascending SchedLock.rank place.ops = true
  masked : maskedWhile place.masked place.ops = true

/-- The place of a point is valid. -/
def Point.Valid (point : Point TaskPlace) : Prop := ∀ place, point.ret = some place → place.Valid

theorem valid_of_section {point : KernelPoint} {masked : Bool} {ops : List LockOp}
    (h : ops ∈ sections point) : TaskPlace.Valid ⟨point, masked, ops⟩ := by
  cases point <;> simp only [sections, List.mem_cons, List.not_mem_nil, or_false] at h
  case painting =>
    rcases h with rfl | rfl <;> cases masked <;> exact ⟨by decide, by decide⟩
  all_goals
    subst h
    cases masked <;> exact ⟨by decide, by decide⟩

theorem TaskPlace.Valid.tail {point : KernelPoint} {masked : Bool} {op : LockOp} {ops : List LockOp}
    (h : TaskPlace.Valid ⟨point, masked, op :: ops⟩) :
    TaskPlace.Valid ⟨point, LockOp.masks op masked, ops⟩ where
  ascending := ascending_tail h.ascending
  masked := ((Bool.and_eq_true _ _).mp h.masked).2

/-- A place with interrupts unmasked holds nothing. -/
theorem TaskPlace.Valid.expects_eq_nil {place : TaskPlace} (h : place.Valid)
    (hmask : place.masked = false) : expects place.ops = [] := by
  obtain ⟨point, masked, ops⟩ := place
  cases ops with
  | nil => rfl
  | cons op ops =>
    have hm := ((Bool.and_eq_true _ _).mp h.masked).1
    rw [hmask, Bool.false_or] at hm
    exact List.isEmpty_iff.mp hm

theorem lockCode_valid {place ret : TaskPlace} {call : Call} (h : place.Valid)
    (hcode : lockCode place call ret = true) : ret.Valid := by
  obtain ⟨point, masked, ops⟩ := place
  cases ops with
  | nil =>
    simp only [lockCode, Bool.and_eq_true, decide_eq_true_eq] at hcode
    exact valid_of_section hcode.2
  | cons op ops =>
    simp only [lockCode, Bool.and_eq_true, decide_eq_true_eq] at hcode
    rw [hcode.2]
    exact h.tail

section Points

variable {s s' : State TaskPlace}

/-- The points of a system: where the cores stand and where the tasks go on. -/
structure Points (s : State TaskPlace) : Prop where
  regs : ∀ c, (s.regs c).Valid
  context : ∀ t, (s.tasks t).context.Valid

theorem Points.handlerStep {reading : Nat} (h : Points s) (hs : HandlerStep s c reading s') :
    Points s' := by
  cases hs with
  | @found pass index t phase slot ready =>
    refine ⟨h.regs, fun u => ?_⟩
    have hkeep : ((s.updateTask t (State.clear pass)).tasks u).context = (s.tasks u).context :=
      updateTask_keeps Task.context (fun task => by cases pass <;> rfl) s t u
    exact (congrArg Point.Valid hkeep).mpr (h.context u)
  | saved phase =>
    refine ⟨h.regs, fun u => ?_⟩
    have hfield := updateTask_field Task.context (fun task => { task with context := s.regs c }) s
      (s.currentTask c) u
    refine (congrArg Point.Valid hfield).mpr ?_
    split
    · exact h.regs c
    · exact h.context u
  | @loaded o t phase =>
    refine ⟨fun d => ?_, h.context⟩
    by_cases hd : d = c
    · subst hd
      simpa [State.load, State.setRegs, State.setHandler] using h.context t
    · simpa [State.load, State.setRegs, State.setHandler, hd] using h.regs d
  | _ => exact ⟨h.regs, h.context⟩

theorem Points.step {e : Event TaskPlace} (h : Points s) (g : s.Guarded)
    (hs : step lockCode s e = some s') : Points s' := by
  have hother : ∀ d, d ≠ e.core → (s'.regs d).Valid := fun d hd => by
    rw [(step_other g hs hd).2]
    exact h.regs d
  cases e with
  | timer =>
    obtain ⟨-, rfl⟩ := takeTimer_spec hs
    exact ⟨h.regs, h.context⟩
  | interrupt c irq source =>
    obtain ⟨-, _, _, _, _, -, rfl⟩ := takeInterrupt_frame hs
    exact ⟨h.regs, h.context⟩
  | handle c reading => exact h.handlerStep (handlerStep_of_handle g hs)
  | call c call ret counter =>
    obtain ⟨-, ⟨place, hplace, hcode⟩, rfl⟩ := step_call hs
    have hret : ret.Valid := lockCode_valid (h.regs c place (by rw [hplace]; rfl)) hcode
    refine ⟨fun d => ?_, h.context⟩
    by_cases hd : d = c
    · intro b hb
      have hself : (s.enter c call ret counter).regs c = call.begin ret counter :=
        Function.update_self _ _ _
      rw [hd, hself, Call.begin_ret] at hb
      cases hb
      exact hret
    · exact hother d hd
  | resume c exclusive counter =>
    obtain ⟨-, ts⟩ := step_resume hs
    obtain ⟨-, point, hregs, hret, -⟩ := ts.point
    refine ⟨fun d => ?_, fun t => ?_⟩
    · by_cases hd : d = c
      · intro b hb
        rw [hd, hregs, Function.update_self, hret] at hb
        exact h.regs c b hb
      · exact hother d hd
    · rw [ts.placesKept.context t]
      exact h.context t

end Points

/-! ### The steps of the locks -/

section Steps

variable {s s' : SpinState} {found : Bool}

/-- An operation changes who holds which lock: a lock is acquired, or it was held before and is not the
    one released. -/
theorem exec_spec {op : LockOp} (h : s.exec c side op found = some s') :
    ∃ owner panicked, s' = { s with owner := owner, panicked := panicked } ∧
      ∀ l d side', owner l = some (d, side') →
        (s.owner l = some (d, side') ∧ op ≠ .release l) ∨ (op = .acquire l ∧ d = c ∧ side' = side) := by
  cases op with
  | acquire l =>
    simp only [SpinState.exec] at h
    split at h <;> cases h
    refine ⟨_, _, rfl, fun x d side' hx => ?_⟩
    by_cases hxl : x = l
    · subst hxl
      rw [Function.update_self] at hx
      cases hx
      exact .inr ⟨rfl, rfl, rfl⟩
    · rw [Function.update_of_ne hxl] at hx
      exact .inl ⟨hx, nofun⟩
  | release l =>
    simp only [SpinState.exec, Option.some.injEq] at h
    subst h
    refine ⟨_, _, rfl, fun x d side' hx => ?_⟩
    by_cases hxl : x = l
    · subst hxl
      rw [Function.update_self] at hx
      cases hx
    · rw [Function.update_of_ne hxl] at hx
      exact .inl ⟨hx, fun heq => hxl (by cases heq; rfl)⟩
  | other a =>
    have hsame : ∀ l d side', s.owner l = some (d, side') →
        (s.owner l = some (d, side') ∧ (LockAction.other a : LockOp) ≠ .release l) ∨
          ((LockAction.other a : LockOp) = .acquire l ∧ d = c ∧ side' = side) :=
      fun l d side' hl => .inl ⟨hl, nofun⟩
    cases a with
    | checkNull =>
      simp only [SpinState.exec] at h
      split at h <;> cases h <;> exact ⟨_, _, rfl, hsame⟩
    | disableIRQ =>
      cases h
      exact ⟨_, _, rfl, hsame⟩
    | enableIRQ =>
      cases h
      exact ⟨_, _, rfl, hsame⟩

/-- The handler goes on with what is pending, or acquires the lock for its next section. -/
theorem handlerOp_cases (h : s.handlerOp c found = some s') :
    (∃ op ops s₁, s.pending c = op :: ops ∧ s.exec c .handler op found = some s₁ ∧
      s' = { s₁ with pending := Function.update s₁.pending c ops }) ∨
    (∃ l s₁, s.pending c = [] ∧ lockFor c (s.system.handler c) = some l ∧ s.entered c = false ∧
      s.exec c .handler (.acquire l) found = some s₁ ∧
      s' = { s₁ with entered := Function.update s₁.entered c true }) := by
  unfold SpinState.handlerOp at h
  cases hp : s.pending c with
  | cons op ops =>
    simp only [hp] at h
    obtain ⟨s₁, hs₁, rfl⟩ := Option.map_eq_some_iff.mp h
    exact .inl ⟨op, ops, s₁, rfl, hs₁, rfl⟩
  | nil =>
    cases hl : lockFor c (s.system.handler c) with
    | none => simp [hp, hl] at h
    | some l =>
      simp only [hp, hl] at h
      split at h
      · cases h
      · rename_i hentered
        obtain ⟨s₁, hs₁, rfl⟩ := Option.map_eq_some_iff.mp h
        exact .inr ⟨l, s₁, rfl, rfl, by simpa using hentered, hs₁, rfl⟩

/-- A step of the scheduler or of a task is one in `Rpi4Kernel.Sched.Tasks`, by its kind: of a handler
    between its locks, an operation of a task, or one that has to do with no lock. -/
theorem systemStep_cases {e : Event TaskPlace} (h : s.systemStep e found = some s') :
    (∃ reading system, e = .handle e.core reading ∧ step lockCode s.system e = some system ∧
      (∀ l, lockFor e.core (s.system.handler e.core) = some l → s.entered e.core = true) ∧
      s' = { s with
        system := system
        pending := Function.update s.pending e.core
          (opsAfter s.system e.core (s.system.handler e.core))
        entered := Function.update s.entered e.core false }) ∨
    (∃ op s₁ system, nextOp (s.system.regs e.core) = some op ∧
      s.exec e.core .task op found = some s₁ ∧ step lockCode s.system e = some system ∧
      (∃ call ret counter, e = .call e.core call ret counter) ∧ s' = { s₁ with system := system }) ∨
    (∃ system, (∀ reading, e ≠ .handle e.core reading) ∧ step lockCode s.system e = some system ∧
      s' = { s with system := system } ∧
        (s.masked e.core = false ∨ nextOp (s.system.regs e.core) = none)) := by
  cases e with
  | timer =>
    simp only [SpinState.systemStep] at h
    split at h
    · cases h
    · rename_i hmask
      obtain ⟨system, hs, rfl⟩ := Option.map_eq_some_iff.mp h
      exact .inr (.inr ⟨system, nofun, hs, rfl, .inl (by simpa using hmask)⟩)
  | interrupt c irq source =>
    simp only [SpinState.systemStep] at h
    split at h
    · cases h
    · rename_i hmask
      obtain ⟨system, hs, rfl⟩ := Option.map_eq_some_iff.mp h
      exact .inr (.inr ⟨system, nofun, hs, rfl, .inl (by simpa using hmask)⟩)
  | handle c reading =>
    simp only [SpinState.systemStep] at h
    split at h
    · cases h
    · rename_i hlock
      obtain ⟨system, hs, rfl⟩ := Option.map_eq_some_iff.mp h
      refine .inl ⟨reading, system, rfl, hs, fun l hl => ?_, rfl⟩
      have hl' : lockFor c (s.system.handler c) = some l := hl
      show s.entered c = true
      simpa [hl'] using hlock
  | call c call ret counter =>
    cases hop : nextOp (s.system.regs c) with
    | some op =>
      simp only [SpinState.systemStep, hop] at h
      obtain ⟨s₁, hs₁, h⟩ := Option.bind_eq_some_iff.mp h
      obtain ⟨system, hs, h⟩ := Option.bind_eq_some_iff.mp h
      cases h
      exact .inr (.inl ⟨op, s₁, system, hop, hs₁, hs, ⟨call, ret, counter, rfl⟩, rfl⟩)
    | none =>
      simp only [SpinState.systemStep, hop] at h
      obtain ⟨s₁, hs₁, h⟩ := Option.bind_eq_some_iff.mp h
      obtain ⟨system, hs, h⟩ := Option.bind_eq_some_iff.mp h
      cases hs₁
      cases h
      exact .inr (.inr ⟨system, nofun, hs, rfl, .inr hop⟩)
  | resume c exclusive counter =>
    simp only [SpinState.systemStep] at h
    obtain ⟨system, hs, rfl⟩ := Option.map_eq_some_iff.mp h
    refine .inr (.inr ⟨system, nofun, hs, rfl, .inr ?_⟩)
    obtain ⟨-, ts⟩ := step_resume hs
    show nextOp (s.system.regs c) = none
    cases ts with
    | _ phase => rw [phase]; rfl

end Steps

/-! ### The invariant -/

/-- The locks that the two sides of a core may hold where they stand. -/
def SpinState.MayHold (s : SpinState) (c : Core) (l : SchedLock) : Side → Prop
  | .handler => l ∈ expects (s.pending c) ∨
      (l = .sleepingQLock ∧ (s.system.handler c).inSleepingQ = true) ∨
      (s.entered c = true ∧ lockFor c (s.system.handler c) = some l)
  | .task => s.system.handler c = .none ∧ s.pending c = [] ∧
      ∃ place, s.system.regs c = .user place ∧ l ∈ expects place.ops

/-- What a core may hold depends on where that core stands. -/
theorem SpinState.MayHold.frame {s s' : SpinState} (h : s.MayHold c l side)
    (hsystem : s'.system.handler c = s.system.handler c ∧ s'.system.regs c = s.system.regs c)
    (hpending : s'.pending c = s.pending c) (hentered : s'.entered c = s.entered c) :
    s'.MayHold c l side := by
  obtain ⟨hhandler, hregs⟩ := hsystem
  cases side with
  | handler =>
    simp only [SpinState.MayHold, hhandler, hpending, hentered]
    exact h
  | task =>
    simp only [SpinState.MayHold, hhandler, hpending, hregs]
    exact h

/-- Every core holds only what it still has to release, and what it has to do is ascending. -/
structure Disciplined (s : SpinState) : Prop where
  guarded : s.system.Guarded
  points : Points s.system
  program : ∀ c, HandlerProgram (s.pending c)
  entered : ∀ c, s.entered c = true →
    s.pending c = [] ∧ (lockFor c (s.system.handler c)).isSome = true
  holds : ∀ c l side, s.owner l = some (c, side) → s.MayHold c l side

namespace Disciplined

variable {s s' : SpinState} {found : Bool} {e : Event TaskPlace}

/-- A core that handles no interrupt and whose task expects to hold no lock holds none. -/
theorem free (h : Disciplined s) (hc : s.system.handler c = .none) (hp : s.pending c = [])
    (htask : ∀ place, s.system.regs c = .user place → expects place.ops = []) :
    s.owner l ≠ some (c, side) := by
  intro hl
  have hold := h.holds c l side hl
  cases side with
  | handler =>
    simp only [SpinState.MayHold, hp, hc, Handler.inSleepingQ, lockFor, expects_nil] at hold
    obtain hold | hold | hold := hold
    · cases hold
    · cases hold.2
    · cases hold.2
  | task =>
    obtain ⟨-, -, place, hplace, hmem⟩ := hold
    rw [htask place hplace] at hmem
    cases hmem

/-- A core that handles no interrupt has acquired no lock for a section. -/
theorem not_entered (h : Disciplined s) (hc : s.system.handler c = .none) : s.entered c = false := by
  by_contra hne
  have hlock := (h.entered c (by simpa using hne)).2
  rw [hc] at hlock
  cases hlock

/-- A core whose task has interrupts unmasked, or is about to do no operation, expects to hold no
    lock. -/
theorem expects_eq_nil (h : Disciplined s)
    (hc : s.masked c = false ∨ nextOp (s.system.regs c) = none) {place : TaskPlace}
    (hplace : s.system.regs c = .user place) : expects place.ops = [] := by
  rcases hc with hmask | hop
  · refine (h.points.regs c place (by rw [hplace]; rfl)).expects_eq_nil ?_
    simpa [SpinState.masked, hplace, Point.ret] using hmask
  · rw [hplace] at hop
    rw [List.head?_eq_none_iff.mp hop]
    rfl

/-- The handler does an operation that is pending. -/
theorem pending_step {op : LockOp} {ops : List LockOp} {s₁ : SpinState} (h : Disciplined s)
    (hp : s.pending c = op :: ops) (hs : s.exec c .handler op found = some s₁) :
    Disciplined { s₁ with pending := Function.update s₁.pending c ops } := by
  obtain ⟨owner, panicked, rfl, howner⟩ := exec_spec hs
  have hentered : s.entered c ≠ true := fun hc => by
    rw [(h.entered c hc).1] at hp
    cases hp
  refine ⟨h.guarded, h.points, fun d => ?_, fun d hd => ?_, fun d l side hl => ?_⟩
  · by_cases hd : d = c
    · subst hd
      have hprogram := h.program d
      rw [hp] at hprogram
      simpa using hprogram.tail
    · simpa [hd] using h.program d
  · have hdc : d ≠ c := fun heq => hentered (heq ▸ hd)
    simpa [hdc] using h.entered d hd
  · rcases howner l d side hl with ⟨hold, hne⟩ | ⟨rfl, rfl, rfl⟩
    · have hmay := h.holds d l side hold
      by_cases hd : d = c
      · subst hd
        cases side with
        | handler =>
          refine hmay.imp (fun hmem => ?_) id
          rw [hp] at hmem
          simpa using mem_expects_tail hmem hne
        | task =>
          rw [hmay.2.1] at hp
          cases hp
      · exact hmay.frame ⟨rfl, rfl⟩ (Function.update_of_ne hd _ _) rfl
    · have hprogram := (h.program d).1
      rw [hp] at hprogram
      left
      simpa using mem_expects_of_acquire hprogram

/-- The handler acquires the lock for its next section. -/
theorem enter_step {s₁ : SpinState} (h : Disciplined s) (hp : s.pending c = [])
    (hlock : lockFor c (s.system.handler c) = some l) (hc : s.entered c = false)
    (hs : s.exec c .handler (.acquire l) found = some s₁) :
    Disciplined { s₁ with entered := Function.update s₁.entered c true } := by
  obtain ⟨owner, panicked, rfl, howner⟩ := exec_spec hs
  refine ⟨h.guarded, h.points, h.program, fun d hd => ?_, fun d x side hx => ?_⟩
  · by_cases hdc : d = c
    · subst hdc
      exact ⟨hp, by rw [hlock]; rfl⟩
    · exact h.entered d (by simpa [hdc] using hd)
  · rcases howner x d side hx with ⟨hold, -⟩ | ⟨heq, rfl, rfl⟩
    · have hmay := h.holds d x side hold
      by_cases hdc : d = c
      · subst hdc
        cases side with
        | handler => exact hmay.imp id (Or.imp id fun hent => absurd hent.1 (by rw [hc]; nofun))
        | task => exact hmay
      · exact hmay.frame ⟨rfl, rfl⟩ rfl (Function.update_of_ne hdc _ _)
    · cases heq
      exact .inr (.inr ⟨Function.update_self _ _ _, hlock⟩)

/-- The handler of a core runs a section. -/
theorem handle_step {reading : Nat} {system : State TaskPlace} (h : Disciplined s)
    (hp : s.pending c = []) (hs : step lockCode s.system (.handle c reading) = some system) :
    Disciplined { s with
      system := system
      pending := Function.update s.pending c (opsAfter s.system c (s.system.handler c))
      entered := Function.update s.entered c false } := by
  have hother : ∀ d, d ≠ c → system.handler d = s.system.handler d ∧ system.regs d = s.system.regs d :=
    fun d hd => step_other h.guarded hs hd
  refine ⟨guarded_step h.guarded hs, h.points.step h.guarded hs, fun d => ?_, fun d hd => ?_,
    fun d l side hl => ?_⟩
  · by_cases hd : d = c
    · subst hd
      simpa using opsAfter_program s.system d (s.system.handler d)
    · simpa [hd] using h.program d
  · have hdc : d ≠ c := fun heq => by simp [heq] at hd
    simpa [hdc, (hother d hdc).1] using h.entered d (by simpa [hdc] using hd)
  · have hmay := h.holds d l side hl
    by_cases hd : d = c
    · subst hd
      cases side with
      | handler =>
        have hheld : (l = .sleepingQLock ∧ (s.system.handler d).inSleepingQ = true) ∨
            lockFor d (s.system.handler d) = some l := by
          obtain hmem | hin | hent := hmay
          · rw [hp] at hmem
            cases hmem
          · exact .inl hin
          · exact .inr hent.2
        have hafter := held_after_handle h.guarded hs hheld
        simpa [SpinState.MayHold] using hafter
      | task =>
        have hnone : s.system.handler d = .none := hmay.1
        simp [step, handle, hnone] at hs
    · exact hmay.frame (hother d hd) (Function.update_of_ne hd _ _) (Function.update_of_ne hd _ _)

/-- A step in which a core that holds no lock does nothing with the locks. -/
theorem free_step {system : State TaskPlace} (h : Disciplined s)
    (hc : s.system.handler e.core = .none) (hfree : ∀ l side, s.owner l ≠ some (e.core, side))
    (hs : step lockCode s.system e = some system) : Disciplined { s with system := system } := by
  have hother : ∀ d, d ≠ e.core →
      system.handler d = s.system.handler d ∧ system.regs d = s.system.regs d :=
    fun d hd => step_other h.guarded hs hd
  refine ⟨guarded_step h.guarded hs, h.points.step h.guarded hs, h.program, fun d hd => ?_,
    fun d l side hl => ?_⟩
  · have hdc : d ≠ e.core := fun heq => by
      rw [heq, h.not_entered hc] at hd
      cases hd
    simpa [(hother d hdc).1] using h.entered d hd
  · have hdc : d ≠ e.core := fun heq => hfree l side (heq ▸ hl)
    exact (h.holds d l side hl).frame (hother d hdc) rfl rfl

/-- A task does an operation. -/
theorem op_step {op : LockOp} {s₁ : SpinState} {system : State TaskPlace} {call : Call}
    {ret : TaskPlace} {counter : Nat} (h : Disciplined s) (hp : s.pending c = [])
    (hop : nextOp (s.system.regs c) = some op) (hs₁ : s.exec c .task op found = some s₁)
    (hs : step lockCode s.system (.call c call ret counter) = some system) :
    Disciplined { s₁ with system := system } := by
  have hother : ∀ d, d ≠ c → system.handler d = s.system.handler d ∧ system.regs d = s.system.regs d :=
    fun d hd => step_other h.guarded hs hd
  obtain ⟨hc, ⟨⟨point, masked, ops'⟩, hplace, hcode⟩, hsystem⟩ := step_call hs
  rw [hplace] at hop
  obtain ⟨ops, rfl⟩ : ∃ ops, ops' = op :: ops := List.head?_eq_some_iff.mp hop
  simp only [lockCode, Bool.and_eq_true, decide_eq_true_eq] at hcode
  obtain ⟨rfl, rfl⟩ := hcode
  have hregs : system.handler c = .none ∧
      system.regs c = .user ⟨point, LockOp.masks op masked, ops⟩ := by
    rw [hsystem]
    exact ⟨hc, Function.update_self _ _ _⟩
  have hvalid := h.points.regs c _ (by rw [hplace]; rfl)
  obtain ⟨owner, panicked, rfl, howner⟩ := exec_spec hs₁
  refine ⟨guarded_step h.guarded hs, h.points.step h.guarded hs, h.program, fun d hd => ?_,
    fun d l side hl => ?_⟩
  · have hdc : d ≠ c := fun heq => by
      rw [heq, h.not_entered hc] at hd
      cases hd
    simpa [(hother d hdc).1] using h.entered d hd
  · rcases howner l d side hl with ⟨hold, hne⟩ | ⟨rfl, rfl, rfl⟩
    · have hmay := h.holds d l side hold
      by_cases hdc : d = c
      · subst hdc
        cases side with
        | handler => simpa [SpinState.MayHold, hregs.1, hc] using hmay
        | task =>
          obtain ⟨-, -, place, hplace', hmem⟩ := hmay
          cases hplace.symm.trans hplace'
          exact ⟨hregs.1, hp, _, hregs.2, mem_expects_tail hmem hne⟩
      · exact hmay.frame (hother d hdc) rfl rfl
    · exact ⟨hregs.1, hp, _, hregs.2, mem_expects_of_acquire hvalid.ascending⟩

end Disciplined

/-- Every step keeps the locks disciplined. -/
theorem disciplined_step {s s' : SpinState} {e : SpinEvent} (h : Disciplined s)
    (hs : spinStep s e = some s') : Disciplined s' := by
  cases e with
  | handler c found =>
    simp only [spinStep] at hs
    split at hs
    · cases hs
    · obtain ⟨op, ops, s₁, hp, hs₁, rfl⟩ | ⟨l, s₁, hp, hl, hc, hs₁, rfl⟩ := handlerOp_cases hs
      · exact h.pending_step hp hs₁
      · exact h.enter_step hp hl hc hs₁
  | system e found =>
    simp only [spinStep] at hs
    split at hs
    · cases hs
    · rename_i hok
      have hp : s.pending e.core = [] := by
        by_contra hne
        exact hok (.inr hne)
      obtain ⟨reading, system, he, hstep, -, rfl⟩ |
        ⟨op, s₁, system, hop, hs₁, hstep, ⟨call, ret, counter, he⟩, rfl⟩ |
        ⟨system, he, hstep, rfl, hfree⟩ := systemStep_cases hs
      · rw [he] at hstep
        exact h.handle_step hp hstep
      · rw [he] at hstep
        exact h.op_step hp hop hs₁ hstep
      · have hc := handler_of_step hstep he
        exact h.free_step hc (fun l side => h.free hc hp fun place => h.expects_eq_nil hfree) hstep

/-! ### The order of the locks -/

section Order

variable {s s' : SpinState}

/-- A core acquires the lock that it spins on. -/
theorem spinsOn_of_acquire {e : SpinEvent} (hs : spinStep s e = some s')
    (hl : s'.owner l = some (c, side)) (hold : s.owner l ≠ some (c, side)) :
    s.spinsOn c = some l := by
  cases e with
  | handler d found =>
    simp only [spinStep] at hs
    split at hs
    · cases hs
    · rename_i hpanic
      obtain ⟨op, ops, s₁, hp, hs₁, rfl⟩ | ⟨x, s₁, hp, hx, hent, hs₁, rfl⟩ := handlerOp_cases hs
      · obtain ⟨owner, panicked, rfl, howner⟩ := exec_spec hs₁
        rcases howner l c side hl with ⟨heq, -⟩ | ⟨rfl, rfl, -⟩
        · exact absurd heq hold
        · simp [SpinState.spinsOn, hpanic, hp]
      · obtain ⟨owner, panicked, rfl, howner⟩ := exec_spec hs₁
        rcases howner l c side hl with ⟨heq, -⟩ | ⟨heq, rfl, -⟩
        · exact absurd heq hold
        · cases heq
          have hc : s.system.handler c ≠ .none := by
            intro hnone
            simp [hnone, lockFor] at hx
          simp [SpinState.spinsOn, hpanic, hp, hc, hent, hx]
  | system e found =>
    simp only [spinStep] at hs
    split at hs
    · cases hs
    · rename_i hok
      obtain ⟨reading, system, -, -, -, rfl⟩ |
        ⟨op, s₁, system, hop, hs₁, hstep, ⟨call, ret, counter, he⟩, rfl⟩ |
        ⟨system, -, -, rfl, -⟩ := systemStep_cases hs
      · exact absurd hl hold
      · obtain ⟨owner, panicked, rfl, howner⟩ := exec_spec hs₁
        rcases howner l c side hl with ⟨heq, -⟩ | ⟨rfl, rfl, -⟩
        · exact absurd heq hold
        · have hc := handler_of_step hstep (by rw [he]; nofun)
          simp only [not_or, Bool.not_eq_true, not_not] at hok
          simp [SpinState.spinsOn, hok.1, hok.2, hc, hop]
      · exact absurd hl hold

/-- Where a core stands that spins on a lock. -/
theorem spinsOn_cases (h : s.spinsOn c = some l) :
    (∃ ops, s.pending c = .acquire l :: ops) ∨
    (s.pending c = [] ∧ s.entered c = false ∧ s.system.handler c ≠ .none ∧
      lockFor c (s.system.handler c) = some l) ∨
    (s.pending c = [] ∧ s.system.handler c = .none ∧
      ∃ place ops, s.system.regs c = .user place ∧ place.ops = .acquire l :: ops) := by
  simp only [SpinState.spinsOn] at h
  split at h
  · cases h
  · split at h
    · rename_i l' ops hp
      cases h
      exact .inl ⟨ops, hp⟩
    · cases h
    · rename_i hp
      split at h
      · rename_i hc
        split at h
        · cases h
        · rename_i hent
          exact .inr (.inl ⟨hp, by simpa using hent, hc, h⟩)
      · rename_i hc
        simp only [ne_eq, not_not] at hc
        split at h
        · rename_i l' hop
          cases h
          cases hregs : s.system.regs c with
          | user place =>
            rw [hregs] at hop
            obtain ⟨ops, hops⟩ := List.head?_eq_some_iff.mp hop
            exact .inr (.inr ⟨hp, hc, place, ops, rfl, hops⟩)
          | _ => simp [hregs, nextOp] at hop
        · cases h

/-- The sections inside a wake-up pass are guarded by a run queue's lock. -/
theorem lockFor_inSleepingQ {phase : Handler} (hin : phase.inSleepingQ = true)
    (hl : lockFor c phase = some l) : ∃ d, l = .runningQLock d := by
  cases phase with
  | calcCore pass t i count out =>
    simp only [lockFor] at hl
    split at hl <;> cases hl
    exact ⟨_, rfl⟩
  | move pass t nextCore =>
    cases hl
    exact ⟨_, rfl⟩
  | scan pass index => cases hl
  | _ => cases hin

/-- A core spins on a lock above all those that it holds. -/
theorem Disciplined.rank_lt (h : Disciplined s) (hspin : s.spinsOn c = some l)
    (hx : s.owner x = some (c, side)) : x.rank < l.rank := by
  have hmay := h.holds c x side hx
  obtain ⟨ops, hp⟩ | ⟨hp, hent, hc, hlock⟩ | ⟨hp, hc, place, ops, hplace, hops⟩ := spinsOn_cases hspin
  · -- what is pending acquires the heap lock only
    have hprogram := h.program c
    rw [hp] at hprogram
    cases side with
    | handler =>
      obtain hmem | hin | hent := hmay
      · rw [hp] at hmem
        exact rank_lt_of_acquire hprogram.1 hmem
      · rw [hin.1, hprogram.2 l List.mem_cons_self]
        exact Nat.zero_lt_two
      · rw [(h.entered c hent.1).1] at hp
        cases hp
    | task =>
      rw [hmay.2.1] at hp
      cases hp
  · -- before a section the handler holds `sleepingQLock` or nothing
    cases side with
    | handler =>
      obtain hmem | hin | hent' := hmay
      · rw [hp] at hmem
        cases hmem
      · obtain ⟨d, rfl⟩ := lockFor_inSleepingQ hin.2 hlock
        rw [hin.1]
        exact Nat.zero_lt_one
      · rw [hent] at hent'
        cases hent'.1
    | task => exact absurd hmay.1 hc
  · cases side with
    | handler =>
      obtain hmem | hin | hent := hmay
      · rw [hp] at hmem
        cases hmem
      · rw [hc] at hin
        cases hin.2
      · rw [hc] at hent
        cases hent.2
    | task =>
      obtain ⟨-, -, place', hplace', hmem⟩ := hmay
      cases hplace.symm.trans hplace'
      have hvalid := (h.points.regs c place (by rw [hplace]; rfl)).ascending
      rw [hops] at hvalid hmem
      exact rank_lt_of_acquire hvalid hmem

theorem holder_eq_some : s.holder l = some c ↔ ∃ side, s.owner l = some (c, side) := by
  simp [SpinState.holder]

theorem Disciplined.locksInOrder (h : Disciplined s) : s.LocksInOrder := by
  have hspins : ∀ c l x, s.spinsOn c = some l → s.holder x = some c → x.rank < l.rank := by
    intro c l x hl hx
    obtain ⟨side, hx⟩ := holder_eq_some.mp hx
    exact h.rank_lt hl hx
  refine ⟨fun e s' l c side hs hl hold x hx => ?_, hspins, fun c l hin hl => ?_,
    not_transGen_waitsFor hspins⟩
  · exact hspins c l x (spinsOn_of_acquire hs hl hold) hx
  · obtain ⟨hc, hp, -⟩ := h.holds c l .task hl
    simp [SpinState.inHandler, hc, hp] at hin

end Order

/-! ### Runs -/

theorem disciplined_of_started {home : TaskId → Option Core} {s : SpinState} (h : s.Started home) :
    Disciplined s where
  guarded := guarded_of_booted h.booted
  points :=
    { regs := fun c b hb => by
        rw [h.booted.hang c] at hb
        cases hb
      context := fun t b hb => by
        obtain hc | hc | hc := h.context t <;> rw [hc] at hb <;> cases hb
        · exact ⟨rfl, rfl⟩
        · exact ⟨rfl, rfl⟩ }
  program c := by
    rw [h.pending c]
    exact handlerProgram_nil
  entered c hc := by
    rw [h.entered c] at hc
    cases hc
  holds c l side hl := by
    rw [h.owner l] at hl
    cases hl

/-- In every run of the kernel's own tasks the spinlocks are acquired in their order, no handler waits
    for the task that it has interrupted, and the cores never wait for one another in a circle. -/
theorem locksInOrder_of_run {home : TaskId → Option Core} {s₀ s : SpinState} (hstart : s₀.Started home)
    (hrun : Run spinStep s₀ s) : s.LocksInOrder :=
  (hrun.invariant (disciplined_of_started hstart) fun _ _ _ h _ hs =>
    disciplined_step h hs).locksInOrder

theorem Booted.map {β γ : Type} {home : TaskId → Option Core} {s : State β} (h : Booted home s)
    (f : β → γ) : Booted home (s.map f) where
  queued := h.queued
  sleepingQ := h.sleepingQ
  sleepingQLock := h.sleepingQLock
  handler := h.handler
  sleepIrq := h.sleepIrq
  entry t := (h.entry t).imp (congrArg (Point.map f)) fun ⟨place, hplace⟩ =>
    ⟨f place, congrArg (Point.map f) hplace⟩
  boot := h.boot
  hang c := congrArg (Point.map f) (h.hang c)
  distinct := h.distinct
  unsaved := h.unsaved
  pinned := h.pinned

/-- The system that `kernel_main` and `initSecondaryCore` set up, with its spinlocks. -/
theorem started_spinBoot (n : Nat) : (spinBoot n).Started (taskHome n) where
  booted := (kernelBooted_kernelBoot n).toBooted.map _
  context t := by
    simp only [spinBoot, State.map, Task.map, kernelBoot]
    split
    · cases taskBody n t
      · exact .inl rfl
      · exact .inr (.inl rfl)
      · exact .inr (.inr rfl)
    · exact .inl rfl
  owner _ := rfl
  pending _ := rfl
  entered _ := rfl

/-- The handler of core `c` from the tick or the request on: its steps and its operations in turn. -/
def switchSpinning (c : Core) (hash : Nat) : List SpinEvent :=
  [.system (.handle c 0) true, .handler c true, .system (.handle c hash) true, .handler c true] ++
    List.replicate 3 (.system (.handle c 0) true)

/-- A step of the task of core `c`. -/
def taskSteps (es : List (Event TaskPlace)) : List SpinEvent := es.map fun e => .system e true

/-- The first tick switches core 0 to its screen task, which finds no circle and goes to sleep; the
    kernel task that is next calls `sleep(2000)` and allocates its circle before the interrupt is
    taken. The second tick finds the screen task. -/
def tickDuringSleep : List SpinEvent :=
  [.system .timer true, .handler 0 true, .system (.handle 0 0) true, .system (.handle 0 0) true,
    .handler 0 true] ++ switchSpinning 0 0 ++ [.system (.handle 0 0) true] ++
  taskSteps (callGet 0 (.start .screenTest) ++ callFree 0 (.start .screenSleep) ++
    callSleep 0 16 0 (.start .screenBegin) ++ [.interrupt 0 .sleep 0]) ++
  [.handler 0 true, .system (.handle 0 0) true, .handler 0 true, .handler 0 true,
    .system (.handle 0 0) true, .handler 0 true] ++ switchSpinning 0 0 ++
  taskSteps (callSleep 0 2000 0 ⟨.paintCircle, false, masking heapAlloc⟩ ++
    [.call 0 .compute ⟨.paintCircle, true, heapAlloc ++ [.other .enableIRQ]⟩ 0,
      .call 0 .compute ⟨.paintCircle, true,
        [.release .heapLock, .other .checkNull, .other .enableIRQ]⟩ 0,
      .call 0 .compute ⟨.paintCircle, true, [.other .checkNull, .other .enableIRQ]⟩ 0,
      .call 0 .compute ⟨.paintCircle, true, [.other .enableIRQ]⟩ 0,
      .call 0 .compute (.start .paintCircle) 0]) ++
  [.system .timer true, .handler 0 true, .system (.handle 0 0) true, .system (.handle 0 16000) true]

/-- A run of the kernel's own tasks that ends in a wake-up pass which holds `sleepingQLock` and is
    about to lock a run queue. -/
theorem locksInOrder_of_tick :
    ∃ s, Run spinStep (spinBoot threadN) s ∧ s.holder .sleepingQLock = some 0 ∧
      s.spinsOn 0 = some (.runningQLock 0) ∧ s.LocksInOrder := by
  obtain ⟨s, hrun, hs⟩ : ∃ s, Run spinStep (spinBoot threadN) s ∧
      decide (s.holder .sleepingQLock = some 0 ∧ s.spinsOn 0 = some (.runningQLock 0)) = true :=
    RunWhere.exists_of_replay tickDuringSleep (by decide +kernel)
  obtain ⟨hholder, hspins⟩ := of_decide_eq_true hs
  exact ⟨s, hrun, hholder, hspins, locksInOrder_of_run (started_spinBoot threadN) hrun⟩

end Rpi4Kernel.Sched
