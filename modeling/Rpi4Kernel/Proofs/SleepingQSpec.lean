/-
Module: Rpi4Kernel.Proofs.SleepingQSpec
Layer: Proofs
Purpose: What each section of the handlers does, once and for all, and what holds of `sleepingQ` in
  every run of any tasks: one core at a time is in the section guarded by `sleepingQLock`, the queue
  is in order while it is, and a task found ready stays in the queue until it is moved.
Trusted boundary: none (fully proved)
Main exports: sleepRemove_spec, wakeUpBegin_spec, wakeUpScan_cases, wakeUpMove_spec, Guarded,
  guarded_step
-/
import Rpi4Kernel.Proofs.ArrayListSpec
import Rpi4Kernel.Sched.Properties

namespace Rpi4Kernel.Sched

open Rpi4Kernel.Stdlib

variable {β : Type} {s s' : State β} {c d : Core} {t r : TaskId}

/-! ### The sections -/

theorem sleepRemove_spec (hmem : s.currentTask c ∈ (s.runningQ c (s.tasks (s.currentTask c)).p).array)
    (h : s.sleepRemove c r = some s') :
    ∃ q, (s.runningQ c (s.tasks (s.currentTask c)).p).array.Perm (s.currentTask c :: q.array) ∧
      s' = (s.setRunningQ c (s.tasks (s.currentTask c)).p q).setHandler c (.sleepAdd r) := by
  obtain ⟨q₁, hq₁, hperm₁, hsearch⟩ :=
    ArrayList.quickSort_spec (s.runningQ c (s.tasks (s.currentTask c)).p)
  obtain ⟨q, hq, hperm, -⟩ := ArrayList.removeElement_spec hsearch (hperm₁.mem_iff.mpr hmem)
  simp only [State.sleepRemove, hq₁, hq, bind, Option.bind, Option.some.injEq] at h
  exact ⟨q, hperm₁.symm.trans hperm, h.symm⟩

theorem sleepAdd_spec (h : s.sleepAdd c = some s') :
    s.sleepingQLock = none ∧
      s' = { s with sleepingQ := s.sleepingQ.add (s.currentTask c) }.setHandler c (.check .sleep) := by
  rw [State.sleepAdd] at h
  split at h
  · exact ⟨‹_›, (Option.some.inj h).symm⟩
  · cases h

theorem wakeUpBegin_spec {pass : Pass} (h : s.wakeUpBegin c pass = some s') :
    s.sleepingQLock = none ∧ ∃ q, q.array.Perm s.sleepingQ.array ∧ q.Searchable ∧
      s' = { s with sleepingQLock := some c, sleepingQ := q }.setHandler c (.scan pass 0) := by
  obtain ⟨q, hq, hperm, hsearch⟩ := ArrayList.quickSort_spec s.sleepingQ
  rw [State.wakeUpBegin] at h
  split at h
  · simp only [hq, bind, Option.bind, Option.some.injEq] at h
    exact ⟨‹_›, q, hperm, hsearch, h.symm⟩
  · cases h

/-- How the handler goes on with a task that is ready. -/
def State.afterReady (s : State β) (pass : Pass) (t : TaskId) : Handler :=
  match (s.tasks t).pinned with
  | some core => .move pass t core
  | none => .calcCore pass t 0 0xfffffff 0

theorem clear_context (pass : Pass) (task : Task β) :
    (State.clear pass task).context = task.context := by
  cases pass <;> rfl

theorem clear_p (pass : Pass) (task : Task β) : (State.clear pass task).p = task.p := by
  cases pass <;> rfl

theorem wakeUpScan_cases (s : State β) (c : Core) (pass : Pass) (index counter : Nat) :
    (s.sleepingQ.array.length ≤ index ∧
      s.wakeUpScan c pass index counter = { s with sleepingQLock := none }.setHandler c pass.after) ∨
    (∃ t, s.sleepingQ.array[index]? = some t ∧ s.ready pass counter t = true ∧
      s.wakeUpScan c pass index counter =
        (s.updateTask t (State.clear pass)).setHandler c (s.afterReady pass t)) ∨
    (∃ t, s.sleepingQ.array[index]? = some t ∧ s.ready pass counter t = false ∧
      s.wakeUpScan c pass index counter = s.setHandler c (.scan pass (index + 1))) := by
  have hget : s.sleepingQ.get (index : Nat) = s.sleepingQ.array[index]? := by
    simp [ArrayList.get, readAt]
  rw [State.wakeUpScan, hget]
  cases h : s.sleepingQ.array[index]? with
  | none => exact .inl ⟨List.getElem?_eq_none_iff.mp h, rfl⟩
  | some t =>
    cases hr : s.ready pass counter t with
    | true => exact .inr (.inl ⟨t, rfl, hr, by simp only [hr, if_true]; rfl⟩)
    | false => exact .inr (.inr ⟨t, rfl, hr, by simp [hr]⟩)

/-- The handler after a turn of `calcNextCore`. -/
theorem calcNextCore_cases (s : State β) (c : Core) (pass : Pass) (t : TaskId) (i count : Nat)
    (outCore : Core) :
    (∃ i' count' outCore', s.calcNextCore c pass t i count outCore =
      s.setHandler c (.calcCore pass t i' count' outCore')) ∨
    s.calcNextCore c pass t i count outCore = s.setHandler c (.move pass t outCore) := by
  unfold State.calcNextCore
  dsimp only
  split
  · split
    · exact .inl ⟨_, _, _, rfl⟩
    · exact .inl ⟨_, _, _, rfl⟩
  · exact .inr rfl

theorem wakeUpMove_spec {pass : Pass} {n : Core} (hsearch : s.sleepingQ.Searchable)
    (hmem : t ∈ s.sleepingQ.array) (h : s.wakeUpMove c pass t n = some s') :
    ∃ q, s.sleepingQ.array.Perm (t :: q.array) ∧ q.Searchable ∧
      s' = ({ s with sleepingQ := q }.setRunningQ n (s.tasks t).p
        ((s.runningQ n (s.tasks t).p).add t)).setHandler c (.scan pass 0) := by
  obtain ⟨q, hq, hperm, hsearch'⟩ := ArrayList.removeElement_spec hsearch hmem
  simp only [State.wakeUpMove, hq, bind, Option.bind, if_true, Option.some.injEq] at h
  exact ⟨q, hperm, hsearch', h.symm⟩

theorem pick_cases (s : State β) (c : Core) (o : Origin) (hash : Nat) :
    (∃ t, s.pickNext c hash = some t ∧ s.pick c o hash = s.setHandler c (.save o t)) ∨
    s.pick c o hash = s.setHandler c .halted := by
  unfold State.pick
  split
  · exact .inl ⟨_, ‹_›, rfl⟩
  · exact .inr rfl

/-- The task that `reschedule` picks is in a run queue of its core. -/
theorem pickNext_spec {hash : Nat} (h : s.pickNext c hash = some t) :
    ∃ p, s.firstQueue c = some p ∧ t ∈ (s.runningQ c p).array := by
  obtain ⟨p, hp, h⟩ := Option.bind_eq_some_iff.mp h
  exact ⟨p, hp, mem_of_readAt h⟩

/-! ### Taking an interrupt -/

variable {source : Core}

theorem takeInterrupt_reschedule (h : takeInterrupt s c .reschedule source = some s') :
    s.handler c = .none ∧ s.rescheduleIrq c source = true ∧
      s' = { s with
        rescheduleIrq := Function.update s.rescheduleIrq c
          (Function.update (s.rescheduleIrq c) source false) }.setHandler c (.check .reschedule) := by
  simp only [takeInterrupt] at h
  split at h <;> [skip; cases h]
  split at h <;> [skip; cases h]
  exact ⟨‹_›, ‹_›, (Option.some.inj h).symm⟩

theorem takeInterrupt_sleep (h : takeInterrupt s c .sleep source = some s') :
    s.handler c = .none ∧ ∃ r, s.sleepIrq c source = some r ∧
      s' = { s with
        sleepIrq := Function.update s.sleepIrq c
          (Function.update (s.sleepIrq c) source none) }.setHandler c (.sleepRemove r) := by
  simp only [takeInterrupt] at h
  split at h <;> [skip; cases h]
  obtain ⟨r, hr, h⟩ := Option.bind_eq_some_iff.mp h
  exact ⟨‹_›, r, hr, (Option.some.inj h).symm⟩

theorem takeInterrupt_wakeUpAll (h : takeInterrupt s c .wakeUpAll source = some s') :
    s.handler c = .none ∧ s.wakeUpIrq c source = true ∧
      s' = { s with
        wakeUpIrq := Function.update s.wakeUpIrq c
          (Function.update (s.wakeUpIrq c) source false) }.setHandler c (.begin .timers) := by
  simp only [takeInterrupt] at h
  split at h <;> [skip; cases h]
  split at h <;> [skip; cases h]
  exact ⟨‹_›, ‹_›, (Option.some.inj h).symm⟩

/-- Where something is cleared for one core and one source, what is there afterwards was there
    before. -/
theorem of_cleared {α : Type} {pending : Core → Core → α} {clear a : α} (ha : a ≠ clear) {from_ : Core}
    (h : Function.update pending c (Function.update (pending c) source clear) d from_ = a) :
    pending d from_ = a := by
  by_cases hd : d = c
  · subst hd
    rw [Function.update_self] at h
    by_cases hf : from_ = source
    · subst hf
      rw [Function.update_self] at h
      exact absurd h.symm ha
    · rwa [Function.update_of_ne hf] at h
  · rwa [Function.update_of_ne hd] at h

/-- The phases in which a handler starts. -/
def Handler.starts : Handler → Bool
  | .sleepRemove _ | .begin _ | .check _ => true
  | _ => false

/-- Taking an interrupt starts the handler of the core and changes nothing but what is pending. -/
theorem takeInterrupt_frame {irq : Sgi} (h : takeInterrupt s c irq source = some s') :
    s.handler c = .none ∧ ∃ after sleepIrq rescheduleIrq wakeUpIrq, after.starts = true ∧ s' =
      { s with
        handler := Function.update s.handler c after
        sleepIrq := sleepIrq
        rescheduleIrq := rescheduleIrq
        wakeUpIrq := wakeUpIrq } := by
  cases irq with
  | reschedule =>
    obtain ⟨hc, -, heq⟩ := takeInterrupt_reschedule h
    exact ⟨hc, _, _, _, _, rfl, heq⟩
  | sleep =>
    obtain ⟨hc, r, -, heq⟩ := takeInterrupt_sleep h
    exact ⟨hc, _, _, _, _, rfl, heq⟩
  | wakeUpAll =>
    obtain ⟨hc, -, heq⟩ := takeInterrupt_wakeUpAll h
    exact ⟨hc, _, _, _, _, rfl, heq⟩

theorem Handler.inSleepingQ_of_starts {after : Handler} (h : after.starts = true) :
    after.inSleepingQ = false := by
  cases after with
  | scan pass index => cases h
  | calcCore pass t i count out => cases h
  | move pass t n => cases h
  | _ => rfl

theorem Handler.waking_of_starts {after : Handler} (h : after.starts = true) :
    after.waking = .none := by
  cases after with
  | calcCore pass t i count out => cases h
  | move pass t n => cases h
  | _ => rfl

theorem takeTimer_spec (h : takeTimer s = some s') :
    s.handler 0 = .none ∧ s' = s.setHandler 0 (.begin .tick) := by
  rw [takeTimer] at h
  split at h
  · exact ⟨‹_›, (Option.some.inj h).symm⟩
  · cases h

/-! ### What tasks change -/

/-- A field of a task after a change of one task. -/
theorem updateTask_field {α : Type} (field : Task β → α) (f : Task β → Task β) (s : State β)
    (t u : TaskId) : field ((s.updateTask t f).tasks u) =
      if u = t then field (f (s.tasks t)) else field (s.tasks u) := by
  by_cases hu : u = t
  · subst hu
    simp [State.updateTask]
  · simp [State.updateTask, hu]

/-- A change of one task that keeps a field of it keeps the field of every task. -/
theorem updateTask_keeps {α : Type} (field : Task β → α) {f : Task β → Task β}
    (hf : ∀ task, field (f task) = field task) (s : State β) (t u : TaskId) :
    field ((s.updateTask t f).tasks u) = field (s.tasks u) := by
  rw [updateTask_field field f s t u, hf]
  split
  · rename_i hu
    rw [hu]
  · rfl

@[simp] theorem setRegs_tasks {point : Point β} : (s.setRegs c point).tasks = s.tasks := rfl

/-- What the next step of the current task of core `c` inside a call does, by where it stands. -/
inductive TaskStep (s : State β) (c : Core) (exclusive : Bool) (counter : Nat) : State β → Prop where
  | core {use : Use β} (phase : s.regs c = .getCore use) :
      TaskStep s c exclusive counter (s.setRegs c (.loadCurrent c use))
  | current {core : Core} {use : Use β} (phase : s.regs c = .loadCurrent core use) :
      TaskStep s c exclusive counter (s.setRegs c (use.through (s.currentTask core)))
  | counter {curr : TaskId} {ms called : Nat} {ret : β}
    (phase : s.regs c = .readCounter curr ms called ret) :
      TaskStep s c exclusive counter
        (s.setRegs c (.storeTimer curr ((counter + ms * 1000) % 2 ^ 64) (called + ms * 1000) ret))
  | timer {curr : TaskId} {time asked : Nat} {ret : β}
    (phase : s.regs c = .storeTimer curr time asked ret) :
      TaskStep s c exclusive counter
        ((s.updateTask curr fun task => { task with timer := time }).setRegs c (.sendCore (.sleep ret)))
  | acquired {l : LockId} {ret : β} (phase : s.regs c = .getTest l ret)
    (free : (s.locks l).locked = false)
      (stores : exclusive = true) :
      TaskStep s c exclusive counter
        ({ s.updateLock l fun lock => { lock with locked := true } with
          holds := Function.update s.holds (s.currentTask c)
            (Function.update (s.holds (s.currentTask c)) l true) }.setRegs c
              (.getCore (.ownerPid l ret)))
  | busy {l : LockId} {ret : β} (phase : s.regs c = .getTest l ret) :
      TaskStep s c exclusive counter (s.setRegs c (.getCore (.sleepingOnLock l ret)))
  | marked {task : TaskId} {l : LockId} {ret : β} (phase : s.regs c = .getStore task l ret) :
      TaskStep s c exclusive counter
        ((s.updateTask task fun task => { task with sleepingOnLock := some l }).setRegs c
          (.sendCore (.getSleep l ret)))
  | pid {task : TaskId} {l : LockId} {ret : β} (phase : s.regs c = .loadPid task l ret) :
      TaskStep s c exclusive counter (s.setRegs c (.getOwner (s.tasks task).pid l ret))
  | owned {pid : Nat} {l : LockId} {ret : β} (phase : s.regs c = .getOwner pid l ret) :
      TaskStep s c exclusive counter
        ((s.updateLock l fun lock => { lock with ownerPid := pid }).setRegs c (.user ret))
  | premption {task : TaskId} {change : Nat} {ret : β}
    (phase : s.regs c = .loadPremption task change ret) :
      TaskStep s c exclusive counter
        (s.setRegs c (.storePremption task (((s.tasks task).premption + change) % 2 ^ 64) ret))
  | premptionStored {task : TaskId} {value : Nat} {ret : β}
      (phase : s.regs c = .storePremption task value ret) :
      TaskStep s c exclusive counter
        ((s.updateTask task fun task => { task with premption := value }).setRegs c (.user ret))
  | disowned {l : LockId} {ret : β} (phase : s.regs c = .freeOwner l ret) :
      TaskStep s c exclusive counter
        ((s.updateLock l fun lock => { lock with ownerPid := 0 }).setRegs c (.freeUnlock l ret))
  | unlocked {l : LockId} {ret : β} (phase : s.regs c = .freeUnlock l ret) :
      TaskStep s c exclusive counter
        ({ s.updateLock l fun lock => { lock with locked := false } with
          holds := Function.update s.holds (s.currentTask c)
            (Function.update (s.holds (s.currentTask c)) l false) }.setRegs c (.sendCore (.free ret)))
  | sendCore {send : Send β} (phase : s.regs c = .sendCore send) :
      TaskStep s c exclusive counter (s.setRegs c (.sendSgi c send))
  | sent {core : Core} {send : Send β} (phase : s.regs c = .sendSgi core send) :
      TaskStep s c exclusive counter ((s.request c core send).setRegs c send.after)

variable {exclusive : Bool} {counter : Nat}

theorem taskStep_of_resume (h : s.resume c exclusive counter = some s') :
    TaskStep s c exclusive counter s' := by
  unfold State.resume at h
  cases hregs : s.regs c with
  | hang => simp [hregs] at h
  | user b => simp [hregs] at h
  | getTest l ret =>
    simp only [hregs] at h
    split at h
    case isTrue hfree =>
      cases h
      simp only [Bool.and_eq_true, Bool.not_eq_true'] at hfree
      exact .acquired hregs hfree.1 hfree.2
    case isFalse =>
      cases h
      exact .busy hregs
  | getCore use =>
    simp only [hregs, Option.some.injEq] at h
    exact h ▸ .core hregs
  | loadCurrent core use =>
    simp only [hregs, Option.some.injEq] at h
    exact h ▸ .current hregs
  | readCounter curr ms called ret =>
    simp only [hregs, Option.some.injEq] at h
    exact h ▸ .counter hregs
  | storeTimer curr time asked ret =>
    simp only [hregs, Option.some.injEq] at h
    exact h ▸ .timer hregs
  | getStore task l ret =>
    simp only [hregs, Option.some.injEq] at h
    exact h ▸ .marked hregs
  | loadPid task l ret =>
    simp only [hregs, Option.some.injEq] at h
    exact h ▸ .pid hregs
  | getOwner pid l ret =>
    simp only [hregs, Option.some.injEq] at h
    exact h ▸ .owned hregs
  | loadPremption task change ret =>
    simp only [hregs, Option.some.injEq] at h
    exact h ▸ .premption hregs
  | storePremption task value ret =>
    simp only [hregs, Option.some.injEq] at h
    exact h ▸ .premptionStored hregs
  | freeOwner l ret =>
    simp only [hregs, Option.some.injEq] at h
    exact h ▸ .disowned hregs
  | freeUnlock l ret =>
    simp only [hregs, Option.some.injEq] at h
    exact h ▸ .unlocked hregs
  | sendCore send =>
    simp only [hregs, Option.some.injEq] at h
    exact h ▸ .sendCore hregs
  | sendSgi core send =>
    simp only [hregs, Option.some.injEq] at h
    exact h ▸ .sent hregs

/-- Where a task stands after a step inside a call: it returns to the same place, and the core number
    that it has read is that of the core on which it runs. -/
theorem TaskStep.point (h : TaskStep s c exclusive counter s') :
    s.regs c ≠ .hang ∧ ∃ point : Point β, s'.regs = Function.update s.regs c point ∧
      point.ret = (s.regs c).ret ∧ ∀ d, point.core = some d → d = c := by
  cases h with
  | @current core use phase =>
    rw [phase]
    exact ⟨nofun, _, rfl, by cases use <;> rfl, by cases use <;> nofun⟩
  | @sent core send phase =>
    rw [phase]
    refine ⟨nofun, send.after, ?_, by cases send <;> rfl, by cases send <;> nofun⟩
    cases send <;> rfl
  | core phase => exact ⟨by rw [phase]; nofun, _, rfl, by rw [phase]; rfl, by rintro _ ⟨⟩; rfl⟩
  | sendCore phase => exact ⟨by rw [phase]; nofun, _, rfl, by rw [phase]; rfl, by rintro _ ⟨⟩; rfl⟩
  | _ phase => exact ⟨by rw [phase]; nofun, _, rfl, by rw [phase]; rfl, nofun⟩

theorem Call.begin_ret (call : Call) (ret : β) (counter : Nat) :
    (call.begin ret counter).ret = some ret := by cases call <;> rfl

theorem Call.begin_core (call : Call) (ret : β) (counter : Nat) :
    (call.begin ret counter).core = none := by cases call <;> rfl

/-- The steps of a task, by the kind of step. -/
theorem step_call {code : Code β} {call : Call} {ret : β} {counter : Nat}
    (h : step code s (.call c call ret counter) = some s') :
    s.handler c = .none ∧ (∃ b, s.regs c = .user b ∧ code b call ret = true) ∧
      s' = s.enter c call ret counter := by
  simp only [step] at h
  split at h <;> [skip; cases h]
  split at h <;> [skip; cases h]
  rename_i b hb hcode
  exact ⟨hcode.1, ⟨b, hb, hcode.2⟩, (Option.some.inj h).symm⟩

theorem step_resume {code : Code β} (h : step code s (.resume c exclusive counter) = some s') :
    s.handler c = .none ∧ TaskStep s c exclusive counter s' := by
  simp only [step] at h
  split at h
  · exact ⟨‹_›, taskStep_of_resume h⟩
  · cases h

/-- What tasks leave alone: the queues, the handlers, and of the tasks all that places them. -/
structure PlacesKept (s s' : State β) : Prop where
  currentTask : s'.currentTask = s.currentTask
  handler : s'.handler = s.handler
  runningQ : s'.runningQ = s.runningQ
  sleepingQ : s'.sleepingQ = s.sleepingQ
  sleepingQLock : s'.sleepingQLock = s.sleepingQLock
  rescheduleIrq : s'.rescheduleIrq = s.rescheduleIrq
  unsaved : s'.unsaved = s.unsaved
  p : ∀ t, (s'.tasks t).p = (s.tasks t).p
  pinned : ∀ t, (s'.tasks t).pinned = (s.tasks t).pinned
  context : ∀ t, (s'.tasks t).context = (s.tasks t).context

theorem placesKept_setRegs {point : Point β} : PlacesKept s (s.setRegs c point) := by
  constructor <;> first | rfl | exact fun _ => rfl

theorem placesKept_updateTask {f : Task β → Task β} (hp : ∀ task, (f task).p = task.p)
    (hpinned : ∀ task, (f task).pinned = task.pinned)
    (hcontext : ∀ task, (f task).context = task.context)
    {point : Point β} : PlacesKept s ((s.updateTask t f).setRegs c point) where
  currentTask := rfl
  handler := rfl
  runningQ := rfl
  sleepingQ := rfl
  sleepingQLock := rfl
  rescheduleIrq := rfl
  unsaved := rfl
  p := updateTask_keeps Task.p hp s t
  pinned := updateTask_keeps Task.pinned hpinned s t
  context := updateTask_keeps Task.context hcontext s t

theorem TaskStep.placesKept (h : TaskStep s c exclusive counter s') : PlacesKept s s' := by
  cases h with
  | timer _ => apply placesKept_updateTask <;> exact fun _ => rfl
  | marked _ => apply placesKept_updateTask <;> exact fun _ => rfl
  | premptionStored _ => apply placesKept_updateTask <;> exact fun _ => rfl
  | @sent core send _ =>
    unfold State.request
    split <;> constructor <;> first | rfl | exact fun _ => rfl
  | _ => constructor <;> first | rfl | exact fun _ => rfl

/-- A sleep interrupt that is pending after a step inside a call was pending before, or the step has
    requested it. -/
theorem TaskStep.sleepIrq (h : TaskStep s c exclusive counter s') (hr : s'.sleepIrq d source = some r) :
    s.sleepIrq d source = some r ∨
      source = c ∧ r = s.currentTask c ∧ ∃ send, s.regs c = .sendSgi d send ∧ send.asksSleep =
        true := by
  cases h with
  | @sent core send phase =>
    by_cases hsend : send.asksSleep = true
    · by_cases hd : d = core
      · subst hd
        by_cases hc : source = c
        · subst hc
          cases hold : s.sleepIrq d source with
          | none =>
            exact .inr ⟨rfl, by simpa [State.request, State.setRegs, hsend, hold, eq_comm] using hr,
              send, phase, hsend⟩
          | some r' => exact .inl (by simpa [State.request, State.setRegs, hsend, hold] using hr)
        · exact .inl (by simpa [State.request, State.setRegs, hsend, hc] using hr)
      · exact .inl (by simpa [State.request, State.setRegs, hsend, hd] using hr)
    · exact .inl (by simpa [State.request, State.setRegs, hsend] using hr)
  | _ => exact .inl hr

/-- A wake-up that is pending stays pending while tasks step. -/
theorem TaskStep.wakeUpIrq (h : TaskStep s c exclusive counter s') (hw : s.wakeUpIrq d source = true) :
    s'.wakeUpIrq d source = true := by
  cases h with
  | @sent core send phase =>
    simp only [State.request, State.setRegs]
    split
    · exact hw
    · by_cases hd : d = core
      · subst hd
        by_cases hc : source = c
        · simp [hc]
        · simpa [hc] using hw
      · simpa [hd] using hw
  | _ => exact hw

/-- Only the store of a timer changes the timer of a task. -/
theorem TaskStep.timer_eq (h : TaskStep s c exclusive counter s') (t : TaskId) :
    (s'.tasks t).timer = (s.tasks t).timer ∨
      ∃ time asked ret, s.regs c = .storeTimer t time asked ret ∧ (s'.tasks t).timer = time := by
  cases h with
  | @timer curr time asked ret phase =>
    by_cases ht : t = curr
    · subst ht
      exact .inr ⟨time, asked, ret, phase, by simp [State.updateTask, State.setRegs]⟩
    · exact .inl (by simp [State.updateTask, State.setRegs, ht])
  | marked _ =>
    exact .inl (by rw [setRegs_tasks]; apply updateTask_keeps Task.timer; exact fun _ => rfl)
  | premptionStored _ =>
    exact .inl (by rw [setRegs_tasks]; apply updateTask_keeps Task.timer; exact fun _ => rfl)
  | @sent core send _ =>
    unfold State.request
    split <;> exact .inl rfl
  | _ => exact .inl rfl

/-- Only `Spinlock::get` changes the lock on which a task is marked as sleeping. -/
theorem TaskStep.sleepingOnLock_eq (h : TaskStep s c exclusive counter s') (t : TaskId) :
    (s'.tasks t).sleepingOnLock = (s.tasks t).sleepingOnLock ∨
      ∃ l ret, s.regs c = .getStore t l ret ∧ (s'.tasks t).sleepingOnLock = some l := by
  cases h with
  | @marked task l ret phase =>
    by_cases ht : t = task
    · subst ht
      exact .inr ⟨l, ret, phase, by simp [State.updateTask, State.setRegs]⟩
    · exact .inl (by simp [State.updateTask, State.setRegs, ht])
  | timer _ =>
    exact .inl (by rw [setRegs_tasks]; apply updateTask_keeps Task.sleepingOnLock; exact fun _ => rfl)
  | premptionStored _ =>
    exact .inl (by rw [setRegs_tasks]; apply updateTask_keeps Task.sleepingOnLock; exact fun _ => rfl)
  | @sent core send _ =>
    unfold State.request
    split <;> exact .inl rfl
  | _ => exact .inl rfl

/-- Only the stores of `preemptDisable` and `preemptEnable` change `premption`. -/
theorem TaskStep.premption_eq (h : TaskStep s c exclusive counter s') (t : TaskId) :
    (s'.tasks t).premption = (s.tasks t).premption ∨ ∃ value ret, s.regs c =
      .storePremption t value ret := by
  cases h with
  | @premptionStored task value ret phase =>
    by_cases ht : t = task
    · subst ht
      exact .inr ⟨value, ret, phase⟩
    · exact .inl (by simp [State.updateTask, State.setRegs, ht])
  | timer _ =>
    exact .inl (by rw [setRegs_tasks]; apply updateTask_keeps Task.premption; exact fun _ => rfl)
  | marked _ =>
    exact .inl (by rw [setRegs_tasks]; apply updateTask_keeps Task.premption; exact fun _ => rfl)
  | @sent core send _ =>
    unfold State.request
    split <;> exact .inl rfl
  | _ => exact .inl rfl

/-! ### The section guarded by `sleepingQLock` -/

/-- The core inside the section is the one that has the lock; the queue is in order while there is one,
    and holds the task that is about to be moved. -/
structure Guarded (handler : Core → Handler) (owner : Option Core) (queue : ArrayList TaskId) :
    Prop where
  inside_iff : ∀ c, (handler c).inSleepingQ = true ↔ owner = some c
  searchable : ∀ c, owner = some c → queue.Searchable
  waking : ∀ c t, (handler c).waking = some t → t ∈ queue.array

/-- The queue part of the system is guarded. -/
abbrev State.Guarded (s : State β) : Prop :=
  Rpi4Kernel.Sched.Guarded s.handler s.sleepingQLock s.sleepingQ

namespace Guarded

variable {handler : Core → Handler} {owner : Option Core} {queue : ArrayList TaskId} {h : Handler}

theorem inSleepingQ_of_waking (hw : h.waking = some t) : h.inSleepingQ = true := by
  cases h <;> simp_all [Handler.waking, Handler.inSleepingQ]

/-- A core goes on inside the section. -/
theorem inside (g : Guarded handler owner queue) (hc : (handler c).inSleepingQ = true)
    (hh : h.inSleepingQ = true) (hw : ∀ t, h.waking = some t → t ∈ queue.array) :
    Guarded (Function.update handler c h) owner queue where
  inside_iff d := by
    by_cases hd : d = c
    · subst hd
      simpa [hh] using (g.inside_iff d).mp hc
    · rw [Function.update_of_ne hd]
      exact g.inside_iff d
  searchable := g.searchable
  waking d t := by
    by_cases hd : d = c
    · subst hd
      simpa using hw t
    · rw [Function.update_of_ne hd]
      exact g.waking d t

/-- A core goes on outside the section. -/
theorem outside (g : Guarded handler owner queue) (hc : (handler c).inSleepingQ = false)
    (hh : h.inSleepingQ = false) : Guarded (Function.update handler c h) owner queue where
  inside_iff d := by
    by_cases hd : d = c
    · subst hd
      simpa [hh, hc] using g.inside_iff d
    · rw [Function.update_of_ne hd]
      exact g.inside_iff d
  searchable := g.searchable
  waking d t hw := by
    by_cases hd : d = c
    · subst hd
      rw [Function.update_self] at hw
      simp [inSleepingQ_of_waking hw] at hh
    · rw [Function.update_of_ne hd] at hw
      exact g.waking d t hw

/-- No core is inside the section when the lock is free. -/
theorem not_inside (g : Guarded handler none queue) (d : Core) : (handler d).inSleepingQ = false := by
  simpa using g.inside_iff d

/-- The queue may change while the lock is free. -/
theorem of_free (g : Guarded handler none queue) (queue' : ArrayList TaskId) :
    Guarded handler none queue' where
  inside_iff := g.inside_iff
  searchable c hc := by cases hc
  waking d t hw := by simpa [inSleepingQ_of_waking hw] using g.not_inside d

/-- A core enters the section. -/
theorem enters (g : Guarded handler none queue) (hsearch : queue.Searchable)
    (hh : h.inSleepingQ = true) (hw : ∀ t, h.waking = some t → t ∈ queue.array) :
    Guarded (Function.update handler c h) (some c) queue where
  inside_iff d := by
    by_cases hd : d = c
    · subst hd
      simp [hh]
    · simp [Function.update_of_ne hd, g.not_inside d, Ne.symm hd]
  searchable _ _ := hsearch
  waking d t hwd := by
    by_cases hd : d = c
    · subst hd
      exact hw t (by simpa using hwd)
    · rw [Function.update_of_ne hd] at hwd
      simpa [inSleepingQ_of_waking hwd] using g.not_inside d

/-- No other core is inside the section with the one that has the lock. -/
theorem not_inside_of_ne (g : Guarded handler (some c) queue) (hd : d ≠ c) :
    (handler d).inSleepingQ = false := by
  simpa [Ne.symm hd] using g.inside_iff d

/-- The core inside the section leaves it. -/
theorem leaves (g : Guarded handler (some c) queue) (hh : h.inSleepingQ = false) :
    Guarded (Function.update handler c h) none queue where
  inside_iff d := by
    by_cases hd : d = c
    · subst hd
      simp [hh]
    · simp [Function.update_of_ne hd, g.not_inside_of_ne hd]
  searchable d hd := by cases hd
  waking d t hw := by
    by_cases hd : d = c
    · subst hd
      rw [Function.update_self] at hw
      simp [inSleepingQ_of_waking hw] at hh
    · rw [Function.update_of_ne hd] at hw
      simpa [inSleepingQ_of_waking hw] using g.not_inside_of_ne hd

/-- The core inside the section changes the queue, having no task to move any more. -/
theorem changes (g : Guarded handler (some c) queue) {queue' : ArrayList TaskId}
    (hsearch : queue'.Searchable) (hh : h.inSleepingQ = true) (hw : h.waking = none) :
    Guarded (Function.update handler c h) (some c) queue' where
  inside_iff d := by
    by_cases hd : d = c
    · subst hd
      simp [hh]
    · simp [Function.update_of_ne hd, g.not_inside_of_ne hd, Ne.symm hd]
  searchable _ _ := hsearch
  waking d t hwd := by
    by_cases hd : d = c
    · subst hd
      simp [hw] at hwd
    · rw [Function.update_of_ne hd] at hwd
      simpa [inSleepingQ_of_waking hwd] using g.not_inside_of_ne hd

end Guarded

/-! ### Every step keeps the section guarded -/

theorem Pass.after_inSleepingQ (pass : Pass) : pass.after.inSleepingQ = false := by cases pass <;> rfl

theorem Origin.after_inSleepingQ (o : Origin) : o.after.inSleepingQ = false := by cases o <;> rfl

theorem afterReady_inSleepingQ (s : State β) (pass : Pass) (t : TaskId) :
    (s.afterReady pass t).inSleepingQ = true := by
  unfold State.afterReady
  split <;> rfl

theorem afterReady_waking (s : State β) (pass : Pass) (t : TaskId) :
    (s.afterReady pass t).waking = some t := by
  unfold State.afterReady
  split <;> rfl

theorem guarded_handle {reading : Nat} (g : s.Guarded) (h : handle s c reading = some s') :
    s'.Guarded := by
  unfold handle at h
  cases hc : s.handler c with
  | none => simp [hc] at h
  | halted => simp [hc] at h
  | sleepRemove r =>
    simp only [hc, State.sleepRemove] at h
    obtain ⟨q₁, -, h⟩ := Option.bind_eq_some_iff.mp h
    obtain ⟨⟨q, _⟩, -, h⟩ := Option.bind_eq_some_iff.mp h
    cases h
    exact g.outside (by rw [hc]; rfl) rfl
  | sleepAdd r =>
    obtain ⟨hlock, rfl⟩ := sleepAdd_spec (by simpa only [hc] using h)
    unfold State.Guarded at g ⊢
    rw [hlock] at g
    have g' := (g.of_free (s.sleepingQ.add (s.currentTask c))).outside (h := .check .sleep)
      (by rw [hc]; rfl) rfl
    simpa only [State.setHandler, hlock] using g'
  | begin pass =>
    obtain ⟨hlock, q, -, hsearch, rfl⟩ := wakeUpBegin_spec (by simpa only [hc] using h)
    unfold State.Guarded at g
    rw [hlock] at g
    exact (g.of_free q).enters hsearch rfl nofun
  | scan pass index =>
    simp only [hc, Option.some.injEq] at h
    have hin : (s.handler c).inSleepingQ = true := by rw [hc]; rfl
    have hlock := (g.inside_iff c).mp hin
    subst h
    obtain ⟨-, heq⟩ | ⟨t, ht, -, heq⟩ | ⟨t, -, -, heq⟩ := wakeUpScan_cases s c pass index reading
    · rw [heq]
      unfold State.Guarded at g
      rw [hlock] at g
      exact g.leaves pass.after_inSleepingQ
    · rw [heq]
      refine g.inside hin (afterReady_inSleepingQ s pass t) fun t' ht' => ?_
      cases (afterReady_waking s pass t).symm.trans ht'
      exact List.mem_of_getElem? ht
    · rw [heq]
      exact g.inside hin rfl nofun
  | calcCore pass t i count out =>
    simp only [hc, Option.some.injEq] at h
    have hin : (s.handler c).inSleepingQ = true := by rw [hc]; rfl
    have hmem : t ∈ s.sleepingQ.array := g.waking c t (by rw [hc]; rfl)
    subst h
    obtain ⟨i', count', out', heq⟩ | heq := calcNextCore_cases s c pass t i count out <;> rw [heq]
    · exact g.inside hin rfl fun t' ht' => by cases ht'; exact hmem
    · exact g.inside hin rfl fun t' ht' => by cases ht'; exact hmem
  | move pass t n =>
    have hin : (s.handler c).inSleepingQ = true := by rw [hc]; rfl
    have hlock := (g.inside_iff c).mp hin
    obtain ⟨q, -, hsearch, rfl⟩ := wakeUpMove_spec (g.searchable c hlock)
      (g.waking c t (by rw [hc]; rfl)) (by simpa only [hc] using h)
    unfold State.Guarded at g
    rw [hlock] at g
    have g' := g.changes (h := .scan pass 0) hsearch rfl rfl
    simpa only [State.Guarded, State.setHandler, State.setRunningQ, hlock] using g'
  | check o =>
    simp only [hc, Option.some.injEq] at h
    subst h
    refine g.outside (by rw [hc]; rfl) ?_
    split
    · rfl
    · exact o.after_inSleepingQ
  | pick o =>
    simp only [hc, Option.some.injEq] at h
    subst h
    obtain ⟨t, -, heq⟩ | heq := pick_cases s c o reading <;> rw [heq]
    · exact g.outside (by rw [hc]; rfl) rfl
    · exact g.outside (by rw [hc]; rfl) rfl
  | save o t => simp only [hc, Option.some.injEq] at h; subst h; exact g.outside (by rw [hc]; rfl) rfl
  | load o t => simp only [hc, Option.some.injEq] at h; subst h; exact g.outside (by rw [hc]; rfl) rfl
  | setCurrent o t =>
    simp only [hc, Option.some.injEq] at h
    subst h
    exact g.outside (by rw [hc]; rfl) o.after_inSleepingQ
  | sendReschedule =>
    simp only [hc, Option.some.injEq] at h
    subst h
    exact g.outside (by rw [hc]; rfl) rfl

theorem guarded_step {code : Code β} {e : Event β} (g : s.Guarded) (h : step code s e = some s') :
    s'.Guarded := by
  cases e with
  | timer =>
    obtain ⟨hc, rfl⟩ := takeTimer_spec h
    exact g.outside (by rw [hc]; rfl) rfl
  | interrupt c irq source =>
    obtain ⟨hc, after, _, _, _, hstart, rfl⟩ := takeInterrupt_frame h
    exact g.outside (by rw [hc]; rfl) (Handler.inSleepingQ_of_starts hstart)
  | handle c reading => exact guarded_handle g h
  | call c call ret counter =>
    obtain ⟨-, -, rfl⟩ := step_call h
    exact g
  | resume c exclusive counter =>
    have u := (step_resume h).2.placesKept
    unfold State.Guarded
    rw [u.handler, u.sleepingQLock, u.sleepingQ]
    exact g

/-! ### The steps of a handler -/

/-- What the next step of the handler of core `c` does, by its phase. -/
inductive HandlerStep (s : State β) (c : Core) (reading : Nat) : State β → Prop where
  | removed {r : TaskId} (q : ArrayList TaskId) (phase : s.handler c = .sleepRemove r)
      (sub : ∀ t ∈ q.array, t ∈ (s.runningQ c (s.tasks (s.currentTask c)).p).array) :
      HandlerStep s c reading
        ((s.setRunningQ c (s.tasks (s.currentTask c)).p q).setHandler c (.sleepAdd r))
  | added {r : TaskId} (phase : s.handler c = .sleepAdd r) (free : s.sleepingQLock = none) :
      HandlerStep s c reading
        ({ s with sleepingQ := s.sleepingQ.add (s.currentTask c) }.setHandler c (.check .sleep))
  | begun {pass : Pass} {q : ArrayList TaskId} (phase : s.handler c = .begin pass)
      (free : s.sleepingQLock = none) (perm : q.array.Perm s.sleepingQ.array) :
      HandlerStep s c reading
        ({ s with sleepingQLock := some c, sleepingQ := q }.setHandler c (.scan pass 0))
  | ended {pass : Pass} {index : Nat} (phase : s.handler c = .scan pass index)
      (all : s.sleepingQ.array.length ≤ index) :
      HandlerStep s c reading ({ s with sleepingQLock := none }.setHandler c pass.after)
  | found {pass : Pass} {index : Nat} {t : TaskId} (phase : s.handler c = .scan pass index)
      (slot : s.sleepingQ.array[index]? = some t) (ready : s.ready pass reading t = true) :
      HandlerStep s c reading
        ((s.updateTask t (State.clear pass)).setHandler c (s.afterReady pass t))
  | passed {pass : Pass} {index : Nat} {t : TaskId} (phase : s.handler c = .scan pass index)
      (slot : s.sleepingQ.array[index]? = some t) (waits : s.ready pass reading t = false) :
      HandlerStep s c reading (s.setHandler c (.scan pass (index + 1)))
  | compared {pass : Pass} {t : TaskId} {i count i' count' : Nat} {out out' : Core}
      (phase : s.handler c = .calcCore pass t i count out) :
      HandlerStep s c reading (s.setHandler c (.calcCore pass t i' count' out'))
  | chosen {pass : Pass} {t : TaskId} {i count : Nat} {out : Core}
      (phase : s.handler c = .calcCore pass t i count out) :
      HandlerStep s c reading (s.setHandler c (.move pass t out))
  | moved {pass : Pass} {t : TaskId} {n : Core} {q : ArrayList TaskId}
      (phase : s.handler c = .move pass t n) (perm : s.sleepingQ.array.Perm (t :: q.array)) :
      HandlerStep s c reading (({ s with sleepingQ := q }.setRunningQ n (s.tasks t).p
        ((s.runningQ n (s.tasks t).p).add t)).setHandler c (.scan pass 0))
  | allowed {o : Origin} (phase : s.handler c = .check o) (preemptable : s.isPreamptable c = true) :
      HandlerStep s c reading (s.setHandler c (.pick o))
  | refused {o : Origin} (phase : s.handler c = .check o) (preemptable : s.isPreamptable c = false) :
      HandlerStep s c reading (s.setHandler c o.after)
  | picked {o : Origin} {t : TaskId} (phase : s.handler c = .pick o)
      (pick : s.pickNext c reading = some t) : HandlerStep s c reading (s.setHandler c (.save o t))
  | uninitialized {o : Origin} (phase : s.handler c = .pick o) :
      HandlerStep s c reading (s.setHandler c .halted)
  | saved {o : Origin} {t : TaskId} (phase : s.handler c = .save o t) :
      HandlerStep s c reading (s.save c o t)
  | loaded {o : Origin} {t : TaskId} (phase : s.handler c = .load o t) :
      HandlerStep s c reading (s.load c o t)
  | switched {o : Origin} {t : TaskId} (phase : s.handler c = .setCurrent o t) :
      HandlerStep s c reading (s.setCurrent c o t)
  | sent (phase : s.handler c = .sendReschedule) : HandlerStep s c reading (s.sendReschedule c)

theorem handlerStep_of_handle {reading : Nat} (g : s.Guarded) (h : handle s c reading = some s') :
    HandlerStep s c reading s' := by
  unfold handle at h
  cases hc : s.handler c with
  | none => simp [hc] at h
  | halted => simp [hc] at h
  | sleepRemove r =>
    simp only [hc, State.sleepRemove] at h
    obtain ⟨q₁, hq₁, hperm, -⟩ :=
      ArrayList.quickSort_spec (s.runningQ c (s.tasks (s.currentTask c)).p)
    obtain ⟨q₂, hq₂, h⟩ := Option.bind_eq_some_iff.mp h
    cases hq₁.symm.trans hq₂
    obtain ⟨⟨q, _⟩, hq, h⟩ := Option.bind_eq_some_iff.mp h
    cases h
    exact .removed q hc fun t ht => hperm.mem_iff.mp (ArrayList.mem_of_mem_removeElement hq ht)
  | sleepAdd r =>
    simp only [hc] at h
    obtain ⟨hfree, rfl⟩ := sleepAdd_spec h
    exact .added hc hfree
  | begin pass =>
    simp only [hc] at h
    obtain ⟨hfree, q, hperm, -, rfl⟩ := wakeUpBegin_spec h
    exact .begun hc hfree hperm
  | scan pass index =>
    simp only [hc, Option.some.injEq] at h
    subst h
    obtain ⟨hall, heq⟩ | ⟨t, hslot, hr, heq⟩ | ⟨t, hslot, hr, heq⟩ :=
      wakeUpScan_cases s c pass index reading <;> rw [heq]
    · exact .ended hc hall
    · exact .found hc hslot hr
    · exact .passed hc hslot hr
  | calcCore pass t i count out =>
    simp only [hc, Option.some.injEq] at h
    subst h
    obtain ⟨i', count', out', heq⟩ | heq := calcNextCore_cases s c pass t i count out <;> rw [heq]
    · exact .compared hc
    · exact .chosen hc
  | move pass t n =>
    simp only [hc] at h
    obtain ⟨q, hperm, -, rfl⟩ := wakeUpMove_spec
      (g.searchable c ((g.inside_iff c).mp (by rw [hc]; rfl))) (g.waking c t (by rw [hc]; rfl)) h
    exact .moved hc hperm
  | check o =>
    simp only [hc, Option.some.injEq] at h
    subst h
    cases hpre : s.isPreamptable c with
    | true => exact .allowed hc hpre
    | false => exact .refused hc hpre
  | pick o =>
    simp only [hc, Option.some.injEq] at h
    subst h
    obtain ⟨t, hpick, heq⟩ | heq := pick_cases s c o reading <;> rw [heq]
    · exact .picked hc hpick
    · exact .uninitialized hc
  | save o t =>
    simp only [hc, Option.some.injEq] at h
    exact h ▸ .saved hc
  | load o t =>
    simp only [hc, Option.some.injEq] at h
    exact h ▸ .loaded hc
  | setCurrent o t =>
    simp only [hc, Option.some.injEq] at h
    exact h ▸ .switched hc
  | sendReschedule =>
    simp only [hc, Option.some.injEq] at h
    exact h ▸ .sent hc

end Rpi4Kernel.Sched
