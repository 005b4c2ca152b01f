/-
Module: Rpi4Kernel.Proofs.ContextSwitchSpec
Layer: Proofs
Purpose: Context switching end to end: after every run of scheduler interrupts on a core, a task is
  resumed with the registers it had when `reschedule` last switched away from it, or with those
  it was created with.
Trusted boundary: none (fully proved)
Main exports: ContextsMatch, contextsMatch_of_run, resumed_view
-/
import Rpi4Kernel.Irq.ContextSwitch
import Rpi4Kernel.Proofs.ExceptionFrameSpec

namespace Rpi4Kernel.Irq

open Rpi4Kernel.Boot

variable {ι : Type} [DecidableEq ι]

/-! ### Copying contexts -/

/-- `copyRegs` copies all that a task sees. -/
theorem contextView_copyRegs (s d : CoreContext) : contextView (copyRegs s d) = contextView s := rfl

theorem contextView_createKernelTask (task : NewTask) :
    contextView (createKernelTask task) = newTaskView task := by
  have hx : (contextView (createKernelTask task)).x = (newTaskView task).x := by
    funext r
    simp only [contextView, createKernelTask, newTaskView]
    by_cases hr : r.val < 30
    · have hlr : r ≠ lr := by
        intro h
        rw [h] at hr
        exact absurd hr (by decide)
      rw [dif_pos hr, if_neg hlr]
      exact if_congr (by rw [Fin.ext_iff, Fin.ext_iff]; rfl) rfl rfl
    · have hlr : r = lr := by
        apply Fin.ext
        simp only [lr]
        omega
      rw [dif_neg hr, if_pos hlr]
  exact TaskView.ext hx rfl rfl rfl

/-! ### One interrupt -/

/-- An interrupt that does not switch tasks resumes the interrupted task where it was. -/
theorem TakeInterrupt.of_not_switches {s s' : SwitchState ι} {irq : SchedulerIrq}
    {entered resumed : Cpu} {next : ι} (h : TakeInterrupt s irq entered next s' resumed)
    (hswitches : switches s irq = false) : s' = s ∧ taskView resumed = taskView entered := by
  cases h with
  | handled handler call stack frame =>
      have hsame : irqHandlerSpx s irq
          (loadContext (exec kernelEntry entered).mem (exec kernelEntry entered).sp) next =
          some (s, loadContext (exec kernelEntry entered).mem (exec kernelEntry entered).sp) := by
        unfold irqHandlerSpx reschedule
        cases hirq : irq.reschedules with
        | false => rfl
        | true =>
            have hpreempt : s.isPreamptable = false := by
              rwa [switches, hirq, Bool.true_and] at hswitches
            rw [if_pos rfl, if_neg (by rw [hpreempt]; exact Bool.false_ne_true)]
      rw [hsame] at call
      cases call
      refine ⟨rfl, ?_⟩
      rw [kernelExit_spec, frame, loadContext_kernelEntry, contextView_interruptedContext]

/-- An interrupt that switches tasks saves the interrupted task and resumes the next one from its
    context. -/
theorem TakeInterrupt.of_switches {s s' : SwitchState ι} {irq : SchedulerIrq}
    {entered resumed : Cpu} {next : ι} (h : TakeInterrupt s irq entered next s' resumed)
    (hswitches : switches s irq = true) :
    s'.current = next ∧ taskView resumed = contextView (s'.contexts next) ∧
      contextView (s'.contexts s.current) = taskView entered ∧
      ∀ t, t ≠ s.current → s'.contexts t = s.contexts t := by
  rw [switches, Bool.and_eq_true] at hswitches
  cases h with
  | handled handler call stack frame =>
      rw [irqHandlerSpx, if_pos hswitches.1, reschedule, if_pos hswitches.2,
        loadContext_kernelEntry] at call
      simp only at call
      split at call
      · cases call
      · cases call
        refine ⟨rfl, ?_, ?_, fun t ht => Function.update_of_ne ht _ _⟩
        · rw [kernelExit_spec, frame, contextView_copyRegs]
        · simp only [Function.update_self]
          rw [contextView_copyRegs, contextView_interruptedContext]

/-- Every answer of the handler that does not hang leads to an exception return. -/
theorem takeInterrupt_of_call {s s' : SwitchState ι} {irq : SchedulerIrq} {entered : Cpu} {next : ι}
    {regs' : CoreContext}
    (h : irqHandlerSpx s irq (interruptedContext entered) next = some (s', regs')) :
    ∃ resumed, TakeInterrupt s irq entered next s' resumed := by
  rw [← loadContext_kernelEntry] at h
  have hhandler : ∃ handler : Cpu, handler.sp = (exec kernelEntry entered).sp ∧
      loadContext handler.mem handler.sp = regs' := by
    generalize exec kernelEntry entered = framed
    exact ⟨⟨fun _ => 0, framed.sp, fun _ => 0, storeContext framed.mem framed.sp regs'⟩, rfl,
      loadContext_storeContext _ _ _⟩
  obtain ⟨handler, hsp, hframe⟩ := hhandler
  exact ⟨_, .handled handler h hsp hframe⟩

/-! ### Runs -/

/-- The saved contexts of the tasks of a core hold what they saw when `reschedule` last switched away
    from them, or at their creation; the boot task, which was not created so, runs until then. -/
structure ContextsMatch (mine : ι → Prop) (boot : ι) (created : ι → NewTask) (s : SwitchState ι)
    (left : ι → Option TaskView) : Prop where
  owned : mine s.current
  saved : ∀ t v, mine t → left t = some v → contextView (s.contexts t) = v
  fresh : ∀ t, mine t → left t = none → t ≠ boot →
    contextView (s.contexts t) = newTaskView (created t)
  boot : left boot = none → s.current = boot

variable {mine : ι → Prop} {boot : ι} {created : ι → NewTask} {s s' : SwitchState ι}
  {left : ι → Option TaskView}

/-- A switch keeps the contexts in step with the record of the switches. -/
theorem ContextsMatch.switch {irq : SchedulerIrq} {entered resumed : Cpu} {next : ι}
    (h : ContextsMatch mine boot created s left)
    (hnext : mine next) (htaken : TakeInterrupt s irq entered next s' resumed)
    (hswitches : switches s irq = true) : ContextsMatch mine boot created s'
      (Function.update left s.current (some (taskView entered))) := by
  obtain ⟨hcurrent, -, hself, hothers⟩ := htaken.of_switches hswitches
  refine ⟨hcurrent ▸ hnext, fun t v ht hv => ?_, fun t ht hnone hboot => ?_, fun hnone => ?_⟩
  · by_cases hts : t = s.current
    · rw [hts, Function.update_self] at hv
      rw [hts, hself]
      exact Option.some.inj hv
    · rw [Function.update_of_ne hts] at hv
      rw [hothers t hts]
      exact h.saved t v ht hv
  · by_cases hts : t = s.current
    · rw [hts, Function.update_self] at hnone
      cases hnone
    · rw [Function.update_of_ne hts] at hnone
      rw [hothers t hts]
      exact h.fresh t ht hnone hboot
  · by_cases hts : boot = s.current
    · rw [hts, Function.update_self] at hnone
      cases hnone
    · rw [Function.update_of_ne hts] at hnone
      exact absurd (h.boot hnone).symm hts

/-- The contexts match the record of the switches after every run. -/
theorem contextsMatch_of_run (hrun : CoreRun mine boot created s left) :
    ContextsMatch mine boot created s left := by
  induction hrun with
  | start current owned contexts =>
      refine ⟨current ▸ owned, fun t v _ hv => ?_, fun t _ _ hboot => ?_, fun _ => current⟩
      · cases hv
      · rw [contexts t hboot, contextView_createKernelTask]
  | @interrupt s s' left irq _ _ _ _ owned taken ih =>
      cases hswitches : switches s irq with
      | true => exact ih.switch owned taken hswitches
      | false =>
          obtain ⟨rfl, -⟩ := taken.of_not_switches hswitches
          exact ih
  | elsewhere _ current contexts ih =>
      refine ⟨current ▸ ih.owned, fun t v ht hv => ?_, fun t ht hnone hboot => ?_, fun hnone => ?_⟩
      · rw [contexts t ht]
        exact ih.saved t v ht hv
      · rw [contexts t ht]
        exact ih.fresh t ht hnone hboot
      · rw [current]
        exact ih.boot hnone

/-- After every run, an interrupt that switches resumes the next task with exactly what that task saw
    at the exception entry at which `reschedule` last switched away from it (this very entry when
    the task is switched to itself), or with what it was created with; an interrupt that does not
    switch, because its handler does not call `reschedule` or preemption is disabled, resumes the
    interrupted task with what it saw at this entry. -/
theorem resumed_view {irq : SchedulerIrq} {entered resumed : Cpu} {next : ι}
    (hrun : CoreRun mine boot created s left) (hnext : mine next)
    (htaken : TakeInterrupt s irq entered next s' resumed) :
    (switches s irq = true → s'.current = next ∧ taskView resumed =
      (Function.update left s.current (some (taskView entered)) next).getD
        (newTaskView (created next))) ∧
      (switches s irq = false → s'.current = s.current ∧ taskView resumed = taskView entered) := by
  have h := contextsMatch_of_run hrun
  refine ⟨fun hswitches => ?_, fun hswitches => ?_⟩
  · obtain ⟨hcurrent, hresumed, -, -⟩ := htaken.of_switches hswitches
    have h' := h.switch hnext htaken hswitches
    refine ⟨hcurrent, ?_⟩
    rw [hresumed]
    cases hleft : Function.update left s.current (some (taskView entered)) next with
    | some v => exact h'.saved next v hnext hleft
    | none =>
        have hboot : next ≠ boot := by
          rintro rfl
          have hnow := h'.boot hleft
          by_cases hsame : next = s.current
          · rw [hsame, Function.update_self] at hleft
            cases hleft
          · rw [Function.update_of_ne hsame] at hleft
            exact hsame (h.boot hleft).symm
        exact h'.fresh next hnext hleft hboot
  · obtain ⟨rfl, hresumed⟩ := htaken.of_not_switches hswitches
    exact ⟨rfl, hresumed⟩

/-- The first reschedule on a core, from its boot task to a new task. -/
theorem resumed_view_of_new_task :
    ∃ (task : NewTask) (s s' : SwitchState (Fin 2)) (entered resumed : Cpu),
      CoreRun (fun _ => True) 0 (fun _ => task) s (fun _ => none) ∧
      TakeInterrupt s .reschedule entered 1 s' resumed ∧ taskView resumed = newTaskView task := by
  let zero : CoreContext := ⟨fun _ => 0, 0, 0, 0, 0, 0, 0⟩
  let task : NewTask := ⟨0xFFFF000000080000, 0xFFFF000000100000, 2, zero⟩
  let s : SwitchState (Fin 2) :=
    ⟨0, fun t => if t = 0 then zero else createKernelTask task, fun _ => 0⟩
  let entered : Cpu := ⟨fun _ => 0, 0xFFFF000000200000, fun _ => 0, fun _ => 0⟩
  have hrun : CoreRun (fun _ => True) 0 (fun _ => task) s (fun _ => none) :=
    .start rfl trivial fun t ht => if_neg ht
  have hcall : ∃ regs', irqHandlerSpx s .reschedule (interruptedContext entered) 1 =
      some (⟨1, Function.update s.contexts 0 (copyRegs (interruptedContext entered) zero),
        fun _ => 0⟩, regs') := ⟨_, rfl⟩
  obtain ⟨regs', hcall⟩ := hcall
  obtain ⟨resumed, htaken⟩ := takeInterrupt_of_call hcall
  refine ⟨task, s, _, entered, resumed, hrun, htaken, ?_⟩
  exact ((resumed_view hrun trivial htaken).1 rfl).2

end Rpi4Kernel.Irq
