/-
Module: Rpi4Kernel.Proofs.AcknowledgeSpec
Layer: Proofs
Purpose: How interrupts are completed. Every call of `irq_handler_spx` that returns has written
  `GICC_EOIR` once, with the number that it has read from `GICC_IAR`; the requesting core is dropped,
  so an interrupt is completed under its own identity exactly when it was requested by core 0, or by
  no core. Reschedule interrupts are; the sleep and wake-up interrupts that the cores 1 to 3 send to
  themselves are not.
Trusted boundary: none (fully proved)
Main exports: AckStep, ackStep_cases, EoirWritten, eoirWritten_of_run, completed_iff,
  completes_of_run, Sends, Requested, requested_step, completed_of_reschedule, completed_iff_sentBy,
  completes_iff_requestedByCore0
-/
import Rpi4Kernel.Proofs.KernelBootSpec
import Rpi4Kernel.Proofs.SleepingQSpec
import Rpi4Kernel.Sched.Acknowledge
import Rpi4Kernel.Theory.Runs

namespace Rpi4Kernel.Sched

open Theory

variable {β : Type} {code : Code β} {s s' : Acknowledged β} {e : AckEvent β} {c : Core}

/-! ### Numbers and cores -/

/-- Masking twice changes nothing. -/
theorem interruptNumber_idem (value : BitVec 32) :
    interruptNumber (interruptNumber value) = interruptNumber value := by
  rw [interruptNumber, interruptNumber, BitVec.and_assoc, BitVec.and_self]

/-- A number has no requesting core. -/
theorem requestingCore_interruptNumber (value : BitVec 32) :
    requestingCore (interruptNumber value) = 0 := by
  have shifted : (interruptNumber value) >>> 10 = 0 := by
    have mask : (0x3FF : BitVec 32).toNat = 2 ^ 10 - 1 := rfl
    apply BitVec.eq_of_toNat_eq
    rw [interruptNumber, BitVec.toNat_ushiftRight, BitVec.toNat_and, mask,
      Nat.and_two_pow_sub_one_eq_mod, Nat.shiftRight_eq_div_pow]
    exact Nat.div_eq_of_lt (Nat.mod_lt _ (by norm_num))
  rw [requestingCore, shifted]
  rfl

/-! ### What a step does -/

/-- The steps, each with what it needs and the system after it. -/
inductive AckStep (code : Code β) (s : Acknowledged β) : AckEvent β → Acknowledged β → Prop where
  | acknowledged {c : Core} {irqAckReg : BitVec 32} {system : State β} (idle : s.call c = none)
      (delivered : s.delivers c irqAckReg = true)
      (dispatched : s.system.dispatch c (irqAckReg &&& 0x3FF) (sourceOf irqAckReg) = some system) :
      AckStep code s (.acknowledge c irqAckReg)
        ({ s with system := system }.setCall c (some ⟨irqAckReg, [], false⟩))
  | handled {c : Core} {reading : Nat} {system : State β}
      (steps : handle s.system c reading = some system) :
      AckStep code s (.handle c reading) { s with system := system }
  | completed {c : Core} {active : HandlerCall} (underWay : s.call c = some active)
      (running : active.ended = false) :
      AckStep code s (.endOfInterrupt c)
        (s.setCall c
          (some { active with completions := active.completions ++ [active.irq], ended := true }))
  | left {c : Core} {active : HandlerCall} (underWay : s.call c = some active)
      (ended : active.ended = true) :
      AckStep code s (.eret c) { s.setCall c none with returned := s.returned ++ [(c, active)] }
  | called {c : Core} {call : Call} {ret : β} {counter : Nat} {system : State β}
      (steps : step code s.system (.call c call ret counter) = some system) :
      AckStep code s (.call c call ret counter) { s with system := system }
  | resumed {c : Core} {exclusive : Bool} {counter : Nat} {system : State β}
      (steps : step code s.system (.resume c exclusive counter) = some system) :
      AckStep code s (.resume c exclusive counter) { s with system := system }

theorem ackStep_cases (h : ackStep code s e = some s') : AckStep code s e s' := by
  cases e with
  | acknowledge c irqAckReg =>
    obtain ⟨now, h⟩ := Option.ite_none_right_eq_some.mp h
    obtain ⟨system, dispatched, rfl⟩ := Option.map_eq_some_iff.mp h
    exact .acknowledged now.1 now.2 dispatched
  | handle c reading =>
    obtain ⟨-, h⟩ := Option.ite_none_right_eq_some.mp h
    obtain ⟨system, steps, rfl⟩ := Option.map_eq_some_iff.mp h
    exact .handled steps
  | endOfInterrupt c =>
    simp only [ackStep] at h
    cases hc : s.call c with
    | none => simp [hc] at h
    | some active =>
      simp only [hc] at h
      obtain ⟨now, h⟩ := Option.ite_none_right_eq_some.mp h
      cases h
      exact .completed hc now.2
  | eret c =>
    simp only [ackStep] at h
    cases hc : s.call c with
    | none => simp [hc] at h
    | some active =>
      simp only [hc] at h
      obtain ⟨ended, h⟩ := Option.ite_none_right_eq_some.mp h
      cases h
      exact .left hc ended
  | call c call ret counter =>
    obtain ⟨-, h⟩ := Option.ite_none_right_eq_some.mp h
    obtain ⟨system, steps, rfl⟩ := Option.map_eq_some_iff.mp h
    exact .called steps
  | resume c exclusive counter =>
    obtain ⟨-, h⟩ := Option.ite_none_right_eq_some.mp h
    obtain ⟨system, steps, rfl⟩ := Option.map_eq_some_iff.mp h
    exact .resumed steps

/-! ### What holds of all calls -/

/-- Every call that is under way or has returned, with its core. -/
structure EveryCall (good : Core → HandlerCall → Prop) (s : Acknowledged β) : Prop where
  underWay : ∀ c call, s.call c = some call → good c call
  returned : ∀ call ∈ s.returned, good call.1 call.2

variable {good : Core → HandlerCall → Prop}

theorem everyCall_start (system : State β) : EveryCall good (Acknowledged.start system) where
  underWay := fun c call h => by cases h
  returned := fun call h => by cases h

/-- Steps that start or end no call keep what holds of all calls. -/
theorem EveryCall.advance (h : EveryCall good s) (system : State β) :
    EveryCall good { s with system := system } :=
  ⟨h.underWay, h.returned⟩

/-- The call of one core is replaced by one of which it holds, or by none. -/
theorem EveryCall.setCall {call : Option HandlerCall} (h : EveryCall good s)
    (fresh : ∀ new, call = some new → good c new) : EveryCall good (s.setCall c call) where
  returned := h.returned
  underWay := by
    intro d new hd
    change Function.update s.call c call d = some new at hd
    by_cases same : d = c
    · subst same
      rw [Function.update_self] at hd
      exact fresh new hd
    · rw [Function.update_of_ne same] at hd
      exact h.underWay d new hd

/-- The call of one core returns. -/
theorem EveryCall.left {active : HandlerCall} (h : EveryCall good s)
    (underWay : s.call c = some active) :
    EveryCall good { s.setCall c none with returned := s.returned ++ [(c, active)] } where
  underWay :=
    have ended : EveryCall good (s.setCall c none) := h.setCall fun _ fresh => by cases fresh
    ended.underWay
  returned := List.forall_mem_append.mpr
    ⟨h.returned, List.forall_mem_singleton.mpr (h.underWay c active underWay)⟩

/-! ### Completions -/

/-- A call has written its number to `GICC_EOIR` at its end, and nothing before. -/
def HandlerCall.Counted (call : HandlerCall) : Prop :=
  call.completions = if call.ended then [call.irq] else []

/-- Every call has written what it should have by now, and those that have returned are at their end. -/
structure EoirWritten (s : Acknowledged β) : Prop where
  counted : EveryCall (fun _ call => call.Counted) s
  ended : ∀ call ∈ s.returned, call.2.ended = true

theorem eoirWritten_step (h : EoirWritten s) (hs : ackStep code s e = some s') : EoirWritten s' := by
  obtain ⟨counted, ended⟩ := h
  cases ackStep_cases hs with
  | @acknowledged c irqAckReg system =>
    refine ⟨(counted.advance system).setCall ?_, ended⟩
    rintro _ ⟨⟩
    rfl
  | handled => exact ⟨counted.advance _, ended⟩
  | @completed c active underWay running =>
    refine ⟨counted.setCall ?_, ended⟩
    rintro _ ⟨⟩
    have before : active.Counted := counted.underWay c active underWay
    rw [HandlerCall.Counted, running] at before
    exact congrArg (· ++ [active.irq]) before
  | @left c active underWay now =>
    exact ⟨counted.left underWay, List.forall_mem_append.mpr ⟨ended, List.forall_mem_singleton.mpr now⟩⟩
  | called => exact ⟨counted.advance _, ended⟩
  | resumed => exact ⟨counted.advance _, ended⟩

/-- In every run, the calls that have returned have written to `GICC_EOIR` once, and the number they
    have read. -/
theorem eoirWritten_of_run {system : State β}
    (hrun : Run (ackStep code) (Acknowledged.start system) s) :
    ∀ call ∈ s.returned, call.2.completions = [call.2.irq] := by
  have all : EoirWritten s :=
    hrun.invariant ⟨everyCall_start system, fun call h => by cases h⟩
      fun _ _ _ h _ hs => eoirWritten_step h hs
  intro call hcall
  have counted : call.2.Counted := all.counted.returned call hcall
  rwa [HandlerCall.Counted, all.ended call hcall] at counted

/-- What is written completes the interrupt exactly when there was no core to be dropped. -/
theorem completed_iff {call : HandlerCall} (h : call.completions = [call.irq]) :
    call.Completed ↔ requestingCore call.irqAckReg = 0 := by
  have number : interruptNumber call.irq = interruptNumber call.irqAckReg := interruptNumber_idem _
  have core : requestingCore call.irq = 0 := requestingCore_interruptNumber _
  constructor
  · rintro ⟨value, written, -, same⟩
    obtain rfl : call.irq = value := List.head_eq_of_cons_eq (h.symm.trans written)
    rw [← same, core]
  · intro zero
    exact ⟨call.irq, h, number, by rw [core, zero]⟩

/-! ### Runs -/

/-- A run in which every interrupt that is taken was requested by core 0 or by no core. -/
theorem completes_of_run {system : State β}
    (hrun : RunWhere (ackStep code) requestedByCore0 (Acknowledged.start system) s) : s.Completes := by
  have requested : EveryCall (fun _ call => requestingCore call.irqAckReg = 0) s := by
    apply hrun.invariant (everyCall_start system)
    intro s e s' h meets hs
    cases ackStep_cases hs with
    | acknowledged =>
      apply (h.advance _).setCall
      rintro _ ⟨⟩
      exact of_decide_eq_true meets
    | handled => exact h.advance _
    | @completed c active underWay _ =>
      apply h.setCall
      rintro _ ⟨⟩
      exact h.underWay c active underWay
    | left underWay => exact h.left underWay
    | called => exact h.advance _
    | resumed => exact h.advance _
  intro call hcall
  have written := eoirWritten_of_run (hrun.mono fun _ _ _ => rfl) call hcall
  exact (completed_iff written).mpr (requested.returned call hcall)

/-! ### Who requests an interrupt -/

/-- The phases that only the handler of the timer's interrupt goes through. -/
def Handler.ofTimer : Handler → Bool
  | .begin pass | .scan pass _ | .calcCore pass _ _ _ _ | .move pass _ _ => pass = .tick
  | .check origin | .pick origin | .save origin _ | .load origin _ | .setCurrent origin _ =>
    origin = .timer
  | .sendReschedule => true
  | .none | .sleepRemove _ | .sleepAdd _ | .halted => false

/-- The pass at a timer tick is the one after which the handler goes on with the timer's interrupt. -/
theorem Pass.eq_tick {pass : Pass} (h : pass.after.ofTimer = true) : pass = .tick := by
  cases pass with
  | tick => rfl
  | timers => cases h
  | locks => cases h

theorem Origin.eq_timer {origin : Origin} (h : origin.after.ofTimer = true) : origin = .timer := by
  cases origin with
  | timer => rfl
  | reschedule => cases h
  | sleep => cases h

/-- The core that makes an interrupt pending on core `c`. -/
def Sgi.sentBy (c : Core) : Sgi → Core
  | .reschedule => 0
  | .sleep | .wakeUpAll => c

/-- The interrupt that a write to `GICD_SGIR` by a task asks for. -/
def Send.sgi (send : Send β) : Sgi := if send.asksSleep then .sleep else .wakeUpAll

theorem Send.sgi_ne_reschedule (send : Send β) : send.sgi ≠ .reschedule := by
  cases send <;> nofun

/-- A step of core `c` makes the interrupts pending that are `sent`, and starts no handler of the
    timer's interrupt outside core 0. -/
structure Sends (s s' : State β) (c : Core) (sent : Core → Sgi → Prop) : Prop where
  timer : ∀ d, (s'.handler d).ofTimer = true → (s.handler d).ofTimer = true ∨ d = 0
  raised : ∀ d sgi source, s'.pending d sgi source = true →
    s.pending d sgi source = true ∨ source = c ∧ sent d sgi

variable {s₀ s₁ : State β} {sent : Core → Sgi → Prop}

/-- Nothing becomes pending. -/
theorem Sends.of_pending {after : Handler} (handler : s₁.handler = Function.update s₀.handler c after)
    (timer : after.ofTimer = true → (s₀.handler c).ofTimer = true ∨ c = 0)
    (kept : ∀ d sgi source, s₁.pending d sgi source = true → s₀.pending d sgi source = true) :
    Sends s₀ s₁ c sent where
  timer := by
    intro d hd
    rw [handler] at hd
    by_cases same : d = c
    · subst same
      rw [Function.update_self] at hd
      exact timer hd
    · rw [Function.update_of_ne same] at hd
      exact .inl hd
  raised := fun d sgi source now => .inl (kept d sgi source now)

/-- The handlers pass from a phase to the next one. -/
theorem Sends.of_after {after : Handler} (base : State β) (handler : base.handler = s₀.handler)
    (pending : base.pending = s₀.pending)
    (timer : after.ofTimer = true → (s₀.handler c).ofTimer = true) :
    Sends s₀ (base.setHandler c after) c sent := by
  apply Sends.of_pending
  · rw [State.setHandler, handler]
  · exact fun h => .inl (timer h)
  · intro d sgi source h
    rw [← pending]
    exact h

/-- Only the last step of the timer's handler makes an interrupt pending. -/
theorem sends_handle {reading : Nat} (h : handle s₀ c reading = some s₁) :
    Sends s₀ s₁ c fun _ sgi => sgi = .reschedule ∧ (s₀.handler c).ofTimer = true := by
  unfold handle at h
  cases hc : s₀.handler c with
  | none => simp [hc] at h
  | halted => simp [hc] at h
  | sleepRemove r =>
    simp only [hc, State.sleepRemove] at h
    obtain ⟨q, -, h⟩ := Option.bind_eq_some_iff.mp h
    obtain ⟨⟨q', _⟩, -, h⟩ := Option.bind_eq_some_iff.mp h
    cases h
    exact .of_after _ rfl rfl (by rintro ⟨⟩)
  | sleepAdd r =>
    simp only [hc] at h
    obtain ⟨-, rfl⟩ := sleepAdd_spec h
    exact .of_after _ rfl rfl (by rintro ⟨⟩)
  | begin pass =>
    simp only [hc] at h
    obtain ⟨-, q, -, -, rfl⟩ := wakeUpBegin_spec h
    exact .of_after _ rfl rfl fun timer => by rwa [hc]
  | scan pass index =>
    simp only [hc, Option.some.injEq] at h
    subst h
    obtain ⟨-, heq⟩ | ⟨t, -, -, heq⟩ | ⟨t, -, -, heq⟩ :=
      wakeUpScan_cases s₀ c pass index reading <;> rw [heq]
    · exact .of_after _ rfl rfl fun timer => by rw [hc]; exact decide_eq_true (Pass.eq_tick timer)
    · refine .of_after _ rfl rfl fun timer => ?_
      rw [State.afterReady] at timer
      rw [hc]
      split at timer <;> exact timer
    · exact .of_after _ rfl rfl fun timer => by rwa [hc]
  | calcCore pass t i count out =>
    simp only [hc, Option.some.injEq] at h
    subst h
    obtain ⟨i', count', out', heq⟩ | heq := calcNextCore_cases s₀ c pass t i count out <;> rw [heq]
    · exact .of_after _ rfl rfl fun timer => by rwa [hc]
    · exact .of_after _ rfl rfl fun timer => by rwa [hc]
  | move pass t n =>
    simp only [hc, State.wakeUpMove] at h
    obtain ⟨⟨q, found⟩, -, h⟩ := Option.bind_eq_some_iff.mp h
    cases found with
    | true =>
      cases h
      exact .of_after _ rfl rfl fun timer => by rwa [hc]
    | false =>
      cases h
      exact .of_after _ rfl rfl (by rintro ⟨⟩)
  | check o =>
    simp only [hc, Option.some.injEq] at h
    subst h
    cases s₀.isPreamptable c with
    | true => exact .of_after _ rfl rfl fun timer => by rwa [hc]
    | false =>
      exact .of_after _ rfl rfl fun timer => by rw [hc]; exact decide_eq_true (Origin.eq_timer timer)
  | pick o =>
    simp only [hc, Option.some.injEq] at h
    subst h
    obtain ⟨t, -, heq⟩ | heq := pick_cases s₀ c o reading <;> rw [heq]
    · exact .of_after _ rfl rfl fun timer => by rwa [hc]
    · exact .of_after _ rfl rfl (by rintro ⟨⟩)
  | save o t =>
    simp only [hc, Option.some.injEq] at h
    subst h
    exact .of_after _ rfl rfl fun timer => by rwa [hc]
  | load o t =>
    simp only [hc, Option.some.injEq] at h
    subst h
    exact .of_after _ rfl rfl fun timer => by rwa [hc]
  | setCurrent o t =>
    simp only [hc, Option.some.injEq] at h
    subst h
    exact .of_after _ rfl rfl fun timer => by rw [hc]; exact decide_eq_true (Origin.eq_timer timer)
  | sendReschedule =>
    simp only [hc, Option.some.injEq] at h
    subst h
    constructor
    case timer =>
      have done : Sends s₀ (s₀.setHandler c .none) c fun _ _ => False :=
        .of_after s₀ rfl rfl (by rintro ⟨⟩)
      exact done.timer
    case raised =>
      intro d sgi source now
      cases sgi with
      | sleep => exact .inl now
      | wakeUpAll => exact .inl now
      | reschedule =>
        obtain sent | before := (Bool.or_eq_true _ _).mp now
        · have same : source = c := of_decide_eq_true ((Bool.and_eq_true _ _).mp sent).2
          exact .inr ⟨same, rfl, rfl⟩
        · exact .inl before

/-- Where one interrupt becomes pending, the others were pending before. -/
theorem raised_cases {α : Type} {pending : Core → Core → α} {a : α} {core d source : Core}
    (isPending : α → Bool)
    (now : isPending (Function.update pending core (Function.update (pending core) c a) d source) =
      true) :
    isPending (pending d source) = true ∨ d = core ∧ source = c := by
  by_cases hd : d = core
  · subst hd
    by_cases hc : source = c
    · exact .inr ⟨rfl, hc⟩
    · rw [Function.update_self, Function.update_of_ne hc] at now
      exact .inl now
  · rw [Function.update_of_ne hd] at now
    exact .inl now

/-- Tasks send the sleep and the wake-up interrupt to the core whose number they have read. -/
theorem sends_taskStep {exclusive : Bool} {counter : Nat} (h : TaskStep s₀ c exclusive counter s₁) :
    Sends s₀ s₁ c fun d sgi => ∃ send, s₀.regs c = .sendSgi d send ∧ send.sgi = sgi where
  timer := fun d hd => .inl (by rwa [h.placesKept.handler] at hd)
  raised := by
    intro d sgi source now
    cases h with
    | @sent core send phase =>
      have hraised : s₀.pending d sgi source = true ∨ d = core ∧ source = c ∧ send.sgi = sgi := by
        rw [Send.sgi]
        simp only [State.request, State.setRegs] at now
        split at now
        · rename_i asks
          rw [if_pos asks]
          cases sgi with
          | sleep => exact (raised_cases Option.isSome now).imp_right fun h => ⟨h.1, h.2, rfl⟩
          | _ => exact .inl now
        · rename_i asks
          rw [if_neg asks]
          cases sgi with
          | wakeUpAll => exact (raised_cases id now).imp_right fun h => ⟨h.1, h.2, rfl⟩
          | _ => exact .inl now
      obtain before | ⟨rfl, hsource, hsgi⟩ := hraised
      · exact .inl before
      · exact .inr ⟨hsource, send, phase, hsgi⟩
    | _ => exact .inl (by cases sgi <;> exact now)

/-- A call of a task changes nothing of this. -/
theorem sends_enter (s₀ : State β) (c : Core) (call : Call) (ret : β) (counter : Nat) :
    Sends s₀ (s₀.enter c call ret counter) c sent :=
  ⟨fun _ hd => .inl hd, fun _ sgi _ now => .inl (by cases sgi <;> exact now)⟩

variable {source : Core}

/-- An interrupt that is taken was pending. -/
theorem takeInterrupt_pending {sgi : Sgi} (h : takeInterrupt s₀ c sgi source = some s₁) :
    s₀.pending c sgi source = true := by
  cases sgi with
  | reschedule => exact (takeInterrupt_reschedule h).2.1
  | sleep =>
    obtain ⟨-, r, pending, -⟩ := takeInterrupt_sleep h
    exact Option.isSome_of_eq_some pending
  | wakeUpAll => exact (takeInterrupt_wakeUpAll h).2.1

/-- Taking an interrupt makes none pending. -/
theorem sends_takeInterrupt {sgi : Sgi} (h : takeInterrupt s₀ c sgi source = some s₁) :
    Sends s₀ s₁ c sent := by
  cases sgi with
  | reschedule =>
    obtain ⟨-, -, rfl⟩ := takeInterrupt_reschedule h
    refine .of_pending rfl (by nofun) fun d sgi from_ hd => ?_
    cases sgi with
    | reschedule => exact of_cleared (by decide) hd
    | _ => exact hd
  | sleep =>
    obtain ⟨-, r, -, rfl⟩ := takeInterrupt_sleep h
    refine .of_pending rfl (by nofun) fun d sgi from_ hd => ?_
    cases sgi with
    | sleep =>
      obtain ⟨r', hr'⟩ := Option.isSome_iff_exists.mp hd
      exact Option.isSome_of_eq_some (of_cleared (by nofun) hr')
    | _ => exact hd
  | wakeUpAll =>
    obtain ⟨-, -, rfl⟩ := takeInterrupt_wakeUpAll h
    refine .of_pending rfl (by nofun) fun d sgi from_ hd => ?_
    cases sgi with
    | wakeUpAll => exact of_cleared (by decide) hd
    | _ => exact hd

/-- The branches of the switch over `irq`. -/
inductive Dispatched (s : State β) (c : Core) (irq : BitVec 32) (source : Core) : State β → Prop where
  | timer (number : sgiOf irq = none) (first : c = 0) :
      Dispatched s c irq source (s.setHandler c (.begin .tick))
  | scheduler {sgi : Sgi} {s' : State β} (number : sgiOf irq = some sgi)
      (taken : takeInterrupt s c sgi source = some s') : Dispatched s c irq source s'
  | halt (number : sgiOf irq = none) : Dispatched s c irq source (s.setHandler c .halted)
  | other (number : sgiOf irq = none) : Dispatched s c irq source s

theorem dispatch_cases {irq : BitVec 32} (h : s₀.dispatch c irq source = some s₁) :
    Dispatched s₀ c irq source s₁ := by
  rw [State.dispatch] at h
  split at h <;> [cases h; skip]
  split at h
  case isTrue timer =>
    subst timer
    split at h <;> [skip; cases h]
    case isTrue first =>
      subst first
      obtain ⟨-, rfl⟩ := takeTimer_spec h
      exact .timer rfl rfl
  split at h
  case isTrue reschedule =>
    subst reschedule
    exact .scheduler rfl h
  split at h
  case isTrue timer3 =>
    subst timer3
    cases h
    exact .other rfl
  split at h
  case isTrue wakeUp =>
    subst wakeUp
    exact .scheduler rfl h
  split at h
  case isTrue sleep =>
    subst sleep
    exact .scheduler rfl h
  split at h
  case isTrue uart =>
    subst uart
    cases h
    exact .other rfl
  split at h
  case isTrue halt =>
    subst halt
    cases h
    exact .halt rfl
  case isFalse notReschedule _ notWakeUp notSleep _ _ =>
    have number : sgiOf irq = none := by
      rw [sgiOf, if_neg notReschedule, if_neg notSleep, if_neg notWakeUp]
    split at h <;> cases h <;> exact .other number

theorem sends_dispatch {irq : BitVec 32} (h : s₀.dispatch c irq source = some s₁) :
    Sends s₀ s₁ c sent := by
  cases dispatch_cases h with
  | timer number first => exact .of_pending rfl (fun _ => .inr first) fun _ _ _ hd => hd
  | scheduler number taken => exact sends_takeInterrupt taken
  | halt number => exact .of_pending rfl (by nofun) fun _ _ _ hd => hd
  | other number => exact ⟨fun _ hd => .inl hd, fun _ _ _ now => .inl now⟩

/-- An interrupt of the scheduler is pending when it is handled. -/
theorem pending_of_dispatch {irq : BitVec 32} {sgi : Sgi} (h : s₀.dispatch c irq source = some s₁)
    (number : sgiOf irq = some sgi) : s₀.pending c sgi source = true := by
  cases dispatch_cases h with
  | timer none => cases none.symm.trans number
  | scheduler same taken =>
    cases same.symm.trans number
    exact takeInterrupt_pending taken
  | halt none => cases none.symm.trans number
  | other none => cases none.symm.trans number

/-! ### The senders in a run -/

/-- The requesting core of a software-generated interrupt is that of its sender. -/
theorem requestingCore_eq {value : BitVec 32} (small : requestingCore value < 4) :
    requestingCore value = BitVec.ofNat 32 (sourceOf value : Nat) := by
  have hlt : (requestingCore value).toNat < 4 := small
  apply BitVec.eq_of_toNat_eq
  rw [sourceOf, BitVec.toNat_ofNat]
  simp only [Fin.ofNat]
  omega

/-- A call that handles one of the interrupts `sgis` has read who sends that interrupt. -/
def HandlerCall.SentBy (sgis : Sgi → Prop) (c : Core) (call : HandlerCall) : Prop :=
  ∀ sgi, sgis sgi → sgiOf call.irq = some sgi →
    requestingCore call.irqAckReg = BitVec.ofNat 32 (sgi.sentBy c)

/-- The timer's interrupt is handled by core 0, and each of the interrupts `sgis` has been sent by the
    core whose part it is to send it. -/
structure Requested (sgis : Sgi → Prop) (s : Acknowledged β) : Prop where
  timer : ∀ c, (s.system.handler c).ofTimer = true → c = 0
  sender : ∀ c sgi source, sgis sgi → s.system.pending c sgi source = true → source = sgi.sentBy c
  calls : EveryCall (HandlerCall.SentBy sgis) s

variable {sgis : Sgi → Prop}

theorem Requested.advance (h : Requested sgis s) (sends : Sends s.system s₁ c sent)
    (own : ∀ d sgi, sgis sgi → sent d sgi → c = sgi.sentBy d) :
    Requested sgis { s with system := s₁ } where
  timer := fun d hd => (sends.timer d hd).elim (h.timer d) id
  sender := by
    intro d sgi source member now
    obtain before | ⟨rfl, now⟩ := sends.raised d sgi source now
    · exact h.sender d sgi source member before
    · exact own d sgi member now
  calls := h.calls.advance s₁

theorem requested_step (h : Requested sgis s)
    (own : sendsToOwnCore s e = true ∨ ∀ sgi, sgis sgi → sgi = .reschedule)
    (hs : ackStep code s e = some s') : Requested sgis s' := by
  cases ackStep_cases hs with
  | @acknowledged c irqAckReg system idle delivered dispatched =>
    have sends : Sends s.system system c fun _ _ => False := sends_dispatch dispatched
    have next : Requested sgis { s with system := system } :=
      h.advance sends fun _ _ _ none => none.elim
    refine ⟨next.timer, next.sender, next.calls.setCall ?_⟩
    rintro _ ⟨⟩ sgi member number
    have sent := h.sender c sgi _ member (pending_of_dispatch dispatched number)
    change sgiOf (interruptNumber irqAckReg) = some sgi at number
    rw [Acknowledged.delivers, number, Bool.and_eq_true, Bool.and_eq_true] at delivered
    rw [← sent]
    exact requestingCore_eq (of_decide_eq_true delivered.2.1)
  | handled steps =>
    refine h.advance (sends_handle steps) ?_
    rintro _ _ - ⟨rfl, timer⟩
    exact h.timer _ timer
  | @completed c active underWay running =>
    refine ⟨h.timer, h.sender, h.calls.setCall ?_⟩
    rintro _ ⟨⟩
    exact h.calls.underWay c active underWay
  | left underWay => exact ⟨h.timer, h.sender, h.calls.left underWay⟩
  | @called c call ret counter system steps =>
    obtain ⟨-, -, rfl⟩ := step_call steps
    have sends : Sends s.system (s.system.enter c call ret counter) c fun _ _ => False :=
      sends_enter s.system c call ret counter
    exact h.advance sends fun _ _ _ none => none.elim
  | @resumed c exclusive counter system steps =>
    refine h.advance (sends_taskStep (step_resume steps).2) ?_
    rintro d _ member ⟨send, phase, rfl⟩
    obtain own | only := own
    · have here : d = c := by simpa [sendsToOwnCore, phase] using own
      cases send <;> exact here.symm
    · exact absurd (only _ member) send.sgi_ne_reschedule

/-- No interrupt has been sent or taken. -/
structure Quiet (system : State β) : Prop where
  handler : ∀ c, system.handler c = .none
  pending : ∀ c sgi source, system.pending c sgi source = false

theorem requested_start {system : State β} (quiet : Quiet system) :
    Requested sgis (Acknowledged.start system) where
  timer := by
    intro c hc
    change (system.handler c).ofTimer = true at hc
    rw [quiet.handler] at hc
    cases hc
  sender := by
    intro c sgi source _ hc
    change system.pending c sgi source = true at hc
    rw [quiet.pending] at hc
    cases hc
  calls := everyCall_start system

theorem requestingCore_eq_zero {c : Core} : BitVec.ofNat 32 (c : Nat) = 0 ↔ c = 0 := by
  constructor
  · intro h
    fin_cases c <;> first | rfl | cases h
  · rintro rfl
    rfl

/-- Reschedule interrupts are always completed under their own identity. -/
theorem completed_of_reschedule {system : State β} (quiet : Quiet system)
    (hrun : Run (ackStep code) (Acknowledged.start system) s) {call : HandlerCall}
    (returned : (c, call) ∈ s.returned) (number : sgiOf call.irq = some .reschedule) :
    call.Completed := by
  have requested : Requested (· = .reschedule) s :=
    hrun.invariant (requested_start quiet) fun _ _ _ h _ hs => requested_step h (.inr fun _ => id) hs
  have sent := requested.calls.returned (c, call) returned .reschedule rfl number
  rw [completed_iff (eoirWritten_of_run hrun (c, call) returned), sent]
  rfl

/-- Of the interrupts of the scheduler, when tasks send them to the core on which they run, reschedule
    interrupts are completed under their own identity, sleep and wake-up interrupts on core 0 alone. -/
theorem completed_iff_sentBy {system : State β} (quiet : Quiet system)
    (hrun : RunWhere (ackStep code) sendsToOwnCore (Acknowledged.start system) s) {call : HandlerCall}
    {sgi : Sgi} (returned : (c, call) ∈ s.returned) (number : sgiOf call.irq = some sgi) :
    call.Completed ↔ sgi.sentBy c = 0 := by
  have requested : Requested (fun _ => True) s :=
    hrun.invariant (requested_start quiet) fun _ _ _ h hok hs => requested_step h (.inl hok) hs
  have sent := requested.calls.returned (c, call) returned sgi trivial number
  rw [completed_iff (eoirWritten_of_run (hrun.mono fun _ _ _ => rfl) (c, call) returned), sent]
  exact requestingCore_eq_zero

/-- The kernel starts so. -/
theorem quiet_kernelBoot (n : Nat) : Quiet (kernelBoot n) where
  handler := fun _ => rfl
  pending := fun _ sgi _ => by cases sgi <;> rfl

/-! ### Completions in a run -/

/-- In every run, each call that has returned has written `GICC_EOIR` once, with its number, and all
    of them have completed their interrupts exactly when none was requested by another core than core
    0. They have in every run that takes no other interrupt. -/
theorem completes_iff_requestedByCore0 (code : Code β) (system : State β) :
    (∀ s, Run (ackStep code) (Acknowledged.start system) s →
      (∀ call ∈ s.returned, call.2.completions = [call.2.irq]) ∧
        (s.Completes ↔ ∀ call ∈ s.returned, requestingCore call.2.irqAckReg = 0)) ∧
      ∀ s, RunWhere (ackStep code) requestedByCore0 (Acknowledged.start system) s → s.Completes := by
  constructor
  · intro s hrun
    have written := eoirWritten_of_run hrun
    refine ⟨written, ?_⟩
    constructor
    · intro completes call hcall
      exact (completed_iff (written call hcall)).mp (completes call hcall)
    · intro requested call hcall
      exact (completed_iff (written call hcall)).mpr (requested call hcall)
  · intro s hrun
    exact completes_of_run hrun

/-- A call of the handler on core `c` from the read of `GICC_IAR` to the return, in `n` steps
    between. -/
def handlerCall (c : Core) (irqAckReg : BitVec 32) (n : Nat) : List (AckEvent KernelPoint) :=
  .acknowledge c irqAckReg :: List.replicate n (.handle c 0) ++ [.endOfInterrupt c, .eret c]

/-- The first timer tick on core 0, and the reschedule interrupt on core 1, which both switch the
    task. -/
def firstInterrupts : List (AckEvent KernelPoint) := handlerCall 0 0x61 8 ++ handlerCall 1 2 5

/-- After the first two interrupts, `screenTask` on core 1 takes `fb_lock` and frees it, which wakes
    up the other tasks: core 1 takes its own interrupt. -/
def ownWakeUp : List (AckEvent KernelPoint) :=
  firstInterrupts ++
    .call 1 (.get fbLock) .screenTest 0 :: List.replicate 5 (.resume 1 true 0) ++
    .call 1 (.free fbLock) .screenSleep 0 :: List.replicate 4 (.resume 1 true 0) ++
    handlerCall 1 0x404 4

theorem completes_firstInterrupts :
    ∃ s, RunWhere (ackStep kernelCode) requestedByCore0 (Acknowledged.start (kernelBoot threadN)) s ∧
      s.returned.length = 2 ∧ s.Completes := by
  obtain ⟨s, hrun, hs⟩ : ∃ s, RunWhere (ackStep kernelCode) requestedByCore0
      (Acknowledged.start (kernelBoot threadN)) s ∧ decide (s.returned.length = 2) = true :=
    RunWhere.exists_of_replay firstInterrupts (by decide +kernel)
  exact ⟨s, hrun, of_decide_eq_true hs, (completes_iff_requestedByCore0 kernelCode _).2 s hrun⟩

/-- The wake-up interrupt of core 1 stays active: 0x404 is read and 4 is written. -/
theorem ownWakeUp_not_completed :
    ¬ ∀ s, Run (ackStep kernelCode) (Acknowledged.start (kernelBoot threadN)) s → s.Completes := by
  intro completes
  obtain ⟨s, hrun, hs⟩ : ∃ s, Run (ackStep kernelCode) (Acknowledged.start (kernelBoot threadN)) s ∧
      decide ((1, HandlerCall.mk 0x404 [4] true) ∈ s.returned) = true :=
    RunWhere.exists_of_replay ownWakeUp (by decide +kernel)
  have returned : (1, HandlerCall.mk 0x404 [4] true) ∈ s.returned := of_decide_eq_true hs
  have onCore0 : requestingCore 0x404 = 0 :=
    (completed_iff (eoirWritten_of_run hrun _ returned)).mp (completes s hrun _ returned)
  cases onCore0

end Rpi4Kernel.Sched
