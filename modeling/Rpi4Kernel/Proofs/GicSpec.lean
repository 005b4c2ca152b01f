/-
Module: Rpi4Kernel.Proofs.GicSpec
Layer: Proofs
Purpose: What the operations on the distributor do to each interrupt. Enabling and assigning a target
  change the interrupt they are called for and no other; disabling writes zeros to the set-enable
  bank, and so changes nothing. Interrupts are tracked exactly when no interrupt is disabled that was
  enabled before.
Trusted boundary: none (fully proved)
Main exports: enableInterrupt_enabled, disInterrupt_eq, assignTarget_targets, run_enabled,
  run_targets, tracksLines_iff
-/
import Rpi4Kernel.Drivers.Gic

namespace Rpi4Kernel.Drivers

open Distributor

variable {d : Distributor} {irq other : Fin 1020} {cpu core : Fin 8} {calls : List GicCall}

/-! ### Addresses -/

theorem offset_toNat (bank : BitVec 64) {offset : ℕ} (h : offset < 2 ^ 64) :
    (bank + BitVec.ofNat 64 offset - bank).toNat = offset := by
  rw [add_sub_cancel_left, BitVec.toNat_ofNat, Nat.mod_eq_of_lt h]

/-- Register `n` of a bank. -/
theorem bankWord_self (bank : BitVec 64) {n : ℕ} (hn : n < 32) :
    bankWord bank (bank + BitVec.ofNat 64 (4 * n)) = some n := by
  simp only [bankWord, offset_toNat bank (by omega : 4 * n < 2 ^ 64)]
  rw [if_pos (by omega), Nat.mul_div_cancel_left n (by norm_num)]

/-- A register that lies behind a bank. -/
theorem bankWord_none {bank : BitVec 64} {address : BitVec 64} {offset : ℕ}
    (h : address = bank + BitVec.ofNat 64 offset) (hle : 0x80 ≤ offset) (hlt : offset < 2 ^ 64) :
    bankWord bank address = none := by
  simp only [bankWord, h, offset_toNat bank hlt]
  exact if_neg (by omega)

/-- The registers with the targets lie in neither bank. -/
theorem bankWord_targetRegister (irq : Fin 1020) :
    bankWord GICD_ENABLE_IRQ_BASE (targetRegister irq) = none ∧
      bankWord GICD_ICENABLE (targetRegister irq) = none := by
  have hirq : irq.val / 4 < 255 := by omega
  constructor
  · have behind : targetRegister irq = GICD_ENABLE_IRQ_BASE + BitVec.ofNat 64
        (0x700 + 4 * (irq / 4)) := by
      rw [BitVec.ofNat_add, ← add_assoc]
      rfl
    exact bankWord_none behind (by omega) (by omega)
  · have behind : targetRegister irq = GICD_ICENABLE + BitVec.ofNat 64 (0x680 + 4 * (irq / 4)) := by
      rw [BitVec.ofNat_add, ← add_assoc]
      rfl
    exact bankWord_none behind (by omega) (by omega)

theorem targetRegister_eq_iff :
    targetRegister irq = targetRegister other ↔ irq.val / 4 = other.val / 4 := by
  constructor
  · intro h
    have offsets := add_left_cancel h
    have values := congrArg BitVec.toNat offsets
    rw [BitVec.toNat_ofNat, BitVec.toNat_ofNat, Nat.mod_eq_of_lt (by omega),
      Nat.mod_eq_of_lt (by omega)] at values
    omega
  · intro h
    rw [targetRegister, targetRegister, h]

namespace GIC400

/-! ### The operations -/

/-- A write to the set-enable bank. -/
theorem write_enable (val : BitVec 32) :
    d.write (GICD_ENABLE_IRQ_BASE + BitVec.ofNat 64 (4 * (irq / 32))) val =
      { d with enabled := fun i => d.enabled i || (i / 32 == irq / 32 && val.getLsbD (i % 32)) } := by
  have hword := bankWord_self GICD_ENABLE_IRQ_BASE (by omega : irq.val / 32 < 32)
  rw [write, hword]

theorem enableInterrupt_registers : (enableInterrupt d irq).registers = d.registers := by
  simp only [enableInterrupt, write_enable]

/-- `enable_interrupt` sets the bit of its interrupt only. -/
theorem enableInterrupt_enabled :
    (enableInterrupt d irq).enabled other = (d.enabled other || decide (irq = other)) := by
  simp only [enableInterrupt, write_enable]
  congr 1
  rw [BitVec.getLsbD_shiftLeft, BitVec.getLsbD_one, Bool.eq_iff_iff]
  simp only [Bool.and_eq_true, beq_iff_eq, decide_eq_true_eq, Bool.not_eq_true',
    decide_eq_false_iff_not, Fin.ext_iff]
  omega

/-- `dis_interrupt` changes nothing: the zeros it writes are ignored. -/
theorem disInterrupt_eq : disInterrupt d irq = d := by
  simp only [disInterrupt, write_enable, BitVec.zero_shiftLeft, BitVec.getLsbD_zero, Bool.and_false,
    Bool.or_false]

theorem assignTarget_eq :
    assignTarget d irq cpu = { d with
      registers := Function.update d.registers (targetRegister irq)
        (d.registers (targetRegister irq) ||| 1#32 <<< (irq.val % 4 * 8 + cpu)) } := by
  obtain ⟨noEnable, noClear⟩ := bankWord_targetRegister irq
  simp only [assignTarget]
  rw [← targetRegister, write, noEnable, noClear]
  rfl

theorem assignTarget_enabled : (assignTarget d irq cpu).enabled = d.enabled := by
  rw [assignTarget_eq]

theorem assignTarget_registers :
    (assignTarget d irq cpu).registers = Function.update d.registers (targetRegister irq)
      (d.registers (targetRegister irq) ||| 1#32 <<< (irq.val % 4 * 8 + cpu)) := by
  rw [assignTarget_eq]

/-- `assign_target` adds the core to the targets of its interrupt only. -/
theorem assignTarget_targets :
    (assignTarget d irq cpu).targets other core =
      (d.targets other core || decide (irq = other ∧ cpu = core)) := by
  rw [targets, targets, assignTarget_registers]
  by_cases hword : irq.val / 4 = other.val / 4
  · rw [targetRegister_eq_iff.mpr hword, Function.update_self, BitVec.getLsbD_or,
      BitVec.getLsbD_shiftLeft, BitVec.getLsbD_one]
    congr 1
    rw [Bool.eq_iff_iff]
    simp only [Bool.and_eq_true, decide_eq_true_eq, Bool.not_eq_true', decide_eq_false_iff_not,
      Fin.ext_iff]
    omega
  · have apart : targetRegister other ≠ targetRegister irq := by
      intro h
      exact hword (targetRegister_eq_iff.mp h).symm
    have distinct : ¬(irq = other ∧ cpu = core) := by
      rintro ⟨rfl, _⟩
      exact hword rfl
    rw [Function.update_of_ne apart, decide_eq_false distinct, Bool.or_false]

/-! ### One call -/

theorem perform_enabled (call : GicCall) :
    (perform d call).enabled other = (d.enabled other || decide (call = .enableInterrupt other)) := by
  cases call with
  | enableInterrupt irq =>
    rw [perform, enableInterrupt_enabled]
    simp only [GicCall.enableInterrupt.injEq]
  | disInterrupt irq => simp [perform, disInterrupt_eq]
  | assignTarget irq cpu => simp [perform, assignTarget_enabled]

theorem perform_targets (call : GicCall) :
    (perform d call).targets other core =
      (d.targets other core || decide (call = .assignTarget other core)) := by
  cases call with
  | enableInterrupt irq => simp [perform, targets, enableInterrupt_registers]
  | disInterrupt irq => simp [perform, disInterrupt_eq]
  | assignTarget irq cpu =>
    rw [perform, assignTarget_targets]
    simp only [GicCall.assignTarget.injEq]

/-- A call leaves the other interrupts as they are. -/
theorem perform_sameLine {call : GicCall} (hne : irq ≠ call.irq) : SameLine (perform d call) d irq := by
  constructor
  · have notEnable : call ≠ .enableInterrupt irq := by
      rintro rfl
      exact hne rfl
    rw [perform_enabled, decide_eq_false notEnable, Bool.or_false]
  · intro core
    have notAssign : call ≠ .assignTarget irq core := by
      rintro rfl
      exact hne rfl
    rw [perform_targets, decide_eq_false notAssign, Bool.or_false]

/-! ### Sequences of calls -/

/-- An interrupt is enabled in the end when it was at first, or when it was enabled at any time. -/
theorem run_enabled (d : Distributor) (calls : List GicCall) (irq : Fin 1020) :
    (run d calls).enabled irq = (d.enabled irq || decide (.enableInterrupt irq ∈ calls)) := by
  induction calls generalizing d with
  | nil => simp [run]
  | cons call calls ih =>
    have rest := ih (perform d call)
    rw [perform_enabled] at rest
    refine rest.trans ?_
    simp only [List.mem_cons, Bool.decide_or, Bool.or_assoc, eq_comm]

/-- The targets grow by the cores assigned. -/
theorem run_targets (d : Distributor) (calls : List GicCall) (irq : Fin 1020) (cpu : Fin 8) :
    (run d calls).targets irq cpu = (d.targets irq cpu || decide (.assignTarget irq cpu ∈ calls)) := by
  induction calls generalizing d with
  | nil => simp [run]
  | cons call calls ih =>
    have rest := ih (perform d call)
    rw [perform_targets] at rest
    refine rest.trans ?_
    simp only [List.mem_cons, Bool.decide_or, Bool.or_assoc, eq_comm]

theorem run_others (d : Distributor) (before : List GicCall) {call : GicCall} (hne : irq ≠ call.irq) :
    SameLine (run d (before ++ [call])) (run d before) irq := by
  rw [run, List.foldl_append]
  exact perform_sameLine hne

/-- Without a request there is no call to enable. -/
theorem notMem_of_lastRequest_none (h : lastRequest irq calls = none) :
    .enableInterrupt irq ∉ calls := by
  intro hmem
  have empty := List.getLast?_eq_none_iff.mp h
  have requested : true ∈ calls.filterMap (GicCall.request irq) :=
    List.mem_filterMap.mpr ⟨_, hmem, if_pos rfl⟩
  rw [empty] at requested
  cases requested

/-- When the last request is to enable, there is a call to enable. -/
theorem mem_of_lastRequest_true (h : lastRequest irq calls = some true) :
    .enableInterrupt irq ∈ calls := by
  obtain ⟨call, hmem, asks⟩ := List.mem_filterMap.mp (List.mem_of_getLast? h)
  cases call with
  | enableInterrupt i =>
    obtain ⟨rfl, -⟩ := Option.ite_none_right_eq_some.mp asks
    exact hmem
  | disInterrupt i =>
    obtain ⟨-, wrong⟩ := Option.ite_none_right_eq_some.mp asks
    cases wrong
  | assignTarget i cpu => cases asks

/-- Interrupts are tracked through the calls exactly when an interrupt whose last request is to be
    disabled was neither enabled at first nor by any of the calls. -/
theorem tracksLines_iff (d : Distributor) (calls : List GicCall) :
    TracksLines d calls ↔
      ∀ irq, lastRequest irq calls = some false →
        d.enabled irq = false ∧ .enableInterrupt irq ∉ calls := by
  constructor
  · intro tracks irq hlast
    have off := tracks.enabled irq
    rw [run_enabled, hlast, Option.getD_some, Bool.or_eq_false_iff, decide_eq_false_iff_not] at off
    exact off
  · intro cond
    refine ⟨?_, run_targets d calls, fun before call _ irq hne => run_others d before hne⟩
    intro irq
    rw [run_enabled]
    rcases hlast : lastRequest irq calls with _ | on
    · rw [decide_eq_false (notMem_of_lastRequest_none hlast), Bool.or_false, Option.getD_none]
    · cases on with
      | true => rw [decide_eq_true (mem_of_lastRequest_true hlast), Bool.or_true, Option.getD_some]
      | false =>
        obtain ⟨off, notMem⟩ := cond irq hlast
        rw [off, decide_eq_false notMem, Option.getD_some, Bool.or_false]

/-- The interrupt of the timer, enabled and then disabled, is still enabled. -/
theorem timer_still_enabled :
    ¬TracksLines ⟨fun _ => false, fun _ => 0⟩ [.enableInterrupt 97, .disInterrupt 97] := by
  intro tracks
  have off := tracks.enabled 97
  revert off
  decide

end GIC400

end Rpi4Kernel.Drivers
