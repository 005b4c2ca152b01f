/-
Module: Rpi4Kernel.Proofs.SystemTimerSpec
Layer: Proofs
Purpose: When the clock of the kernel is right. `getCounter` joins halves of one counter value unless
  the low half runs over between its reading and the first reading of the high half, the one position
  of the carry that its loop does not see. The timer handler keeps the next tick when it acknowledges
  the interrupt less than 2000 microseconds after it has read the counter, and keeps the match flags
  of the other channels only if none is set.
Trusted boundary: none (fully proved)
Main exports: readCounter_spec, exists_readCounter, getCounter_within_iff, systemTimerIrq1_keeps_iff
-/
import Rpi4Kernel.Drivers.SystemTimer
import Mathlib.Order.Monotone.Basic

namespace Rpi4Kernel.Drivers

variable {time : ℕ → ℕ} {fuel k : ℕ}

/-! ### Reading the counter -/

theorem counterLo_add_counterHi {counter : ℕ} (h : counter < 2 ^ 64) :
    counterHi counter * 2 ^ 32 + counterLo counter = counter := by
  rw [counterHi, counterLo]
  omega

/-- The last turn of the loop, at access `i`, found the same high half twice. -/
theorem readCounter_spec {lo hi j : ℕ} (h : readCounter time fuel k = some (lo, hi, j)) :
    ∃ i, k ≤ i ∧ j = i + 3 ∧ lo = counterLo (time i) ∧ hi = counterHi (time (i + 1)) ∧
      hi = counterHi (time (i + 2)) := by
  induction fuel generalizing k with
  | zero => cases h
  | succ fuel ih =>
    rw [readCounter] at h
    split at h
    case isTrue =>
      obtain ⟨i, hi, hrest⟩ := ih h
      exact ⟨i, by omega, hrest⟩
    case isFalse hsame =>
      cases h
      exact ⟨k, le_rfl, rfl, rfl, rfl, not_not.mp hsame⟩

/-- The loop ends: every further turn follows a step of the high half. -/
theorem exists_readCounter (hmono : Monotone time) (hwidth : ∀ k, time k < 2 ^ 64)
    (hfuel : 2 ^ 32 ≤ counterHi (time (k + 1)) + fuel) : ∃ r, readCounter time fuel k = some r := by
  induction fuel generalizing k with
  | zero =>
    have hlt : counterHi (time (k + 1)) < 2 ^ 32 := Nat.mod_lt _ (by decide)
    omega
  | succ fuel ih =>
    rw [readCounter]
    split
    case isTrue hchanged =>
      have hstep : time (k + 1) ≤ time (k + 2) := hmono (by omega)
      have hnext : time (k + 2) ≤ time (k + 3 + 1) := hmono (by omega)
      have hwide := hwidth (k + 3 + 1)
      rw [counterHi, counterHi] at hchanged
      rw [counterHi] at hfuel
      refine ih ?_
      rw [counterHi]
      omega
    case isFalse => exact ⟨_, rfl⟩

/-- No carry from the low into the high half between the reading of `lo`, access `i`, and the first
    reading of `hi`; or the low half has come as far as it was by the last reading of `hi`, when the
    counter has gone on by 2^32 and more. -/
def NoCarry (time : ℕ → ℕ) (i : ℕ) : Prop :=
  counterHi (time i) = counterHi (time (i + 1)) ∨ counterLo (time i) ≤ counterLo (time (i + 2))

/-- The value of `getCounter`, joined from the halves of its last turn. -/
theorem getCounter_spec {value j : ℕ} (h : getCounter time fuel k = some (value, j)) :
    ∃ i, k ≤ i ∧ j = i + 3 ∧ counterHi (time (i + 1)) = counterHi (time (i + 2)) ∧
      value = counterHi (time (i + 1)) * 2 ^ 32 + counterLo (time i) := by
  obtain ⟨⟨lo, hi, j'⟩, hread, h⟩ := Option.bind_eq_some_iff.mp h
  obtain ⟨i, hki, rfl, rfl, rfl, hsame⟩ := readCounter_spec hread
  cases h
  refine ⟨i, hki, rfl, hsame, ?_⟩
  have hhi : counterHi (time (i + 1)) < 2 ^ 32 := Nat.mod_lt _ (by decide)
  have hlo : counterLo (time i) < 2 ^ 32 := Nat.mod_lt _ (by decide)
  rw [Nat.shiftLeft_eq]
  omega

/-- The value lies between the first and the last reading exactly when there is no carry. -/
theorem within_iff_noCarry {i value : ℕ} (hmono : Monotone time) (hwidth : ∀ k, time k < 2 ^ 64)
    (hsame : counterHi (time (i + 1)) = counterHi (time (i + 2)))
    (hvalue : value = counterHi (time (i + 1)) * 2 ^ 32 + counterLo (time i)) :
    (time i ≤ value ∧ value ≤ time (i + 2)) ↔ NoCarry time i := by
  have h₀ := counterLo_add_counterHi (hwidth i)
  have h₁ := counterLo_add_counterHi (hwidth (i + 1))
  have h₂ := counterLo_add_counterHi (hwidth (i + 2))
  have hle₁ : time i ≤ time (i + 1) := hmono (by omega)
  have hle₂ : time (i + 1) ≤ time (i + 2) := hmono (by omega)
  have hlo₀ : counterLo (time i) < 2 ^ 32 := Nat.mod_lt _ (by decide)
  have hlo₁ : counterLo (time (i + 1)) < 2 ^ 32 := Nat.mod_lt _ (by decide)
  have hlo₂ : counterLo (time (i + 2)) < 2 ^ 32 := Nat.mod_lt _ (by decide)
  rw [NoCarry]
  omega

/-- What `getCounter` returns lies between the values of the counter at the first and the last reading
    of its last turn exactly when there is no carry between its first two readings; and of two calls
    without such a carry the later one returns no less. -/
theorem getCounter_within_iff (hmono : Monotone time) (hwidth : ∀ k, time k < 2 ^ 64) {value i : ℕ}
    (h : getCounter time fuel k = some (value, i + 3)) :
    ((time i ≤ value ∧ value ≤ time (i + 2)) ↔ NoCarry time i) ∧
      ∀ fuel' k' value' i', i + 3 ≤ k' → getCounter time fuel' k' = some (value', i' + 3) →
        NoCarry time i → NoCarry time i' → value ≤ value' := by
  obtain ⟨j, -, hij, hsame, hvalue⟩ := getCounter_spec h
  obtain rfl : i = j := by omega
  have hwithin := within_iff_noCarry hmono hwidth hsame hvalue
  refine ⟨hwithin, fun fuel' k' value' i' hk' h' hcarry hcarry' => ?_⟩
  obtain ⟨j', hkj', hij', hsame', hvalue'⟩ := getCounter_spec h'
  obtain rfl : i' = j' := by omega
  have hle : time (i + 2) ≤ time i' := hmono (by omega)
  exact ((hwithin.mpr hcarry).2.trans hle).trans
    ((within_iff_noCarry hmono hwidth hsame' hvalue').mpr hcarry').1

/-- A counter that goes on by one with each of the first accesses; its low half runs over between the
    two readings of `hi` in the first turn, so that the loop makes a second one. -/
def slowTime (k : ℕ) : ℕ := 0xfffffffe + min k 100

theorem getCounter_within_slowTime :
    ((slowTime 3 ≤ 0x100000001 ∧ 0x100000001 ≤ slowTime 5) ↔ NoCarry slowTime 3) ∧
      ∀ fuel' k' value' i', 6 ≤ k' → getCounter slowTime fuel' k' = some (value', i' + 3) →
        NoCarry slowTime 3 → NoCarry slowTime i' → 0x100000001 ≤ value' :=
  getCounter_within_iff (fun j k hjk => by simp only [slowTime]; omega)
    (fun k => by simp only [slowTime]; omega)
    (by decide : getCounter slowTime 2 0 = some (0x100000001, 3 + 3))

/-- The counter when its low half runs over behind the first access. -/
def carryTime (k : ℕ) : ℕ := if k = 0 then 0xffffffff else 0x100000000

/-- The call that meets the carry returns a time 71 minutes ahead, and the next call goes back. -/
theorem getCounter_carryTime :
    Monotone carryTime ∧ (∀ k, carryTime k < 2 ^ 64) ∧
      getCounter carryTime 1 0 = some (0x1ffffffff, 3) ∧ carryTime 2 = 0x100000000 ∧
      getCounter carryTime 1 3 = some (0x100000000, 6) := by
  refine ⟨fun j k hjk => ?_, fun k => ?_, by decide, rfl, by decide⟩
  · simp only [carryTime]
    split <;> split <;> omega
  · rw [carryTime]
    split <;> decide

/-! ### The tick -/

namespace SystemTimer

theorem reaches_iff {t : SystemTimer} {later compare : ℕ} : t.reaches later compare = true ↔
    ∃ x, t.counter < x ∧ x ≤ later ∧ counterLo x = compare := by
  rw [reaches, decide_eq_true_iff]
  constructor
  · rintro ⟨e, he, heq⟩
    exact ⟨t.counter + 1 + e, by omega, by omega, heq⟩
  · rintro ⟨x, hx, hle, heq⟩
    exact ⟨x - t.counter - 1, by omega, by rw [← heq]; congr 1; omega⟩

/-- The times from `start` on at which the counter is equal to a compare register that was set for `us`
    behind `start`. -/
theorem counterLo_eq_iff {start x us : ℕ} (hx : start ≤ x) (hus : us < 2 ^ 32) :
    counterLo x = (counterLo start + us) % 2 ^ 32 ↔ ∃ m, x = start + us + m * 2 ^ 32 := by
  simp only [counterLo]
  constructor
  · intro heq
    exact ⟨(x - (start + us)) / 2 ^ 32, by omega⟩
  · rintro ⟨m, rfl⟩
    omega

/-- The flag of channel 1 is set by the return or 2000 microseconds later, if it is clear at `t`. -/
theorem tickComes_advanceTo_iff {t : SystemTimer} {later : ℕ} (hle : t.counter ≤ later)
    (hclear : t.controlStatus 1 = false) : (t.advanceTo later).TickComes ↔
      ∃ x, t.counter < x ∧ x ≤ later + 2000 ∧ counterLo x = t.compare 1 := by
  simp only [TickComes, advanceTo, hclear, Bool.false_or, reaches_iff]
  constructor
  · rintro (⟨x, hx, hxle, heq⟩ | ⟨e, he, hele, heq⟩)
    · exact ⟨x, hx, by omega, heq⟩
    · exact ⟨later + e, by omega, by omega, heq⟩
  · rintro ⟨x, hx, hxle, heq⟩
    rcases Nat.le_total x later with hearly | hlate
    · exact .inl ⟨x, hx, hearly, heq⟩
    · rcases Nat.eq_or_lt_of_le hlate with rfl | hlt
      · exact .inl ⟨later, hx, le_rfl, heq⟩
      · exact .inr ⟨x - later, by omega, by omega, by rw [← heq]; congr 1; omega⟩

/-- The handler writes `compare1` three accesses behind the reading of `lo` in its last turn, reads and
    writes `control_status` with the next two, and returns. -/
theorem systemTimerIrq1_spec {t : SystemTimer} {r : Acknowledged}
    (h : t.systemTimerIrq1 time fuel k = some r) :
    ∃ i, k ≤ i ∧ r.returned = i + 6 ∧
      r.before = ((t.advanceTo (time (i + 3))).writeCompare 1
        ((counterLo (time i) + 2000) % 2 ^ 32)).advanceTo (time (i + 4)) ∧
      r.after = (r.before.advanceTo (time (i + 5))).writeControlStatus
        (fun n => r.before.controlStatus n || n = 1) ∧
      r.last = r.after.advanceTo (time (i + 6)) := by
  obtain ⟨⟨t', k'⟩, hwait, h⟩ := Option.bind_eq_some_iff.mp h
  obtain ⟨⟨lo, hi, j⟩, hread, hwait⟩ := Option.bind_eq_some_iff.mp hwait
  obtain ⟨i, hki, rfl, rfl, -, -⟩ := readCounter_spec hread
  cases hwait
  cases h
  exact ⟨i, hki, rfl, rfl, rfl, rfl⟩

/-- The next tick is kept exactly when the first match behind the acknowledgement is due by the return
    or at most 2000 microseconds later. -/
theorem tickComes_last_iff (hmono : Monotone time) {t : SystemTimer} {r : Acknowledged} {i : ℕ}
    (h : t.systemTimerIrq1 time fuel k = some r) (hi : r.returned = i + 6) : r.last.TickComes ↔
      ∃ m, time (i + 5) < time i + 2000 + m * 2 ^ 32 ∧ time i + m * 2 ^ 32 ≤ time (i + 6) := by
  obtain ⟨j, -, hj, hbefore, hafter, hlast⟩ := systemTimerIrq1_spec h
  obtain rfl : i = j := by omega
  have hle : time i ≤ time (i + 5) := hmono (by omega)
  have hcompare : r.after.compare 1 = (counterLo (time i) + 2000) % 2 ^ 32 := by
    rw [hafter, hbefore]
    simp only [writeControlStatus, advanceTo, writeCompare, Function.update_self]
  have hcounter : r.after.counter = time (i + 5) := by rw [hafter]; rfl
  have hclear : r.after.controlStatus 1 = false := by
    rw [hafter]
    simp [writeControlStatus]
  rw [hlast, tickComes_advanceTo_iff (hcounter ▸ hmono (by omega)) hclear, hcounter, hcompare]
  constructor
  · rintro ⟨x, hx, hxle, heq⟩
    obtain ⟨m, rfl⟩ := (counterLo_eq_iff (by omega) (by decide)).mp heq
    exact ⟨m, hx, by omega⟩
  · rintro ⟨m, hm, hmle⟩
    exact ⟨_, hm, by omega, (counterLo_eq_iff (by omega) (by decide)).mpr ⟨m, rfl⟩⟩

/-- A flag that is set at the read of `control_status` is written as one. -/
theorem controlStatus_after_of_before {t : SystemTimer} {r : Acknowledged}
    (h : t.systemTimerIrq1 time fuel k = some r) {n : Fin 4} (hflag : r.before.controlStatus n = true) :
    r.after.controlStatus n = false := by
  obtain ⟨i, -, -, -, hafter, -⟩ := systemTimerIrq1_spec h
  simp [hafter, writeControlStatus, hflag]

/-- The handler keeps the next tick exactly when it acknowledges the interrupt less than 2000
    microseconds after the reading of `lo`, at access `i` (`m = 0`), or when so many turns of the low
    half pass before it returns that the first match behind the acknowledgement is due by then or at
    most 2000 microseconds later; and it keeps the flags of the other channels exactly when none of
    them is set at the read of `control_status`. -/
theorem systemTimerIrq1_keeps_iff (hmono : Monotone time) {t : SystemTimer} {r : Acknowledged} {i : ℕ}
    (h : t.systemTimerIrq1 time fuel k = some r) (hi : r.returned = i + 6) :
    (r.last.TickComes ∧ ∀ n, n ≠ 1 → r.before.controlStatus n = true → r.after.controlStatus n = true) ↔
      (∃ m, time (i + 5) < time i + 2000 + m * 2 ^ 32 ∧ time i + m * 2 ^ 32 ≤ time (i + 6)) ∧
        ∀ n, n ≠ 1 → r.before.controlStatus n = false := by
  refine and_congr (tickComes_last_iff hmono h hi) (forall_congr' fun n => imp_congr_right fun _ => ?_)
  cases hflag : r.before.controlStatus n with
  | false => simp
  | true => simp [controlStatus_after_of_before h hflag]

/-- A timer with no match so far. -/
def freshTimer : SystemTimer where
  counter := 0
  compare := fun _ => 0
  controlStatus := fun _ => false

theorem systemTimerIrq1_keeps_freshTimer :
    ∃ r, freshTimer.systemTimerIrq1 (fun k => 5 * k) 1 0 = some r ∧ r.last.TickComes ∧
      ∀ n, n ≠ 1 → r.before.controlStatus n = true → r.after.controlStatus n = true := by
  obtain ⟨r, h, hr, hflags⟩ : ∃ r, freshTimer.systemTimerIrq1 (fun k => 5 * k) 1 0 = some r ∧
      r.returned = 0 + 6 ∧ ∀ n, n ≠ 1 → r.before.controlStatus n = false :=
    ⟨_, rfl, rfl, by decide⟩
  exact ⟨r, h, (systemTimerIrq1_keeps_iff (fun j k hjk => Nat.mul_le_mul_left 5 hjk) h hr).mpr
    ⟨⟨0, by decide, by decide⟩, hflags⟩⟩

/-- The counter when 2000 microseconds pass before the acknowledgement. -/
def lateTime (k : ℕ) : ℕ := if k < 5 then 0 else 2000

theorem lateTime_mono : Monotone lateTime := by
  intro j k hjk
  simp only [lateTime]
  split <;> split <;> omega

/-- The acknowledgement of a handler that is 2000 microseconds late takes back the tick that it has set
    itself, and that of any handler the flag of channel 3 that was set before. -/
theorem systemTimerIrq1_lateTime :
    Monotone lateTime ∧
      ∃ r, { freshTimer with controlStatus := fun n => n = 3 }.systemTimerIrq1 lateTime 1 0 = some r ∧
        ¬ r.last.TickComes ∧ r.before.controlStatus 3 = true ∧ r.after.controlStatus 3 = false := by
  obtain ⟨r, h, hr, hflag⟩ : ∃ r,
      { freshTimer with controlStatus := fun n => n = 3 }.systemTimerIrq1 lateTime 1 0 = some r ∧
        r.returned = 0 + 6 ∧ r.before.controlStatus 3 = true := ⟨_, rfl, rfl, by decide⟩
  refine ⟨lateTime_mono, r, h, ?_, hflag, controlStatus_after_of_before h hflag⟩
  rw [tickComes_last_iff lateTime_mono h hr]
  rintro ⟨m, hm, hmle⟩
  simp only [lateTime, Nat.zero_add, Nat.reduceLT, if_true, if_false] at hm hmle
  omega

end SystemTimer

end Rpi4Kernel.Drivers
