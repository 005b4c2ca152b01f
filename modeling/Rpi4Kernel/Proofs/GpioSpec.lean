/-
Module: Rpi4Kernel.Proofs.GpioSpec
Layer: Proofs
Purpose: `GPIO::call` replaces the field of its pin and nothing else, and a sequence of calls leaves
  each pin with the value set last. The offset of the register is an `unsigned int`; the pins for
  which it does not wrap round are those of the first 2^30 registers.
Trusted boundary: none (fully proved)
Main exports: call_refused, call_accepted, pinField_call, pinField_callAll, pin_fields_independent
-/
import Rpi4Kernel.Drivers.Gpio

namespace Rpi4Kernel.Drivers.GPIO

open Theory

variable {mmio : Mmio} {base : BitVec 64} {fieldSize fieldMax pinNumber other value : BitVec 32}

/-! ### Registers -/

theorem registerAddress_inj {j k : ℕ} (hj : j < 2 ^ 61) (hk : k < 2 ^ 61)
    (h : registerAddress base j = registerAddress base k) : j = k := by
  have offsets : BitVec.ofNat 64 (4 * j) = BitVec.ofNat 64 (4 * k) := add_left_cancel h
  have values := congrArg BitVec.toNat offsets
  rw [BitVec.toNat_ofNat, BitVec.toNat_ofNat, Nat.mod_eq_of_lt (by omega),
    Nat.mod_eq_of_lt (by omega)] at values
  omega

/-- The number of the register that holds the field of a pin. -/
theorem register_lt (fieldSize pinNumber : BitVec 32) :
    pinNumber.toNat / (32 / fieldSize.toNat) < 2 ^ 61 :=
  calc pinNumber.toNat / (32 / fieldSize.toNat) ≤ pinNumber.toNat := Nat.div_le_self _ _
    _ < 2 ^ 32 := pinNumber.isLt
    _ < 2 ^ 61 := by norm_num

/-- After a write to the register of a pin, the registers from `base` on are updated there. -/
theorem pinField_write (word : BitVec 32) :
    pinField (mmio.write (pinRegister base fieldSize pinNumber) word) base fieldSize other =
      readField (Function.update (fun k => mmio.registers (registerAddress base k))
        (pinNumber.toNat / (32 / fieldSize.toNat)) word) fieldSize.toNat other.toNat := by
  rw [pinField, readField, readField]
  congr 1
  by_cases same : other.toNat / (32 / fieldSize.toNat) = pinNumber.toNat / (32 / fieldSize.toNat)
  · rw [same, Function.update_self, Mmio.registers_write, pinRegister, Function.update_self]
  · have distinct : registerAddress base (other.toNat / (32 / fieldSize.toNat)) ≠
        pinRegister base fieldSize pinNumber := by
      intro h
      exact same (registerAddress_inj (register_lt _ _) (register_lt _ _) h)
    rw [Function.update_of_ne same, Mmio.registers_write, Function.update_of_ne distinct]

/-! ### One call -/

/-- The mask of `call` is that of a field of `field_size` bits. -/
theorem le_fieldMask_iff (hsize : fieldSize.toNat < 32) :
    value ≤ 1#32 <<< fieldSize - 1 ↔ value.toNat < 2 ^ fieldSize.toNat := by
  have mask : (1#32 <<< fieldSize - 1).toNat = 2 ^ fieldSize.toNat - 1 := toNat_fieldMask hsize
  rw [BitVec.le_def, mask]
  have := Nat.two_pow_pos fieldSize.toNat
  omega

/-- A pin that is too large or a value that is too large for the field is refused. -/
theorem call_refused (hsize : fieldSize.toNat < 32)
    (h : fieldMax < pinNumber ∨ 2 ^ fieldSize.toNat ≤ value.toNat) :
    call mmio pinNumber value base fieldSize fieldMax = (0, mmio) := by
  simp only [call]
  by_cases tooLarge : fieldMax < pinNumber
  · exact if_pos tooLarge
  · have hvalue : 1#32 <<< fieldSize - 1 < value := by
      apply BitVec.not_le.mp
      rw [le_fieldMask_iff hsize]
      exact Nat.not_lt.mpr (h.resolve_left tooLarge)
    rw [if_neg tooLarge]
    exact if_pos hvalue

theorem toNat_numFields : ((32 : BitVec 32) / fieldSize).toNat = 32 / fieldSize.toNat :=
  BitVec.toNat_udiv

/-- The shift stays in the word. -/
theorem toNat_shift (hpos : 0 < fieldSize.toNat) (hsize : fieldSize.toNat ≤ 16) :
    (pinNumber % (32 / fieldSize) * fieldSize).toNat =
      pinNumber.toNat % (32 / fieldSize.toNat) * fieldSize.toNat := by
  have inWord := field_in_word (w := 32) hpos (hsize.trans (by norm_num)) pinNumber.toNat
  rw [BitVec.toNat_mul, BitVec.toNat_umod, toNat_numFields]
  exact Nat.mod_eq_of_lt (by omega)

/-- The offset does not wrap round for the first 2^30 registers. -/
theorem register_eq (hindex : pinNumber.toNat / (32 / fieldSize.toNat) < 2 ^ 30) :
    base + (pinNumber / (32 / fieldSize) * 4).setWidth 64 = pinRegister base fieldSize pinNumber := by
  have offset : (pinNumber / (32 / fieldSize) * 4).toNat =
      4 * (pinNumber.toNat / (32 / fieldSize.toNat)) := by
    rw [BitVec.toNat_mul, BitVec.toNat_udiv, toNat_numFields]
    have four : (4 : BitVec 32).toNat = 4 := rfl
    rw [four, Nat.mod_eq_of_lt (by omega), Nat.mul_comm]
  rw [pinRegister, registerAddress, ← offset, BitVec.ofNat_toNat]

/-- An accepted call replaces the field in the register of the pin. -/
theorem call_accepted (hpos : 0 < fieldSize.toNat) (hsize : fieldSize.toNat ≤ 16)
    (hindex : pinNumber.toNat / (32 / fieldSize.toNat) < 2 ^ 30) (hpin : pinNumber ≤ fieldMax)
    (fits : value.toNat < 2 ^ fieldSize.toNat) :
    call mmio pinNumber value base fieldSize fieldMax =
      (1, mmio.write (pinRegister base fieldSize pinNumber)
        (insertField (mmio.registers (pinRegister base fieldSize pinNumber))
          (pinNumber.toNat % (32 / fieldSize.toNat) * fieldSize.toNat) fieldSize.toNat value)) := by
  have hvalue : value ≤ 1#32 <<< fieldSize - 1 := (le_fieldMask_iff (by omega)).mpr fits
  simp only [call]
  rw [if_neg (BitVec.not_lt.mpr hpin)]
  refine (if_neg (BitVec.not_lt.mpr hvalue)).trans ?_
  rw [register_eq hindex, insertField, ← toNat_shift hpos hsize]
  rfl

/-- After an accepted call the pin has the value, and the others have what they had. -/
theorem pinField_call (mmio : Mmio) (base : BitVec 64) (hpos : 0 < fieldSize.toNat)
    (hsize : fieldSize.toNat ≤ 16)
    (hindex : pinNumber.toNat / (32 / fieldSize.toNat) < 2 ^ 30) (hpin : pinNumber ≤ fieldMax)
    (fits : value.toNat < 2 ^ fieldSize.toNat) (other : BitVec 32) :
    pinField (call mmio pinNumber value base fieldSize fieldMax).2 base fieldSize other =
      if other = pinNumber then value else pinField mmio base fieldSize other := by
  rw [call_accepted hpos hsize hindex hpin fits, pinField_write]
  by_cases same : other = pinNumber
  · rw [if_pos same, same]
    exact read_write _ _ hpos (by omega) fits
  · have distinct : other.toNat ≠ pinNumber.toNat := fun h => same (BitVec.eq_of_toNat_eq h)
    rw [if_neg same]
    exact read_write_of_ne _ hpos (by omega) fits distinct

/-! ### Sequences of calls -/

/-- The number of a pin that `call` accepts is that of one of the first 2^30 registers. -/
theorem index_lt_of_le (hmax : fieldMax.toNat / (32 / fieldSize.toNat) < 2 ^ 30)
    (hpin : pinNumber ≤ fieldMax) : pinNumber.toNat / (32 / fieldSize.toNat) < 2 ^ 30 :=
  (Nat.div_le_div_right (BitVec.le_def.mp hpin)).trans_lt hmax

theorem lastValue_cons (pin value : BitVec 32) (calls : List (BitVec 32 × BitVec 32))
    (default : BitVec 32) :
    (lastValue fieldSize pinNumber ((pin, value) :: calls)).getD default =
      (lastValue fieldSize pinNumber calls).getD
        (if pin = pinNumber ∧ value.toNat < 2 ^ fieldSize.toNat then value else default) := by
  rw [lastValue, lastValue]
  split
  case isTrue counts =>
    rw [List.filter_cons_of_pos (by simpa using counts), List.getLast?_cons]
    cases (calls.filter _).getLast? <;> rfl
  case isFalse ignored =>
    rw [List.filter_cons_of_neg (by simpa using ignored)]

/-- A pin that `call` accepts ends up with the value set last. -/
theorem pinField_callAll (mmio : Mmio) (base : BitVec 64) (hpos : 0 < fieldSize.toNat)
    (hsize : fieldSize.toNat ≤ 16)
    (hmax : fieldMax.toNat / (32 / fieldSize.toNat) < 2 ^ 30) (hpin : pinNumber ≤ fieldMax)
    (calls : List (BitVec 32 × BitVec 32)) :
    pinField (callAll mmio base fieldSize fieldMax calls) base fieldSize pinNumber =
      (lastValue fieldSize pinNumber calls).getD (pinField mmio base fieldSize pinNumber) := by
  induction calls generalizing mmio with
  | nil => rfl
  | cons first calls ih =>
    obtain ⟨pin, value⟩ := first
    have rest := ih (call mmio pin value base fieldSize fieldMax).2
    refine rest.trans ?_
    rw [lastValue_cons]
    congr 1
    by_cases accepted : pin ≤ fieldMax ∧ value.toNat < 2 ^ fieldSize.toNat
    · obtain ⟨hle, fits⟩ := accepted
      rw [pinField_call mmio base hpos hsize (index_lt_of_le hmax hle) hle fits]
      simp only [fits, and_true, eq_comm]
    · have refused : fieldMax < pin ∨ 2 ^ fieldSize.toNat ≤ value.toNat := by
        rcases not_and_or.mp accepted with large | wide
        · exact .inl (BitVec.not_le.mp large)
        · exact .inr (Nat.not_lt.mp wide)
      have unset : ¬(pin = pinNumber ∧ value.toNat < 2 ^ fieldSize.toNat) := by
        rintro ⟨rfl, fits⟩
        exact accepted ⟨hpin, fits⟩
      rw [call_refused (by omega) refused, if_neg unset]

/-- As long as every pin has its field in one of the first 2^30 registers, an accepted call returns 1,
    gives its pin the value, and changes no field of another pin and no other register. Any other call
    returns 0 and writes nothing. After any sequence of calls each pin has the value set last for
    it. -/
theorem pin_fields_independent (mmio : Mmio) (base : BitVec 64) (fieldSize fieldMax : BitVec 32)
    (hsize : 1 ≤ fieldSize.toNat ∧ fieldSize.toNat ≤ 16)
    (hmax : fieldMax.toNat / (32 / fieldSize.toNat) < 2 ^ 30) :
    (∀ pinNumber value : BitVec 32, pinNumber ≤ fieldMax → value.toNat < 2 ^ fieldSize.toNat →
      let after := call mmio pinNumber value base fieldSize fieldMax
      after.1 = 1 ∧ pinField after.2 base fieldSize pinNumber = value ∧
        (∀ other, other ≠ pinNumber →
          pinField after.2 base fieldSize other = pinField mmio base fieldSize other) ∧
        ∀ reg, reg ≠ pinRegister base fieldSize pinNumber →
          after.2.registers reg = mmio.registers reg) ∧
    (∀ pinNumber value : BitVec 32, fieldMax < pinNumber ∨ 2 ^ fieldSize.toNat ≤ value.toNat →
      call mmio pinNumber value base fieldSize fieldMax = (0, mmio)) ∧
    ∀ (calls : List (BitVec 32 × BitVec 32)) (pinNumber : BitVec 32), pinNumber ≤ fieldMax →
      pinField (callAll mmio base fieldSize fieldMax calls) base fieldSize pinNumber =
        (lastValue fieldSize pinNumber calls).getD (pinField mmio base fieldSize pinNumber) := by
  obtain ⟨hpos, hle⟩ := hsize
  refine ⟨?_, ?_, ?_⟩
  · intro pinNumber value hpin fits
    have hindex := index_lt_of_le hmax hpin
    have fields := pinField_call mmio base hpos hle hindex hpin fits
    refine ⟨?_, ?_, ?_, ?_⟩
    · rw [call_accepted hpos hle hindex hpin fits]
    · rw [fields, if_pos rfl]
    · intro other hne
      rw [fields, if_neg hne]
    · intro reg hne
      rw [call_accepted hpos hle hindex hpin fits]
      exact Function.update_of_ne hne _ _
  · intro pinNumber value refused
    exact call_refused (by omega) refused
  · intro calls pinNumber hpin
    exact pinField_callAll mmio base hpos hle hmax hpin calls

/-- Function 2 for pin 14, when all registers are filled with ones. -/
theorem pin_fields_independent_function :
    let after := call ⟨fun _ => 0xffffffff, []⟩ 14 GPIO_FUNCTION_ALT5 Mmio.GPFSEL0 3 GPIO_MAX_PIN
    pinField after.2 Mmio.GPFSEL0 3 14 = 2 ∧ pinField after.2 Mmio.GPFSEL0 3 15 = 7 := by
  have holds := pin_fields_independent ⟨fun _ => 0xffffffff, []⟩ Mmio.GPFSEL0 3 GPIO_MAX_PIN
    (by decide) (by decide)
  obtain ⟨_, field, others, _⟩ := holds.1 14 GPIO_FUNCTION_ALT5 (by decide) (by decide)
  exact ⟨field, (others 15 (by decide)).trans (by decide)⟩

/-- With 16 bits to a field, pin 2^31 would have its field 2^32 bytes behind the base: the offset wraps
    round, and the call changes the field of pin 0. -/
theorem pin_fields_wrap :
    ¬∀ (mmio : Mmio) (base : BitVec 64) (fieldSize fieldMax : BitVec 32),
      1 ≤ fieldSize.toNat ∧ fieldSize.toNat ≤ 16 →
        ∀ pinNumber value : BitVec 32, pinNumber ≤ fieldMax → value.toNat < 2 ^ fieldSize.toNat →
          ∀ other, other ≤ fieldMax → other ≠ pinNumber →
            pinField (call mmio pinNumber value base fieldSize fieldMax).2 base fieldSize other =
              pinField mmio base fieldSize other := by
  intro h
  have same := h ⟨fun _ => 0, []⟩ 0 16 0xffffffff (by decide) 0x80000000 1 (by decide) (by decide) 0
    (by decide) (by decide)
  revert same
  decide

end Rpi4Kernel.Drivers.GPIO
