/-
Module: Rpi4Kernel.Drivers.Gpio
Layer: Drivers
Purpose: The GPIO driver (`GPIO.h`, `GPIO.cpp`): the settings of the pins are fields of one, two or
  three bits in consecutive registers, and `call` replaces the field of one pin.
Trusted boundary: the registers are ordinary memory of 32-bit words, one at each address; the driver
  runs alone. A field has 1 to 31 bits.
Main exports: Mmio, GPIO.call, GPIO.set, GPIO.clear, GPIO.pull, GPIO.function, GPIO.pinField
-/
import Rpi4Kernel.Theory.PackedFields

namespace Rpi4Kernel.Drivers

/-- The registers, and the addresses written to so far. -/
structure Mmio where
  registers : BitVec 64 → BitVec 32
  written : List (BitVec 64)

namespace Mmio

/-- `MMIO::PERIPHERAL_BASE`. -/
def PERIPHERAL_BASE : BitVec 64 := 0xffff000000000000 + 0xFE000000

/-- `MMIO::GPFSEL0`. -/
def GPFSEL0 : BitVec 64 := PERIPHERAL_BASE + 0x200000

/-- `MMIO::GPSET0`. -/
def GPSET0 : BitVec 64 := PERIPHERAL_BASE + 0x20001C

/-- `MMIO::GPCLR0`. -/
def GPCLR0 : BitVec 64 := PERIPHERAL_BASE + 0x200028

/-- `MMIO::GPPUPPDN0`. -/
def GPPUPPDN0 : BitVec 64 := PERIPHERAL_BASE + 0x2000E4

/-- `MMIO::read(reg)`. -/
def read (mmio : Mmio) (reg : BitVec 64) : BitVec 32 := mmio.registers reg

/-- `MMIO::write(reg, val)`. -/
def write (mmio : Mmio) (reg : BitVec 64) (val : BitVec 32) : Mmio where
  registers := Function.update mmio.registers reg val
  written := mmio.written ++ [reg]

@[simp] theorem registers_write (mmio : Mmio) (reg : BitVec 64) (val : BitVec 32) :
    (mmio.write reg val).registers = Function.update mmio.registers reg val := rfl

end Mmio

namespace GPIO

/-- `GPIO_MAX_PIN`. -/
def GPIO_MAX_PIN : BitVec 32 := 53

/-- `GPIO_FUNCTION_OUT`. -/
def GPIO_FUNCTION_OUT : BitVec 32 := 1

/-- `GPIO_FUNCTION_ALT5`. -/
def GPIO_FUNCTION_ALT5 : BitVec 32 := 2

/-- `GPIO_FUNCTION_ALT3`. -/
def GPIO_FUNCTION_ALT3 : BitVec 32 := 7

/-- `Pull_None`. -/
def Pull_None : BitVec 32 := 0

/-- `call(pin_number, value, base, field_size, field_max)`: the result and the registers. -/
def call (mmio : Mmio) (pinNumber value : BitVec 32) (base : BitVec 64)
    (fieldSize fieldMax : BitVec 32) :
    BitVec 32 × Mmio :=
  let fieldMask := 1#32 <<< fieldSize - 1
  if pinNumber > fieldMax then (0, mmio)
  else if value > fieldMask then (0, mmio)
  else
    let numFields := 32 / fieldSize
    -- the offset is an `unsigned int`, the address an `unsigned long`
    let reg := base + (pinNumber / numFields * 4).setWidth 64
    let shift := pinNumber % numFields * fieldSize
    let curval := mmio.read reg
    let curval := curval &&& ~~~(fieldMask <<< shift)
    let curval := curval ||| value <<< shift
    (1, mmio.write reg curval)

/-- `set(pin_number, value)`. -/
def set (mmio : Mmio) (pinNumber value : BitVec 32) : BitVec 32 × Mmio :=
  call mmio pinNumber value Mmio.GPSET0 1 GPIO_MAX_PIN

/-- `clear(pin_number, value)`. -/
def clear (mmio : Mmio) (pinNumber value : BitVec 32) : BitVec 32 × Mmio :=
  call mmio pinNumber value Mmio.GPCLR0 1 GPIO_MAX_PIN

/-- `pull(pin_number, value)`. -/
def pull (mmio : Mmio) (pinNumber value : BitVec 32) : BitVec 32 × Mmio :=
  call mmio pinNumber value Mmio.GPPUPPDN0 2 GPIO_MAX_PIN

/-- `function(pin_number, value)`. -/
def function (mmio : Mmio) (pinNumber value : BitVec 32) : BitVec 32 × Mmio :=
  call mmio pinNumber value Mmio.GPFSEL0 3 GPIO_MAX_PIN

/-- `useAsAlt3(pin_number)`. -/
def useAsAlt3 (mmio : Mmio) (pinNumber : BitVec 32) : Mmio :=
  (function (pull mmio pinNumber Pull_None).2 pinNumber GPIO_FUNCTION_ALT3).2

/-- `useAsAlt5(pin_number)`. -/
def useAsAlt5 (mmio : Mmio) (pinNumber : BitVec 32) : Mmio :=
  (function (pull mmio pinNumber Pull_None).2 pinNumber GPIO_FUNCTION_ALT5).2

/-- `initOutputPinWithPullNone(pin_number)`. -/
def initOutputPinWithPullNone (mmio : Mmio) (pinNumber : BitVec 32) : Mmio :=
  (function (pull mmio pinNumber Pull_None).2 pinNumber GPIO_FUNCTION_OUT).2

/-- `setPinOutputBool(pin_number, onOrOff)`. -/
def setPinOutputBool (mmio : Mmio) (pinNumber onOrOff : BitVec 32) : Mmio :=
  if onOrOff ≠ 0 then (set mmio pinNumber 1).2 else (clear mmio pinNumber 1).2

/-! ### The fields -/

/-- The address of register `k` from `base` on. -/
def registerAddress (base : BitVec 64) (k : ℕ) : BitVec 64 := base + BitVec.ofNat 64 (4 * k)

/-- The register that holds the field of a pin. -/
def pinRegister (base : BitVec 64) (fieldSize pinNumber : BitVec 32) : BitVec 64 :=
  registerAddress base (pinNumber.toNat / (32 / fieldSize.toNat))

/-- The field of a pin: the registers from `base` on are filled with fields of `fieldSize` bits, as
    many in each as fit. -/
def pinField (mmio : Mmio) (base : BitVec 64) (fieldSize pinNumber : BitVec 32) : BitVec 32 :=
  Theory.readField (fun k => mmio.registers (registerAddress base k)) fieldSize.toNat pinNumber.toNat

/-- The calls `call(pin, value, base, field_size, field_max)` for the pairs in turn. -/
def callAll (mmio : Mmio) (base : BitVec 64) (fieldSize fieldMax : BitVec 32)
    (calls : List (BitVec 32 × BitVec 32)) : Mmio :=
  calls.foldl (fun mmio (pin, value) => (call mmio pin value base fieldSize fieldMax).2) mmio

/-- The value set last for a pin: that of the last call for it with a value that fits. -/
def lastValue (fieldSize pinNumber : BitVec 32) (calls : List (BitVec 32 × BitVec 32)) :
    Option (BitVec 32) :=
  (calls.filter fun (pin, value) => pin = pinNumber ∧ value.toNat < 2 ^ fieldSize.toNat).getLast?.map
    Prod.snd

end GPIO

end Rpi4Kernel.Drivers
