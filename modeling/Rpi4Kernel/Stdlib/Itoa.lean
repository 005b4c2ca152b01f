/-
Module: Rpi4Kernel.Stdlib.Itoa
Layer: Stdlib
Purpose: The two conversions of numbers to strings (`stdlib/Stdlib.cpp`): `itoa1`, which writes into a
  buffer of its caller, and `itoa`, which fills a static buffer from its end.
Trusted boundary: a buffer is a list of characters and a pointer into it an index. A store or a load
  outside the buffer has no value. Each loop moves a pointer through the buffer, so its length is fuel
  enough.
Main exports: Buffer, stringAt, itoa1, itoa
-/
import Mathlib.Data.List.Basic

namespace Rpi4Kernel.Stdlib

/-! ### Buffers -/

/-- The terminator. -/
def nul : Char := Char.ofNat 0

/-- An array of `n` characters. -/
abbrev Buffer (n : Nat) := { mem : List Char // mem.length = n }

/-- `*p = c`. -/
def store (mem : List Char) (p : Nat) (c : Char) : Option (List Char) :=
  if p < mem.length then some (mem.set p c) else none

/-- `*--p = c`, with the new pointer. -/
def storeBefore (mem : List Char) (p : Nat) (c : Char) : Option (List Char × Nat) :=
  match p with
  | 0 => none
  | p + 1 => (store mem p c).map fun mem => (mem, p)

/-- The string at `p`: the characters up to a NUL, which must be in the buffer. -/
def stringAt (mem : List Char) (p : Nat) : Option (List Char) :=
  if nul ∈ mem.drop p then some ((mem.drop p).takeWhile (· ≠ nul)) else none

/-! ### `itoa1` -/

/-- `(remainder < 10) ? remainder + '0' : remainder + 'a' - 10`. -/
def digitByte (remainder : Nat) : Char :=
  if remainder < 10 then Char.ofNat (remainder + '0'.toNat)
  else Char.ofNat (remainder + 'a'.toNat - 10)

/-- The loop of `itoa1` that divides `ud` and emits the digits. -/
def itoa1DivideLoop (divisor : Nat) : Nat → List Char → Nat → Nat → Option (List Char × Nat)
  | 0, _, _, _ => none
  | fuel + 1, mem, p, ud => do
    let mem ← store mem p (digitByte (ud % divisor))
    if ud / divisor ≠ 0 then itoa1DivideLoop divisor fuel mem (p + 1) (ud / divisor)
    else return (mem, p + 1)

/-- The loop of `itoa1` that reverses the characters from `p1` to `p2`. -/
def itoa1ReverseLoop : Nat → List Char → Nat → Nat → Option (List Char)
  | 0, _, _, _ => none
  | fuel + 1, mem, p1, p2 =>
    if p1 < p2 then do
      let tmp ← mem[p1]?
      let other ← mem[p2]?
      let mem ← store mem p1 other
      let mem ← store mem p2 tmp
      itoa1ReverseLoop fuel mem (p1 + 1) (p2 - 1)
    else some mem

/-- `Std::itoa1(buf, base, d)`, with `buf` at the start of `mem`: the contents of the buffer
    afterwards. -/
def itoa1 (mem : List Char) (base : Char) (d : BitVec 64) : Option (List Char) := do
  let minus : Bool := base = 'd' ∧ d.toInt < 0
  let divisor := if minus then 10 else if base = 'x' then 16 else 10
  -- `buf` moves past the sign; `-d` is computed in 64 bits
  let (mem, buf, ud) ←
    if minus then (store mem 0 '-').map fun mem => (mem, 1, (-d).toNat) else some (mem, 0, d.toNat)
  let (mem, p) ← itoa1DivideLoop divisor mem.length mem buf ud
  let mem ← store mem p nul
  itoa1ReverseLoop mem.length mem buf (p - 1)

/-! ### `itoa` -/

/-- `INT_DIGITS`. -/
def intDigits : Nat := 19

/-- Either loop of `itoa`: `digit` is what it makes of the remainder. C division rounds towards 0. -/
def itoaLoop (digit : Int → Char) : Nat → List Char → Nat → Int → Option (List Char × Nat)
  | 0, _, _, _ => none
  | fuel + 1, mem, p, d => do
    let (mem, p) ← storeBefore mem p (digit (d.tmod 10))
    if d.tdiv 10 ≠ 0 then itoaLoop digit fuel mem p (d.tdiv 10) else return (mem, p)

/-- `Std::itoa(base, d)` on its static buffer: the contents of the buffer afterwards and the pointer
    returned. The base is not used. -/
def itoa (mem : List Char) (_base : Int) (d : Int) : Option (List Char × Nat) :=
  let p := intDigits + 1
  if 0 ≤ d then
    itoaLoop (fun remainder => Char.ofNat ('0'.toNat + remainder).toNat) mem.length mem p d
  else do
    let (mem, p) ←
      itoaLoop (fun remainder => Char.ofNat ('0'.toNat - remainder).toNat) mem.length mem p d
    storeBefore mem p '-'

/-- The static buffer of `itoa`: no call writes its last character, which is zero from the start. -/
abbrev StaticBuffer := { mem : Buffer (intDigits + 2) // mem.val[intDigits + 1]? = some nul }

example : (itoa1 (List.replicate 40 '?') 'd' (-42)).bind (stringAt · 0) = some ['-', '4', '2'] := by
  decide

end Rpi4Kernel.Stdlib
