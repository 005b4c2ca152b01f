/-
Module: Rpi4Kernel.Drivers.Console
Layer: Drivers
Purpose: `Console::print` and `Console::print_no_lock` (`Console.cpp`): the scanner of the format with
  its conversions, and what a call does to the console and to the lock.
Trusted boundary: an argument of the call is a slot of 64 bits, as the calling convention passes it,
  and behind the last argument there are further slots. `strings` gives the string at an address. A
  call that reads the format behind its terminator has no value.
Main exports: CString, ConsoleEffect, ConsoleState, Conversion, nextChar, scanConversion, convert,
  printLoop, printNoLock, print
-/
import Rpi4Kernel.Stdlib.Itoa

namespace Rpi4Kernel.Drivers

open Rpi4Kernel.Stdlib

/-- The characters of a NUL-terminated string, without the NUL. -/
abbrev CString := { s : List Char // nul ∉ s }

/-- An argument as it is passed. -/
abbrev Slot := BitVec 64

/-- What a call does to the console and to the lock of `print`. -/
inductive ConsoleEffect where
  | spin
  | write (c : Char)
  | release
deriving DecidableEq, Repr

/-- Which of the static pointers `kernel_console` and `lock` are not null. -/
structure ConsoleState where
  kernelConsole : Bool
  lock : Bool
deriving DecidableEq, Repr

/-! ### The scanner -/

/-- `*format++`. The format pointer is what is left of the format, or `none` behind the terminator. -/
def nextChar : Option (List Char) → Option (Char × Option (List Char))
  | some (c :: rest) => some (c, some rest)
  | some [] => some (nul, none)
  | none => none

/-- The variables `pad0`, `pad` and `c` once a conversion is scanned. -/
structure Conversion where
  pad0 : Bool
  pad : Nat
  kind : Char
deriving DecidableEq, Repr

/-- The test for the flag 0, with `c` and the format pointer before and after it. -/
def scanFlag (next : Char × Option (List Char)) : Option (Bool × Char × Option (List Char)) :=
  if next.1 = '0' then (nextChar next.2).map fun next => (true, next) else some (false, next)

/-- The test for the width. -/
def scanWidth (next : Char × Option (List Char)) : Option (Nat × Char × Option (List Char)) :=
  if '0' ≤ next.1 ∧ next.1 ≤ '9' then
    (nextChar next.2).map fun after => (next.1.toNat - '0'.toNat, after)
  else some (0, next)

/-- The scanner behind a percent sign, with the format pointer it leaves. -/
def scanConversion (format : Option (List Char)) : Option (Conversion × Option (List Char)) := do
  let next ← nextChar format
  let (pad0, next) ← scanFlag next
  let (pad, c, format) ← scanWidth next
  return (⟨pad0, pad, c⟩, format)

/-! ### Conversions -/

/-- `for (; p2 < p + pad; p2++)`, with the pointers counted from `p`. It runs at most `pad` times. -/
def padLoop (pad0 : Bool) (pad : Nat) : Nat → Nat → List ConsoleEffect
  | 0, _ => []
  | fuel + 1, p2 =>
    if p2 < pad then .write (if pad0 then '0' else ' ') :: padLoop pad0 pad fuel (p2 + 1) else []

/-- The code at the label `string`: the padding, then the string at `p`. -/
def writeString (conversion : Conversion) (p : List Char) : List ConsoleEffect :=
  padLoop conversion.pad0 conversion.pad conversion.pad p.length ++ p.map .write

/-- The switch over the conversion, with the contents of `buf` afterwards. Every case takes one
    argument. -/
def convert (strings : Slot → CString) (conversion : Conversion) (arg : Slot) (buf : List Char) :
    Option (List ConsoleEffect × List Char) :=
  if conversion.kind = 'd' ∨ conversion.kind = 'u' ∨ conversion.kind = 'x' then do
    let buf ← itoa1 buf conversion.kind arg
    let p ← stringAt buf 0
    return (writeString conversion p, buf)
  else if conversion.kind = 's' then
    let p := if arg = 0 then ['(', 'n', 'u', 'l', 'l', ')'] else (strings arg).val
    return (writeString conversion p, buf)
  else
    -- `write` takes the low byte of the `int`
    return ([.write (Char.ofNat (arg.toNat % 256))], buf)

/-- The loop over the format, `i` arguments taken. -/
def printLoop (strings : Slot → CString) (args : Nat → Slot) :
    Nat → Option (List Char) → Nat → List Char → Option (List ConsoleEffect)
  | 0, _, _, _ => none
  | fuel + 1, format, i, buf => do
    let (c, format) ← nextChar format
    if c = nul then return []
    else if c ≠ '%' then (printLoop strings args fuel format i buf).map fun rest => .write c :: rest
    else do
      let (conversion, format) ← scanConversion format
      let (effects, buf) ← convert strings conversion (args i) buf
      (printLoop strings args fuel format (i + 1) buf).map fun rest => effects ++ rest

/-! ### The functions -/

/-- `Console::print_no_lock`. The loop reads a character of the format in each turn, its terminator at
    the latest in the last one. -/
def printNoLock (console : ConsoleState) (strings : Slot → CString) (format : CString)
    (args : Nat → Slot) (buf : Buffer 40) : Option (List ConsoleEffect) :=
  if console.kernelConsole then
    printLoop strings args (format.val.length + 1) (some format.val) 0 buf.val
  else some []

/-- `Console::print`: the same loop, between the calls on the lock. -/
def print (console : ConsoleState) (strings : Slot → CString) (format : CString)
    (args : Nat → Slot) (buf : Buffer 40) : Option (List ConsoleEffect) :=
  if console.kernelConsole then
    (printLoop strings args (format.val.length + 1) (some format.val) 0 buf.val).map fun effects =>
      (if console.lock then [.spin] else []) ++ effects ++ (if console.lock then [.release] else [])
  else some []

/-- The characters written. -/
def written (effects : List ConsoleEffect) : List Char :=
  effects.filterMap fun
    | .write c => some c
    | _ => none

example : (printNoLock ⟨true, true⟩ (fun _ => ⟨[], by decide⟩)
    ⟨['a', '%', '0', '3', 'x'], by decide⟩ (fun _ => 255) ⟨List.replicate 40 '?', rfl⟩).map written =
      some ['a', '0', 'f', 'f'] := by decide +kernel

end Rpi4Kernel.Drivers
