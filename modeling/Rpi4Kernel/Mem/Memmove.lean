/-
Module: Rpi4Kernel.Mem.Memmove
Layer: Mem
Purpose: `memmove` of `mem/Buddy.cpp` on a memory of bytes. Pointers and `size_t` are 64-bit words,
  and the loop counts up whatever the order of the two ranges.
Trusted boundary: none
Main exports: ByteMemory, memmove
-/
import Rpi4Kernel.Mem.Bits
import Rpi4Kernel.Theory.ForwardCopy

namespace Rpi4Kernel.Mem

open Rpi4Kernel.Theory

/-- A memory of bytes under 64-bit addresses. -/
abbrev ByteMemory := BitVec 64 → Byte

/-- The address of `p[i]` for a `char *p`. -/
def byteAt (p : BitVec 64) (i : Nat) : BitVec 64 := p + BitVec.ofNat 64 i

/-- `memmove`: `for (size_t i = 0; i < n; i++) cdest[i] = csrc[i];`. -/
def memmove (mem : ByteMemory) (dest src n : BitVec 64) : ByteMemory :=
  copyForward (byteAt dest) (byteAt src) n.toNat mem

end Rpi4Kernel.Mem
