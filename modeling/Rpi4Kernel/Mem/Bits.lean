/-
Module: Rpi4Kernel.Mem.Bits
Layer: Mem
Purpose: The bit-level floor of the buddy allocator (the "Bits" and "A char-backed bitset"
  sections of `mem/Buddy.cpp`): byte population counts, highest set bits, and a bitset stored in an
  array of bytes. A read or write past the end of the byte array is undefined in C; here the
  operation answers `none`.
Trusted boundary: none
Main exports: highestBitPosition, ceilingPowerOfTwo, popcountByte, bitsetClear, bitsetTest,
  bitsetClearRange, bitsetSetRange, bitsetCountRange
-/
import Mathlib.Data.Nat.Size
import Mathlib.Tactic

namespace Rpi4Kernel.Mem

/-- `CHAR_BIT` of `limits.h`. -/
abbrev charBit : Nat := 8

/-- One more than the largest `size_t`. -/
def sizeMax : Nat := 2 ^ 64

/-- `unsigned char`. -/
abbrev Byte := BitVec 8

/-- A block of memory seen as bytes. -/
abbrev Bytes := Array Byte

/-! ### Bits -/

/-- `popcount_lookup`: the number of set bits of each nibble. -/
def popcountLookup : Array Nat := #[0, 1, 1, 2, 1, 2, 2, 3, 1, 2, 2, 3, 2, 3, 3, 4]

/-- `popcount_byte`: the number of set bits of a byte, one nibble at a time. -/
def popcountByte (b : Byte) : Nat :=
  popcountLookup.getD (b &&& 15).toNat 0 + popcountLookup.getD (b >>> 4).toNat 0

/-- The rows of the two tables `all_set` and `count` of `highest_bit_position`, side by side (the
    64-bit `SIZE_MAX` branch). -/
def highestBitSteps : List (Nat × Nat) :=
  [(4294967295, 32), (65535, 16), (255, 8), (15, 4), (7, 2), (3, 1), (1, 1)]

/-- One iteration of the loop of `highest_bit_position` on the pair `(value, result)`. -/
def highestBitStep (state : Nat × Nat) (row : Nat × Nat) : Nat × Nat :=
  if row.1 ≤ state.1 then (state.1 >>> row.2, state.2 + row.2) else state

/-- `highest_bit_position`: the 1-based position of the highest set bit, zero for zero. -/
def highestBitPosition (value : Nat) : Nat :=
  let final := highestBitSteps.foldl highestBitStep (value, 0)
  final.2 + final.1

/-- `ceiling_power_of_two`: the least power of two that is at least `value`. The sum
    `value + value - 1` is taken in `size_t`. -/
def ceilingPowerOfTwo (value : Nat) : Nat :=
  let value := if value = 0 then 1 else value
  2 ^ (highestBitPosition ((value + value + (sizeMax - 1)) % sizeMax) - 1)

/-! ### A char-backed bitset -/

/-- `bitset_sizeof`: the bytes that hold `elements` bits. -/
def bitsetSizeof (elements : Nat) : Nat := (elements + charBit - 1) / charBit

/-- `bitset_index_mask`. -/
def bitsetIndexMask : Array Byte := #[1, 2, 4, 8, 16, 32, 64, 128]

/-- `bitset_char_mask`: row `from`, column `to` has the bits `from..to` set. -/
def bitsetCharMask : Array (Array Byte) :=
  #[#[1, 3, 7, 15, 31, 63, 127, 255], #[0, 2, 6, 14, 30, 62, 126, 254],
    #[0, 0, 4, 12, 28, 60, 124, 252], #[0, 0, 0, 8, 24, 56, 120, 248],
    #[0, 0, 0, 0, 16, 48, 112, 240], #[0, 0, 0, 0, 0, 32, 96, 224],
    #[0, 0, 0, 0, 0, 0, 64, 192], #[0, 0, 0, 0, 0, 0, 0, 128]]

/-- `bitset_char_mask[fromIndex][toIndex]`. -/
def charMask (fromIndex toIndex : Nat) : Byte :=
  (bitsetCharMask.getD fromIndex #[]).getD toIndex 0

/-- A read-modify-write of one byte, `bitset[bucket] op= ...`. -/
def updateBucket (bitset : Bytes) (bucket : Nat) (f : Byte → Byte) : Option Bytes := do
  let b ← bitset[bucket]?
  return bitset.setIfInBounds bucket (f b)

/-- `bitset_clear`. -/
def bitsetClear (bitset : Bytes) (pos : Nat) : Option Bytes :=
  updateBucket bitset (pos / charBit) (· &&& ~~~bitsetIndexMask.getD (pos % charBit) 0)

/-- `bitset_test`, as a truth value: the callers only ask whether the result is zero. -/
def bitsetTest (bitset : Bytes) (pos : Nat) : Option Bool := do
  let b ← bitset[pos / charBit]?
  return b &&& bitsetIndexMask.getD (pos % charBit) 0 != 0

/-- The loop `while (++from_bucket != to_bucket) bitset[from_bucket] = value;`. The loop leaves the
    array after at most `bitset.size` writes, so that much fuel never runs out first. -/
def fillBuckets (value : Byte) (toBucket : Nat) : Nat → Bytes → Nat → Option Bytes
  | 0, _, _ => none
  | fuel + 1, bitset, fromBucket =>
    if fromBucket + 1 = toBucket then some bitset
    else do
      let bitset ← updateBucket bitset (fromBucket + 1) (fun _ => value)
      fillBuckets value toBucket fuel bitset (fromBucket + 1)

/-- The common shape of `bitset_clear_range` and `bitset_set_range`: the bytes at both ends are
    changed under a mask, the bytes between are overwritten. -/
def rangeUpdate (combine : Byte → Byte → Byte) (value : Byte) (bitset : Bytes)
    (fromPos toPos : Nat) : Option Bytes :=
  let fromBucket := fromPos / charBit
  let toBucket := toPos / charBit
  let fromIndex := fromPos % charBit
  let toIndex := toPos % charBit
  if fromBucket = toBucket then
    updateBucket bitset fromBucket (combine · (charMask fromIndex toIndex))
  else do
    let bitset ← updateBucket bitset fromBucket (combine · (charMask fromIndex 7))
    let bitset ← updateBucket bitset toBucket (combine · (charMask 0 toIndex))
    fillBuckets value toBucket (bitset.size + 1) bitset fromBucket

/-- `bitset_clear_range`: clear the bits `fromPos..toPos`. -/
def bitsetClearRange (bitset : Bytes) (fromPos toPos : Nat) : Option Bytes :=
  rangeUpdate (fun b mask => b &&& ~~~mask) 0 bitset fromPos toPos

/-- `bitset_set_range`: set the bits `fromPos..toPos`. -/
def bitsetSetRange (bitset : Bytes) (fromPos toPos : Nat) : Option Bytes :=
  rangeUpdate (fun b mask => b ||| mask) 255 bitset fromPos toPos

/-- The loop `while (++from_bucket != to_bucket) result += popcount_byte(bitset[from_bucket]);`. -/
def countBuckets (bitset : Bytes) (toBucket : Nat) : Nat → Nat → Nat → Option Nat
  | 0, _, _ => none
  | fuel + 1, fromBucket, result =>
    if fromBucket + 1 = toBucket then some result
    else do
      let b ← bitset[fromBucket + 1]?
      countBuckets bitset toBucket fuel (fromBucket + 1) (result + popcountByte b)

/-- `bitset_count_range`: the number of set bits among `fromPos..toPos`. -/
def bitsetCountRange (bitset : Bytes) (fromPos toPos : Nat) : Option Nat := do
  let fromBucket := fromPos / charBit
  let toBucket := toPos / charBit
  let fromIndex := fromPos % charBit
  let toIndex := toPos % charBit
  let first ← bitset[fromBucket]?
  if fromBucket = toBucket then
    return popcountByte (first &&& charMask fromIndex toIndex)
  let last ← bitset[toBucket]?
  countBuckets bitset toBucket (bitset.size + 1) fromBucket
    (popcountByte (first &&& charMask fromIndex 7) + popcountByte (last &&& charMask 0 toIndex))

example : highestBitPosition 4294967295 = 32 := by decide

example : (bitsetSetRange #[0, 0, 0] 6 17).bind (bitsetCountRange · 0 23) = some 12 := by decide

end Rpi4Kernel.Mem
