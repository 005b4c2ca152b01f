/-
Module: Rpi4Kernel.Theory.UnaryCells
Layer: Theory
Purpose: Small counters stored in unary in adjacent fields of a row of bits. A field is read by
  counting its set bits, with a shortcut when its first bit is clear; it is written by clearing the
  field and setting as many of its first bits, with a shortcut that clears only the first bit for a
  zero. A write is read back, and fields that do not overlap do not disturb each other, whatever bits
  an earlier zero left behind.
Trusted boundary: none (fully proved)
Main exports: BitRow, BitRow.assign, BitRow.count, BitRow.readCell, BitRow.writeCell,
  BitRow.readCell_writeCell_self, BitRow.readCell_writeCell_disjoint
-/
import Mathlib.Data.List.Count
import Mathlib.Data.List.Range
import Mathlib.Tactic

namespace Rpi4Kernel.Theory

/-- An unbounded row of bits. -/
abbrev BitRow := Nat → Bool

namespace BitRow

/-- The row with the `len` bits from `start` on replaced by `value`. -/
def assign (row : BitRow) (start len : Nat) (value : Bool) : BitRow :=
  fun k => if start ≤ k ∧ k < start + len then value else row k

/-- The number of set bits among the `len` bits from `start` on. -/
def count (row : BitRow) (start len : Nat) : Nat := (List.range' start len).countP row

/-- The counter in the field of `width` bits at `start`. -/
def readCell (row : BitRow) (start width : Nat) : Nat :=
  if row start then row.count start width else 0

/-- Store `value` in the field of `width` bits at `start`. -/
def writeCell (row : BitRow) (start width value : Nat) : BitRow :=
  if value = 0 then row.assign start 1 false
  else (row.assign start width false).assign start value true

theorem assign_of_mem {row : BitRow} {start len k : Nat} {value : Bool}
    (h : start ≤ k ∧ k < start + len) : row.assign start len value k = value := by
  simp [assign, h]

theorem assign_of_not_mem {row : BitRow} {start len k : Nat} {value : Bool}
    (h : ¬ (start ≤ k ∧ k < start + len)) : row.assign start len value k = row k := by
  simp [assign, h]

theorem count_add (row : BitRow) (start len len' : Nat) :
    row.count start (len + len') = row.count start len + row.count (start + len) len' := by
  rw [count, count, count, ← List.range'_append_1, List.countP_append]

theorem count_congr {row row' : BitRow} {start len : Nat}
    (h : ∀ k, start ≤ k → k < start + len → row k = row' k) :
    row.count start len = row'.count start len := by
  unfold count
  apply List.countP_congr
  intro k hk
  rw [List.mem_range'_1] at hk
  rw [h k hk.1 hk.2]

theorem count_of_all_set {row : BitRow} {start len : Nat}
    (h : ∀ k, start ≤ k → k < start + len → row k = true) : row.count start len = len := by
  have hall : (List.range' start len).countP row = (List.range' start len).length := by
    rw [List.countP_eq_length]
    intro k hk
    rw [List.mem_range'_1] at hk
    exact h k hk.1 hk.2
  rw [count, hall, List.length_range']

theorem count_of_all_clear {row : BitRow} {start len : Nat}
    (h : ∀ k, start ≤ k → k < start + len → row k = false) : row.count start len = 0 := by
  rw [count, List.countP_eq_zero]
  intro k hk
  rw [List.mem_range'_1] at hk
  simp [h k hk.1 hk.2]

/-- The counter of a field depends on the bits of the field alone. -/
theorem readCell_congr {row row' : BitRow} {start width : Nat} (hwidth : 0 < width)
    (h : ∀ k, start ≤ k → k < start + width → row k = row' k) :
    row.readCell start width = row'.readCell start width := by
  rw [readCell, readCell, h start le_rfl (by omega), count_congr h]

theorem writeCell_of_not_mem {row : BitRow} {start width value k : Nat} (hwidth : 0 < width)
    (hvalue : value ≤ width) (h : ¬ (start ≤ k ∧ k < start + width)) :
    row.writeCell start width value k = row k := by
  unfold writeCell
  split
  · exact assign_of_not_mem (by omega)
  · rw [assign_of_not_mem (by omega), assign_of_not_mem h]

/-- Reading a field back gives the value that was written, also when the write was the one-bit
    shortcut for zero. -/
theorem readCell_writeCell_self (row : BitRow) {start width value : Nat} (hwidth : 0 < width)
    (hvalue : value ≤ width) : (row.writeCell start width value).readCell start width = value := by
  unfold readCell writeCell
  by_cases hzero : value = 0
  · rw [if_pos hzero, assign_of_mem (by omega)]
    simp [hzero]
  · rw [if_neg hzero, assign_of_mem (by omega), if_pos rfl]
    obtain ⟨rest, rfl⟩ := Nat.exists_eq_add_of_le hvalue
    have hset : ((row.assign start (value + rest) false).assign start value true).count start value
        = value :=
      count_of_all_set fun k h1 h2 => assign_of_mem ⟨h1, h2⟩
    have hclear : ((row.assign start (value + rest) false).assign start value true).count
        (start + value) rest = 0 := by
      apply count_of_all_clear
      intro k h1 h2
      rw [assign_of_not_mem (by omega), assign_of_mem (by omega)]
    rw [count_add, hset, hclear, Nat.add_zero]

/-- Writing one field leaves the counter of every field that does not overlap it. -/
theorem readCell_writeCell_disjoint (row : BitRow) {start width value other otherWidth : Nat}
    (hwidth : 0 < width) (hother : 0 < otherWidth) (hvalue : value ≤ width)
    (hdisjoint : start + width ≤ other ∨ other + otherWidth ≤ start) :
    (row.writeCell start width value).readCell other otherWidth = row.readCell other otherWidth := by
  apply readCell_congr hother
  intro k h1 h2
  exact writeCell_of_not_mem hwidth hvalue (by omega)

end BitRow

end Rpi4Kernel.Theory
