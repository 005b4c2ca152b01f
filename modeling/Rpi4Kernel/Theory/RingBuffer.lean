/-
Module: Rpi4Kernel.Theory.RingBuffer
Layer: Theory
Purpose: A queue in an array of `cap` slots, between a read index and a write index that go round. One
  slot stays free: equal indices are the empty queue.
Trusted boundary: none (fully proved)
Main exports: RingBuffer.next, RingBuffer.count, RingBuffer.occupied, RingBuffer.contents,
  RingBuffer.contents_push, RingBuffer.contents_pop
-/
import Mathlib.Data.Nat.ModEq
import Mathlib.Logic.Function.Basic
import Mathlib.Order.Lattice

namespace Rpi4Kernel.Theory.RingBuffer

variable {α : Type*} {cap read write : ℕ} {slots : ℕ → α}

/-- The index behind `index`. -/
def next (cap index : ℕ) : ℕ := (index + 1) % cap

/-- How many slots are in use. -/
def count (cap read write : ℕ) : ℕ := (write + cap - read) % cap

/-- The slots in use, the one to be read first at the head. -/
def occupied (cap read write : ℕ) : List ℕ :=
  (List.range (count cap read write)).map fun i => (read + i) % cap

/-- What the queue holds, in the order in which it is read. -/
def contents (cap : ℕ) (slots : ℕ → α) (read write : ℕ) : List α :=
  (occupied cap read write).map slots

/-! ### Indices -/

theorem next_lt (hcap : 0 < cap) (index : ℕ) : next cap index < cap :=
  Nat.mod_lt _ hcap

theorem next_eq (hindex : read < cap) : next cap read = if read + 1 = cap then 0 else read + 1 := by
  unfold next
  split
  case isTrue last => rw [last, Nat.mod_self]
  case isFalse inside => exact Nat.mod_eq_of_lt (by omega)

theorem count_lt (hcap : 0 < cap) : count cap read write < cap :=
  Nat.mod_lt _ hcap

theorem count_eq (hread : read < cap) (hwrite : write < cap) :
    count cap read write = if read ≤ write then write - read else write + cap - read := by
  unfold count
  split
  case isTrue inOrder =>
    have wrapped : write + cap - read = write - read + cap := by omega
    rw [wrapped, Nat.add_mod_right, Nat.mod_eq_of_lt (by omega)]
  case isFalse => exact Nat.mod_eq_of_lt (by omega)

/-- The slot that is written next lies behind the last one in use. -/
theorem read_add_count (hread : read < cap) (hwrite : write < cap) :
    (read + count cap read write) % cap = write := by
  rw [count_eq hread hwrite]
  split
  case isTrue inOrder => rw [Nat.add_sub_cancel' inOrder, Nat.mod_eq_of_lt hwrite]
  case isFalse =>
    have wrapped : read + (write + cap - read) = write + cap := by omega
    rw [wrapped, Nat.add_mod_right, Nat.mod_eq_of_lt hwrite]

theorem count_self (read : ℕ) : count cap read read = 0 := by
  rw [count, Nat.add_sub_cancel_left, Nat.mod_self]

theorem count_push (hread : read < cap) (hwrite : write < cap) (room : next cap write ≠ read) :
    count cap read (next cap write) = count cap read write + 1 := by
  have bound := next_lt (by omega : 0 < cap) write
  rw [next_eq hwrite] at room bound ⊢
  rw [count_eq hread bound, count_eq hread hwrite]
  split_ifs at * <;> omega

theorem count_pop (hread : read < cap) (hwrite : write < cap) (some_left : read ≠ write) :
    count cap read write = count cap (next cap read) write + 1 := by
  have bound := next_lt (by omega : 0 < cap) read
  rw [next_eq hread] at bound ⊢
  rw [count_eq hread hwrite, count_eq bound hwrite]
  split_ifs at * <;> omega

/-! ### The slots in use -/

@[simp] theorem length_occupied : (occupied cap read write).length = count cap read write := by
  simp [occupied]

@[simp] theorem length_contents : (contents cap slots read write).length = count cap read write := by
  simp [contents]

@[simp] theorem contents_self (read : ℕ) : contents cap slots read read = [] := by
  simp [contents, occupied, count_self]

theorem occupied_push (hread : read < cap) (hwrite : write < cap) (room : next cap write ≠ read) :
    occupied cap read (next cap write) = occupied cap read write ++ [write] := by
  rw [occupied, count_push hread hwrite room, List.range_succ, List.map_append, List.map_singleton,
    read_add_count hread hwrite]
  rfl

theorem occupied_pop (hread : read < cap) (hwrite : write < cap) (some_left : read ≠ write) :
    occupied cap read write = read :: occupied cap (next cap read) write := by
  rw [occupied, count_pop hread hwrite some_left, List.range_succ_eq_map, List.map_cons, List.map_map,
    Nat.add_zero, Nat.mod_eq_of_lt hread]
  congr 1
  apply List.map_congr_left
  intro i _
  simp only [Function.comp_apply, next, Nat.mod_add_mod]
  congr 1
  omega

/-- The slot that is written next is free. -/
theorem write_notMem_occupied (hread : read < cap) (hwrite : write < cap) :
    write ∉ occupied cap read write := by
  intro used
  obtain ⟨i, hi, at_write⟩ := List.mem_map.mp used
  have earlier : i < count cap read write := List.mem_range.mp hi
  have bound : count cap read write < cap := count_lt (by omega)
  have same : (read + i) % cap = (read + count cap read write) % cap :=
    at_write.trans (read_add_count hread hwrite).symm
  have : i % cap = count cap read write % cap := Nat.ModEq.add_left_cancel' read same
  rw [Nat.mod_eq_of_lt (by omega), Nat.mod_eq_of_lt bound] at this
  omega

/-! ### What the queue holds -/

/-- A value stored at the write index comes last. -/
theorem contents_push (slots : ℕ → α) (x : α) (hread : read < cap) (hwrite : write < cap)
    (room : next cap write ≠ read) :
    contents cap (Function.update slots write x) read (next cap write) =
      contents cap slots read write ++ [x] := by
  have others : (occupied cap read write).map (Function.update slots write x) =
      (occupied cap read write).map slots := by
    apply List.map_congr_left
    intro slot used
    have other : slot ≠ write := fun h => write_notMem_occupied hread hwrite (h ▸ used)
    exact Function.update_of_ne other _ _
  rw [contents, occupied_push hread hwrite room, List.map_append, others, List.map_singleton,
    Function.update_self]
  rfl

/-- The value at the read index comes first. -/
theorem contents_pop (slots : ℕ → α) (hread : read < cap) (hwrite : write < cap)
    (some_left : read ≠ write) :
    contents cap slots read write = slots read :: contents cap slots (next cap read) write := by
  rw [contents, occupied_pop hread hwrite some_left, List.map_cons]
  rfl

end Rpi4Kernel.Theory.RingBuffer
