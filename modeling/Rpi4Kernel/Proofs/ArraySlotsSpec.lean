/-
Module: Rpi4Kernel.Proofs.ArraySlotsSpec
Layer: Proofs
Purpose: The array behind an `ArrayList` holds the list as long as every call that puts an element in or
  takes one out finds a slot that is not in use. With all slots in use, `add` writes the slot behind the
  array and the loop of `remove` reads it. So a sequence of calls stays within the array exactly when
  each of these calls finds room.
Trusted boundary: none (fully proved)
Main exports: Slots.Holds, Slots.Holds.step, Slots.step_of_full, Slots.staysWithin_iff
-/
import Rpi4Kernel.Stdlib.ArraySlots
import Rpi4Kernel.Proofs.ArrayListSpec

namespace Rpi4Kernel.Stdlib

variable {α : Type} {array : List (Option α)} {l : List α} {n : ℕ}

/-! ### The slots in use -/

theorem contents_eq_some : contents array n = some l ↔ array.take n = l.map some ∧ l.length = n := by
  fun_induction contents array n generalizing l with
  | case1 => cases l <;> simp
  | case2 x array n ih =>
    cases l with
    | nil => simp
    | cons y l => simp [Option.map_eq_some_iff, ih, and_assoc, and_comm, and_left_comm]
  | case3 array n hnone =>
    cases l with
    | nil => simp
    | cons y l =>
      cases array with
      | nil => simp
      | cons x array =>
        cases x with
        | none => simp
        | some x => exact absurd rfl (hnone x array)

/-- The loop of `remove` moves the slots behind `i` down by one, if the last one that it reads is in the
    array. -/
theorem shiftLoop_spec (array : List (Option α)) (i n : ℕ) (h : i + n < array.length) :
    ∃ after, shiftLoop array i n = some after ∧ after.length = array.length ∧
      ∀ j, after[j]? = if i ≤ j ∧ j < i + n then array[j + 1]? else array[j]? := by
  induction n generalizing array i with
  | zero =>
    refine ⟨array, rfl, rfl, fun j => ?_⟩
    rw [if_neg (by omega)]
  | succ n ih =>
    have hread : readAt array (i + 1 : ℕ) = some array[i + 1] := by
      rw [readAt_natCast none (by omega), List.getD_eq_getElem _ _ (by omega)]
    obtain ⟨after, hafter, hlen, hget⟩ := ih (array.set i array[i + 1]) (i + 1)
      (by rw [List.length_set]; omega)
    refine ⟨after, ?_, by rw [hlen, List.length_set], fun j => ?_⟩
    · simp only [shiftLoop, hread, bind, Option.bind, writeAt_natCast (show i < array.length by omega)]
      exact hafter
    · rw [hget j]
      grind

/-- The loop leaves the array when it starts within it and goes on to its end. -/
theorem shiftLoop_of_full (array : List (Option α)) (i n : ℕ) (h : i + n = array.length) (hn : 0 < n) :
    shiftLoop array i n = none := by
  induction n generalizing array i with
  | zero => omega
  | succ n ih =>
    rw [shiftLoop]
    by_cases hlast : n = 0
    · subst hlast
      simp [readAt, h]
    · have hin : i + 1 < array.length := by omega
      simp only [readAt_natCast none hin, bind, Option.bind,
        writeAt_natCast (show i < array.length by omega)]
      exact ih _ _ (by rw [List.length_set]; omega) (by omega)

namespace Slots

/-- The array holds the list: its slots in use hold the elements of the list. -/
structure Holds (list : Slots α) (l : ArrayList α) : Prop where
  allocated : list.array.length = list.capacity
  used : contents list.array list.size = some l.array
  capacity : l.capacity = list.capacity
  sorted : l.sorted = list.sorted

namespace Holds

variable {list : Slots α} {l : ArrayList α}

theorem getSize (h : list.Holds l) : l.getSize = list.size :=
  (contents_eq_some.mp h.used).2

theorem take_array (h : list.Holds l) : list.array.take list.size = l.array.map some :=
  (contents_eq_some.mp h.used).1

theorem size_le (h : list.Holds l) : list.size ≤ list.capacity := by
  have hlen := congrArg List.length h.take_array
  have hsize := h.getSize
  rw [ArrayList.getSize] at hsize
  rw [List.length_take, List.length_map, hsize, h.allocated] at hlen
  omega

theorem new (sorted : Bool) : (Slots.new sorted : Slots α).Holds (.new sorted) where
  allocated := List.length_replicate ..
  used := rfl
  capacity := rfl
  sorted := rfl

/-- With a slot to spare, `add` fills the first slot behind those in use. -/
theorem add (h : list.Holds l) (hroom : list.size < list.capacity) (x : α) :
    ∃ after, list.add x = some after ∧ after.Holds (l.add x) := by
  have hslot : list.size < list.array.length := by rw [h.allocated]; exact hroom
  have hsize := h.getSize
  refine ⟨{ list with array := list.array.set list.size (some x), size := list.size + 1
                      sorted := false }, ?_, ?_, ?_, ?_, rfl⟩
  · simp only [Slots.add, if_neg (show ¬ (list.size : Int) - 1 = list.capacity by omega),
      bind, Option.bind, writeAt_natCast hslot]
  · rw [List.length_set, h.allocated]
  · refine contents_eq_some.mpr ⟨?_, ?_⟩
    · rw [List.take_add_one, List.take_set_of_le le_rfl, h.take_array, List.getElem?_set_self hslot]
      simp [ArrayList.add]
    · simpa [ArrayList.add, ArrayList.getSize] using hsize
  · rw [ArrayList.add, hsize, if_neg (show ¬ (list.size : Int) - 1 = l.capacity by
      rw [h.capacity]; omega)]
    exact h.capacity

/-- With a slot to spare, `remove` closes the gap. -/
theorem remove (h : list.Holds l) {index : Int}
    (hroom : 0 ≤ index ∧ index < list.size → list.size < list.capacity) :
    ∃ after, list.remove index = some after ∧ after.Holds (l.remove index) := by
  have hsize := h.getSize
  rw [Slots.remove, ArrayList.remove, hsize]
  by_cases hin : index < list.size ∧ 0 ≤ index
  · rw [if_pos hin, if_pos hin]
    have hcap := hroom hin.symm
    have hlt : index.toNat < list.size := by omega
    obtain ⟨after, hafter, hlen, hget⟩ := shiftLoop_spec list.array index.toNat
      (list.size - index.toNat) (by rw [h.allocated]; omega)
    refine ⟨{ list with array := after, size := list.size - 1 }, ?_, ?_, ?_, h.capacity, h.sorted⟩
    · simp only [hafter, bind, Option.bind]
    · rw [hlen, h.allocated]
    · refine contents_eq_some.mpr ⟨List.ext_getElem? fun j => ?_, ?_⟩
      · have htake (k : ℕ) := congrArg (·[k]?) h.take_array
        simp only [List.getElem?_take, List.getElem?_map] at htake
        have hj := htake j
        have hj' := htake (j + 1)
        rw [List.getElem?_take, List.getElem?_map, List.getElem?_eraseIdx, hget j]
        rw [ArrayList.getSize] at hsize
        grind
      · rw [ArrayList.getSize] at hsize
        rw [List.length_eraseIdx_of_lt (by omega), hsize]
  · rw [if_neg hin, if_neg hin]
    exact ⟨list, rfl, h⟩

end Holds

/-- With all slots in use, `add` writes the slot behind the array. -/
theorem add_of_full {list : Slots α} (halloc : list.array.length = list.capacity)
    (hfull : list.size = list.capacity) (x : α) : list.add x = none := by
  simp only [add, if_neg (show ¬ (list.size : Int) - 1 = list.capacity by omega), bind, Option.bind]
  rw [writeAt, if_pos (by omega)]

/-- With all slots in use, `remove` reads the slot behind the array. -/
theorem remove_of_full {list : Slots α} (halloc : list.array.length = list.capacity)
    (hfull : list.size = list.capacity) {index : Int} (hin : 0 ≤ index ∧ index < list.size) :
    list.remove index = none := by
  rw [remove, if_pos hin.symm, shiftLoop_of_full _ _ _ (by omega) (by omega)]
  rfl

variable [LinearOrder α] {list : Slots α} {l : ArrayList α}

/-! ### The calls -/

namespace Holds

theorem quickSort (h : list.Holds l) :
    ∃ after l', list.quickSort = some after ∧ l.quickSort = some l' ∧ after.Holds l' := by
  obtain ⟨l', hl', hperm, -⟩ := l.quickSort_spec
  have hsize := h.getSize
  obtain ⟨b, hb, hl''⟩ := Option.bind_eq_some_iff.mp hl'
  cases hl''
  rw [hsize] at hb
  have hlen : b.length = list.size := hperm.length_eq.trans hsize
  have hcap : list.array.length = list.size + (list.array.drop list.size).length := by
    rw [List.length_drop, h.allocated]
    have hle := h.size_le
    omega
  refine ⟨{ list with array := b.map some ++ list.array.drop list.size, sorted := true }, _,
    ?_, hl', ?_⟩
  · simp only [Slots.quickSort, h.used, hb, bind, Option.bind]
  · refine ⟨?_, contents_eq_some.mpr ⟨?_, hlen⟩, h.capacity, rfl⟩
    · rw [List.length_append, List.length_map, hlen, ← hcap, h.allocated]
    · rw [List.take_append_of_le_length (by rw [List.length_map, hlen]),
        List.take_of_length_le (by rw [List.length_map, hlen])]

theorem binarySearch (h : list.Holds l) (x : α) : list.binarySearch x = l.binarySearch x := by
  simp only [Slots.binarySearch, ArrayList.binarySearch, h.sorted, h.used, h.getSize, bind, Option.bind]

/-- A call that finds room makes of the slots what it makes of the list. -/
theorem step (h : list.Holds l) {call : Call α}
    (hroom : list.changesSize call = true → list.size < list.capacity) :
    ∃ after l', list.step call = some after ∧ l.step call = some l' ∧ after.Holds l' := by
  cases call with
  | add x =>
    obtain ⟨after, hafter, hholds⟩ := h.add (hroom rfl) x
    exact ⟨after, _, hafter, rfl, hholds⟩
  | remove index =>
    obtain ⟨after, hafter, hholds⟩ := h.remove fun hin => hroom (decide_eq_true hin)
    exact ⟨after, _, hafter, rfl, hholds⟩
  | removeElement x =>
    obtain ⟨index, hindex⟩ := l.exists_binarySearch x
    have hsearch := (h.binarySearch x).trans hindex
    simp only [Slots.step, Slots.removeElement, ArrayList.step, ArrayList.removeElement,
      hsearch, hindex, h.getSize, bind, Option.bind]
    by_cases hin : 0 ≤ index ∧ index < list.size
    · have hcap : list.size < list.capacity := hroom (by simp [changesSize, hsearch, hin])
      obtain ⟨after, hafter, hholds⟩ := h.remove fun (_ : 0 ≤ index ∧ index < list.size) => hcap
      rw [if_pos hin, if_pos hin, hafter]
      exact ⟨after, _, rfl, rfl, hholds⟩
    · rw [if_neg hin, if_neg hin]
      exact ⟨list, l, rfl, rfl, h⟩
  | quickSort => exact h.quickSort
  | get index =>
    refine ⟨list, l, ?_, rfl, h⟩
    rw [Slots.step, get]
    split
    case isTrue hin =>
      have hlt : index.toNat < list.array.length := by
        rw [h.allocated]
        have hle := h.size_le
        omega
      rw [readAt, if_neg (by omega), List.getElem?_eq_getElem hlt]
      rfl
    case isFalse => rfl

/-- A call that would change the size and finds all slots in use leaves the array. -/
theorem step_of_full (h : list.Holds l) {call : Call α} (hchanges : list.changesSize call = true)
    (hfull : ¬ list.size < list.capacity) : list.step call = none := by
  have hsize : list.size = list.capacity := le_antisymm h.size_le (not_lt.mp hfull)
  cases call with
  | add x => exact add_of_full h.allocated hsize x
  | remove index => exact remove_of_full h.allocated hsize (of_decide_eq_true hchanges)
  | removeElement x =>
    obtain ⟨index, hindex, hin⟩ := (Option.any_eq_true _ _).mp hchanges
    have hin := of_decide_eq_true hin
    simp only [Slots.step, removeElement, hindex, bind, Option.bind]
    rw [if_pos hin, remove_of_full h.allocated hsize hin]
    rfl
  | quickSort => cases hchanges
  | get index => cases hchanges

/-- From an array that holds a list the calls stay within the array exactly when they find room. -/
theorem staysWithin_iff (h : list.Holds l) (calls : List (Call α)) :
    list.staysWithin calls = true ↔ list.findsRoom calls = true := by
  induction calls generalizing list l with
  | nil => simpa [staysWithin, findsRoom] using h.size_le
  | cons call calls ih =>
    rw [staysWithin, findsRoom]
    by_cases hroom : list.changesSize call = true → list.size < list.capacity
    · obtain ⟨after, l', hafter, -, hholds⟩ := h.step hroom
      have hroom' : (!list.changesSize call || decide (list.size < list.capacity)) = true := by
        cases hc : list.changesSize call <;> simp_all
      simp [hafter, hroom', h.size_le, ih hholds]
    · obtain ⟨hchanges, hfull⟩ := Classical.not_imp.mp hroom
      simp [h.step_of_full hchanges hfull, hchanges, hfull]

end Holds

/-- From an empty list the calls keep the size within the capacity and every access within the array
    exactly when each call that puts an element in or takes one out finds a slot that is not in use. -/
theorem staysWithin_iff_findsRoom (sorted : Bool) (calls : List (Call α)) :
    (new sorted).staysWithin calls = true ↔ (new sorted).findsRoom calls = true :=
  (Holds.new sorted).staysWithin_iff calls

/-- One element more than the array has slots is written behind it, and the first removal from the full
    array reads behind it. -/
theorem not_staysWithin :
    ¬ (∀ (sorted : Bool) (calls : List (Call ℕ)), (new sorted).staysWithin calls = true) ∧
      (new false).staysWithin (List.replicate 21 (.add 0)) = false ∧
      (new false).staysWithin (List.replicate 20 (.add 0) ++ [.remove 0]) = false := by
  have hadd : (new false).staysWithin (List.replicate 21 (.add 0)) = false := by decide +kernel
  exact ⟨fun hall => absurd (hall false _) (by rw [hadd]; decide), hadd, by decide +kernel⟩

end Slots

end Rpi4Kernel.Stdlib
