/-
Module: Rpi4Kernel.Stdlib.ArraySlots
Layer: Stdlib
Purpose: `ArrayList<T>` as it stands in memory: the slots that `new T[capacity]` made, of which the
  first `size` are in use, with every read and write of a slot checked against the end of the array.
  The list of `ArrayList` is what such an array holds as long as nothing leaves it.
Trusted boundary: an access outside the array has no value here (`none`); the source reads or writes
  whatever lies behind the array. `int` indices do not overflow.
Main exports: Slots, Slots.add, Slots.remove, Slots.removeElement, Slots.step, Slots.staysWithin
-/
import Rpi4Kernel.Stdlib.ArrayList

namespace Rpi4Kernel.Stdlib

/-- The fields of `ArrayList<T>`. A slot that was never written is `none`. -/
structure Slots (α : Type) where
  array : List (Option α)
  size : Nat
  capacity : Nat
  sorted : Bool
deriving DecidableEq, Repr

/-- The operations that the kernel performs on its queues. -/
inductive Call (α : Type) where
  | add (element : α)
  | remove (index : Int)
  | removeElement (element : α)
  | quickSort
  | get (index : Int)
deriving DecidableEq, Repr

variable {α : Type}

/-- The elements in the first `size` slots, if these are in the array and have been written. -/
def contents : List (Option α) → Nat → Option (List α)
  | _, 0 => some []
  | some x :: array, size + 1 => (contents array size).map (x :: ·)
  | _, _ + 1 => none

/-- `for (int i = 0; i < size; i++) temp[i] = array[i];` from slot `i`, with `n` slots to go. -/
def copyLoop (array temp : List (Option α)) (i : Nat) : Nat → Option (List (Option α))
  | 0 => some temp
  | n + 1 => do
    let x ← readAt array i
    let temp ← writeAt temp i x
    copyLoop array temp (i + 1) n

/-- `for (int i = index; i < size; i++) array[i] = array[i + 1];` from slot `i`, with `n` slots to
    go. -/
def shiftLoop (array : List (Option α)) (i : Nat) : Nat → Option (List (Option α))
  | 0 => some array
  | n + 1 => do
    let x ← readAt array (i + 1 : Nat)
    let array ← writeAt array i x
    shiftLoop array (i + 1) n

/-- What a call makes of the list, with no regard to the array behind it. -/
def ArrayList.step [LinearOrder α] (list : ArrayList α) : Call α → Option (ArrayList α)
  | .add element => some (list.add element)
  | .remove index => some (list.remove index)
  | .removeElement element => (list.removeElement element).map Prod.fst
  | .quickSort => list.quickSort
  | .get _ => some list

namespace Slots

/-- `ArrayList()`. The constructor leaves `sorted` as the memory has it. -/
def new (sorted : Bool) : Slots α :=
  { array := List.replicate 20 none, size := 0, capacity := 20, sorted := sorted }

/-- `reallocate()`. -/
def reallocate (list : Slots α) : Option (Slots α) := do
  let capacity := list.capacity * 2
  let temp ← copyLoop list.array (List.replicate capacity none) 0 list.size
  some { list with array := temp, capacity := capacity }

/-- `add(element)`. -/
def add (list : Slots α) (element : α) : Option (Slots α) := do
  let list ← if (list.size : Int) - 1 = list.capacity then list.reallocate else some list
  let array ← writeAt list.array list.size (some element)
  some { list with array := array, size := list.size + 1, sorted := false }

/-- `remove(index)`. -/
def remove (list : Slots α) (index : Int) : Option (Slots α) :=
  if index < list.size ∧ 0 ≤ index then do
    let array ← shiftLoop list.array index.toNat (list.size - index.toNat)
    some { list with array := array, size := list.size - 1 }
  else some list

/-- `get(index)`: the element that the pointer it returns points to, if it is not null. -/
def get (list : Slots α) (index : Int) : Option (Option α) :=
  if 0 ≤ index ∧ index < list.size then readAt list.array index else some none

variable [LinearOrder α]

/-- `quickSort()`, which reads and writes the slots in use alone. -/
def quickSort (list : Slots α) : Option (Slots α) := do
  let used ← contents list.array list.size
  let used ← quickSortRange (list.size + 1) used 0 (list.size - 1)
  some { list with array := used.map some ++ list.array.drop list.size, sorted := true }

/-- `binarySearch(element)`. -/
def binarySearch (list : Slots α) (element : α) : Option Int :=
  if list.sorted then do
    let used ← contents list.array list.size
    binarySearchRange used element (list.size + 1) 0 (list.size - 1)
  else some (-1)

/-- `removeElement(element)`: the list after the call and what the call returns. -/
def removeElement (list : Slots α) (element : α) : Option (Slots α × Bool) := do
  let index ← list.binarySearch element
  if 0 ≤ index ∧ index < list.size then do
    let list ← list.remove index
    some (list, true)
  else some (list, false)

/-- The list after a call, if every slot that the call reads or writes is in the array. -/
def step (list : Slots α) : Call α → Option (Slots α)
  | .add element => list.add element
  | .remove index => list.remove index
  | .removeElement element => (list.removeElement element).map Prod.fst
  | .quickSort => list.quickSort
  | .get index => (list.get index).map fun _ => list

/-- All the calls, one after the other, keep the size within the capacity and every access within the
    array. -/
def staysWithin (list : Slots α) : List (Call α) → Bool
  | [] => list.size ≤ list.capacity
  | call :: calls =>
    list.size ≤ list.capacity && (list.step call).any fun list => list.staysWithin calls

/-- The call puts an element into the list or takes one out of it. -/
def changesSize (list : Slots α) : Call α → Bool
  | .add _ => true
  | .remove index => 0 ≤ index ∧ index < list.size
  | .removeElement element =>
    (list.binarySearch element).any fun (index : Int) => 0 ≤ index ∧ index < list.size
  | .quickSort => false
  | .get _ => false

/-- Each of the calls that puts an element in or takes one out finds a slot that is not in use. -/
def findsRoom (list : Slots α) : List (Call α) → Bool
  | [] => true
  | call :: calls =>
    (!list.changesSize call || list.size < list.capacity) &&
      (list.step call).all fun list => list.findsRoom calls

end Slots

end Rpi4Kernel.Stdlib
