/-
Module: Rpi4Kernel.Stdlib.ArrayList
Layer: Stdlib
Purpose: The part of `ArrayList<T>` (`List.h`) that the scheduler uses: appending, removing by sort and
  binary search, and the sort itself, a median-of-three quicksort over the insertion sort.
Trusted boundary: the first `size` slots of the array are a list, so that an access outside them has no
  value here (`none`); the source reads or writes whatever lies there. `int` indices do not overflow.
Main exports: ArrayList, add, remove, removeElement, get, quickSort, binarySearch
-/
import Mathlib.Data.List.Basic
import Mathlib.Order.Lattice

namespace Rpi4Kernel.Stdlib

/-- `ArrayList<T>`: the slots in use, the length of the array behind them, and the flag `sorted`. -/
structure ArrayList (α : Type) where
  array : List α
  capacity : Nat
  sorted : Bool
deriving DecidableEq, Repr

variable {α : Type}

/-! ### The array -/

/-- `array[i]`. -/
def readAt (a : List α) (i : Int) : Option α :=
  if i < 0 then none else a[i.toNat]?

/-- `array[i] = x`. -/
def writeAt (a : List α) (i : Int) (x : α) : Option (List α) :=
  if i < 0 ∨ (a.length : Int) ≤ i then none else some (a.set i.toNat x)

/-- `move(index1, index2)`: swaps two slots, and does nothing when one of the indices is not valid. -/
def move (a : List α) (index1 index2 : Int) : Option (List α) :=
  if 0 ≤ index1 ∧ 0 ≤ index2 ∧ index1 < a.length ∧ index2 < a.length then do
    let temp ← readAt a index1
    let other ← readAt a index2
    let a ← writeAt a index1 other
    writeAt a index2 temp
  else some a

section Ordered

variable [LinearOrder α]

/-! ### Insertion sort -/

/-- The inner loop of `insertionSort`: finds the place of `element` from slot `j` downwards. -/
def insertElement (a : List α) (element : α) : Nat → Option (List α)
  | 0 => writeAt a 0 element
  | j + 1 => do
    let before ← readAt a j
    if before ≤ element then writeAt a (j + 1 : Nat) element
    else do
      let a ← writeAt a (j + 1 : Nat) before
      insertElement a element j

/-- The outer loop of `insertionSort` from slot `i`, with `n` slots to go. -/
def insertionSortLoop (a : List α) (i : Nat) : Nat → Option (List α)
  | 0 => some a
  | n + 1 => do
    let element ← readAt a i
    let a ← insertElement a element i
    insertionSortLoop a (i + 1) n

/-- `insertionSort(index1, index2)`. -/
def insertionSort (a : List α) (index1 index2 : Int) : Option (List α) :=
  if index1 < index2 ∧ 0 ≤ index1 ∧ index1 < a.length ∧ 0 ≤ index2 ∧ index2 < a.length then
    insertionSortLoop a index1.toNat (index2 - index1 + 1).toNat
  else some a

/-! ### Quicksort -/

/-- The tests of `choosePivot`: exchanges two slots when the first holds the larger element. -/
def exchange (a : List α) (index1 index2 : Int) : Option (List α) := do
  let x ← readAt a index1
  let y ← readAt a index2
  if x > y then move a index1 index2 else some a

/-- `choosePivot(index1, index2)`: orders the first, the middle and the last slot and puts the middle
    one into the last slot but one, to which the reference it returns points. -/
def choosePivot (a : List α) (index1 index2 : Int) : Option (List α) := do
  let center := (index1 + index2) / 2
  let a ← exchange a index1 center
  let a ← exchange a index1 index2
  let a ← exchange a center index2
  move a center (index2 - 1)

/-- `while (array[++i] < pivot);`, with `pivot` the slot that holds the pivot. -/
def scanUp (a : List α) (pivot : Int) : Nat → Int → Option Int
  | 0, _ => none
  | fuel + 1, i => do
    let x ← readAt a (i + 1)
    let p ← readAt a pivot
    if x < p then scanUp a pivot fuel (i + 1) else some (i + 1)

/-- `while (array[--j] > pivot);`. -/
def scanDown (a : List α) (pivot : Int) : Nat → Int → Option Int
  | 0, _ => none
  | fuel + 1, j => do
    let x ← readAt a (j - 1)
    let p ← readAt a pivot
    if x > p then scanDown a pivot fuel (j - 1) else some (j - 1)

/-- The loop of `quickSort(index1, index2)` that brings the elements to their side of the pivot: the
    array and `i` after it. -/
def partitionLoop (pivot : Int) : Nat → List α → Int → Int → Option (List α × Int)
  | 0, _, _, _ => none
  | fuel + 1, a, i, j => do
    let i ← scanUp a pivot (a.length + 1) i
    let j ← scanDown a pivot (a.length + 1) j
    if i < j then do
      let a ← move a i j
      partitionLoop pivot fuel a i j
    else some (a, i)

/-- `quickSort(index1, index2)`. -/
def quickSortRange : Nat → List α → Int → Int → Option (List α)
  | 0, _, _, _ => none
  | fuel + 1, a, index1, index2 =>
    if index2 - index1 ≥ 10 then do
      let a ← choosePivot a index1 index2
      let (a, i) ← partitionLoop (index2 - 1) (a.length + 1) a index1 (index2 - 1)
      let a ← move a i (index2 - 1)
      let a ← quickSortRange fuel a index1 (i - 1)
      quickSortRange fuel a (i + 1) index2
    else insertionSort a index1 index2

/-! ### Binary search -/

/-- `binarySearch(element, index1, index2)`. A range of one slot is not compared with `element`. -/
def binarySearchRange (a : List α) (element : α) : Nat → Int → Int → Option Int
  | 0, _, _ => none
  | fuel + 1, index1, index2 =>
    if index1 < index2 then do
      let pivot := (index1 + index2) / 2
      let x ← readAt a pivot
      if element < x then binarySearchRange a element fuel index1 (pivot - 1)
      else if element > x then binarySearchRange a element fuel (pivot + 1) index2
      else some pivot
    else if index1 = index2 then some index1
    else some (-1)

end Ordered

namespace ArrayList

/-- `ArrayList()`. The constructor leaves `sorted` as the memory has it. -/
def new (sorted : Bool) : ArrayList α := { array := [], capacity := 20, sorted := sorted }

/-- `getSize()`. -/
def getSize (list : ArrayList α) : Nat := list.array.length

/-- `get(index)`, dereferenced. -/
def get (list : ArrayList α) (index : Int) : Option α := readAt list.array index

/-- `add(element)`. The array grows when `size - 1` has reached the capacity, so that one slot behind
    it is in use before it does. -/
def add (list : ArrayList α) (element : α) : ArrayList α where
  array := list.array ++ [element]
  capacity :=
    if (list.getSize : Int) - 1 = list.capacity then list.capacity * 2 else list.capacity
  sorted := false

/-- `remove(index)`. -/
def remove (list : ArrayList α) (index : Int) : ArrayList α :=
  if index < list.getSize ∧ 0 ≤ index then { list with array := list.array.eraseIdx index.toNat }
  else list

variable [LinearOrder α]

/-- `quickSort()`. -/
def quickSort (list : ArrayList α) : Option (ArrayList α) := do
  let array ← quickSortRange (list.getSize + 1) list.array 0 (list.getSize - 1)
  some { list with array := array, sorted := true }

/-- `binarySearch(element)`. -/
def binarySearch (list : ArrayList α) (element : α) : Option Int :=
  if list.sorted then
    binarySearchRange list.array element (list.getSize + 1) 0 (list.getSize - 1)
  else some (-1)

/-- `removeElement(element)`: the list after the call and what the call returns. -/
def removeElement (list : ArrayList α) (element : α) : Option (ArrayList α × Bool) := do
  let index ← list.binarySearch element
  if 0 ≤ index ∧ index < list.getSize then some (list.remove index, true)
  else some (list, false)

end ArrayList

end Rpi4Kernel.Stdlib
