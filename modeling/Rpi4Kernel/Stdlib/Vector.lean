/-
Module: Rpi4Kernel.Stdlib.Vector
Layer: Stdlib
Purpose: `Vector<T>` (`include/Vector.h`) for any element type. The buffer is the row of elements that
  `new T[n]` has made, every read and write of an element is checked against its end, and size,
  capacity and buffer are set one by one as the source does. Several vectors live side by side, so
  that they can be copied and assigned to each other.
Trusted boundary: an access outside a buffer, or to one that was deleted, has no value here (`none`);
  `new T[n]` does not run out of memory, and an element is copied as a value.
Main exports: ElementType, Vector, Vector.pushBack, Vector.reserve, Vector.resize, VectorCall,
  vectorStep
-/
import Mathlib.Logic.Function.Basic
import Rpi4Kernel.Mem.GlobalKernelAlloc
import Rpi4Kernel.Stdlib.ArraySlots

namespace Rpi4Kernel.Stdlib

/-- An element type `T`: `sizeof(T)`, and the bytes that `new T[n]` asks for in front of the elements (0
    where `T` has no destructor, else the number of elements is kept there). -/
structure ElementType where
  bytes : Nat
  header : Nat
  bytes_pos : 0 < bytes
  header_lt : header < 2 ^ 32
deriving DecidableEq, Repr

/-- Pointers of 8 bytes, such as the drivers that the kernel keeps in a vector. -/
def pointerType : ElementType := ⟨8, 0, by decide, by decide⟩

/-- The elements that there is room for behind `new T[n]`: the operator `new[]` passes its `size_t` on
    as an `unsigned`. -/
def ElementType.newLength (T : ElementType) (n : Nat) : Nat :=
  (Mem.toUnsigned (T.header + n * T.bytes) - T.header) / T.bytes

/-- The fields of `Vector<T>`; a null `buffer` is `none`. An element that was never written is
    `none`. -/
structure Vector (α : Type) where
  mySize : Nat
  myCapacity : Nat
  buffer : Option (List (Option α))
deriving DecidableEq, Repr

variable {α : Type} (T : ElementType)

/-- `new T[n]`. -/
def newElements (n : Nat) : List (Option α) := List.replicate (T.newLength n) none

/-- `for (unsigned int i = 0; i < size; i++) buffer[i] = initial;` from element `i`, with `n` to go. -/
def fillLoop (initial : α) (buffer : List (Option α)) (i : Nat) : Nat → Option (List (Option α))
  | 0 => some buffer
  | n + 1 => do
    let buffer ← writeAt buffer i (some initial)
    fillLoop initial buffer (i + 1) n

namespace Vector

/-- The elements behind `buffer`; there are none behind a null pointer. -/
def elements (v : Vector α) : List (Option α) := v.buffer.getD []

@[simp] theorem elements_mk (size capacity : Nat) (buffer : List (Option α)) :
    (⟨size, capacity, some buffer⟩ : Vector α).elements = buffer := rfl

/-! ### Constructors -/

/-- `Vector()`. -/
def construct : Vector α := { mySize := 0, myCapacity := 0, buffer := none }

/-- `Vector(unsigned int size)`. -/
def constructSize (size : Nat) : Vector α :=
  { mySize := size, myCapacity := size, buffer := some (newElements T size) }

/-- `Vector(unsigned int size, const T& initial)`. -/
def constructFilled (size : Nat) (initial : α) : Option (Vector α) := do
  let buffer ← fillLoop initial (newElements T size) 0 size
  some { mySize := size, myCapacity := size, buffer := some buffer }

/-- `Vector(const Vector<T>& v)`. -/
def constructCopy (v : Vector α) : Option (Vector α) := do
  let buffer ← copyLoop v.elements (newElements T v.mySize) 0 v.mySize
  some { mySize := v.mySize, myCapacity := v.myCapacity, buffer := some buffer }

/-- `operator=(const Vector<T>& v)` with another vector for `v`. -/
def assign (v : Vector α) : Option (Vector α) := do
  -- the buffer of `this` was deleted, and is not that of `v`
  let buffer ← copyLoop v.elements (newElements T v.mySize) 0 v.mySize
  some { mySize := v.mySize, myCapacity := v.myCapacity, buffer := some buffer }

/-- `operator=(const Vector<T>& v)` where `v` is the vector itself. -/
def assignSelf (v : Vector α) : Option (Vector α) := do
  -- `v.buffer` is the new buffer too when the loop reads it
  let buffer := newElements T v.mySize
  let buffer ← copyLoop buffer buffer 0 v.mySize
  some { mySize := v.mySize, myCapacity := v.myCapacity, buffer := some buffer }

/-! ### Members -/

/-- `reserve(capacity)`. -/
def reserve (v : Vector α) (capacity : Nat) : Option (Vector α) := do
  let v := if v.buffer.isNone then { v with mySize := 0, myCapacity := 0 } else v
  let lSize := if capacity < v.mySize then capacity else v.mySize
  let newBuffer ← copyLoop v.elements (newElements T capacity) 0 lSize
  some { v with myCapacity := capacity, buffer := some newBuffer }

/-- `resize(size)`. -/
def resize (v : Vector α) (size : Nat) : Option (Vector α) := do
  let v ← v.reserve T size
  some { v with mySize := size }

/-- `buffer[my_size++] = v;`. -/
def append (v : Vector α) (element : Option α) : Option (Vector α) := do
  let buffer ← writeAt v.elements v.mySize element
  some { v with mySize := (v.mySize + 1) % 2 ^ 32, buffer := some buffer }

/-- `push_back(v)` with an argument that is no element of the vector itself. -/
def pushBack (v : Vector α) (element : α) : Option (Vector α) := do
  let v ← if v.myCapacity ≤ v.mySize then v.reserve T ((v.myCapacity + 5) % 2 ^ 32) else some v
  v.append (some element)

/-- `push_back(buffer[index])`: the argument is a reference into the buffer, which `reserve` deletes. -/
def pushBackOwn (v : Vector α) (index : Nat) : Option (Vector α) :=
  if v.myCapacity ≤ v.mySize then none
  else do
    let element ← readAt v.elements index
    v.append element

/-- `pop_back()`. -/
def popBack (v : Vector α) : Vector α := { v with mySize := (v.mySize + (2 ^ 32 - 1)) % 2 ^ 32 }

/-- `clear()`. -/
def clear (_v : Vector α) : Vector α := { mySize := 0, myCapacity := 0, buffer := none }

/-- `operator[](index)`. -/
def index (v : Vector α) (index : Nat) : Option (Option α) := readAt v.elements index

/-- `for (T element : v)` from element `i`, with `n` to go: the elements that it visits. -/
def visit (v : Vector α) (i : Nat) : Nat → Option (List (Option α))
  | 0 => some []
  | n + 1 => do
    let element ← v.index i
    let rest ← v.visit (i + 1) n
    some (element :: rest)

/-- The elements that a loop from `begin()` to `end()` visits. -/
def iterate (v : Vector α) : Option (List (Option α)) := v.visit 0 v.mySize

end Vector

/-! ### Several vectors -/

/-- A call on one of several vectors, which are told apart by numbers. -/
inductive VectorCall (α : Type) where
  | construct (this : Nat)
  | constructSize (this size : Nat)
  | constructFilled (this size : Nat) (initial : α)
  | constructCopy (this v : Nat)
  | destroy (this : Nat)
  | assign (this v : Nat)
  | pushBack (this : Nat) (element : α)
  | pushBackOwn (this index : Nat)
  | popBack (this : Nat)
  | reserve (this capacity : Nat)
  | resize (this size : Nat)
  | clear (this : Nat)
deriving DecidableEq, Repr

/-- The vectors there are. -/
abbrev Vectors (α : Type) := Nat → Option (Vector α)

/-- A call on the vector `this`. -/
def onVector (vectors : Vectors α) (this : Nat) (f : Vector α → Option (Vector α)) :
    Option (Vectors α) := do
  let v ← vectors this
  let v ← f v
  some (Function.update vectors this (some v))

/-- The vectors after a call, if every element that it reads or writes is in the buffer. -/
def vectorStep (vectors : Vectors α) : VectorCall α → Option (Vectors α)
  | .construct this => some (Function.update vectors this (some .construct))
  | .constructSize this size => some (Function.update vectors this (some (.constructSize T size)))
  | .constructFilled this size initial => do
    let v ← Vector.constructFilled T size initial
    some (Function.update vectors this (some v))
  | .constructCopy this v => do
    let v ← vectors v
    let v ← v.constructCopy T
    some (Function.update vectors this (some v))
  | .destroy this => some (Function.update vectors this none)
  | .assign this v =>
    if this = v then onVector vectors this (·.assignSelf T)
    else do
      let v ← vectors v
      onVector vectors this fun _ => v.assign T
  | .pushBack this element => onVector vectors this (·.pushBack T element)
  | .pushBackOwn this index => onVector vectors this (·.pushBackOwn index)
  | .popBack this => onVector vectors this fun v => some v.popBack
  | .reserve this capacity => onVector vectors this (·.reserve T capacity)
  | .resize this size => onVector vectors this (·.resize T size)
  | .clear this => onVector vectors this fun v => some v.clear

example : ((Vector.construct : Vector Nat).pushBack pointerType 7).map Vector.iterate =
    some (some [some 7]) := by decide

end Rpi4Kernel.Stdlib
