/-
Module: Rpi4Kernel.Proofs.VectorSpec
Layer: Proofs
Purpose: What keeps a `Vector` within its buffer. The list that each vector stands for is kept beside
  it, and every call does to the two what it should as long as it allocates as much as it records: a
  copy or an assignment of a full vector, a `reserve` that loses no element, a request that fits an
  `unsigned`.
Trusted boundary: none (fully proved)
Main exports: listStep, Vector.Holds, VectorCall.allowed, VectorCall.keepsBuffers, vectors_hold_lists
-/
import Rpi4Kernel.Proofs.ArrayListSpec
import Rpi4Kernel.Stdlib.Vector
import Rpi4Kernel.Theory.Runs

namespace Rpi4Kernel.Stdlib

open Rpi4Kernel.Theory

variable {α : Type} {T : ElementType}

/-! ### The lists -/

/-- The lists that the vectors stand for. -/
abbrev Lists (α : Type) := Nat → Option (List (Option α))

/-- A change of the list `this`. -/
def onList (lists : Lists α) (this : Nat) (f : List (Option α) → List (Option α)) : Option (Lists α) :=
  (lists this).map fun l => Function.update lists this (some (f l))

/-- What a call means for the lists. -/
def listStep (lists : Lists α) : VectorCall α → Option (Lists α)
  | .construct this => some (Function.update lists this (some []))
  | .constructSize this size => some (Function.update lists this (some (List.replicate size none)))
  | .constructFilled this size initial =>
    some (Function.update lists this (some (List.replicate size (some initial))))
  | .constructCopy this v => (lists v).map fun l => Function.update lists this (some l)
  | .destroy this => some (Function.update lists this none)
  | .assign this v => (lists v).bind fun l => onList lists this fun _ => l
  | .pushBack this element => onList lists this fun l => l ++ [some element]
  | .pushBackOwn this index => onList lists this fun l => l ++ [l.getD index none]
  | .popBack this => onList lists this List.dropLast
  | .reserve this capacity => onList lists this (List.take capacity)
  | .resize this size =>
    onList lists this fun l => l.take size ++ List.replicate (size - l.length) none
  | .clear this => onList lists this fun _ => []

/-! ### Loops over a buffer -/

/-- Writing element `i` adds it to the elements before. -/
theorem take_succ_set {l : List (Option α)} {i : Nat} (h : i < l.length) (x : Option α) :
    (l.set i x).take (i + 1) = l.take i ++ [x] := by
  rw [List.take_add_one, List.take_set_of_le le_rfl, List.getElem?_set_self h]
  rfl

theorem copyLoop_spec {array temp : List (Option α)} {i n : Nat} (harray : i + n ≤ array.length)
    (htemp : i + n ≤ temp.length) : copyLoop array temp i n =
      some (temp.take i ++ (array.drop i).take n ++ temp.drop (i + n)) := by
  induction n generalizing temp i with
  | zero => simp [copyLoop]
  | succ n ih =>
      have hread : readAt array i = some array[i] := by
        rw [readAt_natCast none (by omega), List.getD_eq_getElem _ _ (by omega)]
      have hlen : (temp.set i array[i]).length = temp.length := List.length_set
      simp only [copyLoop, hread, Option.bind_eq_bind, Option.bind_some,
        writeAt_natCast (show i < temp.length by omega)]
      rw [ih (by omega) (by omega), take_succ_set (by omega), List.drop_set_of_lt (by omega),
        List.drop_eq_getElem_cons (show i < array.length by omega), List.take_succ_cons,
        show i + 1 + n = i + (n + 1) by omega]
      simp

/-- A copy from the start of a buffer to that of another one. -/
theorem copyLoop_from_start {array temp : List (Option α)} {n : Nat} (harray : n ≤ array.length)
    (htemp : n ≤ temp.length) : copyLoop array temp 0 n = some (array.take n ++ temp.drop n) := by
  have h := @copyLoop_spec α array temp 0 n (by omega) (by omega)
  simpa using h

theorem fillLoop_spec {initial : α} {buffer : List (Option α)} {i n : Nat} (h : i + n ≤ buffer.length) :
    fillLoop initial buffer i n =
      some (buffer.take i ++ List.replicate n (some initial) ++ buffer.drop (i + n)) := by
  induction n generalizing buffer i with
  | zero => simp [fillLoop]
  | succ n ih =>
      have hlen : (buffer.set i (some initial)).length = buffer.length := List.length_set
      simp only [fillLoop, Option.bind_eq_bind, Option.bind_some,
        writeAt_natCast (show i < buffer.length by omega)]
      rw [ih (by omega), take_succ_set (by omega), List.drop_set_of_lt (by omega),
        List.replicate_succ, show i + 1 + n = i + (n + 1) by omega]
      simp

/-! ### Allocations -/

/-- The request of `new T[n]` fits the `unsigned` that the allocator takes. -/
def ElementType.fits (T : ElementType) (n : Nat) : Prop := T.header + n * T.bytes < 2 ^ 32

instance (n : Nat) : Decidable (T.fits n) := inferInstanceAs (Decidable (_ < _))

theorem ElementType.fits_zero (T : ElementType) : T.fits 0 := by
  rw [ElementType.fits, Nat.zero_mul, Nat.add_zero]
  exact T.header_lt

theorem ElementType.fits.lt {n : Nat} (h : T.fits n) : n < 2 ^ 32 := by
  have hbytes := Nat.le_mul_of_pos_right n T.bytes_pos
  unfold ElementType.fits at h
  omega

/-- There is room for `n` elements behind a `new T[n]` whose request fits. -/
theorem newLength_of_fits {n : Nat} (h : T.fits n) : T.newLength n = n := by
  rw [ElementType.newLength, Mem.toUnsigned, Nat.mod_eq_of_lt h, Nat.add_sub_cancel_left,
    Nat.mul_div_cancel n T.bytes_pos]

theorem newElements_of_fits {n : Nat} (h : T.fits n) :
    (newElements T n : List (Option α)) = List.replicate n none := by
  rw [newElements, newLength_of_fits h]

/-! ### A vector that holds a list -/

/-- The vector is within its buffer, and the elements in use are those of the list. -/
structure Vector.Holds (T : ElementType) (v : Vector α) (l : List (Option α)) : Prop where
  size_le : v.mySize ≤ v.myCapacity
  capacity_le : v.myCapacity ≤ v.elements.length
  contents : v.elements.take v.mySize = l
  allocated : T.fits v.myCapacity

namespace Vector.Holds

variable {v : Vector α} {l : List (Option α)}

theorem length_eq (h : v.Holds T l) : l.length = v.mySize := by
  have hsize := h.size_le
  have hcap := h.capacity_le
  rw [← h.contents, List.length_take]
  omega

/-- `operator[]` below `size()`. -/
theorem index_eq (h : v.Holds T l) {i : Nat} (hi : i < v.mySize) : v.index i = l[i]? := by
  rw [Vector.index, readAt, if_neg (by omega), Int.toNat_natCast, ← h.contents,
    List.getElem?_take_of_lt hi]

theorem visit_eq (h : v.Holds T l) {i n : Nat} (hn : i + n ≤ v.mySize) :
    v.visit i n = some ((l.drop i).take n) := by
  induction n generalizing i with
  | zero => simp [Vector.visit]
  | succ n ih =>
      have hi : i < l.length := by
        rw [h.length_eq]
        omega
      simp only [Vector.visit, h.index_eq (show i < v.mySize by omega), List.getElem?_eq_getElem hi,
        ih (show i + 1 + n ≤ v.mySize by omega), Option.bind_eq_bind, Option.bind_some]
      rw [List.drop_eq_getElem_cons hi, List.take_succ_cons]

/-- The loop from `begin()` to `end()` visits the list. -/
theorem iterate_eq (h : v.Holds T l) : v.iterate = some l := by
  rw [Vector.iterate, h.visit_eq (show 0 + v.mySize ≤ v.mySize by omega), List.drop_zero,
    ← h.length_eq, List.take_length]

/-- With no buffer there are no elements. -/
theorem size_eq_zero (h : v.Holds T l) (hnull : v.buffer = none) : v.mySize = 0 ∧ v.myCapacity = 0 := by
  have hsize := h.size_le
  have hcap := h.capacity_le
  rw [Vector.elements, hnull, Option.getD_none, List.length_nil] at hcap
  omega

/-- A vector without elements. -/
theorem empty (T : ElementType) :
    ({ mySize := 0, myCapacity := 0, buffer := none } : Vector α).Holds T [] where
  size_le := le_rfl
  capacity_le := Nat.zero_le _
  contents := rfl
  allocated := T.fits_zero

theorem constructSize {size : Nat} (hfits : T.fits size) :
    (Vector.constructSize T size : Vector α).Holds T (List.replicate size none) where
  size_le := le_rfl
  capacity_le := by
    simp [Vector.constructSize, newElements_of_fits hfits]
  contents := by
    simp [Vector.constructSize, newElements_of_fits hfits]
  allocated := hfits

theorem constructFilled {size : Nat} (hfits : T.fits size) (initial : α) :
    ∃ w, Vector.constructFilled T size initial = some w ∧
      w.Holds T (List.replicate size (some initial)) := by
  have hlen : (newElements T size : List (Option α)).length = size := by
    rw [newElements_of_fits hfits, List.length_replicate]
  have hfill := @fillLoop_spec α initial (newElements T size) 0 size (by omega)
  rw [Nat.zero_add, List.take_zero, List.nil_append, List.drop_of_length_le hlen.le,
    List.append_nil] at hfill
  refine ⟨_, by rw [Vector.constructFilled, hfill]; rfl, le_rfl, ?_, ?_, hfits⟩
  · rw [Vector.elements_mk, List.length_replicate]
  · rw [Vector.elements_mk, List.take_of_length_le (by rw [List.length_replicate])]

/-- A copy of a vector without spare elements. -/
theorem constructCopy (h : v.Holds T l) (hfull : v.mySize = v.myCapacity) :
    ∃ w, v.constructCopy T = some w ∧ w.Holds T l := by
  have hcap := h.capacity_le
  have hfits := h.allocated
  rw [← hfull] at hcap hfits
  have hlen : (newElements T v.mySize : List (Option α)).length = v.mySize := by
    rw [newElements_of_fits hfits, List.length_replicate]
  have hcopy := copyLoop_from_start hcap hlen.ge
  rw [h.contents, List.drop_of_length_le hlen.le, List.append_nil] at hcopy
  refine ⟨⟨v.mySize, v.myCapacity, some l⟩, ?_, hfull.le, ?_, ?_, h.allocated⟩
  · rw [Vector.constructCopy, hcopy]
    rfl
  · rw [Vector.elements_mk, h.length_eq, hfull]
  · rw [Vector.elements_mk, ← h.length_eq, List.take_length]

/-- An assignment of a vector without spare elements. -/
theorem assign (h : v.Holds T l) (hfull : v.mySize = v.myCapacity) :
    ∃ w, v.assign T = some w ∧ w.Holds T l :=
  h.constructCopy hfull

/-- An assignment to itself of a vector without elements. -/
theorem assignSelf (h : v.Holds T l) (hsize : v.mySize = 0) (hcapacity : v.myCapacity = 0) :
    ∃ w, v.assignSelf T = some w ∧ w.Holds T l := by
  have hl : l = [] := by
    rw [← h.contents, hsize, List.take_zero]
  rw [Vector.assignSelf, hsize, hcapacity, hl]
  refine ⟨_, rfl, le_rfl, Nat.zero_le _, rfl, T.fits_zero⟩

/-- `reserve` moves what fits into a new buffer. It changes the capacity, never the size. -/
theorem reserve_eq (h : v.Holds T l) {capacity : Nat} (hfits : T.fits capacity) :
    v.reserve T capacity =
      some ⟨v.mySize, capacity, some
        (l.take capacity ++ List.replicate (capacity - l.length) none)⟩ := by
  have hreset : (if v.buffer.isNone then { v with mySize := 0, myCapacity := 0 } else v) = v := by
    split
    case isTrue hnull =>
      obtain ⟨hsize, hcap⟩ := h.size_eq_zero (Option.isNone_iff_eq_none.mp hnull)
      cases v
      simp_all
    case isFalse => rfl
  have hsize := h.size_le
  have hcap := h.capacity_le
  have hlen : (newElements T capacity : List (Option α)).length = capacity := by
    rw [newElements_of_fits hfits, List.length_replicate]
  have hmin : (if capacity < v.mySize then capacity else v.mySize) = min capacity v.mySize := by
    rw [min_def]
    split_ifs <;> omega
  have hcopy := @copyLoop_from_start α v.elements (newElements T capacity) (min capacity v.mySize)
    (by omega) (by omega)
  have htake : v.elements.take (min capacity v.mySize) = l.take capacity := by
    rw [← h.contents, List.take_take]
  have hdrop : (newElements T capacity : List (Option α)).drop (min capacity v.mySize) =
      List.replicate (capacity - l.length) none := by
    rw [newElements_of_fits hfits, List.drop_replicate, h.length_eq]
    congr 1
    omega
  rw [htake, hdrop] at hcopy
  rw [Vector.reserve, hreset, hmin, hcopy]
  rfl

/-- `reserve` that keeps all elements. -/
theorem reserve (h : v.Holds T l) {capacity : Nat} (hfits : T.fits capacity)
    (hkeeps : v.mySize ≤ capacity) :
    ∃ w, v.reserve T capacity = some w ∧ w.Holds T l ∧ w.mySize = v.mySize ∧
      w.myCapacity = capacity := by
  have hlen := h.length_eq
  refine ⟨_, h.reserve_eq hfits, ⟨hkeeps, ?_, ?_, hfits⟩, rfl, rfl⟩
  · simp only [Vector.elements_mk, List.length_append, List.length_take,
      List.length_replicate]
    omega
  · rw [Vector.elements_mk, List.take_of_length_le (show l.length ≤ capacity by omega),
      ← hlen, List.take_left]

theorem resize (h : v.Holds T l) {size : Nat} (hfits : T.fits size) :
    ∃ w, v.resize T size = some w ∧
      w.Holds T (l.take size ++ List.replicate (size - l.length) none) := by
  have hlen : (l.take size ++ List.replicate (size - l.length) none).length = size := by
    rw [List.length_append, List.length_take, List.length_replicate]
    omega
  refine ⟨_, by rw [Vector.resize, h.reserve_eq hfits]; rfl, le_rfl, ?_, ?_, hfits⟩
  · exact hlen.ge
  · rw [Vector.elements_mk, List.take_of_length_le hlen.le]

/-- `buffer[my_size++] = v` with an element to spare. -/
theorem append (h : v.Holds T l) (hroom : v.mySize < v.myCapacity) (x : Option α) :
    ∃ w, v.append x = some w ∧ w.Holds T (l ++ [x]) := by
  have hcap := h.capacity_le
  have hword := h.allocated.lt
  have hwrite := writeAt_natCast (show v.mySize < v.elements.length by omega) x
  have hsize : (v.mySize + 1) % 2 ^ 32 = v.mySize + 1 := Nat.mod_eq_of_lt (by omega)
  refine ⟨⟨v.mySize + 1, v.myCapacity, some (v.elements.set v.mySize x)⟩, ?_, hroom, ?_, ?_,
    h.allocated⟩
  · rw [Vector.append, hwrite, hsize]
    rfl
  · rw [Vector.elements_mk, List.length_set]
    exact hcap
  · rw [Vector.elements_mk, take_succ_set (by omega), h.contents]

theorem pushBack (h : v.Holds T l) (hroom : v.mySize < v.myCapacity ∨ T.fits (v.myCapacity + 5))
    (x : α) : ∃ w, v.pushBack T x = some w ∧ w.Holds T (l ++ [some x]) := by
  by_cases hfull : v.myCapacity ≤ v.mySize
  · have hfits : T.fits (v.myCapacity + 5) := hroom.resolve_left (by omega)
    have hsize := h.size_le
    obtain ⟨w, hreserve, hw, hwsize, hwcap⟩ := h.reserve hfits (by omega)
    obtain ⟨w', happend, hw'⟩ := hw.append (by omega) (some x)
    refine ⟨w', ?_, hw'⟩
    rw [Vector.pushBack, if_pos hfull, Nat.mod_eq_of_lt hfits.lt, hreserve]
    exact happend
  · obtain ⟨w, happend, hw⟩ := h.append (by omega) (some x)
    refine ⟨w, ?_, hw⟩
    rw [Vector.pushBack, if_neg hfull]
    exact happend

theorem pushBackOwn (h : v.Holds T l) (hroom : v.mySize < v.myCapacity) {index : Nat}
    (hindex : index < v.mySize) :
    ∃ w, v.pushBackOwn index = some w ∧ w.Holds T (l ++ [l.getD index none]) := by
  obtain ⟨w, happend, hw⟩ := h.append hroom (l.getD index none)
  have hread : readAt v.elements index = some (l.getD index none) := by
    have hlt : index < l.length := by
      rw [h.length_eq]
      exact hindex
    have hget := h.index_eq hindex
    rw [Vector.index, List.getElem?_eq_getElem hlt] at hget
    rw [hget, List.getD_eq_getElem _ _ hlt]
  refine ⟨w, ?_, hw⟩
  rw [Vector.pushBackOwn, if_neg (by omega), hread]
  exact happend

theorem popBack (h : v.Holds T l) (hsize : 0 < v.mySize) : v.popBack.Holds T l.dropLast := by
  have hle := h.size_le
  have hword := h.allocated.lt
  have hpop : v.popBack = ⟨v.mySize - 1, v.myCapacity, v.buffer⟩ := by
    rw [Vector.popBack, show v.mySize + (2 ^ 32 - 1) = (v.mySize - 1) + 2 ^ 32 by omega,
      Nat.add_mod_right, Nat.mod_eq_of_lt (by omega)]
  rw [hpop]
  refine ⟨le_trans (Nat.sub_le _ _) hle, h.capacity_le, ?_, h.allocated⟩
  rw [List.dropLast_eq_take, h.length_eq, ← h.contents, List.take_take, min_eq_left (Nat.sub_le _ _)]
  rfl

end Vector.Holds

/-! ### Several vectors and their lists -/

/-- The vectors there are, and the lists that they stand for. -/
structure VectorState (α : Type) where
  vectors : Vectors α
  lists : Lists α

namespace VectorState

/-- No vector yet. -/
def start : VectorState α := { vectors := fun _ => none, lists := fun _ => none }

/-- A call, on the vectors and on the lists. -/
def step (T : ElementType) (s : VectorState α) (call : VectorCall α) : Option (VectorState α) := do
  let vectors ← vectorStep T s.vectors call
  let lists ← listStep s.lists call
  some { vectors := vectors, lists := lists }

/-- The calls that a program may make: on vectors that exist, with `unsigned` arguments, `pop_back` on a
    vector that is not empty, and with a reference to an element that is there. -/
def allowed (s : VectorState α) : VectorCall α → Bool
  | .construct this => (s.vectors this).isNone
  | .constructSize this size => (s.vectors this).isNone && size < 2 ^ 32
  | .constructFilled this size _ => (s.vectors this).isNone && size < 2 ^ 32
  | .constructCopy this v => (s.vectors this).isNone && (s.vectors v).isSome
  | .destroy this => (s.vectors this).isSome
  | .assign this v => (s.vectors this).isSome && (s.vectors v).isSome
  | .pushBack this _ => (s.vectors this).isSome
  | .pushBackOwn this index => (s.vectors this).any fun v => index < v.mySize
  | .popBack this => (s.vectors this).any fun v => 0 < v.mySize
  | .reserve this capacity => (s.vectors this).isSome && capacity < 2 ^ 32
  | .resize this size => (s.vectors this).isSome && size < 2 ^ 32
  | .clear this => (s.vectors this).isSome

/-- The calls that allocate what they record: the request fits an `unsigned`; a vector that is copied
    or assigned has no spare elements, and none at all where it is assigned to itself; `reserve` does
    not go below the size; a push of an own element does not need a new buffer. -/
def keepsBuffers (T : ElementType) (s : VectorState α) : VectorCall α → Bool
  | .construct _ => true
  | .constructSize _ size => T.fits size
  | .constructFilled _ size _ => T.fits size
  | .constructCopy _ v => (s.vectors v).all fun v => v.mySize = v.myCapacity
  | .destroy _ => true
  | .assign this v =>
    (s.vectors v).all fun w => w.mySize = w.myCapacity && (this ≠ v || w.mySize = 0)
  | .pushBack this _ =>
    (s.vectors this).all fun v => v.mySize < v.myCapacity || T.fits (v.myCapacity + 5)
  | .pushBackOwn this _ => (s.vectors this).all fun v => v.mySize < v.myCapacity
  | .popBack _ => true
  | .reserve this capacity => (s.vectors this).all fun v => v.mySize ≤ capacity && T.fits capacity
  | .resize _ size => T.fits size
  | .clear _ => true

/-- Every vector holds its list. -/
def Hold (T : ElementType) (s : VectorState α) : Prop :=
  ∀ this, Option.Rel (Vector.Holds T) (s.vectors this) (s.lists this)

namespace Hold

variable {s : VectorState α}

theorem start : (VectorState.start : VectorState α).Hold T :=
  fun _ => Option.Rel.none

/-- The list of a vector. -/
theorem exists_list (h : s.Hold T) {this : Nat} {v : Vector α} (hv : s.vectors this = some v) :
    ∃ l, s.lists this = some l ∧ v.Holds T l := by
  have hrel := h this
  rw [hv] at hrel
  cases hl : s.lists this with
  | none =>
      rw [hl] at hrel
      cases hrel
  | some l =>
      rw [hl] at hrel
      cases hrel with
      | some hholds => exact ⟨l, rfl, hholds⟩

theorem update (h : s.Hold T) (this : Nat) {v : Option (Vector α)} {l : Option (List (Option α))}
    (hnew : Option.Rel (Vector.Holds T) v l) :
    (⟨Function.update s.vectors this v, Function.update s.lists this l⟩ : VectorState α).Hold T := by
  intro other
  by_cases hother : other = this
  · subst hother
    simp only [Function.update_self]
    exact hnew
  · simp only [Function.update_of_ne hother]
    exact h other

/-- A call on one vector, from what it does to that vector and its list. -/
theorem onVector (h : s.Hold T) {this : Nat} {v : Vector α} (hv : s.vectors this = some v)
    {f : Vector α → Option (Vector α)} {g : List (Option α) → List (Option α)}
    (hf : ∀ l, v.Holds T l → ∃ w, f v = some w ∧ w.Holds T (g l)) :
    ∃ vectors lists, Stdlib.onVector s.vectors this f = some vectors ∧
      onList s.lists this g = some lists ∧ (⟨vectors, lists⟩ : VectorState α).Hold T := by
  obtain ⟨l, hl, hholds⟩ := h.exists_list hv
  obtain ⟨w, hw, hwholds⟩ := hf l hholds
  refine ⟨Function.update s.vectors this (some w), Function.update s.lists this (some (g l)), ?_, ?_,
    h.update this (.some hwholds)⟩
  · simp only [Stdlib.onVector, hv, hw, Option.bind_eq_bind, Option.bind_some]
  · simp only [onList, hl, Option.map_some]

/-- A new vector for the number `this`. -/
theorem step_new (h : s.Hold T) {call : VectorCall α} {this : Nat} {v : Option (Vector α)}
    {l : Option (List (Option α))}
    (hvector : vectorStep T s.vectors call = some (Function.update s.vectors this v))
    (hlist : listStep s.lists call = some (Function.update s.lists this l))
    (hnew : Option.Rel (Vector.Holds T) v l) : ∃ s', s.step T call = some s' ∧ s'.Hold T := by
  refine ⟨_, ?_, h.update this hnew⟩
  simp only [VectorState.step, hvector, hlist, Option.bind_eq_bind, Option.bind_some]

/-- A call on an existing vector. -/
theorem step_on (h : s.Hold T) {call : VectorCall α} {this : Nat} {v : Vector α}
    (hv : s.vectors this = some v) {f : Vector α → Option (Vector α)}
    {g : List (Option α) → List (Option α)}
    (hvector : vectorStep T s.vectors call = Stdlib.onVector s.vectors this f)
    (hlist : listStep s.lists call = onList s.lists this g)
    (hf : ∀ l, v.Holds T l → ∃ w, f v = some w ∧ w.Holds T (g l)) :
    ∃ s', s.step T call = some s' ∧ s'.Hold T := by
  obtain ⟨vectors, lists, hvectors, hlists, hhold⟩ := h.onVector hv hf
  refine ⟨⟨vectors, lists⟩, ?_, hhold⟩
  simp only [VectorState.step, hvector, hlist, hvectors, hlists, Option.bind_eq_bind,
    Option.bind_some]

theorem step_constructCopy (h : s.Hold T) {this v : Nat} {w : Vector α} (hw : s.vectors v = some w)
    (hfull : w.mySize = w.myCapacity) :
    ∃ s', s.step T (.constructCopy this v) = some s' ∧ s'.Hold T := by
  obtain ⟨l, hl, hholds⟩ := h.exists_list hw
  obtain ⟨copy, hcopy, hcopyHolds⟩ := hholds.constructCopy hfull
  have hvector : vectorStep T s.vectors (.constructCopy this v) =
      some (Function.update s.vectors this (some copy)) := by
    simp only [vectorStep, hw, hcopy, Option.bind_eq_bind, Option.bind_some]
  have hlist : listStep s.lists (.constructCopy this v) =
      some (Function.update s.lists this (some l)) := by
    simp only [listStep, hl, Option.map_some]
  exact h.step_new hvector hlist (.some hcopyHolds)

theorem step_assign (h : s.Hold T) {this v : Nat} {x w : Vector α} (hx : s.vectors this = some x)
    (hw : s.vectors v = some w) (hfull : w.mySize = w.myCapacity)
    (hself : this = v → w.mySize = 0) :
    ∃ s', s.step T (.assign this v) = some s' ∧ s'.Hold T := by
  obtain ⟨l, hl, hholds⟩ := h.exists_list hw
  have hlist : listStep s.lists (.assign this v) = onList s.lists this fun _ => l := by
    simp only [listStep, hl, Option.bind_some]
  by_cases hthis : this = v
  · subst hthis
    have hsize := hself rfl
    apply h.step_on hw (by rw [vectorStep, if_pos rfl]) hlist
    intro l' hl'
    obtain ⟨y, hy, hyHolds⟩ := hl'.assignSelf hsize (hfull ▸ hsize)
    have hsame : l = l' := by
      rw [← hholds.contents, hl'.contents]
    exact ⟨y, hy, hsame ▸ hyHolds⟩
  · obtain ⟨y, hy, hyHolds⟩ := hholds.assign hfull
    have hvector : vectorStep T s.vectors (.assign this v) =
        Stdlib.onVector s.vectors this fun _ => w.assign T := by
      rw [vectorStep, if_neg hthis]
      simp only [hw, Option.bind_eq_bind, Option.bind_some]
    exact h.step_on hx hvector hlist fun _ _ => ⟨y, hy, hyHolds⟩

/-- A call that the program may make and that allocates what it records stays within the buffers, and
    does to the vectors what it means for the lists. -/
theorem step (h : s.Hold T) {call : VectorCall α} (hallowed : s.allowed call = true)
    (hkeeps : s.keepsBuffers T call = true) : ∃ s', s.step T call = some s' ∧ s'.Hold T := by
  cases call with
  | construct this => exact h.step_new rfl rfl (.some (Vector.Holds.empty T))
  | constructSize this size =>
      have hfits : T.fits size := of_decide_eq_true hkeeps
      exact h.step_new rfl rfl (.some (Vector.Holds.constructSize hfits))
  | constructFilled this size initial =>
      have hfits : T.fits size := of_decide_eq_true hkeeps
      obtain ⟨w, hw, hwholds⟩ := Vector.Holds.constructFilled hfits initial
      refine h.step_new ?_ rfl (.some hwholds)
      simp only [vectorStep, hw, Option.bind_eq_bind, Option.bind_some]
  | constructCopy this v =>
      simp only [allowed, Bool.and_eq_true] at hallowed
      obtain ⟨w, hw⟩ := Option.isSome_iff_exists.mp hallowed.2
      simp only [keepsBuffers, hw, Option.all_some, decide_eq_true_eq] at hkeeps
      exact h.step_constructCopy hw hkeeps
  | destroy this => exact h.step_new rfl rfl .none
  | assign this v =>
      simp only [allowed, Bool.and_eq_true] at hallowed
      obtain ⟨x, hx⟩ := Option.isSome_iff_exists.mp hallowed.1
      obtain ⟨w, hw⟩ := Option.isSome_iff_exists.mp hallowed.2
      simp only [keepsBuffers, hw, Option.all_some, Bool.and_eq_true, Bool.or_eq_true,
        decide_eq_true_eq] at hkeeps
      exact h.step_assign hx hw hkeeps.1 fun hthis => hkeeps.2.resolve_left fun hne => hne hthis
  | pushBack this element =>
      obtain ⟨v, hv⟩ := Option.isSome_iff_exists.mp hallowed
      simp only [keepsBuffers, hv, Option.all_some, Bool.or_eq_true, decide_eq_true_eq] at hkeeps
      exact h.step_on hv rfl rfl fun l hl => hl.pushBack hkeeps element
  | pushBackOwn this index =>
      simp only [allowed, Option.any_eq_true, decide_eq_true_eq] at hallowed
      obtain ⟨v, hv, hindex⟩ := hallowed
      simp only [keepsBuffers, hv, Option.all_some, decide_eq_true_eq] at hkeeps
      exact h.step_on hv rfl rfl fun l hl => hl.pushBackOwn hkeeps hindex
  | popBack this =>
      simp only [allowed, Option.any_eq_true, decide_eq_true_eq] at hallowed
      obtain ⟨v, hv, hsize⟩ := hallowed
      exact h.step_on hv rfl rfl fun l hl => ⟨_, rfl, hl.popBack hsize⟩
  | reserve this capacity =>
      simp only [allowed, Bool.and_eq_true] at hallowed
      obtain ⟨v, hv⟩ := Option.isSome_iff_exists.mp hallowed.1
      simp only [keepsBuffers, hv, Option.all_some, Bool.and_eq_true, decide_eq_true_eq] at hkeeps
      apply h.step_on hv rfl rfl
      intro l hl
      obtain ⟨w, hw, hwholds, -, -⟩ := hl.reserve hkeeps.2 hkeeps.1
      rw [List.take_of_length_le (by rw [hl.length_eq]; exact hkeeps.1)]
      exact ⟨w, hw, hwholds⟩
  | resize this size =>
      simp only [allowed, Bool.and_eq_true] at hallowed
      obtain ⟨v, hv⟩ := Option.isSome_iff_exists.mp hallowed.1
      have hfits : T.fits size := of_decide_eq_true hkeeps
      exact h.step_on hv rfl rfl fun l hl => hl.resize hfits
  | clear this =>
      obtain ⟨v, hv⟩ := Option.isSome_iff_exists.mp hallowed
      exact h.step_on hv rfl rfl fun l _ => ⟨_, rfl, Vector.Holds.empty T⟩

end Hold

/-- Every vector is within its buffer and is the list that it stands for, element by element and in a
    loop over it. -/
def Right (s : VectorState α) : Prop :=
  ∀ this v, s.vectors this = some v → ∃ l, s.lists this = some l ∧
    v.mySize ≤ v.myCapacity ∧ v.myCapacity ≤ v.elements.length ∧ v.elements.take v.mySize = l ∧
    (∀ i < v.mySize, v.index i = some (l.getD i none)) ∧ v.iterate = some l

theorem Hold.right {s : VectorState α} (h : s.Hold T) : s.Right := by
  intro this v hv
  obtain ⟨l, hl, hholds⟩ := h.exists_list hv
  refine ⟨l, hl, hholds.size_le, hholds.capacity_le, hholds.contents, ?_, hholds.iterate_eq⟩
  intro i hi
  have hlt : i < l.length := by
    rw [hholds.length_eq]
    exact hi
  rw [hholds.index_eq hi, List.getElem?_eq_getElem hlt, List.getD_eq_getElem _ _ hlt]

end VectorState

/-- In every run of calls that allocate what they record, all vectors are the lists that they stand
    for, and the next such call stays within the buffers too. -/
theorem vectors_hold_lists {s : VectorState α}
    (hrun : RunWhere (VectorState.step T) (fun s call => s.allowed call && s.keepsBuffers T call)
      VectorState.start s) :
    s.Right ∧ ∀ call, s.allowed call = true → s.keepsBuffers T call = true →
      (s.step T call).isSome = true := by
  have hhold : s.Hold T := by
    apply hrun.invariant VectorState.Hold.start
    intro s call s' hs hmeets hstep
    rw [Bool.and_eq_true] at hmeets
    obtain ⟨s₁, hs₁, hhold₁⟩ := hs.step hmeets.1 hmeets.2
    rw [hs₁] at hstep
    cases hstep
    exact hhold₁
  constructor
  · exact hhold.right
  · intro call hallowed hkeeps
    obtain ⟨s', hs', -⟩ := hhold.step hallowed hkeeps
    rw [hs']
    rfl

/-- Two elements are pushed, and the vector is copied once it was shrunk to its size. -/
theorem vectors_hold_lists_copy :
    ∃ s : VectorState Nat, ((s.vectors 1).any fun v => v.mySize = 2 && v.myCapacity = 2) = true ∧
      s.Right ∧ ∀ call, s.allowed call = true → s.keepsBuffers pointerType call = true →
        (s.step pointerType call).isSome = true := by
  obtain ⟨s, hrun, hcopied⟩ : ∃ s : VectorState Nat, RunWhere (VectorState.step pointerType)
      (fun s call => s.allowed call && s.keepsBuffers pointerType call) VectorState.start s ∧
      ((s.vectors 1).any fun v => v.mySize = 2 && v.myCapacity = 2) = true :=
    RunWhere.exists_of_replay
      [.construct 0, .pushBack 0 7, .pushBack 0 8, .reserve 0 2, .constructCopy 1 0] (by decide +kernel)
  exact ⟨s, hcopied, vectors_hold_lists hrun⟩

/-- A copy of a vector with spare elements records a capacity that its buffer does not have: not every
    run of calls that a program may make keeps the vectors within their buffers. -/
theorem vectors_leave_buffers :
    ¬ ∀ (T : ElementType) (s : VectorState Nat),
      RunWhere (VectorState.step T) VectorState.allowed VectorState.start s → s.Right := by
  intro h
  obtain ⟨s, hrun, hlost⟩ : ∃ s : VectorState Nat,
      RunWhere (VectorState.step pointerType) VectorState.allowed VectorState.start s ∧
      ((s.vectors 1).any fun v => v.elements.length < v.myCapacity) = true :=
    RunWhere.exists_of_replay [.construct 0, .pushBack 0 7, .constructCopy 1 0] (by decide +kernel)
  obtain ⟨v, hv, hlt⟩ := (Option.any_eq_true _ _).mp hlost
  obtain ⟨-, -, -, hcapacity, -⟩ := h pointerType s hrun 1 v hv
  have hlt : v.elements.length < v.myCapacity := of_decide_eq_true hlt
  exact absurd hcapacity (Nat.not_le_of_lt hlt)

end Rpi4Kernel.Stdlib
