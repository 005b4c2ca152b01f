/-
Module: Rpi4Kernel.Sched.Circles
Layer: Sched
Purpose: The circles on their way to the screen: `kernelTask` (`Task.cpp`) allocates a circle and
  hands it to `paintCircle` (`FrameBuffer.cpp`), which appends it to `circles`; `screenTask` takes the
  first one off, draws it and deletes it. Any number of tasks of both kinds run in any order; what
  keeps them apart is `fb_lock`, taken and freed step by step as in `Rpi4Kernel.Sched.Locking`.
Trusted boundary: `circles` is an unbounded sequence, and each call of it or of the allocator is one
  step. Allocations are numbered, so a circle is known by a number that is not used again. The sleeps
  of the two tasks and the masking of interrupts hold nothing back. `added`, `taken`, `deleted` and
  `faulted` are read by no step: they record what has happened.
Main exports: Circle, DrawPoint, DrawState, DrawEvent, drawStep, DrawState.Starting
-/
import Rpi4Kernel.Sched.Locking

namespace Rpi4Kernel.Sched

variable {α : Type} [DecidableEq α]

/-- `Circle`. -/
structure Circle where
  radius : Nat
  x : Nat
  y : Nat
  attr : Nat
  fill : Nat
deriving DecidableEq, Repr

/-- The number of an allocation. -/
abbrev CircleId := Nat

/-- What a task does next, or once it is back from a call on `fb_lock`. -/
inductive DrawPoint where
  /-- `kernelTask`: `GlobalKernelAlloc::alloc(sizeof(Circle))`, after the sleeps. -/
  | kernelAlloc
  /-- `kernelTask`: the stores to `*paintMe`. -/
  | kernelFill (paintMe : CircleId)
  /-- `paintCircle`: `fb_lock->get()`. -/
  | paintGet (c : CircleId)
  /-- `paintCircle`: `circles->add(c)`. -/
  | paintAdd (c : CircleId)
  /-- `paintCircle`: `fb_lock->free()`. -/
  | paintFree
  /-- `screenTask`: `fb_lock->get()`. -/
  | screenGet
  /-- `screenTask`: `circles->getSize() > 0`. -/
  | screenSize
  /-- `screenTask`: `drawMe = *circles->get(0)`. -/
  | screenRead
  /-- `screenTask`: `circles->remove(0)`. -/
  | screenRemove (drawMe : CircleId)
  /-- `screenTask`: the loads from `*drawMe` for `drawCircle`. -/
  | screenDraw (drawMe : CircleId)
  /-- `screenTask`: `delete drawMe`. -/
  | screenDelete (drawMe : CircleId)
  /-- `screenTask`: `fb_lock->free()` after a circle was drawn. -/
  | screenFree
  /-- `screenTask`: `fb_lock->free()` in the other branch. -/
  | screenFreeEmpty
deriving DecidableEq, Repr

/-- The tasks, the lock and the circles. -/
structure DrawState (α : Type) where
  fbLock : LockState α
  place : α → DrawPoint
  circles : List CircleId
  /-- The circles in memory: allocated and not deleted since. -/
  heap : CircleId → Option Circle
  allocations : Nat
  screen : List Circle
  added : List CircleId
  /-- The circles as they were removed, each by the task that had read it. -/
  taken : List CircleId
  deleted : List CircleId
  /-- A circle that is not in memory was written, read or deleted, or the first element of the empty
      list was read. -/
  faulted : Bool

/-- What can happen next. `exclusive` and `current` are for the steps of `fb_lock`; `circle` is what
    the memory holds at an allocation, and what `kernelTask` computes from the system timer and its
    core when it fills a circle. -/
inductive DrawEvent (α : Type) where
  | task (agent : α) (exclusive : Bool) (current : α) (circle : Circle)
  | wakeUp (agent : α)
deriving DecidableEq, Repr

namespace DrawState

/-- The system with task `a` at `place`. -/
def setPlace (s : DrawState α) (a : α) (place : DrawPoint) : DrawState α :=
  { s with place := Function.update s.place a place }

/-- A call on `fb_lock` that returns to `place`. -/
def callLock (pid : α → Nat) (s : DrawState α) (a : α) (call : LockCall) (place : DrawPoint) :
    Option (DrawState α) :=
  (lockStep pid s.fbLock (.call a call)).map fun fbLock => { s.setPlace a place with fbLock := fbLock }

/-- The next step of a task that is in no call on `fb_lock`. -/
def work (pid : α → Nat) (s : DrawState α) (a : α) (circle : Circle) : Option (DrawState α) :=
  match s.place a with
  | .kernelAlloc =>
    some { s.setPlace a (.kernelFill s.allocations) with
      heap := Function.update s.heap s.allocations (some circle)
      allocations := s.allocations + 1 }
  | .kernelFill c =>
    some { s.setPlace a (.paintGet c) with
      heap := Function.update s.heap c ((s.heap c).map fun _ => circle)
      faulted := s.faulted || (s.heap c).isNone }
  | .paintGet c => s.callLock pid a .get (.paintAdd c)
  | .paintAdd c =>
    some { s.setPlace a .paintFree with
      circles := s.circles ++ [c]
      added := s.added ++ [c] }
  | .paintFree => s.callLock pid a .free .kernelAlloc
  | .screenGet => s.callLock pid a .get .screenSize
  | .screenSize => some (s.setPlace a (if s.circles.length > 0 then .screenRead else .screenFreeEmpty))
  | .screenRead =>
    match s.circles[0]? with
    | some c => some (s.setPlace a (.screenRemove c))
    | none => some { s with faulted := true }
  | .screenRemove c =>
    some { s.setPlace a (.screenDraw c) with
      circles := s.circles.eraseIdx 0
      taken := s.taken ++ [c] }
  | .screenDraw c =>
    some { s.setPlace a (.screenDelete c) with
      screen := s.screen ++ (s.heap c).toList
      faulted := s.faulted || (s.heap c).isNone }
  | .screenDelete c =>
    some { s.setPlace a .screenFree with
      heap := Function.update s.heap c none
      deleted := s.deleted ++ [c]
      faulted := s.faulted || (s.heap c).isNone }
  | .screenFree => s.callLock pid a .free .screenGet
  | .screenFreeEmpty => s.callLock pid a .free .screenGet

/-- Before the first step: the tasks are about to begin, and there are no circles. -/
structure Starting (s : DrawState α) : Prop where
  fbLock : s.fbLock.Fresh
  place : ∀ a, s.place a = .kernelAlloc ∨ s.place a = .screenGet
  circles : s.circles = []
  added : s.added = []
  taken : s.taken = []
  deleted : s.deleted = []
  notFaulted : s.faulted = false

end DrawState

/-- A step of the system. -/
def drawStep (pid : α → Nat) (s : DrawState α) : DrawEvent α → Option (DrawState α)
  | .task a exclusive current circle =>
    if s.fbLock.point a = .outside then s.work pid a circle
    else (lockStep pid s.fbLock (.proceed a exclusive current)).map fun fbLock =>
      { s with fbLock := fbLock }
  | .wakeUp a => (lockStep pid s.fbLock (.wakeUp a)).map fun fbLock => { s with fbLock := fbLock }

end Rpi4Kernel.Sched
