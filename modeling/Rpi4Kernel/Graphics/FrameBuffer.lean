/-
Module: Rpi4Kernel.Graphics.FrameBuffer
Layer: Graphics
Purpose: Drawing on the frame buffer (`FrameBuffer.h`, `FrameBuffer.cpp`): pixels, lines and circles,
  and the circles that `kernelTask` makes and `screenTask` draws (`Task.cpp`).
Trusted boundary: a value of type `int` is an integer, as long as it does not overflow; `drawPixel`
  mixes signed and unsigned 32-bit numbers, and is taken with its wrap-around. Drawing is the sequence
  of its pixels. A loop that is still running when its fuel is used up has no value.
Main exports: Pixel, pixelOffset, drawLine, CircleState, CirclePass, circlePasses, drawCircle,
  kernelTaskCircle, screenTaskPixels
-/
import Rpi4Kernel.Sched.Circles
import Mathlib.Data.Int.Notation
import Mathlib.Data.BitVec

namespace Rpi4Kernel.Graphics

/-- A call `drawPixel(x, y, attr)`. -/
structure Pixel where
  x : ℤ
  y : ℤ
  attr : BitVec 8
deriving DecidableEq, Repr

/-- `offs` of `drawPixel`: `y`, `x * 4` and the sum are converted to `unsigned int` on the way. -/
def pixelOffset (pitch : BitVec 32) (pixel : Pixel) : ℤ :=
  (BitVec.ofInt 32 pixel.y * pitch + BitVec.ofInt 32 (pixel.x * 4)).toInt

/-! ### Lines -/

/-- The loop of `drawLine`. -/
def lineLoop (x2 dx dy : ℤ) (attr : BitVec 8) : ℕ → ℤ → ℤ → ℤ → Option (List Pixel)
  | 0, _, _, _ => none
  | fuel + 1, x, y, p =>
    if x < x2 then
      if p ≥ 0 then
        (lineLoop x2 dx dy attr fuel (x + 1) (y + 1) (p + 2 * dy - 2 * dx)).map fun rest =>
          ⟨x, y, attr⟩ :: rest
      else
        (lineLoop x2 dx dy attr fuel (x + 1) y (p + 2 * dy)).map fun rest => ⟨x, y, attr⟩ :: rest
    else some []

/-- `drawLine(x1, y1, x2, y2, attr)`. -/
def drawLine (x1 y1 x2 y2 : ℤ) (attr : BitVec 8) : Option (List Pixel) :=
  let dx := x2 - x1
  let dy := y2 - y1
  lineLoop x2 dx dy attr ((x2 - x1).toNat + 1) x1 y1 (2 * dy - dx)

/-! ### Circles -/

/-- The variables of the loop of `drawCircle`. -/
structure CircleState where
  x : ℤ
  y : ℤ
  err : ℤ
deriving DecidableEq, Repr

namespace CircleState

/-- `if (err <= 0) { y += 1; err += 2 * y + 1; }`. -/
def growY (s : CircleState) : CircleState :=
  if s.err ≤ 0 then { s with y := s.y + 1, err := s.err + (2 * (s.y + 1) + 1) } else s

/-- `if (err > 0) { x -= 1; err -= 2 * x + 1; }`. -/
def shrinkX (s : CircleState) : CircleState :=
  if s.err > 0 then { s with x := s.x - 1, err := s.err - (2 * (s.x - 1) + 1) } else s

/-- The two conditional steps at the end of the loop's body. -/
def next (s : CircleState) : CircleState := s.growY.shrinkX

end CircleState

/-- `(attr & 0xf0) >> 4`. -/
def fillAttr (attr : BitVec 8) : BitVec 8 := (attr &&& 0xf0) >>> 4

/-- The four lines of one pass. -/
def fillLines (x0 y0 x y : ℤ) (attr : BitVec 8) : Option (List Pixel) := do
  let below ← drawLine (x0 - y) (y0 + x) (x0 + y) (y0 + x) (fillAttr attr)
  let belowWide ← drawLine (x0 - x) (y0 + y) (x0 + x) (y0 + y) (fillAttr attr)
  let aboveWide ← drawLine (x0 - x) (y0 - y) (x0 + x) (y0 - y) (fillAttr attr)
  let above ← drawLine (x0 - y) (y0 - x) (x0 + y) (y0 - x) (fillAttr attr)
  return below ++ belowWide ++ aboveWide ++ above

/-- The eight pixels of one pass. -/
def outline (x0 y0 x y : ℤ) (attr : BitVec 8) : List Pixel :=
  [⟨x0 - y, y0 + x, attr⟩, ⟨x0 + y, y0 + x, attr⟩, ⟨x0 - x, y0 + y, attr⟩, ⟨x0 + x, y0 + y, attr⟩,
    ⟨x0 - x, y0 - y, attr⟩, ⟨x0 + x, y0 - y, attr⟩, ⟨x0 - y, y0 - x, attr⟩, ⟨x0 + y, y0 - x, attr⟩]

/-- What one pass draws. -/
def passPixels (x0 y0 x y : ℤ) (attr : BitVec 8) (fill : ℤ) : Option (List Pixel) :=
  if fill ≠ 0 then (fillLines x0 y0 x y attr).map fun lines => lines ++ outline x0 y0 x y attr
  else some (outline x0 y0 x y attr)

/-- A pass of the loop of `drawCircle`: the values of `x` and `y` that it visits, and what it draws. -/
structure CirclePass where
  x : ℤ
  y : ℤ
  pixels : List Pixel
deriving DecidableEq, Repr

/-- The loop of `drawCircle`. -/
def circlePasses (x0 y0 : ℤ) (attr : BitVec 8) (fill : ℤ) : ℕ → CircleState → Option (List CirclePass)
  | 0, _ => none
  | fuel + 1, s =>
    if s.x ≥ s.y then do
      let pixels ← passPixels x0 y0 s.x s.y attr fill
      let rest ← circlePasses x0 y0 attr fill fuel s.next
      return ⟨s.x, s.y, pixels⟩ :: rest
    else some []

/-- `drawCircle(x0, y0, radius, attr, fill)`, pass by pass. -/
def drawCirclePasses (x0 y0 radius : ℤ) (attr : BitVec 8) (fill : ℤ) : Option (List CirclePass) :=
  circlePasses x0 y0 attr fill (radius.toNat + 2) ⟨radius, 0, 0⟩

/-- `drawCircle(x0, y0, radius, attr, fill)`. -/
def drawCircle (x0 y0 radius : ℤ) (attr : BitVec 8) (fill : ℤ) : Option (List Pixel) :=
  (drawCirclePasses x0 y0 radius attr fill).map fun passes => passes.flatMap CirclePass.pixels

/-! ### The tasks -/

/-- `getCoreColor(coreNumber)`. -/
def getCoreColor : Fin 4 → BitVec 8
  | 0 => 0x0F
  | 1 => 0x0C
  | 2 => 0x0B
  | 3 => 0x0D

/-- The circle that `kernelTask` hands to `paintCircle`: the centre and the radius come from three
    calls of `Std::hash`. -/
def kernelTaskCircle (core : Fin 4) (hashX hashY hashRadius : BitVec 32) : Sched.Circle where
  radius := (hashRadius % 10 + 3).toNat
  x := (hashX % 1920).toNat
  y := (hashY % 1080 + 32).toNat
  attr := (getCoreColor core).toNat
  fill := 1

/-- The pixels of the call of `drawCircle` that `screenTask` makes for a circle, on the given core. -/
def screenTaskPixels (core : Fin 4) (drawMe : Sched.Circle) : Option (List Pixel) :=
  drawCircle drawMe.x drawMe.y drawMe.radius (getCoreColor core) drawMe.fill

/-- `mbox[10]`, the columns that `FBInit` requests. -/
def fbWidth : ℕ := 1920

/-- `mbox[11]`, the rows that `FBInit` requests. -/
def fbHeight : ℕ := 1080 + 200

end Rpi4Kernel.Graphics
