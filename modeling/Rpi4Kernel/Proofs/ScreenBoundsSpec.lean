/-
Module: Rpi4Kernel.Proofs.ScreenBoundsSpec
Layer: Proofs
Purpose: Where the circles of `kernelTask` come to lie on the frame buffer. There are enough rows for
  all of them, but the centre may be so close to the left or right border that a circle leaves its
  rows; and the offset of a pixel is an `int`, which bounds the pitch.
Trusted boundary: none (fully proved)
Main exports: OnScreen, pixelOffset_eq, offset_in_row_iff, circle_onScreen_iff,
  screenTask_onScreen_iff
-/
import Rpi4Kernel.Proofs.DrawCircleSpec

namespace Rpi4Kernel.Graphics

variable {x0 y0 x y r px py : ℤ} {attr : BitVec 8} {fill : ℤ} {pitch : BitVec 32} {pixel : Pixel}

/-- A pixel lies in the frame buffer, and its four bytes lie in its row. -/
structure OnScreen (pitch : BitVec 32) (pixel : Pixel) : Prop where
  column : 0 ≤ pixel.x ∧ pixel.x < fbWidth
  row : 0 ≤ pixel.y ∧ pixel.y < fbHeight
  offset : pixel.y * pitch.toNat ≤ pixelOffset pitch pixel ∧
    pixelOffset pitch pixel + 4 ≤ (pixel.y + 1) * pitch.toNat

/-! ### Offsets -/

/-- The offset is the sum, taken into the range of an `int`. -/
theorem pixelOffset_eq (pitch : BitVec 32) (pixel : Pixel) :
    pixelOffset pitch pixel = (pixel.y * pitch.toNat + pixel.x * 4).bmod (2 ^ 32) := by
  have hpitch : pitch = BitVec.ofInt 32 pitch.toNat := by
    rw [BitVec.ofInt_natCast, BitVec.ofNat_toNat, BitVec.setWidth_eq]
  rw [pixelOffset]
  conv_lhs => rw [hpitch]
  rw [← BitVec.ofInt_mul, ← BitVec.ofInt_add, BitVec.toInt_ofInt]

/-- The offset belongs to the row as long as it does not overflow. -/
theorem offset_in_row_iff (hrow : 0 ≤ pixel.y) (hcolumn : 0 ≤ pixel.x ∧ pixel.x < fbWidth)
    (hpitch : 7680 ≤ pitch.toNat) :
    (pixel.y * pitch.toNat ≤ pixelOffset pitch pixel ∧
      pixelOffset pitch pixel + 4 ≤ (pixel.y + 1) * pitch.toNat) ↔
        pixel.y * pitch.toNat + pixel.x * 4 < 2 ^ 31 := by
  have start : 0 ≤ pixel.y * (pitch.toNat : ℤ) := by positivity
  have stop : (pixel.y + 1) * (pitch.toNat : ℤ) = pixel.y * pitch.toNat + pitch.toNat := by ring
  have hlt := pitch.isLt
  have hwidth : (fbWidth : ℤ) = 1920 := rfl
  rw [pixelOffset_eq, stop]
  generalize pixel.y * (pitch.toNat : ℤ) = first at start ⊢
  rw [Int.bmod_def]
  omega

/-! ### Circles -/

/-- Whatever is drawn is at most `r` away from the centre in both directions, and in the lowest row
    only the column of the centre is reached. -/
theorem in_disc_bounds (hr : 0 ≤ r) (disc : (px - x0) * (px - x0) + (py - y0) * (py - y0) ≤ r * r) :
    x0 - r ≤ px ∧ px ≤ x0 + r ∧ y0 - r ≤ py ∧ py ≤ y0 + r ∧ (py = y0 + r → px = x0) := by
  have hx := abs_le.mp (abs_le_of_sq_le_sq (by nlinarith : (px - x0) ^ 2 ≤ r ^ 2) hr)
  have hy := abs_le.mp (abs_le_of_sq_le_sq (by nlinarith : (py - y0) ^ 2 ≤ r ^ 2) hr)
  refine ⟨by omega, by omega, by omega, by omega, ?_⟩
  rintro rfl
  have : (px - x0) * (px - x0) ≤ 0 := by linarith [add_sub_cancel_left y0 r]
  nlinarith

/-- The first pass reaches the leftmost, the rightmost and the lowest point. -/
theorem PassesFrom.extremes {passes : List CirclePass}
    (h : PassesFrom r x0 y0 attr fill ⟨r, 0, 0⟩ passes) (hr : 0 ≤ r) (hfill : fill ≠ 0) :
    DrawnAt (passes.flatMap CirclePass.pixels) (x0 - r) y0 ∧
      DrawnAt (passes.flatMap CirclePass.pixels) (x0 + r) y0 ∧
      DrawnAt (passes.flatMap CirclePass.pixels) x0 (y0 + r) := by
  obtain ⟨pass, hpass, visits⟩ := h.covered r hr le_rfl
  obtain ⟨hy, hxy, hle, inside, _⟩ := h.each pass hpass
  dsimp only at hy hle
  have hx : pass.x = r := by omega
  have hzero : pass.y = 0 := by
    rw [hx] at inside
    nlinarith
  have draws := (h.drawnAt hpass).2 hfill
  rw [hx, hzero] at draws
  simp only [drawnAt_flatMap]
  refine ⟨⟨pass, hpass, draws _ _ ?_⟩, ⟨pass, hpass, draws _ _ ?_⟩, ⟨pass, hpass, draws _ _ ?_⟩⟩
  · exact .inr ⟨.inl (add_zero _).symm, le_rfl, by omega⟩
  · exact .inr ⟨.inl (add_zero _).symm, by omega, le_rfl⟩
  · exact .inl ⟨.inl rfl, by omega, by omega⟩

/-- A small filled circle with enough rows above and below it is drawn on the screen exactly when it has
    enough columns to both sides, and the offset of its lowest point does not overflow. -/
theorem circle_onScreen_iff (attr : BitVec 8) (hfill : fill ≠ 0) (hr : 0 ≤ r ∧ r ≤ 1919)
    (hrows : r ≤ y0 ∧ y0 + r < fbHeight) (hpitch : 7680 ≤ pitch.toNat) :
    ∃ pixels, drawCircle x0 y0 r attr fill = some pixels ∧
      ((∀ pixel ∈ pixels, OnScreen pitch pixel) ↔
        r ≤ x0 ∧ x0 + r < fbWidth ∧ (y0 + r) * pitch.toNat + x0 * 4 < 2 ^ 31) := by
  have enough : (r - 0 + 1).toNat < r.toNat + 2 := by omega
  obtain ⟨passes, hpasses, spec⟩ := circlePasses_spec x0 y0 attr fill (CircleInv.start hr.1) enough
  refine ⟨passes.flatMap CirclePass.pixels, by rw [drawCircle, drawCirclePasses, hpasses]; rfl, ?_⟩
  have hwidth : (fbWidth : ℤ) = 1920 := rfl
  constructor
  · intro all
    obtain ⟨⟨left, hleft, hlx, hly⟩, ⟨right, hright, hrx, hry⟩, ⟨low, hlow, hbx, hby⟩⟩ :=
      spec.extremes hr.1 hfill
    have leftmost := (all left hleft).column.1
    have rightmost := (all right hright).column.2
    have lowest := all low hlow
    have fits := (offset_in_row_iff lowest.row.1 lowest.column hpitch).mp lowest.offset
    rw [hbx, hby] at fits
    exact ⟨by omega, by omega, fits⟩
  · rintro ⟨hleft, hright, fits⟩ pixel hmem
    obtain ⟨left, right, top, bottom, lowest⟩ := in_disc_bounds hr.1 (spec.inDisc hmem)
    have column : 0 ≤ pixel.x ∧ pixel.x < fbWidth := by omega
    have row : 0 ≤ pixel.y ∧ pixel.y < fbHeight := by omega
    refine ⟨column, row, (offset_in_row_iff row.1 column hpitch).mpr ?_⟩
    rcases eq_or_ne pixel.y (y0 + r) with last | above
    · rw [last, lowest last]
      exact fits
    · -- a row further up makes up for the columns to the right
      have earlier : pixel.y * (pitch.toNat : ℤ) ≤ (y0 + r - 1) * pitch.toNat :=
        mul_le_mul_of_nonneg_right (by omega) (Int.natCast_nonneg _)
      have hpitch' : (7680 : ℤ) ≤ pitch.toNat := by exact_mod_cast hpitch
      linarith

/-! ### The tasks -/

/-- The circles of `kernelTask` on the screen, for any values of `Std::hash`: `hash % 1920` is the
    column of the centre, `hash % 1080 + 32` its row, and `hash % 10 + 3` the radius. -/
theorem screenTask_onScreen_iff (core drawingCore : Fin 4) (hashX hashY hashRadius pitch : BitVec 32)
    (hpitch : 7680 ≤ pitch.toNat) :
    ∃ pixels, screenTaskPixels drawingCore (kernelTaskCircle core hashX hashY hashRadius) =
      some pixels ∧ ((∀ pixel ∈ pixels, OnScreen pitch pixel) ↔
        hashRadius.toNat % 10 + 3 ≤ hashX.toNat % 1920 ∧
          hashX.toNat % 1920 + (hashRadius.toNat % 10 + 3) < 1920 ∧
          (hashY.toNat % 1080 + 32 + (hashRadius.toNat % 10 + 3)) * pitch.toNat +
            hashX.toNat % 1920 * 4 <
            2 ^ 31) := by
  have hradius : (hashRadius % 10 + 3).toNat = hashRadius.toNat % 10 + 3 := by
    have ten : (10 : BitVec 32).toNat = 10 := rfl
    have three : (3 : BitVec 32).toNat = 3 := rfl
    rw [BitVec.toNat_add, BitVec.toNat_umod, ten, three]
    exact Nat.mod_eq_of_lt (by omega)
  have hx : (hashX % 1920).toNat = hashX.toNat % 1920 := BitVec.toNat_umod
  have hy : (hashY % 1080 + 32).toNat = hashY.toNat % 1080 + 32 := by
    have rows : (1080 : BitVec 32).toNat = 1080 := rfl
    have margin : (32 : BitVec 32).toNat = 32 := rfl
    rw [BitVec.toNat_add, BitVec.toNat_umod, rows, margin]
    exact Nat.mod_eq_of_lt (by omega)
  have hheight : (fbHeight : ℤ) = 1280 := rfl
  have hwidth : (fbWidth : ℤ) = 1920 := rfl
  rw [screenTaskPixels, kernelTaskCircle, hradius, hx, hy]
  obtain ⟨pixels, drawn, onScreen⟩ := circle_onScreen_iff (getCoreColor drawingCore)
    (by decide : ((1 : ℕ) : ℤ) ≠ 0) (by omega)
    (by omega : ((hashRadius.toNat % 10 + 3 : ℕ) : ℤ) ≤ (hashY.toNat % 1080 + 32 : ℕ) ∧ _) hpitch
  refine ⟨pixels, drawn, onScreen.trans ?_⟩
  rw [hwidth]
  norm_cast

/-- A circle in the middle of the screen. -/
theorem screenTask_onScreen_middle :
    ∃ pixels, screenTaskPixels 0 (kernelTaskCircle 1 960 500 7) = some pixels ∧
      ∀ pixel ∈ pixels, OnScreen 7680 pixel := by
  obtain ⟨pixels, drawn, onScreen⟩ := screenTask_onScreen_iff 1 0 960 500 7 7680 (by decide)
  refine ⟨pixels, ?_, onScreen.mpr (by decide)⟩
  exact drawn

/-- A circle around a point in the first column leaves the screen. -/
theorem screenTask_leaves_screen :
    ¬∀ (core drawingCore : Fin 4) (hashX hashY hashRadius pitch : BitVec 32), 7680 ≤ pitch.toNat →
      ∀ pixels, screenTaskPixels drawingCore (kernelTaskCircle core hashX hashY hashRadius) =
        some pixels → ∀ pixel ∈ pixels, OnScreen pitch pixel := by
  intro h
  have outside : (screenTaskPixels 0 (kernelTaskCircle 0 0 0 0)).any
      (fun pixels => pixels.any fun pixel => pixel.x < 0) = true := by decide
  obtain ⟨pixels, drawn, some_left⟩ := (Option.any_eq_true _ _).mp outside
  obtain ⟨pixel, hmem, negative⟩ := List.any_eq_true.mp some_left
  have column := (h 0 0 0 0 0 7680 (by decide) pixels drawn pixel hmem).column.1
  exact absurd column (not_le.mpr (of_decide_eq_true negative))

end Rpi4Kernel.Graphics
