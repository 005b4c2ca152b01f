/-
Module: Rpi4Kernel.Proofs.DrawLineSpec
Layer: Proofs
Purpose: What `drawLine` draws. The decision variable `p` is tied to the signed distance of the
  current pixel from the line by an invariant; a line in the first octant stays within half a pixel of
  the segment, a steeper one climbs by one row per column, and a falling one stays in its first row.
Trusted boundary: none (fully proved)
Main exports: lineLoop_spec, lineDistance, drawLine_octant, drawLine_steep, drawLine_falling,
  drawLine_horizontal, drawLine_follows_iff
-/
import Rpi4Kernel.Graphics.FrameBuffer
import Mathlib.Tactic

namespace Rpi4Kernel.Graphics

variable {x1 y1 x2 y2 dx dy x y p : ℤ} {attr : BitVec 8}

/-! ### The loop -/

/-- The columns from `x1` to `x2 - 1`. -/
def columns (x1 x2 : ℤ) : List ℤ := (List.range (x2 - x1).toNat).map fun i : ℕ => x1 + i

theorem columns_of_le (h : x2 ≤ x1) : columns x1 x2 = [] := by
  rw [columns, Int.toNat_of_nonpos (by omega), List.range_zero, List.map_nil]

theorem columns_of_lt (h : x1 < x2) : columns x1 x2 = x1 :: columns (x1 + 1) x2 := by
  have count : (x2 - x1).toNat = (x2 - (x1 + 1)).toNat + 1 := by omega
  rw [columns, columns, count, List.range_succ_eq_map, List.map_cons, List.map_map]
  congr 1
  · exact add_zero x1
  · apply List.map_congr_left
    intro i _
    rw [Function.comp_apply, Nat.cast_succ]
    ring

theorem mem_columns : x ∈ columns x1 x2 ↔ x1 ≤ x ∧ x < x2 := by
  rw [columns, List.mem_map]
  constructor
  · rintro ⟨i, hi, rfl⟩
    have := List.mem_range.mp hi
    omega
  · rintro ⟨lower, upper⟩
    exact ⟨(x - x1).toNat, List.mem_range.mpr (by omega), by omega⟩

/-- A pixel in front of those in the columns behind it. -/
theorem pixels_cons {good : Pixel → Prop} {pixel : Pixel} {rest : List Pixel} (more : pixel.x < x2)
    (cols : rest.map Pixel.x = columns (pixel.x + 1) x2) (first : good pixel)
    (each : ∀ q ∈ rest, good q) :
    (pixel :: rest).map Pixel.x = columns pixel.x x2 ∧ ∀ q ∈ pixel :: rest, good q := by
  constructor
  · rw [columns_of_lt more, ← cols, List.map_cons]
  · exact List.forall_mem_cons.mpr ⟨first, each⟩

/-- The rule for the loop: what holds at its start and is kept by both branches holds at every pixel.
    One pixel is drawn in each column. -/
theorem lineLoop_spec (inv : ℤ → ℤ → ℤ → Prop)
    (climb : ∀ x y p, inv x y p → 0 ≤ p → inv (x + 1) (y + 1) (p + 2 * dy - 2 * dx))
    (stay : ∀ x y p, inv x y p → p < 0 → inv (x + 1) y (p + 2 * dy)) {fuel : ℕ}
    (enough : (x2 - x).toNat < fuel) (start : inv x y p) :
    ∃ pixels, lineLoop x2 dx dy attr fuel x y p = some pixels ∧
      pixels.map Pixel.x = columns x x2 ∧
      ∀ pixel ∈ pixels, pixel.attr = attr ∧ ∃ p, inv pixel.x pixel.y p := by
  induction fuel generalizing x y p with
  | zero => exact absurd enough (Nat.not_lt_zero _)
  | succ fuel ih =>
    rw [lineLoop]
    split
    case isFalse done => exact ⟨[], rfl, (columns_of_le (not_lt.mp done)).symm, by simp⟩
    case isTrue more =>
      have fewer : (x2 - (x + 1)).toNat < fuel := by omega
      split
      case isTrue up =>
        obtain ⟨rest, hrest, cols, each⟩ := ih fewer (climb x y p start up)
        exact ⟨⟨x, y, attr⟩ :: rest, by rw [hrest]; rfl, pixels_cons more cols ⟨rfl, p, start⟩ each⟩
      case isFalse flat =>
        obtain ⟨rest, hrest, cols, each⟩ := ih fewer (stay x y p start (not_le.mp flat))
        exact ⟨⟨x, y, attr⟩ :: rest, by rw [hrest]; rfl, pixels_cons more cols ⟨rfl, p, start⟩ each⟩

/-- The same for the whole of `drawLine`. -/
theorem drawLine_spec (x1 y1 x2 y2 : ℤ) (attr : BitVec 8) (inv : ℤ → ℤ → ℤ → Prop)
    (climb : ∀ x y p, inv x y p → 0 ≤ p → inv (x + 1) (y + 1) (p + 2 * (y2 - y1) - 2 * (x2 - x1)))
    (stay : ∀ x y p, inv x y p → p < 0 → inv (x + 1) y (p + 2 * (y2 - y1)))
    (start : inv x1 y1 (2 * (y2 - y1) - (x2 - x1))) :
    ∃ pixels, drawLine x1 y1 x2 y2 attr = some pixels ∧ pixels.map Pixel.x = columns x1 x2 ∧
      ∀ pixel ∈ pixels, pixel.attr = attr ∧ ∃ p, inv pixel.x pixel.y p :=
  lineLoop_spec inv climb stay (Nat.lt_succ_self _) start

/-- Columns that are drawn have a pixel. -/
theorem exists_pixel_of_columns {pixels : List Pixel} (cols : pixels.map Pixel.x = columns x1 x2)
    (lower : x1 ≤ x) (upper : x < x2) : ∃ pixel ∈ pixels, pixel.x = x := by
  have hx : x ∈ pixels.map Pixel.x := cols ▸ mem_columns.mpr ⟨lower, upper⟩
  exact List.mem_map.mp hx

theorem column_of_mem {pixels : List Pixel} (cols : pixels.map Pixel.x = columns x1 x2) {pixel : Pixel}
    (h : pixel ∈ pixels) : x1 ≤ pixel.x ∧ pixel.x < x2 := by
  have hx : pixel.x ∈ columns x1 x2 := cols ▸ List.mem_map_of_mem h
  exact mem_columns.mp hx

/-! ### The distance from the segment -/

/-- `2 * (y - y1) * (x2 - x1) - 2 * (x - x1) * (y2 - y1)`: twice the distance of a pixel from the line
    through the end points, measured along the column, in units of `1 / (x2 - x1)`. -/
def lineDistance (x1 y1 x2 y2 : ℤ) (pixel : Pixel) : ℤ :=
  2 * (pixel.y - y1) * (x2 - x1) - 2 * (pixel.x - x1) * (y2 - y1)

/-- A pixel is within half a pixel of the segment. -/
def OnLine (x1 y1 x2 y2 : ℤ) (pixel : Pixel) : Prop := |lineDistance x1 y1 x2 y2 pixel| ≤ x2 - x1

instance (x1 y1 x2 y2 : ℤ) (pixel : Pixel) : Decidable (OnLine x1 y1 x2 y2 pixel) :=
  inferInstanceAs (Decidable (_ ≤ _))

theorem lineDistance_start : lineDistance x1 y1 x2 y2 ⟨x1, y1, attr⟩ = 0 := by
  simp only [lineDistance]
  ring

theorem lineDistance_climb : lineDistance x1 y1 x2 y2 ⟨x + 1, y + 1, attr⟩ =
    lineDistance x1 y1 x2 y2 ⟨x, y, attr⟩ + 2 * (x2 - x1) - 2 * (y2 - y1) := by
  simp only [lineDistance]
  ring

theorem lineDistance_stay : lineDistance x1 y1 x2 y2 ⟨x + 1, y, attr⟩ =
    lineDistance x1 y1 x2 y2 ⟨x, y, attr⟩ - 2 * (y2 - y1) := by
  simp only [lineDistance]
  ring

/-- `p` and the current pixel: the difference decides which of the two next pixels is nearer to the
    line. -/
structure OctantInv (x1 y1 x2 y2 x y p : ℤ) : Prop where
  decision : p = 2 * (y2 - y1) - (x2 - x1) - lineDistance x1 y1 x2 y2 ⟨x, y, 0⟩
  near : OnLine x1 y1 x2 y2 ⟨x, y, 0⟩

theorem OctantInv.climb (flat : y2 - y1 ≤ x2 - x1) (h : OctantInv x1 y1 x2 y2 x y p) (up : 0 ≤ p) :
    OctantInv x1 y1 x2 y2 (x + 1) (y + 1) (p + 2 * (y2 - y1) - 2 * (x2 - x1)) := by
  obtain ⟨decision, near⟩ := h
  obtain ⟨below, above⟩ := abs_le.mp near
  constructor
  · rw [lineDistance_climb]
    omega
  · rw [OnLine, lineDistance_climb, abs_le]
    omega

theorem OctantInv.stay (rises : 0 ≤ y2 - y1) (h : OctantInv x1 y1 x2 y2 x y p) (down : p < 0) :
    OctantInv x1 y1 x2 y2 (x + 1) y (p + 2 * (y2 - y1)) := by
  obtain ⟨decision, near⟩ := h
  obtain ⟨below, above⟩ := abs_le.mp near
  constructor
  · rw [lineDistance_stay]
    omega
  · rw [OnLine, lineDistance_stay, abs_le]
    omega

/-- In the first octant `p` is the distance of the next pixel in the row from the line, and the line is
    never left by more than half a pixel. -/
theorem drawLine_octant (attr : BitVec 8) (rises : 0 ≤ y2 - y1) (flat : y2 - y1 ≤ x2 - x1) :
    ∃ pixels, drawLine x1 y1 x2 y2 attr = some pixels ∧ pixels.map Pixel.x = columns x1 x2 ∧
      ∀ pixel ∈ pixels, OnLine x1 y1 x2 y2 pixel := by
  have start : OctantInv x1 y1 x2 y2 x1 y1 (2 * (y2 - y1) - (x2 - x1)) := by
    constructor
    · rw [lineDistance_start, sub_zero]
    · rw [OnLine, lineDistance_start, abs_zero]
      omega
  obtain ⟨pixels, drawn, cols, each⟩ := drawLine_spec x1 y1 x2 y2 attr (OctantInv x1 y1 x2 y2)
    (fun _ _ _ h up => h.climb flat up) (fun _ _ _ h down => h.stay rises down) start
  refine ⟨pixels, drawn, cols, fun pixel hmem => ?_⟩
  obtain ⟨_, p, inv⟩ := each pixel hmem
  exact inv.near

/-- A line steeper than the diagonal is drawn along the diagonal. -/
theorem drawLine_steep (attr : BitVec 8) (steep : x2 - x1 < y2 - y1) (hx : x1 < x2) :
    ∃ pixels, drawLine x1 y1 x2 y2 attr = some pixels ∧ pixels.map Pixel.x = columns x1 x2 ∧
      ∀ pixel ∈ pixels, pixel.y - y1 = pixel.x - x1 := by
  obtain ⟨pixels, drawn, cols, each⟩ := drawLine_spec x1 y1 x2 y2 attr
    (fun x y p => 0 ≤ p ∧ y - y1 = x - x1)
    (by rintro x y p ⟨hp, diagonal⟩ _; omega)
    (by rintro x y p ⟨hp, diagonal⟩ neg; omega)
    (by omega)
  refine ⟨pixels, drawn, cols, fun pixel hmem => ?_⟩
  obtain ⟨_, p, _, diagonal⟩ := each pixel hmem
  exact diagonal

/-- A line that does not rise is drawn in its first row. -/
theorem drawLine_falling (attr : BitVec 8) (falls : y2 ≤ y1) (hx : x1 < x2) :
    ∃ pixels, drawLine x1 y1 x2 y2 attr = some pixels ∧ pixels.map Pixel.x = columns x1 x2 ∧
      ∀ pixel ∈ pixels, pixel.attr = attr ∧ pixel.y = y1 := by
  obtain ⟨pixels, drawn, cols, each⟩ := drawLine_spec x1 y1 x2 y2 attr
    (fun _ y p => p < 0 ∧ y = y1)
    (by rintro x y p ⟨neg, row⟩ hp; omega)
    (by rintro x y p ⟨neg, row⟩ _; omega)
    (by omega)
  refine ⟨pixels, drawn, cols, fun pixel hmem => ?_⟩
  obtain ⟨hattr, p, _, row⟩ := each pixel hmem
  exact ⟨hattr, row⟩

/-- There is a pixel in this column and row. -/
def DrawnAt (pixels : List Pixel) (px py : ℤ) : Prop := ∃ pixel ∈ pixels, pixel.x = px ∧ pixel.y = py

/-- A horizontal line through a point, of the given width to both sides. The right end is left out. -/
theorem drawLine_horizontal (centre row : ℤ) {width : ℤ} (attr : BitVec 8) (hwidth : 0 ≤ width) :
    ∃ pixels, drawLine (centre - width) row (centre + width) row attr = some pixels ∧
      ∀ px py, DrawnAt pixels px py ↔
        py = row ∧ centre - width ≤ px ∧ px < centre + width := by
  rcases hwidth.eq_or_lt with rfl | pos
  · refine ⟨[], by simp [drawLine, lineLoop], fun px py => ?_⟩
    constructor
    · rintro ⟨_, hmem, _⟩
      cases hmem
    · omega
  · obtain ⟨pixels, drawn, cols, each⟩ := drawLine_falling attr (le_refl row)
      (by omega : centre - width < centre + width)
    refine ⟨pixels, drawn, fun px py => ?_⟩
    constructor
    · rintro ⟨pixel, hmem, rfl, rfl⟩
      exact ⟨(each pixel hmem).2, column_of_mem cols hmem⟩
    · rintro ⟨rfl, lower, upper⟩
      obtain ⟨pixel, hmem, hx⟩ := exists_pixel_of_columns cols lower upper
      exact ⟨pixel, hmem, hx, (each pixel hmem).2⟩

/-! ### When the segment is followed -/

/-- A distance that grows by `c` in every column is largest in the last one. -/
theorem forall_columns_iff {m c w : ℤ} (hm : 0 ≤ m) (hc : 0 ≤ c) :
    (∀ k, 0 ≤ k → k ≤ m → 2 * k * c ≤ w) ↔ 2 * m * c ≤ w := by
  constructor
  · intro h
    exact h m hm le_rfl
  · intro h k _ hk
    have : 2 * k * c ≤ 2 * m * c := mul_le_mul_of_nonneg_right (by omega) hc
    exact this.trans h

/-- In the pixels of every column from `x1` to `x2 - 1` the same holds, once it depends on the column
    only. -/
theorem forall_pixels_iff {pixels : List Pixel} {good : Pixel → Prop} (near : ℤ → Prop)
    (cols : pixels.map Pixel.x = columns x1 x2)
    (h : ∀ pixel ∈ pixels, good pixel ↔ near (pixel.x - x1)) :
    (∀ pixel ∈ pixels, good pixel) ↔ ∀ k, 0 ≤ k → k ≤ x2 - x1 - 1 → near k := by
  constructor
  · intro hgood k lower upper
    obtain ⟨pixel, hmem, hx⟩ := exists_pixel_of_columns cols (by omega : x1 ≤ x1 + k) (by omega)
    have hk : pixel.x - x1 = k := by omega
    rw [← hk]
    exact (h pixel hmem).mp (hgood pixel hmem)
  · intro hnear pixel hmem
    obtain ⟨lower, upper⟩ := column_of_mem cols hmem
    exact (h pixel hmem).mpr (hnear _ (by omega) (by omega))

/-- A nonnegative distance to one side of the line. -/
theorem onLine_of_side {pixel : Pixel} {k c : ℤ} (hk : 0 ≤ k) (hc : 0 ≤ c)
    (side : lineDistance x1 y1 x2 y2 pixel = 2 * k * c ∨ lineDistance x1 y1 x2 y2 pixel =
      -(2 * k * c)) :
    OnLine x1 y1 x2 y2 pixel ↔ 2 * k * c ≤ x2 - x1 := by
  have nonneg : 0 ≤ 2 * k * c := by positivity
  rcases side with above | below
  · rw [OnLine, above, abs_of_nonneg nonneg]
  · rw [OnLine, below, abs_neg, abs_of_nonneg nonneg]

/-- Pixels that leave the line to one side, by `c` more in each column. -/
theorem forall_onLine_iff {pixels : List Pixel} {c : ℤ} (cols : pixels.map Pixel.x = columns x1 x2)
    (hx : x1 < x2) (hc : 0 ≤ c)
    (side : ∀ pixel ∈ pixels, lineDistance x1 y1 x2 y2 pixel = 2 * (pixel.x - x1) * c ∨
      lineDistance x1 y1 x2 y2 pixel = -(2 * (pixel.x - x1) * c)) :
    (∀ pixel ∈ pixels, OnLine x1 y1 x2 y2 pixel) ↔ 2 * (x2 - x1 - 1) * c ≤ x2 - x1 := by
  rw [forall_pixels_iff (fun k => 2 * k * c ≤ x2 - x1) cols, forall_columns_iff (by omega) hc]
  intro pixel hmem
  obtain ⟨lower, _⟩ := column_of_mem cols hmem
  exact onLine_of_side (by omega) hc (side pixel hmem)

/-- One pixel is drawn in each column from `x1` to `x2 - 1`. All of them are within half a pixel of
    the segment exactly when neither the diagonal, for a steep line, nor the first row, for a falling
    one, has left it by more in the last column. -/
theorem drawLine_follows_iff (x1 y1 x2 y2 : ℤ) (attr : BitVec 8) (hx : x1 < x2) :
    ∃ pixels, drawLine x1 y1 x2 y2 attr = some pixels ∧ pixels.map Pixel.x = columns x1 x2 ∧
      ((∀ pixel ∈ pixels, OnLine x1 y1 x2 y2 pixel) ↔
        2 * (x2 - x1 - 1) * (y2 - y1 - (x2 - x1)) ≤ x2 - x1 ∧
          -(x2 - x1) ≤ 2 * (x2 - x1 - 1) * (y2 - y1)) := by
  have last : 0 ≤ x2 - x1 - 1 := by omega
  rcases lt_or_ge (y2 - y1) 0 with falls | rises
  · obtain ⟨pixels, drawn, cols, each⟩ := drawLine_falling attr (by omega : y2 ≤ y1) hx
    have other : 2 * (x2 - x1 - 1) * (y2 - y1 - (x2 - x1)) ≤ x2 - x1 := by nlinarith
    refine ⟨pixels, drawn, cols, ?_⟩
    have above : ∀ pixel ∈ pixels,
        lineDistance x1 y1 x2 y2 pixel = 2 * (pixel.x - x1) * -(y2 - y1) := by
      intro pixel hmem
      rw [lineDistance, (each pixel hmem).2]
      ring
    rw [forall_onLine_iff cols hx (by omega) fun pixel hmem => .inl (above pixel hmem),
      and_iff_right other, mul_neg, neg_le]
  · rcases le_or_gt (y2 - y1) (x2 - x1) with flat | steep
    · obtain ⟨pixels, drawn, cols, each⟩ := drawLine_octant attr rises flat
      have first : 2 * (x2 - x1 - 1) * (y2 - y1 - (x2 - x1)) ≤ x2 - x1 := by nlinarith
      have second : -(x2 - x1) ≤ 2 * (x2 - x1 - 1) * (y2 - y1) := by nlinarith
      exact ⟨pixels, drawn, cols, iff_of_true each ⟨first, second⟩⟩
    · obtain ⟨pixels, drawn, cols, each⟩ := drawLine_steep attr steep hx
      have other : -(x2 - x1) ≤ 2 * (x2 - x1 - 1) * (y2 - y1) := by nlinarith
      refine ⟨pixels, drawn, cols, ?_⟩
      have below : ∀ pixel ∈ pixels, lineDistance x1 y1 x2 y2 pixel =
          -(2 * (pixel.x - x1) * (y2 - y1 - (x2 - x1))) := by
        intro pixel hmem
        rw [lineDistance, each pixel hmem]
        ring
      rw [forall_onLine_iff cols hx (by omega) fun pixel hmem => .inr (below pixel hmem),
        and_iff_left other]

/-- A line of slope one half. -/
theorem drawLine_follows_half : ∃ pixels, drawLine 0 0 6 3 1 = some pixels ∧
    ∀ pixel ∈ pixels, OnLine 0 0 6 3 pixel := by
  obtain ⟨pixels, drawn, _, follows⟩ := drawLine_follows_iff 0 0 6 3 1 (by decide)
  exact ⟨pixels, drawn, follows.mpr (by decide)⟩

/-- A line that climbs 4 rows in 2 columns is drawn along the diagonal, and is one row too low in its
    second column. -/
theorem drawLine_leaves_steep :
    ¬∀ x1 y1 x2 y2 : ℤ, x1 < x2 → ∀ attr pixels, drawLine x1 y1 x2 y2 attr = some pixels →
      ∀ pixel ∈ pixels, OnLine x1 y1 x2 y2 pixel := by
  intro h
  have near := h 0 0 2 4 (by decide) 1 [⟨0, 0, 1⟩, ⟨1, 1, 1⟩] (by decide) ⟨1, 1, 1⟩ (by decide)
  revert near
  decide

end Rpi4Kernel.Graphics
