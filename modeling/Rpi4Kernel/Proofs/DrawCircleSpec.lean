/-
Module: Rpi4Kernel.Proofs.DrawCircleSpec
Layer: Proofs
Purpose: What `drawCircle` draws. The error term is the exact distance from the circle, and the loop
  visits for each row of an octant the point on the arc; what it fills is, row by row, a span around
  the centre.
Trusted boundary: none (fully proved)
Main exports: CircleInv, CircleInv.next, passPixels_spec, circlePasses_spec, drawCircle_round
-/
import Rpi4Kernel.Proofs.DrawLineSpec

namespace Rpi4Kernel.Graphics

variable {x0 y0 x y r px py : ℤ} {attr : BitVec 8} {fill : ℤ}

/-! ### The loop -/

/-- The state at the head of the loop, for radius `r`. `err` is how far the point is outside the arc,
    and the point to the right of it is outside. -/
structure CircleInv (r : ℤ) (s : CircleState) : Prop where
  y_nonneg : 0 ≤ s.y
  x_ge : -1 ≤ s.x
  err_eq : s.err = s.x * s.x + s.y * s.y + 2 * s.y - r * r
  outside : r * r < (s.x + 1) * (s.x + 1) + s.y * s.y + 2 * s.y
  inside : s.y ≤ s.x → s.err ≤ 0

theorem CircleInv.start (hr : 0 ≤ r) : CircleInv r ⟨r, 0, 0⟩ where
  y_nonneg := le_rfl
  x_ge := (by omega : -1 ≤ r)
  err_eq := by ring
  outside := by nlinarith
  inside := fun _ => le_rfl

/-- A pass moves up by one row, and by one column at most. -/
theorem CircleInv.next {s : CircleState} (h : CircleInv r s) (hxy : s.y ≤ s.x) :
    CircleInv r s.next ∧ s.next.y = s.y + 1 ∧ (s.next.x = s.x ∨ s.next.x = s.x - 1) := by
  obtain ⟨hy, -, herr, hout, hin⟩ := h
  have err_le := hin hxy
  have grown : s.growY = ⟨s.x, s.y + 1, s.err + (2 * (s.y + 1) + 1)⟩ := if_pos err_le
  rw [CircleState.next, grown, CircleState.shrinkX]
  split
  case isTrue beyond =>
    refine ⟨?_, rfl, .inr rfl⟩
    constructor <;> dsimp only at beyond ⊢
    · omega
    · omega
    · rw [herr]
      ring
    · rw [herr] at beyond
      linarith
    · omega
  case isFalse within =>
    refine ⟨?_, rfl, .inl rfl⟩
    constructor <;> dsimp only at within ⊢
    · omega
    · omega
    · rw [herr]
      ring
    · nlinarith
    · omega

/-- The rows of the octant are those where the arc has not crossed the diagonal. -/
theorem CircleInv.octant_iff {s : CircleState} (h : CircleInv r s) :
    s.y ≤ s.x ↔ 2 * s.y * s.y + 2 * s.y ≤ r * r := by
  obtain ⟨hy, hx, herr, hout, hin⟩ := h
  constructor
  · intro hxy
    have err_le := hin hxy
    nlinarith
  · intro hle
    by_contra hlt
    have hx1 : s.x + 1 ≤ s.y := by omega
    nlinarith

/-- A visited point lies inside the circle, and the next one on the diagonal outside. -/
theorem CircleInv.on_arc {s : CircleState} (h : CircleInv r s) (hxy : s.y ≤ s.x) :
    s.x * s.x + s.y * s.y ≤ r * r ∧ r * r < (s.x + 1) * (s.x + 1) + (s.y + 1) * (s.y + 1) := by
  obtain ⟨hy, hx, herr, hout, hin⟩ := h
  have err_le := hin hxy
  constructor
  · linarith
  · linarith

/-- With a radius of at most 16383 no number in the loop overflows an `int`. -/
theorem CircleInv.no_overflow {s : CircleState} (h : CircleInv r s) (hxy : s.y ≤ s.x) (hx : s.x ≤ r)
    (hr : r ≤ 16383) : -32766 ≤ s.err ∧ s.err + (2 * (s.y + 1) + 1) ≤ 32769 := by
  obtain ⟨hy, -, herr, hout, hin⟩ := h
  have err_le := hin hxy
  constructor
  · linarith
  · omega

/-! ### One pass -/

@[simp] theorem drawnAt_nil : ¬DrawnAt [] px py := by
  rintro ⟨_, hmem, _⟩
  cases hmem

@[simp] theorem drawnAt_cons {pixel : Pixel} {pixels : List Pixel} :
    DrawnAt (pixel :: pixels) px py ↔ (pixel.x = px ∧ pixel.y = py) ∨ DrawnAt pixels px py := by
  simp only [DrawnAt, List.exists_mem_cons_iff]

@[simp] theorem drawnAt_append {pixels pixels' : List Pixel} :
    DrawnAt (pixels ++ pixels') px py ↔ DrawnAt pixels px py ∨ DrawnAt pixels' px py := by
  simp only [DrawnAt, List.mem_append, or_and_right, exists_or]

/-- The two pairs of rows that a pass draws in, filled from the left edge to the right one. -/
def InPass (x0 y0 x y px py : ℤ) : Prop :=
  ((py = y0 + x ∨ py = y0 - x) ∧ x0 - y ≤ px ∧ px ≤ x0 + y) ∨
    ((py = y0 + y ∨ py = y0 - y) ∧ x0 - x ≤ px ∧ px ≤ x0 + x)

theorem outline_drawnAt : DrawnAt (outline x0 y0 x y attr) px py ↔
    ((py = y0 + x ∨ py = y0 - x) ∧ (px = x0 - y ∨ px = x0 + y)) ∨
      ((py = y0 + y ∨ py = y0 - y) ∧ (px = x0 - x ∨ px = x0 + x)) := by
  simp only [outline, drawnAt_cons, drawnAt_nil, or_false]
  constructor
  · rintro (⟨rfl, rfl⟩ | ⟨rfl, rfl⟩ | ⟨rfl, rfl⟩ | ⟨rfl, rfl⟩ | ⟨rfl, rfl⟩ | ⟨rfl, rfl⟩ | ⟨rfl, rfl⟩ |
      ⟨rfl, rfl⟩) <;> simp
  · rintro (⟨rfl | rfl, rfl | rfl⟩ | ⟨rfl | rfl, rfl | rfl⟩) <;> simp

/-- A line stops before its right end, which is a point of the outline. -/
theorem fillLines_spec (x0 y0 : ℤ) (attr : BitVec 8) (hy : 0 ≤ y) (hxy : y ≤ x) :
    ∃ pixels, fillLines x0 y0 x y attr = some pixels ∧ ∀ px py, DrawnAt pixels px py ↔
      ((py = y0 + x ∨ py = y0 - x) ∧ x0 - y ≤ px ∧ px < x0 + y) ∨
        ((py = y0 + y ∨ py = y0 - y) ∧ x0 - x ≤ px ∧ px < x0 + x) := by
  obtain ⟨below, hbelow, inBelow⟩ := drawLine_horizontal x0 (y0 + x) (fillAttr attr) hy
  obtain ⟨belowWide, hbelowWide, inBelowWide⟩ :=
    drawLine_horizontal x0 (y0 + y) (fillAttr attr) (hy.trans hxy)
  obtain ⟨aboveWide, haboveWide, inAboveWide⟩ :=
    drawLine_horizontal x0 (y0 - y) (fillAttr attr) (hy.trans hxy)
  obtain ⟨above, habove, inAbove⟩ := drawLine_horizontal x0 (y0 - x) (fillAttr attr) hy
  refine ⟨below ++ belowWide ++ aboveWide ++ above, ?_, fun px py => ?_⟩
  · simp only [fillLines, hbelow, hbelowWide, haboveWide, habove]
    rfl
  · simp only [drawnAt_append, inBelow, inBelowWide, inAboveWide, inAbove]
    constructor
    · rintro (((row | row) | row) | row)
      · exact .inl ⟨.inl row.1, row.2⟩
      · exact .inr ⟨.inl row.1, row.2⟩
      · exact .inr ⟨.inr row.1, row.2⟩
      · exact .inl ⟨.inr row.1, row.2⟩
    · rintro (⟨row | row, inside⟩ | ⟨row | row, inside⟩)
      · exact .inl (.inl (.inl ⟨row, inside⟩))
      · exact .inr ⟨row, inside⟩
      · exact .inl (.inl (.inr ⟨row, inside⟩))
      · exact .inl (.inr ⟨row, inside⟩)

/-- A pass draws in its rows only, and fills them if it fills at all. -/
theorem passPixels_spec (x0 y0 : ℤ) (attr : BitVec 8) (fill : ℤ) (hy : 0 ≤ y) (hxy : y ≤ x) :
    ∃ pixels, passPixels x0 y0 x y attr fill = some pixels ∧
      (∀ px py, DrawnAt pixels px py → InPass x0 y0 x y px py) ∧
      (fill ≠ 0 → ∀ px py, InPass x0 y0 x y px py → DrawnAt pixels px py) := by
  by_cases hfill : fill = 0
  · refine ⟨outline x0 y0 x y attr, if_neg (not_not.mpr hfill), ?_, fun h => absurd hfill h⟩
    intro px py
    rw [outline_drawnAt, InPass]
    omega
  · obtain ⟨lines, hlines, inLines⟩ := fillLines_spec x0 y0 attr hy hxy
    refine ⟨lines ++ outline x0 y0 x y attr, ?_, ?_, ?_⟩
    · rw [passPixels, if_pos hfill, hlines]
      rfl
    · intro px py
      rw [drawnAt_append, inLines, outline_drawnAt, InPass]
      omega
    · intro _ px py
      rw [drawnAt_append, inLines, outline_drawnAt, InPass]
      omega

/-! ### All passes -/

/-- The passes that the loop makes from state `s` on: one for each row of the octant, every one at the
    point of the arc in this row. Each column of the arc is visited, too. -/
structure PassesFrom (r x0 y0 : ℤ) (attr : BitVec 8) (fill : ℤ) (s : CircleState)
    (passes : List CirclePass) : Prop where
  rows : passes.map CirclePass.y = (List.range passes.length).map fun i : ℕ => s.y + i
  octant : ∀ y, s.y ≤ y → (y < s.y + passes.length ↔ 2 * y * y + 2 * y ≤ r * r)
  each : ∀ pass ∈ passes, s.y ≤ pass.y ∧ pass.y ≤ pass.x ∧ pass.x ≤ s.x ∧
    pass.x * pass.x + pass.y * pass.y ≤ r * r ∧
    r * r < (pass.x + 1) * (pass.x + 1) + (pass.y + 1) * (pass.y + 1) ∧
    passPixels x0 y0 pass.x pass.y attr fill = some pass.pixels
  covered : ∀ t, s.y ≤ t → t ≤ s.x → ∃ pass ∈ passes, pass.y = t ∨ pass.x = t

/-- The loop ends when the arc has crossed the diagonal. -/
theorem PassesFrom.done {s : CircleState} (h : CircleInv r s) (crossed : s.x < s.y) :
    PassesFrom r x0 y0 attr fill s [] where
  rows := rfl
  octant := by
    intro y hy
    have beyond : r * r < 2 * s.y * s.y + 2 * s.y :=
      not_le.mp (mt h.octant_iff.mpr (not_le.mpr crossed))
    have := h.y_nonneg
    constructor
    · intro hlt
      simp at hlt
      omega
    · intro hle
      nlinarith
  each := by simp
  covered := fun t lower upper => absurd (lower.trans upper) (not_le.mpr crossed)

/-- A pass in front of the passes from the next state. -/
theorem PassesFrom.cons {s : CircleState} {pixels : List Pixel} {rest : List CirclePass}
    (h : CircleInv r s) (hxy : s.y ≤ s.x)
    (drawn : passPixels x0 y0 s.x s.y attr fill = some pixels)
    (hrest : PassesFrom r x0 y0 attr fill s.next rest) :
    PassesFrom r x0 y0 attr fill s (⟨s.x, s.y, pixels⟩ :: rest) := by
  obtain ⟨-, up, left⟩ := h.next hxy
  obtain ⟨rows, octant, each, covered⟩ := hrest
  rw [up] at rows octant each covered
  constructor
  case rows =>
    rw [List.length_cons, List.range_succ_eq_map, List.map_cons, List.map_cons, List.map_map, rows]
    congr 1
    · exact (add_zero _).symm
    · apply List.map_congr_left
      intro i _
      rw [Function.comp_apply, Nat.cast_succ]
      ring
  case octant =>
    intro y hy
    rw [List.length_cons, Nat.cast_succ]
    rcases hy.eq_or_lt with rfl | above
    · exact iff_of_true (by omega) (h.octant_iff.mp hxy)
    · rw [← octant y above]
      omega
  case each =>
    obtain ⟨inside, outside⟩ := h.on_arc hxy
    refine List.forall_mem_cons.mpr ⟨⟨le_rfl, hxy, le_rfl, inside, outside, drawn⟩, ?_⟩
    intro pass hmem
    obtain ⟨lower, inOctant, upper, onArc⟩ := each pass hmem
    exact ⟨by omega, inOctant, by omega, onArc⟩
  case covered =>
    intro t lower upper
    by_cases first : s.y = t ∨ s.x = t
    · exact ⟨_, List.mem_cons_self, first⟩
    · obtain ⟨pass, hmem, visits⟩ := covered t (by omega) (by omega)
      exact ⟨pass, List.mem_cons_of_mem _ hmem, visits⟩

/-- The loop ends, having made these passes. -/
theorem circlePasses_spec (x0 y0 : ℤ) (attr : BitVec 8) (fill : ℤ) {fuel : ℕ} {s : CircleState}
    (h : CircleInv r s) (enough : (s.x - s.y + 1).toNat < fuel) :
    ∃ passes, circlePasses x0 y0 attr fill fuel s = some passes ∧
      PassesFrom r x0 y0 attr fill s passes := by
  induction fuel generalizing s with
  | zero => exact absurd enough (Nat.not_lt_zero _)
  | succ fuel ih =>
    by_cases hxy : s.y ≤ s.x
    · obtain ⟨hnext, up, left⟩ := h.next hxy
      obtain ⟨pixels, drawn, -⟩ := passPixels_spec x0 y0 attr fill h.y_nonneg hxy
      obtain ⟨rest, hrest, spec⟩ := ih hnext (by omega)
      refine ⟨⟨s.x, s.y, pixels⟩ :: rest, ?_, .cons h hxy drawn spec⟩
      rw [circlePasses, if_pos hxy, drawn, hrest]
      rfl
    · exact ⟨[], if_neg hxy, .done h (not_le.mp hxy)⟩

/-! ### The circle -/

theorem drawnAt_flatMap {passes : List CirclePass} :
    DrawnAt (passes.flatMap CirclePass.pixels) px py ↔ ∃ pass ∈ passes, DrawnAt pass.pixels px py := by
  simp only [DrawnAt, List.mem_flatMap]
  constructor
  · rintro ⟨pixel, ⟨pass, hpass, hmem⟩, at_place⟩
    exact ⟨pass, hpass, pixel, hmem, at_place⟩
  · rintro ⟨pass, hpass, pixel, hmem, at_place⟩
    exact ⟨pixel, ⟨pass, hpass, hmem⟩, at_place⟩

/-- How far the passes fill the rows at distance `t` from the centre. -/
def rowWidths (passes : List CirclePass) (t : ℤ) : List ℤ :=
  passes.flatMap fun pass =>
    (if pass.x = t then [pass.y] else []) ++ (if pass.y = t then [pass.x] else [])

theorem mem_rowWidths {passes : List CirclePass} {t width : ℤ} :
    width ∈ rowWidths passes t ↔
      ∃ pass ∈ passes, (pass.x = t ∧ width = pass.y) ∨ (pass.y = t ∧ width = pass.x) := by
  simp [rowWidths]

/-- A row in which something is drawn for each of these widths is filled to the largest of them. -/
theorem exists_widest (x0 : ℤ) {widths : List ℤ} (hne : widths ≠ []) :
    ∃ widest ∈ widths, ∀ px, (∃ width ∈ widths, x0 - width ≤ px ∧ px ≤ x0 + width) ↔
      x0 - widest ≤ px ∧ px ≤ x0 + widest := by
  obtain ⟨first, hfirst⟩ := List.exists_mem_of_ne_nil widths hne
  obtain ⟨widest, hmem, largest⟩ :=
    widths.toFinset.exists_max_image id ⟨first, List.mem_toFinset.mpr hfirst⟩
  have hwidest := List.mem_toFinset.mp hmem
  refine ⟨widest, hwidest, fun px => ?_⟩
  constructor
  · rintro ⟨width, hwidth, lower, upper⟩
    have : width ≤ widest := largest width (List.mem_toFinset.mpr hwidth)
    omega
  · intro inside
    exact ⟨widest, hwidest, inside⟩

/-- A pass fills a row as far as its point on the arc says. -/
theorem inPass_row_iff {d : ℤ} (hy : 0 ≤ y) (hx : 0 ≤ x) :
    InPass x0 y0 x y px (y0 + d) ↔
      ∃ width, ((x = |d| ∧ width = y) ∨ (y = |d| ∧ width = x)) ∧ x0 - width ≤ px ∧ px ≤ x0 + width := by
  have rows {z : ℤ} (hz : 0 ≤ z) : (y0 + d = y0 + z ∨ y0 + d = y0 - z) ↔ z = |d| := by
    rw [eq_comm (b := |d|), abs_eq hz]
    omega
  rw [InPass, rows hx, rows hy]
  constructor
  · rintro (⟨hd, inside⟩ | ⟨hd, inside⟩)
    · exact ⟨y, .inl ⟨hd, rfl⟩, inside⟩
    · exact ⟨x, .inr ⟨hd, rfl⟩, inside⟩
  · rintro ⟨width, ⟨hd, rfl⟩ | ⟨hd, rfl⟩, inside⟩
    · exact .inl ⟨hd, inside⟩
    · exact .inr ⟨hd, inside⟩

/-- A row of a pass lies in the disc. -/
theorem InPass.in_disc (h : InPass x0 y0 x y px py) (inside : x * x + y * y ≤ r * r) :
    (px - x0) * (px - x0) + (py - y0) * (py - y0) ≤ r * r := by
  have span {w : ℤ} (lower : x0 - w ≤ px) (upper : px ≤ x0 + w) : (px - x0) * (px - x0) ≤ w * w := by
    have : |px - x0| ≤ |w| := (abs_le.mpr ⟨by omega, by omega⟩ : |px - x0| ≤ w).trans (le_abs_self w)
    exact abs_le_iff_mul_self_le.mp this
  have row {z : ℤ} (hz : py = y0 + z ∨ py = y0 - z) : (py - y0) * (py - y0) = z * z := by
    rcases hz with rfl | rfl <;> ring
  rcases h with ⟨hrow, lower, upper⟩ | ⟨hrow, lower, upper⟩
  · rw [row hrow]
    linarith [span lower upper]
  · rw [row hrow]
    linarith [span lower upper]

/-- What `drawCircle` draws, for a radius `r`: the passes visit the rows of the octant one by one,
    each at the point of the arc in this row; everything drawn lies in the disc; and if the circle is
    filled, every row of the disc holds one span around the centre. -/
structure RoundCircle (x0 y0 r fill : ℤ) (passes : List CirclePass) : Prop where
  rows : passes.map CirclePass.y = (List.range passes.length).map fun i : ℕ => (i : ℤ)
  octant : ∀ y : ℕ, y < passes.length ↔ 2 * (y : ℤ) * y + 2 * y ≤ r * r
  onArc : ∀ pass ∈ passes, pass.y ≤ pass.x ∧ pass.x * pass.x + pass.y * pass.y ≤ r * r ∧
    r * r < (pass.x + 1) * (pass.x + 1) + (pass.y + 1) * (pass.y + 1)
  inDisc : ∀ pixel ∈ passes.flatMap CirclePass.pixels,
    (pixel.x - x0) * (pixel.x - x0) + (pixel.y - y0) * (pixel.y - y0) ≤ r * r
  filled : fill ≠ 0 → ∀ d, |d| ≤ r → ∃ width, 0 ≤ width ∧
    ∀ px, DrawnAt (passes.flatMap CirclePass.pixels) px (y0 + d) ↔ x0 - width ≤ px ∧ px ≤ x0 + width

/-- The pixels of a pass, in the terms of `passPixels_spec`. -/
theorem PassesFrom.drawnAt {passes : List CirclePass}
    (h : PassesFrom r x0 y0 attr fill ⟨r, 0, 0⟩ passes) {pass : CirclePass} (hmem : pass ∈ passes) :
    (∀ px py, DrawnAt pass.pixels px py → InPass x0 y0 pass.x pass.y px py) ∧
      (fill ≠ 0 → ∀ px py, InPass x0 y0 pass.x pass.y px py → DrawnAt pass.pixels px py) := by
  obtain ⟨hy, hxy, _, _, _, drawn⟩ := h.each pass hmem
  obtain ⟨pixels, same, rows, filled⟩ := passPixels_spec x0 y0 attr fill hy hxy
  obtain rfl : pass.pixels = pixels := Option.some.inj (drawn.symm.trans same)
  exact ⟨rows, filled⟩

theorem PassesFrom.inDisc {passes : List CirclePass}
    (h : PassesFrom r x0 y0 attr fill ⟨r, 0, 0⟩ passes) {pixel : Pixel}
    (hpixel : pixel ∈ passes.flatMap CirclePass.pixels) :
    (pixel.x - x0) * (pixel.x - x0) + (pixel.y - y0) * (pixel.y - y0) ≤ r * r := by
  obtain ⟨pass, hpass, hmem⟩ := List.mem_flatMap.mp hpixel
  obtain ⟨_, _, _, inside, _⟩ := h.each pass hpass
  exact ((h.drawnAt hpass).1 _ _ ⟨pixel, hmem, rfl, rfl⟩).in_disc inside

theorem PassesFrom.filled {passes : List CirclePass}
    (h : PassesFrom r x0 y0 attr fill ⟨r, 0, 0⟩ passes) (hfill : fill ≠ 0) {d : ℤ} (hd : |d| ≤ r) :
    ∃ width, 0 ≤ width ∧ ∀ px, DrawnAt (passes.flatMap CirclePass.pixels) px (y0 + d) ↔
      x0 - width ≤ px ∧ px ≤ x0 + width := by
  have reached : rowWidths passes |d| ≠ [] := by
    obtain ⟨pass, hpass, hy | hx⟩ := h.covered |d| (abs_nonneg d) hd
    · exact List.ne_nil_of_mem (mem_rowWidths.mpr ⟨pass, hpass, .inr ⟨hy, rfl⟩⟩)
    · exact List.ne_nil_of_mem (mem_rowWidths.mpr ⟨pass, hpass, .inl ⟨hx, rfl⟩⟩)
  obtain ⟨widest, hwidest, span⟩ := exists_widest x0 reached
  refine ⟨widest, ?_, fun px => ?_⟩
  · obtain ⟨pass, hpass, ⟨_, rfl⟩ | ⟨_, rfl⟩⟩ := mem_rowWidths.mp hwidest
    · exact (h.each pass hpass).1
    · exact (h.each pass hpass).1.trans (h.each pass hpass).2.1
  · rw [← span px, drawnAt_flatMap]
    constructor
    · rintro ⟨pass, hpass, drawn⟩
      obtain ⟨hy, hxy, _⟩ := h.each pass hpass
      obtain ⟨width, hwidth, inside⟩ :=
        (inPass_row_iff hy (hy.trans hxy)).mp ((h.drawnAt hpass).1 _ _ drawn)
      exact ⟨width, mem_rowWidths.mpr ⟨pass, hpass, hwidth⟩, inside⟩
    · rintro ⟨width, hwidth, inside⟩
      obtain ⟨pass, hpass, visits⟩ := mem_rowWidths.mp hwidth
      obtain ⟨hy, hxy, _⟩ := h.each pass hpass
      have row : InPass x0 y0 pass.x pass.y px (y0 + d) :=
        (inPass_row_iff hy (hy.trans hxy)).mpr ⟨width, visits, inside⟩
      exact ⟨pass, hpass, (h.drawnAt hpass).2 hfill _ _ row⟩

/-- `drawCircle` ends, and what it has drawn is round, bounded and without holes. -/
theorem drawCircle_round (x0 y0 radius : ℤ) (attr : BitVec 8) (fill : ℤ) (hr : 0 ≤ radius) :
    ∃ passes, drawCirclePasses x0 y0 radius attr fill = some passes ∧
      drawCircle x0 y0 radius attr fill = some (passes.flatMap CirclePass.pixels) ∧
      RoundCircle x0 y0 radius fill passes := by
  have enough : (radius - 0 + 1).toNat < radius.toNat + 2 := by omega
  obtain ⟨passes, hpasses, spec⟩ := circlePasses_spec x0 y0 attr fill (CircleInv.start hr) enough
  refine ⟨passes, hpasses, by rw [drawCircle, drawCirclePasses, hpasses]; rfl, ?_⟩
  constructor
  case rows =>
    refine spec.rows.trans (List.map_congr_left fun i _ => ?_)
    exact zero_add _
  case octant =>
    intro y
    rw [← spec.octant y (Int.natCast_nonneg y), zero_add, Nat.cast_lt]
  case onArc =>
    intro pass hmem
    obtain ⟨_, hxy, _, inside, outside, _⟩ := spec.each pass hmem
    exact ⟨hxy, inside, outside⟩
  case inDisc => exact fun pixel => spec.inDisc
  case filled => exact fun hfill d => spec.filled hfill

/-- A filled circle of radius 5 around the point (100, 60). -/
theorem drawCircle_round_five : ∃ passes, drawCirclePasses 100 60 5 0x0f 1 = some passes ∧
    RoundCircle 100 60 5 1 passes := by
  obtain ⟨passes, hpasses, _, round⟩ := drawCircle_round 100 60 5 0x0f 1 (by decide)
  exact ⟨passes, hpasses, round⟩

end Rpi4Kernel.Graphics
