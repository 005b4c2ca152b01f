/-
Module: Rpi4Kernel.Theory.IndexTree
Layer: Theory
Purpose: The complete binary tree on heap indices: node 1 is the root, the children of `i` are `2 * i`
  and `2 * i + 1`. In a tree of order `n` the nodes are the indices below `2 ^ n`, the depth of a node
  is its bit length, and the nodes of depth `n` are the leaves, numbered as slots from the left. Two
  nodes that share a slot lie one below the other.
Trusted boundary: none (fully proved)
Main exports: IndexTree.Below, IndexTree.InTree, IndexTree.height, IndexTree.firstSlot,
  IndexTree.slotCount, IndexTree.covers_iff_below, IndexTree.nextAfter
-/
import Mathlib.Data.Nat.Size
import Mathlib.Tactic

namespace Rpi4Kernel.Theory.IndexTree

/-- `i` lies in the subtree of `a` (possibly `i = a`). -/
def Below (a i : Nat) : Prop := ∃ k, i / 2 ^ k = a

/-- `i` is a node of the tree of order `n`. -/
def InTree (n i : Nat) : Prop := 0 < i ∧ i < 2 ^ n

/-- The number of levels from `i` down to the leaves, 1 for a leaf. -/
def height (n i : Nat) : Nat := n + 1 - i.size

/-- The leftmost slot under `i`. -/
def firstSlot (n i : Nat) : Nat := (i - 2 ^ (i.size - 1)) * 2 ^ (n - i.size)

/-- The number of slots under `i`. -/
def slotCount (n i : Nat) : Nat := 2 ^ (n - i.size)

/-! ### Depth -/

theorem size_pos_of_pos {i : Nat} (h : 0 < i) : 0 < i.size := Nat.size_pos.mpr h

theorem size_double {i : Nat} (h : 0 < i) : (2 * i).size = i.size + 1 := by
  apply eq_of_forall_ge_iff
  intro k
  cases k with
  | zero =>
      have := size_pos_of_pos (show 0 < 2 * i by omega)
      omega
  | succ k => rw [Nat.add_le_add_iff_right, Nat.size_le, Nat.size_le, Nat.pow_succ]; omega

theorem size_double_add_one {i : Nat} (h : 0 < i) : (2 * i + 1).size = i.size + 1 := by
  apply eq_of_forall_ge_iff
  intro k
  cases k with
  | zero =>
      have := size_pos_of_pos (show 0 < 2 * i + 1 by omega)
      omega
  | succ k => rw [Nat.add_le_add_iff_right, Nat.size_le, Nat.size_le, Nat.pow_succ]; omega

theorem size_half {i : Nat} (h : 1 < i) : (i / 2).size = i.size - 1 := by
  have hpos : 0 < i / 2 := by omega
  rcases Nat.even_or_odd' i with ⟨j, hj | hj⟩
  · rw [hj, Nat.mul_div_cancel_left j (by omega), size_double (by omega), Nat.add_sub_cancel]
  · rw [hj, show (2 * j + 1) / 2 = j by omega, size_double_add_one (by omega), Nat.add_sub_cancel]

/-- The row of a node: the indices of depth `i.size`. -/
theorem row_bounds {i : Nat} (h : 0 < i) : 2 ^ (i.size - 1) ≤ i ∧ i < 2 ^ i.size := by
  have hpos := size_pos_of_pos h
  exact ⟨Nat.lt_size.mp (by omega), Nat.lt_size_self i⟩

theorem size_eq_of_row {i d : Nat} (hlow : 2 ^ d ≤ i) (hhigh : i < 2 ^ (d + 1)) :
    i.size = d + 1 := by
  have h1 := Nat.lt_size.mpr hlow
  have h2 := Nat.size_le.mpr hhigh
  omega

theorem two_pow_size_sub_one {i : Nat} (h : 0 < i) : 2 ^ i.size = 2 * 2 ^ (i.size - 1) := by
  rw [← Nat.pow_succ', Nat.succ_eq_add_one, Nat.sub_add_cancel (size_pos_of_pos h)]

/-! ### Nodes of a tree -/

theorem InTree.pos {n i : Nat} (h : InTree n i) : 0 < i := h.1

theorem InTree.size_le {n i : Nat} (h : InTree n i) : i.size ≤ n := Nat.size_le.mpr h.2

theorem InTree.size_pos {n i : Nat} (h : InTree n i) : 0 < i.size := size_pos_of_pos h.1

theorem InTree.height_pos {n i : Nat} (h : InTree n i) : 0 < height n i := by
  have := h.size_le
  unfold height
  omega

theorem inTree_of_size_le {n i : Nat} (hpos : 0 < i) (h : i.size ≤ n) : InTree n i :=
  ⟨hpos, Nat.size_le.mp h⟩

theorem inTree_root {n : Nat} (h : 0 < n) : InTree n 1 :=
  ⟨Nat.one_pos, Nat.one_lt_two_pow (by omega)⟩

theorem InTree.left {n i : Nat} (h : InTree n i) (hinner : i.size < n) : InTree n (2 * i) :=
  inTree_of_size_le (by have := h.pos; omega) (by rw [size_double h.pos]; omega)

theorem InTree.right {n i : Nat} (h : InTree n i) (hinner : i.size < n) : InTree n (2 * i + 1) :=
  inTree_of_size_le (by omega) (by rw [size_double_add_one h.pos]; omega)

theorem InTree.half {n i : Nat} (h : InTree n i) (hne : i ≠ 1) : InTree n (i / 2) := by
  have hpos := h.1
  have hlt := h.2
  exact ⟨by omega, by omega⟩

theorem height_left {n i : Nat} (h : 0 < i) : height n (2 * i) = height n i - 1 := by
  unfold height
  rw [size_double h]
  omega

theorem height_right {n i : Nat} (h : 0 < i) : height n (2 * i + 1) = height n i - 1 := by
  unfold height
  rw [size_double_add_one h]
  omega

/-! ### The subtree relation -/

theorem Below.refl (a : Nat) : Below a a := ⟨0, by simp⟩

theorem Below.trans {a b c : Nat} (hab : Below a b) (hbc : Below b c) : Below a c := by
  obtain ⟨k, rfl⟩ := hab
  obtain ⟨l, rfl⟩ := hbc
  exact ⟨l + k, by rw [Nat.pow_add, Nat.div_div_eq_div_mul]⟩

theorem below_half (i : Nat) : Below (i / 2) i := ⟨1, by simp⟩

theorem below_left (a : Nat) : Below a (2 * a) := ⟨1, by simp⟩

theorem below_right (a : Nat) : Below a (2 * a + 1) := ⟨1, by omega⟩

theorem Below.le {a i : Nat} (h : Below a i) : a ≤ i := by
  obtain ⟨k, rfl⟩ := h
  exact Nat.div_le_self _ _

theorem Below.antisymm {a b : Nat} (h1 : Below a b) (h2 : Below b a) : a = b :=
  Nat.le_antisymm h1.le h2.le

/-- A node strictly below `a` is below one of the children of `a`. -/
theorem Below.child {a i : Nat} (h : Below a i) (hne : i ≠ a) :
    Below (2 * a) i ∨ Below (2 * a + 1) i := by
  obtain ⟨k, hk⟩ := h
  cases k with
  | zero => simp at hk; exact absurd hk hne
  | succ k =>
      rw [Nat.pow_succ, ← Nat.div_div_eq_div_mul] at hk
      rcases (show i / 2 ^ k = 2 * a ∨ i / 2 ^ k = 2 * a + 1 by omega) with h | h
      · exact Or.inl ⟨k, h⟩
      · exact Or.inr ⟨k, h⟩

/-- Two nodes above a common node lie one above the other. -/
theorem Below.linear {a b i : Nat} (ha : Below a i) (hb : Below b i) : Below a b ∨ Below b a := by
  obtain ⟨k, rfl⟩ := ha
  obtain ⟨l, rfl⟩ := hb
  rcases Nat.le_total k l with h | h
  · obtain ⟨d, rfl⟩ := Nat.exists_eq_add_of_le h
    exact Or.inr ⟨d, by rw [Nat.pow_add, Nat.div_div_eq_div_mul]⟩
  · obtain ⟨d, rfl⟩ := Nat.exists_eq_add_of_le h
    exact Or.inl ⟨d, by rw [Nat.pow_add, Nat.div_div_eq_div_mul]⟩

theorem Below.size_le {a i : Nat} (h : Below a i) : a.size ≤ i.size := Nat.size_le_size h.le

/-- Nodes of the same depth are below each other only when equal. -/
theorem Below.eq_of_size_eq {a i : Nat} (h : Below a i) (hpos : 0 < a) (hsize : a.size = i.size) :
    a = i := by
  by_contra hne
  rcases h.child (Ne.symm hne) with hc | hc
  · have := hc.size_le
    rw [size_double hpos] at this
    omega
  · have := hc.size_le
    rw [size_double_add_one hpos] at this
    omega

theorem not_below_both_children {a i : Nat} (hpos : 0 < a) (hl : Below (2 * a) i) :
    ¬ Below (2 * a + 1) i := by
  intro hr
  have hsame : (2 * a).size = (2 * a + 1).size := by
    rw [size_double hpos, size_double_add_one hpos]
  rcases hl.linear hr with h | h
  · have := h.eq_of_size_eq (by omega) hsame
    omega
  · have := h.eq_of_size_eq (by omega) hsame.symm
    omega

theorem below_one {i : Nat} (h : 0 < i) : Below 1 i := by
  refine ⟨i.size - 1, ?_⟩
  obtain ⟨h1, h2⟩ := row_bounds h
  rw [two_pow_size_sub_one h] at h2
  rw [Nat.div_eq_iff (by positivity)]
  omega

theorem Below.half_of_ne {a i : Nat} (h : Below a i) (hne : a ≠ i) : Below a (i / 2) := by
  obtain ⟨k, hk⟩ := h
  cases k with
  | zero => simp at hk; exact absurd hk.symm hne
  | succ k =>
      refine ⟨k, ?_⟩
      rw [Nat.div_div_eq_div_mul, ← Nat.pow_succ']
      exact hk

/-! ### Slots -/

theorem slotCount_pos (n i : Nat) : 0 < slotCount n i := by
  unfold slotCount
  positivity

/-- The leaf above slot `x`. -/
def leaf (n x : Nat) : Nat := 2 ^ (n - 1) + x

theorem size_leaf {n x : Nat} (hn : 0 < n) (hx : x < 2 ^ (n - 1)) : (leaf n x).size = n := by
  have hsucc : n = (n - 1) + 1 := by omega
  unfold leaf
  conv_rhs => rw [hsucc]
  apply size_eq_of_row (by omega)
  rw [Nat.pow_succ]
  omega

theorem inTree_leaf {n x : Nat} (hn : 0 < n) (hx : x < 2 ^ (n - 1)) : InTree n (leaf n x) :=
  inTree_of_size_le (by unfold leaf; positivity) (size_leaf hn hx).le

/-- The last power of two splits at every depth. -/
theorem two_pow_split {n d : Nat} (hd : 0 < d) (hdn : d ≤ n) :
    2 ^ (d - 1) * 2 ^ (n - d) = 2 ^ (n - 1) := by
  rw [← Nat.pow_add]
  congr 1
  omega

/-- The slots of a node stay inside the tree. -/
theorem firstSlot_add_slotCount_le {n i : Nat} (h : InTree n i) :
    firstSlot n i + slotCount n i ≤ 2 ^ (n - 1) := by
  obtain ⟨h1, h2⟩ := row_bounds h.pos
  rw [two_pow_size_sub_one h.pos] at h2
  calc firstSlot n i + slotCount n i
      = (i - 2 ^ (i.size - 1) + 1) * 2 ^ (n - i.size) := by
        unfold firstSlot slotCount
        ring
    _ ≤ 2 ^ (i.size - 1) * 2 ^ (n - i.size) := Nat.mul_le_mul_right _ (by omega)
    _ = 2 ^ (n - 1) := two_pow_split h.size_pos h.size_le

/-- A slot is under a node exactly when its leaf is below the node. -/
theorem covers_iff_below {n i x : Nat} (h : InTree n i) (hx : x < 2 ^ (n - 1)) :
    (firstSlot n i ≤ x ∧ x < firstSlot n i + slotCount n i) ↔ Below i (leaf n x) := by
  have hn : 0 < n := by
    have := h.size_pos
    have := h.size_le
    omega
  obtain ⟨h1, h2⟩ := row_bounds h.pos
  have hsplit := two_pow_split h.size_pos h.size_le
  obtain ⟨r, hr⟩ := Nat.exists_eq_add_of_le h1
  have hfirst : firstSlot n i = r * 2 ^ (n - i.size) := by
    unfold firstSlot
    rw [show i - 2 ^ (i.size - 1) = r by omega]
  have hdiv : (leaf n x) / 2 ^ (n - i.size) = 2 ^ (i.size - 1) + x / 2 ^ (n - i.size) := by
    unfold leaf
    rw [← hsplit, Nat.add_comm, Nat.add_mul_div_right _ _ (by positivity), Nat.add_comm]
  have hquot : x / 2 ^ (n - i.size) = r ↔
      (r * 2 ^ (n - i.size) ≤ x ∧ x < r * 2 ^ (n - i.size) + 2 ^ (n - i.size)) := by
    rw [Nat.div_eq_iff (by positivity)]
    have hpos : 0 < 2 ^ (n - i.size) := by positivity
    constructor <;> intro <;> omega
  rw [hfirst, slotCount, ← hquot]
  constructor
  · intro hx'
    exact ⟨n - i.size, by rw [hdiv, hx']; exact hr.symm⟩
  · intro hb
    -- the ancestor of the leaf at the depth of `i` is unique
    have hanc : Below (2 ^ (i.size - 1) + x / 2 ^ (n - i.size)) (leaf n x) := ⟨n - i.size, hdiv⟩
    have hxlt : x / 2 ^ (n - i.size) < 2 ^ (i.size - 1) :=
      Nat.div_lt_of_lt_mul (by rw [Nat.mul_comm, hsplit]; exact hx)
    have hsize : (2 ^ (i.size - 1) + x / 2 ^ (n - i.size)).size = i.size := by
      have := size_leaf h.size_pos hxlt
      exact this
    have heq : i = 2 ^ (i.size - 1) + x / 2 ^ (n - i.size) := by
      rcases hb.linear hanc with hb' | hb'
      · exact hb'.eq_of_size_eq h.pos hsize.symm
      · exact (hb'.eq_of_size_eq (by positivity) hsize).symm
    omega

/-- Nodes that are not one below the other have no slot in common. -/
theorem slots_disjoint {n i j : Nat} (hi : InTree n i) (hj : InTree n j)
    (hij : ¬ Below i j) (hji : ¬ Below j i) :
    firstSlot n i + slotCount n i ≤ firstSlot n j ∨
      firstSlot n j + slotCount n j ≤ firstSlot n i := by
  by_contra hcross
  have hposi := slotCount_pos n i
  have hposj := slotCount_pos n j
  have hlei := firstSlot_add_slotCount_le hi
  have hlej := firstSlot_add_slotCount_le hj
  have hx : max (firstSlot n i) (firstSlot n j) < 2 ^ (n - 1) := by omega
  have hbi := (covers_iff_below hi hx).mp (by omega)
  have hbj := (covers_iff_below hj hx).mp (by omega)
  rcases hbi.linear hbj with h | h
  · exact hij h
  · exact hji h

/-- The slots of an inner node are those of its left child followed by those of its right child. -/
theorem slots_children {n i : Nat} (hi : InTree n i) (hinner : i.size < n) :
    firstSlot n (2 * i) = firstSlot n i ∧
      firstSlot n (2 * i + 1) = firstSlot n i + slotCount n (2 * i) ∧
      slotCount n (2 * i + 1) = slotCount n (2 * i) ∧
      slotCount n i = 2 * slotCount n (2 * i) := by
  obtain ⟨h1, -⟩ := row_bounds hi.pos
  obtain ⟨r, hr⟩ := Nat.exists_eq_add_of_le h1
  have hpow : 2 ^ (n - i.size) = 2 * 2 ^ (n - (i.size + 1)) := by
    rw [← Nat.pow_succ']
    congr 1
    omega
  have hrow := two_pow_size_sub_one hi.pos
  unfold firstSlot slotCount
  rw [size_double hi.pos, size_double_add_one hi.pos, hpow, Nat.add_sub_cancel, hrow,
    show i - 2 ^ (i.size - 1) = r by omega,
    show 2 * i - 2 * 2 ^ (i.size - 1) = 2 * r by omega,
    show 2 * i + 1 - 2 * 2 ^ (i.size - 1) = 2 * r + 1 by omega]
  refine ⟨by ring, by ring, rfl, rfl⟩

/-! ### Preorder -/

/-- Climb at most `k` levels from `i` while it is a right child; the right sibling of the left child
    reached that way. -/
def nextAfterWithin : Nat → Nat → Option Nat
  | 0, _ => none
  | k + 1, i => if i % 2 = 0 then some (i + 1) else nextAfterWithin k (i / 2)

/-- The node that a preorder walk visits after the whole subtree of `i`. -/
def nextAfter (i : Nat) : Option Nat := nextAfterWithin (i.size - 1) i

theorem nextAfter_one : nextAfter 1 = none := by
  rw [nextAfter, Nat.size_one]
  rfl

theorem nextAfter_left {i : Nat} (h : 0 < i) : nextAfter (2 * i) = some (2 * i + 1) := by
  obtain ⟨k, hk⟩ := Nat.exists_eq_succ_of_ne_zero (size_pos_of_pos h).ne'
  rw [nextAfter, size_double h, hk, Nat.succ_eq_add_one, Nat.add_sub_cancel, nextAfterWithin,
    if_pos (by omega)]

theorem nextAfter_right {i : Nat} (h : 0 < i) : nextAfter (2 * i + 1) = nextAfter i := by
  obtain ⟨k, hk⟩ := Nat.exists_eq_succ_of_ne_zero (size_pos_of_pos h).ne'
  rw [nextAfter, nextAfter, size_double_add_one h, hk, Nat.succ_eq_add_one, Nat.add_sub_cancel,
    nextAfterWithin, if_neg (by omega), show (2 * i + 1) / 2 = i by omega, Nat.add_sub_cancel]

end Rpi4Kernel.Theory.IndexTree
