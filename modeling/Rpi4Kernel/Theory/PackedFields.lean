/-
Module: Rpi4Kernel.Theory.PackedFields
Layer: Theory
Purpose: Fields of a few bits each, packed into words. A field is replaced by masking its bits out of
  the word and shifting the new value in; this reads back, and leaves the other fields alone. In an
  array of words every word holds as many fields as fit into it, and the bits left over are not used.
Trusted boundary: none (fully proved)
Main exports: fieldMask, extractField, insertField, extract_insert, extract_insert_disjoint,
  readField, writeField, read_write, read_write_of_ne
-/
import Mathlib.Data.BitVec
import Mathlib.Logic.Function.Basic
import Mathlib.Tactic

namespace Rpi4Kernel.Theory

variable {w : ℕ}

/-! ### One word -/

/-- The mask of the lowest `size` bits. -/
def fieldMask (w size : ℕ) : BitVec w := 1#w <<< size - 1#w

/-- The field of `size` bits that starts at bit `shift`. -/
def extractField (word : BitVec w) (shift size : ℕ) : BitVec w :=
  word >>> shift &&& fieldMask w size

/-- The word with this field replaced. -/
def insertField (word : BitVec w) (shift size : ℕ) (value : BitVec w) : BitVec w :=
  word &&& ~~~(fieldMask w size <<< shift) ||| value <<< shift

theorem toNat_fieldMask {size : ℕ} (hsize : size < w) : (fieldMask w size).toNat = 2 ^ size - 1 := by
  have hw : 1 < 2 ^ w := Nat.one_lt_two_pow (by omega)
  have hlt : 2 ^ size < 2 ^ w := Nat.pow_lt_pow_right (by norm_num) hsize
  have hone : (1#w).toNat = 1 := by rw [BitVec.toNat_ofNat, Nat.mod_eq_of_lt hw]
  have hshift : (1#w <<< size).toNat = 2 ^ size := by
    rw [BitVec.toNat_shiftLeft, hone, Nat.one_shiftLeft, Nat.mod_eq_of_lt hlt]
  have hle : (1#w).toNat ≤ (1#w <<< size).toNat := by
    rw [hone, hshift]
    exact Nat.one_le_two_pow
  rw [fieldMask, BitVec.toNat_sub_of_le hle, hshift, hone]

theorem getLsbD_fieldMask {size : ℕ} (hsize : size < w) (i : ℕ) :
    (fieldMask w size).getLsbD i = decide (i < size) := by
  rw [BitVec.getLsbD, toNat_fieldMask hsize, Nat.testBit_two_pow_sub_one]

/-- A value that fits into a field has no bits above it. -/
theorem getLsbD_of_fits {size i : ℕ} {value : BitVec w} (fits : value.toNat < 2 ^ size)
    (hi : size ≤ i) :
    value.getLsbD i = false :=
  Nat.testBit_lt_two_pow (fits.trans_le (Nat.pow_le_pow_right (by norm_num) hi))

theorem getLsbD_extractField {size shift i : ℕ} (word : BitVec w) (hsize : size < w) :
    (extractField word shift size).getLsbD i = (word.getLsbD (shift + i) && decide (i < size)) := by
  rw [extractField, BitVec.getLsbD_and, BitVec.getLsbD_ushiftRight, getLsbD_fieldMask hsize]

/-- The bits of the field are those of the value, and the other bits are as before. -/
theorem getLsbD_insertField {size shift i : ℕ} (word : BitVec w) {value : BitVec w} (hsize : size < w)
    (fits : value.toNat < 2 ^ size) (hi : i < w) :
    (insertField word shift size value).getLsbD i =
      if shift ≤ i ∧ i < shift + size then value.getLsbD (i - shift) else word.getLsbD i := by
  rw [insertField, BitVec.getLsbD_or, BitVec.getLsbD_and, BitVec.getLsbD_not, BitVec.getLsbD_shiftLeft,
    BitVec.getLsbD_shiftLeft, getLsbD_fieldMask hsize]
  by_cases below : i < shift
  · simp [hi, below, Nat.not_le.mpr below]
  · by_cases inside : i < shift + size
    · have : i - shift < size := by omega
      simp [hi, below, inside, this, Nat.not_lt.mp below]
    · have beyond : size ≤ i - shift := by omega
      simp [hi, below, inside, getLsbD_of_fits fits beyond, Nat.not_lt.mpr beyond]

/-- The value is read back. -/
theorem extract_insert {size shift : ℕ} (word : BitVec w) {value : BitVec w} (hsize : size < w)
    (hshift : shift + size ≤ w) (fits : value.toNat < 2 ^ size) :
    extractField (insertField word shift size value) shift size = value := by
  apply BitVec.eq_of_getLsbD_eq
  intro i _
  rw [getLsbD_extractField _ hsize]
  by_cases inside : i < size
  · rw [getLsbD_insertField word hsize fits (by omega), if_pos (by omega), Nat.add_sub_cancel_left,
      decide_eq_true inside, Bool.and_true]
  · rw [decide_eq_false inside, Bool.and_false, getLsbD_of_fits fits (Nat.not_lt.mp inside)]

/-- A field that shares no bit with it is as before. -/
theorem extract_insert_disjoint {size shift shift' : ℕ} (word : BitVec w) {value : BitVec w}
    (hsize : size < w) (hshift : shift' + size ≤ w) (fits : value.toNat < 2 ^ size)
    (apart : shift + size ≤ shift' ∨ shift' + size ≤ shift) :
    extractField (insertField word shift size value) shift' size = extractField word shift' size := by
  apply BitVec.eq_of_getLsbD_eq
  intro i _
  rw [getLsbD_extractField _ hsize, getLsbD_extractField _ hsize]
  by_cases inside : i < size
  · rw [getLsbD_insertField word hsize fits (by omega), if_neg (by omega)]
  · rw [decide_eq_false inside, Bool.and_false, Bool.and_false]

/-! ### An array of words -/

/-- Field `index` of an array of words, with `w / size` fields in a word. -/
def readField (words : ℕ → BitVec w) (size index : ℕ) : BitVec w :=
  extractField (words (index / (w / size))) (index % (w / size) * size) size

/-- The array with field `index` replaced. -/
def writeField (words : ℕ → BitVec w) (size index : ℕ) (value : BitVec w) : ℕ → BitVec w :=
  Function.update words (index / (w / size))
    (insertField (words (index / (w / size))) (index % (w / size) * size) size value)

/-- A field does not reach over the end of its word. -/
theorem field_in_word {size : ℕ} (hpos : 0 < size) (hsize : size ≤ w) (index : ℕ) :
    index % (w / size) * size + size ≤ w := by
  have hlt : index % (w / size) < w / size := Nat.mod_lt _ (Nat.div_pos hsize hpos)
  calc index % (w / size) * size + size = (index % (w / size) + 1) * size := (Nat.succ_mul _ _).symm
    _ ≤ w / size * size := Nat.mul_le_mul_right size hlt
    _ ≤ w := Nat.div_mul_le_self w size

/-- Fields at different places of a word share no bit. -/
theorem fields_apart {size i j : ℕ} (hne : i ≠ j) :
    i * size + size ≤ j * size ∨ j * size + size ≤ i * size := by
  rcases Nat.lt_or_gt_of_ne hne with below | above
  · left
    calc i * size + size = (i + 1) * size := (Nat.succ_mul _ _).symm
      _ ≤ j * size := Nat.mul_le_mul_right size below
  · right
    calc j * size + size = (j + 1) * size := (Nat.succ_mul _ _).symm
      _ ≤ i * size := Nat.mul_le_mul_right size above

/-- The value is read back. -/
theorem read_write {size : ℕ} (words : ℕ → BitVec w) (index : ℕ) {value : BitVec w} (hpos : 0 < size)
    (hsize : size < w) (fits : value.toNat < 2 ^ size) :
    readField (writeField words size index value) size index = value := by
  rw [readField, writeField, Function.update_self]
  exact extract_insert _ hsize (field_in_word hpos hsize.le index) fits

/-- The other fields are as before. -/
theorem read_write_of_ne {size index other : ℕ} (words : ℕ → BitVec w) {value : BitVec w}
    (hpos : 0 < size)
    (hsize : size < w) (fits : value.toNat < 2 ^ size) (hne : other ≠ index) :
    readField (writeField words size index value) size other = readField words size other := by
  rw [readField, readField, writeField]
  by_cases hword : other / (w / size) = index / (w / size)
  · have hplace : index % (w / size) ≠ other % (w / size) := by
      intro same
      apply hne
      rw [← Nat.div_add_mod other (w / size), hword, ← same, Nat.div_add_mod]
    rw [hword, Function.update_self]
    exact extract_insert_disjoint _ hsize (field_in_word hpos hsize.le other) fits (fields_apart hplace)
  · rw [Function.update_of_ne hword]

end Rpi4Kernel.Theory
