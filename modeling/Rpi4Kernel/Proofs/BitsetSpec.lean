/-
Module: Rpi4Kernel.Proofs.BitsetSpec
Layer: Proofs
Purpose: The byte-by-byte bitset operations, with their mask tables, are the bit-by-bit operations of
  `Theory.UnaryCells` on the row of bits that the bytes spell. Inside the array they never fail.
Trusted boundary: none (fully proved)
Main exports: bitRow, bitsetTest_spec, bitsetClear_spec, bitsetClearRange_spec, bitsetSetRange_spec,
  bitsetCountRange_spec
-/
import Rpi4Kernel.Mem.Bits
import Rpi4Kernel.Theory.UnaryCells

namespace Rpi4Kernel.Mem

open Rpi4Kernel.Theory

/-- The bits of a byte array, lowest bit of each byte first. -/
def bitRow (bitset : Bytes) : BitRow := fun k => (bitset.getD (k / 8) 0).getLsbD (k % 8)

/-! ### Masks and population counts -/

theorem getLsbD_bitsetIndexMask {i k : Nat} (hi : i < 8) (hk : k < 8) :
    (bitsetIndexMask.getD i 0).getLsbD k = decide (i = k) := by
  have table : ∀ i < 8, ∀ k < 8, (bitsetIndexMask.getD i 0).getLsbD k = decide (i = k) := by
    decide
  exact table i hi k hk

theorem getLsbD_charMask {f t k : Nat} (hf : f < 8) (ht : t < 8) (hk : k < 8) :
    (charMask f t).getLsbD k = decide (f ≤ k ∧ k ≤ t) := by
  have table : ∀ f < 8, ∀ t < 8, ∀ k < 8,
      (charMask f t).getLsbD k = decide (f ≤ k ∧ k ≤ t) := by
    decide +kernel
  exact table f hf t ht k hk

/-- The nibble table counts the set bits of a byte. -/
theorem popcountByte_eq_count (b : Byte) : popcountByte b = BitRow.count b.getLsbD 0 8 := by
  revert b
  decide +kernel

/-- Counting a byte under a mask counts the bits between the two indices. -/
theorem popcountByte_and_charMask (b : Byte) {f t : Nat} (hft : f ≤ t) (ht : t < 8) :
    popcountByte (b &&& charMask f t) = BitRow.count b.getLsbD f (t + 1 - f) := by
  have hmasked : ∀ k, k < 8 →
      (b &&& charMask f t).getLsbD k = (b.getLsbD k && decide (f ≤ k ∧ k ≤ t)) := by
    intro k hk
    rw [BitVec.getLsbD_and, getLsbD_charMask (by omega) ht hk]
  have hsplit : BitRow.count (b &&& charMask f t).getLsbD 0 8 =
      BitRow.count (b &&& charMask f t).getLsbD 0 (f + ((t + 1 - f) + (7 - t))) := by
    congr 1
    omega
  rw [popcountByte_eq_count, hsplit, BitRow.count_add, BitRow.count_add]
  have hbelow : BitRow.count (b &&& charMask f t).getLsbD 0 f = 0 := by
    apply BitRow.count_of_all_clear
    intro k _ hk
    rw [hmasked k (by omega)]
    simp [show ¬ f ≤ k by omega]
  have habove : BitRow.count (b &&& charMask f t).getLsbD (0 + f + (t + 1 - f)) (7 - t) = 0 := by
    apply BitRow.count_of_all_clear
    intro k hk1 hk2
    rw [hmasked k (by omega)]
    simp [show ¬ k ≤ t by omega]
  have hinside : BitRow.count (b &&& charMask f t).getLsbD (0 + f) (t + 1 - f) =
      BitRow.count b.getLsbD f (t + 1 - f) := by
    rw [Nat.zero_add]
    apply BitRow.count_congr
    intro k hk1 hk2
    rw [hmasked k (by omega)]
    simp [show f ≤ k ∧ k ≤ t by omega]
  rw [hbelow, habove, hinside]
  omega

/-! ### One byte -/

/-- A read-modify-write inside the array changes that byte only. -/
theorem updateBucket_spec {bitset : Bytes} {bucket : Nat} (f : Byte → Byte)
    (h : bucket < bitset.size) :
    ∃ bitset', updateBucket bitset bucket f = some bitset' ∧ bitset'.size = bitset.size ∧
      ∀ i, bitset'.getD i 0 = if i = bucket then f (bitset.getD bucket 0) else bitset.getD i 0 := by
  refine ⟨bitset.setIfInBounds bucket (f (bitset.getD bucket 0)), ?_, by simp, ?_⟩
  · simp [updateBucket, h]
  · intro i
    by_cases hi : i = bucket
    · subst hi
      simp [h]
    · simp [hi, Array.getElem?_setIfInBounds_ne (Ne.symm hi)]

/-- The bits of an array of which some bytes were changed. -/
theorem bitRow_eq_of_getD {bitset' : Bytes} {row : BitRow}
    (h : ∀ i j, j < 8 → (bitset'.getD i 0).getLsbD j = row (8 * i + j)) : bitRow bitset' = row := by
  funext k
  rw [bitRow, h (k / 8) (k % 8) (Nat.mod_lt _ (by omega)), Nat.div_add_mod]

theorem bitRow_eq (bitset : Bytes) (i : Nat) {j : Nat} (hj : j < 8) :
    (bitset.getD i 0).getLsbD j = bitRow bitset (8 * i + j) := by
  rw [bitRow, show (8 * i + j) / 8 = i by omega, show (8 * i + j) % 8 = j by omega]

theorem bitsetTest_spec {bitset : Bytes} {pos : Nat} (h : pos < 8 * bitset.size) :
    bitsetTest bitset pos = some (bitRow bitset pos) := by
  have hbucket : pos / 8 < bitset.size := by omega
  have hindex : pos % 8 < 8 := Nat.mod_lt _ (by omega)
  have hget : bitset[pos / 8]? = some (bitset.getD (pos / 8) 0) := by simp [hbucket]
  simp only [bitsetTest, charBit, hget, Option.pure_def, Option.bind_eq_bind, Option.bind_some,
    Option.some.injEq]
  generalize hb : bitset.getD (pos / 8) 0 = b
  rw [bitRow, hb]
  generalize pos % 8 = j at hindex
  clear hget hb
  revert b
  interval_cases j <;> decide +kernel

theorem bitsetClear_spec {bitset : Bytes} {pos : Nat} (h : pos < 8 * bitset.size) :
    ∃ bitset', bitsetClear bitset pos = some bitset' ∧ bitset'.size = bitset.size ∧
      bitRow bitset' = (bitRow bitset).assign pos 1 false := by
  obtain ⟨bitset', heq, hsize, hbytes⟩ := updateBucket_spec
    (fun b => b &&& ~~~bitsetIndexMask.getD (pos % 8) 0) (show pos / 8 < bitset.size by omega)
  refine ⟨bitset', heq, hsize, bitRow_eq_of_getD fun i j hj => ?_⟩
  rw [hbytes i, BitRow.assign]
  by_cases hi : i = pos / 8
  · rw [if_pos hi, BitVec.getLsbD_and, BitVec.getLsbD_not,
      getLsbD_bitsetIndexMask (Nat.mod_lt _ (by omega)) hj, ← hi, bitRow_eq bitset i hj]
    by_cases hj' : pos % 8 = j
    · simp [show pos = 8 * i + j by omega]
    · have hne : ¬ (pos ≤ 8 * i + j ∧ 8 * i + j < pos + 1) := by omega
      simp only [hj, hj', hne, decide_false, Bool.not_false, Bool.and_true, if_false, decide_true]
  · rw [if_neg hi, if_neg (by omega), bitRow_eq bitset i hj]

/-! ### Ranges -/

/-- The loop over the inner bytes overwrites exactly the bytes strictly between the two ends. -/
theorem fillBuckets_spec (value : Byte) (toBucket : Nat) :
    ∀ (fuel : Nat) (bitset : Bytes) (fromBucket : Nat), fromBucket < toBucket →
      toBucket < bitset.size → toBucket ≤ fromBucket + fuel →
      ∃ bitset', fillBuckets value toBucket fuel bitset fromBucket = some bitset' ∧
        bitset'.size = bitset.size ∧
        ∀ i, bitset'.getD i 0 =
          if fromBucket < i ∧ i < toBucket then value else bitset.getD i 0
  | 0, _, _, h1, _, h3 => by omega
  | fuel + 1, bitset, fromBucket, h1, h2, h3 => by
      unfold fillBuckets
      by_cases hlast : fromBucket + 1 = toBucket
      · rw [if_pos hlast]
        refine ⟨bitset, rfl, rfl, fun i => ?_⟩
        rw [if_neg (by omega)]
      · rw [if_neg hlast]
        obtain ⟨bitset₁, heq₁, hsize₁, hbytes₁⟩ := updateBucket_spec
          (fun _ => value) (show fromBucket + 1 < bitset.size by omega)
        obtain ⟨bitset₂, heq₂, hsize₂, hbytes₂⟩ :=
          fillBuckets_spec value toBucket fuel bitset₁ (fromBucket + 1) (by omega)
            (by omega) (by omega)
        refine ⟨bitset₂, by simp [heq₁, heq₂], by omega, fun i => ?_⟩
        rw [hbytes₂, hbytes₁]
        by_cases hi : i = fromBucket + 1
        · rw [if_neg (by omega), if_pos hi, if_pos (by omega)]
        · by_cases hin : fromBucket + 1 < i ∧ i < toBucket
          · rw [if_pos hin, if_pos (by omega)]
          · rw [if_neg hin, if_neg hi, if_neg (by omega)]

/-- Clearing and setting a range are one argument: a byte under a mask takes the bit `v` where the
    mask is set, and an overwritten byte is all `v`. -/
theorem rangeUpdate_spec {combine : Byte → Byte → Byte} {value : Byte} {v : Bool}
    (hcombine : ∀ (b mask : Byte) (k : Nat), k < 8 →
      (combine b mask).getLsbD k = if mask.getLsbD k then v else b.getLsbD k)
    (hvalue : ∀ k, k < 8 → value.getLsbD k = v)
    {bitset : Bytes} {fromPos toPos : Nat} (hle : fromPos ≤ toPos)
    (hto : toPos < 8 * bitset.size) :
    ∃ bitset', rangeUpdate combine value bitset fromPos toPos = some bitset' ∧
      bitset'.size = bitset.size ∧
      bitRow bitset' = (bitRow bitset).assign fromPos (toPos + 1 - fromPos) v := by
  unfold rangeUpdate
  simp only [charBit]
  by_cases hsame : fromPos / 8 = toPos / 8
  · rw [if_pos hsame]
    obtain ⟨bitset', heq, hsize, hbytes⟩ := updateBucket_spec
      (combine · (charMask (fromPos % 8) (toPos % 8))) (show fromPos / 8 < bitset.size by omega)
    refine ⟨bitset', heq, hsize, bitRow_eq_of_getD fun i j hj => ?_⟩
    rw [hbytes, BitRow.assign]
    by_cases hi : i = fromPos / 8
    · rw [if_pos hi, hcombine _ _ _ hj, getLsbD_charMask (by omega) (by omega) hj, ← hi,
        bitRow_eq bitset i hj]
      simp only [decide_eq_true_eq]
      exact if_congr (by omega) rfl rfl
    · rw [if_neg hi, if_neg (by omega), bitRow_eq bitset i hj]
  · rw [if_neg hsame]
    obtain ⟨bitset₁, heq₁, hsize₁, hbytes₁⟩ := updateBucket_spec
      (combine · (charMask (fromPos % 8) 7)) (show fromPos / 8 < bitset.size by omega)
    obtain ⟨bitset₂, heq₂, hsize₂, hbytes₂⟩ := updateBucket_spec
      (combine · (charMask 0 (toPos % 8))) (show toPos / 8 < bitset₁.size by omega)
    obtain ⟨bitset₃, heq₃, hsize₃, hbytes₃⟩ := fillBuckets_spec value (toPos / 8)
      (bitset₂.size + 1) bitset₂ (fromPos / 8) (by omega) (by omega) (by omega)
    refine ⟨bitset₃, by simp [heq₁, heq₂, heq₃], by omega,
      bitRow_eq_of_getD fun i j hj => ?_⟩
    rw [hbytes₃, hbytes₂, hbytes₁, hbytes₁, BitRow.assign]
    by_cases hinner : fromPos / 8 < i ∧ i < toPos / 8
    · rw [if_pos hinner, if_pos (by omega), hvalue j hj]
    · rw [if_neg hinner]
      by_cases hlast : i = toPos / 8
      · rw [if_pos hlast, if_neg (by omega), hcombine _ _ _ hj,
          getLsbD_charMask (by omega) (by omega) hj, ← hlast, bitRow_eq bitset i hj]
        simp only [decide_eq_true_eq]
        exact if_congr (by omega) rfl rfl
      · rw [if_neg hlast]
        by_cases hfirst : i = fromPos / 8
        · rw [if_pos hfirst, hcombine _ _ _ hj, getLsbD_charMask (by omega) (by omega) hj, ← hfirst,
            bitRow_eq bitset i hj]
          simp only [decide_eq_true_eq]
          exact if_congr (by omega) rfl rfl
        · rw [if_neg hfirst, if_neg (by omega), bitRow_eq bitset i hj]

theorem bitsetClearRange_spec {bitset : Bytes} {fromPos toPos : Nat} (hle : fromPos ≤ toPos)
    (hto : toPos < 8 * bitset.size) :
    ∃ bitset', bitsetClearRange bitset fromPos toPos = some bitset' ∧
      bitset'.size = bitset.size ∧
      bitRow bitset' = (bitRow bitset).assign fromPos (toPos + 1 - fromPos) false := by
  apply rangeUpdate_spec _ _ hle hto
  · intro b mask k hk
    rw [BitVec.getLsbD_and, BitVec.getLsbD_not]
    cases mask.getLsbD k <;> simp [hk]
  · intro k _
    simp

theorem bitsetSetRange_spec {bitset : Bytes} {fromPos toPos : Nat} (hle : fromPos ≤ toPos)
    (hto : toPos < 8 * bitset.size) :
    ∃ bitset', bitsetSetRange bitset fromPos toPos = some bitset' ∧
      bitset'.size = bitset.size ∧
      bitRow bitset' = (bitRow bitset).assign fromPos (toPos + 1 - fromPos) true := by
  apply rangeUpdate_spec _ _ hle hto
  · intro b mask k _
    rw [BitVec.getLsbD_or]
    cases mask.getLsbD k <;> simp
  · decide

/-- The bits of one byte, as part of the row. -/
theorem count_bitRow_bucket (bitset : Bytes) (i f len : Nat) (h : f + len ≤ 8) :
    (bitRow bitset).count (8 * i + f) len = BitRow.count (bitset.getD i 0).getLsbD f len := by
  unfold BitRow.count
  rw [← List.map_add_range' (a := 8 * i), List.countP_map]
  apply List.countP_congr
  intro k hk
  rw [List.mem_range'_1] at hk
  simp only [Function.comp_apply]
  rw [bitRow_eq bitset i (by omega)]

/-- The loop over the inner bytes adds their set bits. -/
theorem countBuckets_spec {bitset : Bytes} {toBucket : Nat} (hto : toBucket < bitset.size) :
    ∀ (fuel fromBucket result : Nat), fromBucket < toBucket → toBucket ≤ fromBucket + fuel →
      countBuckets bitset toBucket fuel fromBucket result =
        some (result + (bitRow bitset).count (8 * (fromBucket + 1))
          (8 * (toBucket - fromBucket - 1)))
  | 0, _, _, h1, h2 => by omega
  | fuel + 1, fromBucket, result, h1, h2 => by
      unfold countBuckets
      by_cases hlast : fromBucket + 1 = toBucket
      · rw [if_pos hlast, show 8 * (toBucket - fromBucket - 1) = 0 by omega]
        simp [BitRow.count]
      · have hget : bitset[fromBucket + 1]? = some (bitset.getD (fromBucket + 1) 0) := by
          simp [show fromBucket + 1 < bitset.size by omega]
        have hbyte := count_bitRow_bucket bitset (fromBucket + 1) 0 8 le_rfl
        rw [if_neg hlast, hget, Option.bind_eq_bind, Option.bind_some,
          countBuckets_spec hto fuel (fromBucket + 1) _ (by omega) (by omega),
          popcountByte_eq_count, ← hbyte,
          show 8 * (toBucket - fromBucket - 1) = 8 + 8 * (toBucket - (fromBucket + 1) - 1) by omega,
          BitRow.count_add]
        simp only [Nat.add_zero, Nat.mul_add, Nat.add_assoc]

theorem bitsetCountRange_spec {bitset : Bytes} {fromPos toPos : Nat} (hle : fromPos ≤ toPos)
    (hto : toPos < 8 * bitset.size) :
    bitsetCountRange bitset fromPos toPos =
      some ((bitRow bitset).count fromPos (toPos + 1 - fromPos)) := by
  have hfirst : bitset[fromPos / 8]? = some (bitset.getD (fromPos / 8) 0) := by
    simp [show fromPos / 8 < bitset.size by omega]
  have hlast : bitset[toPos / 8]? = some (bitset.getD (toPos / 8) 0) := by
    simp [show toPos / 8 < bitset.size by omega]
  unfold bitsetCountRange
  simp only [charBit, hfirst, hlast, Option.bind_eq_bind, Option.bind_some, Option.pure_def]
  by_cases hsame : fromPos / 8 = toPos / 8
  · rw [if_pos hsame, popcountByte_and_charMask _ (by omega) (by omega),
      ← count_bitRow_bucket bitset _ _ _ (by omega),
      show 8 * (fromPos / 8) + fromPos % 8 = fromPos by omega,
      show toPos % 8 + 1 - fromPos % 8 = toPos + 1 - fromPos by omega]
  · rw [if_neg hsame, countBuckets_spec (by omega) _ _ _ (by omega) (by omega),
      popcountByte_and_charMask _ (by omega) (by omega),
      popcountByte_and_charMask _ (by omega) (by omega),
      ← count_bitRow_bucket bitset _ _ _ (by omega), ← count_bitRow_bucket bitset _ _ _ (by omega)]
    -- the range is the end of its first byte, the inner bytes and the start of its last byte
    have hsplit : toPos + 1 - fromPos =
        (7 + 1 - fromPos % 8) + (8 * (toPos / 8 - fromPos / 8 - 1) + (toPos % 8 + 1 - 0)) := by
      omega
    rw [hsplit, BitRow.count_add, BitRow.count_add,
      show 8 * (fromPos / 8) + fromPos % 8 = fromPos by omega,
      show fromPos + (7 + 1 - fromPos % 8) = 8 * (fromPos / 8 + 1) by omega,
      show 8 * (fromPos / 8 + 1) + 8 * (toPos / 8 - fromPos / 8 - 1) = 8 * (toPos / 8) + 0 by omega]
    congr 1
    omega

end Rpi4Kernel.Mem
