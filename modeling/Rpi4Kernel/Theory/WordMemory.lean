/-
Module: Rpi4Kernel.Theory.WordMemory
Layer: Theory
Purpose: Runs of consecutive words in a memory addressed by 64-bit addresses. A run written from some
  slot on is read back slot by slot, two adjacent runs are one, and a single store is a run of one
  word.
Trusted boundary: none (fully proved)
Main exports: slot, storeWords, storeWords_slot, storeWords_append, update_slot
-/
import Mathlib.Data.BitVec
import Mathlib.Data.List.GetD
import Mathlib.Logic.Function.Basic
import Mathlib.Tactic

namespace Rpi4Kernel.Theory

variable {α : Type}

/-- The address of word `k` from `base` on, for words of 8 bytes. -/
def slot (base : BitVec 64) (k : Nat) : BitVec 64 := base + BitVec.ofNat 64 (8 * k)

/-- Memory with the words `ws` written from slot `k` on. -/
def storeWords (mem : BitVec 64 → α) (base : BitVec 64) (k : Nat) (ws : List α) : BitVec 64 → α :=
  fun a =>
    let offset := (a - base).toNat
    if offset % 8 = 0 ∧ 8 * k ≤ offset then ws.getD (offset / 8 - k) (mem a) else mem a

theorem slot_sub_toNat (base : BitVec 64) {k : Nat} (hk : k < 2 ^ 61) :
    (slot base k - base).toNat = 8 * k := by
  rw [slot, add_sub_cancel_left, BitVec.toNat_ofNat, Nat.mod_eq_of_lt (by omega)]

/-- Two slots of a frame are different addresses. -/
theorem slot_inj {base : BitVec 64} {j k : Nat} (hj : j < 2 ^ 61) (hk : k < 2 ^ 61) :
    slot base j = slot base k ↔ j = k := by
  constructor
  · intro h
    have hsub := slot_sub_toNat base hj
    rw [h, slot_sub_toNat base hk] at hsub
    omega
  · rintro rfl
    rfl

/-- A word of the run is read back; the others are as before. -/
theorem storeWords_slot (mem : BitVec 64 → α) (base : BitVec 64) {j k : Nat} (ws : List α)
    (hj : j < 2 ^ 61) : storeWords mem base k ws (slot base j) =
      if k ≤ j then ws.getD (j - k) (mem (slot base j)) else mem (slot base j) := by
  simp only [storeWords, slot_sub_toNat base hj]
  by_cases hle : k ≤ j
  · rw [if_pos (by omega), if_pos hle, Nat.mul_div_cancel_left j (by norm_num)]
  · rw [if_neg (by omega), if_neg hle]

/-- A single store to a slot is a run of one word. -/
theorem update_slot (mem : BitVec 64 → α) (base : BitVec 64) {k : Nat} (v : α) (hk : k < 2 ^ 61) :
    Function.update mem (slot base k) v = storeWords mem base k [v] := by
  funext a
  by_cases ha : a = slot base k
  · rw [ha, Function.update_self, storeWords_slot _ _ _ hk, if_pos le_rfl, Nat.sub_self]
    rfl
  · rw [Function.update_of_ne ha]
    simp only [storeWords]
    split
    · rename_i h
      have hne : (a - base).toNat ≠ 8 * k := by
        intro heq
        apply ha
        have hback : a = base + (a - base) := by rw [BitVec.add_comm, BitVec.sub_add_cancel]
        rw [hback, slot, ← heq, BitVec.ofNat_toNat, BitVec.setWidth_eq]
      obtain ⟨d, hd⟩ := Nat.exists_eq_add_of_lt (show k < (a - base).toNat / 8 by omega)
      rw [show (a - base).toNat / 8 - k = d + 1 by omega]
      rfl
    · rfl

/-- Two adjacent runs are one run. -/
theorem storeWords_append (mem : BitVec 64 → α) (base : BitVec 64) (k : Nat) (ws vs : List α) :
    storeWords (storeWords mem base k ws) base (k + ws.length) vs =
      storeWords mem base k (ws ++ vs) := by
  funext a
  simp only [storeWords]
  by_cases hslot : (a - base).toNat % 8 = 0 ∧ 8 * k ≤ (a - base).toNat
  · rw [if_pos hslot, if_pos hslot]
    by_cases hlater : 8 * (k + ws.length) ≤ (a - base).toNat
    · have hpast : ws.getD ((a - base).toNat / 8 - k) (mem a) = mem a :=
        List.getD_eq_default _ _ (by omega)
      rw [if_pos ⟨hslot.1, hlater⟩, List.getD_append_right _ _ _ _ (by omega), hpast, Nat.sub_add_eq]
    · rw [if_neg fun h => hlater h.2, List.getD_append _ _ _ _ (by omega)]
  · rw [if_neg hslot, if_neg hslot, if_neg fun h => hslot ⟨h.1, by omega⟩]

theorem storeWords_cons (mem : BitVec 64 → α) (base : BitVec 64) (k : Nat) (w : α) (ws : List α) :
    storeWords mem base k (w :: ws) = storeWords (storeWords mem base k [w]) base (k + 1) ws :=
  (storeWords_append mem base k [w] ws).symm

end Rpi4Kernel.Theory
