/-
Module: Rpi4Kernel.Proofs.ArrayListSpec
Layer: Proofs
Purpose: The sort of `ArrayList` ends, accesses no slot outside the list, permutes it and puts it in
  order; after it, removing an element that is present by binary search succeeds and takes out exactly
  one occurrence.
Trusted boundary: none (fully proved)
Main exports: quickSortRange_spec, binarySearchRange_spec, ArrayList.quickSort_spec,
  ArrayList.quickSort_correct, ArrayList.removeElement_spec
-/
import Rpi4Kernel.Stdlib.ArrayList
import Rpi4Kernel.Theory.RangeOrder

namespace Rpi4Kernel.Stdlib

open Rpi4Kernel.Theory

variable {α : Type} {d : α} {a b : List α} {lo hi i j : ℕ}

/-! ### Accesses inside the list -/

theorem readAt_natCast (d : α) (h : i < a.length) : readAt a i = some (a.getD i d) := by
  simp [readAt, List.getD_eq_getElem?_getD, h]

theorem mem_of_readAt {i : Int} {x : α} (h : readAt a i = some x) : x ∈ a := by
  unfold readAt at h
  split at h
  · cases h
  · exact List.mem_of_getElem? h

theorem writeAt_natCast (h : i < a.length) (x : α) : writeAt a i x = some (a.set i x) := by
  rw [writeAt, if_neg (by omega), Int.toNat_natCast]

theorem move_natCast (d : α) (hi : i < a.length) (hj : j < a.length) :
    move a i j = some (swapped d a i j) := by
  rw [move, if_pos (by omega), readAt_natCast d hi, readAt_natCast d hj]
  simp only [bind, Option.bind, writeAt_natCast hi]
  rw [writeAt_natCast (by simpa using hj)]
  rfl

/-! ### Insertion sort -/

/-- Shifting the element before the hole `j + 1` up and the hole down exchanges the two slots. -/
theorem set_shift (hj : j + 1 < a.length) (x : α) :
    (a.set (j + 1) (a.getD j d)).set j x = swapped d (a.set (j + 1) x) j (j + 1) := by
  rw [swapped, getD_set_self hj, getD_set_ne (by omega), List.set_comm _ _ (by omega : j ≠ j + 1),
    List.set_set, List.set_comm _ _ (by omega : j + 1 ≠ j)]

variable [LinearOrder α]

/-- The slots from `lo` to `i` while the element in slot `j` looks for its place: the others are in
    order, and it is not larger than those behind it. -/
structure Inserting (d : α) (lo i j : ℕ) (b : List α) : Prop where
  others : ∀ m k, lo ≤ m → m ≤ k → k ≤ i → m ≠ j → k ≠ j → b.getD m d ≤ b.getD k d
  behind : ∀ k, j < k → k ≤ i → b.getD j d ≤ b.getD k d

theorem Inserting.sortedOn (h : Inserting d lo i j b)
    (hbefore : j = lo ∨ lo < j ∧ b.getD (j - 1) d ≤ b.getD j d) : SortedOn d lo i b := by
  intro m k hm hmk hk
  by_cases hmj : m = j
  · subst hmj
    rcases Nat.eq_or_lt_of_le hmk with rfl | hlt
    · exact le_refl _
    · exact h.behind k hlt hk
  by_cases hkj : k = j
  · subst hkj
    obtain hk' | ⟨hlo, hle⟩ := hbefore
    · omega
    · exact (h.others m (k - 1) hm (by omega) (by omega) hmj (by omega)).trans hle
  · exact h.others m k hm hmk hk hmj hkj

theorem Inserting.shift (h : Inserting d lo i (j + 1) b) (hj : j + 1 < b.length) (hji : j + 1 ≤ i)
    (hlt : b.getD (j + 1) d < b.getD j d) (hlo : lo ≤ j) :
    Inserting d lo i j (swapped d b j (j + 1)) := by
  have hleft : (swapped d b j (j + 1)).getD j d = b.getD (j + 1) d :=
    getD_swapped_left (by omega) hj
  have hright : (swapped d b j (j + 1)).getD (j + 1) d = b.getD j d := getD_swapped_right hj
  constructor
  · intro m k hm hmk hk hmj hkj
    by_cases hm1 : m = j + 1
    · subst hm1
      rcases Nat.eq_or_lt_of_le hmk with rfl | hlt'
      · exact le_refl _
      · rw [hright, getD_swapped_ne hkj (by omega)]
        exact h.others j k hlo (by omega) hk (by omega) (by omega)
    · by_cases hk1 : k = j + 1
      · subst hk1
        rw [hright, getD_swapped_ne hmj hm1]
        exact h.others m j hm (by omega) (by omega) hm1 (by omega)
      · rw [getD_swapped_ne hmj hm1, getD_swapped_ne hkj hk1]
        exact h.others m k hm hmk hk hm1 hk1
  · intro k hjk hk
    rw [hleft]
    by_cases hk1 : k = j + 1
    · rw [hk1, hright]
      exact hlt.le
    · rw [getD_swapped_ne (by omega) hk1]
      exact h.behind k (by omega) hk

/-- The inner loop of the insertion sort: the induction is on the slot of the hole. -/
theorem insertElement_spec (lo : ℕ) (hlow : ∀ k m, k < lo → lo ≤ m → m ≤ i → a.getD k d ≤ a.getD m d)
    (hia : i < a.length) (x : α) :
    ∀ j (a' : List α), lo ≤ j → j ≤ i → Rearranged d lo i a (a'.set j x) →
      Inserting d lo i j (a'.set j x) → ∃ b, insertElement a' x j = some b ∧
        Rearranged d lo i a b ∧ SortedOn d lo i b := by
  intro j
  induction j with
  | zero =>
    intro a' hlo _ hre hin
    have hlen : a'.length = a.length := by simpa using hre.length_eq
    refine ⟨a'.set 0 x, ?_, hre, hin.sortedOn (.inl (by omega))⟩
    simpa [insertElement] using writeAt_natCast (i := 0) (by omega) x
  | succ j ih =>
    intro a' hlo hji hre hin
    have hlen : a'.length = a.length := by simpa using hre.length_eq
    have hj : j + 1 < a'.length := by omega
    have hslot : (a'.set (j + 1) x).getD (j + 1) d = x := getD_set_self hj x
    have hbefore : (a'.set (j + 1) x).getD j d = a'.getD j d := getD_set_ne (by omega) x
    rw [insertElement, readAt_natCast d (by omega)]
    simp only [bind, Option.bind]
    split
    case isTrue hle =>
      refine ⟨_, writeAt_natCast hj x, hre, hin.sortedOn ?_⟩
      by_cases hlo' : j + 1 = lo
      · exact .inl hlo'
      · right
        rw [Nat.add_sub_cancel, hslot, hbefore]
        exact ⟨by omega, hle⟩
    case isFalse hle =>
      have hlt : x < a'.getD j d := not_le.mp hle
      -- the slot before the range is not larger, so the hole has not reached the range's first slot
      have hlo' : lo ≤ j := by
        by_contra hlo'
        have hrange := hre.forall_inside (p := fun y => a.getD j d ≤ y)
          (fun m hm hm' => hlow j m (by omega) hm hm') (j + 1) hlo hji
        rw [hslot, ← hre.outside j (by omega), hbefore] at hrange
        exact hle hrange
      rw [writeAt_natCast hj]
      have hshift := set_shift (d := d) hj x
      refine ih _ hlo' (by omega) ?_ ?_
      · rw [hshift]
        exact hre.trans (.swapped hlo' (by omega) hlo hji (by simpa using by omega) (by simpa using hj))
      · rw [hshift]
        exact hin.shift (by simpa using hj) hji (by rw [hslot, hbefore]; exact hlt) hlo'

/-- The outer loop of the insertion sort: the slots before `i` are in order. -/
theorem insertionSortLoop_spec :
    ∀ n i (a : List α), lo ≤ i → i + n = hi + 1 → hi < a.length →
      (∀ k m, k < lo → lo ≤ m → m ≤ hi → a.getD k d ≤ a.getD m d) →
      (∀ m k, lo ≤ m → m ≤ k → k < i → a.getD m d ≤ a.getD k d) →
      ∃ b, insertionSortLoop a i n = some b ∧ Rearranged d lo hi a b ∧ SortedOn d lo hi b := by
  intro n
  induction n with
  | zero =>
    intro i a _ hn _ _ hsorted
    exact ⟨a, rfl, .refl, fun m k hm hmk hk => hsorted m k hm hmk (by omega)⟩
  | succ n ih =>
    intro i a hloi hn hhi hlow hsorted
    have hia : i < a.length := by omega
    have hself : a.set i (a.getD i d) = a := set_getD hia
    obtain ⟨b, hb, hre, hbs⟩ := insertElement_spec (d := d) lo
      (fun k m hk hm hm' => hlow k m hk hm (by omega)) hia (a.getD i d) i a hloi le_rfl
      (by rw [hself]; exact .refl)
      (by
        rw [hself]
        exact ⟨fun m k hm hmk hk _ hki => hsorted m k hm hmk (by omega), fun k hk hk' => by omega⟩)
    have hre' : Rearranged d lo hi a b := hre.mono le_rfl (by omega)
    obtain ⟨c, hc, hbc, hcs⟩ := ih (i + 1) b (by omega) (by omega) (hre.length_eq ▸ hhi)
      (fun k m hk hm hm' => by
        rw [hre'.outside k (.inl hk)]
        exact hre'.forall_inside (fun m hm hm' => hlow k m hk hm hm') m hm hm')
      (fun m k hm hmk hk => hbs m k hm hmk (by omega))
    refine ⟨c, ?_, hre'.trans hbc, hcs⟩
    rw [insertionSortLoop, readAt_natCast d hia]
    simp only [bind, Option.bind, hb]
    exact hc

theorem insertionSort_spec (hlohi : lo ≤ hi) (hhi : hi < a.length)
    (hlow : ∀ k m, k < lo → lo ≤ m → m ≤ hi → a.getD k d ≤ a.getD m d) :
    ∃ b, insertionSort a lo hi = some b ∧ Rearranged d lo hi a b ∧ SortedOn d lo hi b := by
  rcases Nat.eq_or_lt_of_le hlohi with rfl | hlt
  · exact ⟨a, by rw [insertionSort, if_neg (by omega)], .refl, sortedOn_of_le le_rfl⟩
  · rw [insertionSort, if_pos (by omega), Int.toNat_natCast,
      show ((hi : Int) - lo + 1).toNat = hi - lo + 1 by omega]
    exact insertionSortLoop_spec _ lo a le_rfl (by omega) hhi hlow fun m k hm hmk hk => by omega

/-! ### Choosing the pivot -/

theorem exchange_spec (d : α) (lo hi i j : ℕ) (hi_lo : lo ≤ i) (hi_hi : i ≤ hi) (hj_lo : lo ≤ j)
    (hj_hi : j ≤ hi) (hhi : hi < a.length) :
    ∃ b, exchange a i j = some b ∧
      Rearranged d lo hi a b ∧ b.getD i d = min (a.getD i d) (a.getD j d) ∧
      b.getD j d = max (a.getD i d) (a.getD j d) ∧
      ∀ k, k ≠ i → k ≠ j → b.getD k d = a.getD k d := by
  have hia : i < a.length := by omega
  have hja : j < a.length := by omega
  rw [exchange, readAt_natCast d hia, readAt_natCast d hja]
  simp only [bind, Option.bind]
  split
  case isTrue h =>
    refine ⟨_, move_natCast d hia hja, .swapped hi_lo hi_hi hj_lo hj_hi hia hja, ?_, ?_,
      fun k hki hkj => getD_swapped_ne hki hkj⟩
    · rw [getD_swapped_left hia hja, min_eq_right (le_of_lt h)]
    · rw [getD_swapped_right hja, max_eq_left (le_of_lt h)]
  case isFalse h =>
    have hle := not_lt.mp h
    exact ⟨a, rfl, .refl, (min_eq_left hle).symm, (max_eq_right hle).symm, fun _ _ _ => rfl⟩

theorem choosePivot_spec (d : α) (hlohi : lo + 10 ≤ hi) (hhi : hi < a.length) :
    ∃ b, choosePivot a lo hi = some b ∧ Rearranged d lo hi a b ∧
      b.getD lo d ≤ b.getD (hi - 1) d ∧ b.getD (hi - 1) d ≤ b.getD hi d := by
  obtain ⟨c, hc⟩ : ∃ c, c = (lo + hi) / 2 := ⟨_, rfl⟩
  have hcenter : ((lo : Int) + hi) / 2 = (c : Int) := by omega
  obtain ⟨a₁, h₁, hre₁, hlo₁, hc₁, hne₁⟩ :=
    exchange_spec d lo hi lo c le_rfl (by omega) (by omega) (by omega) hhi
  have hlen₁ : a₁.length = a.length := hre₁.length_eq
  obtain ⟨a₂, h₂, hre₂, hlo₂, hhi₂, hne₂⟩ :=
    exchange_spec (a := a₁) d lo hi lo hi le_rfl (by omega) (by omega) le_rfl (by omega)
  have hlen₂ : a₂.length = a.length := hre₂.length_eq.trans hlen₁
  obtain ⟨a₃, h₃, hre₃, hc₃, hhi₃, hne₃⟩ :=
    exchange_spec (a := a₂) d lo hi c hi (by omega) (by omega) (by omega) le_rfl (by omega)
  have hlen₃ : a₃.length = a.length := hre₃.length_eq.trans hlen₂
  have hpivot : ((hi : Int) - 1) = ((hi - 1 : ℕ) : Int) := by omega
  refine ⟨swapped d a₃ c (hi - 1), ?_, ?_, ?_, ?_⟩
  · simp only [choosePivot, hcenter, bind, Option.bind, h₁, h₂, h₃, hpivot]
    exact move_natCast d (by omega) (by omega)
  · exact ((hre₁.trans hre₂).trans hre₃).trans
      (.swapped (by omega) (by omega) (by omega) (by omega) (by omega) (by omega))
  · rw [getD_swapped_ne (by omega) (by omega), getD_swapped_right (by omega),
      hne₃ lo (by omega) (by omega), hc₃, hlo₂, hhi₂, hne₂ c (by omega) (by omega), hlo₁, hc₁]
    grind
  · rw [getD_swapped_right (by omega), getD_swapped_ne (by omega) (by omega), hc₃, hhi₃]
    grind

/-! ### Partitioning -/

/-- The scan from `i` upwards stops at the latest at a slot whose element is not smaller than the
    pivot. -/
theorem scanUp_spec (pivot stop : ℕ) (hpivot : pivot < a.length) (hstop : stop < a.length)
    (hge : a.getD pivot d ≤ a.getD stop d) :
    ∀ fuel i, i < stop → stop < i + fuel + 1 →
      ∃ i' : ℕ, scanUp a pivot fuel i = some (i' : Int) ∧ i < i' ∧ i' ≤ stop ∧
        (∀ k, i < k → k < i' → a.getD k d ≤ a.getD pivot d) ∧ a.getD pivot d ≤ a.getD i' d := by
  intro fuel
  induction fuel with
  | zero => intro i hi hf; omega
  | succ fuel ih =>
    intro i hi hf
    have hnext : ((i : Int) + 1) = ((i + 1 : ℕ) : Int) := by omega
    simp only [scanUp, hnext, readAt_natCast d (show i + 1 < a.length by omega),
      readAt_natCast d hpivot, bind, Option.bind]
    split
    case isTrue hlt =>
      have hne : i + 1 ≠ stop := fun h => absurd hge (by rw [← h]; exact not_le.mpr hlt)
      obtain ⟨i', hi', hlt', hle', hbelow, hpi'⟩ := ih (i + 1) (by omega) (by omega)
      refine ⟨i', hi', by omega, hle', fun k hk hk' => ?_, hpi'⟩
      by_cases hk1 : k = i + 1
      · exact hk1 ▸ hlt.le
      · exact hbelow k (by omega) hk'
    case isFalse hnlt =>
      exact ⟨i + 1, rfl, by omega, by omega, fun k hk hk' => by omega, not_lt.mp hnlt⟩

theorem scanDown_spec (pivot stop : ℕ) (hpivot : pivot < a.length)
    (hle : a.getD stop d ≤ a.getD pivot d) :
    ∀ fuel j, stop < j → j < a.length → j < stop + fuel + 1 →
      ∃ j' : ℕ, scanDown a pivot fuel j = some (j' : Int) ∧ j' < j ∧ stop ≤ j' ∧
        (∀ k, j' < k → k < j → a.getD pivot d ≤ a.getD k d) ∧ a.getD j' d ≤ a.getD pivot d := by
  intro fuel
  induction fuel with
  | zero => intro j hj _ hf; omega
  | succ fuel ih =>
    intro j hj hja hf
    have hnext : ((j : Int) - 1) = ((j - 1 : ℕ) : Int) := by omega
    simp only [scanDown, hnext, readAt_natCast d (show j - 1 < a.length by omega),
      readAt_natCast d hpivot, bind, Option.bind]
    split
    case isTrue hgt =>
      have hne : j - 1 ≠ stop := fun h => absurd hle (by rw [← h]; exact not_le.mpr hgt)
      obtain ⟨j', hj', hlt', hle', habove, hpj'⟩ := ih (j - 1) (by omega) (by omega) (by omega)
      refine ⟨j', hj', by omega, hle', fun k hk hk' => ?_, hpj'⟩
      by_cases hk1 : k = j - 1
      · exact hk1 ▸ le_of_lt hgt
      · exact habove k hk (by omega)
    case isFalse hngt =>
      exact ⟨j - 1, rfl, by omega, by omega, fun k hk hk' => by omega, not_lt.mp hngt⟩

/-- The state of the partition loop: what lies before `i` and at it is at most the pivot, what lies
    from `j` on is at least the pivot, which sits in the last slot but one. -/
structure Partitioning (d : α) (lo hi i j : ℕ) (a : List α) : Prop where
  low : lo ≤ i
  lt : i < j
  high : j < hi
  below : ∀ k, lo ≤ k → k ≤ i → a.getD k d ≤ a.getD (hi - 1) d
  above : ∀ k, j ≤ k → k ≤ hi → a.getD (hi - 1) d ≤ a.getD k d

/-- The loop ends with `i` at the pivot's place: all before it is at most the pivot, all from it on at
    least. The distance of `j` from `i` shrinks with every turn. -/
theorem partitionLoop_spec (d : α) (lo hi : ℕ) :
    ∀ fuel i j (a : List α), hi < a.length → Partitioning d lo hi i j a → j < i + fuel →
      ∃ (b : List α) (i' : ℕ), partitionLoop ((hi : Int) - 1) fuel a i j = some (b, (i' : Int)) ∧
        Rearranged d lo hi a b ∧ lo < i' ∧ i' < hi ∧
        (∀ k, lo ≤ k → k < i' → b.getD k d ≤ b.getD (hi - 1) d) ∧
        ∀ k, i' ≤ k → k ≤ hi → b.getD (hi - 1) d ≤ b.getD k d := by
  intro fuel
  induction fuel with
  | zero => intro i j a _ h hf; have := h.lt; omega
  | succ fuel ih =>
    intro i j a hhi h hf
    obtain ⟨hlow, hlt, hhigh, hbelow, habove⟩ := h
    have hpivot : ((hi : Int) - 1) = ((hi - 1 : ℕ) : Int) := by omega
    obtain ⟨i', hscani, hii', hi'j, hbelow', hgei'⟩ :=
      scanUp_spec (hi - 1) j (by omega) (by omega) (habove j le_rfl (by omega)) (a.length + 1) i hlt
        (by omega)
    obtain ⟨j', hscanj, hj'j, hij', habove', hlej'⟩ :=
      scanDown_spec (hi - 1) i (by omega) (hbelow i hlow le_rfl) (a.length + 1) j hlt (by omega)
        (by omega)
    have hallBelow : ∀ k, lo ≤ k → k < i' → a.getD k d ≤ a.getD (hi - 1) d := fun k hk hk' =>
      if hki : k ≤ i then hbelow k hk hki else hbelow' k (by omega) hk'
    have hallAbove : ∀ k, j' < k → k ≤ hi → a.getD (hi - 1) d ≤ a.getD k d := fun k hk hk' =>
      if hkj : k < j then habove' k hk hkj else habove k (by omega) hk'
    rw [partitionLoop, hpivot]
    simp only [hscani, hscanj, bind, Option.bind, Int.ofNat_lt]
    split
    case isTrue hlt' =>
      rw [move_natCast d (show i' < a.length by omega) (show j' < a.length by omega), ← hpivot]
      have hslot : (swapped d a i' j').getD (hi - 1) d = a.getD (hi - 1) d :=
        getD_swapped_ne (by omega) (by omega)
      obtain ⟨b, i'', hb, hre, hlo'', hhi'', hbs, has⟩ := ih i' j' (swapped d a i' j')
        (by simpa using hhi)
        { low := by omega
          lt := hlt'
          high := by omega
          below := fun k hk hk' => by
            rw [hslot]
            rcases Nat.eq_or_lt_of_le hk' with rfl | hlt''
            · rwa [getD_swapped_left (by omega) (by omega)]
            · rw [getD_swapped_ne (by omega) (by omega)]
              exact hallBelow k hk hlt''
          above := fun k hk hk' => by
            rw [hslot]
            rcases Nat.eq_or_lt_of_le hk with rfl | hlt''
            · rwa [getD_swapped_right (by omega)]
            · rw [getD_swapped_ne (by omega) (by omega)]
              exact hallAbove k hlt'' hk' }
        (by omega)
      refine ⟨b, i'', hb, ?_, hlo'', hhi'', hbs, has⟩
      exact .trans (.swapped (by omega) (by omega) (by omega) (by omega) (by omega) (by omega)) hre
    case isFalse hge =>
      refine ⟨a, i', rfl, .refl, by omega, by omega, hallBelow, fun k hk hk' => ?_⟩
      rcases Nat.eq_or_lt_of_le hk with rfl | hlt''
      · exact hgei'
      · exact hallAbove k (by omega) hk'

/-! ### Quicksort -/

/-- The sort of a range: the induction is on the fuel, which the length of the range bounds. What lies
    before the range must not be larger than what is in it, because the insertion sort looks there. -/
theorem quickSortRange_spec :
    ∀ fuel lo hi (a : List α), lo ≤ hi → hi < a.length → hi < lo + fuel →
      (∀ k m, k < lo → lo ≤ m → m ≤ hi → a.getD k d ≤ a.getD m d) →
      ∃ b, quickSortRange fuel a lo hi = some b ∧ Rearranged d lo hi a b ∧ SortedOn d lo hi b := by
  intro fuel
  induction fuel with
  | zero => intro lo hi a _ _ _; omega
  | succ fuel ih =>
    intro lo hi a hlohi hhi hf hlow
    rw [quickSortRange]
    split
    case isTrue hlarge =>
      have hpivot : ((hi : Int) - 1) = ((hi - 1 : ℕ) : Int) := by omega
      obtain ⟨a₁, h₁, hre₁, hle₁, hge₁⟩ := choosePivot_spec d (show lo + 10 ≤ hi by omega) hhi
      have hlen₁ := hre₁.length_eq
      obtain ⟨a₂, i, h₂, hre₂, hloi, hihi, hbelow₂, habove₂⟩ :=
        partitionLoop_spec d lo hi (a₁.length + 1) lo (hi - 1) a₁ (by omega)
          { low := le_rfl
            lt := by omega
            high := by omega
            below := fun k hk hk' => by rwa [show k = lo by omega]
            above := fun k hk hk' => by
              rcases Nat.eq_or_lt_of_le hk with rfl | hlt
              · exact le_rfl
              · rwa [show k = hi by omega] }
          (by omega)
      have hlen₂ := hre₂.length_eq
      have hia : i < a₂.length := by omega
      have hpa : hi - 1 < a₂.length := by omega
      -- the pivot goes into slot `i`
      obtain ⟨a₃, ha₃⟩ : ∃ a₃, a₃ = swapped d a₂ i (hi - 1) := ⟨_, rfl⟩
      have hlen₃ : a₃.length = a₂.length := by rw [ha₃, length_swapped]
      have hslot₃ : a₃.getD i d = a₂.getD (hi - 1) d := by rw [ha₃, getD_swapped_left hia hpa]
      have hre₃ : Rearranged d lo hi a a₃ := by
        rw [ha₃]
        exact (hre₁.trans hre₂).trans
          (.swapped (by omega) (by omega) (by omega) (by omega) hia hpa)
      have hbelow₃ : ∀ k, lo ≤ k → k ≤ i - 1 → a₃.getD k d ≤ a₃.getD i d := by
        intro k hk hk'
        rw [hslot₃, ha₃, getD_swapped_ne (by omega) (by omega)]
        exact hbelow₂ k hk (by omega)
      have habove₃ : ∀ k, i + 1 ≤ k → k ≤ hi → a₃.getD i d ≤ a₃.getD k d := by
        intro k hk hk'
        rw [hslot₃, ha₃]
        by_cases hkp : k = hi - 1
        · rw [hkp, getD_swapped_right hpa]
          exact habove₂ i le_rfl (by omega)
        · rw [getD_swapped_ne (by omega) hkp]
          exact habove₂ k (by omega) hk'
      have hlow₃ : ∀ k m, k < lo → lo ≤ m → m ≤ hi → a₃.getD k d ≤ a₃.getD m d := by
        intro k m hk hm hm'
        rw [hre₃.outside k (.inl hk)]
        exact hre₃.forall_inside (fun m hm hm' => hlow k m hk hm hm') m hm hm'
      obtain ⟨a₄, h₄, hre₄, hsorted₄⟩ := ih lo (i - 1) a₃ (by omega) (by omega) (by omega)
        (fun k m hk hm hm' => hlow₃ k m hk hm (by omega))
      have hlen₄ := hre₄.length_eq
      have hslot₄ : a₄.getD i d = a₃.getD i d := hre₄.outside i (by omega)
      have hbelow₄ : ∀ k, lo ≤ k → k ≤ i - 1 → a₄.getD k d ≤ a₄.getD i d := by
        rw [hslot₄]
        exact hre₄.forall_inside (p := (· ≤ a₃.getD i d)) hbelow₃
      have habove₄ : ∀ k, i + 1 ≤ k → k ≤ hi → a₄.getD i d ≤ a₄.getD k d := by
        intro k hk hk'
        rw [hslot₄, hre₄.outside k (by omega)]
        exact habove₃ k hk hk'
      obtain ⟨a₅, h₅, hre₅, hsorted₅⟩ := ih (i + 1) hi a₄ (by omega) (by omega) (by omega)
        (fun k m hk hm hm' => by
          rcases Nat.lt_or_ge k lo with hklo | hklo
          · rw [hre₄.outside k (by omega), hre₄.outside m (by omega)]
            exact hlow₃ k m hklo (by omega) hm'
          · refine le_trans ?_ (habove₄ m hm hm')
            rcases Nat.eq_or_lt_of_le (show k ≤ i by omega) with rfl | hki
            · exact le_rfl
            · exact hbelow₄ k hklo (by omega))
      have hslot₅ : a₅.getD i d = a₄.getD i d := hre₅.outside i (by omega)
      have hstart : ((i : Int) - 1) = ((i - 1 : ℕ) : Int) := by omega
      have hnext : ((i : Int) + 1) = ((i + 1 : ℕ) : Int) := by omega
      refine ⟨a₅, ?_, ?_, ?_⟩
      · rw [hpivot] at h₂ ⊢
        simp only [bind, Option.bind, h₁, h₂, move_natCast d hia hpa, ← ha₃, hstart, h₄, hnext, h₅]
      · exact (hre₃.trans (hre₄.mono le_rfl (by omega))).trans (hre₅.mono (by omega) le_rfl)
      · refine (hsorted₄.of_outside hre₅ (by omega)).around hsorted₅ ?_ ?_
        · intro k hk hk'
          rw [hslot₅, hre₅.outside k (by omega)]
          exact hbelow₄ k hk (by omega)
        · rw [hslot₅]
          exact fun k hk hk' => hre₅.forall_inside (p := (a₄.getD i d ≤ ·)) habove₄ k (by omega) hk'
    case isFalse => exact insertionSort_spec hlohi hhi hlow

/-! ### Binary search -/

/-- The search of a range that is in order and holds the element ends at a slot that holds it: a range
    of one slot needs no comparison then. -/
theorem binarySearchRange_spec (x : α) :
    ∀ fuel lo hi, hi < a.length → SortedOn d lo hi a →
      (∃ m, lo ≤ m ∧ m ≤ hi ∧ a.getD m d = x) → hi < lo + fuel →
      ∃ i : ℕ, binarySearchRange a x fuel lo hi = some (i : Int) ∧ i ≤ hi ∧ a.getD i d = x := by
  intro fuel
  induction fuel with
  | zero => intro lo hi _ _ hx hf; obtain ⟨m, _, _, _⟩ := hx; omega
  | succ fuel ih =>
    intro lo hi hhi hsorted hx hf
    obtain ⟨m, hlom, hmhi, hm⟩ := hx
    rw [binarySearchRange]
    split
    case isTrue hlt =>
      obtain ⟨p, hp⟩ : ∃ p, p = (lo + hi) / 2 := ⟨_, rfl⟩
      have hpivot : ((lo : Int) + hi) / 2 = (p : Int) := by omega
      simp only [hpivot, readAt_natCast d (show p < a.length by omega), bind, Option.bind]
      split
      case isTrue hbelow =>
        -- the element lies before the pivot
        have hmp : m < p := by
          by_contra hpm
          exact not_lt.mpr (hsorted p m (by omega) (by omega) hmhi) (hm ▸ hbelow)
        rw [show (p : Int) - 1 = ((p - 1 : ℕ) : Int) by omega]
        obtain ⟨i, hi', hip, hix⟩ := ih lo (p - 1) (by omega)
          (fun j k hj hjk hk => hsorted j k hj hjk (by omega)) ⟨m, hlom, by omega, hm⟩ (by omega)
        exact ⟨i, hi', by omega, hix⟩
      case isFalse hbelow =>
        split
        case isTrue habove =>
          have hpm : p < m := by
            by_contra hmp
            exact not_lt.mpr (hsorted m p hlom (by omega) (by omega)) (hm ▸ habove)
          rw [show (p : Int) + 1 = ((p + 1 : ℕ) : Int) by omega]
          exact ih (p + 1) hi hhi (fun j k hj hjk hk => hsorted j k (by omega) hjk hk)
            ⟨m, by omega, hmhi, hm⟩ (by omega)
        case isFalse habove =>
          exact ⟨p, rfl, by omega, le_antisymm (not_lt.mp hbelow) (not_lt.mp habove)⟩
    case isFalse hge =>
      rw [if_pos (by omega)]
      exact ⟨lo, rfl, by omega, by rwa [show lo = m by omega]⟩

/-- The search of any range of the list ends, in order or not: each call has a shorter range. -/
theorem exists_binarySearchRange (x : α) (fuel lo : ℕ) (hi : Int) (hhi : hi < a.length)
    (hfuel : hi < lo + fuel) (hpos : 0 < fuel) :
    ∃ i, binarySearchRange a x fuel lo hi = some i := by
  induction fuel generalizing lo hi with
  | zero => omega
  | succ fuel ih =>
    rw [binarySearchRange]
    split
    case isTrue hlt =>
      obtain ⟨p, hp⟩ : ∃ p : ℕ, ((lo : Int) + hi) / 2 = p := ⟨(((lo : Int) + hi) / 2).toNat, by omega⟩
      have hpa : p < a.length := by omega
      rw [hp]
      simp only [readAt, if_neg (show ¬ (p : Int) < 0 by omega), Int.toNat_natCast,
        List.getElem?_eq_getElem hpa, bind, Option.bind]
      split
      · exact ih _ _ (by omega) (by omega) (by omega)
      · split
        · rw [show (p : Int) + 1 = ((p + 1 : ℕ) : Int) by omega]
          exact ih _ _ (by omega) (by omega) (by omega)
        · exact ⟨p, rfl⟩
    case isFalse => split <;> exact ⟨_, rfl⟩

/-! ### The list -/

namespace ArrayList

/-- The list is in order and marked as such, so that the binary search works. -/
structure Searchable (list : ArrayList α) : Prop where
  sorted : list.sorted = true
  ordered : list.array.Pairwise (· ≤ ·)

theorem exists_binarySearch (list : ArrayList α) (x : α) : ∃ i, list.binarySearch x = some i := by
  rw [binarySearch]
  split
  · exact exists_binarySearchRange x (list.getSize + 1) 0 (list.getSize - 1) (by rw [getSize]; omega)
      (by omega) (by omega)
  · exact ⟨-1, rfl⟩

/-- The sort of a whole list ends whenever it may recurse once for each element, and one time more. -/
theorem quickSortRange_list (list : ArrayList α) {fuel : ℕ} (hfuel : list.getSize < fuel) :
    ∃ b, quickSortRange fuel list.array 0 (list.getSize - 1) = some b ∧ b.Perm list.array ∧
      b.Pairwise (· ≤ ·) := by
  obtain ⟨fuel, rfl⟩ := Nat.exists_eq_succ_of_ne_zero (Nat.ne_zero_of_lt hfuel)
  cases h : list.array with
  | nil =>
    refine ⟨[], ?_, List.Perm.nil, List.Pairwise.nil⟩
    simp [getSize, h, quickSortRange, insertionSort]
  | cons x xs =>
    have hlast : ((list.getSize : Int) - 1) = ((list.array.length - 1 : ℕ) : Int) := by
      simp [getSize, h]
    rw [getSize] at hfuel
    obtain ⟨b, hb, hre, hsorted⟩ := quickSortRange_spec (d := x) (fuel + 1) 0
      (list.array.length - 1) list.array (by omega) (by simp [h]) (by omega) (fun k m hk => by omega)
    refine ⟨b, ?_, h ▸ hre.perm, ?_⟩
    · rw [← h, hlast]
      simpa using hb
    · rw [← hre.length_eq] at hsorted
      exact hsorted.pairwise

theorem quickSort_spec (list : ArrayList α) :
    ∃ list', list.quickSort = some list' ∧ list'.array.Perm list.array ∧ list'.Searchable := by
  obtain ⟨b, hb, hperm, hordered⟩ := list.quickSortRange_list (Nat.lt_succ_self _)
  refine ⟨{ list with array := b, sorted := true }, ?_, hperm, rfl, hordered⟩
  simp only [quickSort, hb, bind, Option.bind]

/-- The sort of a list ends, reads and writes none but its `size` slots, and leaves the elements of the
    list in order. No recursion goes deeper than one call for each element and one more. -/
theorem quickSort_correct (list : ArrayList α) :
    ∃ b, list.quickSort = some { list with array := b, sorted := true } ∧ b.Perm list.array ∧
      b.Pairwise (· ≤ ·) ∧
      ∀ fuel, list.getSize < fuel → quickSortRange fuel list.array 0 (list.getSize - 1) = some b := by
  obtain ⟨b, hb, hperm, hordered⟩ := list.quickSortRange_list (Nat.lt_succ_self _)
  refine ⟨b, ?_, hperm, hordered, fun fuel hfuel => ?_⟩
  · simp only [quickSort, hb, bind, Option.bind]
  · obtain ⟨b', hb', hperm', hordered'⟩ := list.quickSortRange_list hfuel
    have hsame : b' = b := (hperm'.trans hperm.symm).eq_of_pairwise
      (fun _ _ _ _ h₁ h₂ => le_antisymm h₁ h₂) hordered' hordered
    rw [hb', hsame]

/-- An element that is there is found in a slot that holds it, and that slot is removed. -/
theorem removeElement_present {list : ArrayList α} {x : α} (hlist : list.Searchable)
    (hx : x ∈ list.array) :
    ∃ i, ∃ h : i < list.array.length, list.array[i] = x ∧
      list.removeElement x = some ({ list with array := list.array.eraseIdx i }, true) := by
  obtain ⟨m, hm, hmx⟩ := List.mem_iff_getElem.mp hx
  have hslot : list.array.getD m x = x := by rw [List.getD_eq_getElem _ _ hm, hmx]
  have hsorted : SortedOn x 0 (list.array.length - 1) list.array := by
    intro j k _ hjk hk
    rw [List.getD_eq_getElem _ _ (by omega), List.getD_eq_getElem _ _ (by omega)]
    rcases Nat.eq_or_lt_of_le hjk with rfl | hlt
    · exact le_rfl
    · exact List.pairwise_iff_getElem.mp hlist.ordered j k (by omega) (by omega) hlt
  have hlast : ((list.getSize : Int) - 1) = ((list.array.length - 1 : ℕ) : Int) := by
    rw [getSize]
    omega
  obtain ⟨i, hsearch, hi, hix⟩ := binarySearchRange_spec x (list.getSize + 1) 0
    (list.array.length - 1) (by omega) hsorted ⟨m, by omega, by omega, hslot⟩
    (by rw [getSize]; omega)
  have hia : i < list.array.length := by omega
  rw [List.getD_eq_getElem _ _ hia] at hix
  refine ⟨i, hia, hix, ?_⟩
  simp only [Nat.cast_zero] at hsearch
  simp only [removeElement, binarySearch, hlist.sorted, if_true, hlast, hsearch, bind, Option.bind]
  rw [if_pos (by rw [getSize]; omega), remove, if_pos (by rw [getSize]; omega), Int.toNat_natCast,
    hlist.sorted]

/-- Removing an element that is there takes out one occurrence and keeps the order. -/
theorem removeElement_spec {list : ArrayList α} {x : α} (hlist : list.Searchable)
    (hx : x ∈ list.array) :
    ∃ list', list.removeElement x = some (list', true) ∧ list.array.Perm (x :: list'.array) ∧
      list'.Searchable := by
  obtain ⟨i, hi, hix, hremove⟩ := removeElement_present hlist hx
  refine ⟨_, hremove, ?_, hlist.sorted, hlist.ordered.eraseIdx i⟩
  have h := List.getElem_cons_eraseIdx_perm hi
  rw [hix] at h
  exact h.symm

/-- Whatever the search finds, nothing new comes into the list. -/
theorem mem_of_mem_removeElement {list list' : ArrayList α} {x y : α} {found : Bool}
    (h : list.removeElement x = some (list', found)) (hy : y ∈ list'.array) : y ∈ list.array := by
  obtain ⟨index, -, h⟩ := Option.bind_eq_some_iff.mp h
  split at h <;> cases h
  · rw [remove] at hy
    split at hy
    · exact List.mem_of_mem_eraseIdx hy
    · exact hy
  · exact hy

end ArrayList

end Rpi4Kernel.Stdlib
