/-
Module: Rpi4Kernel.Proofs.RemoveElementSpec
Layer: Proofs
Purpose: When `removeElement` on a list that has just been sorted removes the element, the whole element
  and nothing but the element. The binary search takes the last slot that is left without a comparison,
  so that an element that is not in the list can remove another one; this says exactly when it does.
Trusted boundary: none (fully proved)
Main exports: ArrayList.RemovesExactly, endsEmpty, ArrayList.removesExactly_iff
-/
import Rpi4Kernel.Proofs.ArrayListSpec

namespace Rpi4Kernel.Stdlib

variable {α : Type} [LinearOrder α] {d : α} {a : List α}

/-- Halving a range of `size` slots towards the place behind the first `below` of them, as the binary
    search does, ends with no slot left. -/
def endsEmpty (size below : ℕ) : Bool :=
  match size with
  | 0 => true
  | 1 => false
  | n + 2 =>
    let pivot := (n + 1) / 2
    if below ≤ pivot then endsEmpty pivot below else endsEmpty (n + 1 - pivot) (below - pivot - 1)
termination_by size

/-- The search for an element that belongs behind the first `below` slots of a range and is not in it
    answers with -1 if the halving ends with no slot left, and with some slot of the range otherwise. -/
theorem binarySearchRange_absent (x : α) :
    ∀ fuel lo size below, size < fuel → lo + size ≤ a.length →
      (∀ m, lo ≤ m → m < lo + below → m < lo + size → a.getD m d < x) →
      (∀ m, lo + below ≤ m → m < lo + size → x < a.getD m d) →
      ∃ i, binarySearchRange a x fuel lo (lo + size - 1) = some i ∧
        (i = -1 ∧ endsEmpty size below = true ∨
          ∃ j : ℕ, i = j ∧ j < lo + size ∧ endsEmpty size below = false) := by
  intro fuel
  induction fuel with
  | zero => exact fun _ _ _ hfuel => absurd hfuel (Nat.not_lt_zero _)
  | succ fuel ih =>
    intro lo size below hfuel hlen hbelow habove
    rw [binarySearchRange]
    obtain rfl | rfl | ⟨n, rfl⟩ : size = 0 ∨ size = 1 ∨ ∃ n, size = n + 2 := by
      rcases size with _ | _ | n
      · exact .inl rfl
      · exact .inr (.inl rfl)
      · exact .inr (.inr ⟨n, rfl⟩)
    · rw [if_neg (by omega), if_neg (by omega)]
      exact ⟨-1, rfl, .inl ⟨rfl, by rw [endsEmpty]⟩⟩
    · rw [if_neg (by omega), if_pos (by omega)]
      exact ⟨lo, rfl, .inr ⟨lo, rfl, by omega, by rw [endsEmpty]⟩⟩
    · obtain ⟨p, hp⟩ : ∃ p, p = lo + (n + 1) / 2 := ⟨_, rfl⟩
      have hpivot : ((lo : Int) + (lo + (n + 2 : ℕ) - 1)) / 2 = (p : Int) := by omega
      rw [if_pos (by omega), hpivot]
      simp only [readAt_natCast d (show p < a.length by omega), bind, Option.bind]
      rw [endsEmpty]
      by_cases hside : below ≤ (n + 1) / 2
      · have hx : x < a.getD p d := habove p (by omega) (by omega)
        obtain ⟨i, hi, hend⟩ := ih lo ((n + 1) / 2) below (by omega) (by omega)
          (fun m h₁ h₂ _ => hbelow m h₁ h₂ (by omega)) (fun m h₁ _ => habove m h₁ (by omega))
        rw [show (lo : Int) + ((n + 1) / 2 : ℕ) - 1 = p - 1 by omega] at hi
        rw [if_pos hx, if_pos hside]
        exact ⟨i, hi, hend.imp_right (Exists.imp fun j hj => ⟨hj.1, by omega, hj.2.2⟩)⟩
      · have hx : a.getD p d < x := hbelow p (by omega) (by omega) (by omega)
        obtain ⟨i, hi, hend⟩ := ih (p + 1) (n + 1 - (n + 1) / 2) (below - (n + 1) / 2 - 1)
          (by omega) (by omega) (fun m h₁ h₂ _ => hbelow m (by omega) (by omega) (by omega))
          (fun m h₁ _ => habove m (by omega) (by omega))
        rw [show ((p + 1 : ℕ) : Int) + ((n + 1 - (n + 1) / 2 : ℕ) : Int) - 1 =
          lo + (n + 2 : ℕ) - 1 by omega] at hi
        rw [if_neg (lt_asymm hx), if_pos hx, if_neg hside]
        exact ⟨i, by exact_mod_cast hi,
          hend.imp_right (Exists.imp fun j hj => ⟨hj.1, by omega, hj.2.2⟩)⟩

/-- In a list in order the elements below `x` come first. -/
theorem getElem_lt_iff_of_ordered {x : α} (h : a.Pairwise (· ≤ ·)) :
    ∀ m (hm : m < a.length), a[m] < x ↔ m < a.countP (· < x) := by
  induction a with
  | nil => exact fun m hm => absurd hm (Nat.not_lt_zero m)
  | cons y ys ih =>
    obtain ⟨hy, hys⟩ := List.pairwise_cons.mp h
    intro m hm
    by_cases hyx : y < x
    · rw [List.countP_cons_of_pos (by simpa using hyx)]
      cases m with
      | zero => simpa using hyx
      | succ m => simpa using ih hys m (by simpa using hm)
    · have hzero : ys.countP (· < x) = 0 := by
        rw [List.countP_eq_zero]
        exact fun z hz => by simpa using le_trans (not_lt.mp hyx) (hy z hz)
      rw [List.countP_cons_of_neg (by simpa using hyx), hzero]
      cases m with
      | zero => simpa using hyx
      | succ m => simpa using le_trans (not_lt.mp hyx) (hy _ (List.getElem_mem _))

namespace ArrayList

/-- `removeElement(t)` answers whether `t` is in the list, takes out one occurrence if it is, and leaves
    the list as it is otherwise. -/
def RemovesExactly (list : ArrayList α) (t : α) : Prop :=
  ∃ list' found, list.removeElement t = some (list', found) ∧ (found = true ↔ t ∈ list.array) ∧
    (t ∈ list.array → ∃ front back,
      list.array = front ++ t :: back ∧ list'.array = front ++ back) ∧
    (t ∉ list.array → list' = list)

/-- An element that is not there is not found if the halving ends with no slot left, and another element
    is removed in its place otherwise. -/
theorem removeElement_absent {list : ArrayList α} {t : α} (hlist : list.Searchable)
    (ht : t ∉ list.array) :
    ∃ list', list.removeElement t =
      some (list', !endsEmpty list.getSize (list.array.countP (· < t))) ∧
      (endsEmpty list.getSize (list.array.countP (· < t)) = true → list' = list) := by
  have hrank := getElem_lt_iff_of_ordered (x := t) hlist.ordered
  obtain ⟨i, hi, hend⟩ := binarySearchRange_absent (d := t) (a := list.array) t (list.getSize + 1) 0
    list.getSize (list.array.countP (· < t)) (by omega) (by simp [getSize])
    (fun m _ hm hlt => by
      rw [getSize, Nat.zero_add] at hlt
      rw [List.getD_eq_getElem _ _ hlt]
      exact (hrank m hlt).mpr (by omega))
    (fun m hm hlt => by
      rw [getSize, Nat.zero_add] at hlt
      rw [List.getD_eq_getElem _ _ hlt]
      have hge := mt (hrank m hlt).mp (by omega)
      exact lt_of_le_of_ne (not_lt.mp hge) fun heq => ht (heq ▸ List.getElem_mem hlt))
  simp only [Nat.cast_zero, Int.zero_add] at hi
  simp only [removeElement, binarySearch, hlist.sorted, if_true, hi, bind, Option.bind]
  obtain ⟨rfl, hempty⟩ | ⟨j, rfl, hj, hslot⟩ := hend
  · rw [if_neg (by omega), hempty]
    exact ⟨list, rfl, fun _ => rfl⟩
  · rw [if_pos (by omega), hslot]
    exact ⟨_, rfl, (by rintro ⟨⟩)⟩

/-- On a list that has just been sorted, `removeElement` is exact for the elements of the list and for
    those that the search ends with no slot left for, and for no others. -/
theorem removesExactly_iff (list : ArrayList α) (t : α) :
    ∃ sorted, list.quickSort = some sorted ∧ (sorted.RemovesExactly t ↔
      t ∈ list.array ∨ endsEmpty list.getSize (list.array.countP (· < t)) = true) := by
  obtain ⟨sorted, hsort, hperm, hsearch⟩ := list.quickSort_spec
  refine ⟨sorted, hsort, ?_⟩
  rw [← hperm.mem_iff, ← hperm.countP_eq, show list.getSize = sorted.getSize from hperm.length_eq.symm]
  by_cases ht : t ∈ sorted.array
  · obtain ⟨i, hi, hit, hremove⟩ := removeElement_present hsearch ht
    refine iff_of_true ⟨_, _, hremove, by simp [ht], fun _ => ?_, fun h => absurd ht h⟩ (.inl ht)
    refine ⟨sorted.array.take i, sorted.array.drop (i + 1), ?_, List.eraseIdx_eq_take_drop_succ ..⟩
    rw [← hit, List.getElem_cons_drop, List.take_append_drop]
  · obtain ⟨list', hremove, hsame⟩ := removeElement_absent hsearch ht
    rw [or_iff_right ht]
    constructor
    · rintro ⟨_, found, hremove', hfound, -, -⟩
      cases hremove.symm.trans hremove'
      simpa [ht] using hfound
    · intro hempty
      exact ⟨_, _, hremove, by simp [hempty, ht], fun h => absurd h ht, fun _ => hsame hempty⟩

/-- Removing from a list of one element removes it, whichever element was to be removed. -/
theorem removesExactly_fails :
    ¬ ∀ (list : ArrayList ℕ) (t : ℕ), ∃ sorted, list.quickSort = some sorted ∧
      sorted.RemovesExactly t := by
  intro hall
  obtain ⟨sorted, hsort, list', found, hremove, hfound, -⟩ := hall ⟨[1], 20, false⟩ 2
  have hsorted : sorted = ⟨[1], 20, true⟩ := (Option.some.inj (by rw [← hsort]; rfl)).symm
  subst hsorted
  have htrue : found = true := (congrArg Prod.snd (Option.some.inj (hremove.symm.trans rfl)))
  simpa using hfound.mp htrue

end ArrayList

end Rpi4Kernel.Stdlib
