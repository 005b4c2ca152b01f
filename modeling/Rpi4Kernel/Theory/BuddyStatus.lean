/-
Module: Rpi4Kernel.Theory.BuddyStatus
Layer: Theory
Purpose: The abstract side of a binary buddy system. A set of taken nodes, no one below another,
  determines a status for every node: its height when it is taken, otherwise 0 when its subtree is
  free and one more than the smaller child status when not. The module relates the statuses to the
  taken set (which subtrees are free, which are full, how many slots are left) and says how they
  change when one node is taken or given back.
Trusted boundary: none (fully proved)
Main exports: Taken, Taken.status, Taken.status_eq_zero_iff, Taken.status_eq_of_agree,
  Taken.freeSlots_add_takenSlots, search, search_free, search_iff_free
-/
import Rpi4Kernel.Theory.IndexTree

namespace Rpi4Kernel.Theory

open IndexTree

/-- The taken nodes of a tree of order `n`. -/
structure Taken (n : Nat) where
  nodes : Finset Nat
  inTree : ∀ i ∈ nodes, InTree n i
  apart : ∀ i ∈ nodes, ∀ j ∈ nodes, Below i j → i = j

/-- The status of an inner node from those of its children. -/
def combine (x y : Nat) : Nat := if x = 0 ∧ y = 0 then 0 else min x y + 1

/-- The status of the node `i` whose subtree has `h` levels. -/
def statusAt (nodes : Finset Nat) : Nat → Nat → Nat
  | 0, _ => 0
  | h + 1, i =>
    if i ∈ nodes then h + 1
    else combine (statusAt nodes h (2 * i)) (statusAt nodes h (2 * i + 1))

/-- The number of slots below `i`, a node whose subtree has `h` levels, that no taken node covers. -/
def freeSlotsAt (nodes : Finset Nat) : Nat → Nat → Nat
  | 0, _ => 0
  | h + 1, i =>
    if i ∈ nodes then 0
    else if h = 0 then 1
    else freeSlotsAt nodes h (2 * i) + freeSlotsAt nodes h (2 * i + 1)

theorem combine_comm (x y : Nat) : combine x y = combine y x := by
  simp only [combine, Nat.min_comm x y, and_comm]

theorem combine_eq_zero_iff {x y : Nat} : combine x y = 0 ↔ x = 0 ∧ y = 0 := by
  unfold combine
  split <;> simp_all

theorem combine_le {x y h : Nat} (hx : x ≤ h) : combine x y ≤ h + 1 := by
  unfold combine
  split <;> omega

namespace Taken

variable {n : Nat}

/-- The status of every node of the tree. -/
def status (t : Taken n) (i : Nat) : Nat := statusAt t.nodes (height n i) i

/-- The free slots below a node. -/
def freeSlots (t : Taken n) (i : Nat) : Nat := freeSlotsAt t.nodes (height n i) i

/-- A node that neither covers a taken node nor is covered by one. -/
def Free (t : Taken n) (i : Nat) : Prop := ∀ j ∈ t.nodes, ¬ Below i j ∧ ¬ Below j i

/-- Nothing is taken. -/
def empty (n : Nat) : Taken n where
  nodes := ∅
  inTree := by simp
  apart := by simp

/-- Take a free node. -/
def insert (t : Taken n) (i : Nat) (hin : InTree n i) (hfree : t.Free i) : Taken n where
  nodes := Insert.insert i t.nodes
  inTree := by
    intro j hj
    rcases Finset.mem_insert.mp hj with rfl | hj
    · exact hin
    · exact t.inTree j hj
  apart := by
    intro j hj k hk hb
    rcases Finset.mem_insert.mp hj with rfl | hj' <;> rcases Finset.mem_insert.mp hk with rfl | hk'
    · rfl
    · exact absurd hb (hfree k hk').1
    · exact absurd hb (hfree j hj').2
    · exact t.apart j hj' k hk' hb

/-- Give a node back. -/
def erase (t : Taken n) (i : Nat) : Taken n where
  nodes := t.nodes.erase i
  inTree := fun j hj => t.inTree j (Finset.mem_of_mem_erase hj)
  apart := fun j hj k hk => t.apart j (Finset.mem_of_mem_erase hj) k (Finset.mem_of_mem_erase hk)

theorem eq_of_nodes {t t' : Taken n} (h : t.nodes = t'.nodes) : t = t' := by
  cases t
  cases t'
  congr

/-! ### Equations -/

theorem status_of_mem (t : Taken n) {i : Nat} (h : i ∈ t.nodes) : t.status i = height n i := by
  obtain ⟨k, hk⟩ := Nat.exists_eq_succ_of_ne_zero (t.inTree i h).height_pos.ne'
  unfold status
  rw [hk, statusAt, if_pos h]

theorem status_inner (t : Taken n) {i : Nat} (hin : InTree n i) (h : i ∉ t.nodes) :
    t.status i = combine (t.status (2 * i)) (t.status (2 * i + 1)) := by
  obtain ⟨k, hk⟩ := Nat.exists_eq_succ_of_ne_zero hin.height_pos.ne'
  unfold status
  rw [height_left hin.pos, height_right hin.pos, hk, statusAt, if_neg h]
  rfl

theorem freeSlots_of_mem (t : Taken n) {i : Nat} (h : i ∈ t.nodes) : t.freeSlots i = 0 := by
  obtain ⟨k, hk⟩ := Nat.exists_eq_succ_of_ne_zero (t.inTree i h).height_pos.ne'
  unfold freeSlots
  rw [hk, freeSlotsAt, if_pos h]

theorem freeSlots_inner (t : Taken n) {i : Nat} (hin : InTree n i) (hinner : i.size < n)
    (h : i ∉ t.nodes) : t.freeSlots i = t.freeSlots (2 * i) + t.freeSlots (2 * i + 1) := by
  have hk : height n i = (height n i - 2) + 1 + 1 := by
    unfold height
    omega
  unfold freeSlots
  rw [height_left hin.pos, height_right hin.pos, hk, freeSlotsAt, if_neg h, if_neg (by omega)]
  rfl

theorem freeSlots_leaf (t : Taken n) {i : Nat} (hleaf : i.size = n) (h : i ∉ t.nodes) :
    t.freeSlots i = 1 := by
  have hk : height n i = 0 + 1 := by
    unfold height
    omega
  unfold freeSlots
  rw [hk, freeSlotsAt, if_neg h, if_pos rfl]

/-- Induction on the tree from the leaves to the root: a property of a node follows from the
    property of its children. -/
theorem subtree_induction {motive : Nat → Prop}
    (step : ∀ i, InTree n i → (i.size < n → motive (2 * i) ∧ motive (2 * i + 1)) → motive i)
    {i : Nat} (hin : InTree n i) : motive i := by
  induction hk : n - i.size using Nat.strong_induction_on generalizing i with
  | _ k ih =>
      apply step i hin
      intro hinner
      exact ⟨ih _ (by rw [size_double hin.pos]; omega) (hin.left hinner) rfl,
        ih _ (by rw [size_double_add_one hin.pos]; omega) (hin.right hinner) rfl⟩

theorem status_leaf (t : Taken n) {i : Nat} (hleaf : i.size = n) (h : i ∉ t.nodes) :
    t.status i = 0 := by
  have hk : height n i = 0 + 1 := by
    unfold height
    omega
  unfold status
  rw [hk, statusAt, if_neg h, statusAt, statusAt, combine_eq_zero_iff]
  exact ⟨rfl, rfl⟩

/-- The only taken node below a leaf is the leaf. -/
theorem eq_of_below_leaf (t : Taken n) {i j : Nat} (hin : InTree n i) (hleaf : i.size = n)
    (hj : j ∈ t.nodes) (hb : Below i j) : j = i := by
  have h1 := (t.inTree j hj).size_le
  have h2 := hb.size_le
  exact (hb.eq_of_size_eq hin.pos (by omega)).symm

/-- With nothing taken at or above a node, nothing is taken strictly above its children. -/
theorem clear_above_left (t : Taken n) {i : Nat} (h : ∀ j ∈ t.nodes, ¬ Below j i) :
    ∀ j ∈ t.nodes, Below j (2 * i) → j = 2 * i := by
  intro j hj hb
  by_contra hne
  have hhalf := hb.half_of_ne hne
  rw [Nat.mul_div_cancel_left i (by omega)] at hhalf
  exact h j hj hhalf

theorem clear_above_right (t : Taken n) {i : Nat} (h : ∀ j ∈ t.nodes, ¬ Below j i) :
    ∀ j ∈ t.nodes, Below j (2 * i + 1) → j = 2 * i + 1 := by
  intro j hj hb
  by_contra hne
  have hhalf := hb.half_of_ne hne
  rw [show (2 * i + 1) / 2 = i by omega] at hhalf
  exact h j hj hhalf

/-! ### What a status says -/

/-- A status is zero exactly when nothing is taken in the subtree. -/
theorem status_eq_zero_iff (t : Taken n) {i : Nat} (hin : InTree n i) :
    t.status i = 0 ↔ ∀ j ∈ t.nodes, ¬ Below i j := by
  refine subtree_induction (n := n)
    (motive := fun i => t.status i = 0 ↔ ∀ j ∈ t.nodes, ¬ Below i j) ?_ hin
  intro i hin ih
  by_cases hmem : i ∈ t.nodes
  · rw [t.status_of_mem hmem]
    constructor
    · intro h
      have := hin.height_pos
      omega
    · intro h
      exact absurd (Below.refl i) (h i hmem)
  · by_cases hinner : i.size < n
    · obtain ⟨ihl, ihr⟩ := ih hinner
      rw [t.status_inner hin hmem, combine_eq_zero_iff, ihl, ihr]
      constructor
      · rintro ⟨hl, hr⟩ j hj hb
        have hne : j ≠ i := fun he => hmem (he ▸ hj)
        rcases hb.child hne with hc | hc
        · exact hl j hj hc
        · exact hr j hj hc
      · intro h
        exact ⟨fun j hj hb => h j hj ((below_left i).trans hb),
          fun j hj hb => h j hj ((below_right i).trans hb)⟩
    · have hleaf : i.size = n := by
        have := hin.size_le
        omega
      rw [t.status_leaf hleaf hmem]
      refine ⟨fun _ j hj hb => ?_, fun _ => rfl⟩
      rw [t.eq_of_below_leaf hin hleaf hj hb] at hj
      exact hmem hj

theorem status_le_height (t : Taken n) {i : Nat} (hin : InTree n i) :
    t.status i ≤ height n i := by
  refine subtree_induction (n := n) (motive := fun i => t.status i ≤ height n i) ?_ hin
  intro i hin ih
  by_cases hmem : i ∈ t.nodes
  · exact (t.status_of_mem hmem).le
  · by_cases hinner : i.size < n
    · have hl := (ih hinner).1
      rw [height_left hin.pos] at hl
      rw [t.status_inner hin hmem]
      have := combine_le (y := t.status (2 * i + 1)) hl
      have := hin.height_pos
      omega
    · rw [t.status_leaf (by have := hin.size_le; omega) hmem]
      exact Nat.zero_le _

/-- Statuses only depend on the taken nodes of the subtree. -/
theorem status_eq_of_agree (t t' : Taken n) {i : Nat} (hin : InTree n i)
    (hagree : ∀ j, Below i j → (j ∈ t.nodes ↔ j ∈ t'.nodes)) : t.status i = t'.status i := by
  refine subtree_induction (n := n) (motive := fun i =>
    (∀ j, Below i j → (j ∈ t.nodes ↔ j ∈ t'.nodes)) → t.status i = t'.status i) ?_ hin hagree
  intro i hin ih hagree
  have hself := hagree i (Below.refl i)
  by_cases hmem : i ∈ t.nodes
  · rw [t.status_of_mem hmem, t'.status_of_mem (hself.mp hmem)]
  · have hmem' : i ∉ t'.nodes := fun h => hmem (hself.mpr h)
    by_cases hinner : i.size < n
    · rw [t.status_inner hin hmem, t'.status_inner hin hmem',
        (ih hinner).1 fun j hb => hagree j ((below_left i).trans hb),
        (ih hinner).2 fun j hb => hagree j ((below_right i).trans hb)]
    · have hleaf : i.size = n := by
        have := hin.size_le
        omega
      rw [t.status_leaf hleaf hmem, t'.status_leaf hleaf hmem']

/-- When two taken sets differ only below `p` and give `p` the same status, they give every node
    above `p` the same status. This is what lets an update stop at the first unchanged parent. -/
theorem status_eq_above (t t' : Taken n) {p a : Nat} (hin : InTree n p) (ha : 0 < a)
    (hab : Below a p) (hagree : ∀ j, ¬ Below p j → (j ∈ t.nodes ↔ j ∈ t'.nodes))
    (hsame : t.status p = t'.status p) : t.status a = t'.status a := by
  obtain ⟨k, hk⟩ := hab
  induction k generalizing p with
  | zero =>
      simp at hk
      rw [← hk, hsame]
  | succ k ih =>
      have hne : p ≠ 1 := by
        rintro rfl
        rw [Nat.div_eq_of_lt (Nat.one_lt_two_pow (by omega))] at hk
        omega
      have hhalf := hin.half hne
      have hpos := hin.pos
      have hnot : ¬ Below p (p / 2) := fun h => by
        have := h.le
        omega
      have hself := hagree (p / 2) hnot
      have hupper : t.status (p / 2) = t'.status (p / 2) := by
        by_cases hmem : p / 2 ∈ t.nodes
        · rw [t.status_of_mem hmem, t'.status_of_mem (hself.mp hmem)]
        · rw [t.status_inner hhalf hmem, t'.status_inner hhalf fun h => hmem (hself.mpr h)]
          have hinner : (p / 2).size < n := by
            have := hin.size_le
            have := hin.size_pos
            have := size_half (i := p) (by omega)
            omega
          rcases Nat.even_or_odd' p with ⟨q, hq | hq⟩
          · have hq' : p / 2 = q := by omega
            rw [hq'] at hhalf hinner ⊢
            rw [hq] at hsame hagree
            rw [hsame, t.status_eq_of_agree t' (hhalf.right hinner) fun j hb =>
              hagree j fun hb' => not_below_both_children hhalf.pos hb' hb]
          · have hq' : p / 2 = q := by omega
            rw [hq'] at hhalf hinner ⊢
            rw [hq] at hsame hagree
            rw [hsame, t.status_eq_of_agree t' (hhalf.left hinner) fun j hb =>
              hagree j fun hb' => not_below_both_children hhalf.pos hb hb']
      refine ih hhalf (fun j hb => hagree j fun hb' => hb ((below_half p).trans hb')) hupper ?_
      rw [Nat.div_div_eq_div_mul, ← Nat.pow_succ']
      exact hk

/-! ### Covered slots -/

/-- Some taken node covers the slot. -/
def Covers (t : Taken n) (x : Nat) : Prop := ∃ j ∈ t.nodes, Below j (leaf n x)

/-! ### Free slots -/

theorem freeSlots_of_status_zero (t : Taken n) {i : Nat} (hin : InTree n i)
    (hstatus : t.status i = 0) : t.freeSlots i = slotCount n i := by
  refine subtree_induction (n := n)
    (motive := fun i => t.status i = 0 → t.freeSlots i = slotCount n i) ?_ hin hstatus
  intro i hin ih hstatus
  have hmem : i ∉ t.nodes := fun h =>
    (t.status_eq_zero_iff hin).mp hstatus i h (Below.refl i)
  by_cases hinner : i.size < n
  · rw [t.status_inner hin hmem, combine_eq_zero_iff] at hstatus
    obtain ⟨-, -, hright, hwhole⟩ := slots_children hin hinner
    rw [t.freeSlots_inner hin hinner hmem, (ih hinner).1 hstatus.1, (ih hinner).2 hstatus.2, hright,
      hwhole]
    omega
  · have hleaf : i.size = n := by
      have := hin.size_le
      omega
    rw [t.freeSlots_leaf hleaf hmem, slotCount, hleaf, Nat.sub_self, Nat.pow_zero]

/-- The smaller status of the children of a full node that is not taken is maximal, so both are. -/
theorem children_full (t : Taken n) {i : Nat} (hin : InTree n i) (hinner : i.size < n)
    (hmem : i ∉ t.nodes) (hstatus : t.status i = height n i) :
    t.status (2 * i) = height n (2 * i) ∧ t.status (2 * i + 1) = height n (2 * i + 1) := by
  have hl := t.status_le_height (hin.left hinner)
  have hr := t.status_le_height (hin.right hinner)
  have hpos := hin.height_pos
  rw [t.status_inner hin hmem, combine] at hstatus
  rw [height_left hin.pos] at hl ⊢
  rw [height_right hin.pos] at hr ⊢
  split at hstatus <;> omega

theorem freeSlots_of_status_full (t : Taken n) {i : Nat} (hin : InTree n i)
    (hstatus : t.status i = height n i) : t.freeSlots i = 0 := by
  refine subtree_induction (n := n)
    (motive := fun i => t.status i = height n i → t.freeSlots i = 0) ?_ hin hstatus
  intro i hin ih hstatus
  by_cases hmem : i ∈ t.nodes
  · exact t.freeSlots_of_mem hmem
  · by_cases hinner : i.size < n
    · obtain ⟨hl, hr⟩ := t.children_full hin hinner hmem hstatus
      rw [t.freeSlots_inner hin hinner hmem, (ih hinner).1 hl, (ih hinner).2 hr]
    · have hzero := t.status_leaf (by have := hin.size_le; omega) hmem
      have hpos := hin.height_pos
      omega

/-- Every slot below a full node is covered. -/
theorem covers_of_status_full (t : Taken n) {i x : Nat} (hin : InTree n i)
    (hstatus : t.status i = height n i) (hx : x < 2 ^ (n - 1)) (hbelow : Below i (leaf n x)) :
    t.Covers x := by
  refine subtree_induction (n := n)
    (motive := fun i => t.status i = height n i → Below i (leaf n x) → t.Covers x) ?_ hin hstatus hbelow
  intro i hin ih hstatus hbelow
  by_cases hmem : i ∈ t.nodes
  · exact ⟨i, hmem, hbelow⟩
  · by_cases hinner : i.size < n
    · obtain ⟨hl, hr⟩ := t.children_full hin hinner hmem hstatus
      have hne : leaf n x ≠ i := by
        intro heq
        rw [← heq, size_leaf (by omega) hx] at hinner
        exact lt_irrefl n hinner
      rcases hbelow.child hne with hc | hc
      · exact (ih hinner).1 hl hc
      · exact (ih hinner).2 hr hc
    · have hzero := t.status_leaf (by have := hin.size_le; omega) hmem
      have hpos := hin.height_pos
      omega

open Classical in
/-- Free and taken slots add up below every node that no taken node covers strictly. -/
theorem freeSlots_add_takenSlots_below (t : Taken n) {i : Nat} (hin : InTree n i)
    (hclear : ∀ j ∈ t.nodes, Below j i → j = i) :
    t.freeSlots i + ∑ j ∈ t.nodes.filter (Below i), slotCount n j = slotCount n i := by
  refine subtree_induction (n := n) (motive := fun i => (∀ j ∈ t.nodes, Below j i → j = i) →
    t.freeSlots i + ∑ j ∈ t.nodes.filter (Below i), slotCount n j = slotCount n i) ?_ hin hclear
  intro i hin ih hclear
  by_cases hmem : i ∈ t.nodes
  · have hfilter : t.nodes.filter (Below i) = {i} := by
      ext j
      rw [Finset.mem_filter, Finset.mem_singleton]
      constructor
      · rintro ⟨hj, hb⟩
        exact (t.apart i hmem j hj hb).symm
      · rintro rfl
        exact ⟨hmem, Below.refl j⟩
    rw [t.freeSlots_of_mem hmem, hfilter, Finset.sum_singleton, Nat.zero_add]
  · by_cases hinner : i.size < n
    · obtain ⟨-, -, hright, hwhole⟩ := slots_children hin hinner
      have hupper : ∀ j ∈ t.nodes, ¬ Below j i := fun j hj hb => hmem (hclear j hj hb ▸ hj)
      have hl := (ih hinner).1 (t.clear_above_left hupper)
      have hr := (ih hinner).2 (t.clear_above_right hupper)
      have hsplit : t.nodes.filter (Below i) =
          t.nodes.filter (Below (2 * i)) ∪ t.nodes.filter (Below (2 * i + 1)) := by
        ext j
        simp only [Finset.mem_union, Finset.mem_filter]
        constructor
        · rintro ⟨hj, hb⟩
          rcases hb.child fun he => hmem (he ▸ hj) with hc | hc
          · exact Or.inl ⟨hj, hc⟩
          · exact Or.inr ⟨hj, hc⟩
        · rintro (⟨hj, hb⟩ | ⟨hj, hb⟩)
          · exact ⟨hj, (below_left i).trans hb⟩
          · exact ⟨hj, (below_right i).trans hb⟩
      have hdisjoint : Disjoint (t.nodes.filter (Below (2 * i)))
          (t.nodes.filter (Below (2 * i + 1))) := by
        rw [Finset.disjoint_filter]
        exact fun j _ hb => not_below_both_children hin.pos hb
      rw [t.freeSlots_inner hin hinner hmem, hsplit, Finset.sum_union hdisjoint]
      omega
    · have hleaf : i.size = n := by
        have := hin.size_le
        omega
      have hfilter : t.nodes.filter (Below i) = ∅ := by
        rw [Finset.filter_eq_empty_iff]
        intro j hj hb
        exact hmem (t.eq_of_below_leaf hin hleaf hj hb ▸ hj)
      rw [t.freeSlots_leaf hleaf hmem, hfilter, Finset.sum_empty, slotCount, hleaf, Nat.sub_self]
      rfl

/-- Every slot of the tree is free or under exactly one taken node. -/
theorem freeSlots_add_takenSlots (t : Taken n) (hn : 0 < n) :
    t.freeSlots 1 + ∑ j ∈ t.nodes, slotCount n j = 2 ^ (n - 1) := by
  classical
  have hsum := t.freeSlots_add_takenSlots_below (inTree_root hn) fun j hj hb => by
    have := hb.le
    have := (t.inTree j hj).pos
    omega
  have hall : t.nodes.filter (Below 1) = t.nodes :=
    Finset.filter_true_of_mem fun j hj => below_one (t.inTree j hj).pos
  rw [hall] at hsum
  rw [hsum, slotCount, Nat.size_one]

open Classical in
/-- The taken nodes cover as many slots as their sizes add up to. -/
theorem sum_slotCount_eq_card (t : Taken n) :
    ∑ j ∈ t.nodes, slotCount n j = ((Finset.range (2 ^ (n - 1))).filter t.Covers).card := by
  have hcovered : (Finset.range (2 ^ (n - 1))).filter t.Covers =
      t.nodes.biUnion fun j => Finset.Ico (firstSlot n j) (firstSlot n j + slotCount n j) := by
    ext x
    rw [Finset.mem_filter, Finset.mem_range, Finset.mem_biUnion]
    constructor
    · rintro ⟨hx, j, hj, hb⟩
      exact ⟨j, hj, Finset.mem_Ico.mpr ((covers_iff_below (t.inTree j hj) hx).mpr hb)⟩
    · rintro ⟨j, hj, hx⟩
      have hle := firstSlot_add_slotCount_le (t.inTree j hj)
      have hlt := (Finset.mem_Ico.mp hx).2
      have hbound : x < 2 ^ (n - 1) := by omega
      exact ⟨hbound, j, hj, (covers_iff_below (t.inTree j hj) hbound).mp (Finset.mem_Ico.mp hx)⟩
  rw [hcovered, Finset.card_biUnion]
  · exact Finset.sum_congr rfl fun j _ => by rw [Nat.card_Ico, Nat.add_sub_cancel_left]
  · intro i hi j hj hne
    rw [Function.onFun, Finset.disjoint_left]
    intro x hxi hxj
    rw [Finset.mem_Ico] at hxi hxj
    rcases slots_disjoint (t.inTree i hi) (t.inTree j hj) (fun hb => hne (t.apart i hi j hj hb))
      (fun hb => hne (t.apart j hj i hi hb).symm) with h | h <;> omega

/-- A taken set that covers exactly the slots from `b` on takes the slots that are left over. -/
theorem sum_slotCount_of_covers_from (t : Taken n) {b : Nat}
    (hcovers : ∀ x < 2 ^ (n - 1), t.Covers x ↔ b ≤ x) :
    ∑ j ∈ t.nodes, slotCount n j = 2 ^ (n - 1) - b := by
  classical
  have htail : (Finset.range (2 ^ (n - 1))).filter t.Covers = Finset.Ico b (2 ^ (n - 1)) := by
    ext x
    rw [Finset.mem_filter, Finset.mem_range, Finset.mem_Ico]
    constructor
    · rintro ⟨hx, hc⟩
      exact ⟨(hcovers x hx).mp hc, hx⟩
    · rintro ⟨hb, hx⟩
      exact ⟨hx, (hcovers x hx).mpr hb⟩
  rw [sum_slotCount_eq_card, htail, Nat.card_Ico]

/-- A free node lies before the covered tail. -/
theorem Free.before_tail {t : Taken n} {i b : Nat} (hfree : t.Free i) (hin : InTree n i)
    (hcovers : ∀ x < 2 ^ (n - 1), b ≤ x → t.Covers x) : firstSlot n i + slotCount n i ≤ b := by
  by_contra hnot
  have hle := firstSlot_add_slotCount_le hin
  have hpos := slotCount_pos n i
  have hx : firstSlot n i + slotCount n i - 1 < 2 ^ (n - 1) := by omega
  obtain ⟨j, hj, hb⟩ := hcovers _ hx (by omega)
  have hi := (covers_iff_below hin hx).mp (by omega)
  rcases hi.linear hb with h | h
  · exact (hfree j hj).1 h
  · exact (hfree j hj).2 h

end Taken

/-! ### Searching -/

/-- Descend `k` levels from `i` to a free node, preferring the child with the larger status (or the
    left one under `leftBias`) among those that still have room. -/
def search (status : Nat → Nat) (leftBias : Bool) : Nat → Nat → Option Nat
  | 0, i => if status i = 0 then some i else none
  | k + 1, i =>
    if k + 1 < status i then none
    else if k < status (2 * i) then search status leftBias k (2 * i + 1)
    else if k < status (2 * i + 1) then search status leftBias k (2 * i)
    else if leftBias || status (2 * i + 1) ≤ status (2 * i) then
      search status leftBias k (2 * i)
    else search status leftBias k (2 * i + 1)

/-- The search goes on to a child, if it goes on. -/
theorem search_succ {status : Nat → Nat} {leftBias : Bool} {k i p : Nat}
    (h : search status leftBias (k + 1) i = some p) :
    status i ≤ k + 1 ∧ (search status leftBias k (2 * i) = some p ∨
      search status leftBias k (2 * i + 1) = some p) := by
  unfold search at h
  split at h
  · exact absurd h (by simp)
  · rename_i hle
    refine ⟨by omega, ?_⟩
    split at h
    · exact Or.inr h
    · split at h
      · exact Or.inl h
      · split at h
        · exact Or.inl h
        · exact Or.inr h

/-- A node found by the search is a free node at the depth asked for. -/
theorem search_free {n : Nat} (t : Taken n) {leftBias : Bool} {k i p : Nat} (hin : InTree n i)
    (hdepth : i.size + k ≤ n) (hclear : ∀ j ∈ t.nodes, Below j i → j = i)
    (h : search t.status leftBias k i = some p) :
    InTree n p ∧ p.size = i.size + k ∧ t.Free p := by
  induction k generalizing i with
  | zero =>
      rw [search] at h
      split at h
      · rename_i hzero
        obtain rfl := Option.some.inj h
        have hbelow := (t.status_eq_zero_iff hin).mp hzero
        refine ⟨hin, rfl, fun j hj => ⟨hbelow j hj, fun hb => ?_⟩⟩
        rw [hclear j hj hb] at hj
        exact hbelow i hj (Below.refl i)
      · exact absurd h (by simp)
  | succ k ih =>
      obtain ⟨hle, hchild⟩ := search_succ h
      have hmem : i ∉ t.nodes := fun hmem => by
        rw [t.status_of_mem hmem] at hle
        unfold height at hle
        omega
      have hupper : ∀ j ∈ t.nodes, ¬ Below j i := fun j hj hb => hmem (hclear j hj hb ▸ hj)
      rcases hchild with hs | hs
      · obtain ⟨h1, h2, h3⟩ := ih (hin.left (by omega)) (by rw [size_double hin.pos]; omega)
          (t.clear_above_left hupper) hs
        rw [size_double hin.pos] at h2
        exact ⟨h1, by omega, h3⟩
      · obtain ⟨h1, h2, h3⟩ := ih (hin.right (by omega))
          (by rw [size_double_add_one hin.pos]; omega) (t.clear_above_right hupper) hs
        rw [size_double_add_one hin.pos] at h2
        exact ⟨h1, by omega, h3⟩

/-- A status is at most the number of levels down to any free node below. -/
theorem status_le_of_free {n : Nat} (t : Taken n) {k i p : Nat} (hin : InTree n i)
    (hpin : InTree n p) (hb : Below i p) (hsize : p.size = i.size + k) (hfree : t.Free p) :
    t.status i ≤ k := by
  induction k generalizing i with
  | zero =>
      obtain rfl := hb.eq_of_size_eq hin.pos hsize.symm
      exact ((t.status_eq_zero_iff hin).mpr fun j hj => (hfree j hj).1).le
  | succ k ih =>
      have hinner : i.size < n := by
        have := hpin.size_le
        omega
      have hne : p ≠ i := by
        rintro rfl
        omega
      rw [t.status_inner hin fun hmem => (hfree i hmem).2 hb]
      rcases hb.child hne with hl | hr
      · exact combine_le (ih (hin.left hinner) hl (by rw [size_double hin.pos]; omega))
      · rw [combine_comm]
        exact combine_le (ih (hin.right hinner) hr (by rw [size_double_add_one hin.pos]; omega))

/-- The search never goes into a child without room: where the status leaves room for a node `k` levels
    down, the child it goes on to leaves room too. -/
theorem search_of_status_le {n : Nat} (t : Taken n) {leftBias : Bool} {k i : Nat} (hin : InTree n i)
    (hdepth : i.size + k ≤ n) (hle : t.status i ≤ k) : ∃ p, search t.status leftBias k i = some p := by
  induction k generalizing i with
  | zero => exact ⟨i, by rw [search, if_pos (by omega)]⟩
  | succ k ih =>
      have hinner : i.size < n := by omega
      have hmem : i ∉ t.nodes := fun hmem => by
        rw [t.status_of_mem hmem, height] at hle
        omega
      have hroom : t.status (2 * i) ≤ k ∨ t.status (2 * i + 1) ≤ k := by
        rw [t.status_inner hin hmem, combine] at hle
        split at hle <;> omega
      have hleft := ih (hin.left hinner) (by rw [size_double hin.pos]; omega)
      have hright := ih (hin.right hinner) (by rw [size_double_add_one hin.pos]; omega)
      rw [search, if_neg (by omega)]
      by_cases hbusy : k < t.status (2 * i)
      · rw [if_pos hbusy]
        exact hright (by omega)
      · rw [if_neg hbusy]
        by_cases hbusy' : k < t.status (2 * i + 1)
        · rw [if_pos hbusy']
          exact hleft (by omega)
        · rw [if_neg hbusy']
          split
          · exact hleft (by omega)
          · exact hright (by omega)

/-- The search finds a node exactly when a free node of the depth exists. -/
theorem search_iff_free {n : Nat} (t : Taken n) {leftBias : Bool} {k : Nat} (hdepth : k < n) :
    (∃ p, search t.status leftBias k 1 = some p) ↔ ∃ p, InTree n p ∧ p.size = k + 1 ∧ t.Free p := by
  have hroot : InTree n 1 := inTree_root (by omega)
  constructor
  · rintro ⟨p, hsearch⟩
    obtain ⟨hin, hsize, hfree⟩ := search_free t hroot (by rw [Nat.size_one]; omega)
      (fun j hj hb => by
        have := hb.le
        have := (t.inTree j hj).pos
        omega) hsearch
    exact ⟨p, hin, by rw [hsize, Nat.size_one, Nat.add_comm], hfree⟩
  · rintro ⟨p, hin, hsize, hfree⟩
    refine search_of_status_le t hroot (by rw [Nat.size_one]; omega) ?_
    exact status_le_of_free t hroot hin (below_one hin.pos)
      (by rw [hsize, Nat.size_one, Nat.add_comm]) hfree

end Rpi4Kernel.Theory
