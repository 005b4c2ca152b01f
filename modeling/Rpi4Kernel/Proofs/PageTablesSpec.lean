/-
Module: Rpi4Kernel.Proofs.PageTablesSpec
Layer: Proofs
Purpose: After `map_identity` and `map_high` the walk of the high tables is the linear map of the
  physical addresses that they cover, with device memory at its end, and the walk of the identity
  tables maps the first 16 MB to themselves. Everything else is invalid, whatever the memory held
  before.
Trusted boundary: none (fully proved)
Main exports: identityWord, highWord, mapTables_spec, walk_mapTables
-/
import Rpi4Kernel.Boot.PageTables
import Rpi4Kernel.Theory.TableWalk

namespace Rpi4Kernel.Boot

open Rpi4Kernel.Theory

variable {mem mem' : Memory} {base : BitVec 64} {i j k t : Nat}

/-! ### Stores to slots -/

theorem slot_slot (base : BitVec 64) (j k : Nat) : slot (slot base j) k = slot base (j + k) := by
  simp only [slot, BitVec.add_assoc, Nat.mul_add, BitVec.ofNat_add]

theorem add_shiftLeft_eq_slot (base : BitVec 64) (i : Nat) :
    base + BitVec.ofNat 64 i <<< 3 = slot base i := by
  rw [slot]
  congr 1
  apply BitVec.eq_of_toNat_eq
  rw [BitVec.toNat_shiftLeft, BitVec.toNat_ofNat, BitVec.toNat_ofNat, Nat.shiftLeft_eq]
  omega

theorem update_slot_apply (mem : Memory) (base v : BitVec 64) (hj : j < 2 ^ 61) (hk : k < 2 ^ 61) :
    Function.update mem (slot base j) v (slot base k) = if k = j then v else mem (slot base k) := by
  by_cases h : k = j
  · rw [h, Function.update_self, if_pos rfl]
  · rw [Function.update_of_ne (mt (slot_inj hk hj).mp h), if_neg h]

/-- Small numbers compare as signed ones do. -/
theorem sle_ofNat (hi : i < 2 ^ 63) (hj : j < 2 ^ 63) :
    (BitVec.ofNat 64 i).sle (BitVec.ofNat 64 j) = decide (i ≤ j) := by
  have hto : ∀ n, n < 2 ^ 63 → (BitVec.ofNat 64 n).toInt = n := fun n hn => by
    rw [BitVec.toInt_eq_toNat_of_lt (by rw [BitVec.toNat_ofNat]; omega), BitVec.toNat_ofNat]
    omega
  rw [BitVec.sle_eq_decide, hto i hi, hto j hj]
  simp

theorem slt_ofNat (hi : i < 2 ^ 63) (hj : j < 2 ^ 63) :
    (BitVec.ofNat 64 i).slt (BitVec.ofNat 64 j) = decide (i < j) := by
  have hto : ∀ n, n < 2 ^ 63 → (BitVec.ofNat 64 n).toInt = n := fun n hn => by
    rw [BitVec.toInt_eq_toNat_of_lt (by rw [BitVec.toNat_ofNat]; omega), BitVec.toNat_ofNat]
    omega
  rw [BitVec.slt_eq_decide, hto i hi, hto j hj]
  simp

/-! ### The subroutines -/

/-- `memzero` ends, with `n` slots cleared. -/
theorem memzero_spec (base : BitVec 64) : ∀ fuel (mem : Memory) j n, 0 < n → n ≤ fuel →
    n < 2 ^ 60 → j + n < 2 ^ 61 →
    ∃ mem', memzero fuel mem (slot base j) (BitVec.ofNat 64 (8 * n)) = some mem' ∧
      ∀ k < 2 ^ 61, mem' (slot base k) = if j ≤ k ∧ k < j + n then 0 else mem (slot base k) := by
  intro fuel
  induction fuel with
  | zero => exact fun _ _ _ hpos hfuel => absurd (lt_of_lt_of_le hpos hfuel) (lt_irrefl 0)
  | succ fuel ih =>
    intro mem j n hpos hfuel hn hjn
    rw [memzero]
    rw [show (8 : BitVec 64) = BitVec.ofNat 64 8 from rfl, slt_ofNat (by norm_num) (by omega)]
    by_cases hlast : n = 1
    · subst hlast
      refine ⟨_, by rw [if_neg (by simp)], fun k hk => ?_⟩
      rw [update_slot_apply mem base 0 (by omega) hk]
      exact if_congr (by omega) rfl rfl
    · have hnext : slot base j + BitVec.ofNat 64 8 = slot base (j + 1) := by
        rw [← slot_slot]
        rfl
      have hcount : BitVec.ofNat 64 (8 * n) - BitVec.ofNat 64 8 = BitVec.ofNat 64 (8 * (n - 1)) := by
        apply BitVec.eq_of_toNat_eq
        rw [BitVec.toNat_sub, BitVec.toNat_ofNat, BitVec.toNat_ofNat, BitVec.toNat_ofNat]
        omega
      obtain ⟨mem', hmem', hslots⟩ := ih (Function.update mem (slot base j) 0) (j + 1) (n - 1)
        (by omega) (by omega) (by omega) (by omega)
      refine ⟨mem', by rw [if_pos (by simpa using by omega), hnext, hcount, hmem'], fun k hk => ?_⟩
      rw [hslots k hk, update_slot_apply mem base 0 (by omega) hk]
      by_cases hkj : k = j
      · subst hkj
        rw [if_neg (by omega), if_pos rfl, if_pos (by omega)]
      · rw [if_neg hkj]
        exact if_congr (by omega) rfl rfl

theorem createTableEntry_spec (mem : Memory) (ntbl va flags : BitVec 64) {shift : Nat}
    (hindex : (va >>> shift) &&& (entriesPerTable - 1) = BitVec.ofNat 64 i) (ht : t + i < 2 ^ 61)
    (hk : k < 2 ^ 61) : createTableEntry mem (slot base t) ntbl va shift flags (slot base k) =
      if k = t + i then ntbl ||| flags else mem (slot base k) := by
  rw [createTableEntry]
  rw [hindex, add_shiftLeft_eq_slot, slot_slot, update_slot_apply mem base _ ht hk]

/-- The loop of `create_block_map` ends, with one block after the other in the entries from the first to
    the last. -/
theorem blockLoop_spec (base : BitVec 64) {last : Nat} :
    ∀ fuel (mem : Memory) first pa, first ≤ last → last < 512 → last - first < fuel →
    t + last < 2 ^ 61 →
      ∃ mem', blockLoop fuel mem (slot base t) (BitVec.ofNat 64 first) (BitVec.ofNat 64 last) pa =
          some mem' ∧
        ∀ k < 2 ^ 61, mem' (slot base k) = if t + first ≤ k ∧ k ≤ t + last then
          pa + BitVec.ofNat 64 (2 ^ 21 * (k - (t + first))) else mem (slot base k) := by
  intro fuel
  induction fuel with
  | zero => exact fun _ _ _ _ _ hfuel => absurd hfuel (Nat.not_lt_zero _)
  | succ fuel ih =>
    intro mem first pa hle hlast hfuel ht
    rw [blockLoop]
    rw [add_shiftLeft_eq_slot, slot_slot, show BitVec.ofNat 64 first + 1 = BitVec.ofNat 64 (first + 1)
      from (BitVec.ofNat_add ..).symm, sle_ofNat (by omega) (by omega)]
    by_cases hend : first = last
    · subst hend
      refine ⟨_, by rw [if_neg (by simp)], fun k hk => ?_⟩
      rw [update_slot_apply mem base pa (by omega) hk]
      by_cases hkt : k = t + first
      · rw [if_pos hkt, if_pos (by omega), hkt, Nat.sub_self, Nat.mul_zero]
        exact (BitVec.add_zero pa).symm
      · rw [if_neg hkt, if_neg (by omega)]
    · obtain ⟨mem', hmem', hslots⟩ := ih (Function.update mem (slot base (t + first)) pa) (first + 1)
        (pa + sectionSize) (by omega) hlast (by omega) ht
      refine ⟨mem', by rw [if_pos (by simpa using by omega), hmem'], fun k hk => ?_⟩
      rw [hslots k hk, update_slot_apply mem base pa (by omega) hk]
      by_cases hkt : k = t + first
      · subst hkt
        rw [if_neg (by omega), if_pos rfl, if_pos (by omega), Nat.sub_self, Nat.mul_zero]
        exact (BitVec.add_zero pa).symm
      · rw [if_neg hkt]
        by_cases hin : t + first ≤ k ∧ k ≤ t + last
        · rw [if_pos (by omega), if_pos hin, BitVec.add_assoc]
          congr 1
          rw [show sectionSize = BitVec.ofNat 64 (2 ^ 21) from rfl, ← BitVec.ofNat_add]
          congr 1
          omega
        · rw [if_neg (by omega), if_neg hin]

/-- The descriptor of the block that holds the `n`-th 2 MB of memory. -/
def blockWord (flags : BitVec 64) (n : Nat) : BitVec 64 := flags + BitVec.ofNat 64 (2 ^ 21 * n)

/-- `create_block_map` fills the entries from `first` to `last` with the blocks from the `n`-th on. -/
theorem createBlockMap_spec (mem : Memory) (base vstart vend pa flags : BitVec 64)
    (t first last n : Nat)
    (hfirst : (vstart >>> sectionShift) &&& (entriesPerTable - 1) = BitVec.ofNat 64 first)
    (hlast : (vend >>> sectionShift - 1) &&& (entriesPerTable - 1) = BitVec.ofNat 64 last)
    (hblock : (pa >>> sectionShift) <<< sectionShift ||| flags = blockWord flags n)
    (hle : first ≤ last) (hlt : last < 512) (ht : t + last < 2 ^ 61) :
    ∃ mem', createBlockMap mem (slot base t) vstart vend pa flags = some mem' ∧
      ∀ k < 2 ^ 61, mem' (slot base k) = if t + first ≤ k ∧ k ≤ t + last then
        blockWord flags (n + (k - (t + first))) else mem (slot base k) := by
  rw [createBlockMap]
  rw [hfirst, hlast, hblock]
  obtain ⟨mem', hmem', hslots⟩ := blockLoop_spec base entriesPerTable.toNat mem first
    (blockWord flags n) hle hlt (by rw [show entriesPerTable.toNat = 512 from rfl]; omega) ht
  refine ⟨mem', hmem', fun k hk => ?_⟩
  rw [hslots k hk, blockWord, blockWord, Nat.mul_add, BitVec.ofNat_add, BitVec.add_assoc]

/-! ### The tables -/

/-- Word `k` of the identity tables, of which the first page is at `base`. -/
def identityWord (base : BitVec 64) (k : Nat) : BitVec 64 :=
  if k = 0 then slot base 512 ||| tdKernelTableFlags
  else if k = 512 then slot base 1024 ||| tdKernelTableFlags
  else if 1024 ≤ k ∧ k < 1032 then blockWord tdKernelBlockFlags (k - 1024)
  else 0

theorem identityWord_pgd (base : BitVec 64) :
    identityWord base 0 = slot base 512 ||| tdKernelTableFlags := if_pos rfl

theorem identityWord_pud (base : BitVec 64) :
    identityWord base 512 = slot base 1024 ||| tdKernelTableFlags :=
  (if_neg (by norm_num)).trans (if_pos rfl)

theorem mapIdentity_spec (mem : Memory) (base : BitVec 64) :
    ∃ mem', mapIdentity mem base = some mem' ∧ ∀ k < 2 ^ 61,
      mem' (slot base k) = if k < 1536 then identityWord base k else mem (slot base k) := by
  have hbase : base = slot base 0 := (BitVec.add_zero base).symm
  obtain ⟨mem₁, h₁, hslots₁⟩ := memzero_spec base idMapTableSize.toNat mem 0 1536
    (by norm_num) (by decide) (by norm_num) (by norm_num)
  have hpud : base + pageSize = slot base 512 := rfl
  have hpmd : slot base 512 + pageSize = slot base 1024 := slot_slot base 512 512
  obtain ⟨mem₂, h₂, hslots₂⟩ := createBlockMap_spec
    (createTableEntry
      (createTableEntry mem₁ (slot base 0) (slot base 512) 0 pgdShift tdKernelTableFlags)
      (slot base 512) (slot base 1024) 0 pudShift tdKernelTableFlags)
    base 0 idMapSize 0 tdKernelBlockFlags 1024 0 7 0
    (by decide) (by decide) (by decide) (by norm_num) (by norm_num) (by norm_num)
  refine ⟨mem₂, ?_, fun k hk => ?_⟩
  · rw [mapIdentity]
    simp only [bind, Option.bind]
    rw [← hbase, show BitVec.ofNat 64 (8 * 1536) = idMapTableSize from rfl] at h₁
    rw [← hbase] at h₂
    simp only [h₁, hpud, hpmd, h₂]
  · rw [hslots₂ k hk, createTableEntry_spec (i := 0) _ _ _ _ (by decide) (by norm_num) hk,
      createTableEntry_spec (i := 0) _ _ _ _ (by decide) (by norm_num) hk, hslots₁ k hk]
    simp only [identityWord, Nat.add_zero, Nat.zero_add]
    split_ifs <;> first | omega | rfl

/-- Word `k` from `base` on in the high tables, which follow the three pages of the identity tables. -/
def highWord (base : BitVec 64) (k : Nat) : BitVec 64 :=
  if k = 1536 then slot base 2048 ||| tdKernelTableFlags
  else if 2048 ≤ k ∧ k < 2052 then slot base (2560 + 512 * (k - 2048)) ||| tdKernelTableFlags
  else if 2560 ≤ k ∧ k < 3066 ∨ 3072 ≤ k ∧ k < 4576 then blockWord tdKernelBlockFlags (k - 2560)
  else if 4576 ≤ k ∧ k < 4608 then blockWord tdDeviceBlockFlags (k - 2560)
  else 0

theorem mapHigh_spec (mem : Memory) (base : BitVec 64) :
    ∃ mem', mapHigh mem (slot base 1536) = some mem' ∧ ∀ k < 2 ^ 61, mem' (slot base k) =
      if 1536 ≤ k ∧ k < 4608 then highWord base k else mem (slot base k) := by
  obtain ⟨mem₁, h₁, hslots₁⟩ := memzero_spec base highMapTableSize.toNat mem 1536 3072
    (by norm_num) (by decide) (by norm_num) (by norm_num)
  have hpage : ∀ j, slot base j + pageSize = slot base (j + 512) := fun j => slot_slot base j 512
  obtain ⟨mem₂, hmem₂⟩ : ∃ mem₂, mem₂ = createTableEntry mem₁ (slot base 1536) (slot base 2048)
    linearMapBase pgdShift tdKernelTableFlags := ⟨_, rfl⟩
  obtain ⟨mem₃, hmem₃⟩ : ∃ mem₃, mem₃ = createTableEntry mem₂ (slot base 2048) (slot base 2560)
    linearMapBase pudShift tdKernelTableFlags := ⟨_, rfl⟩
  obtain ⟨mem₄, hmem₄⟩ : ∃ mem₄, mem₄ = createTableEntry mem₃ (slot base 2048) (slot base 3072)
    (linearMapBase + pudEntryMapSize) pudShift tdKernelTableFlags := ⟨_, rfl⟩
  obtain ⟨mem₅, hmem₅⟩ : ∃ mem₅, mem₅ = createTableEntry mem₄ (slot base 2048) (slot base 3584)
    (linearMapBase + pudEntryMapSize + pudEntryMapSize) pudShift tdKernelTableFlags := ⟨_, rfl⟩
  obtain ⟨mem₆, hmem₆⟩ : ∃ mem₆, mem₆ = createTableEntry mem₅ (slot base 2048) (slot base 4096)
    (linearMapBase + pudEntryMapSize + pudEntryMapSize + pudEntryMapSize) pudShift
    tdKernelTableFlags := ⟨_, rfl⟩
  obtain ⟨mem₇, h₇, hslots₇⟩ := createBlockMap_spec mem₆ base (firstStart + linearMapBase)
    (firstEnd + linearMapBase) firstStart tdKernelBlockFlags 2560 0 505 0
    (by decide) (by decide) (by decide) (by norm_num) (by norm_num) (by norm_num)
  obtain ⟨mem₈, h₈, hslots₈⟩ := createBlockMap_spec mem₇ base (secondStart + linearMapBase)
    (secondEnd + linearMapBase) secondStart tdKernelBlockFlags 3072 0 511 512
    (by decide) (by decide) (by decide) (by norm_num) (by norm_num) (by norm_num)
  obtain ⟨mem₉, h₉, hslots₉⟩ := createBlockMap_spec mem₈ base (thirdStart + linearMapBase)
    (thirdEnd + linearMapBase) thirdStart tdKernelBlockFlags 3584 0 511 1024
    (by decide) (by decide) (by decide) (by norm_num) (by norm_num) (by norm_num)
  obtain ⟨mem₁₀, h₁₀, hslots₁₀⟩ := createBlockMap_spec mem₉ base (fourthStart + linearMapBase)
    (fourthEnd + linearMapBase) fourthStart tdKernelBlockFlags 4096 0 479 1536
    (by decide) (by decide) (by decide) (by norm_num) (by norm_num) (by norm_num)
  obtain ⟨mem₁₁, h₁₁, hslots₁₁⟩ := createBlockMap_spec mem₁₀ base (deviceStart + linearMapBase)
    (deviceEnd + linearMapBase) deviceStart tdDeviceBlockFlags 4096 480 511 2016
    (by decide) (by decide) (by decide) (by norm_num) (by norm_num) (by norm_num)
  refine ⟨mem₁₁, ?_, fun k hk => ?_⟩
  · rw [show BitVec.ofNat 64 (8 * 3072) = highMapTableSize from rfl] at h₁
    rw [mapHigh]
    simp only [bind, Option.bind, h₁, hpage, ← hmem₂, ← hmem₃, ← hmem₄, ← hmem₅, ← hmem₆, h₇, h₈, h₉,
      h₁₀, h₁₁]
  · have htables : mem₆ (slot base k) = if k = 1536 then slot base 2048 ||| tdKernelTableFlags
        else if 2048 ≤ k ∧ k < 2052 then slot base (2560 + 512 * (k - 2048)) ||| tdKernelTableFlags
        else if 1536 ≤ k ∧ k < 4608 then 0 else mem (slot base k) := by
      rw [hmem₆, createTableEntry_spec (i := 3) _ _ _ _ (by decide) (by norm_num) hk, hmem₅,
        createTableEntry_spec (i := 2) _ _ _ _ (by decide) (by norm_num) hk, hmem₄,
        createTableEntry_spec (i := 1) _ _ _ _ (by decide) (by norm_num) hk, hmem₃,
        createTableEntry_spec (i := 0) _ _ _ _ (by decide) (by norm_num) hk, hmem₂,
        createTableEntry_spec (i := 0) _ _ _ _ (by decide) (by norm_num) hk, hslots₁ k hk]
      by_cases hpud : 2048 ≤ k ∧ k < 2052
      · obtain rfl | rfl | rfl | rfl : k = 2048 ∨ k = 2049 ∨ k = 2050 ∨ k = 2051 := by omega
        all_goals simp
      · rw [if_neg (by omega), if_neg (by omega), if_neg (by omega), if_neg (by omega), if_neg hpud]
    have hblocks : mem₁₁ (slot base k) = if 2560 ≤ k ∧ k < 3066 ∨ 3072 ≤ k ∧ k < 4576 then
        blockWord tdKernelBlockFlags (k - 2560)
        else if 4576 ≤ k ∧ k < 4608 then blockWord tdDeviceBlockFlags (k - 2560)
        else mem₆ (slot base k) := by
      rw [hslots₁₁ k hk, hslots₁₀ k hk, hslots₉ k hk, hslots₈ k hk, hslots₇ k hk]
      clear hslots₁ hslots₇ hslots₈ hslots₉ hslots₁₀ hslots₁₁ htables
      split_ifs <;> first | omega | exact congrArg (blockWord _) (by omega) | rfl
    rw [hblocks, htables, highWord]
    clear hblocks htables hslots₁ hslots₇ hslots₈ hslots₉ hslots₁₀ hslots₁₁
    split_ifs <;> first | omega | rfl

theorem highPgDir_eq (base : BitVec 64) : highPgDir base = slot base 1536 := by
  rw [highPgDir, slot, show 3 * pageSize = BitVec.ofNat 64 (8 * 1536) by decide]

/-- Both maps are made, each in its own pages. -/
theorem mapTables_spec (mem : Memory) (base : BitVec 64) :
    ∃ mem', mapTables mem base = some mem' ∧
      (∀ k < 1536, mem' (slot base k) = identityWord base k) ∧
      ∀ k, 1536 ≤ k → k < 4608 → mem' (slot base k) = highWord base k := by
  obtain ⟨mem₁, h₁, hslots₁⟩ := mapIdentity_spec mem base
  obtain ⟨mem₂, h₂, hslots₂⟩ := mapHigh_spec mem₁ base
  refine ⟨mem₂, ?_, fun k hk => ?_, fun k hk hk' => ?_⟩
  · rw [← highPgDir_eq] at h₂
    rw [mapTables, h₁, Option.bind_eq_bind, Option.bind_some, h₂]
  · have hk₂ := hslots₂ k (by omega)
    have hk₁ := hslots₁ k (by omega)
    rw [if_neg (by omega)] at hk₂
    rw [if_pos hk] at hk₁
    exact hk₂.trans hk₁
  · have hk₂ := hslots₂ k (by omega)
    rwa [if_pos ⟨hk, hk'⟩] at hk₂

/-! ### The walk -/

/-- The linker places the nine pages at a page boundary; a physical address has 48 bits. -/
structure TablesPlaced (idPgDir : BitVec 64) : Prop where
  aligned : idPgDir.toNat % 2 ^ 12 = 0
  fits : idPgDir.toNat + 9 * 2 ^ 12 ≤ 2 ^ 48

theorem TablesPlaced.slot_toNat (h : TablesPlaced base) (hk : k < 4608) :
    (slot base k).toNat = base.toNat + 8 * k := by
  have hfits := h.fits
  rw [slot, BitVec.toNat_add, BitVec.toNat_ofNat]
  omega

/-- The walk goes on to the table that starts at slot `j`. -/
theorem TablesPlaced.walk_next {mair va table : BitVec 64} {n j : Nat} (h : TablesPlaced base)
    (hmem : mem (slot table (field va (12 + 9 * n) 9)) = slot base j ||| tdKernelTableFlags)
    (hj : j < 4608) (hpage : j % 512 = 0) (hn : n ≠ 0) :
    walk mem mair va (n + 1) table = walk mem mair va n (slot base j) := by
  have haligned := h.aligned
  have hfits := h.fits
  refine walk_table (by rw [hmem]; rfl) ?_ ?_ hn
  · rw [h.slot_toNat hj]
    omega
  · rw [h.slot_toNat hj]
    omega

theorem blockWord_toNat (flags : BitVec 64) {n : Nat} (hflags : flags.toNat < 2 ^ 55)
    (hn : n < 2 ^ 11) :
    (blockWord flags n).toNat = flags.toNat + 2 ^ 21 * n := by
  rw [blockWord, BitVec.toNat_add, BitVec.toNat_ofNat]
  omega

/-- A block of normal memory is translated to itself. -/
theorem walk_normal {va table : BitVec 64} {n : Nat} (hn : n < 2 ^ 11)
    (hmem : mem (slot table (field va 21 9)) = blockWord tdKernelBlockFlags n) :
    walk mem mairEl1Val va 2 table =
      some ⟨2 ^ 21 * n + va.toNat % 2 ^ 21, mattrNormal.toNat⟩ := by
  have hflags : tdKernelBlockFlags.toNat = 18014398509483781 := by decide
  have hword := blockWord_toNat tdKernelBlockFlags (by rw [hflags]; norm_num) hn
  rw [hflags] at hword
  rw [walk_block hmem (by rw [hword]; omega), leaf]
  have haddress : field (blockWord tdKernelBlockFlags n) 21 27 = n := by
    rw [field_eq, hword]
    omega
  have hindex : field (blockWord tdKernelBlockFlags n) 2 3 = 1 := by
    rw [field_eq, hword]
    omega
  rw [haddress, hindex, field_eq va, Nat.mul_comm, Nat.pow_zero, Nat.div_one]
  rfl

/-- A block of device memory is translated to itself. -/
theorem walk_device {va table : BitVec 64} {n : Nat} (hn : n < 2 ^ 11)
    (hmem : mem (slot table (field va 21 9)) = blockWord tdDeviceBlockFlags n) :
    walk mem mairEl1Val va 2 table =
      some ⟨2 ^ 21 * n + va.toNat % 2 ^ 21, mattrDevice.toNat⟩ := by
  have hflags : tdDeviceBlockFlags.toNat = 18014398509483777 := by decide
  have hword := blockWord_toNat tdDeviceBlockFlags (by rw [hflags]; norm_num) hn
  rw [hflags] at hword
  rw [walk_block hmem (by rw [hword]; omega), leaf]
  have haddress : field (blockWord tdDeviceBlockFlags n) 21 27 = n := by
    rw [field_eq, hword]
    omega
  have hindex : field (blockWord tdDeviceBlockFlags n) 2 3 = 0 := by
    rw [field_eq, hword]
    omega
  rw [haddress, hindex, field_eq va, Nat.mul_comm, Nat.pow_zero, Nat.div_one]
  rfl

/-- A block descriptor of the last table of the identity map. -/
theorem walk_identity_pmd {va : BitVec 64}
    (hmem : ∀ k < 1536, mem (slot base k) = identityWord base k) (hva : va.toNat < 2 ^ 30) :
    walk mem mairEl1Val va 2 (slot base 1024) =
      if va.toNat < 0x1000000 then some ⟨va.toNat, mattrNormal.toNat⟩ else none := by
  have hpmd : mem (slot (slot base 1024) (field va 21 9)) =
      identityWord base (1024 + va.toNat / 2 ^ 21) := by
    rw [field_eq, slot_slot, Nat.mod_eq_of_lt (by omega)]
    exact hmem _ (by omega)
  by_cases hin : va.toNat < 0x1000000
  · rw [identityWord, if_neg (by omega), if_neg (by omega), if_pos (by omega),
      Nat.add_sub_cancel_left] at hpmd
    rw [walk_normal (by omega) hpmd, if_pos hin, Nat.div_add_mod]
  · rw [identityWord, if_neg (by omega), if_neg (by omega), if_neg (by omega)] at hpmd
    rw [walk_invalid (n := 1) hpmd, if_neg hin]

theorem walk_identity_pud {va : BitVec 64} (h : TablesPlaced base)
    (hmem : ∀ k < 1536, mem (slot base k) = identityWord base k) (hva : va.toNat < 2 ^ 39) :
    walk mem mairEl1Val va 3 (slot base 512) =
      if va.toNat < 0x1000000 then some ⟨va.toNat, mattrNormal.toNat⟩ else none := by
  have hpud : mem (slot (slot base 512) (field va 30 9)) =
      identityWord base (512 + va.toNat / 2 ^ 30) := by
    rw [field_eq, slot_slot, Nat.mod_eq_of_lt (by omega)]
    exact hmem _ (by omega)
  by_cases hzero : va.toNat < 2 ^ 30
  · rw [Nat.div_eq_of_lt hzero, identityWord_pud] at hpud
    have hnext : walk mem mairEl1Val va 3 (slot base 512) =
        walk mem mairEl1Val va 2 (slot base 1024) :=
      h.walk_next (n := 2) hpud (by norm_num) (by norm_num) (by norm_num)
    rw [hnext, walk_identity_pmd hmem hzero]
  · rw [identityWord, if_neg (by omega), if_neg (by omega), if_neg (by omega)] at hpud
    rw [walk_invalid (n := 2) hpud, if_neg (by omega)]

/-- The identity map takes the first 16 MB to themselves and nothing else. -/
theorem walk_identity {va : BitVec 64} (h : TablesPlaced base)
    (hmem : ∀ k < 1536, mem (slot base k) = identityWord base k) (hva : va.toNat < 2 ^ 48) :
    walk mem mairEl1Val va 4 base =
      if va.toNat < 0x1000000 then some ⟨va.toNat, mattrNormal.toNat⟩ else none := by
  have hpgd : mem (slot base (field va 39 9)) = identityWord base (va.toNat / 2 ^ 39) := by
    rw [field_eq, Nat.mod_eq_of_lt (by omega)]
    exact hmem _ (by omega)
  by_cases hzero : va.toNat < 2 ^ 39
  · rw [Nat.div_eq_of_lt hzero, identityWord_pgd] at hpgd
    have hnext : walk mem mairEl1Val va 4 base = walk mem mairEl1Val va 3 (slot base 512) :=
      h.walk_next (n := 3) hpgd (by norm_num) (by norm_num) (by norm_num)
    rw [hnext, walk_identity_pud h hmem hzero]
  · rw [identityWord, if_neg (by omega), if_neg (by omega), if_neg (by omega)] at hpgd
    rw [walk_invalid (n := 3) hpgd, if_neg (by omega)]

/-- The translation that the high map is for. -/
def linearMap (o : Nat) : Option Translation :=
  if o < 0x3F400000 ∨ 0x40000000 ≤ o ∧ o < 0x100000000 then
    some ⟨o, if 0xFC000000 ≤ o then mattrDevice.toNat else mattrNormal.toNat⟩
  else none

/-- The four tables of blocks of the high map follow each other, so entry `i` of the PUD and entry `j`
    of its table are entry `512 * i + j` of one array. -/
theorem walk_high_pmd {va : BitVec 64} {o : Nat}
    (hmem : ∀ k, 1536 ≤ k → k < 4608 → mem (slot base k) = highWord base k)
    (hva : va.toNat = 0xffff000000000000 + o) (ho : o < 2 ^ 32) :
    walk mem mairEl1Val va 2 (slot base (2560 + 512 * (o / 2 ^ 30))) = linearMap o := by
  have hpmd : mem (slot (slot base (2560 + 512 * (o / 2 ^ 30))) (field va 21 9)) =
      highWord base (2560 + o / 2 ^ 21) := by
    have hentry : 2560 + 512 * (o / 2 ^ 30) + va.toNat / 2 ^ 21 % 2 ^ 9 = 2560 + o / 2 ^ 21 := by
      omega
    rw [field_eq, slot_slot, hentry]
    exact hmem _ (by omega) (by omega)
  have hoffset : 2 ^ 21 * (o / 2 ^ 21) + va.toNat % 2 ^ 21 = o := by omega
  rw [highWord, if_neg (by omega), if_neg (by omega), Nat.add_sub_cancel_left] at hpmd
  rw [linearMap]
  by_cases hnormal : o < 0x3F400000 ∨ 0x40000000 ≤ o ∧ o < 0xFC000000
  · rw [if_pos (by omega)] at hpmd
    rw [walk_normal (by omega) hpmd, hoffset, if_pos (by omega), if_neg (by omega)]
  · rw [if_neg (by omega)] at hpmd
    by_cases hdevice : 0xFC000000 ≤ o
    · rw [if_pos (by omega)] at hpmd
      rw [walk_device (by omega) hpmd, hoffset, if_pos (by omega), if_pos hdevice]
    · rw [if_neg (by omega)] at hpmd
      rw [walk_invalid (n := 1) hpmd, if_neg (by omega)]

theorem walk_high_pud {va : BitVec 64} {o : Nat} (h : TablesPlaced base)
    (hmem : ∀ k, 1536 ≤ k → k < 4608 → mem (slot base k) = highWord base k)
    (hva : va.toNat = 0xffff000000000000 + o) (ho : o < 2 ^ 39) :
    walk mem mairEl1Val va 3 (slot base 2048) = linearMap o := by
  have hpud : mem (slot (slot base 2048) (field va 30 9)) = highWord base (2048 + o / 2 ^ 30) := by
    have hentry : va.toNat / 2 ^ 30 % 2 ^ 9 = o / 2 ^ 30 := by omega
    rw [field_eq, slot_slot, hentry]
    exact hmem _ (by omega) (by omega)
  by_cases hcovered : o < 2 ^ 32
  · rw [highWord, if_neg (by omega), if_pos (by omega), Nat.add_sub_cancel_left] at hpud
    have hnext : walk mem mairEl1Val va 3 (slot base 2048) =
        walk mem mairEl1Val va 2 (slot base (2560 + 512 * (o / 2 ^ 30))) :=
      h.walk_next (n := 2) hpud (by omega) (by omega) (by norm_num)
    rw [hnext, walk_high_pmd hmem hva hcovered]
  · rw [highWord, if_neg (by omega), if_neg (by omega), if_neg (by omega), if_neg (by omega)] at hpud
    rw [walk_invalid (n := 2) hpud, linearMap, if_neg (by omega)]

/-- The high map is the linear map. -/
theorem walk_high {va : BitVec 64} {o : Nat} (h : TablesPlaced base)
    (hmem : ∀ k, 1536 ≤ k → k < 4608 → mem (slot base k) = highWord base k)
    (hva : va.toNat = 0xffff000000000000 + o) (_ : o < 2 ^ 48) :
    walk mem mairEl1Val va 4 (slot base 1536) = linearMap o := by
  have hpgd : mem (slot (slot base 1536) (field va 39 9)) = highWord base (1536 + o / 2 ^ 39) := by
    have hentry : va.toNat / 2 ^ 39 % 2 ^ 9 = o / 2 ^ 39 := by omega
    rw [field_eq, slot_slot, hentry]
    exact hmem _ (by omega) (by omega)
  by_cases hzero : o < 2 ^ 39
  · rw [Nat.div_eq_of_lt hzero, highWord, if_pos (by norm_num)] at hpgd
    have hnext : walk mem mairEl1Val va 4 (slot base 1536) =
        walk mem mairEl1Val va 3 (slot base 2048) :=
      h.walk_next (n := 3) hpgd (by norm_num) (by norm_num) (by norm_num)
    rw [hnext, walk_high_pud h hmem hva hzero]
  · rw [highWord, if_neg (by omega), if_neg (by omega), if_neg (by omega), if_neg (by omega)] at hpgd
    rw [walk_invalid (n := 3) hpgd, linearMap, if_neg (by omega)]

/-- Whatever the pages held, they become the linear map and the identity map of the first 16 MB. -/
theorem walk_mapTables (mem : Memory) (idPgDir : BitVec 64) (h : TablesPlaced idPgDir) :
    ∃ mem', mapTables mem idPgDir = some mem' ∧ ∀ o : BitVec 48,
      walk mem' mairEl1Val (linearMapBase + o.setWidth 64) 4 (highPgDir idPgDir) =
        (if o.toNat < 0x3F400000 ∨ 0x40000000 ≤ o.toNat ∧ o.toNat < 0x100000000 then
          some ⟨o.toNat, if 0xFC000000 ≤ o.toNat then mattrDevice.toNat else mattrNormal.toNat⟩
        else none) ∧
      walk mem' mairEl1Val (o.setWidth 64) 4 idPgDir =
        if o.toNat < 0x1000000 then some ⟨o.toNat, mattrNormal.toNat⟩ else none := by
  obtain ⟨mem', htables, hidentity, hhigh⟩ := mapTables_spec mem idPgDir
  refine ⟨mem', htables, fun o => ⟨?_, ?_⟩⟩
  · have hva : (linearMapBase + o.setWidth 64).toNat = 0xffff000000000000 + o.toNat := by
      have ho := o.isLt
      have hbase : linearMapBase.toNat = 0xffff000000000000 := by decide
      rw [BitVec.toNat_add, BitVec.toNat_setWidth, hbase]
      omega
    rw [highPgDir_eq]
    exact walk_high h hhigh hva o.isLt
  · have hva : (o.setWidth 64).toNat = o.toNat := by
      rw [BitVec.toNat_setWidth]
      exact Nat.mod_eq_of_lt (o.isLt.trans (by norm_num))
    rw [walk_identity h hidentity (hva ▸ o.isLt), hva]

/-- The image starts at `0x80000`; the tables are pages of it. -/
theorem walk_mapTables_image : ∃ mem', mapTables (fun _ => 0xdeadbeef) 0x81000 = some mem' ∧
    walk mem' mairEl1Val 0xffff0000fc000123 4 (highPgDir 0x81000) =
      some ⟨0xfc000123, mattrDevice.toNat⟩ ∧
    walk mem' mairEl1Val 0xffff00003f400000 4 (highPgDir 0x81000) = none ∧
    walk mem' mairEl1Val 0x80000 4 0x81000 = some ⟨0x80000, mattrNormal.toNat⟩ := by
  obtain ⟨mem', htables, hwalk⟩ := walk_mapTables (fun _ => 0xdeadbeef) 0x81000
    ⟨by decide, by decide⟩
  exact ⟨mem', htables, (hwalk 0xfc000123).1, (hwalk 0x3f400000).1, (hwalk 0x80000).2⟩

end Rpi4Kernel.Boot
