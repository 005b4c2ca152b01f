/-
Module: Rpi4Kernel.Proofs.CoreStartSpec
Layer: Proofs
Purpose: Bringing up cores 1 to 3, in every order of steps of the four cores. A core reaches
  `initSecondaryCore` only if `Core::start` has been called for it, and then at exception level 1 with
  the kernel's page tables and a stack of its own; and no start is lost: from the event of the call
  on, a core that is anywhere in the armstub or in `init_core` gets there within a bounded number of
  its own instructions.
Trusted boundary: none (fully proved)
Main exports: Arrived, runLocal, initCore_arrives, InStub, BringupInv, bringupInv_step,
  bringup_arrived, bringup_arrives
-/
import Rpi4Kernel.Boot.CoreStart
import Rpi4Kernel.Theory.Runs

namespace Rpi4Kernel.Boot

open Rpi4Kernel.Theory

/-- The number of a core as the argument of `Core::start`. -/
def SecondaryCore.id (c : SecondaryCore) : BitVec 32 := c.number.setWidth 32

/-- The physical address of the word of a core in the spin table. -/
def SecondaryCore.slot (c : SecondaryCore) : BitVec 64 := spinCpu0 + c.number <<< 3

/-- What the addresses must be like: the armstub takes 0 for no function, and `initSecondaryCore` is
    not in `init_core`. -/
structure Symbols.Linked (symbols : Symbols) : Prop where
  initCore_ne_zero : symbols.initCore ≠ 0
  secondary : symbols.place symbols.initSecondaryCore = .outside symbols.initSecondaryCore

/-- The core is at `initSecondaryCore` as it should be. -/
structure Arrived (symbols : Symbols) (c : SecondaryCore) (s : BootCore) : Prop where
  place : s.place = .outside symbols.initSecondaryCore
  el : s.el = 1
  spSel : s.spSel = true
  stack : s.sp 1 = symbols.cpu0Stack + c.number <<< 12
  masked : s.daif = 0xf
  vector : s.sys .vbarEl1 = symbols.vector
  ttbr0 : s.sys .ttbr0El1 = symbols.idPgDir
  ttbr1 : s.sys .ttbr1El1 = highPgDir symbols.idPgDir
  tcr : s.sys .tcrEl1 = tcrEl1Val
  mair : s.sys .mairEl1 = mairEl1Val
  sctlr : s.sys .sctlrEl1 = 5
  args : s.x .x0 = 0 ∧ s.x .x1 = 0 ∧ s.x .x2 = 0 ∧ s.x .x3 = 0

/-! ### `init_core` -/

section

variable {symbols : Symbols} {mpidr : BitVec 64} {mem : BitVec 64 → BitVec 64}

/-- A core alone takes some instructions. -/
def runLocal (symbols : Symbols) (mpidr : BitVec 64) (mem : BitVec 64 → BitVec 64) :
    Nat → BootCore → Option BootCore
  | 0, s => some s
  | n + 1, s => s.place.fetch.bind fun instr =>
    (s.exec symbols mpidr mem instr).bind fun s' => runLocal symbols mpidr mem n s'

theorem runLocal_add (m n : Nat) (s : BootCore) :
    runLocal symbols mpidr mem (m + n) s =
      (runLocal symbols mpidr mem m s).bind (runLocal symbols mpidr mem n) := by
  induction m generalizing s with
  | zero => rw [Nat.zero_add]; rfl
  | succ m ih =>
    rw [Nat.succ_add, runLocal, runLocal, Option.bind_assoc]
    congr 1
    funext instr
    rw [Option.bind_assoc]
    congr 1
    funext s'
    exact ih s'

theorem runLocal_trans {m n : Nat} {s s' s'' : BootCore} (h : runLocal symbols mpidr mem m s = some s')
    (h' : runLocal symbols mpidr mem n s' = some s'') :
    runLocal symbols mpidr mem (m + n) s = some s'' := by
  rw [runLocal_add, h]
  exact h'

/-- A label of `init_core` is where its address says. -/
theorem Symbols.place_label (symbols : Symbols) {n : Nat} (hn : n < Boot.initCore.length) :
    symbols.place (symbols.label n) = .initCore n := by
  have hlength : Boot.initCore.length = 56 := rfl
  have hoffset : (symbols.label n - symbols.initCore).toNat = 4 * n := by
    rw [Symbols.label, BitVec.add_comm, BitVec.add_sub_cancel, BitVec.toNat_ofNat,
      Nat.mod_eq_of_lt (by omega)]
  rw [Symbols.place, hoffset]
  simp only [Nat.mul_mod_right, Nat.mul_div_cancel_left n (show 0 < 4 by decide), true_and, if_pos hn]

theorem Symbols.place_initCore (symbols : Symbols) : symbols.place symbols.initCore = .initCore 0 := by
  have hlabel : symbols.label 0 = symbols.initCore := BitVec.add_zero _
  have hplace := symbols.place_label (n := 0) (by decide)
  rwa [hlabel] at hplace

/-- An exception return to a label of `init_core`. -/
theorem BootCore.exceptionReturn_label {s : BootCore} {spsr elr : BootSysReg} {v : BitVec 64} {n : Nat}
    (hn : n < Boot.initCore.length) (hspsr : s.sys spsr = v) (helr : s.sys elr = symbols.label n) :
    s.exceptionReturn symbols spsr elr =
      { s with
        place := .initCore n
        el := v.toNat >>> 2 % 4
        spSel := v.getLsbD 0
        daif := v.extractLsb' 6 4 } := by
  rw [BootCore.exceptionReturn, hspsr, helr, symbols.place_label hn]

variable (symbols mpidr mem) (x : BootReg → BitVec 64) (zero spSel : Bool) (sp : Nat → BitVec 64)
  (daif : BitVec 4) (sys : BootSysReg → BitVec 64)

/-- The test of the exception level finds level 3. -/
theorem initCore_level3 :
    runLocal symbols mpidr mem 4 ⟨.initCore 0, x, zero, 3, spSel, sp, daif, sys⟩ =
      some ⟨.initCore 4, Function.update x .x0 12, true, 3, spSel, sp, daif, sys⟩ := by
  simp [runLocal, BootPlace.fetch, initCore, BootCore.exec, BootCore.next, BootPlace.next,
    BootCore.setX]

/-- The exception return to level 2, with the stack pointer of that level. -/
theorem initCore_eret3 : ∃ x' sys',
    runLocal symbols mpidr mem 7 ⟨.initCore 4, x, zero, 3, spSel, sp, daif, sys⟩ =
      some ⟨.initCore 11, x', zero, 2, true, sp, 0xf, sys'⟩ ∧ x' .x0 = x .x0 := by
  obtain ⟨x', sys', hrun, hx, hspsr, helr⟩ : ∃ x' sys',
      runLocal symbols mpidr mem 6 ⟨.initCore 4, x, zero, 3, spSel, sp, daif, sys⟩ =
        some ⟨.initCore 10, x', zero, 3, spSel, sp, daif, sys'⟩ ∧ x' .x0 = x .x0 ∧
          sys' .spsrEl3 = 0x3c9 ∧
        sys' .elrEl3 = symbols.label 11 :=
    ⟨_, _, rfl, rfl, rfl, rfl⟩
  refine ⟨x', sys', runLocal_trans (m := 6) (n := 1) hrun ?_, hx⟩
  have heret : (BootCore.exceptionReturn symbols ⟨.initCore 10, x', zero, 3, spSel, sp, daif, sys'⟩
      .spsrEl3 .elrEl3) = ⟨.initCore 11, x', zero, 2, true, sp, 0xf, sys'⟩ :=
    BootCore.exceptionReturn_label (n := 11) (v := 0x3c9) (by decide) hspsr helr
  rw [← heret]
  rfl

/-- The test of the exception level does not find level 1: `x0` still has level 3 in it. -/
theorem initCore_level2 (hx : x .x0 = 12) :
    runLocal symbols mpidr mem 2 ⟨.initCore 11, x, zero, 2, true, sp, daif, sys⟩ =
      some ⟨.initCore 13, x, false, 2, true, sp, daif, sys⟩ := by
  simp [runLocal, BootPlace.fetch, initCore, BootCore.exec, BootCore.next, BootPlace.next, hx]

/-- The stack, and the exception return to level 1. -/
theorem initCore_eret2 : ∃ x' sp' sys',
    runLocal symbols mpidr mem 22 ⟨.initCore 13, x, zero, 2, true, sp, daif, sys⟩ =
      some ⟨.initCore 35, x', zero, 1, false, sp', 0xf, sys'⟩ ∧
    sp' 1 = symbols.cpu0Stack + (mpidr &&& 3) <<< 12 ∧ sys' .vbarEl1 = symbols.vector := by
  obtain ⟨x', sp', sys', hrun, hsp, hvector, hspsr, helr⟩ : ∃ x' sp' sys',
      runLocal symbols mpidr mem 21 ⟨.initCore 13, x, zero, 2, true, sp, daif, sys⟩ =
        some ⟨.initCore 34, x', zero, 2, true, sp', daif, sys'⟩ ∧
      sp' 1 = symbols.cpu0Stack + (mpidr &&& 3) <<< 12 ∧ sys' .vbarEl1 = symbols.vector ∧
      sys' .spsrEl2 = 0x3c4 ∧ sys' .elrEl2 = symbols.label 35 :=
    ⟨_, _, _, rfl, rfl, rfl, rfl, rfl⟩
  refine ⟨x', sp', sys', runLocal_trans (m := 21) (n := 1) hrun ?_, hsp, hvector⟩
  have heret : (BootCore.exceptionReturn symbols ⟨.initCore 34, x', zero, 2, true, sp', daif, sys'⟩
      .spsrEl2 .elrEl2) = ⟨.initCore 35, x', zero, 1, false, sp', 0xf, sys'⟩ :=
    BootCore.exceptionReturn_label (n := 35) (v := 0x3c4) (by decide) hspsr helr
  rw [← heret]
  rfl

/-- The page tables, and the branch to `initSecondaryCore`. -/
theorem initCore_tables {c : SecondaryCore} (hlinked : symbols.Linked)
    (hsp : sp 1 = symbols.cpu0Stack + c.number <<< 12) (hvector : sys .vbarEl1 = symbols.vector) : ∃ s,
    runLocal symbols mpidr mem 21 ⟨.initCore 35, x, zero, 1, spSel, sp, 0xf, sys⟩ = some s ∧
      Arrived symbols c s := by
  have hplace := hlinked.secondary
  refine ⟨_, rfl, ?_⟩
  constructor
  · exact hplace
  · rfl
  · rfl
  · exact hsp
  · rfl
  · exact hvector
  · rfl
  · rfl
  · rfl
  · rfl
  · rfl
  · exact ⟨rfl, rfl, rfl, rfl⟩

end

/-- `init_core` from level 3 to `initSecondaryCore`. -/
theorem initCore_arrives {symbols : Symbols} {mpidr : BitVec 64} {mem : BitVec 64 → BitVec 64}
    {c : SecondaryCore} {s : BootCore} (hlinked : symbols.Linked) (hmpidr : mpidr &&& 3 = c.number)
    (hplace : s.place = .initCore 0) (hel : s.el = 3) :
    ∃ s', runLocal symbols mpidr mem 56 s = some s' ∧ Arrived symbols c s' := by
  cases s with
  | mk place x zero el spSel sp daif sys =>
    cases hplace
    cases hel
    obtain ⟨x₁, sys₁, hrun₁, hx₁⟩ := initCore_eret3 symbols mpidr mem
      (Function.update x .x0 12) true spSel sp daif sys
    obtain ⟨x₂, sp₂, sys₂, hrun₂, hsp₂, hvector₂⟩ := initCore_eret2 symbols mpidr mem
      x₁ false sp 0xf sys₁
    rw [hmpidr] at hsp₂
    obtain ⟨s', hrun₃, harrived⟩ := initCore_tables symbols mpidr mem x₂ false false sp₂ sys₂ hlinked
      hsp₂ hvector₂
    refine ⟨s', ?_, harrived⟩
    have hlevel3 := initCore_level3 symbols mpidr mem x zero spSel sp daif sys
    have hlevel2 := initCore_level2 symbols mpidr mem x₁ true sp 0xf sys₁ hx₁
    exact runLocal_trans (m := 4) (n := 52) hlevel3 (runLocal_trans (m := 7) (n := 45) hrun₁
      (runLocal_trans (m := 2) (n := 43) hlevel2 (runLocal_trans (m := 22) (n := 21) hrun₂ hrun₃)))

/-! ### One core -/

/-- An instruction that neither waits nor reads memory. -/
def BootInstr.plain : BootInstr → Bool
  | .wfe | .ldr _ _ _ => false
  | _ => true

section

variable {symbols : Symbols} {mpidr : BitVec 64} {mem : BitVec 64 → BitVec 64} {s s' : BootCore}
  {instr : BootInstr}

theorem BootInstr.waits_of_plain (h : instr.plain = true) : instr.waits = false := by
  cases instr with
  | wfe => cases h
  | _ => rfl

theorem BootCore.exec_plain (s : BootCore) (symbols : Symbols) (mpidr : BitVec 64)
    (mem mem' : BitVec 64 → BitVec 64) (h : instr.plain = true) :
    s.exec symbols mpidr mem instr = s.exec symbols mpidr mem' instr := by
  cases instr with
  | ldr => cases h
  | _ => rfl

/-- The core has left the armstub. -/
def BootPlace.Left (p : BootPlace) : Prop := ∀ n, p ≠ .armstub n

theorem Symbols.place_left (symbols : Symbols) (address : BitVec 64) :
    (symbols.place address).Left := by
  intro n h
  rw [Symbols.place] at h
  split at h
  · cases h
  · cases h

theorem BootPlace.Left.next {p : BootPlace} (h : p.Left) : p.next.Left := by
  intro n hn
  cases p with
  | armstub k => exact h k rfl
  | initCore k => cases hn
  | outside address => cases hn

theorem BootPlace.Left.goTo {p : BootPlace} (h : p.Left) (label : Nat) : (p.goTo label).Left := by
  intro n hn
  cases p with
  | armstub k => exact h k rfl
  | initCore k => cases hn
  | outside address => cases hn

/-- `init_core` neither waits nor reads memory. -/
theorem BootPlace.Left.fetch {p : BootPlace} (h : p.Left) (hfetch : p.fetch = some instr) :
    instr.plain = true := by
  have hall : Boot.initCore.all BootInstr.plain = true := rfl
  cases p with
  | armstub k => exact absurd rfl (h k)
  | initCore k => exact List.all_eq_true.mp hall instr (List.mem_of_getElem? hfetch)
  | outside address => cases hfetch

/-- A core does not come back to the armstub. -/
theorem BootCore.exec_left (h : s.place.Left) (hexec : s.exec symbols mpidr mem instr = some s') :
    s'.place.Left := by
  cases instr with
  | mrs d r =>
    rw [BootCore.exec] at hexec
    split at hexec
    · cases hexec
      exact h.next
    · cases hexec
  | msr r d =>
    rw [BootCore.exec, BootCore.setSys] at hexec
    split at hexec
    · cases hexec
      exact h.next
    · cases hexec
  | msrZero r =>
    rw [BootCore.exec, BootCore.setSys] at hexec
    split at hexec
    · cases hexec
      exact h.next
    · cases hexec
  | msrSpEl1 r =>
    rw [BootCore.exec] at hexec
    split at hexec
    · cases hexec
      exact h.next
    · cases hexec
  | beq label =>
    cases hexec
    split
    · exact h.goTo label
    · exact h.next
  | bne label =>
    cases hexec
    split
    · exact h.next
    · exact h.goTo label
  | cbz r label =>
    cases hexec
    split
    · exact h.goTo label
    · exact h.next
  | b label =>
    cases hexec
    exact h.goTo label
  | eret =>
    rw [BootCore.exec] at hexec
    split at hexec
    · cases hexec
      exact symbols.place_left _
    · split at hexec
      · cases hexec
        exact symbols.place_left _
      · cases hexec
  | br r =>
    cases hexec
    exact symbols.place_left _
  | _ =>
    cases hexec
    exact h.next

end

/-- The core is on its way through `init_core`: it has `r` instructions to go. -/
structure Arrives (symbols : Symbols) (mpidr : BitVec 64) (c : SecondaryCore) (r : Nat)
    (s : BootCore) : Prop where
  left : s.place.Left
  arrives : ∃ s', runLocal symbols mpidr (fun _ => 0) r s = some s' ∧ Arrived symbols c s'

section

variable {symbols : Symbols} {mpidr : BitVec 64} {mem : BitVec 64 → BitVec 64} {c : SecondaryCore}
  {called : Prop} {r n : Nat} {s s' : BootCore} {instr : BootInstr}

theorem Arrives.arrived (h : Arrives symbols mpidr c 0 s) : Arrived symbols c s := by
  obtain ⟨s', hrun, harrived⟩ := h.arrives
  cases hrun
  exact harrived

theorem Arrived.fetch (h : Arrived symbols c s) : s.place.fetch = none := by
  rw [h.place]
  rfl

/-- A core in `init_core` can go on. -/
theorem Arrives.enabled (mem : BitVec 64 → BitVec 64) (h : Arrives symbols mpidr c (r + 1) s) :
    ∃ instr s',
    s.place.fetch = some instr ∧ instr.waits = false ∧ s.exec symbols mpidr mem instr = some s' := by
  obtain ⟨s₁, hrun, -⟩ := h.arrives
  obtain ⟨instr, hfetch, hrun⟩ := Option.bind_eq_some_iff.mp hrun
  obtain ⟨s', hexec, -⟩ := Option.bind_eq_some_iff.mp hrun
  have hplain := h.left.fetch hfetch
  refine ⟨instr, s', hfetch, BootInstr.waits_of_plain hplain, ?_⟩
  exact (BootCore.exec_plain s symbols mpidr mem _ hplain).trans hexec

theorem Arrives.step (h : Arrives symbols mpidr c r s) (hfetch : s.place.fetch = some instr)
    (hexec : s.exec symbols mpidr mem instr = some s') :
    ∃ r', r = r' + 1 ∧ Arrives symbols mpidr c r' s' := by
  cases r with
  | zero =>
    rw [h.arrived.fetch] at hfetch
    cases hfetch
  | succ r =>
    obtain ⟨s₁, hrun, harrived⟩ := h.arrives
    obtain ⟨instr₁, hfetch₁, hrun⟩ := Option.bind_eq_some_iff.mp hrun
    cases hfetch.symm.trans hfetch₁
    obtain ⟨s₂, hexec₂, hrun⟩ := Option.bind_eq_some_iff.mp hrun
    have hsame := BootCore.exec_plain s symbols mpidr (fun _ => 0) mem (h.left.fetch hfetch)
    cases hexec₂.symm.trans (hsame.trans hexec)
    exact ⟨r, rfl, BootCore.exec_left h.left hexec, s₁, hrun, harrived⟩

/-- What holds of a core at instruction `n` of the armstub. -/
structure InStub (symbols : Symbols) (mpidr : BitVec 64) (c : SecondaryCore) (called : Prop) (n : Nat)
    (s : BootCore) : Prop where
  place : s.place = .armstub n
  bound : n < 14
  el : s.el = 3
  read : n = 1 → s.x .x6 = mpidr
  number : 2 ≤ n → s.x .x6 = c.number
  table : 4 ≤ n → s.x .x5 = spinCpu0
  word : 6 ≤ n → s.x .x4 = 0 ∨ s.x .x4 = symbols.initCore ∧ called
  tested : n = 7 → s.zero = (s.x .x4 == 0)
  found : 8 ≤ n → s.x .x4 = symbols.initCore ∧ called

/-- How many instructions a core in the armstub is from `init_core`, once its word is there. -/
def stubRank (n : Nat) (s : BootCore) : Nat := if 6 ≤ n ∧ s.x .x4 = 0 then 18 - n else 14 - n

/-- Where a core is: in the armstub, or in `init_core` or past it, for which it has been called. The
    number is that of the instructions that it still takes, once its word is there. -/
inductive CorePhase (symbols : Symbols) (mpidr : BitVec 64) (c : SecondaryCore) (called : Prop) :
    Nat → BootCore → Prop where
  | stub {n : Nat} {s : BootCore} (h : InStub symbols mpidr c called n s) :
    CorePhase symbols mpidr c called (56 + stubRank n s) s
  | init {r : Nat} {s : BootCore} (h : called) (hr : r ≤ 56) (arrives : Arrives symbols mpidr c r s) :
    CorePhase symbols mpidr c called r s

theorem SecondaryCore.number_ne_zero (c : SecondaryCore) : c.number ≠ 0 := by
  cases c with
  | core1 => decide
  | core2 => decide
  | core3 => decide

theorem InStub.rank_early (h : n < 6) : stubRank n s = 14 - n := by
  rw [stubRank, if_neg fun hlate => absurd hlate.1 (Nat.not_le.mpr h)]

theorem InStub.rank_found (h : s.x .x4 ≠ 0) : stubRank n s = 14 - n := by
  rw [stubRank, if_neg fun hlate => h hlate.2]

theorem InStub.rank_empty (hn : 6 ≤ n) (h : s.x .x4 = 0) : stubRank n s = 18 - n := by
  rw [stubRank, if_pos ⟨hn, h⟩]

theorem InStub.found_ne_zero (hlinked : symbols.Linked) (h : InStub symbols mpidr c called n s)
    (hn : 8 ≤ n) :
    s.x .x4 ≠ 0 := by
  rw [(h.found hn).1]
  exact hlinked.initCore_ne_zero

/-- Before the comparison there is nothing to know of the word. -/
theorem InStub.early (hn : n < 6) (hplace : s.place = .armstub n) (hel : s.el = 3)
    (hread : n = 1 → s.x .x6 = mpidr)
    (hnumber : 2 ≤ n → s.x .x6 = c.number) (htable : 4 ≤ n → s.x .x5 = spinCpu0) :
    InStub symbols mpidr c called n s :=
  ⟨hplace, by omega, hel, hread, hnumber, htable, by omega, by omega, by omega⟩

/-- From the load on the core has its number, the table and the word. -/
theorem InStub.late (hn : 6 ≤ n) (hn' : n < 14) (hplace : s.place = .armstub n) (hel : s.el = 3)
    (hx6 : s.x .x6 = c.number) (hx5 : s.x .x5 = spinCpu0)
    (hword : s.x .x4 = 0 ∨ s.x .x4 = symbols.initCore ∧ called)
    (htested : n = 7 → s.zero = (s.x .x4 == 0))
    (hfound : 8 ≤ n → s.x .x4 = symbols.initCore ∧ called) : InStub symbols mpidr c called n s :=
  ⟨hplace, hn', hel, by omega, fun _ => hx6, fun _ => hx5, fun _ => hword, htested, hfound⟩

/-- The core number is taken from `MPIDR_EL1`, and the core goes to `secondary_spin`. -/
theorem InStub.identify (hmpidr : mpidr &&& 3 = c.number) (h : InStub symbols mpidr c called n s)
    (hn : n < 4)
    (hfetch : s.place.fetch = some instr) (hexec : s.exec symbols mpidr mem instr = some s') :
    InStub symbols mpidr c called (n + 1) s' := by
  have hplace := h.place
  have hel := h.el
  rw [hplace] at hfetch
  interval_cases n
  · cases hfetch
    cases hexec
    exact .early (by decide) (congrArg BootPlace.next hplace) hel (fun _ => rfl) (by simp) (by simp)
  · cases hfetch
    cases hexec
    have hx6 : s.x .x6 &&& 3 = c.number := by rw [h.read rfl, hmpidr]
    exact .early (by decide) (congrArg BootPlace.next hplace) hel (by simp) (fun _ => hx6) (by simp)
  · cases hfetch
    have hx6 := h.number (by decide)
    have hne : ¬ s.x .x6 = 0 := hx6 ▸ c.number_ne_zero
    rw [BootCore.exec, if_neg hne] at hexec
    cases hexec
    exact .early (by decide) (congrArg BootPlace.next hplace) hel (by simp) (fun _ => hx6) (by simp)
  · cases hfetch
    cases hexec
    have hx6 := h.number (by decide)
    exact .early (by decide) (congrArg BootPlace.next hplace) hel (by simp) (fun _ => hx6) fun _ => rfl

/-- `secondary_spin` up to the branch: the word of the core is loaded and compared. -/
theorem InStub.spin (hword : mem c.slot = 0 ∨ mem c.slot = symbols.initCore ∧ called)
    (h : InStub symbols mpidr c called n s) (hn : 4 ≤ n) (hn' : n < 7)
    (hfetch : s.place.fetch = some instr) (hexec : s.exec symbols mpidr mem instr = some s') :
    InStub symbols mpidr c called (n + 1) s' ∧ (n = 5 → s'.x .x4 = mem c.slot) ∧
      (n = 6 → s'.x .x4 = s.x .x4) := by
  have hplace := h.place
  have hel := h.el
  have hx6 := h.number (by omega)
  have hx5 := h.table hn
  rw [hplace] at hfetch
  interval_cases n
  · cases hfetch
    cases hexec
    refine ⟨?_, by simp, by simp⟩
    exact .early (by decide) (congrArg BootPlace.next hplace) hel (by simp) (fun _ => hx6) fun _ => hx5
  · cases hfetch
    cases hexec
    have hload : mem (s.x .x5 + s.x .x6 <<< 3) = mem c.slot := by rw [hx5, hx6, SecondaryCore.slot]
    rw [← hload] at hword
    refine ⟨?_, fun _ => hload, by simp⟩
    exact .late (by decide) (by decide) (congrArg BootPlace.next hplace) hel hx6 hx5 hword
      (by simp) (by simp)
  · cases hfetch
    cases hexec
    have hx4 := h.word (by decide)
    refine ⟨?_, by simp, fun _ => rfl⟩
    exact .late (by decide) (by decide) (congrArg BootPlace.next hplace) hel hx6 hx5 hx4
      (fun _ => rfl) (by simp)

/-- The branch back to `secondary_spin` is taken while there is no function. -/
theorem InStub.branch (h : InStub symbols mpidr c called 7 s) (hfetch : s.place.fetch = some instr)
    (hexec : s.exec symbols mpidr mem instr = some s') :
    InStub symbols mpidr c called 4 s' ∧ s.x .x4 = 0 ∨
      InStub symbols mpidr c called 8 s' ∧ s'.x .x4 = s.x .x4 := by
  have hplace := h.place
  have hel := h.el
  have hx6 := h.number (by decide)
  have hx5 := h.table (by decide)
  have hx4 := h.word (by decide)
  have htested := h.tested rfl
  rw [hplace] at hfetch
  cases hfetch
  cases hzero : s.zero with
  | true =>
    rw [BootCore.exec, hzero] at hexec
    cases hexec
    rw [hzero] at htested
    refine .inl ⟨?_, beq_iff_eq.mp htested.symm⟩
    exact .early (by decide) (congrArg (BootPlace.goTo 4) hplace) hel (by simp) (fun _ => hx6)
      fun _ => hx5
  | false =>
    rw [BootCore.exec, hzero] at hexec
    cases hexec
    rw [hzero] at htested
    have hne : ¬ s.x .x4 = 0 := beq_eq_false_iff_ne.mp htested.symm
    have hfound := hx4.resolve_left hne
    refine .inr ⟨?_, rfl⟩
    exact .late (by decide) (by decide) (congrArg BootPlace.next hplace) hel hx6 hx5 hx4 (by simp)
      fun _ => hfound

/-- From there the core goes to the branch to the function. -/
theorem InStub.leave (h : InStub symbols mpidr c called n s) (hn : 8 ≤ n) (hn' : n < 13)
    (hfetch : s.place.fetch = some instr) (hexec : s.exec symbols mpidr mem instr = some s') :
    InStub symbols mpidr c called (n + 1) s' := by
  have hplace := h.place
  have hel := h.el
  have hx6 := h.number (by omega)
  have hx5 := h.table (by omega)
  have hx4 := h.word (by omega)
  have hfound := h.found hn
  rw [hplace] at hfetch
  have hgo : ∀ s' : BootCore, s'.place = .armstub (n + 1) → s'.el = s.el → s'.x .x6 = s.x .x6 →
      s'.x .x5 = s.x .x5 → s'.x .x4 = s.x .x4 → InStub symbols mpidr c called (n + 1) s' := by
    intro s' hplace' hel' hx6' hx5' hx4'
    exact .late (by omega) (by omega) hplace' (hel'.trans hel) (hx6'.trans hx6) (hx5'.trans hx5)
      (hx4' ▸ hx4)
      (by omega) fun _ => hx4' ▸ hfound
  interval_cases n
  · cases hfetch
    cases hexec
    exact hgo _ (congrArg BootPlace.next hplace) rfl rfl rfl rfl
  · cases hfetch
    cases hexec
    exact hgo _ (congrArg (BootPlace.goTo 10) hplace) rfl rfl rfl rfl
  · cases hfetch
    cases hexec
    exact hgo _ (congrArg BootPlace.next hplace) rfl rfl rfl rfl
  · cases hfetch
    cases hexec
    exact hgo _ (congrArg BootPlace.next hplace) rfl rfl rfl rfl
  · cases hfetch
    cases hexec
    exact hgo _ (congrArg BootPlace.next hplace) rfl rfl rfl rfl

/-- The branch goes to `init_core`. -/
theorem InStub.enter (h : InStub symbols mpidr c called 13 s) (hfetch : s.place.fetch = some instr)
    (hexec : s.exec symbols mpidr mem instr = some s') : s'.place = .initCore 0 ∧ s'.el = 3 := by
  rw [h.place] at hfetch
  cases hfetch
  cases hexec
  refine ⟨?_, h.el⟩
  have hplace := symbols.place_initCore
  rwa [← (h.found (by decide)).1] at hplace

/-- The armstub waits at one instruction only. -/
theorem armstub_waits (hfetch : armstub[n]? = some instr) (hwaits : instr.waits = true) : n = 4 := by
  have hn : n < 14 := (List.getElem?_eq_some_iff.mp hfetch).choose
  by_contra hne
  have hall : (armstub.eraseIdx 4).all (fun instr => !instr.waits) = true := rfl
  have hmem : instr ∈ armstub.eraseIdx 4 := List.mem_eraseIdx_iff_getElem?.mpr ⟨n, hne, hfetch⟩
  have := List.all_eq_true.mp hall instr hmem
  rw [hwaits] at this
  cases this

theorem CorePhase.le (h : CorePhase symbols mpidr c called r s) : r ≤ 70 := by
  cases h with
  | stub h =>
    have := h.bound
    rw [stubRank]
    split <;> omega
  | init h hr arrives => exact hr.trans (by decide)

/-- A core that waits is at its `wfe`. -/
theorem CorePhase.waits (h : CorePhase symbols mpidr c called r s) (hfetch : s.place.fetch = some instr)
    (hwaits : instr.waits = true) : r = 66 := by
  cases h with
  | stub h =>
    rw [h.place] at hfetch
    cases armstub_waits hfetch hwaits
    rw [InStub.rank_early (by decide)]
  | init h hr arrives =>
    rw [BootInstr.waits_of_plain (arrives.left.fetch hfetch)] at hwaits
    cases hwaits

theorem InStub.rank_identify (hn : n < 4) : stubRank n s = stubRank (n + 1) s' + 1 := by
  rw [InStub.rank_early (by omega), InStub.rank_early (by omega)]
  omega

/-- The loop of `secondary_spin` ends once the word is there. -/
theorem InStub.rank_spin (hlinked : symbols.Linked) (hthere : mem c.slot = symbols.initCore)
    (hn : 4 ≤ n)
    (hn' : n < 7) (hload : n = 5 → s'.x .x4 = mem c.slot) (hkeep : n = 6 → s'.x .x4 = s.x .x4) :
    stubRank n s = stubRank (n + 1) s' + 1 := by
  interval_cases n
  · rfl
  · have hfound : s'.x .x4 ≠ 0 := by
      rw [hload rfl, hthere]
      exact hlinked.initCore_ne_zero
    rw [InStub.rank_early (by decide), InStub.rank_found hfound]
  · have hsame := hkeep rfl
    by_cases hempty : s.x .x4 = 0
    · rw [InStub.rank_empty (by decide) hempty, InStub.rank_empty (by decide) (hsame.trans hempty)]
    · rw [InStub.rank_found hempty, InStub.rank_found (hsame ▸ hempty)]

/-- What one instruction does: with the word there, the core is one instruction closer. -/
theorem CorePhase.step (hlinked : symbols.Linked) (hmpidr : mpidr &&& 3 = c.number)
    (hword : mem c.slot = 0 ∨ mem c.slot = symbols.initCore ∧ called)
    (h : CorePhase symbols mpidr c called r s) (hfetch : s.place.fetch = some instr)
    (hexec : s.exec symbols mpidr mem instr = some s') :
    ∃ r', CorePhase symbols mpidr c called r' s' ∧ (mem c.slot = symbols.initCore → r = r' + 1) := by
  cases h with
  | init h hr arrives =>
    obtain ⟨r', hr', arrives'⟩ := arrives.step hfetch hexec
    exact ⟨r', .init h (by omega) arrives', fun _ => hr'⟩
  | @stub n _ h =>
    by_cases h4 : n < 4
    · have h' := h.identify hmpidr h4 hfetch hexec
      exact ⟨_, .stub h', fun _ => congrArg (56 + ·) (InStub.rank_identify h4)⟩
    by_cases h7 : n < 7
    · obtain ⟨h', hload, hkeep⟩ := h.spin hword (Nat.not_lt.mp h4) h7 hfetch hexec
      exact ⟨_, .stub h', fun hthere =>
        congrArg (56 + ·) (InStub.rank_spin hlinked hthere (Nat.not_lt.mp h4) h7 hload hkeep)⟩
    by_cases h8 : n < 8
    · have h7 : n = 7 := by omega
      subst h7
      cases h.branch hfetch hexec with
      | inl h' =>
        refine ⟨_, .stub h'.1, fun _ => ?_⟩
        rw [InStub.rank_empty (by decide) h'.2, InStub.rank_early (by decide)]
      | inr h' =>
        have hne := h'.1.found_ne_zero hlinked (by decide)
        refine ⟨_, .stub h'.1, fun _ => ?_⟩
        rw [InStub.rank_found hne, InStub.rank_found (h'.2 ▸ hne)]
    have hfound := h.found_ne_zero hlinked (Nat.not_lt.mp h8)
    by_cases h13 : n < 13
    · have h' := h.leave (Nat.not_lt.mp h8) h13 hfetch hexec
      refine ⟨_, .stub h', fun _ => ?_⟩
      rw [InStub.rank_found hfound, InStub.rank_found (h'.found_ne_zero hlinked (by omega))]
      omega
    · have h13 : n = 13 := by
        have := h.bound
        omega
      subst h13
      obtain ⟨hplace, hel⟩ := h.enter hfetch hexec
      have hleft : s'.place.Left := by
        rw [hplace]
        intro k hk
        cases hk
      refine ⟨56, .init (h.found (by decide)).2 (Nat.le_refl _)
        ⟨hleft, initCore_arrives hlinked hmpidr hplace hel⟩, fun _ => ?_⟩
      rw [InStub.rank_found hfound]

/-- A core that has not arrived can go on, unless it waits for an event. -/
theorem CorePhase.enabled (mem : BitVec 64 → BitVec 64)
    (h : CorePhase symbols mpidr c called (r + 1) s) :
    ∃ instr s', s.place.fetch = some instr ∧ s.exec symbols mpidr mem instr = some s' := by
  generalize hr : r + 1 = rank at h
  cases h with
  | @stub n _ h =>
    have hn := h.bound
    rw [h.place]
    interval_cases n <;> exact ⟨_, _, rfl, rfl⟩
  | init h hr' arrives =>
    subst hr
    obtain ⟨instr, s', hfetch, -, hexec⟩ := arrives.enabled mem
    exact ⟨instr, s', hfetch, hexec⟩

theorem CorePhase.arrived (h : CorePhase symbols mpidr c called 0 s) :
    called ∧ Arrived symbols c s := by
  generalize hr : 0 = rank at h
  cases h with
  | stub h => omega
  | init h hr' arrives =>
    subst hr
    exact ⟨h, arrives.arrived⟩

theorem CorePhase.mono {called' : Prop} (h : CorePhase symbols mpidr c called r s)
    (hcalled : called → called') :
    CorePhase symbols mpidr c called' r s := by
  cases h with
  | stub h =>
    exact .stub ⟨h.place, h.bound, h.el, h.read, h.number, h.table,
      fun hn => (h.word hn).imp_right (And.imp_right hcalled), h.tested,
      fun hn => (h.found hn).imp_right hcalled⟩
  | init h hr arrives => exact .init (hcalled h) hr arrives

end

/-! ### The four cores -/

theorem SecondaryCore.id_inj {c c' : SecondaryCore} (h : c.id = c'.id) : c = c' := by
  cases c <;> cases c' <;> first | rfl | exact absurd h (by decide)

theorem SecondaryCore.slot_inj {c c' : SecondaryCore} (h : c.slot = c'.slot) : c = c' := by
  cases c <;> cases c' <;> first | rfl | exact absurd h (by decide)

/-- `Core::start` stores into the word of its core, if it is one of the three. -/
theorem startOps_cases (core : BitVec 32) (func : BitVec 64) :
    startOps core func = [] ∨
      ∃ c : SecondaryCore, core = c.id ∧ startOps core func =
        startOpsAt (linearMapBase + c.slot) func := by
  rw [startOps]
  split
  · exact .inl rfl
  · split
    case isTrue h => exact .inr ⟨.core1, h, rfl⟩
    case isFalse h1 =>
      split
      case isTrue h => exact .inr ⟨.core2, h, rfl⟩
      case isFalse h2 =>
        have hcore : core = 3 := by bv_omega
        exact .inr ⟨.core3, hcore, rfl⟩

/-- Every call of `Core::start` is for `init_core`. -/
def startsInitCore (symbols : Symbols) (_ : Bringup) : BringupEvent → Bool
  | .start _ func => func == symbols.initCore
  | _ => true

/-- Where core 0 is in its call of `Core::start`. -/
inductive CallPhase (symbols : Symbols) (mem : BitVec 64 → BitVec 64) (calling : BitVec 32)
    (called : List (BitVec 32)) : List StartOp → Prop where
  | idle : CallPhase symbols mem calling called []
  | storing (c : SecondaryCore) (h : calling = c.id) (hc : c.id ∈ called) :
    CallPhase symbols mem calling called (startOpsAt (linearMapBase + c.slot) symbols.initCore)
  | stored (c : SecondaryCore) (h : calling = c.id) (hmem : mem c.slot = symbols.initCore) :
    CallPhase symbols mem calling called [.cleanCache (linearMapBase + c.slot), .sev]
  | cleaned (c : SecondaryCore) (h : calling = c.id) (hmem : mem c.slot = symbols.initCore) :
    CallPhase symbols mem calling called [.sev]

/-- The core will not wait any more: its word is there, and so is an event, or it is past the wait. It
    still takes `r` instructions. -/
structure Heeds (symbols : Symbols) (mpidr : SecondaryCore → BitVec 64) (c : SecondaryCore) (r : Nat)
    (s : Bringup) : Prop where
  phase : CorePhase symbols (mpidr c) c (c.id ∈ s.called) r (s.core c)
  word : s.mem c.slot = symbols.initCore
  event : s.event c = true ∨ r ≤ 65

structure BringupInv (symbols : Symbols) (mpidr : SecondaryCore → BitVec 64) (s : Bringup) : Prop where
  word : ∀ c : SecondaryCore, s.mem c.slot = 0 ∨ s.mem c.slot = symbols.initCore ∧ c.id ∈ s.called
  call : CallPhase symbols s.mem s.calling s.called s.pending
  core : ∀ c, ∃ r, CorePhase symbols (mpidr c) c (c.id ∈ s.called) r (s.core c)
  sent : ∀ c : SecondaryCore, c.id ∈ s.sent → ∃ r, Heeds symbols mpidr c r s

section

variable {symbols : Symbols} {mpidr : SecondaryCore → BitVec 64} {c : SecondaryCore} {r : Nat}
  {s s₀ s' : Bringup}

theorem bringupInv_reset (h : s.Reset) : BringupInv symbols mpidr s := by
  constructor
  · intro c
    exact .inl (h.table c)
  · rw [h.idle]
    exact .idle
  · intro c
    exact ⟨_, .stub ⟨h.place c, by decide, h.el c, by simp, by simp, by simp, by simp,
      by simp, by simp⟩⟩
  · intro c hc
    rw [h.notSent] at hc
    cases hc

/-- What an instruction of one of the other cores does. -/
theorem Bringup.proceed_cases (h : s.proceed symbols mpidr c = some s') : ∃ instr core,
    (s.core c).place.fetch = some instr ∧ (s.core c).exec symbols (mpidr c) s.mem instr = some core ∧
    s' = { s with
      core := Function.update s.core c core
      event := if instr.waits = true then Function.update s.event c false else s.event } := by
  rw [Bringup.proceed] at h
  cases hfetch : (s.core c).place.fetch with
  | none =>
    rw [hfetch] at h
    cases h
  | some instr =>
    rw [hfetch] at h
    simp only at h
    split at h
    · cases h
    · obtain ⟨core, hexec, rfl⟩ := Option.map_eq_some_iff.mp h
      exact ⟨instr, core, rfl, hexec, rfl⟩

/-- A core that heeds its start is one instruction closer with each of its own. -/
theorem Heeds.own (hlinked : symbols.Linked) (hmpidr : mpidr c &&& 3 = c.number)
    (hcalled : s.mem c.slot = 0 ∨ s.mem c.slot = symbols.initCore ∧ c.id ∈ s.called)
    (h : Heeds symbols mpidr c r s) (hstep : s.proceed symbols mpidr c = some s') :
    ∃ r', r = r' + 1 ∧ Heeds symbols mpidr c r' s' := by
  obtain ⟨instr, core, hfetch, hexec, rfl⟩ := Bringup.proceed_cases hstep
  obtain ⟨r', hphase, hr⟩ := h.phase.step hlinked hmpidr hcalled hfetch hexec
  have hr := hr h.word
  refine ⟨r', hr, ?_, h.word, ?_⟩
  · simp only [Function.update_self]
    exact hphase
  · have hwaits := h.phase.waits hfetch
    have hle := h.phase.le
    have hevent := h.event
    cases hw : instr.waits with
    | true =>
      have := hwaits hw
      exact .inr (by omega)
    | false =>
      exact hevent.imp_right fun hle => by omega

/-- The other cores do not hinder it. -/
theorem Heeds.other {c' : SecondaryCore} (hne : c ≠ c') (h : Heeds symbols mpidr c r s)
    (hstep : s.proceed symbols mpidr c' = some s') : Heeds symbols mpidr c r s' := by
  obtain ⟨instr, core, -, -, rfl⟩ := Bringup.proceed_cases hstep
  constructor
  · simp only [Function.update_of_ne hne]
    exact h.phase
  · exact h.word
  · refine h.event.imp_left fun hevent => ?_
    simp only
    split
    · rw [Function.update_of_ne hne]
      exact hevent
    · exact hevent

/-- A core that heeds its start can go on until it has arrived. -/
theorem Heeds.enabled (h : Heeds symbols mpidr c (r + 1) s) :
    (s.proceed symbols mpidr c).isSome = true := by
  obtain ⟨instr, core, hfetch, hexec⟩ := h.phase.enabled s.mem
  have hwait : (instr.waits && !s.event c) = false := by
    cases hw : instr.waits with
    | false => rfl
    | true =>
      have hr := h.phase.waits hfetch hw
      cases h.event with
      | inl hevent => rw [hevent]; rfl
      | inr hle => omega
  rw [Bringup.proceed, hfetch]
  simp only [hwait, hexec]
  rfl

/-- Nor do steps that leave its word, its event and its place. -/
theorem Heeds.frame (h : Heeds symbols mpidr c r s) (hcore : s'.core c = s.core c)
    (hmem : s'.mem c.slot = symbols.initCore) (hevent : s.event c = true → s'.event c = true)
    (hcalled : c.id ∈ s.called → c.id ∈ s'.called) : Heeds symbols mpidr c r s' := by
  constructor
  · rw [hcore]
    exact h.phase.mono hcalled
  · exact hmem
  · exact h.event.imp_left hevent

theorem BringupInv.start {core : BitVec 32} {func : BitVec 64} (h : BringupInv symbols mpidr s)
    (hfunc : func = symbols.initCore) :
    BringupInv symbols mpidr
      { s with calling := core, pending := startOps core func, called := core :: s.called } := by
  subst hfunc
  constructor
  · intro c
    exact (h.word c).imp_right (And.imp_right (List.mem_cons_of_mem core))
  · cases startOps_cases core symbols.initCore with
    | inl hops =>
      simp only [hops]
      exact .idle
    | inr hops =>
      obtain ⟨c, hcore, hops⟩ := hops
      simp only [hops]
      refine .storing c hcore ?_
      rw [hcore]
      exact List.mem_cons_self
  · intro c
    obtain ⟨r, hr⟩ := h.core c
    exact ⟨r, hr.mono (List.mem_cons_of_mem core)⟩
  · intro c hc
    obtain ⟨r, hr⟩ := h.sent c hc
    exact ⟨r, hr.frame rfl hr.word (fun he => he) (List.mem_cons_of_mem core)⟩

/-- A word to which `init_core` is stored. -/
theorem update_word {mem : BitVec 64 → BitVec 64} {address value : BitVec 64} (slot : BitVec 64)
    (h : mem slot = value) : Function.update mem address value slot = value := by
  by_cases haddress : slot = address
  · rw [haddress, Function.update_self]
  · rw [Function.update_of_ne haddress, h]

theorem Heeds.boot (hinv : BringupInv symbols mpidr s) (h : Heeds symbols mpidr c r s)
    (hstep : s.boot = some s') : Heeds symbols mpidr c r s' := by
  rw [Bringup.boot] at hstep
  generalize hpending : s.pending = pending at hstep
  have hcall := hinv.call
  rw [hpending] at hcall
  cases hcall with
  | idle => cases hstep
  | storing c' hcalling hc =>
    cases hstep
    exact h.frame rfl (update_word _ h.word) (fun he => he) fun hc => hc
  | stored c' hcalling hmem =>
    cases hstep
    exact h.frame rfl h.word (fun he => he) fun hc => hc
  | cleaned c' hcalling hmem =>
    cases hstep
    exact h.frame rfl h.word (fun _ => rfl) fun hc => hc

theorem BringupInv.boot (h : BringupInv symbols mpidr s) (hstep : s.boot = some s') :
    BringupInv symbols mpidr s' := by
  have hheeds : ∀ c r, Heeds symbols mpidr c r s → Heeds symbols mpidr c r s' :=
    fun c r hr => hr.boot h hstep
  rw [Bringup.boot] at hstep
  generalize hpending : s.pending = pending at hstep
  have hcall := h.call
  rw [hpending] at hcall
  cases hcall with
  | idle => cases hstep
  | storing c' hcalling hc =>
    cases hstep
    have haddress : linearMapBase + c'.slot - linearMapBase = c'.slot := by
      rw [BitVec.add_comm, BitVec.add_sub_cancel]
    rw [haddress] at hheeds ⊢
    constructor
    · intro c
      by_cases hcc : c.slot = c'.slot
      · have hsame := SecondaryCore.slot_inj hcc
        subst hsame
        exact .inr ⟨Function.update_self _ _ _, hc⟩
      · simp only [Function.update_of_ne hcc]
        exact h.word c
    · exact .stored c' hcalling (Function.update_self _ _ _)
    · exact h.core
    · intro c hc
      obtain ⟨r, hr⟩ := h.sent c hc
      exact ⟨r, hheeds c r hr⟩
  | stored c' hcalling hmem =>
    cases hstep
    refine ⟨h.word, .cleaned c' hcalling hmem, h.core, fun c hc => ?_⟩
    obtain ⟨r, hr⟩ := h.sent c hc
    exact ⟨r, hheeds c r hr⟩
  | cleaned c' hcalling hmem =>
    cases hstep
    refine ⟨h.word, .idle, h.core, fun c hc => ?_⟩
    rw [List.mem_cons] at hc
    cases hc with
    | inl hc =>
      have hcc := SecondaryCore.id_inj (hc.trans hcalling)
      subst hcc
      obtain ⟨r, hr⟩ := h.core c
      exact ⟨r, hr, hmem, .inl rfl⟩
    | inr hc =>
      obtain ⟨r, hr⟩ := h.sent c hc
      exact ⟨r, hheeds c r hr⟩

theorem BringupInv.proceed (hlinked : symbols.Linked)
    (hmpidr : ∀ c : SecondaryCore, mpidr c &&& 3 = c.number) (h : BringupInv symbols mpidr s)
    (hstep : s.proceed symbols mpidr c = some s') : BringupInv symbols mpidr s' := by
  have hheeds : ∀ c' : SecondaryCore, c'.id ∈ s.sent → ∃ r, Heeds symbols mpidr c' r s' := by
    intro c' hc'
    obtain ⟨r, hr⟩ := h.sent c' hc'
    by_cases hcc : c' = c
    · subst hcc
      obtain ⟨r', -, hr'⟩ := hr.own hlinked (hmpidr c') (h.word c') hstep
      exact ⟨r', hr'⟩
    · exact ⟨r, hr.other hcc hstep⟩
  obtain ⟨instr, core, hfetch, hexec, rfl⟩ := Bringup.proceed_cases hstep
  refine ⟨h.word, h.call, fun c' => ?_, hheeds⟩
  obtain ⟨r, hr⟩ := h.core c'
  by_cases hcc : c' = c
  · subst hcc
    obtain ⟨r', hr', -⟩ := hr.step hlinked (hmpidr c') (h.word c') hfetch hexec
    refine ⟨r', ?_⟩
    simp only [Function.update_self]
    exact hr'
  · refine ⟨r, ?_⟩
    simp only [Function.update_of_ne hcc]
    exact hr

theorem bringupInv_step {e : BringupEvent} (hlinked : symbols.Linked)
    (hmpidr : ∀ c : SecondaryCore, mpidr c &&& 3 = c.number) (h : BringupInv symbols mpidr s)
    (hok : startsInitCore symbols s e = true) (hstep : bringupStep symbols mpidr s e = some s') :
    BringupInv symbols mpidr s' := by
  cases e with
  | start core func =>
    rw [bringupStep] at hstep
    split at hstep
    · cases hstep
      exact h.start (beq_iff_eq.mp hok)
    · cases hstep
  | bootCore => exact h.boot hstep
  | proceed c => exact h.proceed hlinked hmpidr hstep
  | sendEvent c =>
    cases hstep
    refine ⟨h.word, h.call, h.core, fun c' hc' => ?_⟩
    obtain ⟨r, hr⟩ := h.sent c' hc'
    refine ⟨r, hr.frame rfl hr.word (fun he => ?_) fun hc => hc⟩
    by_cases hcc : c' = c
    · subst hcc
      exact Function.update_self _ _ _
    · exact (Function.update_of_ne hcc _ _).trans he

theorem bringupInv_of_run (hlinked : symbols.Linked)
    (hmpidr : ∀ c : SecondaryCore, mpidr c &&& 3 = c.number)
    (hreset : s₀.Reset) (hrun : RunWhere (bringupStep symbols mpidr) (startsInitCore symbols) s₀ s) :
    BringupInv symbols mpidr s :=
  hrun.invariant (bringupInv_reset hreset) fun _ _ _ h hok hstep =>
    bringupInv_step hlinked hmpidr h hok hstep

/-- No step of anyone makes a core that heeds its start wait again. -/
theorem Heeds.step {e : BringupEvent} (hlinked : symbols.Linked)
    (hmpidr : ∀ c : SecondaryCore, mpidr c &&& 3 = c.number) (hinv : BringupInv symbols mpidr s)
    (h : Heeds symbols mpidr c r s) (hstep : bringupStep symbols mpidr s e = some s') :
    ∃ r', r = r' + (if (e == .proceed c) = true then 1 else 0) ∧ Heeds symbols mpidr c r' s' := by
  cases e with
  | start core func =>
    rw [bringupStep] at hstep
    split at hstep
    · cases hstep
      exact ⟨r, rfl, h.frame rfl h.word (fun he => he) (List.mem_cons_of_mem core)⟩
    · cases hstep
  | bootCore => exact ⟨r, rfl, h.boot hinv hstep⟩
  | proceed c' =>
    by_cases hcc : c = c'
    · subst hcc
      obtain ⟨r', hr', h'⟩ := h.own hlinked (hmpidr c) (hinv.word c) hstep
      refine ⟨r', ?_, h'⟩
      rw [if_pos (beq_self_eq_true _)]
      exact hr'
    · refine ⟨r, ?_, h.other hcc hstep⟩
      rw [if_neg fun heq => hcc (BringupEvent.proceed.inj (beq_iff_eq.mp heq)).symm]
      rfl
  | sendEvent c' =>
    cases hstep
    refine ⟨r, rfl, h.frame rfl h.word (fun he => ?_) fun hc => hc⟩
    by_cases hcc : c = c'
    · subst hcc
      exact Function.update_self _ _ _
    · exact (Function.update_of_ne hcc _ _).trans he

/-- No core goes anywhere but to `initSecondaryCore`, to that only if it has been called, and as it
    should be; and none of them makes an access that its exception level does not allow. -/
theorem bringup_arrived (hlinked : symbols.Linked)
    (hmpidr : ∀ c : SecondaryCore, mpidr c &&& 3 = c.number)
    (hreset : s₀.Reset) (hrun : RunWhere (bringupStep symbols mpidr) (startsInitCore symbols) s₀ s) :
    (c.id ∈ s.called ∧ Arrived symbols c (s.core c)) ∨
      ∃ instr core, (s.core c).place.fetch = some instr ∧
        (s.core c).exec symbols (mpidr c) s.mem instr = some core := by
  obtain ⟨r, hr⟩ := (bringupInv_of_run hlinked hmpidr hreset hrun).core c
  cases r with
  | zero => exact .inl hr.arrived
  | succ r => exact .inr (hr.enabled s.mem)

end

/-- The addresses of a kernel. -/
def exampleSymbols : Symbols where
  initCore := 0x80100
  initSecondaryCore := 0xffff0000000a2000
  cpu0Stack := 0xffff0000000c0000
  vector := 0xffff000000090800
  idPgDir := 0xb0000

theorem exampleSymbols_linked : exampleSymbols.Linked := ⟨by decide, by decide +kernel⟩

def exampleMpidr (c : SecondaryCore) : BitVec 64 := 0x80000000 ||| c.number

theorem exampleMpidr_number (c : SecondaryCore) : exampleMpidr c &&& 3 = c.number := by
  cases c <;> decide

/-- The cores after the reset, with zeros in all registers. -/
def exampleReset : Bringup where
  mem _ := 0
  event _ := false
  core _ := ⟨.armstub 0, fun _ => 0, false, 3, false, fun _ => 0, 0, fun _ => 0⟩
  calling := 0
  pending := []
  called := []
  sent := []

theorem exampleReset_reset : exampleReset.Reset :=
  ⟨fun _ => rfl, fun _ => rfl, fun _ => rfl, rfl, rfl, rfl⟩

/-- `Core::start` for core 1, in a call that has just begun. -/
def exampleStart : List BringupEvent :=
  [.start 1 exampleSymbols.initCore, .bootCore, .bootCore, .bootCore]

/-- Core 1 goes to `initSecondaryCore`. -/
def exampleRun : List BringupEvent := exampleStart ++ List.replicate 70 (.proceed .core1)

theorem bringup_arrived_core1 :
    ∃ s, RunWhere (bringupStep exampleSymbols exampleMpidr) (startsInitCore exampleSymbols)
      exampleReset s ∧ Arrived exampleSymbols .core1 (s.core .core1) := by
  obtain ⟨s, hrun, hplace⟩ : ∃ s,
      RunWhere (bringupStep exampleSymbols exampleMpidr) (startsInitCore exampleSymbols)
        exampleReset s ∧ (s.core .core1).place.fetch.isNone = true :=
    RunWhere.exists_of_replay exampleRun (by decide +kernel)
  refine ⟨s, hrun, ?_⟩
  cases bringup_arrived (c := .core1) exampleSymbols_linked exampleMpidr_number
    exampleReset_reset hrun with
  | inl h => exact h.2
  | inr h =>
    obtain ⟨instr, -, hfetch, -⟩ := h
    rw [hfetch] at hplace
    cases hplace

section

variable {symbols : Symbols} {mpidr : SecondaryCore → BitVec 64} {c : SecondaryCore} {s s₀ s' : Bringup}

/-- No start is lost: from the event of its call of `Core::start` on, in any order of steps, a core
    can go on until it has arrived, and it takes 70 instructions at most. -/
theorem bringup_arrives {events : List BringupEvent} (hlinked : symbols.Linked)
    (hmpidr : ∀ c : SecondaryCore, mpidr c &&& 3 = c.number) (hreset : s₀.Reset)
    (hrun : RunWhere (bringupStep symbols mpidr) (startsInitCore symbols) s₀ s) (hsent : c.id ∈ s.sent)
    (hevents : replay (bringupStep symbols mpidr) (startsInitCore symbols) s events = some s') :
    events.count (.proceed c) ≤ 70 ∧
      (Arrived symbols c (s'.core c) ∨ (bringupStep symbols mpidr s' (.proceed c)).isSome = true) := by
  have hinv := bringupInv_of_run hlinked hmpidr hreset hrun
  obtain ⟨r, hr⟩ := hinv.sent c hsent
  obtain ⟨r', hr', -, hheeds⟩ := replay_rank
    (p := fun r s => BringupInv symbols mpidr s ∧ Heeds symbols mpidr c r s)
    (b := fun e => e == .proceed c)
    (fun _ _ _ _ hp hok hstep => by
      obtain ⟨r', hr', h'⟩ := hp.2.step hlinked hmpidr hp.1 hstep
      exact ⟨r', hr', bringupInv_step hlinked hmpidr hp.1 hok hstep, h'⟩)
    ⟨hinv, hr⟩ hevents
  refine ⟨?_, ?_⟩
  · have hle := hr.phase.le
    rw [List.count]
    omega
  · cases r' with
    | zero => exact .inl hheeds.phase.arrived.2
    | succ r' => exact .inr hheeds.enabled


end

theorem bringup_arrives_core1 :
    ∃ s, RunWhere (bringupStep exampleSymbols exampleMpidr) (startsInitCore exampleSymbols)
      exampleReset s ∧ ∀ events s',
        replay (bringupStep exampleSymbols exampleMpidr) (startsInitCore exampleSymbols) s events =
          some s' →
        events.count (.proceed .core1) ≤ 70 ∧ (Arrived exampleSymbols .core1 (s'.core .core1) ∨
          (bringupStep exampleSymbols exampleMpidr s' (.proceed .core1)).isSome = true) := by
  obtain ⟨s, hrun, hsent⟩ : ∃ s,
      RunWhere (bringupStep exampleSymbols exampleMpidr) (startsInitCore exampleSymbols)
        exampleReset s ∧ decide (SecondaryCore.core1.id ∈ s.sent) = true :=
    RunWhere.exists_of_replay exampleStart (by decide +kernel)
  refine ⟨s, hrun, fun events s' hevents => ?_⟩
  exact bringup_arrives exampleSymbols_linked exampleMpidr_number exampleReset_reset hrun
    (of_decide_eq_true hsent)
    hevents

end Rpi4Kernel.Boot
