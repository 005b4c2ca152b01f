/-
Module: Rpi4Kernel.Proofs.ExceptionFrameSpec
Layer: Proofs
Purpose: The entry code writes exactly the `CoreContext` of the interrupted task on the frame, and the
  exit code resumes the task of the `CoreContext` it finds there, although both reuse registers of
  the task on the way.
Trusted boundary: none (fully proved)
Main exports: interruptedContext, kernelEntry_spec, kernelExit_spec
-/
import Rpi4Kernel.Boot.ExceptionFrame

namespace Rpi4Kernel.Boot

open Rpi4Kernel.Theory

/-- The context of the task that an exception has interrupted. -/
def interruptedContext (c : Cpu) : CoreContext where
  gpr i := c.x i.castSucc
  lr := c.x lr
  elrEl1 := c.sys .elrEl1
  sprsEl1 := c.sys .spsrEl1
  esrEl1 := c.sys .esrEl1
  spEl0 := c.sys .spEl0
  farEl1 := c.sys .farEl1

theorem contextView_interruptedContext (c : Cpu) :
    contextView (interruptedContext c) = taskView c := by
  have hx : (contextView (interruptedContext c)).x = c.x := by
    funext r
    simp only [contextView, interruptedContext]
    split
    · rfl
    · congr 1
      apply Fin.ext
      simp only [lr]
      omega
  exact TaskView.ext hx rfl rfl rfl

/-! ### The context on the frame -/

/-- A context written on a frame is read back. -/
theorem loadContext_storeContext (mem : Memory) (addr : Word) (ctx : CoreContext) :
    loadContext (storeContext mem addr ctx) addr = ctx := by
  have hword : ∀ k < 36, storeContext mem addr ctx (slot addr k) =
      ctx.words.getD k (mem (slot addr k)) := by
    intro k hk
    rw [storeContext, storeWords_slot _ _ _ (by omega), if_pos (Nat.zero_le k), Nat.sub_zero]
  have hgpr : (fun i : Fin 30 => storeContext mem addr ctx (slot addr i)) = ctx.gpr := by
    funext i
    rw [hword i (by omega), CoreContext.words, List.getD_append _ _ _ _ (by simp),
      List.getD_eq_getElem _ _ (by simp), List.getElem_ofFn]
  have hrest : ∀ k < 6, storeContext mem addr ctx (slot addr (30 + k)) =
      [ctx.lr, ctx.elrEl1, ctx.sprsEl1, ctx.esrEl1, ctx.spEl0, ctx.farEl1].getD k
        (mem (slot addr (30 + k))) := by
    intro k hk
    rw [hword _ (by omega), CoreContext.words, List.getD_append_right _ _ _ _ (by simp),
      List.length_ofFn, Nat.add_sub_cancel_left]
  rw [loadContext, hgpr, hrest 0 (by norm_num), hrest 1 (by norm_num), hrest 2 (by norm_num),
    hrest 3 (by norm_num), hrest 4 (by norm_num), hrest 5 (by norm_num)]
  rfl

/-! ### Entry -/

theorem exec_append (is js : List Instr) (c : Cpu) : exec (is ++ js) c = exec js (exec is c) :=
  List.foldl_append

/-- The store of the registers `x(2k)` and `x(2k+1)` at their place on the frame. -/
def savePair (k : Nat) : Instr :=
  .stp (Fin.ofNat 31 (2 * k)) (Fin.ofNat 31 (2 * k + 1)) (BitVec.ofNat 64 (16 * k))

/-- The load of the registers `x(2k)` and `x(2k+1)` from their place on the frame. -/
def loadPair (k : Nat) : Instr :=
  .ldp (Fin.ofNat 31 (2 * k)) (Fin.ofNat 31 (2 * k + 1)) (BitVec.ofNat 64 (16 * k))

/-- The part of `_kernel_entry` after the register stores. -/
def saveSystem : List Instr :=
  [ .mrs 1 .elrEl1, .mrs 2 .spsrEl1, .mrs 3 .esrEl1, .stp lr 1 (16 * 15), .stp 2 3 (16 * 16),
    .mrs 1 .spEl0, .mrs 2 .farEl1, .stp 1 2 (16 * 17), .movSp 0 ]

theorem kernelEntry_eq :
    kernelEntry = [.subSp (16 * 18)] ++ (List.range 15).map savePair ++ saveSystem := by
  decide

theorem even_slot (base : Word) (k : Nat) : base + BitVec.ofNat 64 (16 * k) = slot base (2 * k) := by
  rw [slot, show 8 * (2 * k) = 16 * k by omega]

theorem odd_slot (base : Word) (k : Nat) :
    base + (BitVec.ofNat 64 (16 * k) + 8) = slot base (2 * k + 1) := by
  rw [slot, show 8 * (2 * k + 1) = 16 * k + 8 by omega, BitVec.ofNat_add]
  rfl

/-- The register stores write the registers in order from the start of the frame. -/
theorem exec_savePairs (c : Cpu) {n : Nat} (hn : n ≤ 15) :
    exec ((List.range n).map savePair) c =
      { c with
        mem := storeWords c.mem c.sp 0
          ((List.range (2 * n)).map fun i => c.x (Fin.ofNat 31 i)) } := by
  induction n with
  | zero =>
      have hnone : storeWords c.mem c.sp 0 [] = c.mem := by
        funext a
        simp [storeWords]
      simp only [Nat.mul_zero, List.range_zero, List.map_nil, hnone]
      rfl
  | succ n ih =>
      have hlen : ((List.range (2 * n)).map fun i => c.x (Fin.ofNat 31 i)).length = 2 * n := by simp
      have hrange : List.range (2 * (n + 1)) = List.range (2 * n) ++ [2 * n] ++ [2 * n + 1] := by
        rw [Nat.mul_succ, List.range_succ, List.range_succ]
      rw [List.range_succ, List.map_append, exec_append, ih (by omega), hrange, List.map_append,
        List.map_append, ← storeWords_append, ← storeWords_append, List.length_append, hlen]
      simp only [exec, List.map_cons, List.map_nil, List.foldl_cons, List.foldl_nil, step, savePair,
        even_slot, odd_slot, List.length_singleton, Nat.zero_add]
      rw [update_slot _ _ _ (by omega), update_slot _ _ _ (by omega)]

/-- The rest of the entry code writes `lr` and the system registers behind them. -/
theorem exec_saveSystem (c : Cpu) :
    (exec saveSystem c).mem = storeWords c.mem c.sp 30 [c.x lr, c.sys .elrEl1, c.sys .spsrEl1,
        c.sys .esrEl1, c.sys .spEl0, c.sys .farEl1] ∧
      (exec saveSystem c).sp = c.sp := by
  refine ⟨?_, rfl⟩
  have hmem : (exec saveSystem c).mem =
      Function.update (Function.update (Function.update (Function.update (Function.update
        (Function.update c.mem (slot c.sp 30) (c.x lr)) (slot c.sp 31) (c.sys .elrEl1))
        (slot c.sp 32) (c.sys .spsrEl1)) (slot c.sp 33) (c.sys .esrEl1))
        (slot c.sp 34) (c.sys .spEl0)) (slot c.sp 35) (c.sys .farEl1) := by
    simp only [exec, saveSystem, List.foldl_cons, List.foldl_nil, step]
    rfl
  rw [hmem, update_slot _ _ _ (by norm_num), update_slot _ _ _ (by norm_num),
    update_slot _ _ _ (by norm_num), update_slot _ _ _ (by norm_num),
    update_slot _ _ _ (by norm_num), update_slot _ _ _ (by norm_num)]
  -- the run of six words is six runs of one word
  conv_rhs => rw [storeWords_cons, storeWords_cons, storeWords_cons, storeWords_cons, storeWords_cons]

/-- `_kernel_entry` writes the context of the interrupted task below its stack pointer. -/
theorem kernelEntry_spec (c : Cpu) :
    (exec kernelEntry c).mem = storeContext c.mem (c.sp - 16 * 18) (interruptedContext c) ∧
      (exec kernelEntry c).sp = c.sp - 16 * 18 := by
  have hgpr : (List.range (2 * 15)).map (fun i => c.x (Fin.ofNat 31 i)) =
      List.ofFn (interruptedContext c).gpr := by
    rfl
  rw [kernelEntry_eq, exec_append, exec_append]
  obtain ⟨hmem, hsp⟩ :=
    exec_saveSystem (exec ((List.range 15).map savePair) (exec [.subSp (16 * 18)] c))
  rw [hmem, hsp, exec_savePairs _ le_rfl]
  refine ⟨?_, rfl⟩
  simp only [exec, List.foldl_cons, List.foldl_nil, step]
  rw [hgpr, storeContext, CoreContext.words, ← storeWords_append, List.length_ofFn]
  rfl

theorem loadContext_kernelEntry (c : Cpu) :
    loadContext (exec kernelEntry c).mem (exec kernelEntry c).sp = interruptedContext c := by
  obtain ⟨hmem, hsp⟩ := kernelEntry_spec c
  rw [hmem, hsp, loadContext_storeContext]

/-! ### Exit -/

/-- The part of `_kernel_exit` before the register loads. -/
def loadStatus : List Instr :=
  [.ldrW 19 (16 * 16), .ldp lr 20 (16 * 15), .msr .spsrEl1 19, .msr .elrEl1 20]

/-- The part of `_kernel_exit` after the loads of `x0` to `x27`. -/
def loadLast : List Instr :=
  [.ldp 28 29 (16 * 17), .msr .spEl0 28, .ldp 28 29 (16 * 14), .addSp (16 * 18)]

theorem kernelExit_eq :
    kernelExit = loadStatus ++ (List.range 14).map loadPair ++ loadLast := by
  decide

/-- The register loads read the registers in order from the start of the frame. -/
theorem exec_loadPairs (c : Cpu) {n : Nat} (hn : n ≤ 15) :
    exec ((List.range n).map loadPair) c =
      { c with x := fun r => if r.val < 2 * n then c.mem (slot c.sp r) else c.x r } := by
  induction n with
  | zero =>
      simp only [List.range_zero, List.map_nil, Nat.mul_zero, Nat.not_lt_zero, if_false]
      rfl
  | succ n ih =>
      rw [List.range_succ, List.map_append, exec_append, ih (by omega)]
      simp only [exec, List.map_cons, List.map_nil, List.foldl_cons, List.foldl_nil, step, loadPair,
        even_slot, odd_slot]
      congr 1
      funext r
      have heven : (Fin.ofNat 31 (2 * n)).val = 2 * n := Nat.mod_eq_of_lt (by omega)
      have hodd : (Fin.ofNat 31 (2 * n + 1)).val = 2 * n + 1 := Nat.mod_eq_of_lt (by omega)
      simp only [Function.update_apply, Fin.ext_iff, heven, hodd]
      by_cases h1 : r.val = 2 * n + 1
      · rw [if_pos h1, if_pos (by omega), h1]
      · rw [if_neg h1]
        by_cases h2 : r.val = 2 * n
        · rw [if_pos h2, if_pos (by omega), h2]
        · rw [if_neg h2]
          exact if_congr (by omega) rfl rfl

/-- The status and the program counter are in place before the register loads, which leave them. -/
theorem exec_loadStatus (c : Cpu) :
    (exec loadStatus c).mem = c.mem ∧ (exec loadStatus c).sp = c.sp ∧
      (exec loadStatus c).x lr = c.mem (slot c.sp 30) ∧
      (exec loadStatus c).sys .elrEl1 = c.mem (slot c.sp 31) ∧
      (exec loadStatus c).sys .spsrEl1 = ((c.mem (slot c.sp 32)).setWidth 32).setWidth 64 :=
  ⟨rfl, rfl, rfl, rfl, rfl⟩

/-- The last loads use `x28` for the stack pointer of the task before they restore it. -/
theorem exec_loadLast (c : Cpu) :
    (exec loadLast c).sys .spEl0 = c.mem (slot c.sp 34) ∧
      (exec loadLast c).sys .elrEl1 = c.sys .elrEl1 ∧
      (exec loadLast c).sys .spsrEl1 = c.sys .spsrEl1 ∧
      ∀ r, (exec loadLast c).x r =
        if r.val = 28 ∨ r.val = 29 then c.mem (slot c.sp r) else c.x r := by
  refine ⟨rfl, rfl, rfl, fun r => ?_⟩
  have hx : (exec loadLast c).x = Function.update (Function.update (Function.update (Function.update
      c.x 28 (c.mem (slot c.sp 34))) 29 (c.mem (slot c.sp 35))) 28 (c.mem (slot c.sp 28)))
      29 (c.mem (slot c.sp 29)) := rfl
  rw [hx]
  by_cases h29 : r = 29
  · subst h29
    rfl
  · by_cases h28 : r = 28
    · subst h28
      rfl
    · have hval28 : r.val ≠ 28 := fun h => h28 (Fin.ext h)
      have hval29 : r.val ≠ 29 := fun h => h29 (Fin.ext h)
      simp only [Function.update_apply, h28, h29, hval28, hval29, if_false, or_self]

/-- `_kernel_exit` resumes the task of the context on the frame. -/
theorem kernelExit_spec (c : Cpu) :
    taskView (exec kernelExit c) = contextView (loadContext c.mem c.sp) := by
  obtain ⟨hmem, hsp, hlr, helr, hspsr⟩ := exec_loadStatus c
  have hpairs := exec_loadPairs (exec loadStatus c) (show 14 ≤ 15 by norm_num)
  rw [kernelExit_eq, exec_append, exec_append, hpairs]
  generalize exec loadStatus c = c₁ at hmem hsp hlr helr hspsr ⊢
  generalize hc₂ : ({ c₁ with
    x := fun r => if r.val < 2 * 14 then c₁.mem (slot c₁.sp r) else c₁.x r } : Cpu) = c₂
  have hx₂ : ∀ r, c₂.x r = if r.val < 2 * 14 then c.mem (slot c.sp r) else c₁.x r := by
    intro r
    rw [← hc₂, ← hmem, ← hsp]
  have hrest : c₂.mem = c.mem ∧ c₂.sp = c.sp ∧ c₂.sys = c₁.sys := by
    rw [← hc₂, ← hmem, ← hsp]
    exact ⟨rfl, rfl, rfl⟩
  obtain ⟨hmem₂, hsp₂, hsys₂⟩ := hrest
  obtain ⟨hspEl0, helr', hspsr', hx⟩ := exec_loadLast c₂
  rw [hmem₂, hsp₂] at hspEl0
  apply TaskView.ext
  · funext r
    simp only [taskView, contextView, loadContext, hx, hmem₂, hsp₂, hx₂]
    by_cases h30 : r.val < 30
    · rw [dif_pos h30]
      split_ifs with hlast hfirst
      · rfl
      · rfl
      · omega
    · have hr : r = lr := by
        apply Fin.ext
        simp only [lr]
        omega
      rw [dif_neg h30, if_neg (by omega), if_neg (by omega), hr, hlr]
  · simp only [taskView, helr', hsys₂, helr]
    rfl
  · simp only [taskView, hspsr', hsys₂, hspsr]
    rw [BitVec.setWidth_setWidth_of_le _ (by norm_num)]
    rfl
  · simp only [taskView, hspEl0]
    rfl

end Rpi4Kernel.Boot
