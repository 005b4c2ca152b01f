/-
Module: Rpi4Kernel.Proofs.LockRoutinesSpec
Layer: Proofs
Purpose: The routines of `functions.S` refine the lock of `Rpi4Kernel.Sched.Locking`, in which each of
  them is one step: `_spin_lock` and `_test_set_lock` acquire the lock with the `stxr` that succeeds,
  `_spin_unlock` unlocks it with its `stlr`, and every other instruction changes nothing that the lock
  sees. No core waits in `_spin_lock` for an event that does not come: while the word is 0, eight
  instructions take an agent out of it with the lock acquired.
Trusted boundary: none (fully proved)
Main exports: LockRegs.seen, Implements, AtInstr, Simulates, simulates_step, simulates_of_run,
  lockRoutines_refine, spinLock_acquires
-/
import Rpi4Kernel.Sched.LockRoutines
import Rpi4Kernel.Theory.Simulation
import Rpi4Kernel.Proofs.LockingSpec

namespace Rpi4Kernel.Sched

open Rpi4Kernel.Theory

variable {α : Type} {lock : BitVec 64} {pid : α → Nat} {a b current : α}

/-! ### The abstraction -/

/-- Where the lock sees an agent: in the statement that it executes, or already behind it when the
    instruction that counts has been executed. -/
def LockRegs.seen (r : LockRegs) : LockPoint → LockPoint
  | .spinLock => if 6 ≤ r.pc ∧ r.w1 = 0 then .spinOwner else .spinLock
  | .getTest =>
    if r.pc = 4 ∧ r.w1 = 0 ∨ r.pc = 5 ∨ r.pc = 6 ∨ r.pc = 8 ∧ r.x0 ≠ 0 then .getOwner else .getTest
  | .releaseUnlock byFree =>
    if r.pc = 0 then .releaseUnlock byFree else if byFree then .freeSgi else .outside
  | point => point

/-- The lock as the routines implement it. -/
structure Implements (s : LockMachine α) (t : LockState α) : Prop where
  locked : t.lock.locked = true ↔ s.memory.word ≠ 0
  owner : t.lock.ownerPid = s.ownerPid
  sleeping : t.sleepingOnLock = s.sleepingOnLock
  point : ∀ a, t.point a = (s.regs a).seen (s.point a)
  holds : ∀ a, t.holds a = true ↔ s.owned a = true ∨ (t.point a).inside = true

/-- What is known when an agent is at an instruction. -/
def AtInstr (lock : BitVec 64) (m : MonitoredWord α (BitVec 32)) (a : α) (r : LockRegs) :
    LockPoint → Prop
  | .spinLock =>
    r.x0 = lock ∧ (0 < r.pc → r.w2 = 1) ∧
      match r.pc with
      | 0 | 1 | 3 | 6 => True
      | 2 => ∃ v, v ≠ 0 ∧ Alerted m a v
      | 4 => Linked m a r.w1 ∧ Alerted m a r.w1
      | 5 => Linked m a 0
      | 7 => r.w1 = 0
      | _ => False
  | .getTest =>
    match r.pc with
    | 0 => r.x0 = lock
    | 1 => r.x0 = lock ∧ r.w2 = 1
    | 2 => r.x0 = lock ∧ r.w2 = 1 ∧ Linked m a r.w1
    | 3 => r.x0 = lock ∧ r.w2 = 1 ∧ Linked m a 0
    | 4 | 5 | 7 => True
    | 6 => r.x0 = 1
    | 8 => r.x0 = 0 ∨ r.x0 = 1
    | _ => False
  | .releaseUnlock _ => r.x0 = lock ∧ r.pc ≤ 1
  | _ => True

/-- The steps of the others do not take it away. -/
theorem AtInstr.undisturbed {m m' : MonitoredWord α (BitVec 32)} {r : LockRegs} {point : LockPoint}
    (h : AtInstr lock m a r point) (hm : Undisturbed m m' a) : AtInstr lock m' a r point := by
  cases point with
  | spinLock =>
    obtain ⟨hx0, hw2, hpc⟩ := h
    refine ⟨hx0, hw2, ?_⟩
    split at hpc
    · trivial
    · trivial
    · trivial
    · trivial
    · obtain ⟨v, hv, halert⟩ := hpc
      exact ⟨v, hv, hm.alerted v halert⟩
    · exact ⟨hm.linked _ hpc.1, hm.alerted _ hpc.2⟩
    · exact hm.linked _ hpc
    · exact hpc
    · exact hpc
  | getTest =>
    simp only [AtInstr] at h ⊢
    split at h
    case h_3 => exact ⟨h.1, h.2.1, hm.linked _ h.2.2⟩
    case h_4 => exact ⟨h.1, h.2.1, hm.linked _ h.2.2⟩
    all_goals exact h
  | _ => exact h

/-- At the first instruction the lock sees the agent in the statement. -/
theorem LockRegs.seen_start {r : LockRegs} (hpc : r.pc = 0) (point : LockPoint) :
    r.seen point = point := by
  cases point <;> simp [LockRegs.seen, hpc]

theorem atInstr_start {m : MonitoredWord α (BitVec 32)} {r : LockRegs} (hx0 : r.x0 = lock)
    (hpc : r.pc = 0) (point : LockPoint) : AtInstr lock m a r point := by
  cases point <;> simp [AtInstr, hx0, hpc]

/-- The routines implement the lock, and every agent is where it knows what it has to. -/
structure Simulates (lock : BitVec 64) (s : LockMachine α) (t : LockState α) : Prop
    extends Implements s t where
  atInstr : ∀ a, AtInstr lock s.memory a (s.regs a) (s.point a)
  released : ∀ a, s.owned a = true → (t.point a).inside = false

variable {s s₀ s' : LockMachine α} {t t₀ t' : LockState α}

theorem Implements.unlocked (h : Implements s t) (hword : s.memory.word = 0) :
    t.lock.locked = false := by
  by_contra hlocked
  exact h.locked.mp (by simpa using hlocked) hword

/-- Nobody owns a lock whose word is 0. -/
theorem Simulates.not_owned (h : Simulates lock s t) (hword : s.memory.word = 0) (a : α)
    (hex : Exclusive pid t) : s.owned a = false := by
  by_contra howned
  have hholds := (h.holds a).mpr (.inl (by simpa using howned))
  have hlocked := hex.locked_iff.mpr ⟨a, hholds⟩
  exact h.locked.mp hlocked hword

/-- What other cores do: an exception return, an event. -/
theorem Simulates.setMemory (h : Simulates lock s t) {m : MonitoredWord α (BitVec 32)}
    (hword : m.word = s.memory.word) (hm : ∀ b, Undisturbed s.memory m b) :
    Simulates lock (s.setMemory m) t where
  locked := by
    rw [h.locked]
    simp [LockMachine.setMemory, hword]
  owner := h.owner
  sleeping := h.sleeping
  point := h.point
  holds := h.holds
  atInstr := fun b => (h.atInstr b).undisturbed (hm b)
  released := h.released

section Steps

variable [DecidableEq α]

/-- A step of agent `a`: what the others know of the word is left, and what is theirs is not changed. -/
structure ByAgent (a : α) (s s' : LockMachine α) (t t' : LockState α) : Prop where
  undisturbed : ∀ b, b ≠ a → Undisturbed s.memory s'.memory b
  regs : ∀ b, b ≠ a → s'.regs b = s.regs b
  point : ∀ b, b ≠ a → s'.point b = s.point b
  owned : ∀ b, b ≠ a → s'.owned b = s.owned b
  specPoint : ∀ b, b ≠ a → t'.point b = t.point b
  specHolds : ∀ b, b ≠ a → t'.holds b = t.holds b

/-- What the step of agent `a` has to establish. -/
structure AgentAfter (lock : BitVec 64) (a : α) (s' : LockMachine α) (t' : LockState α) : Prop where
  locked : t'.lock.locked = true ↔ s'.memory.word ≠ 0
  owner : t'.lock.ownerPid = s'.ownerPid
  sleeping : t'.sleepingOnLock = s'.sleepingOnLock
  point : t'.point a = (s'.regs a).seen (s'.point a)
  holds : t'.holds a = true ↔ s'.owned a = true ∨ (t'.point a).inside = true
  atInstr : AtInstr lock s'.memory a (s'.regs a) (s'.point a)
  released : s'.owned a = true → (t'.point a).inside = false

theorem Simulates.byAgent (h : Simulates lock s t) (hby : ByAgent a s s' t t')
    (hafter : AgentAfter lock a s' t') : Simulates lock s' t' where
  locked := hafter.locked
  owner := hafter.owner
  sleeping := hafter.sleeping
  point := by
    intro b
    cases decEq b a with
    | isTrue hba => exact hba ▸ hafter.point
    | isFalse hba =>
      rw [hby.specPoint b hba, hby.regs b hba, hby.point b hba]
      exact h.point b
  holds := by
    intro b
    cases decEq b a with
    | isTrue hba => exact hba ▸ hafter.holds
    | isFalse hba =>
      rw [hby.specHolds b hba, hby.specPoint b hba, hby.owned b hba]
      exact h.holds b
  atInstr := by
    intro b
    cases decEq b a with
    | isTrue hba => exact hba ▸ hafter.atInstr
    | isFalse hba =>
      rw [hby.regs b hba, hby.point b hba]
      exact (h.atInstr b).undisturbed (hby.undisturbed b hba)
  released := by
    intro b
    cases decEq b a with
    | isTrue hba => exact hba ▸ hafter.released
    | isFalse hba =>
      rw [hby.specPoint b hba, hby.owned b hba]
      exact h.released b

/-! ### Steps that the lock does not see -/

/-- An instruction that leaves the word and what the lock sees of the agent. -/
theorem Simulates.quiet (h : Simulates lock s t) {m : MonitoredWord α (BitVec 32)} {r : LockRegs}
    (hword : m.word = s.memory.word) (hm : ∀ b, b ≠ a → Undisturbed s.memory m b)
    (hseen : r.seen (s.point a) = (s.regs a).seen (s.point a))
    (hat : AtInstr lock m a r (s.point a)) : Simulates lock ((s.setMemory m).setRegs a r) t := by
  apply h.byAgent (a := a)
  · constructor
    · exact hm
    · intro b hb
      exact Function.update_of_ne hb ..
    · exact fun _ _ => rfl
    · exact fun _ _ => rfl
    · exact fun _ _ => rfl
    · exact fun _ _ => rfl
  · constructor
    · rw [h.locked]
      simp [LockMachine.setRegs, LockMachine.setMemory, hword]
    · exact h.owner
    · exact h.sleeping
    · rw [h.point a]
      simp [LockMachine.setRegs, LockMachine.setMemory, hseen]
    · exact h.holds a
    · simpa [LockMachine.setRegs, LockMachine.setMemory] using hat
    · exact h.released a

/-- The same for the registers alone. -/
theorem Simulates.quietRegs (h : Simulates lock s t) {r : LockRegs}
    (hseen : r.seen (s.point a) = (s.regs a).seen (s.point a))
    (hat : AtInstr lock s.memory a r (s.point a)) : Simulates lock (s.setRegs a r) t :=
  h.quiet (m := s.memory) rfl (fun _ _ => .refl) hseen hat

/-- The agent goes on to another statement, and to the place where the lock sees it afterwards. -/
theorem Simulates.goTo (h : Simulates lock s t) {s' : LockMachine α} {point : LockPoint}
    (hmemory : s'.memory = s.memory) (hpoint : s'.point = (s.goTo lock a point).point)
    (hregs : s'.regs = (s.goTo lock a point).regs) (howned : ∀ b, b ≠ a → s'.owned b = s.owned b)
    (hlock : t'.lock.locked = t.lock.locked) (howner : t'.lock.ownerPid = s'.ownerPid)
    (hsleeping : t'.sleepingOnLock = s'.sleepingOnLock)
    (hspec : t'.point = Function.update t.point a point) (hholds : t'.holds = t.holds)
    (hinside : t.holds a = true ↔ s'.owned a = true ∨ point.inside = true)
    (hreleased : s'.owned a = true → point.inside = false) : Simulates lock s' t' := by
  have hat : t'.point a = point := by rw [hspec, Function.update_self]
  apply h.byAgent (a := a)
  · constructor
    · intro b _
      rw [hmemory]
      exact .refl
    · intro b hb
      rw [hregs]
      exact Function.update_of_ne hb ..
    · intro b hb
      rw [hpoint]
      exact Function.update_of_ne hb ..
    · exact howned
    · intro b hb
      rw [hspec]
      exact Function.update_of_ne hb ..
    · intro b _
      rw [hholds]
  · constructor
    · rw [hlock, hmemory]
      exact h.locked
    · exact howner
    · exact hsleeping
    · rw [hat, hpoint, hregs]
      simp only [LockMachine.goTo, Function.update_self]
      exact (LockRegs.seen_start rfl _).symm
    · rw [hat, hholds]
      exact hinside
    · rw [hpoint, hregs]
      simp only [LockMachine.goTo, Function.update_self]
      exact atInstr_start rfl rfl _
    · rw [hat]
      exact hreleased

/-- The agent neither comes to nor leaves the places where only the holder can be. -/
theorem Simulates.move (h : Simulates lock s t) {point : LockPoint}
    (hinside : (t.point a).inside = point.inside)
    (hmemory : s'.memory = s.memory) (hpoint : s'.point = (s.goTo lock a point).point)
    (hregs : s'.regs = (s.goTo lock a point).regs) (howned : s'.owned = s.owned)
    (hlock : t'.lock.locked = t.lock.locked) (howner : t'.lock.ownerPid = s'.ownerPid)
    (hsleeping : t'.sleepingOnLock = s'.sleepingOnLock)
    (hspec : t'.point = Function.update t.point a point) (hholds : t'.holds = t.holds) :
    Simulates lock s' t' := by
  apply h.goTo hmemory hpoint hregs (fun b _ => congrFun howned b) hlock howner hsleeping hspec hholds
  · rw [howned, ← hinside]
    exact h.holds a
  · rw [howned, ← hinside]
    exact h.released a

/-- The agent goes on to the statement where the lock sees it already. -/
theorem Simulates.goTo_seen (h : Simulates lock s t) {point : LockPoint}
    (hseen : (s.regs a).seen (s.point a) = point) : Simulates lock (s.goTo lock a point) t := by
  have hpoint : t.point a = point := (h.point a).trans hseen
  have hspec : t.point = Function.update t.point a point := by
    rw [← hpoint, Function.update_eq_self]
  have hholds := h.holds a
  have hreleased := h.released a
  rw [hpoint] at hholds hreleased
  exact h.goTo (a := a) rfl rfl rfl (fun _ _ => rfl) rfl h.owner h.sleeping hspec rfl hholds hreleased

/-! ### Steps that the lock sees -/

/-- The holder stores the pid that it has found, and owns the lock from now on. -/
theorem Simulates.storesOwner (h : Simulates lock s t) (hinside : (t.point a).inside = true) :
    Simulates lock { s.goTo lock a .outside with
      ownerPid := pid current
      owned := Function.update s.owned a true } (t.storeOwner pid a current) := by
  have hholds := (h.holds a).mpr (.inr hinside)
  refine h.goTo (a := a) rfl rfl rfl ?_ rfl rfl h.sleeping rfl rfl ?_ (fun _ => rfl)
  · intro b hb
    exact Function.update_of_ne hb ..
  · simp [hholds]

/-- The owner calls `release` or `free`. -/
theorem Simulates.givesUp (h : Simulates lock s t) {point : LockPoint} (hholds : t.holds a = true)
    (hinside : point.inside = true) :
    Simulates lock { s.goTo lock a point with owned := Function.update s.owned a false }
      (t.setPoint a point) := by
  refine h.goTo (a := a) rfl rfl rfl ?_ rfl h.owner h.sleeping rfl rfl ?_ ?_
  · intro b hb
    exact Function.update_of_ne hb ..
  · simp [hholds, hinside]
  · simp

/-- The `stxr` that succeeds acquires the lock. -/
theorem Simulates.acquire (h : Simulates lock s t) (hex : Exclusive pid t) {lets : Bool} {r : LockRegs}
    {point : LockPoint} (hlinked : Linked s.memory a 0) (hs : s.memory.succeeds a lets = true)
    (hseen : r.seen (s.point a) = point) (hinside : point.inside = true)
    (hat : AtInstr lock (s.memory.storeExclusive a 1 lets) a r (s.point a)) :
    Simulates lock ((s.setMemory (s.memory.storeExclusive a 1 lets)).setRegs a r)
    (t.acquire a point) := by
  have hword := hlinked.word_eq hs
  have hpoint : (t.acquire a point).point a = point := by
    simp [LockState.acquire, LockState.setPoint]
  apply h.byAgent (a := a)
  · constructor
    · exact fun b hb => .storeExclusive (Ne.symm hb)
    · intro b hb
      exact Function.update_of_ne hb ..
    · exact fun _ _ => rfl
    · exact fun _ _ => rfl
    · intro b hb
      exact Function.update_of_ne hb ..
    · intro b hb
      exact Function.update_of_ne hb ..
  · constructor
    · apply iff_of_true
      · rfl
      · simp [LockMachine.setRegs, LockMachine.setMemory, MonitoredWord.storeExclusive_word, hs]
    · exact h.owner
    · exact h.sleeping
    · rw [hpoint]
      simp [LockMachine.setRegs, LockMachine.setMemory, hseen]
    · rw [hpoint]
      simp [LockState.acquire, hinside]
    · simpa [LockMachine.setRegs, LockMachine.setMemory] using hat
    · intro howned
      exact absurd ((h.not_owned hword a hex).symm.trans howned) Bool.false_ne_true

/-- The `stlr` unlocks it. -/
theorem Simulates.unlock (h : Simulates lock s t) {byFree : Bool} {r : LockRegs}
    (hpoint : s.point a = .releaseUnlock byFree) (hpc : (s.regs a).pc = 0) (hr : r = (s.regs a).next)
    (hx0 : (s.regs a).x0 = lock) :
    Simulates lock ((s.setMemory (s.memory.store a 0)).setRegs a r)
      { t.setPoint a (if byFree then .freeSgi else .outside) with
        lock := { t.lock with locked := false }
        holds := Function.update t.holds a false } := by
  have hreleasing : t.point a = .releaseUnlock byFree := by
    rw [h.point a, hpoint, LockRegs.seen_start hpc]
  have howned : s.owned a = false := by
    by_contra howned
    have hout := h.released a (by simpa using howned)
    rw [hreleasing] at hout
    cases hout
  have hout : LockPoint.inside (if byFree then .freeSgi else .outside) = false := by
    cases byFree <;> rfl
  apply h.byAgent (a := a)
  · constructor
    · exact fun b hb => .store (Ne.symm hb)
    · intro b hb
      exact Function.update_of_ne hb ..
    · exact fun _ _ => rfl
    · exact fun _ _ => rfl
    · intro b hb
      exact Function.update_of_ne hb ..
    · intro b hb
      exact Function.update_of_ne hb ..
  · constructor
    · simp [LockMachine.setRegs, LockMachine.setMemory]
    · exact h.owner
    · exact h.sleeping
    · simp [LockState.setPoint, LockMachine.setRegs, LockMachine.setMemory, hpoint, hr, LockRegs.seen,
        LockRegs.next]
    · simp [LockState.setPoint, LockMachine.setRegs, LockMachine.setMemory, howned, hout]
    · simp [LockMachine.setRegs, LockMachine.setMemory, hpoint, AtInstr, hx0, hr, LockRegs.next, hpc]
    · intro htrue
      exact absurd (howned.symm.trans htrue) Bool.false_ne_true

/-! ### One step -/

theorem proceed_instr {instr : LockInstr} {lets : Bool} {point : LockPoint} {n : Nat}
    (hpoint : s.point a = point) (hpc : (s.regs a).pc = n) (hi : point.routine[n]? = some instr)
    (hret : instr ≠ .ret) : s.proceed lock pid a lets current = s.execute lock a lets instr := by
  rw [LockMachine.proceed, hpoint, hpc, hi]
  cases instr <;> first | rfl | exact absurd rfl hret

theorem proceed_ret {lets : Bool} {point : LockPoint} {n : Nat} (hpoint : s.point a = point)
    (hpc : (s.regs a).pc = n) (hi : point.routine[n]? = some .ret) :
    s.proceed lock pid a lets current = s.ret lock a := by
  rw [LockMachine.proceed, hpoint, hpc, hi]

theorem execute_cbnzW1_of_ne {lets : Bool} {target : Nat} (hw1 : (s.regs a).w1 ≠ 0) :
    s.execute lock a lets (.cbnzW1 target) = some (s.setRegs a { s.regs a with pc := target }) := by
  rw [LockMachine.execute, if_pos hw1]

theorem execute_cbnzW1_of_eq {lets : Bool} {target : Nat} (hw1 : (s.regs a).w1 = 0) :
    s.execute lock a lets (.cbnzW1 target) = some (s.setRegs a (s.regs a).next) := by
  rw [LockMachine.execute, if_neg (not_not_intro hw1)]

/-- An instruction of `_spin_lock`. -/
theorem Simulates.spinLock (h : Simulates lock s t) (hex : Exclusive pid t) {lets : Bool}
    (hpoint : s.point a = .spinLock) (hs : s.proceed lock pid a lets current = some s') :
    Matched (lockStep pid) (Simulates lock) t s' := by
  have hat := h.atInstr a
  rw [hpoint] at hat
  obtain ⟨hx0, hw2, hknown⟩ := hat
  have hseen := h.point a
  split at hknown
  case h_1 hpc =>
    rw [proceed_instr hpoint hpc rfl (by decide)] at hs
    cases hs
    apply Matched.stay
    apply h.quietRegs
    · simp [hpoint, LockRegs.seen, LockRegs.next, hpc]
    · simp [hpoint, AtInstr, LockRegs.next, hpc, hx0]
  case h_2 hpc =>
    rw [proceed_instr hpoint hpc rfl (by decide)] at hs
    cases hs
    apply Matched.stay
    apply h.quiet
    · rfl
    · exact fun _ _ => .sendEvent
    · simp [hpoint, LockRegs.seen, LockRegs.next, hpc]
    · simp only [hpoint, AtInstr, LockRegs.next, hpc]
      exact ⟨hx0, fun _ => hw2 (by omega), 1, by decide, .of_sendEvent⟩
  case h_3 hpc =>
    rw [proceed_instr hpoint hpc rfl (by decide), LockMachine.execute, if_pos hx0] at hs
    cases hs
    apply Matched.stay
    apply h.quiet
    · rfl
    · exact fun _ hb => .loadExclusive (Ne.symm hb)
    · simp [hpoint, LockRegs.seen, LockRegs.next, hpc]
    · simp only [hpoint, AtInstr, LockRegs.next, hpc]
      exact ⟨hx0, fun _ => hw2 (by omega), .of_loadExclusive, .of_loadExclusive⟩
  case h_4 hpc =>
    rw [proceed_instr hpoint hpc rfl (by decide)] at hs
    cases decEq (s.regs a).w1 0 with
    | isTrue hw1 =>
      rw [execute_cbnzW1_of_eq hw1] at hs
      cases hs
      apply Matched.stay
      apply h.quietRegs
      · simp [hpoint, LockRegs.seen, LockRegs.next, hpc, hw1]
      · simp [hpoint, AtInstr, LockRegs.next, hpc, hw1, hx0, hw2]
    | isFalse hw1 =>
      rw [execute_cbnzW1_of_ne hw1] at hs
      cases hs
      apply Matched.stay
      apply h.quietRegs
      · simp only [hpoint, LockRegs.seen, hpc, hw1, and_false, if_false]
      · simp [hpoint, AtInstr, hpc, hx0, hw2]
  case h_5 hpc =>
    rw [proceed_instr hpoint hpc rfl (by decide), LockMachine.execute, Option.map_eq_some_iff] at hs
    obtain ⟨m, hm, rfl⟩ := hs
    apply Matched.stay
    apply h.quiet
    · simp only [MonitoredWord.waitForEvent, Option.ite_none_right_eq_some] at hm
      cases hm.2
      rfl
    · exact fun _ hb => .waitForEvent (Ne.symm hb) hm
    · simp [hpoint, LockRegs.seen, LockRegs.next, hpc]
    · simp [hpoint, AtInstr, LockRegs.next, hpc, hx0, hw2]
  case h_6 hpc =>
    rw [proceed_instr hpoint hpc rfl (by decide)] at hs
    cases decEq (s.regs a).w1 0 with
    | isTrue hw1 =>
      rw [execute_cbnzW1_of_eq hw1] at hs
      cases hs
      apply Matched.stay
      rw [hw1] at hknown
      apply h.quietRegs
      · simp [hpoint, LockRegs.seen, LockRegs.next, hpc]
      · simpa [hpoint, AtInstr, LockRegs.next, hpc, hx0, hw2] using hknown.1
    | isFalse hw1 =>
      rw [execute_cbnzW1_of_ne hw1] at hs
      cases hs
      apply Matched.stay
      apply h.quietRegs
      · simp [hpoint, LockRegs.seen, hpc]
      · simp only [hpoint, AtInstr]
        exact ⟨hx0, fun _ => hw2 (by omega), _, hw1, hknown.2⟩
  case h_7 hpc =>
    rw [proceed_instr hpoint hpc rfl (by decide), LockMachine.execute, if_pos hx0, hw2 (by omega)] at hs
    cases hs
    cases hlets : s.memory.succeeds a lets with
    | true =>
      have hspec : lockStep pid t (.proceed a true current) = some (t.acquire a .spinOwner) := by
        simp [lockStep, LockState.proceed, hseen, hpoint, LockRegs.seen, hpc,
          h.toImplements.unlocked (hknown.word_eq hlets)]
      apply Matched.move hspec
      apply h.acquire hex hknown hlets
      · simp [hpoint, LockRegs.seen, LockRegs.next, hpc]
      · rfl
      · simp [hpoint, AtInstr, LockRegs.next, hpc, hx0, hw2]
    | false =>
      apply Matched.stay
      apply h.quiet
      · rw [MonitoredWord.storeExclusive_word, hlets]
        rfl
      · exact fun _ hb => .storeExclusive (Ne.symm hb)
      · simp [hpoint, LockRegs.seen, LockRegs.next, hpc]
      · simp [hpoint, AtInstr, LockRegs.next, hpc, hx0, hw2]
  case h_8 hpc =>
    rw [proceed_ret hpoint hpc rfl, LockMachine.ret, hpoint] at hs
    cases hs
    apply Matched.stay
    apply h.goTo_seen
    simp [hpoint, LockRegs.seen, hpc, hknown]
  case h_9 => cases hknown

/-- An instruction of `_test_set_lock`. -/
theorem Simulates.getTest (h : Simulates lock s t) (hex : Exclusive pid t) {lets : Bool}
    (hpoint : s.point a = .getTest) (hs : s.proceed lock pid a lets current = some s') :
    Matched (lockStep pid) (Simulates lock) t s' := by
  have hknown := h.atInstr a
  rw [hpoint] at hknown
  simp only [AtInstr] at hknown
  have hseen := h.point a
  split at hknown
  case h_1 hpc =>
    rw [proceed_instr hpoint hpc rfl (by decide)] at hs
    cases hs
    apply Matched.stay
    apply h.quietRegs
    · simp [hpoint, LockRegs.seen, LockRegs.next, hpc]
    · simp [hpoint, AtInstr, LockRegs.next, hpc, hknown]
  case h_2 hpc =>
    rw [proceed_instr hpoint hpc rfl (by decide), LockMachine.execute, if_pos hknown.1] at hs
    cases hs
    apply Matched.stay
    apply h.quiet
    · rfl
    · exact fun _ hb => .loadExclusive (Ne.symm hb)
    · simp [hpoint, LockRegs.seen, LockRegs.next, hpc]
    · simp only [hpoint, AtInstr, LockRegs.next, hpc]
      exact ⟨hknown.1, hknown.2, .of_loadExclusive⟩
  case h_3 hpc =>
    rw [proceed_instr hpoint hpc rfl (by decide)] at hs
    cases decEq (s.regs a).w1 0 with
    | isTrue hw1 =>
      rw [execute_cbnzW1_of_eq hw1] at hs
      cases hs
      apply Matched.stay
      rw [hw1] at hknown
      apply h.quietRegs
      · simp [hpoint, LockRegs.seen, LockRegs.next, hpc]
      · simpa [hpoint, AtInstr, LockRegs.next, hpc] using hknown
    | isFalse hw1 =>
      rw [execute_cbnzW1_of_ne hw1] at hs
      cases hs
      apply Matched.stay
      apply h.quietRegs
      · simp [hpoint, LockRegs.seen, hpc]
      · simp [hpoint, AtInstr]
  case h_4 hpc =>
    obtain ⟨hx0, hw2, hlinked⟩ := hknown
    rw [proceed_instr hpoint hpc rfl (by decide), LockMachine.execute, if_pos hx0, hw2] at hs
    cases hs
    cases hlets : s.memory.succeeds a lets with
    | true =>
      have hspec : lockStep pid t (.proceed a true current) = some (t.acquire a .getOwner) := by
        simp [lockStep, LockState.proceed, hseen, hpoint, LockRegs.seen, hpc,
          h.toImplements.unlocked (hlinked.word_eq hlets)]
      apply Matched.move hspec
      apply h.acquire hex hlinked hlets
      · simp [hpoint, LockRegs.seen, LockRegs.next, hpc]
      · rfl
      · simp [hpoint, AtInstr, LockRegs.next, hpc]
    | false =>
      apply Matched.stay
      apply h.quiet
      · rw [MonitoredWord.storeExclusive_word, hlets]
        rfl
      · exact fun _ hb => .storeExclusive (Ne.symm hb)
      · simp [hpoint, LockRegs.seen, LockRegs.next, hpc]
      · simp [hpoint, AtInstr, LockRegs.next, hpc]
  case h_5 hpc =>
    rw [proceed_instr hpoint hpc rfl (by decide)] at hs
    cases decEq (s.regs a).w1 0 with
    | isTrue hw1 =>
      rw [execute_cbnzW1_of_eq hw1] at hs
      cases hs
      apply Matched.stay
      apply h.quietRegs
      · simp [hpoint, LockRegs.seen, LockRegs.next, hpc, hw1]
      · simp [hpoint, AtInstr, LockRegs.next, hpc]
    | isFalse hw1 =>
      rw [execute_cbnzW1_of_ne hw1] at hs
      cases hs
      apply Matched.stay
      apply h.quietRegs
      · simp only [hpoint, LockRegs.seen, hpc, hw1]
        rfl
      · simp [hpoint, AtInstr]
  case h_6 hpc =>
    rw [proceed_instr hpoint hpc rfl (by decide)] at hs
    cases hs
    apply Matched.stay
    apply h.quietRegs
    · simp [hpoint, LockRegs.seen, LockRegs.next, hpc]
    · simp [hpoint, AtInstr, LockRegs.next, hpc]
  case h_7 hpc =>
    rw [proceed_instr hpoint hpc rfl (by decide)] at hs
    cases hs
    apply Matched.stay
    apply h.quietRegs
    · simp [hpoint, LockRegs.seen, LockRegs.next, hpc]
    · simp [hpoint, AtInstr, LockRegs.next, hpc]
  case h_8 hpc =>
    rw [proceed_instr hpoint hpc rfl (by decide)] at hs
    cases hs
    apply Matched.stay
    apply h.quietRegs
    · simp [hpoint, LockRegs.seen, hpc, hknown]
    · simp [hpoint, AtInstr, hknown]
  case h_9 hpc =>
    rw [proceed_ret hpoint hpc rfl, LockMachine.ret, hpoint] at hs
    cases hknown with
    | inl hx0 =>
      simp only [hx0] at hs
      cases hs
      have hspec : lockStep pid t (.proceed a false current) = some (t.setPoint a .getStore) := by
        simp [lockStep, LockState.proceed, hseen, hpoint, LockRegs.seen, hpc, hx0]
      apply Matched.move hspec
      exact h.move (by simp [hseen, hpoint, LockRegs.seen, hpc, hx0, LockPoint.inside]) rfl rfl
        rfl rfl rfl
        h.owner h.sleeping rfl rfl
    | inr hx0 =>
      simp only [hx0] at hs
      cases hs
      apply Matched.stay
      apply h.goTo_seen
      simp [hpoint, LockRegs.seen, hpc, hx0]
  case h_10 => cases hknown

/-- An instruction of `_spin_unlock`. -/
theorem Simulates.releaseUnlock (h : Simulates lock s t) {lets byFree : Bool}
    (hpoint : s.point a = .releaseUnlock byFree) (hs : s.proceed lock pid a lets current = some s') :
    Matched (lockStep pid) (Simulates lock) t s' := by
  have hat := h.atInstr a
  rw [hpoint] at hat
  obtain ⟨hx0, hle⟩ := hat
  cases Nat.le_one_iff_eq_zero_or_eq_one.mp hle with
  | inl hpc =>
    rw [proceed_instr hpoint hpc rfl (by decide), LockMachine.execute, if_pos hx0] at hs
    cases hs
    have hspec : lockStep pid t (.proceed a true current) = some
        { t.setPoint a (if byFree then .freeSgi else .outside) with
          lock := { t.lock with locked := false }
          holds := Function.update t.holds a false } := by
      simp [lockStep, LockState.proceed, h.point a, hpoint, LockRegs.seen, hpc]
    apply Matched.move hspec
    exact h.unlock hpoint hpc rfl hx0
  | inr hpc =>
    rw [proceed_ret hpoint hpc rfl, LockMachine.ret, hpoint] at hs
    cases hs
    apply Matched.stay
    apply h.goTo_seen
    simp [hpoint, LockRegs.seen, hpc]

/-- A statement of `Spinlock.cpp`. -/
theorem Simulates.statement (h : Simulates lock s t) (hroutine : (s.point a).routine = [])
    (hs : s.statement lock pid a current = some s') : Matched (lockStep pid) (Simulates lock) t s' := by
  have hseen := h.point a
  cases hpoint : s.point a with
  | outside =>
    rw [LockMachine.statement, hpoint] at hs
    cases hs
  | spinOwner =>
    rw [hpoint] at hseen
    rw [LockMachine.statement, hpoint] at hs
    cases hs
    have hspec : lockStep pid t (.proceed a true current) = some (t.storeOwner pid a current) := by
      simp [lockStep, LockState.proceed, hseen, LockRegs.seen]
    apply Matched.move hspec
    exact h.storesOwner (by rw [hseen]; rfl)
  | getOwner =>
    rw [hpoint] at hseen
    rw [LockMachine.statement, hpoint] at hs
    cases hs
    have hspec : lockStep pid t (.proceed a true current) = some (t.storeOwner pid a current) := by
      simp [lockStep, LockState.proceed, hseen, LockRegs.seen]
    apply Matched.move hspec
    exact h.storesOwner (by rw [hseen]; rfl)
  | getStore =>
    rw [hpoint] at hseen
    rw [LockMachine.statement, hpoint] at hs
    cases hs
    have hspec : lockStep pid t (.proceed a true current) = some
        { t.setPoint a .getSleep with
          sleepingOnLock := Function.update t.sleepingOnLock current true } := by
      simp [lockStep, LockState.proceed, hseen, LockRegs.seen]
    apply Matched.move hspec
    exact h.move (by rw [hseen]; rfl) rfl rfl rfl rfl rfl h.owner
      (congrArg (Function.update · current true) h.sleeping) rfl rfl
  | getSleep =>
    rw [hpoint] at hseen
    rw [LockMachine.statement, hpoint] at hs
    cases hs
    have hspec : lockStep pid t (.proceed a true current) = some (t.setPoint a .getTest) := by
      simp [lockStep, LockState.proceed, hseen, LockRegs.seen]
    apply Matched.move hspec
    exact h.move (by rw [hseen]; rfl) rfl rfl rfl rfl rfl h.owner h.sleeping rfl rfl
  | releaseOwner byFree =>
    rw [hpoint] at hseen
    rw [LockMachine.statement, hpoint] at hs
    cases hs
    have hspec : lockStep pid t (.proceed a true current) = some
        { t.setPoint a (.releaseUnlock byFree) with lock := { t.lock with ownerPid := 0 } } := by
      simp [lockStep, LockState.proceed, hseen, LockRegs.seen]
    apply Matched.move hspec
    exact h.move (by rw [hseen]; rfl) rfl rfl rfl rfl rfl rfl h.sleeping rfl rfl
  | freeSgi =>
    rw [hpoint] at hseen
    rw [LockMachine.statement, hpoint] at hs
    cases hs
    have hspec : lockStep pid t (.proceed a true current) = some (t.setPoint a .outside) := by
      simp [lockStep, LockState.proceed, hseen, LockRegs.seen]
    apply Matched.move hspec
    exact h.move (by rw [hseen]; rfl) rfl rfl rfl rfl rfl h.owner h.sleeping rfl rfl
  | spinLock => simp [hpoint, LockPoint.routine, _spin_lock] at hroutine
  | getTest => simp [hpoint, LockPoint.routine, _test_set_lock] at hroutine
  | releaseUnlock byFree => simp [hpoint, LockPoint.routine, _spin_unlock] at hroutine

/-- An agent enters a call. -/
theorem Simulates.enter (h : Simulates lock s t) (hpoint : s.point a = .outside) {call : LockCall}
    (hs : s.enter lock a call = some s') : Matched (lockStep pid) (Simulates lock) t s' := by
  have hseen : t.point a = .outside := by
    rw [h.point a, hpoint]
    rfl
  cases call with
  | spin =>
    cases hs
    have hspec : lockStep pid t (.call a .spin) = some (t.setPoint a .spinLock) := by
      simp [lockStep, hseen, LockState.enter]
    apply Matched.move hspec
    exact h.move (by rw [hseen]; rfl) rfl rfl rfl rfl rfl h.owner h.sleeping rfl rfl
  | get =>
    cases hs
    have hspec : lockStep pid t (.call a .get) = some (t.setPoint a .getTest) := by
      simp [lockStep, hseen, LockState.enter]
    apply Matched.move hspec
    exact h.move (by rw [hseen]; rfl) rfl rfl rfl rfl rfl h.owner h.sleeping rfl rfl
  | release =>
    rw [LockMachine.enter, Option.ite_none_right_eq_some] at hs
    obtain ⟨howned, hs⟩ := hs
    cases hs
    have hholds := (h.holds a).mpr (.inl howned)
    have hspec : lockStep pid t (.call a .release) = some (t.setPoint a (.releaseOwner false)) := by
      simp [lockStep, hseen, LockState.enter, hholds]
    apply Matched.move hspec
    exact h.givesUp hholds rfl
  | free =>
    rw [LockMachine.enter, Option.ite_none_right_eq_some] at hs
    obtain ⟨howned, hs⟩ := hs
    cases hs
    have hholds := (h.holds a).mpr (.inl howned)
    have hspec : lockStep pid t (.call a .free) = some (t.setPoint a (.releaseOwner true)) := by
      simp [lockStep, hseen, LockState.enter, hholds]
    apply Matched.move hspec
    exact h.givesUp hholds rfl

/-- A step inside a call. -/
theorem Simulates.proceed (h : Simulates lock s t) (hex : Exclusive pid t) {lets : Bool}
    (hs : s.proceed lock pid a lets current = some s') :
    Matched (lockStep pid) (Simulates lock) t s' := by
  have hstatement : (s.point a).routine = [] → Matched (lockStep pid) (Simulates lock) t s' := by
    intro hroutine
    rw [LockMachine.proceed, hroutine] at hs
    exact h.statement hroutine hs
  cases hpoint : s.point a with
  | spinLock => exact h.spinLock hex hpoint hs
  | getTest => exact h.getTest hex hpoint hs
  | releaseUnlock byFree => exact h.releaseUnlock hpoint hs
  | _ =>
    apply hstatement
    rw [hpoint]
    rfl

theorem simulates_step {e : LockAsmEvent α} (h : Simulates lock s t) (hex : Exclusive pid t)
    (hs : lockAsmStep lock pid s e = some s') : Matched (lockStep pid) (Simulates lock) t s' := by
  cases e with
  | call a call =>
    rw [lockAsmStep, Option.ite_none_right_eq_some] at hs
    exact h.enter hs.1 hs.2
  | proceed a lets current => exact h.proceed hex hs
  | wakeUp a =>
    rw [lockAsmStep, Option.ite_none_right_eq_some] at hs
    obtain ⟨⟨hsleeping, howner⟩, hs⟩ := hs
    cases hs
    have hspec : lockStep pid t (.wakeUp a) = some
        { t with sleepingOnLock := Function.update t.sleepingOnLock a false } := by
      simp [lockStep, h.sleeping, hsleeping, h.owner, howner]
    apply Matched.move hspec
    exact
      { h with sleeping := congrArg (Function.update · a false) h.sleeping }
  | eret a =>
    cases hs
    exact .stay (h.setMemory rfl fun _ => .resume)
  | sendEvent a =>
    cases hs
    exact .stay (h.setMemory rfl fun _ => .sendEvent)

end Steps

/-! ### Runs -/

/-- The lock that a fresh machine implements. -/
def LockMachine.toLock (s : LockMachine α) : LockState α where
  lock := ⟨false, s.ownerPid⟩
  point := fun _ => .outside
  sleepingOnLock := s.sleepingOnLock
  holds := fun _ => false
  acquired := false
  stored := none

theorem LockMachine.fresh_toLock (s : LockMachine α) : s.toLock.Fresh :=
  ⟨rfl, fun _ => rfl, fun _ => rfl, rfl, rfl⟩

theorem Simulates.of_fresh (h₀ : s₀.Fresh) : Simulates lock s₀ s₀.toLock where
  locked := by simp [LockMachine.toLock, h₀.unlocked]
  owner := rfl
  sleeping := rfl
  point := fun a => by
    rw [h₀.outside]
    rfl
  holds := fun a => by simp [LockMachine.toLock, h₀.notOwned, LockPoint.inside]
  atInstr := fun a => by
    rw [h₀.outside]
    trivial
  released := fun a _ => rfl

theorem simulates_of_run [DecidableEq α] (h₀ : s₀.Fresh) (hrun : Run (lockAsmStep lock pid) s₀ s) :
    ∃ t, Run (lockStep pid) s₀.toLock t ∧ Simulates lock s t :=
  hrun.simulate (.of_fresh h₀) (fun _ ht => exclusive_of_run s₀.fresh_toLock ht)
    fun _ _ _ _ hex h hs => simulates_step h hex hs

/-- Every run of the routines is a run of the lock in which each of them is one step. At most one agent
    owns the lock, and its word is not 0 then. -/
theorem lockRoutines_refine [DecidableEq α] (h₀ : s₀.Fresh) (hrun : Run (lockAsmStep lock pid) s₀ s) :
    (∃ t, Run (lockStep pid) s₀.toLock t ∧ Implements s t) ∧
      (∀ a b, s.owned a = true → s.owned b = true → a = b) ∧
      ∀ a, s.owned a = true → s.memory.word ≠ 0 := by
  obtain ⟨t, hspec, hsim⟩ := simulates_of_run h₀ hrun
  have hex := exclusive_of_run s₀.fresh_toLock hspec
  have hholds : ∀ a, s.owned a = true → t.holds a = true := fun a ha => (hsim.holds a).mpr (.inl ha)
  refine ⟨⟨t, hspec, hsim.toImplements⟩, ?_, ?_⟩
  · intro a b ha hb
    exact hex.unique a b (hholds a ha) (hholds b hb)
  · intro a ha
    exact hsim.locked.mp (hex.locked_iff.mpr ⟨a, hholds a ha⟩)

/-! ### No lost wake-up -/

/-- At most `n` instructions take the agent out of `_spin_lock` with the word set. -/
def AcquiresWithin [DecidableEq α] (lock : BitVec 64) (pid : α → Nat) (a : α) (n : Nat)
    (s : LockMachine α) : Prop :=
  ∃ k ≤ n, ∃ s', replay (lockAsmStep lock pid) (fun _ _ => true) s
    (List.replicate k (.proceed a true a)) = some s' ∧ s'.point a = .spinOwner ∧ s'.memory.word = 1

/-- The agent is at instruction `n` of `_spin_lock`. -/
structure AtSpinLock (lock : BitVec 64) (a : α) (n : Nat) (s : LockMachine α) : Prop where
  point : s.point a = .spinLock
  pc : (s.regs a).pc = n
  x0 : (s.regs a).x0 = lock
  w2 : 0 < n → (s.regs a).w2 = 1

section Progress

variable [DecidableEq α] {n : Nat}

theorem AcquiresWithin.mono {k : Nat} (h : AcquiresWithin lock pid a n s) (hle : n ≤ k) :
    AcquiresWithin lock pid a k s := by
  obtain ⟨j, hj, hreplay⟩ := h
  exact ⟨j, hj.trans hle, hreplay⟩

theorem AcquiresWithin.step (h : AcquiresWithin lock pid a n s')
    (hs : s.proceed lock pid a true a = some s') : AcquiresWithin lock pid a (n + 1) s := by
  obtain ⟨k, hk, s'', hreplay, hafter⟩ := h
  refine ⟨k + 1, Nat.succ_le_succ hk, s'', ?_, hafter⟩
  rw [List.replicate_succ, replay, if_pos rfl]
  show (s.proceed lock pid a true a).bind _ = _
  rw [hs]
  exact hreplay

/-- An instruction of `_spin_lock` leads to the next state. -/
theorem AtSpinLock.step {instr : LockInstr} (h : AtSpinLock lock a n s)
    (hi : _spin_lock[n]? = some instr) (hret : instr ≠ .ret)
    (hs : s.execute lock a true instr = some s') {k : Nat} (hnext : AcquiresWithin lock pid a k s') :
    AcquiresWithin lock pid a (k + 1) s :=
  hnext.step ((proceed_instr h.point h.pc hi hret).trans hs)

/-- The registers change within `_spin_lock`. -/
theorem AtSpinLock.setRegs {m : MonitoredWord α (BitVec 32)} {r : LockRegs} {k : Nat}
    (h : AtSpinLock lock a n s) (hpc : r.pc = k) (hx0 : r.x0 = lock) (hw2 : r.w2 = 1) :
    AtSpinLock lock a k ((s.setMemory m).setRegs a r) := by
  constructor
  · exact h.point
  · simpa [LockMachine.setRegs] using hpc
  · simpa [LockMachine.setRegs] using hx0
  · intro
    simpa [LockMachine.setRegs] using hw2

namespace AtSpinLock

theorem ret (h : AtSpinLock lock a 7 s) (hword : s.memory.word = 1) :
    AcquiresWithin lock pid a 1 s := by
  have hs : s.proceed lock pid a true a = some (s.goTo lock a .spinOwner) := by
    rw [proceed_ret h.point h.pc rfl, LockMachine.ret, h.point]
  have hdone : AcquiresWithin lock pid a 0 (s.goTo lock a .spinOwner) :=
    ⟨0, le_rfl, _, rfl, by simp [LockMachine.goTo], hword⟩
  exact hdone.step hs

theorem cbnzStored (h : AtSpinLock lock a 6 s) (hw1 : (s.regs a).w1 = 0) (hword : s.memory.word = 1) :
    AcquiresWithin lock pid a 2 s := by
  apply h.step rfl (by decide) (execute_cbnzW1_of_eq hw1)
  apply AtSpinLock.ret
  · exact h.setRegs (m := s.memory) (by simp [LockRegs.next, h.pc]) h.x0 (h.w2 (by decide))
  · exact hword

theorem stxr (h : AtSpinLock lock a 5 s) (hmonitor : s.memory.monitor a = true) :
    AcquiresWithin lock pid a 3 s := by
  have hsucceeds : s.memory.succeeds a true = true := by simp [MonitoredWord.succeeds, hmonitor]
  apply h.step rfl (by decide) (if_pos h.x0)
  apply AtSpinLock.cbnzStored
  · exact h.setRegs (by simp [LockRegs.next, h.pc]) h.x0 (h.w2 (by decide))
  · simp [LockMachine.setRegs, hsucceeds]
  · simp [LockMachine.setRegs, LockMachine.setMemory, MonitoredWord.storeExclusive_word, hsucceeds,
      h.w2 (by decide)]

theorem cbnzLoaded (h : AtSpinLock lock a 4 s) (hw1 : (s.regs a).w1 = 0)
    (hmonitor : s.memory.monitor a = true) : AcquiresWithin lock pid a 4 s := by
  apply h.step rfl (by decide) (execute_cbnzW1_of_eq hw1)
  apply AtSpinLock.stxr
  · exact h.setRegs (m := s.memory) (by simp [LockRegs.next, h.pc]) h.x0 (h.w2 (by decide))
  · exact hmonitor

theorem ldaxr (h : AtSpinLock lock a 3 s) (hword : s.memory.word = 0) :
    AcquiresWithin lock pid a 5 s := by
  apply h.step rfl (by decide) (if_pos h.x0)
  apply AtSpinLock.cbnzLoaded
  · exact h.setRegs (by simp [LockRegs.next, h.pc]) h.x0 (h.w2 (by decide))
  · simp [LockMachine.setRegs, hword]
  · simp [LockMachine.setRegs, LockMachine.setMemory, MonitoredWord.loadExclusive]

/-- Here a core would wait for ever if no event were held for it. -/
theorem wfe (h : AtSpinLock lock a 2 s) (hevent : s.memory.event a = true) (hword : s.memory.word = 0) :
    AcquiresWithin lock pid a 6 s := by
  have hs : s.execute lock a true .wfe = some ((s.setMemory
      { s.memory with event := Function.update s.memory.event a false }).setRegs a
        (s.regs a).next) := by
    simp [LockMachine.execute, MonitoredWord.waitForEvent, hevent]
  apply h.step rfl (by decide) hs
  apply AtSpinLock.ldaxr
  · exact h.setRegs (by simp [LockRegs.next, h.pc]) h.x0 (h.w2 (by decide))
  · exact hword

theorem sevl (h : AtSpinLock lock a 1 s) (hword : s.memory.word = 0) :
    AcquiresWithin lock pid a 7 s := by
  apply h.step rfl (by decide) rfl
  apply AtSpinLock.wfe
  · exact h.setRegs (by simp [LockRegs.next, h.pc]) h.x0 (h.w2 (by decide))
  · simp [LockMachine.setRegs, LockMachine.setMemory, MonitoredWord.sendEvent]
  · exact hword

theorem mov (h : AtSpinLock lock a 0 s) (hword : s.memory.word = 0) :
    AcquiresWithin lock pid a 8 s := by
  apply h.step rfl (by decide) rfl
  apply AtSpinLock.sevl
  · exact h.setRegs (m := s.memory) (by simp [LockRegs.next, h.pc]) h.x0 rfl
  · exact hword

/-- The `stxr` has failed. -/
theorem cbnzFailed (h : AtSpinLock lock a 6 s) (hw1 : (s.regs a).w1 ≠ 0) (hword : s.memory.word = 0) :
    AcquiresWithin lock pid a 6 s := by
  apply h.step rfl (by decide) (execute_cbnzW1_of_ne hw1)
  apply AtSpinLock.ldaxr
  · exact h.setRegs (m := s.memory) rfl h.x0 (h.w2 (by decide))
  · exact hword

/-- The `stxr` fails, since the agent watches the word no longer. -/
theorem stxrFails (h : AtSpinLock lock a 5 s) (hmonitor : s.memory.monitor a = false)
    (hword : s.memory.word = 0) : AcquiresWithin lock pid a 7 s := by
  have hsucceeds : s.memory.succeeds a true = false := by simp [MonitoredWord.succeeds, hmonitor]
  apply h.step rfl (by decide) (if_pos h.x0)
  apply AtSpinLock.cbnzFailed
  · exact h.setRegs (by simp [LockRegs.next, h.pc]) h.x0 (h.w2 (by decide))
  · simp [LockMachine.setRegs, hsucceeds]
  · simp [LockMachine.setRegs, LockMachine.setMemory, MonitoredWord.storeExclusive_word,
      hsucceeds, hword]

theorem cbnzUnwatched (h : AtSpinLock lock a 4 s) (hw1 : (s.regs a).w1 = 0)
    (hmonitor : s.memory.monitor a = false) (hword : s.memory.word = 0) :
    AcquiresWithin lock pid a 8 s := by
  apply h.step rfl (by decide) (execute_cbnzW1_of_eq hw1)
  apply AtSpinLock.stxrFails
  · exact h.setRegs (m := s.memory) (by simp [LockRegs.next, h.pc]) h.x0 (h.w2 (by decide))
  · exact hmonitor
  · exact hword

/-- The word was set when it was loaded. -/
theorem cbnzLocked (h : AtSpinLock lock a 4 s) (hw1 : (s.regs a).w1 ≠ 0)
    (hevent : s.memory.event a = true) (hword : s.memory.word = 0) : AcquiresWithin lock pid a 7 s := by
  apply h.step rfl (by decide) (execute_cbnzW1_of_ne hw1)
  apply AtSpinLock.wfe
  · exact h.setRegs (m := s.memory) rfl h.x0 (h.w2 (by decide))
  · exact hevent
  · exact hword

end AtSpinLock

end Progress

/-- Nobody is where only the holder can be while the word is 0. -/
theorem Implements.outside (h : Implements s t) (hex : Exclusive pid t) (hword : s.memory.word = 0)
    (a : α) : (t.point a).inside = false := by
  by_contra hinside
  have hholds := hex.inside a (by simpa using hinside)
  exact h.locked.mp (hex.locked_iff.mpr ⟨a, hholds⟩) hword

/-- While the word is 0 nothing keeps an agent in `_spin_lock`: eight of its instructions are enough to
    acquire the lock. -/
theorem spinLock_acquires [DecidableEq α] (h₀ : s₀.Fresh) (hrun : Run (lockAsmStep lock pid) s₀ s)
    (hpoint : s.point a = .spinLock) (hword : s.memory.word = 0) : AcquiresWithin lock pid a 8 s := by
  obtain ⟨t, hspec, hsim⟩ := simulates_of_run h₀ hrun
  have hat := hsim.atInstr a
  rw [hpoint] at hat
  obtain ⟨hx0, hw2, hknown⟩ := hat
  have hspin : AtSpinLock lock a (s.regs a).pc s := ⟨hpoint, rfl, hx0, hw2⟩
  have hout := hsim.toImplements.outside (exclusive_of_run s₀.fresh_toLock hspec) hword a
  rw [hsim.point a, hpoint] at hout
  split at hknown
  case h_1 hpc => exact (hpc ▸ hspin).mov hword
  case h_2 hpc => exact ((hpc ▸ hspin).sevl hword).mono (by decide)
  case h_3 hpc => exact ((hpc ▸ hspin).ldaxr hword).mono (by decide)
  case h_4 hpc =>
    have hw1 : (s.regs a).w1 ≠ 0 := by
      intro hw1
      simp [LockRegs.seen, hpc, hw1, LockPoint.inside] at hout
    exact ((hpc ▸ hspin).cbnzFailed hw1 hword).mono (by decide)
  case h_5 hpc =>
    obtain ⟨v, hv, halerted⟩ := hknown
    have hevent := halerted.event_of_ne (by rw [hword]; exact hv.symm)
    exact ((hpc ▸ hspin).wfe hevent hword).mono (by decide)
  case h_6 hpc =>
    rw [hpc] at hspin
    cases decEq (s.regs a).w1 0 with
    | isTrue hw1 =>
      cases hmonitor : s.memory.monitor a with
      | true => exact (hspin.cbnzLoaded hw1 hmonitor).mono (by decide)
      | false => exact hspin.cbnzUnwatched hw1 hmonitor hword
    | isFalse hw1 =>
      have hevent := hknown.2.event_of_ne (by rw [hword]; exact Ne.symm hw1)
      exact (hspin.cbnzLocked hw1 hevent hword).mono (by decide)
  case h_7 hpc =>
    rw [hpc] at hspin
    cases hmonitor : s.memory.monitor a with
    | true => exact (hspin.stxr hmonitor).mono (by decide)
    | false => exact (hspin.stxrFails hmonitor hword).mono (by decide)
  case h_8 hpc => simp [LockRegs.seen, hpc, hknown, LockPoint.inside] at hout
  case h_9 => cases hknown

/-! ### A run -/

/-- A fresh lock at address 16. -/
def freshLockMachine : LockMachine Bool where
  memory := ⟨0, fun _ => false, fun _ => false⟩
  ownerPid := 0xdeadbeef
  point := fun _ => .outside
  regs := fun _ => ⟨0, 0, 0, 0⟩
  sleepingOnLock := fun _ => false
  owned := fun _ => false

theorem fresh_freshLockMachine : freshLockMachine.Fresh := ⟨rfl, fun _ => rfl, fun _ => rfl⟩

/-- Agent `false` spins; agent `true` loads the word, waits for an event, and is woken up when agent
    `false` unlocks. -/
def contended : List (LockAsmEvent Bool) :=
  .call false .spin :: List.replicate 9 (.proceed false true false) ++
    .call true .spin :: List.replicate 5 (.proceed true true true) ++
    .call false .release :: List.replicate 2 (.proceed false true false)

theorem lockRoutines_refine_contended : ∃ s : LockMachine Bool,
    s.owned false = true ∧ s.point true = .spinLock ∧
      ∃ t, Run (lockStep fun agent => if agent then 2 else 1) freshLockMachine.toLock t ∧
      Implements s t := by
  obtain ⟨s, hrun, hs⟩ : ∃ s, Run (lockAsmStep 16 fun agent => if agent then 2 else 1)
    freshLockMachine s ∧
      (s.owned false && s.point true == .spinLock) = true :=
    RunWhere.exists_of_replay (contended.take 16) (by decide)
  simp only [Bool.and_eq_true, beq_iff_eq] at hs
  exact ⟨s, hs.1, hs.2, (lockRoutines_refine fresh_freshLockMachine hrun).1⟩

theorem spinLock_acquires_contended : ∃ s : LockMachine Bool,
    s.owned false = false ∧ AcquiresWithin 16 (fun agent => if agent then 2 else 1) true 8 s := by
  obtain ⟨s, hrun, hs⟩ : ∃ s, Run (lockAsmStep 16 fun agent => if agent then 2 else 1)
    freshLockMachine s ∧
      (!s.owned false && s.point true == .spinLock && s.memory.word == 0) = true :=
    RunWhere.exists_of_replay contended (by decide)
  simp only [Bool.and_eq_true, Bool.not_eq_true', beq_iff_eq] at hs
  exact ⟨s, hs.1.1, spinLock_acquires fresh_freshLockMachine hrun hs.1.2 hs.2⟩

end Rpi4Kernel.Sched
