/-
Module: Rpi4Kernel.Proofs.LockingSpec
Layer: Proofs
Purpose: Mutual exclusion of a `Spinlock` in every order of steps, and what `ownerPid` says: once the
  first owner has been stored it is 0 or what the holder has found as its pid, and while the word is
  unlocked it is 0. Between the first acquisition and the store of the first owner it is whatever the
  memory of the lock held, since the constructor does not set it; and a holder that moves to another
  core while it evaluates `current` stores the pid of another agent.
Trusted boundary: none (fully proved)
Main exports: Exclusive, exclusive_step, exclusive_of_run, findsItself_step, lock_of_run,
  ownerPid_fails
-/
import Rpi4Kernel.Sched.Locking
import Rpi4Kernel.Theory.Runs

namespace Rpi4Kernel.Sched

open Rpi4Kernel.Theory

variable {α : Type} {pid : α → Nat} {s s₀ s' : LockState α} {a b : α}

/-- The places where only the holder can be. -/
def LockPoint.inside : LockPoint → Bool
  | .spinOwner | .getOwner | .releaseOwner _ | .releaseUnlock _ => true
  | _ => false

/-- How the word, the owner and the holder hang together. -/
structure Exclusive (pid : α → Nat) (s : LockState α) : Prop where
  unique : ∀ a b, s.holds a = true → s.holds b = true → a = b
  locked_iff : s.lock.locked = true ↔ ∃ a, s.holds a = true
  inside : ∀ a, (s.point a).inside = true → s.holds a = true
  owner : ∀ a current, s.stored = some (a, current) →
    s.lock.ownerPid = 0 ∨ s.holds a = true ∧ s.lock.ownerPid = pid current
  reset : ∀ a byFree, s.point a = .releaseUnlock byFree → s.lock.ownerPid = 0
  first : s.acquired = true → s.stored.isSome = true ∨ ∃ a, s.holds a = true ∧
    (s.point a).storing = true

theorem LockPoint.inside_of_storing {point : LockPoint} (h : point.storing = true) :
    point.inside = true := by
  cases point <;> first | rfl | cases h

theorem Exclusive.of_fresh (h : s.Fresh) : Exclusive pid s where
  unique := fun a _ ha => absurd ha (by rw [h.notHeld]; simp)
  locked_iff := by simp [h.unlocked, h.notHeld]
  inside := fun a ha => absurd ha (by rw [h.outside]; simp [LockPoint.inside])
  owner := fun _ _ hs => absurd hs (by rw [h.notStored]; simp)
  reset := fun a _ ha => absurd ha (by rw [h.outside]; simp)
  first := fun hs => absurd hs (by rw [h.notAcquired]; simp)

namespace Exclusive

/-- No step reads or sets `sleepingOnLock` but those of `get` and `wakeUpLocks`. -/
theorem setSleeping (h : Exclusive pid s) (sleeping : α → Bool) :
    Exclusive pid { s with sleepingOnLock := sleeping } where
  unique := h.unique
  locked_iff := h.locked_iff
  inside := h.inside
  owner := h.owner
  reset := h.reset
  first := h.first

variable [DecidableEq α]

/-- An agent that does not store its pid next goes on to another place. -/
theorem setPoint {point : LockPoint} (h : Exclusive pid s) (hfrom : (s.point a).storing = false)
    (hinside : point.inside = true → s.holds a = true)
    (hreset : ∀ byFree, point = .releaseUnlock byFree → s.lock.ownerPid = 0) :
    Exclusive pid (s.setPoint a point) where
  unique := h.unique
  locked_iff := h.locked_iff
  inside := by
    intro b hb
    by_cases hba : b = a
    · subst hba
      simp only [LockState.setPoint, Function.update_self] at hb
      exact hinside hb
    · simp only [LockState.setPoint, Function.update_of_ne hba] at hb
      exact h.inside b hb
  owner := h.owner
  reset := by
    intro b byFree hb
    by_cases hba : b = a
    · subst hba
      simp only [LockState.setPoint, Function.update_self] at hb
      exact hreset byFree hb
    · simp only [LockState.setPoint, Function.update_of_ne hba] at hb
      exact h.reset b byFree hb
  first := by
    intro hacquired
    obtain hstored | ⟨b, hb, hstoring⟩ := h.first hacquired
    · exact .inl hstored
    · have hba : b ≠ a := by
        rintro rfl
        rw [hfrom] at hstoring
        cases hstoring
      refine .inr ⟨b, hb, ?_⟩
      simpa only [LockState.setPoint, Function.update_of_ne hba] using hstoring

/-- An unlocked word is set: the agent is the only holder, and stores its pid next. -/
theorem acquire {point : LockPoint} (h : Exclusive pid s) (hfree : s.lock.locked = false)
    (hpoint : point.storing = true) : Exclusive pid (s.acquire a point) := by
  have hnone : ∀ b, s.holds b = false := by
    intro b
    by_contra hb
    have hlocked := h.locked_iff.mpr ⟨b, by simpa using hb⟩
    rw [hfree] at hlocked
    cases hlocked
  have hheld : ∀ b, Function.update s.holds a true b = true ↔ b = a := by
    intro b
    by_cases hba : b = a
    · simp [hba]
    · simp [hnone, hba]
  have hother : ∀ b, b ≠ a → (s.point b).inside = false := by
    intro b _
    by_contra hb
    have hholds := h.inside b (by simpa using hb)
    rw [hnone] at hholds
    cases hholds
  refine ⟨fun b c hb hc => ?_, ?_, fun b hb => ?_, fun b current hstored => ?_, fun b byFree hb => ?_,
    fun _ => .inr ⟨a, (hheld a).mpr rfl, ?_⟩⟩
  · exact ((hheld b).mp hb).trans ((hheld c).mp hc).symm
  · exact iff_of_true rfl ⟨a, (hheld a).mpr rfl⟩
  · refine (hheld b).mpr ?_
    by_contra hba
    simp only [LockState.acquire, LockState.setPoint, Function.update_of_ne hba, hother b hba] at hb
    cases hb
  · obtain hzero | ⟨hb, -⟩ := h.owner b current hstored
    · exact .inl hzero
    · rw [hnone] at hb
      cases hb
  · by_cases hba : b = a
    · subst hba
      simp only [LockState.acquire, LockState.setPoint, Function.update_self] at hb
      rw [hb] at hpoint
      cases hpoint
    · simp only [LockState.acquire, LockState.setPoint, Function.update_of_ne hba] at hb
      exact h.reset b byFree hb
  · simpa only [LockState.acquire, LockState.setPoint, Function.update_self] using hpoint

/-- The holder stores the pid that it has found. -/
theorem storeOwner {current : α} (h : Exclusive pid s) (hpoint : (s.point a).storing = true) :
    Exclusive pid (s.storeOwner pid a current) := by
  have hholds := h.inside a (LockPoint.inside_of_storing hpoint)
  refine ⟨h.unique, h.locked_iff, fun b hb => ?_, ?_, fun b byFree hb => ?_, fun _ => .inl rfl⟩
  · by_cases hba : b = a
    · rw [hba]
      exact hholds
    · simp only [LockState.storeOwner, LockState.setPoint, Function.update_of_ne hba] at hb
      exact h.inside b hb
  · rintro _ _ ⟨⟩
    exact .inr ⟨hholds, rfl⟩
  · by_cases hba : b = a
    · subst hba
      simp [LockState.storeOwner, LockState.setPoint] at hb
    · -- nobody else is about to unlock, since only the holder can be
      simp only [LockState.storeOwner, LockState.setPoint, Function.update_of_ne hba] at hb
      exact absurd (h.unique b a (h.inside b (by rw [hb]; rfl)) hholds) hba

/-- The holder resets the owner. -/
theorem resetOwner {byFree : Bool} (h : Exclusive pid s) (hpoint : s.point a = .releaseOwner byFree) :
    Exclusive pid
    { s.setPoint a (.releaseUnlock byFree) with lock := { s.lock with ownerPid := 0 } } := by
  have hholds := h.inside a (by rw [hpoint]; rfl)
  refine ⟨h.unique, h.locked_iff, fun b hb => ?_, fun _ _ _ => .inl rfl, fun _ _ _ => rfl,
    fun hacquired => ?_⟩
  · by_cases hba : b = a
    · rw [hba]
      exact hholds
    · simp only [LockState.setPoint, Function.update_of_ne hba] at hb
      exact h.inside b hb
  · obtain hstored | ⟨b, hb, hstoring⟩ := h.first hacquired
    · exact .inl hstored
    · rw [h.unique b a hb hholds, hpoint] at hstoring
      cases hstoring

/-- The holder unlocks the word: the owner has been reset, and nobody holds the lock. -/
theorem unlock {byFree : Bool} {point : LockPoint} (h : Exclusive pid s)
    (hpoint : s.point a = .releaseUnlock byFree) (houtside : point.inside = false) :
    Exclusive pid { s.setPoint a point with
      lock := { s.lock with locked := false }
      holds := Function.update s.holds a false } := by
  have hholds := h.inside a (by rw [hpoint]; rfl)
  have hzero := h.reset a byFree hpoint
  have hnone : ∀ b, Function.update s.holds a false b = false := by
    intro b
    by_cases hba : b = a
    · simp [hba]
    · rw [Function.update_of_ne hba]
      by_contra hb
      exact hba (h.unique b a (by simpa using hb) hholds)
  have hpoints : ∀ b, (Function.update s.point a point b).inside = false := by
    intro b
    by_cases hba : b = a
    · rw [hba, Function.update_self]
      exact houtside
    · rw [Function.update_of_ne hba]
      by_contra hb
      exact hba (h.unique b a (h.inside b (by simpa using hb)) hholds)
  refine ⟨fun b _ hb => ?_, ?_, fun b hb => ?_, fun _ _ _ => .inl hzero, fun _ _ _ => hzero,
    fun hacquired => ?_⟩
  · exact absurd ((hnone b).symm.trans hb) Bool.false_ne_true
  · simp [hnone]
  · exact absurd ((hpoints b).symm.trans hb) Bool.false_ne_true
  · obtain hstored | ⟨b, hb, hstoring⟩ := h.first hacquired
    · exact .inl hstored
    · rw [h.unique b a hb hholds, hpoint] at hstoring
      cases hstoring

/-- One step of an agent inside a call. -/
theorem proceed {exclusive : Bool} {current : α} (h : Exclusive pid s)
    (hs : s.proceed pid a exclusive current = some s') : Exclusive pid s' := by
  cases hpoint : s.point a with
  | outside =>
    rw [LockState.proceed, hpoint] at hs
    cases hs
  | spinLock =>
    rw [LockState.proceed, hpoint] at hs
    by_cases hfree : (!s.lock.locked && exclusive) = true
    · simp only [hfree, ↓reduceIte, Option.some.injEq] at hs
      rw [← hs]
      exact h.acquire (by simp at hfree; exact hfree.1) rfl
    · simp only [hfree, Bool.false_eq_true, ↓reduceIte, Option.some.injEq] at hs
      rw [← hs]
      exact h
  | spinOwner =>
    rw [LockState.proceed, hpoint] at hs
    cases hs
    exact h.storeOwner (by rw [hpoint]; rfl)
  | getTest =>
    rw [LockState.proceed, hpoint] at hs
    by_cases hfree : (!s.lock.locked && exclusive) = true
    · simp only [hfree, ↓reduceIte, Option.some.injEq] at hs
      rw [← hs]
      exact h.acquire (by simp at hfree; exact hfree.1) rfl
    · simp only [hfree, Bool.false_eq_true, ↓reduceIte, Option.some.injEq] at hs
      rw [← hs]
      exact h.setPoint (by rw [hpoint]; rfl) nofun nofun
  | getStore =>
    rw [LockState.proceed, hpoint] at hs
    cases hs
    have hmove : Exclusive pid (s.setPoint a .getSleep) :=
      h.setPoint (by rw [hpoint]; rfl) nofun nofun
    exact hmove.setSleeping _
  | getSleep =>
    rw [LockState.proceed, hpoint] at hs
    cases hs
    exact h.setPoint (by rw [hpoint]; rfl) nofun nofun
  | getOwner =>
    rw [LockState.proceed, hpoint] at hs
    cases hs
    exact h.storeOwner (by rw [hpoint]; rfl)
  | releaseOwner byFree =>
    rw [LockState.proceed, hpoint] at hs
    cases hs
    exact h.resetOwner hpoint
  | releaseUnlock byFree =>
    rw [LockState.proceed, hpoint] at hs
    cases hs
    exact h.unlock hpoint (by cases byFree <;> rfl)
  | freeSgi =>
    rw [LockState.proceed, hpoint] at hs
    cases hs
    exact h.setPoint (by rw [hpoint]; rfl) nofun nofun

/-- An agent enters a call. -/
theorem enter {call : LockCall} (h : Exclusive pid s) (hpoint : s.point a = .outside)
    (hs : s.enter a call = some s') : Exclusive pid s' := by
  have hstoring : (s.point a).storing = false := by rw [hpoint]; rfl
  cases call with
  | spin =>
    cases hs
    exact h.setPoint hstoring nofun nofun
  | get =>
    cases hs
    exact h.setPoint hstoring nofun nofun
  | release =>
    rw [LockState.enter, Option.ite_none_right_eq_some] at hs
    obtain ⟨hholds, hs⟩ := hs
    cases hs
    exact h.setPoint hstoring (fun _ => hholds) nofun
  | free =>
    rw [LockState.enter, Option.ite_none_right_eq_some] at hs
    obtain ⟨hholds, hs⟩ := hs
    cases hs
    exact h.setPoint hstoring (fun _ => hholds) nofun

end Exclusive

variable [DecidableEq α]

theorem exclusive_step {e : LockEvent α} (h : Exclusive pid s) (hs : lockStep pid s e = some s') :
    Exclusive pid s' := by
  cases e with
  | call a call =>
    rw [lockStep, Option.ite_none_right_eq_some] at hs
    exact h.enter hs.1 hs.2
  | proceed a exclusive current => exact h.proceed hs
  | wakeUp a =>
    rw [lockStep, Option.ite_none_right_eq_some] at hs
    obtain ⟨-, hs⟩ := hs
    cases hs
    exact h.setSleeping _

theorem exclusive_of_run (h₀ : s₀.Fresh) (hrun : Run (lockStep pid) s₀ s) : Exclusive pid s :=
  hrun.invariant (.of_fresh h₀) fun _ _ _ h _ hs => exclusive_step h hs

/-- Where every agent finds itself as `current`, the last one that has stored an owner has stored its
    own pid. -/
theorem findsItself_step {e : LockEvent α} (h : ∀ a current, s.stored = some (a, current) → current = a)
    (hok : findsItself s e = true) (hs : lockStep pid s e = some s') :
    ∀ a current, s'.stored = some (a, current) → current = a := by
  cases e with
  | call a call =>
    rw [lockStep, Option.ite_none_right_eq_some] at hs
    obtain ⟨-, hs⟩ := hs
    cases call with
    | spin =>
      cases hs
      exact h
    | get =>
      cases hs
      exact h
    | release =>
      rw [LockState.enter, Option.ite_none_right_eq_some] at hs
      cases hs.2
      exact h
    | free =>
      rw [LockState.enter, Option.ite_none_right_eq_some] at hs
      cases hs.2
      exact h
  | proceed a exclusive current =>
    rw [lockStep, LockState.proceed] at hs
    cases hpoint : s.point a with
    | outside => simp [hpoint] at hs
    | spinLock =>
      simp only [hpoint] at hs
      split at hs <;> cases hs <;> exact h
    | getTest =>
      simp only [hpoint] at hs
      split at hs <;> cases hs <;> exact h
    | spinOwner | getOwner =>
      simp only [hpoint, Option.some.injEq] at hs
      have hself : current = a := by simpa [findsItself, hpoint, LockPoint.storing] using hok
      rw [← hs]
      rintro _ _ ⟨⟩
      exact hself
    | _ =>
      simp only [hpoint, Option.some.injEq] at hs
      rw [← hs]
      exact h
  | wakeUp a =>
    rw [lockStep, Option.ite_none_right_eq_some] at hs
    cases hs.2
    exact h

/-- In every run at most one agent holds the lock, from the first acquisition on `ownerPid` is 0 while
    the word is unlocked, and from the first store of an owner on it is 0 or the pid that the holder
    has found through `current`. In every run in which the agents find themselves there, it is that of
    the holder. -/
theorem lock_of_run (h₀ : s₀.Fresh) :
    (∀ s, Run (lockStep pid) s₀ s →
      (∀ a b, s.holds a = true → s.holds b = true → a = b) ∧
        (∀ a current, s.stored = some (a, current) →
          s.lock.ownerPid = 0 ∨ s.holds a = true ∧ s.lock.ownerPid = pid current) ∧
        (s.acquired = true → s.lock.locked = false → s.lock.ownerPid = 0)) ∧
      ∀ s, RunWhere (lockStep pid) findsItself s₀ s → s.stored.isSome = true →
        s.lock.ownerPid = 0 ∨ ∃ a, s.holds a = true ∧ s.lock.ownerPid = pid a := by
  constructor
  · intro s hrun
    have h := exclusive_of_run h₀ hrun
    refine ⟨h.unique, h.owner, fun hacquired hunlocked => ?_⟩
    have hnone : ∀ a, s.holds a ≠ true := by
      intro a ha
      have hlocked := h.locked_iff.mpr ⟨a, ha⟩
      rw [hunlocked] at hlocked
      cases hlocked
    obtain hstored | ⟨a, ha, -⟩ := h.first hacquired
    · obtain ⟨⟨a, current⟩, hlast⟩ := Option.isSome_iff_exists.mp hstored
      exact (h.owner a current hlast).resolve_right fun held => hnone a held.1
    · exact absurd ha (hnone a)
  · intro s hrun hstored
    have hself : ∀ a current, s.stored = some (a, current) → current = a :=
      hrun.invariant (fun a current hlast => by rw [h₀.notStored] at hlast; cases hlast)
        fun _ _ _ h hok hs => findsItself_step h hok hs
    have h := exclusive_of_run h₀ (hrun.mono fun _ _ _ => rfl)
    obtain ⟨⟨a, current⟩, hlast⟩ := Option.isSome_iff_exists.mp hstored
    obtain rfl := hself a current hlast
    exact (h.owner current current hlast).imp_right fun held => ⟨current, held⟩

/-- A fresh lock in memory that held `0xdeadbeef`. -/
def freshLock : LockState (Fin 2) where
  lock := ⟨false, 0xdeadbeef⟩
  point := fun _ => .outside
  sleepingOnLock := fun _ => false
  holds := fun _ => false
  acquired := false
  stored := none

theorem fresh_freshLock : freshLock.Fresh := ⟨rfl, fun _ => rfl, fun _ => rfl, rfl, rfl⟩

/-- Agent 0 spins, agent 1 tries to get the lock meanwhile. -/
theorem lock_of_twoAgents : ∃ s : LockState (Fin 2),
    s.holds 0 = true ∧ s.sleepingOnLock 1 = true ∧ s.lock.ownerPid = 1 ∧
      (∀ a b, s.holds a = true → s.holds b = true → a = b) ∧
      (s.lock.ownerPid = 0 ∨ ∃ a : Fin 2, s.holds a = true ∧ s.lock.ownerPid = a.val + 1) := by
  obtain ⟨s, hrun, hs⟩ : ∃ s, RunWhere (lockStep fun a : Fin 2 => a.val + 1) findsItself freshLock s ∧
      (s.holds 0 && s.sleepingOnLock 1 && s.lock.ownerPid == 1 && s.stored.isSome) = true :=
    RunWhere.exists_of_replay [.call 0 .spin, .proceed 0 true 0, .proceed 0 true 0, .call 1 .get,
      .proceed 1 true 1, .proceed 1 true 1] (by decide)
  simp only [Bool.and_eq_true, beq_iff_eq] at hs
  obtain ⟨⟨⟨hholds, hsleeps⟩, hpid⟩, hstored⟩ := hs
  exact ⟨s, hholds, hsleeps, hpid, ((lock_of_run fresh_freshLock).1 s (hrun.mono fun _ _ _ => rfl)).1,
    (lock_of_run fresh_freshLock).2 s hrun hstored⟩

/-- `ownerPid` need not be 0 or the pid of the holder: right after the first acquisition it is still
    what the memory held, and agent 0, moved while it evaluates `current`, stores the pid of agent
    1. -/
theorem ownerPid_fails :
    (∃ s : LockState (Fin 2), Run (lockStep fun a => a.val + 1) freshLock s ∧
      s.acquired = true ∧ s.stored = none ∧
        ¬ (s.lock.ownerPid = 0 ∨ ∃ a : Fin 2, s.holds a = true ∧ s.lock.ownerPid = a.val + 1)) ∧
      ∃ s : LockState (Fin 2), Run (lockStep fun a => a.val + 1) freshLock s ∧
        s.acquired = true ∧ s.stored = some (0, 1) ∧
          ¬ (s.lock.ownerPid = 0 ∨ ∃ a : Fin 2, s.holds a = true ∧ s.lock.ownerPid = a.val + 1) := by
  constructor
  · obtain ⟨s, hrun, hs⟩ : ∃ s, Run (lockStep fun a : Fin 2 => a.val + 1) freshLock s ∧
        (s.acquired && decide (s.stored = none) && decide (¬ (s.lock.ownerPid = 0 ∨
          ∃ a : Fin 2, s.holds a = true ∧ s.lock.ownerPid = a.val + 1))) = true :=
      RunWhere.exists_of_replay [.call 0 .spin, .proceed 0 true 0] (by decide)
    simp only [Bool.and_eq_true, decide_eq_true_eq] at hs
    exact ⟨s, hrun, hs.1.1, hs.1.2, hs.2⟩
  · obtain ⟨s, hrun, hs⟩ : ∃ s, Run (lockStep fun a : Fin 2 => a.val + 1) freshLock s ∧
        (s.acquired && decide (s.stored = some (0, 1)) && decide (¬ (s.lock.ownerPid = 0 ∨
          ∃ a : Fin 2, s.holds a = true ∧ s.lock.ownerPid = a.val + 1))) = true :=
      RunWhere.exists_of_replay [.call 0 .get, .proceed 0 true 0, .proceed 0 true 1] (by decide)
    simp only [Bool.and_eq_true, decide_eq_true_eq] at hs
    exact ⟨s, hrun, hs.1.1, hs.1.2, hs.2⟩

end Rpi4Kernel.Sched
