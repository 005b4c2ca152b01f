/-
Module: Rpi4Kernel.Proofs.WakeUpPassSpec
Layer: Proofs
Purpose: A wake-up pass ends and moves the tasks that are ready, each once and to the core chosen for
  it, although it starts its loop again after each of them while the clock goes on. The induction is
  on the length of `sleepingQ`, which every restart shortens; a loop that comes to the end of the
  queue has found every task in it not ready, and so not ready when the pass began.
Trusted boundary: none (fully proved)
Main exports: choose_core, scan_from, pass_from, wakeUpPass_moves, wakeUpPass_crowded
-/
import Rpi4Kernel.Sched.WakeUpPass
import Rpi4Kernel.Proofs.SleepingQSpec
import Mathlib.Order.Monotone.Basic

namespace Rpi4Kernel.Sched

open Rpi4Kernel.Stdlib

variable {β : Type} {s s' : State β} {c : Core} {pass : Pass} {readings : ℕ → ℕ} {n : ℕ} {t : TaskId}
  {q : ArrayList TaskId} {tasks : TaskId → Task β} {runningQ : Core → Priority → ArrayList TaskId}

theorem handleFor_succ (h : handleFor c readings n s = some s')
    {s'' : State β} (hs : handle s' c (readings n) = some s'') :
    handleFor c readings (n + 1) s = some s'' := by
  simp only [handleFor, h, bind, Option.bind, hs]

/-! ### The steps of a pass -/

/-- The system `s` in the course of a pass of core `c`. -/
def State.inPass (s : State β) (c : Core) (h : Handler) (q : ArrayList TaskId) (tasks : TaskId → Task β)
    (runningQ : Core → Priority → ArrayList TaskId) : State β :=
  { s with
    handler := Function.update s.handler c h
    sleepingQLock := some c
    sleepingQ := q
    tasks := tasks
    runningQ := runningQ }

/-- The system `s` after a pass of core `c`. -/
def State.afterPass (s : State β) (c : Core) (pass : Pass) (q : ArrayList TaskId)
    (tasks : TaskId → Task β) (runningQ : Core → Priority → ArrayList TaskId) : State β :=
  { s with
    handler := Function.update s.handler c pass.after
    sleepingQLock := none
    sleepingQ := q
    tasks := tasks
    runningQ := runningQ }

@[simp] theorem inPass_handler (h : Handler) : (s.inPass c h q tasks runningQ).handler c = h :=
  Function.update_self ..

theorem inPass_setHandler (h after : Handler) : (s.inPass c h q tasks runningQ).setHandler c after =
    s.inPass c after q tasks runningQ := by
  simp [State.inPass, State.setHandler]

theorem inPass_ready {h : Handler} {counter : ℕ} (ht : tasks t = s.tasks t) :
    (s.inPass c h q tasks runningQ).ready pass counter t = s.ready pass counter t := by
  simp only [State.ready, State.inPass, ht]
  rfl

/-- A later reading finds every task ready that an earlier one does. -/
theorem ready_mono {counter later : ℕ} (hle : counter ≤ later) (h : s.ready pass counter t = true) :
    s.ready pass later t = true := by
  cases pass with
  | locks => exact h
  | _ =>
    simp only [State.ready, Bool.and_eq_true, decide_eq_true_eq] at h ⊢
    exact ⟨h.1, h.2.trans hle⟩

theorem begin_step (hstart : s.handler c = .begin pass) (hfree : s.sleepingQLock = none) (r : ℕ) :
    ∃ q, q.array.Perm s.sleepingQ.array ∧ q.Searchable ∧
      handle s c r = some (s.inPass c (.scan pass 0) q s.tasks s.runningQ) := by
  obtain ⟨q, hq, hperm, hsearch⟩ := s.sleepingQ.quickSort_spec
  refine ⟨q, hperm, hsearch, ?_⟩
  simp only [handle, hstart, State.wakeUpBegin, hfree, hq, if_true, bind, Option.bind]
  rfl

theorem inPass_get (h : Handler) (index : ℕ) :
    (s.inPass c h q tasks runningQ).sleepingQ.get (index : ℕ) = q.array[index]? := by
  simp [State.inPass, ArrayList.get, readAt]

theorem scan_end {index r : ℕ} (hall : q.array.length ≤ index) :
    handle (s.inPass c (.scan pass index) q tasks runningQ) c r =
      some (s.afterPass c pass q tasks runningQ) := by
  simp only [handle, inPass_handler, State.wakeUpScan]
  rw [inPass_get, List.getElem?_eq_none hall]
  simp [State.inPass, State.setHandler, State.afterPass]

theorem scan_ready {index r : ℕ} (hslot : q.array[index]? = some t)
    (hready : (s.inPass c (.scan pass index) q tasks runningQ).ready pass r t = true) :
    handle (s.inPass c (.scan pass index) q tasks runningQ) c r =
      some (s.inPass c ((s.inPass c (.scan pass index) q tasks runningQ).afterReady pass t) q
        (Function.update tasks t (State.clear pass (tasks t))) runningQ) := by
  simp only [handle, inPass_handler, State.wakeUpScan]
  rw [inPass_get, hslot]
  simp only [hready, if_true]
  simp only [State.inPass, State.setHandler, State.updateTask, Function.update_idem]
  rfl

theorem scan_not_ready {index r : ℕ} (hslot : q.array[index]? = some t)
    (hready : (s.inPass c (.scan pass index) q tasks runningQ).ready pass r t = false) :
    handle (s.inPass c (.scan pass index) q tasks runningQ) c r =
      some (s.inPass c (.scan pass (index + 1)) q tasks runningQ) := by
  simp only [handle, inPass_handler, State.wakeUpScan]
  rw [inPass_get, hslot]
  simp only [hready, Bool.false_eq_true, if_false, inPass_setHandler]

theorem move_step (s : State β) (c : Core) (pass : Pass) (tasks : TaskId → Task β)
    (runningQ : Core → Priority → ArrayList TaskId) (core : Core) (r : ℕ) (hsearch : q.Searchable)
    (hmem : t ∈ q.array) :
    ∃ q', q.array.Perm (t :: q'.array) ∧ q'.Searchable ∧
      handle (s.inPass c (.move pass t core) q tasks runningQ) c r =
        some (s.inPass c (.scan pass 0) q' tasks (appendTo runningQ core (tasks t).p t)) := by
  obtain ⟨q', hq', hperm, hsearch'⟩ := ArrayList.removeElement_spec hsearch hmem
  refine ⟨q', hperm, hsearch', ?_⟩
  simp only [handle, inPass_handler, State.wakeUpMove]
  rw [show (s.inPass c (.move pass t core) q tasks runningQ).sleepingQ = q from rfl, hq']
  simp [State.inPass, State.setHandler, State.setRunningQ, appendTo, bind, Option.bind]

/-! ### The choice of a core -/

/-- What `calcNextCore` knows after the cores below `i`: `count` is the shortest length it has seen. -/
structure Best (runningQ : Core → Priority → ArrayList TaskId) (p : Priority) (i count : ℕ)
    (out : Core) : Prop where
  least : ∀ d : Core, d.val < i → count ≤ (runningQ d p).getSize
  first : (count = 0xfffffff ∧ out = 0) ∨
    (count < 0xfffffff ∧ count = (runningQ out p).getSize ∧ out.val < i ∧
      ∀ d, d < out → count < (runningQ d p).getSize)

theorem Best.count_le {p : Priority} {i count : ℕ} {out : Core} (h : Best runningQ p i count out) :
    count ≤ 0xfffffff := by
  rcases h.first with ⟨heq, -⟩ | ⟨hlt, -⟩
  · exact heq.le
  · exact hlt.le

theorem Best.start (p : Priority) : Best runningQ p 0 0xfffffff 0 where
  least := fun _ hd => absurd hd (Nat.not_lt_zero _)
  first := .inl ⟨rfl, rfl⟩

/-- A shorter queue is taken: it is shorter than all before it. -/
theorem Best.shorter {p : Priority} {i count : ℕ} {out : Core} (h : Best runningQ p i count out)
    (hi : i < 4) (hlt : (runningQ ⟨i, hi⟩ p).getSize < count) :
    Best runningQ p (i + 1) (runningQ ⟨i, hi⟩ p).getSize ⟨i, hi⟩ where
  least := by
    intro d hd
    rcases Nat.lt_succ_iff_lt_or_eq.mp hd with hlt' | heq
    · exact (hlt.trans_le (h.least d hlt')).le
    · rw [show d = ⟨i, hi⟩ from Fin.ext heq]
  first := .inr ⟨hlt.trans_le h.count_le, rfl, Nat.lt_succ_self i,
    fun d hd => hlt.trans_le (h.least d hd)⟩

theorem Best.longer {p : Priority} {i count : ℕ} {out : Core} (h : Best runningQ p i count out)
    (hi : i < 4) (hle : count ≤ (runningQ ⟨i, hi⟩ p).getSize) :
    Best runningQ p (i + 1) count out where
  least := by
    intro d hd
    rcases Nat.lt_succ_iff_lt_or_eq.mp hd with hlt' | heq
    · exact h.least d hlt'
    · rw [show d = ⟨i, hi⟩ from Fin.ext heq]
      exact hle
  first := h.first.imp_right fun ⟨hlt, heq, hout, hfirst⟩ =>
    ⟨hlt, heq, hout.trans (Nat.lt_succ_self i), hfirst⟩

theorem Best.chosen {task : Task β} {count : ℕ} {out : Core} (h : Best runningQ task.p 4 count out)
    (hpin : task.pinned = none) : ChosenCore runningQ task out := by
  rw [ChosenCore, hpin]
  rcases h.first with ⟨heq, hout⟩ | ⟨hlt, heq, -, hfirst⟩
  · exact .inr ⟨hout, fun d => heq ▸ h.least d d.isLt⟩
  · rw [heq] at hlt hfirst
    exact .inl ⟨hlt, fun d => heq.ge.trans (h.least d d.isLt), hfirst⟩

/-- The loop of `calcNextCore`: the induction is on the number of cores to go. -/
theorem calcNextCore_from {count : ℕ} {out : Core} :
    ∀ left i n, i + left = 4 → Best runningQ (tasks t).p i count out →
      handleFor c readings n s = some (s.inPass c (.calcCore pass t i count out) q tasks runningQ) →
      ∃ m core count', n ≤ m ∧ Best runningQ (tasks t).p 4 count' core ∧
        handleFor c readings m s = some (s.inPass c (.move pass t core) q tasks runningQ) := by
  intro left
  induction left generalizing count out with
  | zero =>
    intro i n hi hbest hn
    rw [Nat.add_zero] at hi
    subst hi
    refine ⟨n + 1, out, count, Nat.le_succ n, hbest, handleFor_succ hn ?_⟩
    simp only [handle, inPass_handler, State.calcNextCore, Nat.lt_irrefl, dif_neg, not_false_eq_true,
      inPass_setHandler]
  | succ left ih =>
    intro i n hi hbest hn
    have hlt : i < 4 := by omega
    have hstep : handle (s.inPass c (.calcCore pass t i count out) q tasks runningQ) c (readings n) =
        some (if (runningQ ⟨i, hlt⟩ (tasks t).p).getSize < count then
          s.inPass c (.calcCore pass t (i + 1) (runningQ ⟨i, hlt⟩ (tasks t).p).getSize ⟨i, hlt⟩)
            q tasks runningQ
        else s.inPass c (.calcCore pass t (i + 1) count out) q tasks runningQ) := by
      simp only [handle, inPass_handler, State.calcNextCore, dif_pos hlt, inPass_setHandler]
      rfl
    by_cases hshort : (runningQ ⟨i, hlt⟩ (tasks t).p).getSize < count
    · rw [if_pos hshort] at hstep
      obtain ⟨m, core, count', hm, hall, hrun⟩ :=
        ih (i + 1) (n + 1) (by omega) (hbest.shorter hlt hshort) (handleFor_succ hn hstep)
      exact ⟨m, core, count', by omega, hall, hrun⟩
    · rw [if_neg hshort] at hstep
      obtain ⟨m, core, count', hm, hall, hrun⟩ :=
        ih (i + 1) (n + 1) (by omega) (hbest.longer hlt (not_lt.mp hshort)) (handleFor_succ hn hstep)
      exact ⟨m, core, count', by omega, hall, hrun⟩

theorem afterReady_eq_of_pinned {h : Handler} (hpin : (tasks t).pinned = (s.tasks t).pinned) :
    (s.inPass c h q tasks runningQ).afterReady pass t = s.afterReady pass t := by
  simp only [State.afterReady, State.inPass, hpin]

/-- From a task that is ready the handler comes to the step that moves it to the core chosen for it. -/
theorem choose_core (hp : (tasks t).p = (s.tasks t).p)
    (hn : handleFor c readings n s = some (s.inPass c (s.afterReady pass t) q tasks runningQ)) :
    ∃ m core, n ≤ m ∧ ChosenCore runningQ (s.tasks t) core ∧
      handleFor c readings m s = some (s.inPass c (.move pass t core) q tasks runningQ) := by
  cases hpin : (s.tasks t).pinned with
  | some pin =>
    rw [show s.afterReady pass t = .move pass t pin by simp only [State.afterReady, hpin]] at hn
    refine ⟨n, pin, le_rfl, ?_, hn⟩
    rw [ChosenCore, hpin]
  | none =>
    rw [show s.afterReady pass t = .calcCore pass t 0 0xfffffff 0 by
      simp only [State.afterReady, hpin]] at hn
    obtain ⟨m, core, count, hm, hbest, hrun⟩ := calcNextCore_from 4 0 n rfl (Best.start _) hn
    rw [hp] at hbest
    exact ⟨m, core, hm, hbest.chosen hpin, hrun⟩

/-! ### The loop over the queue -/

/-- The loop from slot `index` comes to the end of the queue, having found no task ready, or to a task
    that is ready. The induction is on the number of slots to go. -/
theorem scan_from (hsame : ∀ u ∈ q.array, tasks u = s.tasks u) :
    ∀ left index n, index + left = q.array.length →
      handleFor c readings n s = some (s.inPass c (.scan pass index) q tasks runningQ) →
      (∃ m, n ≤ m ∧
        handleFor c readings m s = some (s.inPass c (.scan pass q.array.length) q tasks runningQ) ∧
        ∀ j u, index ≤ j → q.array[j]? = some u → ∃ k, s.ready pass (readings k) u = false) ∨
      (∃ m i t, n ≤ m ∧ q.array[i]? = some t ∧ s.ready pass (readings m) t = true ∧
        handleFor c readings m s = some (s.inPass c (.scan pass i) q tasks runningQ)) := by
  intro left
  induction left with
  | zero =>
    intro index n hlen hn
    rw [Nat.add_zero] at hlen
    subst hlen
    refine .inl ⟨n, le_rfl, hn, fun j u hj hu => ?_⟩
    rw [List.getElem?_eq_none hj] at hu
    cases hu
  | succ left ih =>
    intro index n hlen hn
    have hlt : index < q.array.length := by omega
    have hslot : q.array[index]? = some q.array[index] := List.getElem?_eq_getElem hlt
    have hready (r : ℕ) : (s.inPass c (.scan pass index) q tasks runningQ).ready pass r q.array[index] =
        s.ready pass r q.array[index] := inPass_ready (hsame _ (List.getElem_mem hlt))
    cases hr : s.ready pass (readings n) q.array[index] with
    | true => exact .inr ⟨n, index, _, le_rfl, hslot, hr, hn⟩
    | false =>
      obtain ⟨m, hm, hrun, hnot⟩ | ⟨m, i, t, hm, ht, hrt, hrun⟩ := ih (index + 1) (n + 1) (by omega)
        (handleFor_succ hn (scan_not_ready hslot ((hready (readings n)).trans hr)))
      · refine .inl ⟨m, by omega, hrun, fun j u hj hu => ?_⟩
        rcases Nat.eq_or_lt_of_le hj with rfl | hlt'
        · rw [hslot] at hu
          cases hu
          exact ⟨n, hr⟩
        · exact hnot j u hlt' hu
      · exact .inr ⟨m, i, t, by omega, ht, hrt, hrun⟩

/-- Within the first `n` steps the pass of core `c` tests task `u` and finds it ready. -/
def State.FindsReady (s : State β) (c : Core) (pass : Pass) (readings : ℕ → ℕ) (n : ℕ) (u : TaskId) :
    Prop :=
  ∃ k s', k < n ∧ handleFor c readings k s = some s' ∧ s'.LooksAt c pass u ∧
    s.ready pass (readings k) u = true

theorem cleared_nil : cleared pass [] tasks = tasks := by
  funext u
  simp [cleared]

theorem cleared_cons {moved : List TaskId} (ht : t ∉ moved) :
    cleared pass moved (Function.update tasks t (State.clear pass (tasks t))) =
      cleared pass (t :: moved) tasks := by
  funext u
  by_cases hu : u = t
  · subst hu
    simp [cleared, ht]
  · simp [cleared, hu]

/-- The loop with all its restarts. The induction is on the length of the queue: a restart follows the
    move of a task out of it. -/
theorem pass_from (hmono : Monotone readings) :
    ∀ len q tasks runningQ n, q.array.length = len → q.Searchable → q.array.Nodup →
      (∀ u ∈ q.array, tasks u = s.tasks u) →
      handleFor c readings n s = some (s.inPass c (.scan pass 0) q tasks runningQ) →
      ∃ m moved q' after,
        handleFor c readings m s = some (s.afterPass c pass q' (cleared pass moved tasks) after) ∧
        q.array.Perm (moved ++ q'.array) ∧
        (∀ u ∈ q.array, s.ready pass (readings 0) u = true → u ∈ moved) ∧
        (∀ u ∈ moved, s.FindsReady c pass readings m u) ∧ n ≤ m ∧
        Appends s.tasks runningQ moved after := by
  intro len
  induction len with
  | zero =>
    intro q tasks runningQ n hlen _ _ _ hn
    have hnil : q.array = [] := List.length_eq_zero_iff.mp hlen
    refine ⟨n + 1, [], q, runningQ, ?_, List.Perm.refl _, ?_, nofun, Nat.le_succ n, .nil⟩
    · rw [handleFor_succ hn (scan_end (by omega)), cleared_nil]
    · simp [hnil]
  | succ len ih =>
    intro q tasks runningQ n hlen hsearch hdistinct hsame hn
    obtain ⟨m, hm, hrun, hnot⟩ | ⟨m, i, t, hm, hslot, hr, hrun⟩ :=
      scan_from hsame q.array.length 0 n (by omega) hn
    · -- no task is ready any more
      refine ⟨m + 1, [], q, runningQ, ?_, List.Perm.refl _, fun u hu hready => ?_, nofun,
        by omega, .nil⟩
      · rw [handleFor_succ hrun (scan_end le_rfl), cleared_nil]
      · obtain ⟨j, hj, rfl⟩ := List.mem_iff_getElem.mp hu
        obtain ⟨k, hk⟩ := hnot j _ (Nat.zero_le j) (List.getElem?_eq_getElem hj)
        rw [ready_mono (hmono (Nat.zero_le k)) hready] at hk
        cases hk
    · -- the task in slot `i` is moved, and the loop starts again
      have ht : t ∈ q.array := List.mem_of_getElem? hslot
      have hready : (s.inPass c (.scan pass i) q tasks runningQ).ready pass (readings m) t = true :=
        (inPass_ready (hsame t ht)).trans hr
      have hfound := handleFor_succ hrun (scan_ready hslot hready)
      rw [afterReady_eq_of_pinned (by rw [hsame t ht])] at hfound
      have htask : Function.update tasks t (State.clear pass (tasks t)) t =
          State.clear pass (s.tasks t) := by rw [Function.update_self, hsame t ht]
      obtain ⟨m', core, hm', hcore, hrun'⟩ := choose_core (by rw [htask, clear_p]) hfound
      obtain ⟨q₁, hperm, hsearch₁, hmove⟩ := move_step s c pass
        (Function.update tasks t (State.clear pass (tasks t))) runningQ core (readings m') hsearch ht
      rw [htask, clear_p] at hmove
      have hdistinct₁ : (t :: q₁.array).Nodup := hperm.nodup_iff.mp hdistinct
      obtain ⟨htq₁, hdistinct₁⟩ := List.nodup_cons.mp hdistinct₁
      have hsame₁ : ∀ u ∈ q₁.array,
          Function.update tasks t (State.clear pass (tasks t)) u = s.tasks u := by
        intro u hu
        have hut : u ≠ t := fun heq => htq₁ (heq ▸ hu)
        rw [Function.update_of_ne hut]
        exact hsame u (hperm.mem_iff.mpr (List.mem_cons_of_mem t hu))
      have hlen₁ : q₁.array.length = len := by
        have hlength := hperm.length_eq
        rw [List.length_cons] at hlength
        omega
      obtain ⟨m'', moved, q', after, hend, hperm', hall, hfinds, hle, happends⟩ :=
        ih q₁ _ _ (m' + 1) hlen₁ hsearch₁ hdistinct₁ hsame₁ (handleFor_succ hrun' hmove)
      have htmoved : t ∉ moved := fun hin => htq₁ (hperm'.mem_iff.mpr (List.mem_append_left _ hin))
      refine ⟨m'', t :: moved, q', after, ?_, hperm.trans (hperm'.cons t), fun u hu hready => ?_,
        fun u hu => ?_, by omega, .cons hcore happends⟩
      · rw [hend, cleared_cons htmoved]
      · rcases List.mem_cons.mp (hperm.mem_iff.mp hu) with rfl | hu₁
        · exact List.mem_cons_self
        · exact List.mem_cons_of_mem t (hall u hu₁ hready)
      · rcases List.mem_cons.mp hu with rfl | hu₁
        · exact ⟨m, _, by omega, hrun, ⟨i, inPass_handler _, hslot⟩, hr⟩
        · exact hfinds u hu₁

/-- A wake-up pass over distinct tasks ends. Every task that is ready by the clock at its start is
    moved, every task that is moved was found ready by a reading during the pass; the moved tasks are
    cleared and appended, each once and in the order of the moves, to the run queue of their level on
    the core chosen for them; the others stay in `sleepingQ`, and nothing else has changed. -/
theorem wakeUpPass_moves (hstart : s.handler c = .begin pass) (hfree : s.sleepingQLock = none)
    (hdistinct : s.sleepingQ.array.Nodup) (hmono : Monotone readings) :
    ∃ n moved q after,
      handleFor c readings n s = some (s.afterPass c pass q (cleared pass moved s.tasks) after) ∧
      s.sleepingQ.array.Perm (moved ++ q.array) ∧
      (∀ t ∈ s.sleepingQ.array, s.ready pass (readings 0) t = true → t ∈ moved) ∧
      (∀ t ∈ moved, s.FindsReady c pass readings n t) ∧
      Appends s.tasks s.runningQ moved after := by
  obtain ⟨q, hperm, hsearch, hbegin⟩ := begin_step hstart hfree (readings 0)
  obtain ⟨n, moved, q', after, hend, hperm', hall, hfinds, -, happends⟩ :=
    pass_from hmono q.array.length q s.tasks s.runningQ 1 rfl hsearch
      (hperm.nodup_iff.mpr hdistinct) (fun _ _ => rfl) (handleFor_succ rfl hbegin)
  exact ⟨n, moved, q', after, hend, hperm.symm.trans hperm',
    fun t ht => hall t (hperm.mem_iff.mpr ht), hfinds, happends⟩

/-- Core 0 at a timer tick, with task 7 asleep until the counter shows 1 and run queues of any
    lengths. -/
def ticking (lengths : Core → ℕ) : State Unit where
  currentTask := fun _ => 0
  regs := fun _ => .hang
  handler := fun c => if c = 0 then .begin .tick else .none
  sleepIrq := fun _ _ => none
  rescheduleIrq := fun _ _ => false
  wakeUpIrq := fun _ _ => false
  tasks := fun t =>
    { context := .hang, pid := t, p := 19, premption := 0, timer := 1, sleepingOnLock := none
      pinned := none }
  locks := fun _ => { locked := false, ownerPid := 0 }
  runningQ := fun c _ =>
    { array := List.range' ((c.val + 1) * 0x20000000) (lengths c), capacity := 0x20000000
      sorted := false }
  sleepingQ := { array := [7], capacity := 20, sorted := false }
  sleepingQLock := none
  unsaved := fun _ => none
  holds := fun _ _ => false

/-- Core 0 at a timer tick with five tasks asleep. When the counter shows 3 the tasks 7 and 9 are due,
    9 being pinned to core 0; task 10 becomes due when it shows 9. Task 8 sleeps on a lock and task 11
    much longer. The run queues of the cores have 2, 1, 0 and 3 tasks. -/
def sleepers : State Unit :=
  { ticking (fun c => if c = 0 then 2 else if c = 1 then 1 else if c = 2 then 0 else 3) with
    sleepingQ := { array := [11, 7, 10, 8, 9], capacity := 20, sorted := false }
    tasks := fun t =>
      { context := .hang, pid := t, p := 19, premption := 0
        timer := if t = 8 then 0 else if t = 10 then 9 else if t = 11 then 90 else 2
        sleepingOnLock := if t = 8 then some 0 else none
        pinned := if t = 9 then some 0 else none } }

theorem wakeUpPass_moves_ticking :
    (∃ n moved q after,
      handleFor 0 (fun k => k + 3) n sleepers =
        some (sleepers.afterPass 0 .tick q (cleared .tick moved sleepers.tasks) after) ∧
      [11, 7, 10, 8, 9].Perm (moved ++ q.array) ∧
      (∀ t ∈ [11, 7, 10, 8, 9], sleepers.ready .tick 3 t = true → t ∈ moved) ∧
      (∀ t ∈ moved, sleepers.FindsReady 0 .tick (fun k => k + 3) n t) ∧
      Appends sleepers.tasks sleepers.runningQ moved after) ∧
    (handleFor 0 (fun k => k + 3) 22 sleepers).map
        (fun s => (s.handler 0, s.sleepingQ.array, fun c => (s.runningQ c 19).getSize)) =
      some (.check .timer, [8, 11], fun c => if c = 1 then 2 else if c = 2 then 1 else 3) :=
  ⟨wakeUpPass_moves rfl rfl (by decide) (monotone_id.add_const 3), by decide +kernel⟩

/-- Run queues of 0xfffffff tasks, and one more on core 0. -/
def crowd (c : Core) : ℕ := if c = 0 then 0x10000000 else 0xfffffff

/-- With 0xfffffff tasks and more on every core the task goes to core 0, shorter queues or not. -/
theorem wakeUpPass_crowded :
    ∃ n s', handleFor 0 (fun _ => 1) n (ticking crowd) = some s' ∧ s'.handler 0 = Pass.tick.after ∧
      (s'.runningQ 0 19).array = ((ticking crowd).runningQ 0 19).array ++ [7] ∧
      ((ticking crowd).runningQ 1 19).getSize < ((ticking crowd).runningQ 0 19).getSize := by
  generalize hs : ticking crowd = s
  have hsize (d : Core) : (s.runningQ d 19).getSize = crowd d := by
    rw [← hs]
    exact List.length_range'
  obtain ⟨q, hperm, hsearch, hbegin⟩ :=
    begin_step (s := s) (c := 0) (by rw [← hs]; rfl) (by rw [← hs]; rfl) 1
  have hq : q.array = [7] := List.perm_singleton.mp (hperm.trans (by rw [← hs]; rfl))
  obtain ⟨n, moved, q', after, hend, hperm', hall, -, -, happends⟩ :=
    pass_from monotone_const q.array.length q s.tasks s.runningQ 1 rfl hsearch
      (by rw [hq]; exact List.nodup_singleton 7) (fun _ _ => rfl) (handleFor_succ rfl hbegin)
  have hin : 7 ∈ moved := hall 7 (by simp [hq]) (by rw [← hs]; rfl)
  rw [hq] at hperm'
  have hmoved : moved = [7] := by
    rcases List.append_eq_singleton_iff.mp (List.perm_singleton.mp hperm'.symm) with
      ⟨hnil, -⟩ | ⟨hone, -⟩
    · rw [hnil] at hin
      cases hin
    · exact hone
  subst hmoved
  cases happends with
  | cons chosen rest =>
    cases rest
    rename_i core
    have hp : (s.tasks 7).p = 19 := by rw [← hs]; rfl
    have hcore : core = 0 := by
      rw [ChosenCore, show (s.tasks 7).pinned = none by rw [← hs]; rfl] at chosen
      rcases chosen with ⟨hlt, -⟩ | ⟨hzero, -⟩
      · have hbig : 0xfffffff ≤ crowd core := by
          rw [crowd]
          split <;> omega
        rw [← hsize, ← hp] at hbig
        exact absurd hlt (not_lt.mpr hbig)
      · exact hzero
    subst hcore
    refine ⟨n, _, hend, ?_, ?_, ?_⟩
    · simp [State.afterPass]
    · simp [State.afterPass, appendTo, hp, ArrayList.add]
    · rw [hsize, hsize]
      decide

end Rpi4Kernel.Sched
