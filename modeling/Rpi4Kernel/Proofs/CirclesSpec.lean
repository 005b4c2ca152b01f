/-
Module: Rpi4Kernel.Proofs.CirclesSpec
Layer: Proofs
Purpose: Circles are taken in the order in which they were added, and each is deleted once, after it
  left the list and not before it was drawn. While a task is at work on `circles` no other one is,
  because `fb_lock` has one holder; the circles taken and the circles left are therefore the circles
  added at every step, and all of the taken ones are deleted but the one that the task at work is
  drawing.
Trusted boundary: none (fully proved)
Main exports: Guarded, Accounted, accounted_of_run, circles_of_run
-/
import Mathlib.Data.List.Nodup
import Rpi4Kernel.Proofs.LockingSpec
import Rpi4Kernel.Sched.Circles

namespace Rpi4Kernel.Sched

open Rpi4Kernel.Theory

variable {α : Type} {pid : α → Nat}

/-! ### The lock around the list -/

/-- The places between `fb_lock->get()` and the end of `fb_lock->free()`. -/
def DrawPoint.critical : DrawPoint → Bool
  | .kernelAlloc | .kernelFill _ | .paintGet _ | .screenGet => false
  | _ => true

/-- The places to which `fb_lock->get()` returns. -/
def DrawPoint.entering : DrawPoint → Bool
  | .paintAdd _ | .screenSize => true
  | _ => false

/-- The agent is in a call of `get`. -/
def LockPoint.getting : LockPoint → Bool
  | .getTest | .getStore | .getSleep | .getOwner => true
  | _ => false

/-- A task that is back from `fb_lock->get()` holds the lock. -/
structure DrawState.Guarded (pid : α → Nat) (s : DrawState α) : Prop where
  lock : Exclusive pid s.fbLock
  critical : ∀ a, (s.place a).critical = true →
    s.fbLock.point a = .outside ∧ s.fbLock.holds a = true ∨
      (s.place a).entering = true ∧ (s.fbLock.point a).getting = true

/-- A task at work on the list keeps the others out. -/
theorem DrawState.Guarded.alone {s : DrawState α} {a b : α} (h : s.Guarded pid)
    (houtside : s.fbLock.point a = .outside) (ha : (s.place a).critical = true) (hne : b ≠ a)
    (hb : (s.place b).critical = true) : (s.place b).entering = true := by
  have hholds : s.fbLock.holds a = true := by
    obtain ⟨-, hholds⟩ | ⟨-, hgetting⟩ := h.critical a ha
    · exact hholds
    · rw [houtside] at hgetting
      cases hgetting
  obtain ⟨-, hholds'⟩ | ⟨hentering, -⟩ := h.critical b hb
  · exact absurd (h.lock.unique b a hholds' hholds) hne
  · exact hentering

/-- A change of the circles alone leaves the tasks guarded. -/
theorem DrawState.Guarded.frame {s s' : DrawState α} (h : s.Guarded pid) (hlock : s'.fbLock = s.fbLock)
    (hplace : s'.place = s.place) : s'.Guarded pid :=
  ⟨hlock ▸ h.lock, by rw [hlock, hplace]; exact h.critical⟩

/-! ### The circles -/

/-- The circle that a `kernelTask` has allocated and not added yet. -/
def DrawPoint.paints : DrawPoint → Option CircleId
  | .kernelFill c | .paintGet c | .paintAdd c => some c
  | _ => none

/-- The circle that a `screenTask` has removed and not deleted yet. -/
def DrawPoint.draws : DrawPoint → Option CircleId
  | .screenDraw c | .screenDelete c => some c
  | _ => none

/-- What holds of the circles in the list, taken and deleted while a task stands at a place. -/
def DrawPoint.Allows (circles taken deleted : List CircleId) : DrawPoint → Prop
  | .screenRead => circles ≠ []
  | .screenRemove c => circles[0]? = some c
  | .screenDraw c | .screenDelete c => taken = deleted ++ [c]
  | _ => True

/-- Where every circle is. -/
structure DrawState.Accounted (s : DrawState α) : Prop where
  queue : s.taken ++ s.circles = s.added
  nodup : s.added.Nodup
  allocated : ∀ c ∈ s.added, c < s.allocations
  painted : ∀ a c, (s.place a).paints = some c → c < s.allocations ∧ c ∉ s.added
  paintedOnce : ∀ a b c, (s.place a).paints = some c → (s.place b).paints = some c → a = b
  allows : ∀ a, (s.place a).Allows s.circles s.taken s.deleted
  settled : (∀ a, (s.place a).draws = none) → s.taken = s.deleted
  memory : ∀ c, (c ∈ s.added ∨ ∃ a, (s.place a).paints = some c) → c ∉ s.deleted → (s.heap c).isSome
  notFaulted : s.faulted = false

namespace DrawState.Accounted

variable {s : DrawState α}

theorem of_starting (h : s.Starting) : s.Accounted := by
  have hpaints : ∀ a, (s.place a).paints = none := fun a => by
    obtain hp | hp := h.place a <;> rw [hp] <;> rfl
  refine ⟨by rw [h.taken, h.circles, h.added]; rfl, by rw [h.added]; exact List.nodup_nil,
    by simp [h.added], fun a c hc => ?_, fun a _ c hc => ?_, fun a => ?_,
    fun _ => by rw [h.taken, h.deleted], fun c hc => ?_, h.notFaulted⟩
  · rw [hpaints] at hc
    cases hc
  · rw [hpaints] at hc
    cases hc
  · obtain hp | hp := h.place a <;> rw [hp] <;> trivial
  · simp [h.added, hpaints] at hc

/-- The steps of the lock move no circle. -/
theorem setLock (h : s.Accounted) (l : LockState α) : Accounted { s with fbLock := l } where
  queue := h.queue
  nodup := h.nodup
  allocated := h.allocated
  painted := h.painted
  paintedOnce := h.paintedOnce
  allows := h.allows
  settled := h.settled
  memory := h.memory
  notFaulted := h.notFaulted

/-- A deleted circle was taken, and a taken one added. -/
theorem mem_taken (h : s.Accounted) {c : CircleId} (hc : c ∈ s.deleted) : c ∈ s.taken := by
  by_cases hdraws : ∀ a, (s.place a).draws = none
  · rwa [h.settled hdraws]
  · push Not at hdraws
    obtain ⟨a, ha⟩ := hdraws
    obtain ⟨d, hd⟩ := Option.ne_none_iff_exists'.mp ha
    have hallows := h.allows a
    cases hp : s.place a <;> rw [hp] at hd hallows <;> try cases hd
    all_goals
      rw [DrawPoint.Allows] at hallows
      rw [hallows]
      exact List.mem_append_left _ hc

theorem mem_added (h : s.Accounted) {c : CircleId} (hc : c ∈ s.taken) : c ∈ s.added := by
  rw [← h.queue]
  exact List.mem_append_left _ hc

/-- The circle that a `screenTask` draws is in memory. -/
theorem isSome_of_draws (h : s.Accounted) {c : CircleId} (htaken : s.taken = s.deleted ++ [c]) :
    (s.heap c).isSome := by
  have hmem : c ∈ s.taken := by
    rw [htaken]
    exact List.mem_append_right _ (List.mem_singleton_self c)
  have hnodup := h.nodup
  rw [← h.queue, htaken] at hnodup
  have hnot : c ∉ s.deleted := fun hd =>
    (List.nodup_append.mp (List.nodup_append.mp hnodup).1).2.2 c hd c (List.mem_singleton_self c) rfl
  exact h.memory c (.inl (h.mem_added hmem)) hnot

/-- With the others out of the way, a place where a task is at work on the list allows anything. -/
theorem allows_of_quiet {b : α} {circles taken deleted : List CircleId}
    (hcritical : (s.place b).critical = true →
    (s.place b).entering = true) : (s.place b).Allows circles taken deleted := by
  cases hp : s.place b <;> rw [hp] at hcritical <;> first | trivial | cases hcritical rfl

end DrawState.Accounted


/-! ### Steps -/

variable [DecidableEq α] {s s' s₀ : DrawState α} {l l' : LockState α} {a b : α} {p : DrawPoint}

/-- A step of one agent leaves the places of the others. -/
theorem proceed_other {exclusive : Bool} {current : α}
    (hs : l.proceed pid a exclusive current = some l') (hne : b ≠ a) :
    l'.point b = l.point b ∧ l'.holds b = l.holds b := by
  rw [LockState.proceed] at hs
  cases hpoint : l.point a with
  | outside =>
    rw [hpoint] at hs
    cases hs
  | spinLock | getTest =>
    simp only [hpoint] at hs
    split at hs <;> cases hs <;>
      simp [LockState.acquire, LockState.setPoint, Function.update_of_ne hne]
  | _ =>
    rw [hpoint] at hs
    cases hs
    simp [LockState.storeOwner, LockState.setPoint, Function.update_of_ne hne]

/-- An agent in `get` stays there until it returns with the lock. -/
theorem proceed_getting {exclusive : Bool} {current : α} (h : Exclusive pid l)
    (hget : (l.point a).getting = true)
    (hs : l.proceed pid a exclusive current = some l') :
    l'.point a = .outside ∧ l'.holds a = true ∨ (l'.point a).getting = true := by
  rw [LockState.proceed] at hs
  cases hpoint : l.point a with
  | getTest =>
    simp only [hpoint] at hs
    split at hs <;> cases hs <;>
      simp [LockState.acquire, LockState.setPoint, LockPoint.getting]
  | getStore | getSleep =>
    rw [hpoint] at hs
    cases hs
    simp [LockState.setPoint, LockPoint.getting]
  | getOwner =>
    rw [hpoint] at hs
    cases hs
    have hholds := h.inside a (by rw [hpoint]; rfl)
    simp [LockState.storeOwner, LockState.setPoint, hholds]
  | _ =>
    rw [hpoint] at hget
    cases hget

namespace DrawState.Guarded

/-- A step of a task inside a call on the lock. -/
theorem proceed {exclusive : Bool} {current : α} (h : s.Guarded pid)
    (hpoint : s.fbLock.point a ≠ .outside)
    (hs : s.fbLock.proceed pid a exclusive current = some l) : Guarded pid { s with fbLock := l } := by
  refine ⟨h.lock.proceed hs, fun b hb => ?_⟩
  by_cases hba : b = a
  · subst hba
    obtain ⟨houtside, -⟩ | ⟨hentering, hgetting⟩ := h.critical b hb
    · exact absurd houtside hpoint
    · exact (proceed_getting h.lock hgetting hs).imp_right fun hget => ⟨hentering, hget⟩
  · obtain ⟨hp, hh⟩ := proceed_other hs hba
    have hcritical := h.critical b hb
    rw [← hp, ← hh] at hcritical
    exact hcritical

/-- A task goes on at a place that is critical only if the last one was. -/
theorem setPlace (h : s.Guarded pid) (houtside : s.fbLock.point a = .outside)
    (hcritical : p.critical = true → (s.place a).critical = true) : Guarded pid (s.setPlace a p) := by
  refine ⟨h.lock, fun b hb => ?_⟩
  by_cases hba : b = a
  · subst hba
    simp only [DrawState.setPlace, Function.update_self] at hb
    obtain hinside | ⟨-, hgetting⟩ := h.critical b (hcritical hb)
    · exact .inl hinside
    · rw [houtside] at hgetting
      cases hgetting
  · simp only [DrawState.setPlace, Function.update_of_ne hba] at hb ⊢
    exact h.critical b hb

/-- A task enters a call on the lock. -/
theorem callLock {call : LockCall} (h : s.Guarded pid) (hs : s.callLock pid a call p = some s')
    (hcritical : p.critical = true → call = .get ∧ p.entering = true) : s'.Guarded pid := by
  obtain ⟨l, hl, rfl⟩ := Option.map_eq_some_iff.mp hs
  refine ⟨exclusive_step h.lock hl, fun b hb => ?_⟩
  rw [lockStep, Option.ite_none_right_eq_some] at hl
  obtain ⟨-, hl⟩ := hl
  by_cases hba : b = a
  · subst hba
    simp only [DrawState.setPlace, Function.update_self] at hb ⊢
    obtain ⟨rfl, hentering⟩ := hcritical hb
    cases hl
    exact .inr ⟨hentering, by simp [LockState.setPoint, LockPoint.getting]⟩
  · have hother : l.point b = s.fbLock.point b ∧ l.holds b = s.fbLock.holds b := by
      cases call <;> simp only [LockState.enter, Option.ite_none_right_eq_some, Option.some.injEq] at hl
      case spin | get =>
        rw [← hl]
        exact ⟨Function.update_of_ne hba _ _, rfl⟩
      case release | free =>
        rw [← hl.2]
        exact ⟨Function.update_of_ne hba _ _, rfl⟩
    simp only [DrawState.setPlace, Function.update_of_ne hba] at hb ⊢
    rw [hother.1, hother.2]
    exact h.critical b hb

end DrawState.Guarded

theorem paints_update {f : α → DrawPoint} {c : CircleId}
    (h : (Function.update f a p b).paints = some c) :
    b = a ∧ p.paints = some c ∨ b ≠ a ∧ (f b).paints = some c := by
  by_cases hba : b = a
  · subst hba
    rw [Function.update_self] at h
    exact .inl ⟨rfl, h⟩
  · rw [Function.update_of_ne hba] at h
    exact .inr ⟨hba, h⟩

/-- Nobody draws before a step if nobody does after it and the task that makes it did not. -/
theorem draws_update {f : α → DrawPoint} (hfrom : (f a).draws = none)
    (h : ∀ b, (Function.update f a p b).draws = none) (b : α) : (f b).draws = none := by
  by_cases hba : b = a
  · rwa [hba]
  · have hb := h b
    rwa [Function.update_of_ne hba] at hb

namespace DrawState.Accounted

/-- A task goes on with the circle it had. -/
theorem setPlace (h : s.Accounted) (hpaints : ∀ c, p.paints = some c → (s.place a).paints = some c)
    (hdraws : p.draws = (s.place a).draws) (hallows : p.Allows s.circles s.taken s.deleted) :
    Accounted (s.setPlace a p) := by
  have hback : ∀ b c, (Function.update s.place a p b).paints = some c →
      (s.place b).paints = some c := by
    intro b c hb
    obtain ⟨rfl, hc⟩ | ⟨-, hc⟩ := paints_update hb
    · exact hpaints c hc
    · exact hc
  refine ⟨h.queue, h.nodup, h.allocated, fun b c hb => h.painted b c (hback b c hb),
    fun b d c hb hd => h.paintedOnce b d c (hback b c hb) (hback d c hd),
    (Function.forall_update_iff s.place fun _ q => q.Allows s.circles s.taken s.deleted).mpr
      ⟨hallows, fun b _ => h.allows b⟩,
    fun hnone => h.settled ?_,
    fun c hc => h.memory c (hc.imp_right fun ⟨b, hb⟩ => ⟨b, hback b c hb⟩), h.notFaulted⟩
  have hfrom : (s.place a).draws = none := by
    have ha := hnone a
    simp only [DrawState.setPlace, Function.update_self] at ha
    rwa [hdraws] at ha
  exact draws_update hfrom hnone

/-- `kernelTask` allocates a circle: its number is new. -/
theorem alloc (h : s.Accounted) (hpoint : s.place a = .kernelAlloc) (circle : Circle) :
    Accounted { s.setPlace a (.kernelFill s.allocations) with
      heap := Function.update s.heap s.allocations (some circle)
      allocations := s.allocations + 1 } := by
  refine ⟨h.queue, h.nodup, fun c hc => Nat.lt_succ_of_lt (h.allocated c hc), fun b c hb => ?_,
    fun b d c hb hd => ?_,
    (Function.forall_update_iff s.place fun _ q => q.Allows s.circles s.taken s.deleted).mpr
      ⟨trivial, fun b _ => h.allows b⟩,
    fun hnone => h.settled (draws_update (by rw [hpoint]; rfl) hnone), fun c hc hdeleted => ?_,
    h.notFaulted⟩
  · obtain ⟨-, hc⟩ | ⟨-, hb⟩ := paints_update hb
    · cases hc
      exact ⟨Nat.lt_succ_self _, fun hc => Nat.lt_irrefl _ (h.allocated _ hc)⟩
    · exact ⟨Nat.lt_succ_of_lt (h.painted b c hb).1, (h.painted b c hb).2⟩
  · obtain ⟨hba, hcb⟩ | ⟨-, hb⟩ := paints_update hb <;>
      obtain ⟨hda, hcd⟩ | ⟨-, hd⟩ := paints_update hd
    · rw [hba, hda]
    · cases hcb
      exact absurd (h.painted d _ hd).1 (Nat.lt_irrefl _)
    · cases hcd
      exact absurd (h.painted b _ hb).1 (Nat.lt_irrefl _)
    · exact h.paintedOnce b d c hb hd
  · dsimp only
    by_cases hnew : c = s.allocations
    · rw [hnew, Function.update_self]
      rfl
    · rw [Function.update_of_ne hnew]
      refine h.memory c (hc.imp_right fun ⟨b, hb⟩ => ?_) hdeleted
      obtain ⟨-, hc⟩ | ⟨-, hb⟩ := paints_update hb
      · cases hc
        exact absurd rfl hnew
      · exact ⟨b, hb⟩

/-- `kernelTask` fills its circle. -/
theorem fill (h : s.Accounted) {c : CircleId} (hpoint : s.place a = .kernelFill c) (circle : Circle) :
    Accounted { s.setPlace a (.paintGet c) with
      heap := Function.update s.heap c ((s.heap c).map fun _ => circle)
      faulted := s.faulted || (s.heap c).isNone } := by
  have hc : (s.place a).paints = some c := by rw [hpoint]; rfl
  have hsome : (s.heap c).isSome :=
    h.memory c (.inr ⟨a, hc⟩) fun hd => (h.painted a c hc).2 (h.mem_added (h.mem_taken hd))
  have hmove : Accounted (s.setPlace a (.paintGet c)) :=
    h.setPlace (fun d hd => by rw [hpoint]; exact hd) (by rw [hpoint]; rfl) trivial
  refine { hmove with memory := fun d hd hdeleted => ?_, notFaulted := ?_ }
  · have hmem := hmove.memory d hd hdeleted
    dsimp only
    by_cases hdc : d = c
    · rw [hdc, Function.update_self, Option.isSome_map]
      exact hsome
    · rwa [Function.update_of_ne hdc]
  · simp only [h.notFaulted, Bool.false_or, Option.isNone_eq_false_iff]
    exact hsome

/-- `paintCircle` appends a circle that is nowhere else. -/
theorem add (h : s.Accounted) {c : CircleId} (hpoint : s.place a = .paintAdd c) :
    Accounted { s.setPlace a .paintFree with
      circles := s.circles ++ [c]
      added := s.added ++ [c] } := by
  have hc : (s.place a).paints = some c := by rw [hpoint]; rfl
  obtain ⟨hallocated, hnew⟩ := h.painted a c hc
  have hplace : ∀ b d, (Function.update s.place a .paintFree b).paints = some d →
      b ≠ a ∧ (s.place b).paints = some d := by
    intro b d hb
    obtain ⟨-, hd⟩ | hb := paints_update hb
    · cases hd
    · exact hb
  have hqueue : s.taken ++ (s.circles ++ [c]) = s.added ++ [c] := by
    rw [← h.queue, List.append_assoc]
  refine ⟨hqueue, ?_, fun d hd => ?_, fun b d hb => ?_,
    fun b e d hb he => h.paintedOnce b e d (hplace b d hb).2 (hplace e d he).2,
    (Function.forall_update_iff s.place fun _ q => q.Allows (s.circles ++ [c]) s.taken s.deleted).mpr
      ⟨trivial, fun b _ => ?_⟩,
    fun hnone => h.settled (draws_update (by rw [hpoint]; rfl) hnone),
    fun d hd hdeleted => h.memory d ?_ hdeleted, h.notFaulted⟩
  · exact List.nodup_append.mpr ⟨h.nodup, List.nodup_singleton c, fun d hd e he heq =>
      hnew (List.mem_singleton.mp he ▸ heq ▸ hd)⟩
  · obtain hd | hd := List.mem_append.mp hd
    · exact h.allocated d hd
    · rwa [List.mem_singleton.mp hd]
  · obtain ⟨hba, hpaints⟩ := hplace b d hb
    refine ⟨(h.painted b d hpaints).1, fun hd => ?_⟩
    obtain hd | hd := List.mem_append.mp hd
    · exact (h.painted b d hpaints).2 hd
    · rw [List.mem_singleton.mp hd] at hpaints
      exact hba (h.paintedOnce b a c hpaints hc)
  · -- an element at the end leaves the first one where it is
    have hallows := h.allows b
    cases hp : s.place b <;> rw [hp] at hallows <;> try exact hallows
    case screenRead => exact List.append_ne_nil_of_left_ne_nil hallows _
    case screenRemove d =>
      have hlt : 0 < s.circles.length := (List.getElem?_eq_some_iff.mp hallows).1
      rw [DrawPoint.Allows, List.getElem?_append_left hlt]
      exact hallows
  · obtain hd | ⟨b, hb⟩ := hd
    · obtain hd | hd := List.mem_append.mp hd
      · exact .inl hd
      · exact .inr ⟨a, by rw [hc, List.mem_singleton.mp hd]⟩
    · exact .inr ⟨b, (hplace b d hb).2⟩

/-- `screenTask` removes the circle that it has read. -/
theorem remove (h : s.Accounted) {c : CircleId} (hpoint : s.place a = .screenRemove c)
    (hquiet : ∀ b, b ≠ a → (s.place b).critical = true → (s.place b).entering = true) :
    Accounted { s.setPlace a (.screenDraw c) with
      circles := s.circles.eraseIdx 0
      taken := s.taken ++ [c] } := by
  have hfirst : s.circles[0]? = some c := by
    have hallows := h.allows a
    rwa [hpoint] at hallows
  obtain ⟨rest, hrest⟩ : ∃ rest, s.circles = c :: rest := by
    cases hcircles : s.circles with
    | nil =>
      rw [hcircles] at hfirst
      cases hfirst
    | cons d rest =>
      rw [hcircles] at hfirst
      cases hfirst
      exact ⟨rest, rfl⟩
  have hdraws : ∀ b, (s.place b).draws = none := by
    intro b
    by_cases hba : b = a
    · rw [hba, hpoint]
      rfl
    · have hb := hquiet b hba
      cases hp : s.place b <;> rw [hp] at hb <;> first | rfl | cases hb rfl
  have hplace : ∀ b d, (Function.update s.place a (.screenDraw c) b).paints = some d →
      (s.place b).paints = some d := by
    intro b d hb
    obtain ⟨-, hd⟩ | ⟨-, hb⟩ := paints_update hb
    · cases hd
    · exact hb
  have hqueue : s.taken ++ [c] ++ s.circles.eraseIdx 0 = s.added := by
    rw [← h.queue, hrest, List.append_assoc]
    rfl
  refine ⟨hqueue, h.nodup, h.allocated, fun b d hb => h.painted b d (hplace b d hb),
    fun b e d hb he => h.paintedOnce b e d (hplace b d hb) (hplace e d he),
    (Function.forall_update_iff s.place fun _ q =>
      q.Allows (s.circles.eraseIdx 0) (s.taken ++ [c]) s.deleted).mpr
      ⟨?_, fun b hba => allows_of_quiet (hquiet b hba)⟩,
    fun hnone => ?_, fun d hd => h.memory d (hd.imp_right fun ⟨b, hb⟩ => ⟨b, hplace b d hb⟩),
    h.notFaulted⟩
  · rw [DrawPoint.Allows, h.settled hdraws]
  · have ha := hnone a
    simp only [DrawState.setPlace, Function.update_self] at ha
    cases ha

/-- `screenTask` draws the circle. -/
theorem draw (h : s.Accounted) {c : CircleId} (hpoint : s.place a = .screenDraw c)
    (screen : List Circle) :
    Accounted { s.setPlace a (.screenDelete c) with
      screen := screen
      faulted := s.faulted || (s.heap c).isNone } := by
  have htaken : s.taken = s.deleted ++ [c] := by
    have hallows := h.allows a
    rwa [hpoint] at hallows
  have hmove : Accounted (s.setPlace a (.screenDelete c)) :=
    h.setPlace nofun (by rw [hpoint]; rfl) htaken
  refine { hmove with notFaulted := ?_ }
  simp only [h.notFaulted, Bool.false_or, Option.isNone_eq_false_iff]
  exact h.isSome_of_draws htaken

/-- `screenTask` deletes the circle: now all that were taken are deleted. -/
theorem delete (h : s.Accounted) {c : CircleId} (hpoint : s.place a = .screenDelete c)
    (hquiet : ∀ b, b ≠ a → (s.place b).critical = true → (s.place b).entering = true) :
    Accounted { s.setPlace a .screenFree with
      heap := Function.update s.heap c none
      deleted := s.deleted ++ [c]
      faulted := s.faulted || (s.heap c).isNone } := by
  have htaken : s.taken = s.deleted ++ [c] := by
    have hallows := h.allows a
    rwa [hpoint] at hallows
  have hplace : ∀ b d, (Function.update s.place a .screenFree b).paints = some d →
      (s.place b).paints = some d := by
    intro b d hb
    obtain ⟨-, hd⟩ | ⟨-, hb⟩ := paints_update hb
    · cases hd
    · exact hb
  refine ⟨h.queue, h.nodup, h.allocated, fun b d hb => h.painted b d (hplace b d hb),
    fun b e d hb he => h.paintedOnce b e d (hplace b d hb) (hplace e d he),
    (Function.forall_update_iff s.place fun _ q =>
      q.Allows s.circles s.taken (s.deleted ++ [c])).mpr
      ⟨trivial, fun b hba => allows_of_quiet (hquiet b hba)⟩,
    fun _ => htaken, fun d hd hdeleted => ?_, ?_⟩
  · have hdc : d ≠ c := by
      rintro rfl
      exact hdeleted (List.mem_append_right _ (List.mem_singleton_self d))
    dsimp only
    rw [Function.update_of_ne hdc]
    exact h.memory d (hd.imp_right fun ⟨b, hb⟩ => ⟨b, hplace b d hb⟩)
      fun hmem => hdeleted (List.mem_append_left _ hmem)
  · simp only [h.notFaulted, Bool.false_or, Option.isNone_eq_false_iff]
    exact h.isSome_of_draws htaken

end DrawState.Accounted

/-- A step of a task outside the calls on the lock. -/
theorem keeps_work {circle : Circle} (h : s.Guarded pid) (hc : s.Accounted)
    (houtside : s.fbLock.point a = .outside) (hs : s.work pid a circle = some s') :
    s'.Guarded pid ∧ s'.Accounted := by
  have hquiet : (s.place a).critical = true →
      ∀ b, b ≠ a → (s.place b).critical = true → (s.place b).entering = true :=
    fun ha b hne hb => h.alone houtside ha hne hb
  have hcall : ∀ {call q}, s.callLock pid a call q = some s' →
      (q.critical = true → call = .get ∧ q.entering = true) →
      (∀ c, q.paints = some c → (s.place a).paints = some c) → q.draws = (s.place a).draws →
      q.Allows s.circles s.taken s.deleted → s'.Guarded pid ∧ s'.Accounted := by
    intro call q hs hcritical hpaints hdraws hallows
    refine ⟨h.callLock hs hcritical, ?_⟩
    obtain ⟨l, -, rfl⟩ := Option.map_eq_some_iff.mp hs
    exact (hc.setPlace hpaints hdraws hallows).setLock l
  cases hpoint : s.place a with
  | kernelAlloc =>
    simp only [DrawState.work, hpoint] at hs
    cases hs
    exact ⟨(h.setPlace houtside fun hp => by cases hp).frame rfl rfl, hc.alloc hpoint circle⟩
  | kernelFill c =>
    simp only [DrawState.work, hpoint] at hs
    cases hs
    exact ⟨(h.setPlace houtside fun hp => by cases hp).frame rfl rfl, hc.fill hpoint circle⟩
  | paintGet c =>
    simp only [DrawState.work, hpoint] at hs
    exact hcall hs (fun _ => ⟨rfl, rfl⟩) (fun d hd => by rw [hpoint]; exact hd) (by rw [hpoint]; rfl)
      trivial
  | paintAdd c =>
    simp only [DrawState.work, hpoint] at hs
    cases hs
    exact ⟨(h.setPlace houtside fun _ => by rw [hpoint]; rfl).frame rfl rfl, hc.add hpoint⟩
  | paintFree =>
    simp only [DrawState.work, hpoint] at hs
    exact hcall hs nofun nofun (by rw [hpoint]; rfl) trivial
  | screenGet =>
    simp only [DrawState.work, hpoint] at hs
    exact hcall hs (fun _ => ⟨rfl, rfl⟩) nofun (by rw [hpoint]; rfl) trivial
  | screenSize =>
    simp only [DrawState.work, hpoint] at hs
    cases hs
    by_cases hsize : s.circles.length > 0
    · rw [if_pos hsize]
      exact ⟨h.setPlace houtside fun _ => by rw [hpoint]; rfl,
        hc.setPlace nofun (by rw [hpoint]; rfl) (List.ne_nil_of_length_pos hsize)⟩
    · rw [if_neg hsize]
      exact ⟨h.setPlace houtside fun _ => by rw [hpoint]; rfl,
        hc.setPlace nofun (by rw [hpoint]; rfl) trivial⟩
  | screenRead =>
    have hallows := hc.allows a
    rw [hpoint] at hallows
    obtain ⟨c, hfirst⟩ : ∃ c, s.circles[0]? = some c := by
      rw [← List.head?_eq_getElem?]
      exact Option.ne_none_iff_exists'.mp (mt List.head?_eq_none_iff.mp hallows)
    simp only [DrawState.work, hpoint, hfirst] at hs
    cases hs
    exact ⟨h.setPlace houtside fun _ => by rw [hpoint]; rfl,
      hc.setPlace nofun (by rw [hpoint]; rfl) hfirst⟩
  | screenRemove c =>
    simp only [DrawState.work, hpoint] at hs
    cases hs
    exact ⟨(h.setPlace houtside fun _ => by rw [hpoint]; rfl).frame rfl rfl,
      hc.remove hpoint (hquiet (by rw [hpoint]; rfl))⟩
  | screenDraw c =>
    simp only [DrawState.work, hpoint] at hs
    cases hs
    exact ⟨(h.setPlace houtside fun _ => by rw [hpoint]; rfl).frame rfl rfl, hc.draw hpoint _⟩
  | screenDelete c =>
    simp only [DrawState.work, hpoint] at hs
    cases hs
    exact ⟨(h.setPlace houtside fun _ => by rw [hpoint]; rfl).frame rfl rfl,
      hc.delete hpoint (hquiet (by rw [hpoint]; rfl))⟩
  | screenFree | screenFreeEmpty =>
    simp only [DrawState.work, hpoint] at hs
    exact hcall hs nofun nofun (by rw [hpoint]; rfl) trivial

theorem keeps_step {e : DrawEvent α} (h : s.Guarded pid) (hc : s.Accounted)
    (hs : drawStep pid s e = some s') : s'.Guarded pid ∧ s'.Accounted := by
  cases e with
  | task a exclusive current circle =>
    rw [drawStep] at hs
    by_cases houtside : s.fbLock.point a = .outside
    · rw [if_pos houtside] at hs
      exact keeps_work h hc houtside hs
    · rw [if_neg houtside] at hs
      obtain ⟨l, hl, rfl⟩ := Option.map_eq_some_iff.mp hs
      exact ⟨h.proceed houtside hl, hc.setLock l⟩
  | wakeUp a =>
    obtain ⟨l, hl, rfl⟩ := Option.map_eq_some_iff.mp hs
    refine ⟨⟨exclusive_step h.lock hl, ?_⟩, hc.setLock l⟩
    rw [lockStep, Option.ite_none_right_eq_some] at hl
    obtain ⟨-, hl⟩ := hl
    cases hl
    exact h.critical

theorem accounted_of_run (h₀ : s₀.Starting) (hrun : Run (drawStep pid) s₀ s) : s.Accounted := by
  have hkeeps : s.Guarded pid ∧ s.Accounted :=
    hrun.invariant (p := fun s => s.Guarded pid ∧ s.Accounted)
      ⟨⟨.of_fresh h₀.fbLock, fun a ha => by
        obtain hp | hp := h₀.place a <;> rw [hp] at ha <;> cases ha⟩, .of_starting h₀⟩
      fun _ _ _ h _ hs => keeps_step h.1 h.2 hs
  exact hkeeps.2

/-! ### Exactly once, in order -/

/-- The circles taken are a prefix of those added; a circle is deleted at most once, and is deleted
    once it has been taken and its task is done drawing it; no deleted circle is in the list; and
    nothing that is not in memory is read, written or deleted. -/
theorem circles_of_run (h₀ : s₀.Starting) (hrun : Run (drawStep pid) s₀ s) :
    s.taken <+: s.added ∧
      (∀ c, s.deleted.count c ≤ 1 ∧
        (s.deleted.count c = 1 ↔ c ∈ s.taken ∧ ∀ a, (s.place a).draws ≠ some c)) ∧
      (∀ c ∈ s.deleted, c ∉ s.circles) ∧ s.faulted = false := by
  have h := accounted_of_run h₀ hrun
  have hstart : s.taken <+: s.added := ⟨s.circles, h.queue⟩
  have htaken : s.taken.Nodup := h.nodup.sublist hstart.sublist
  obtain ⟨rest, hrest, hdraws⟩ : ∃ rest, s.taken = s.deleted ++ rest ∧
      ∀ c, c ∈ rest ↔ ∃ a, (s.place a).draws = some c := by
    by_cases hnone : ∀ a, (s.place a).draws = none
    · exact ⟨[], by rw [h.settled hnone, List.append_nil], by simp [hnone]⟩
    · push Not at hnone
      obtain ⟨a, ha⟩ := hnone
      obtain ⟨d, hd⟩ := Option.ne_none_iff_exists'.mp ha
      have hlast : ∀ b c, (s.place b).draws = some c → s.taken = s.deleted ++ [c] := by
        intro b c hb
        have hallows := h.allows b
        cases hp : s.place b <;> rw [hp] at hb hallows <;> cases hb <;> exact hallows
      refine ⟨[d], hlast a d hd, fun c => ?_⟩
      rw [List.mem_singleton]
      refine ⟨fun hcd => ⟨a, by rw [hcd, hd]⟩, fun ⟨b, hb⟩ => ?_⟩
      have hsame := (hlast b c hb).symm.trans (hlast a d hd)
      simpa using hsame
  have hdeleted : s.deleted.Nodup := htaken.sublist (List.IsPrefix.sublist ⟨rest, hrest.symm⟩)
  have hapart : ∀ c ∈ s.deleted, c ∉ rest := by
    rw [hrest, List.nodup_append] at htaken
    exact fun c hc hc' => htaken.2.2 c hc c hc' rfl
  refine ⟨hstart, fun c => ⟨List.nodup_iff_count_le_one.mp hdeleted c, ?_⟩, fun c hc hcircles => ?_,
    h.notFaulted⟩
  · constructor
    · intro hcount
      have hc : c ∈ s.deleted := List.count_pos_iff.mp (by omega)
      refine ⟨by rw [hrest]; exact List.mem_append_left _ hc, fun a ha => ?_⟩
      exact hapart c hc ((hdraws c).mpr ⟨a, ha⟩)
    · rintro ⟨hc, hnot⟩
      rw [hrest] at hc
      obtain hc | hc := List.mem_append.mp hc
      · exact List.count_eq_one_of_mem hdeleted hc
      · obtain ⟨a, ha⟩ := (hdraws c).mp hc
        exact absurd ha (hnot a)
  · have hnodup := h.nodup
    rw [← h.queue, List.nodup_append] at hnodup
    exact hnodup.2.2 c (h.mem_taken hc) c hcircles rfl

/-- A `kernelTask` and a `screenTask`. -/
def twoTasks : DrawState (Fin 2) where
  fbLock := freshLock
  place := fun a => if a = 0 then .kernelAlloc else .screenGet
  circles := []
  heap := fun _ => none
  allocations := 0
  screen := []
  added := []
  taken := []
  deleted := []
  faulted := false

theorem starting_twoTasks : twoTasks.Starting where
  fbLock := fresh_freshLock
  place := by decide
  circles := rfl
  added := rfl
  taken := rfl
  deleted := rfl
  notFaulted := rfl

/-- The screen task draws the first of two circles. -/
theorem circles_of_twoTasks : ∃ s : DrawState (Fin 2),
    Run (drawStep fun a => a.val + 1) twoTasks s ∧ s.added = [0, 1] ∧ s.deleted = [0] ∧
      s.taken <+: s.added := by
  let paint : DrawEvent (Fin 2) := .task 0 true 0 ⟨3, 10, 20, 0, 1⟩
  let draw : DrawEvent (Fin 2) := .task 1 true 1 ⟨0, 0, 0, 0, 0⟩
  obtain ⟨s, hrun, hs⟩ : ∃ s, Run (drawStep fun a : Fin 2 => a.val + 1) twoTasks s ∧
      (s.added == [0, 1] && s.deleted == [0]) = true :=
    RunWhere.exists_of_replay (List.replicate 20 paint ++ List.replicate 8 draw) (by decide)
  simp only [Bool.and_eq_true, beq_iff_eq] at hs
  exact ⟨s, hrun, hs.1, hs.2, (circles_of_run starting_twoTasks hrun).1⟩

end Rpi4Kernel.Sched
