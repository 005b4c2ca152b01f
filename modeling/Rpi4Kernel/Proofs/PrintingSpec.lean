/-
Module: Rpi4Kernel.Proofs.PrintingSpec
Layer: Proofs
Purpose: The texts of `Console::print` under any number of agents. The calls take effect one after the
  other, in the order in which they take the lock: at any time the characters that `print` has stored
  are the texts of the calls in that order, less what the holder still has to write. `print_no_lock`
  takes no part in it: its characters come between those of `print` wherever they happen to.
Trusted boundary: none (fully proved)
Main exports: Serialised, Phase, PrintInv, printInv_step, print_atomic
-/
import Rpi4Kernel.Sched.Printing
import Rpi4Kernel.Proofs.ConsoleSpec
import Rpi4Kernel.Proofs.LockingSpec

namespace Rpi4Kernel.Sched

open Rpi4Kernel.Drivers Rpi4Kernel.Stdlib Rpi4Kernel.Theory

/-! ### What a call does -/

/-- Effects that only write. -/
def OnlyWrites (effects : List ConsoleEffect) : Prop := ∃ text : List Char, effects = text.map .write

theorem OnlyWrites.append {effects effects' : List ConsoleEffect} (h : OnlyWrites effects)
    (h' : OnlyWrites effects') : OnlyWrites (effects ++ effects') := by
  obtain ⟨text, rfl⟩ := h
  obtain ⟨text', rfl⟩ := h'
  exact ⟨text ++ text', List.map_append.symm⟩

theorem onlyWrites_padLoop (pad0 : Bool) (pad fuel p2 : Nat) :
    OnlyWrites (padLoop pad0 pad fuel p2) := by
  induction fuel generalizing p2 with
  | zero => exact ⟨[], rfl⟩
  | succ fuel ih =>
    rw [padLoop]
    split
    · exact OnlyWrites.append ⟨[_], rfl⟩ (ih (p2 + 1))
    · exact ⟨[], rfl⟩

theorem onlyWrites_writeString (conversion : Conversion) (p : List Char) :
    OnlyWrites (writeString conversion p) :=
  (onlyWrites_padLoop _ _ _ _).append ⟨p, rfl⟩

theorem onlyWrites_convert {strings : Slot → CString} {conversion : Conversion} {arg : Slot}
    {buf after : List Char} {effects : List ConsoleEffect}
    (h : convert strings conversion arg buf = some (effects, after)) : OnlyWrites effects := by
  rw [convert] at h
  split at h
  · obtain ⟨buf', -, h⟩ := Option.bind_eq_some_iff.mp h
    obtain ⟨p, -, h⟩ := Option.bind_eq_some_iff.mp h
    cases h
    exact onlyWrites_writeString _ _
  · split at h
    · cases h
      exact onlyWrites_writeString _ _
    · cases h
      exact ⟨[_], rfl⟩

theorem onlyWrites_printLoop {strings : Slot → CString} {args : Nat → Slot} {fuel i : Nat}
    {format : Option (List Char)} {buf : List Char} {effects : List ConsoleEffect}
    (h : printLoop strings args fuel format i buf = some effects) : OnlyWrites effects := by
  induction fuel generalizing format i buf effects with
  | zero => cases h
  | succ fuel ih =>
    rw [printLoop] at h
    obtain ⟨next, -, h⟩ := Option.bind_eq_some_iff.mp h
    cases next with
    | mk c format' =>
      simp only at h
      split at h
      · cases h
        exact ⟨[], rfl⟩
      · split at h
        · obtain ⟨rest, hrest, rfl⟩ := Option.map_eq_some_iff.mp h
          exact OnlyWrites.append ⟨[_], rfl⟩ (ih hrest)
        · obtain ⟨scanned, -, h⟩ := Option.bind_eq_some_iff.mp h
          obtain ⟨converted, hconvert, h⟩ := Option.bind_eq_some_iff.mp h
          obtain ⟨rest, hrest, rfl⟩ := Option.map_eq_some_iff.mp h
          exact (onlyWrites_convert hconvert).append (ih hrest)

/-- What a call of `print` does behind the call on the lock. -/
def body (text : List Char) : List ConsoleEffect := text.map .write ++ [.release]

section

variable {strings : Slot → CString} {format : CString} {args : Nat → Slot} {buf : Buffer 40}
  {effects : List ConsoleEffect}

/-- `print` takes the lock, writes and gives the lock back. -/
theorem print_eq (h : Drivers.print ⟨true, true⟩ strings format args buf = some effects) :
    ∃ text, effects = .spin :: body text := by
  obtain ⟨writes, hwrites, rfl⟩ := Option.map_eq_some_iff.mp h
  obtain ⟨text, rfl⟩ := onlyWrites_printLoop hwrites
  exact ⟨text, rfl⟩

theorem printNoLock_eq (h : Drivers.printNoLock ⟨true, true⟩ strings format args buf = some effects) :
    ∃ text : List Char, effects = text.map .write :=
  onlyWrites_printLoop h

end

/-! ### The order of the calls -/

variable {α : Type} {pid : α → Nat} {s s' s₀ : Printing α} {a b : α} {order : List (α × List Char)}

/-- The characters that `print` has stored. -/
def Printing.printed (s : Printing α) : List Char := (s.stores.filter (·.1)).map (·.2)

/-- The text of a call of `print` that waits for the lock. -/
def PrintCall.pending (call : PrintCall) (holds : Bool) : List (List Char) :=
  if call.locks && !holds && !call.left.isEmpty then [written call.left] else []

variable [DecidableEq α]

/-- The texts of an agent in an order of calls. -/
def textsOf (order : List (α × List Char)) (a : α) : List (List Char) :=
  (order.filter (·.1 = a)).map (·.2)

/-- `order` lists the calls of `print` that have taken the lock: the characters stored are those of
    the calls in this order, but for what the holder still has to write, and every agent's calls come
    in its own order. -/
structure Serialised (order : List (α × List Char)) (s : Printing α) : Prop where
  owes : ∀ a, s.lock.holds a = true → s.printed ++ written (s.agent a).left = order.flatMap (·.2)
  whole : (∀ a, s.lock.holds a = false) → s.printed = order.flatMap (·.2)
  each : ∀ a, textsOf order a ++ (s.agent a).pending (s.lock.holds a) = (s.agent a).calls.map written

/-- Where an agent stands, whether it holds the lock, and what is left of its call. -/
inductive Phase : LockPoint → Bool → PrintCall → Prop where
  | idle (ready locks : Bool) (calls : List (List ConsoleEffect)) :
      Phase .outside false ⟨[], ready, locks, calls⟩
  | unlocked (text : List Char) (ready : Bool) (calls : List (List ConsoleEffect)) :
      Phase .outside false ⟨text.map .write, ready, false, calls⟩
  | called (text : List Char) (ready : Bool) (calls : List (List ConsoleEffect)) :
      Phase .outside false ⟨.spin :: body text, ready, true, calls⟩
  | spinning (text : List Char) (ready : Bool) (calls : List (List ConsoleEffect)) :
      Phase .spinLock false ⟨body text, ready, true, calls⟩
  | storing (text : List Char) (ready : Bool) (calls : List (List ConsoleEffect)) :
      Phase .spinOwner true ⟨body text, ready, true, calls⟩
  | writing (text : List Char) (ready : Bool) (calls : List (List ConsoleEffect)) :
      Phase .outside true ⟨body text, ready, true, calls⟩
  | resetting (ready : Bool) (calls : List (List ConsoleEffect)) :
      Phase (.releaseOwner false) true ⟨[], ready, true, calls⟩
  | unlocking (ready : Bool) (calls : List (List ConsoleEffect)) :
      Phase (.releaseUnlock false) true ⟨[], ready, true, calls⟩

/-- What every step keeps. -/
structure PrintInv (pid : α → Nat) (order : List (α × List Char)) (s : Printing α) : Prop where
  exclusive : Exclusive pid s.lock
  phase : ∀ a, Phase (s.lock.point a) (s.lock.holds a) (s.agent a)
  serialised : Serialised order s

theorem PrintInv.of_fresh (h : s.Fresh) : PrintInv pid [] s where
  exclusive := .of_fresh h.lock
  phase a := by
    have hleft := h.idle a
    rw [h.lock.outside a, h.lock.notHeld a]
    cases hcall : s.agent a with
    | mk left ready locks calls =>
      rw [hcall] at hleft
      cases hleft
      exact .idle ready locks calls
  serialised := by
    have hprinted : s.printed = [] := by rw [Printing.printed, h.noStores]; rfl
    constructor
    · intro a ha
      rw [h.lock.notHeld a] at ha
      cases ha
    · intro _
      exact hprinted
    · intro a
      rw [PrintCall.pending, h.idle a, h.notCalled a]
      simp [textsOf]

/-- A step of agent `a` alone: it goes on at `point` with `call`, and holds the lock or not. -/
structure Moves (s s' : Printing α) (a : α) (point : LockPoint) (holds : Bool) (call : PrintCall) :
    Prop where
  point : s'.lock.point = Function.update s.lock.point a point
  holds : s'.lock.holds = Function.update s.lock.holds a holds
  agent : s'.agent = Function.update s.agent a call

namespace Moves

variable {point : LockPoint} {holds : Bool} {call : PrintCall}

theorem point_self (h : Moves s s' a point holds call) : s'.lock.point a = point := by
  rw [h.point, Function.update_self]

theorem holds_self (h : Moves s s' a point holds call) : s'.lock.holds a = holds := by
  rw [h.holds, Function.update_self]

theorem agent_self (h : Moves s s' a point holds call) : s'.agent a = call := by
  rw [h.agent, Function.update_self]

theorem holds_ne (h : Moves s s' a point holds call) (hne : b ≠ a) :
    s'.lock.holds b = s.lock.holds b := by
  rw [h.holds, Function.update_of_ne hne]

theorem agent_ne (h : Moves s s' a point holds call) (hne : b ≠ a) : s'.agent b = s.agent b := by
  rw [h.agent, Function.update_of_ne hne]

theorem phase (h : Moves s s' a point holds call) (hphase : Phase point holds call)
    (hall : ∀ b, Phase (s.lock.point b) (s.lock.holds b) (s.agent b)) (b : α) :
    Phase (s'.lock.point b) (s'.lock.holds b) (s'.agent b) := by
  cases eq_or_ne b a with
  | inl heq =>
    rw [heq, h.point_self, h.holds_self, h.agent_self]
    exact hphase
  | inr hne =>
    rw [h.point, Function.update_of_ne hne, h.holds_ne hne, h.agent_ne hne]
    exact hall b

/-- The holder, or an agent that does not hold the lock, goes on and stays what it is. -/
theorem serialised (h : Moves s s' a point holds call) (hs : Serialised order s)
    (hunique : ∀ b, s.lock.holds a = true → s.lock.holds b = true → a = b)
    (hholds : s.lock.holds a = holds) (hfree : holds = false → s'.printed = s.printed)
    (hheld : holds = true → s'.printed ++ written call.left = s.printed ++ written (s.agent a).left)
    (hcalls : ∃ new : List (List ConsoleEffect), call.calls = (s.agent a).calls ++ new ∧
      call.pending holds = (s.agent a).pending holds ++ new.map written) :
    Serialised order s' := by
  have hsame : s'.lock.holds = s.lock.holds := by
    rw [h.holds, ← hholds, Function.update_eq_self]
  constructor
  · intro b hb
    rw [hsame] at hb
    cases eq_or_ne b a with
    | inl heq =>
      subst heq
      rw [h.agent_self, hheld (hholds.symm.trans hb)]
      exact hs.owes b hb
    | inr hne =>
      have hnot : holds = false := by
        rw [← hholds]
        exact Bool.eq_false_iff.mpr fun ha => hne (hunique b ha hb).symm
      rw [h.agent_ne hne, hfree hnot]
      exact hs.owes b hb
  · intro hnone
    rw [hsame] at hnone
    rw [hfree (hholds.symm.trans (hnone a))]
    exact hs.whole hnone
  · intro b
    rw [hsame]
    cases eq_or_ne b a with
    | inl heq =>
      subst heq
      obtain ⟨new, hcalls, hpending⟩ := hcalls
      rw [h.agent_self, hcalls, hholds, hpending, List.map_append, ← List.append_assoc,
        ← hs.each b, hholds]
    | inr hne =>
      rw [h.agent_ne hne]
      exact hs.each b

/-- An agent takes the lock: its text is the next one. -/
theorem serialised_acquire (h : Moves s s' a point true call) (hs : Serialised order s)
    (hnone : ∀ b, s.lock.holds b = false) (hstores : s'.stores = s.stores) (hcall : call = s.agent a)
    (hpending : call.pending false = [written call.left]) :
    Serialised (order ++ [(a, written call.left)]) s' := by
  have hprinted : s'.printed = s.printed := by rw [Printing.printed, hstores]; rfl
  constructor
  · intro b hb
    cases eq_or_ne b a with
    | inl heq =>
      subst heq
      rw [h.agent_self, hprinted, hs.whole hnone, List.flatMap_append, List.flatMap_singleton]
    | inr hne =>
      rw [h.holds_ne hne, hnone b] at hb
      cases hb
  · intro hfree
    have hheld := hfree a
    rw [h.holds_self] at hheld
    cases hheld
  · intro b
    have heach := hs.each b
    rw [hnone b] at heach
    cases eq_or_ne b a with
    | inl heq =>
      subst heq
      rw [← hcall, hpending] at heach
      rw [h.agent_self, h.holds_self, ← heach, textsOf, List.filter_append, List.map_append]
      simp [textsOf, PrintCall.pending]
    | inr hne =>
      rw [h.agent_ne hne, h.holds_ne hne, hnone b, ← heach, textsOf, List.filter_append,
        List.map_append]
      simp [textsOf, hne.symm]

/-- The holder, which has written its text, gives the lock back. -/
theorem serialised_unlock (h : Moves s s' a point false call) (hs : Serialised order s)
    (hunique : ∀ b, s.lock.holds b = true → b = a) (hheld : s.lock.holds a = true)
    (hstores : s'.stores = s.stores) (hcall : call = s.agent a) (hleft : call.left = []) :
    Serialised order s' := by
  have hprinted : s'.printed = order.flatMap (·.2) := by
    have howes := hs.owes a hheld
    rw [← hcall, hleft] at howes
    rw [← howes, Printing.printed, hstores]
    exact (List.append_nil _).symm
  constructor
  · intro b hb
    cases eq_or_ne b a with
    | inl heq =>
      rw [heq, h.holds_self] at hb
      cases hb
    | inr hne =>
      rw [h.holds_ne hne] at hb
      exact absurd (hunique b hb) hne
  · intro _
    exact hprinted
  · intro b
    have heach := hs.each b
    cases eq_or_ne b a with
    | inl heq =>
      subst heq
      rw [← hcall] at heach
      rw [h.agent_self, h.holds_self, ← heach]
      simp [PrintCall.pending, hleft]
    | inr hne =>
      rw [h.agent_ne hne, h.holds_ne hne]
      exact heach

end Moves

/-! ### The steps -/

namespace PrintInv

/-- An agent in no call enters one. -/
theorem enters {call : PrintCall} (h : PrintInv pid order s) (effects : List (List ConsoleEffect))
    (hleft : (s.agent a).left = []) (hpoint : s.lock.point a = .outside)
    (hphase : Phase .outside false call)
    (hcalls : call.calls = (s.agent a).calls ++ effects)
    (hpending : call.pending false = effects.map written) : PrintInv pid order (s.setAgent a call) := by
  have hfree : s.lock.holds a = false := by
    have hat := h.phase a
    rw [hpoint] at hat
    generalize s.lock.holds a = holds at hat ⊢
    generalize s.agent a = call at hat hleft
    cases hat with
    | idle | unlocked | called => rfl
    | writing text => cases text <;> cases hleft
  have hmoves : Moves s (s.setAgent a call) a .outside false call := by
    constructor
    · rw [← hpoint]
      exact (Function.update_eq_self a _).symm
    · rw [← hfree]
      exact (Function.update_eq_self a _).symm
    · rfl
  constructor
  · exact h.exclusive
  · exact hmoves.phase hphase h.phase
  · apply hmoves.serialised h.serialised (h.exclusive.unique a) hfree (fun _ => rfl)
      (by intro hholds; cases hholds)
    refine ⟨effects, hcalls, ?_⟩
    rw [hpending, PrintCall.pending, hleft]
    simp

/-- An agent goes on with what is left of its call, and neither stores nor takes the lock. -/
theorem goes {p : LockPoint} {holds : Bool} {call : PrintCall} (h : PrintInv pid order s)
    (hmoves : Moves s s' a p holds call) (hexclusive : Exclusive pid s'.lock)
    (hphase : Phase p holds call) (hholds : s.lock.holds a = holds) (hstores : s'.stores = s.stores)
    (hcalls : call.calls = (s.agent a).calls) (hwritten : written call.left = written (s.agent a).left)
    (hpending : call.pending holds = (s.agent a).pending holds) : PrintInv pid order s' := by
  have hprinted : s'.printed = s.printed := by rw [Printing.printed, hstores]; rfl
  constructor
  · exact hexclusive
  · exact hmoves.phase hphase h.phase
  · apply hmoves.serialised h.serialised (h.exclusive.unique a) hholds
    · intro _
      exact hprinted
    · intro _
      rw [hprinted, hwritten]
    · exact ⟨[], by rw [hcalls, List.append_nil], by rw [hpending]; simp⟩

/-- `writeByteBlockingActual` of the next character. -/
theorem writes {c : Char} {rest : List ConsoleEffect} {ready locks : Bool}
    {calls : List (List ConsoleEffect)}
    {holds : Bool} {lsr : Nat} (h : PrintInv pid order s)
    (hagent : s.agent a = ⟨.write c :: rest, ready, locks, calls⟩) (hpoint : s.lock.point a = .outside)
    (hholds : s.lock.holds a = holds) (hlocks : locks = holds)
    (hphase : ∀ ready, Phase .outside holds ⟨.write c :: rest, ready, locks, calls⟩)
    (hrest : Phase .outside holds ⟨rest, false, locks, calls⟩) :
    PrintInv pid order (s.write a c rest lsr) := by
  have hpending : ∀ call : PrintCall, call.locks = locks → call.pending holds = [] := by
    intro call hcall
    rw [PrintCall.pending, hcall, hlocks]
    simp
  have hmoves : ∀ call stores, Moves s { s.setAgent a call with stores := stores } a .outside holds
      call := by
    intro call stores
    constructor
    · rw [← hpoint]
      exact (Function.update_eq_self a _).symm
    · rw [← hholds]
      exact (Function.update_eq_self a _).symm
    · rfl
  rw [Printing.write, hagent]
  cases ready with
  | false =>
    exact h.goes (hmoves _ _) h.exclusive (hphase _) hholds rfl (by rw [hagent]) (by rw [hagent])
      (by rw [hpending _ rfl, hagent, hpending _ rfl])
  | true =>
    have hprinted : ∀ call, Printing.printed
      { s.setAgent a call with stores := s.stores ++ [(locks, c)] } =
        s.printed ++ if locks then [c] else [] := by
      intro call
      rw [Printing.printed, List.filter_append, List.map_append, Printing.printed]
      cases locks <;> rfl
    constructor
    · exact h.exclusive
    · exact (hmoves _ _).phase hrest h.phase
    · apply (hmoves _ _).serialised h.serialised (h.exclusive.unique a) hholds
      · intro hfree
        rw [hprinted, hlocks, hfree]
        exact List.append_nil _
      · intro hheld
        rw [hprinted, hlocks, hheld, hagent, if_pos rfl, List.append_assoc]
        rfl
      · refine ⟨[], ?_, ?_⟩
        · rw [hagent, List.append_nil]
        · rw [hpending _ rfl, hagent, hpending _ rfl]
          rfl

/-- An agent that spins takes the lock, or goes on spinning. -/
theorem spins {text : List Char} {ready exclusive : Bool} {calls : List (List ConsoleEffect)}
    {l : LockState α} (h : PrintInv pid order s) (hpoint : s.lock.point a = .spinLock)
    (hagent : s.agent a = ⟨body text, ready, true, calls⟩)
    (hs : s.lock.proceed pid a exclusive current = some l) :
    ∃ later, PrintInv pid (order ++ later) { s with lock := l } := by
  have hexclusive := h.exclusive.proceed hs
  simp only [LockState.proceed, hpoint] at hs
  split at hs
  case isTrue hfree =>
    cases hs
    have hmoves : Moves s { s with lock := s.lock.acquire a .spinOwner } a .spinOwner true
        ⟨body text, ready, true, calls⟩ := by
      constructor
      · rfl
      · rfl
      · rw [← hagent]
        exact (Function.update_eq_self a _).symm
    have hnone : ∀ b, s.lock.holds b = false := by
      intro b
      apply Bool.eq_false_iff.mpr
      intro hb
      have hlocked := h.exclusive.locked_iff.mpr ⟨b, hb⟩
      rw [hlocked] at hfree
      cases hfree
    refine ⟨[(a, written (body text))], hexclusive, hmoves.phase (.storing text ready calls) h.phase,
      ?_⟩
    apply hmoves.serialised_acquire h.serialised hnone rfl hagent.symm
    cases text <;> rfl
  case isFalse =>
    cases hs
    exact ⟨[], by rw [List.append_nil]; exact h⟩

/-- A step inside a call on the lock. -/
theorem proceed {exclusive : Bool} {l : LockState α} (h : PrintInv pid order s)
    (hpoint : s.lock.point a ≠ .outside) (hs : s.lock.proceed pid a exclusive current = some l) :
    ∃ later, PrintInv pid (order ++ later) { s with lock := l } := by
  have hexclusive := h.exclusive.proceed hs
  have hat := h.phase a
  generalize hp : s.lock.point a = point at hat
  generalize hholds : s.lock.holds a = holds at hat
  generalize hagent : s.agent a = call at hat
  have hsame : s.agent = Function.update s.agent a call := by
    rw [← hagent]
    exact (Function.update_eq_self a _).symm
  have hkept : s.lock.holds = Function.update s.lock.holds a holds := by
    rw [← hholds]
    exact (Function.update_eq_self a _).symm
  cases hat with
  | idle | unlocked | called | writing => exact absurd hp hpoint
  | spinning text ready calls => exact h.spins hp hagent hs
  | storing text ready calls =>
    simp only [LockState.proceed, hp] at hs
    cases hs
    refine ⟨[], ?_⟩
    rw [List.append_nil]
    exact h.goes (p := .outside) ⟨rfl, hkept, hsame⟩ hexclusive (.writing text ready calls) hholds rfl
      (by rw [hagent]) (by rw [hagent]) (by rw [hagent])
  | resetting ready calls =>
    simp only [LockState.proceed, hp] at hs
    cases hs
    refine ⟨[], ?_⟩
    rw [List.append_nil]
    exact h.goes (p := .releaseUnlock false) ⟨rfl, hkept, hsame⟩ hexclusive
      (.unlocking ready calls) hholds
      rfl (by rw [hagent]) (by rw [hagent]) (by rw [hagent])
  | unlocking ready calls =>
    simp only [LockState.proceed, hp] at hs
    cases hs
    have hmoves : Moves s { s with lock := { s.lock.setPoint a .outside with
        lock := { s.lock.lock with locked := false }
        holds := Function.update s.lock.holds a false } } a .outside false ⟨[], ready, true, calls⟩ :=
      ⟨rfl, rfl, hsame⟩
    refine ⟨[], hexclusive, hmoves.phase (.idle ready true calls) h.phase, ?_⟩
    rw [List.append_nil]
    exact hmoves.serialised_unlock h.serialised (fun b hb => h.exclusive.unique b a hb hholds)
      hholds rfl
      hagent.symm rfl

/-- A step outside of the calls on the lock. -/
theorem next {lsr : Nat} (h : PrintInv pid order s) (hpoint : s.lock.point a = .outside)
    (hs : s.next a lsr = some s') : PrintInv pid order s' := by
  have hat := h.phase a
  rw [hpoint] at hat
  generalize hholds : s.lock.holds a = holds at hat
  generalize hagent : s.agent a = call at hat
  have hkept : s.lock.holds = Function.update s.lock.holds a holds := by
    rw [← hholds]
    exact (Function.update_eq_self a _).symm
  cases hat with
  | idle ready locks calls =>
    simp only [Printing.next, hagent] at hs
    cases hs
  | unlocked text ready calls =>
    cases text with
    | nil =>
      simp only [Printing.next, hagent, List.map_nil] at hs
      cases hs
    | cons c text =>
      simp only [Printing.next, hagent, List.map_cons] at hs
      cases hs
      exact h.writes hagent hpoint hholds rfl (fun ready => .unlocked (c :: text) ready calls)
        (.unlocked text false calls)
  | called text ready calls =>
    simp only [Printing.next, hagent, LockState.enter, Option.map_some] at hs
    cases hs
    have henter : s.lock.enter a .spin = some (s.lock.setPoint a .spinLock) := rfl
    exact h.goes (p := .spinLock) ⟨rfl, hkept, rfl⟩ (h.exclusive.enter hpoint henter)
      (.spinning text ready calls) hholds rfl (by rw [hagent]) (by rw [hagent]; rfl)
      (by rw [hagent]; cases text <;> rfl)
  | writing text ready calls =>
    cases text with
    | nil =>
      have henter : s.lock.enter a .release = some (s.lock.setPoint a (.releaseOwner false)) := by
        rw [LockState.enter, if_pos hholds]
      simp only [Printing.next, hagent, body, List.map_nil, List.nil_append, henter,
        Option.map_some] at hs
      cases hs
      exact h.goes (p := .releaseOwner false) ⟨rfl, hkept, rfl⟩ (h.exclusive.enter hpoint henter)
        (.resetting ready calls) hholds rfl (by rw [hagent]) (by rw [hagent]; rfl) (by rw [hagent]; rfl)
    | cons c text =>
      simp only [Printing.next, hagent, body, List.map_cons, List.cons_append] at hs
      cases hs
      exact h.writes hagent hpoint hholds rfl (fun ready => .writing (c :: text) ready calls)
        (.writing text false calls)

end PrintInv

variable {strings : Slot → CString}

theorem printInv_step {e : PrintEvent α} (h : PrintInv pid order s)
    (hs : printStep pid strings s e = some s') : ∃ later, PrintInv pid (order ++ later) s' := by
  cases e with
  | print a format args buf =>
    simp only [printStep, Option.ite_none_right_eq_some] at hs
    obtain ⟨⟨hleft, hpoint⟩, hs⟩ := hs
    obtain ⟨effects, heffects, rfl⟩ := Option.map_eq_some_iff.mp hs
    obtain ⟨text, rfl⟩ := print_eq heffects
    refine ⟨[], ?_⟩
    rw [List.append_nil]
    exact h.enters _ hleft hpoint (.called text _ _) rfl rfl
  | printNoLock a format args buf =>
    simp only [printStep, Option.ite_none_right_eq_some] at hs
    obtain ⟨⟨hleft, hpoint⟩, hs⟩ := hs
    obtain ⟨effects, heffects, rfl⟩ := Option.map_eq_some_iff.mp hs
    obtain ⟨text, rfl⟩ := printNoLock_eq heffects
    refine ⟨[], ?_⟩
    rw [List.append_nil]
    exact h.enters [] hleft hpoint (.unlocked text _ _) (List.append_nil _).symm rfl
  | proceed a exclusive current lsr =>
    simp only [printStep] at hs
    split at hs
    case isTrue hpoint => exact ⟨[], by rw [List.append_nil]; exact h.next hpoint hs⟩
    case isFalse hpoint =>
      obtain ⟨l, hl, rfl⟩ := Option.map_eq_some_iff.mp hs
      exact h.proceed hpoint hl

theorem printInv_of_run (h : PrintInv pid order s) (hrun : Run (printStep pid strings) s s') :
    ∃ later, PrintInv pid (order ++ later) s' := by
  apply hrun.invariant (p := fun s' => ∃ later, PrintInv pid (order ++ later) s')
  · exact ⟨[], by rw [List.append_nil]; exact h⟩
  · rintro s₁ e s₂ ⟨later, h₁⟩ - hs
    obtain ⟨more, h₂⟩ := printInv_step h₁ hs
    exact ⟨later ++ more, by rw [← List.append_assoc]; exact h₂⟩

/-- The calls of `print` take effect one after the other: in every state reached the characters that
    they have stored are their texts in one order, with nothing in between, but for what the agent
    with the lock has still to write. A call that is over in one state comes before those that begin
    later. -/
theorem print_atomic (h₀ : s₀.Fresh) (hrun : Run (printStep pid strings) s₀ s)
    (hlater : Run (printStep pid strings) s s') :
    ∃ order later, Serialised order s ∧ Serialised (order ++ later) s' := by
  obtain ⟨order, h⟩ := printInv_of_run (.of_fresh h₀) hrun
  obtain ⟨later, h'⟩ := printInv_of_run h hlater
  exact ⟨_, later, h.serialised, h'.serialised⟩

/-- The console of two agents that have not called yet. -/
def freshPrinting : Printing Bool where
  lock := ⟨⟨false, 0⟩, fun _ => .outside, fun _ => false, fun _ => false, false, none⟩
  agent := fun _ => ⟨[], false, false, []⟩
  stores := []

theorem fresh_freshPrinting : freshPrinting.Fresh :=
  ⟨⟨rfl, fun _ => rfl, fun _ => rfl, rfl, rfl⟩, fun _ => rfl, fun _ => rfl, rfl⟩

/-- One agent prints two characters while the other prints one without the lock, and spins then. -/
def contendedPrints : List (PrintEvent Bool) :=
  [.print false ⟨['a', 'b'], by decide⟩ (fun _ => 0) ⟨List.replicate 40 '?', rfl⟩,
    .proceed false true false 0, .proceed false true false 0, .proceed false true false 0,
      .proceed false true false 0x20,
    .proceed false true false 0,
    .printNoLock true ⟨['x'], by decide⟩ (fun _ => 0) ⟨List.replicate 40 '?', rfl⟩,
    .proceed true true true 0x20, .proceed true true true 0,
    .print true ⟨['c'], by decide⟩ (fun _ => 0) ⟨List.replicate 40 '?', rfl⟩,
    .proceed true true true 0, .proceed true true true 0,
    .proceed false true false 0, .proceed false true false 0x20, .proceed false true false 0,
    .proceed false true false 0, .proceed false true false 0, .proceed false true false 0,
    .proceed true true true 0, .proceed true true true 0, .proceed true true true 0x20,
      .proceed true true true 0]

theorem print_atomic_contended : ∃ s : Printing Bool,
    s.stores.map (·.2) = ['a', 'x', 'b', 'c'] ∧ s.printed = ['a', 'b', 'c'] ∧
      ∃ order, Serialised order s := by
  obtain ⟨s, hrun, hs⟩ : ∃ s, Run (printStep (fun a : Bool => a.toNat) fun _ => ⟨[], List.not_mem_nil⟩)
      freshPrinting s ∧
      (decide (s.stores.map (·.2) = ['a', 'x', 'b', 'c']) && decide (s.printed = ['a', 'b', 'c'])) =
        true :=
    RunWhere.exists_of_replay contendedPrints (by decide +kernel)
  simp only [Bool.and_eq_true, decide_eq_true_eq] at hs
  obtain ⟨order, -, h, -⟩ := print_atomic fresh_freshPrinting hrun .start
  exact ⟨s, hs.1, hs.2, order, h⟩

end Rpi4Kernel.Sched
