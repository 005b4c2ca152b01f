/-
Module: Rpi4Kernel.Theory.ExclusiveMonitor
Layer: Theory
Purpose: One word of memory under load-exclusive and store-exclusive, with an exclusive monitor and an
  event register for each agent, for any agents and any values. A store-exclusive that succeeds replaces
  the value that the agent has loaded (`Linked`), and an agent that loads a value and then waits for an
  event is woken up by every change of the word (`Alerted`).
Trusted boundary: none (fully proved)
Main exports: MonitoredWord, Linked, Alerted, Linked.word_eq, Alerted.event_of_ne, Undisturbed
-/
import Mathlib.Data.Bool.Basic
import Mathlib.Logic.Function.Basic

namespace Rpi4Kernel.Theory

variable {α V : Type*}

/-- A word, the monitor that watches it for an agent, and whether an event is held for an agent. -/
structure MonitoredWord (α V : Type*) where
  word : V
  monitor : α → Bool
  event : α → Bool

namespace MonitoredWord

/-- Whether the store-exclusive of an agent writes the word: the agent still watches it, and the
    hardware lets it. -/
def succeeds (m : MonitoredWord α V) (a : α) (lets : Bool) : Bool :=
  m.monitor a && lets

variable [DecidableEq α]

/-- The agent loads the word and watches it from now on. -/
def loadExclusive (m : MonitoredWord α V) (a : α) : MonitoredWord α V :=
  { m with monitor := Function.update m.monitor a true }

/-- The word is written by an agent: nobody else watches it any longer, and whoever did is sent an
    event. -/
def store (m : MonitoredWord α V) (a : α) (v : V) : MonitoredWord α V where
  word := v
  monitor := fun b => if b = a then m.monitor b else false
  event := fun b => if b = a then m.event b else m.event b || m.monitor b

/-- A store-exclusive ends the watching of the agent. -/
def storeExclusive (m : MonitoredWord α V) (a : α) (v : V) (lets : Bool) : MonitoredWord α V :=
  if m.succeeds a lets then
    { m.store a v with monitor := fun _ => false }
  else
    { m with monitor := Function.update m.monitor a false }

/-- An event is sent to an agent. -/
def sendEvent (m : MonitoredWord α V) (a : α) : MonitoredWord α V :=
  { m with event := Function.update m.event a true }

/-- The agent has done something else: it watches the word no longer, and an event is held for it. -/
def resume (m : MonitoredWord α V) (a : α) : MonitoredWord α V :=
  { m with
    monitor := Function.update m.monitor a false
    event := Function.update m.event a true }

/-- The agent waits for an event, which is used up. -/
def waitForEvent (m : MonitoredWord α V) (a : α) : Option (MonitoredWord α V) :=
  if m.event a then some { m with event := Function.update m.event a false } else none

@[simp] theorem loadExclusive_word (m : MonitoredWord α V) (a : α) :
    (m.loadExclusive a).word = m.word :=
  rfl

@[simp] theorem store_word (m : MonitoredWord α V) (a : α) (v : V) : (m.store a v).word = v := rfl

@[simp] theorem sendEvent_word (m : MonitoredWord α V) (a : α) : (m.sendEvent a).word = m.word := rfl

@[simp] theorem resume_word (m : MonitoredWord α V) (a : α) : (m.resume a).word = m.word := rfl

theorem storeExclusive_word (m : MonitoredWord α V) (a : α) (v : V) (lets : Bool) :
    (m.storeExclusive a v lets).word = if m.succeeds a lets then v else m.word := by
  cases h : m.succeeds a lets <;> simp [storeExclusive, h]

end MonitoredWord

/-! ### What a load-exclusive has read -/

variable {m m' : MonitoredWord α V} {a b : α} {v w : V} {lets : Bool}

/-- As long as the agent watches the word, it is `v`. -/
def Linked (m : MonitoredWord α V) (a : α) (v : V) : Prop :=
  m.monitor a = true → m.word = v

namespace Linked

/-- A store-exclusive that succeeds replaces the value that has been loaded. -/
theorem word_eq (h : Linked m a v) (hs : m.succeeds a lets = true) : m.word = v := by
  apply h
  simp only [MonitoredWord.succeeds, Bool.and_eq_true] at hs
  exact hs.1

variable [DecidableEq α]

theorem sendEvent (h : Linked m a v) : Linked (m.sendEvent b) a v := h

theorem of_loadExclusive : Linked (m.loadExclusive a) a m.word :=
  fun _ => rfl

/-- After the word has been written by somebody else the agent does not watch it. -/
theorem of_store (hne : b ≠ a) : Linked (m.store b w) a v := by
  intro hmon
  simp [MonitoredWord.store, hne.symm] at hmon

theorem loadExclusive (h : Linked m a v) (hne : b ≠ a) : Linked (m.loadExclusive b) a v := by
  intro hmon
  apply h
  simpa [MonitoredWord.loadExclusive, hne.symm] using hmon

theorem storeExclusive (h : Linked m a v) (hne : b ≠ a) : Linked (m.storeExclusive b w lets) a v := by
  cases hs : m.succeeds b lets with
  | true =>
    intro hmon
    simp [MonitoredWord.storeExclusive, hs] at hmon
  | false =>
    intro hmon
    simp only [MonitoredWord.storeExclusive, hs, Bool.false_eq_true, if_false] at hmon ⊢
    apply h
    simpa [hne.symm] using hmon

theorem resume (h : Linked m a v) : Linked (m.resume b) a v := by
  intro hmon
  apply h
  cases decEq a b with
  | isTrue heq => simp [MonitoredWord.resume, heq] at hmon
  | isFalse hne => simpa [MonitoredWord.resume, hne] using hmon

theorem waitForEvent (h : Linked m a v) (hs : m.waitForEvent b = some m') : Linked m' a v := by
  simp only [MonitoredWord.waitForEvent, Option.ite_none_right_eq_some] at hs
  cases hs.2
  exact h

end Linked

/-! ### Waiting for a change of the word -/

/-- An event is held for the agent, or it watches the word, which is `v`. -/
def Alerted (m : MonitoredWord α V) (a : α) (v : V) : Prop :=
  m.event a = true ∨ m.monitor a = true ∧ m.word = v

namespace Alerted

/-- Once the word is another one, an event is held for the agent. -/
theorem event_of_ne (h : Alerted m a v) (hne : m.word ≠ v) : m.event a = true := by
  cases h with
  | inl hevent => exact hevent
  | inr hwatch => exact absurd hwatch.2 hne

variable [DecidableEq α]

theorem of_loadExclusive : Alerted (m.loadExclusive a) a m.word :=
  .inr ⟨by simp [MonitoredWord.loadExclusive], rfl⟩

theorem of_sendEvent : Alerted (m.sendEvent a) a v :=
  .inl (by simp [MonitoredWord.sendEvent])

theorem of_resume : Alerted (m.resume a) a v :=
  .inl (by simp [MonitoredWord.resume])

theorem loadExclusive (h : Alerted m a v) (hne : b ≠ a) : Alerted (m.loadExclusive b) a v := by
  cases h with
  | inl hevent => exact .inl hevent
  | inr hwatch =>
    right
    constructor
    · simpa [MonitoredWord.loadExclusive, hne.symm] using hwatch.1
    · exact hwatch.2

/-- The word is written by another agent: the watching ends with an event. -/
theorem store (h : Alerted m a v) (hne : b ≠ a) : Alerted (m.store b w) a v := by
  left
  cases h with
  | inl hevent => simp [MonitoredWord.store, hne.symm, hevent]
  | inr hwatch => simp [MonitoredWord.store, hne.symm, hwatch.1]

theorem storeExclusive (h : Alerted m a v) (hne : b ≠ a) :
    Alerted (m.storeExclusive b w lets) a v := by
  cases hs : m.succeeds b lets with
  | true =>
    left
    cases h with
    | inl hevent => simp [MonitoredWord.storeExclusive, MonitoredWord.store, hs, hne.symm, hevent]
    | inr hwatch => simp [MonitoredWord.storeExclusive, MonitoredWord.store, hs, hne.symm, hwatch.1]
  | false =>
    simp only [MonitoredWord.storeExclusive, hs, Bool.false_eq_true, if_false]
    cases h with
    | inl hevent => exact .inl hevent
    | inr hwatch =>
      right
      constructor
      · simpa [hne.symm] using hwatch.1
      · exact hwatch.2

theorem sendEvent (h : Alerted m a v) : Alerted (m.sendEvent b) a v := by
  cases h with
  | inl hevent =>
    left
    cases decEq a b with
    | isTrue heq => simp [MonitoredWord.sendEvent, heq]
    | isFalse hne => simpa [MonitoredWord.sendEvent, hne] using hevent
  | inr hwatch => exact .inr hwatch

/-- The watching ends with an event here too. -/
theorem resume (h : Alerted m a v) : Alerted (m.resume b) a v := by
  cases decEq b a with
  | isTrue heq =>
    rw [heq]
    exact of_resume
  | isFalse hne =>
    cases h with
    | inl hevent =>
      left
      simpa [MonitoredWord.resume, Ne.symm hne] using hevent
    | inr hwatch =>
      right
      constructor
      · simpa [MonitoredWord.resume, Ne.symm hne] using hwatch.1
      · exact hwatch.2

theorem waitForEvent (h : Alerted m a v) (hne : b ≠ a) (hs : m.waitForEvent b = some m') :
    Alerted m' a v := by
  simp only [MonitoredWord.waitForEvent, Option.ite_none_right_eq_some] at hs
  cases hs.2
  cases h with
  | inl hevent =>
    left
    simpa [hne.symm] using hevent
  | inr hwatch => exact .inr hwatch

end Alerted

/-! ### What the steps of the others keep -/

/-- What an agent knows of the word from one state is true in another one. -/
structure Undisturbed (m m' : MonitoredWord α V) (a : α) : Prop where
  linked : ∀ v, Linked m a v → Linked m' a v
  alerted : ∀ v, Alerted m a v → Alerted m' a v

namespace Undisturbed

theorem refl : Undisturbed m m a := ⟨fun _ h => h, fun _ h => h⟩

variable [DecidableEq α]

theorem loadExclusive (hne : b ≠ a) : Undisturbed m (m.loadExclusive b) a :=
  ⟨fun _ h => h.loadExclusive hne, fun _ h => h.loadExclusive hne⟩

theorem store (hne : b ≠ a) : Undisturbed m (m.store b w) a :=
  ⟨fun _ _ => .of_store hne, fun _ h => h.store hne⟩

theorem storeExclusive (hne : b ≠ a) : Undisturbed m (m.storeExclusive b w lets) a :=
  ⟨fun _ h => h.storeExclusive hne, fun _ h => h.storeExclusive hne⟩

theorem sendEvent : Undisturbed m (m.sendEvent b) a :=
  ⟨fun _ h => h.sendEvent, fun _ h => h.sendEvent⟩

theorem resume : Undisturbed m (m.resume b) a :=
  ⟨fun _ h => h.resume, fun _ h => h.resume⟩

theorem waitForEvent (hne : b ≠ a) (hs : m.waitForEvent b = some m') : Undisturbed m m' a :=
  ⟨fun _ h => h.waitForEvent hs, fun _ h => h.waitForEvent hne hs⟩

end Undisturbed

end Rpi4Kernel.Theory
