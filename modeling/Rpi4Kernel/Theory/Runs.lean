/-
Module: Rpi4Kernel.Theory.Runs
Layer: Theory
Purpose: Runs of a labelled transition system all of whose steps meet a condition. What holds at the
  start and is kept by every step that meets the condition holds in every state reached; a list of
  labels that can be replayed is a run.
Trusted boundary: none (fully proved)
Main exports: RunWhere, Run, RunWhere.invariant, RunWhere.invariant_of, replay,
  RunWhere.of_replay, replay_rank
-/
import Mathlib.Data.Option.Basic

namespace Rpi4Kernel.Theory

variable {σ ε : Type*} {step : σ → ε → Option σ} {ok ok' : σ → ε → Bool} {p q : σ → Prop} {s₀ s s' : σ}

/-- The states that runs from `s₀` reach, all of whose steps meet `ok`. -/
inductive RunWhere (step : σ → ε → Option σ) (ok : σ → ε → Bool) (s₀ : σ) : σ → Prop where
  | start : RunWhere step ok s₀ s₀
  | next {s s' : σ} {e : ε} (before : RunWhere step ok s₀ s) (meets : ok s e = true)
      (steps : step s e = some s') : RunWhere step ok s₀ s'

/-- The states that runs from `s₀` reach. -/
abbrev Run (step : σ → ε → Option σ) (s₀ : σ) : σ → Prop := RunWhere step (fun _ _ => true) s₀

namespace RunWhere

/-- The induction over runs. -/
theorem invariant (h : RunWhere step ok s₀ s) (hstart : p s₀)
    (hstep : ∀ s e s', p s → ok s e = true → step s e = some s' → p s') : p s := by
  induction h with
  | start => exact hstart
  | next _ meets steps ih => exact hstep _ _ _ ih meets steps

/-- An invariant may be used to keep another one. -/
theorem invariant_of (h : RunWhere step ok s₀ s) (hp : ∀ s, RunWhere step ok s₀ s → p s)
    (hstart : q s₀)
    (hstep : ∀ s e s', p s → q s → ok s e = true → step s e = some s' → q s') : q s := by
  induction h with
  | start => exact hstart
  | next before meets steps ih => exact hstep _ _ _ (hp _ before) ih meets steps

/-- A condition may be exchanged for one that it implies wherever an invariant holds. -/
theorem mono_of (h : RunWhere step ok s₀ s) (hp : ∀ s, RunWhere step ok s₀ s → p s)
    (hok : ∀ s e, p s → ok s e = true → ok' s e = true) : RunWhere step ok' s₀ s := by
  induction h with
  | start => exact .start
  | next before meets steps ih => exact .next ih (hok _ _ (hp _ before) meets) steps

theorem mono (h : RunWhere step ok s₀ s) (hok : ∀ s e, ok s e = true → ok' s e = true) :
    RunWhere step ok' s₀ s :=
  h.mono_of (p := fun _ => True) (fun _ _ => trivial) fun s e _ => hok s e

end RunWhere

/-- Take the steps with the given labels, as long as they meet the condition. -/
def replay (step : σ → ε → Option σ) (ok : σ → ε → Bool) (s : σ) : List ε → Option σ
  | [] => some s
  | e :: es => if ok s e then (step s e).bind fun s' => replay step ok s' es else none

theorem RunWhere.of_replay {es : List ε} (hs : RunWhere step ok s₀ s)
    (h : replay step ok s es = some s') : RunWhere step ok s₀ s' := by
  induction es generalizing s with
  | nil =>
    cases h
    exact hs
  | cons e es ih =>
    rw [replay] at h
    split at h
    case isTrue meets =>
      obtain ⟨s₁, hs₁, h₁⟩ := Option.bind_eq_some_iff.mp h
      exact ih (hs.next meets hs₁) h₁
    case isFalse => cases h

/-- A number that the counted labels decrease by one, and that the others keep. -/
theorem replay_rank {p : Nat → σ → Prop} {b : ε → Bool}
    (hstep : ∀ r s e s', p r s → ok s e = true → step s e = some s' →
      ∃ r', r = r' + (if b e = true then 1 else 0) ∧ p r' s')
    {es : List ε} {r : Nat} (hp : p r s) (h : replay step ok s es = some s') :
    ∃ r', r = r' + es.countP b ∧ p r' s' := by
  induction es generalizing r s with
  | nil =>
    cases h
    exact ⟨r, rfl, hp⟩
  | cons e es ih =>
    rw [replay] at h
    split at h
    case isTrue meets =>
      obtain ⟨s₁, hs₁, h₁⟩ := Option.bind_eq_some_iff.mp h
      obtain ⟨r₁, rfl, hp₁⟩ := hstep _ _ _ _ hp meets hs₁
      obtain ⟨r', rfl, hp'⟩ := ih hp₁ h₁
      refine ⟨r', ?_, hp'⟩
      rw [List.countP_cons, Nat.add_assoc]
    case isFalse => cases h

/-- A run from `s₀` that reaches a state with a property that can be computed. -/
theorem RunWhere.exists_of_replay {b : σ → Bool} (es : List ε)
    (h : (replay step ok s₀ es).any b = true) : ∃ s, RunWhere step ok s₀ s ∧ b s = true := by
  obtain ⟨s, hs, hb⟩ := (Option.any_eq_true _ _).mp h
  exact ⟨s, .of_replay .start hs, hb⟩

end Rpi4Kernel.Theory
