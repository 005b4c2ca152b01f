/-
Module: Rpi4Kernel.Theory.Simulation
Layer: Theory
Purpose: Forward simulation between two labelled transition systems. A step of the one is matched by one
  step of the other or by none; then a run of the one is matched by a run of the other.
Trusted boundary: none (fully proved)
Main exports: Matched, RunWhere.simulate
-/
import Rpi4Kernel.Theory.Runs

namespace Rpi4Kernel.Theory

variable {σ ε τ δ : Type*} {step : σ → ε → Option σ} {spec : τ → δ → Option τ} {R : σ → τ → Prop}
  {p : τ → Prop} {s₀ s s' : σ} {t₀ t : τ}

/-- The specification reaches a state that is related to `s'` in one step or in none. -/
def Matched (spec : τ → δ → Option τ) (R : σ → τ → Prop) (t : τ) (s' : σ) : Prop :=
  ∃ t', (t' = t ∨ ∃ d, spec t d = some t') ∧ R s' t'

namespace Matched

theorem stay (h : R s' t) : Matched spec R t s' := ⟨t, .inl rfl, h⟩

theorem move {t' : τ} {d : δ} (hstep : spec t d = some t') (h : R s' t') : Matched spec R t s' :=
  ⟨t', .inr ⟨d, hstep⟩, h⟩

end Matched

/-- The induction over the run that is simulated. An invariant of the specification may be used. -/
theorem RunWhere.simulate (hrun : Run step s₀ s) (h₀ : R s₀ t₀) (hp : ∀ t, Run spec t₀ t → p t)
    (hstep : ∀ s t e s', p t → R s t → step s e = some s' → Matched spec R t s') :
    ∃ t, Run spec t₀ t ∧ R s t := by
  induction hrun with
  | start => exact ⟨t₀, .start, h₀⟩
  | next _ _ steps ih =>
    obtain ⟨t, ht, hR⟩ := ih
    obtain ⟨t', hmove, hR'⟩ := hstep _ _ _ _ (hp t ht) hR steps
    cases hmove with
    | inl hstay =>
      rw [hstay] at hR'
      exact ⟨t, ht, hR'⟩
    | inr hmove =>
      obtain ⟨d, hd⟩ := hmove
      exact ⟨t', ht.next rfl hd, hR'⟩

end Rpi4Kernel.Theory
