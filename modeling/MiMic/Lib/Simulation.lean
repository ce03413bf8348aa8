/-!
# Simulation of labelled runs

A run is a list of labels a system may show from one state to another. A system simulates another one
when related states answer each step by a step with the same label; it shows every run of it then.
-/
namespace Verif

variable {σ τ ℓ : Type}

inductive Run (step : σ → ℓ → σ → Prop) : σ → List ℓ → σ → Prop
  | nil {s : σ} : Run step s [] s
  | cons {s s' s'' : σ} {l : ℓ} {ls : List ℓ} : step s l s' → Run step s' ls s'' → Run step s (l :: ls) s''

namespace Run

variable {step : σ → ℓ → σ → Prop} {step' : τ → ℓ → τ → Prop} {R : σ → τ → Prop} {s s' : σ} {t : τ} {ls : List ℓ}

/-- The states of a simulated run stay related, and the labels are the same. -/
theorem simulate (hstep : ∀ {s s' t l}, R s t → step s l s' → ∃ t', step' t l t' ∧ R s' t') (h : Run step s ls s')
    (hR : R s t) : ∃ t', Run step' t ls t' ∧ R s' t' := by
  induction h generalizing t with
  | nil => exact ⟨t, .nil, hR⟩
  | cons hfirst _ ih =>
    obtain ⟨t₁, ht, hR₁⟩ := hstep hR hfirst
    obtain ⟨t₂, hrest, hR₂⟩ := ih hR₁
    exact ⟨t₂, .cons ht hrest, hR₂⟩

end Run

end Verif
