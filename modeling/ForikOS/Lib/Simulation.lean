import ForikOS.Lib.System

/-!
# Forward Simulations

One system does what another one may do. Where the first takes a step, the
second takes one that keeps the two states related, or takes none. So whatever
the first reaches is related to something the second reaches.

## Main definitions

* `System.Simulates`: A relation between the states of two systems.

## Theorems

* `System.Simulates.reachable`: What is reached is related to what is reached.
-/

namespace ForikOS

namespace System

variable {σ ε φ τ δ ψ : Type} {M : System σ ε φ} {A : System τ δ ψ} {R : σ → τ → Prop}

/-- `A` does what `M` does: it starts in a related state, and a step of `M` is a
    step of `A` or none. -/
structure Simulates (M : System σ ε φ) (A : System τ δ ψ) (R : σ → τ → Prop) : Prop where
  init : ∀ s, M.init s → ∃ a, A.init a ∧ R s a
  step : ∀ s e s' a, R s a → M.enabled s e → M.step s e = .ok s' →
    (∃ d a', A.enabled a d ∧ A.step a d = .ok a' ∧ R s' a') ∨ R s' a

/-- What `M` reaches is related to something that `A` reaches. -/
theorem Simulates.reachable (h : Simulates M A R) {s : σ} (hs : M.Reachable s) :
    ∃ a, A.Reachable a ∧ R s a := by
  induction hs with
  | init s h₀ =>
      rcases h.init s h₀ with ⟨a, ha, hr⟩
      exact ⟨a, .init a ha, hr⟩
  | step s e s' _ he hstep ih =>
      rcases ih with ⟨a, ha, hr⟩
      rcases h.step s e s' a hr he hstep with ⟨d, a', hd, hstep', hr'⟩ | hr'
      · exact ⟨a', .step a d a' ha hd hstep', hr'⟩
      · exact ⟨a, ha, hr'⟩

end System

end ForikOS
