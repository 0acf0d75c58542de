import ForikOS.Lib.System

/-!
# Progress by a Rank

A run gets somewhere when some measure of what is left to do runs out. Most
events cost nothing: all that is asked of them is that they do not add to the
measure. The run gets there before its cost has outgrown the rank it began with.

The ranks are natural numbers, and a state in which something is left to do has
a rank that is not zero. So nothing has to be said about the last step.

## Main definitions

* `System.total`: What the events of a run add up to.
* `System.Passes`: Some state on the way is as wanted.

## Theorems

* `System.rank_run`: The balance over a run that has not got there.
* `System.passes_of_rank`: A run whose cost covers the rank gets there.
-/

namespace ForikOS

namespace System

variable {σ ε φ : Type}

/-- What the events of a sequence add up to, each counted in the state it happens in. -/
def total (M : System σ ε φ) (f : σ → ε → Nat) : σ → List ε → Nat
  | _, [] => 0
  | s, e :: es => f s e + M.total f (M.next s e) es

/-- Some state on the way, the first and the last included, is as wanted. -/
def Passes (M : System σ ε φ) (G : σ → Prop) : σ → List ε → Prop
  | s, [] => G s
  | s, e :: es => G s ∨ M.Passes G (M.next s e) es

/-- What a state on the way is, said with the events that led to it. -/
theorem passes_iff (M : System σ ε φ) {G : σ → Prop} {s : σ} {es : List ε} :
    M.Passes G s es ↔ ∃ es₁ es₂, es = es₁ ++ es₂ ∧ G (M.after s es₁) := by
  induction es generalizing s with
  | nil =>
      constructor
      · intro h
        exact ⟨[], [], rfl, h⟩
      · rintro ⟨es₁, es₂, heq, h⟩
        rw [(List.append_eq_nil_iff.mp heq.symm).1] at h
        exact h
  | cons e es ih =>
      constructor
      · rintro (h | h)
        · exact ⟨[], e :: es, rfl, h⟩
        · rcases ih.mp h with ⟨es₁, es₂, heq, hG⟩
          exact ⟨e :: es₁, es₂, by rw [heq, List.cons_append], hG⟩
      · rintro ⟨es₁, es₂, heq, h⟩
        cases es₁ with
        | nil => exact Or.inl h
        | cons e' es₁ =>
            rw [List.cons_append, List.cons.injEq] at heq
            rw [← heq.1] at h
            exact Or.inr (ih.mpr ⟨es₁, es₂, heq.2, h⟩)

variable {Inv G : σ → Prop} {rank : σ → Nat} {cost : σ → ε → Nat}

/-- Over a run that has not got there, the cost is paid out of the rank. -/
theorem rank_run (M : System σ ε φ)
    (hstep : ∀ s e s', Inv s → ¬ G s → M.enabled s e → M.step s e = .ok s' →
      Inv s' ∧ rank s' + cost s e ≤ rank s)
    {s : σ} {es : List ε} (hinv : Inv s) (hr : M.Runs s es) (hG : ¬ M.Passes G s es) :
    Inv (M.after s es) ∧ ¬ G (M.after s es) ∧
      rank (M.after s es) + M.total cost s es ≤ rank s := by
  induction es generalizing s with
  | nil => exact ⟨hinv, hG, Nat.le_refl _⟩
  | cons e es ih =>
      rw [Passes, not_or] at hG
      have h1 := hstep s e _ hinv hG.1 hr.1 (M.step_next hr.2.1)
      have h2 := ih h1.1 hr.2.2 hG.2
      rw [M.after_cons, total]
      exact ⟨h2.1, h2.2.1, by omega⟩

/-- A run whose cost covers the rank gets there. -/
theorem passes_of_rank (M : System σ ε φ)
    (hstep : ∀ s e s', Inv s → ¬ G s → M.enabled s e → M.step s e = .ok s' →
      Inv s' ∧ rank s' + cost s e ≤ rank s)
    (hpos : ∀ s, Inv s → ¬ G s → 0 < rank s) {s : σ} {es : List ε} (hinv : Inv s) (hr : M.Runs s es)
    (hcost : rank s ≤ M.total cost s es) : M.Passes G s es := by
  by_contra hG
  have hend := M.rank_run hstep hinv hr hG
  have hlast := hpos _ hend.1 hend.2.1
  omega

end System

end ForikOS
