import Mathlib.Logic.Function.Basic

/-!
# Guarded Transition Systems

A transition system whose step may stop the machine. A step is a function
from a state and an event to either a next state or a fault, and an event
only happens where it is enabled.

A safety claim about such a system has two halves. Every reachable state
satisfies some property, and no enabled event faults in a reachable state.
Both come out of one invariant, so `invariant_of_step` packages the induction
once and every development built on it supplies only an initial case and a
step case.

`restrict` narrows the events of a system by a condition on the state they
happen in. It is how a statement about "every run whose steps all meet a
condition" is made: the same step function, fewer enabled events.

The step functions are written in `Except`, so a completed step has to be
peeled apart before anything can be said about it. `bind_eq_ok` and
`ensure_eq_ok` are the two inversions that does take.

## Main definitions

* `ensure`: A check that stops with a fault when its condition fails.
* `System`: A guarded transition system with faulting steps.
* `System.Reachable`: The states some run of the system passes through.
* `System.restrict`: The system with its events narrowed by a condition.
* `System.after`, `System.Runs`, `System.Meets`: A given sequence of events.

## Theorems

* `bind_eq_ok`: A completed sequence is two completed halves.
* `ensure_eq_ok`: A check completes exactly when its condition holds.
* `invariant_of_step`: An initial and preserved property holds everywhere.
* `reachable_of_restrict`: Narrowing the events reaches nothing new.
* `reachable_after`: A sequence of enabled events that complete is a run.
-/

namespace ForikOS

variable {σ ε φ α β : Type}

/-- A check that stops with the fault `f` when its condition fails. -/
def ensure (c : Prop) [Decidable c] (f : φ) : Except φ Unit :=
  if c then .ok () else .error f

theorem ensure_pos {c : Prop} [Decidable c] {f : φ} (h : c) : ensure c f = .ok () :=
  if_pos h

@[simp] theorem ok_bind (a : α) (g : α → Except φ β) : (Except.ok a >>= g) = g a := rfl

theorem bind_eq_ok {x : Except φ α} {g : α → Except φ β} {b : β} :
    (x >>= g) = .ok b ↔ ∃ a, x = .ok a ∧ g a = .ok b := by
  cases x with
  | error e =>
      constructor
      · intro h
        exact absurd h (by simp only [bind, Except.bind, reduceCtorEq, not_false_eq_true])
      · rintro ⟨a, ha, _⟩
        exact absurd ha (by simp only [reduceCtorEq, not_false_eq_true])
  | ok a =>
      constructor
      · intro h
        exact ⟨a, rfl, h⟩
      · rintro ⟨a', ha, hb⟩
        rw [Except.ok.injEq] at ha
        rw [ha]
        exact hb

theorem bind_eq_error {x : Except φ α} {g : α → Except φ β} {f : φ} :
    (x >>= g) = .error f ↔ x = .error f ∨ ∃ a, x = .ok a ∧ g a = .error f := by
  cases x with
  | error e => simp only [bind, Except.bind, Except.error.injEq, reduceCtorEq, false_and,
      exists_false, or_false]
  | ok a => simp only [bind, Except.bind, reduceCtorEq, Except.ok.injEq, exists_eq_left', false_or]

@[simp] theorem ensure_eq_ok {c : Prop} [Decidable c] {f : φ} {u : Unit} :
    ensure c f = .ok u ↔ c := by
  unfold ensure
  by_cases h : c
  · rw [if_pos h]
    simp only [h]
  · rw [if_neg h]
    simp only [h, reduceCtorEq]

/-- A guarded transition system: events happen only where they are enabled,
    and a step either completes or stops the machine with a fault. -/
structure System (σ ε φ : Type) where
  init : σ → Prop
  enabled : σ → ε → Prop
  step : σ → ε → Except φ σ

namespace System

/-- The states some run of the system passes through. -/
inductive Reachable (M : System σ ε φ) : σ → Prop
  | init (s : σ) : M.init s → Reachable M s
  | step (s : σ) (e : ε) (s' : σ) :
      Reachable M s → M.enabled s e → M.step s e = .ok s' → Reachable M s'

/-- An initial property that every enabled, completed step keeps holds in
    every reachable state. -/
theorem invariant_of_step (M : System σ ε φ) (Inv : σ → Prop)
    (h0 : ∀ s, M.init s → Inv s)
    (hstep : ∀ s e s', Inv s → M.enabled s e → M.step s e = .ok s' → Inv s')
    (s : σ) (h : M.Reachable s) : Inv s := by
  induction h with
  | init s hs => exact h0 s hs
  | step s e s' _ he hs ih => exact hstep s e s' ih he hs

/-- The same steps, with an event enabled only where the condition holds. -/
def restrict (M : System σ ε φ) (P : σ → ε → Prop) : System σ ε φ :=
  { M with enabled := fun s e => M.enabled s e ∧ P s e }

theorem reachable_of_restrict (M : System σ ε φ) (P : σ → ε → Prop) (s : σ)
    (h : (M.restrict P).Reachable s) : M.Reachable s := by
  induction h with
  | init s hs => exact Reachable.init s hs
  | step s e s' _ he hs ih => exact Reachable.step s e s' ih he.1 hs

/-- The state after an event that completes. -/
def next (M : System σ ε φ) (s : σ) (e : ε) : σ :=
  match M.step s e with
  | .ok s' => s'
  | .error _ => s

/-- The state after a sequence of events. -/
def after (M : System σ ε φ) (s : σ) (es : List ε) : σ := es.foldl M.next s

/-- Every event of a sequence is enabled when its turn comes, and completes. -/
def Runs (M : System σ ε φ) : σ → List ε → Prop
  | _, [] => True
  | s, e :: es => M.enabled s e ∧ (M.step s e).isOk = true ∧ M.Runs (M.next s e) es

instance decidableRuns (M : System σ ε φ) [∀ s e, Decidable (M.enabled s e)] (s : σ)
    (es : List ε) : Decidable (M.Runs s es) :=
  match es with
  | [] => isTrue trivial
  | e :: es =>
      haveI := decidableRuns M (M.next s e) es
      inferInstanceAs (Decidable (_ ∧ _ ∧ _))

theorem step_next (M : System σ ε φ) {s : σ} {e : ε} (hok : (M.step s e).isOk = true) :
    M.step s e = .ok (M.next s e) := by
  cases hs : M.step s e with
  | error f =>
      rw [hs] at hok
      cases hok
  | ok s' => rw [next, hs]

theorem next_ok (M : System σ ε φ) {s s' : σ} {e : ε} (hs : M.step s e = .ok s') :
    M.next s e = s' := by
  rw [next, hs]

theorem after_cons (M : System σ ε φ) (s : σ) (e : ε) (es : List ε) :
    M.after s (e :: es) = M.after (M.next s e) es := rfl

theorem reachable_after (M : System σ ε φ) {s : σ} (es : List ε) (h : M.Reachable s)
    (hr : M.Runs s es) : M.Reachable (M.after s es) := by
  induction es generalizing s with
  | nil => exact h
  | cons e es ih =>
      refine ih ?_ hr.2.2
      exact Reachable.step s e _ h hr.1 (M.step_next hr.2.1)

/-- Every event of a sequence meets a condition when its turn comes. -/
def Meets (M : System σ ε φ) (P : σ → ε → Prop) : σ → List ε → Prop
  | _, [] => True
  | s, e :: es => P s e ∧ M.Meets P (M.next s e) es

instance decidableMeets (M : System σ ε φ) (P : σ → ε → Prop) [∀ s e, Decidable (P s e)] (s : σ)
    (es : List ε) : Decidable (M.Meets P s es) :=
  match es with
  | [] => isTrue trivial
  | e :: es =>
      haveI := decidableMeets M P (M.next s e) es
      inferInstanceAs (Decidable (_ ∧ _))

theorem runs_restrict (M : System σ ε φ) (P : σ → ε → Prop) {s : σ} {es : List ε}
    (hr : M.Runs s es) (hp : M.Meets P s es) : (M.restrict P).Runs s es := by
  induction es generalizing s with
  | nil => exact trivial
  | cons e es ih => exact ⟨⟨hr.1, hp.1⟩, hr.2.1, ih hr.2.2 hp.2⟩

end System

end ForikOS
