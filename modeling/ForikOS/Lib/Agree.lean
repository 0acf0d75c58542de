import ForikOS.Lib.System

/-!
# Computations That End Alike

Two computations that may fault are compared by what they end with: with the
same fault, or with results that are related. The relation is carried through
a sequence, so a comparison of two runs is one of their steps.

## Main definitions

* `Agree`: The same fault, or related results.

## Theorems

* `agree_bind`: Sequences agree if their halves do.
* `Agree.map_eq`: Runs that agree cannot be told apart by what the relation
  preserves.
-/

namespace ForikOS

variable {φ α β α' β' γ : Type}

/-- Both end with the same fault, or with related results. -/
def Agree (R : α → β → Prop) : Except φ α → Except φ β → Prop
  | .ok a, .ok b => R a b
  | .error e, .error f => e = f
  | _, _ => False

section Agree

variable {R : α → β → Prop}

theorem agree_ok {a : α} {b : β} (h : R a b) : Agree R (.ok a : Except φ α) (.ok b) := h

theorem agree_error (e : φ) : Agree R (.error e) (.error e) := rfl

theorem agree_bind {S : α' → β' → Prop} {x : Except φ α} {y : Except φ β} {f : α → Except φ α'}
    {g : β → Except φ β'} (h : Agree R x y) (hfg : ∀ a b, R a b → Agree S (f a) (g b)) :
    Agree S (x >>= f) (y >>= g) := by
  cases x with
  | error e =>
      cases y with
      | error e' => exact h
      | ok b => exact h.elim
  | ok a =>
      cases y with
      | error e' => exact h.elim
      | ok b => exact hfg a b h

/-- The same check on both sides. -/
theorem agree_ensure_bind {c d : Prop} [Decidable c] [Decidable d] {e : φ}
    {f : Unit → Except φ α} {g : Unit → Except φ β} (hcd : c ↔ d) (h : c → Agree R (f ()) (g ())) :
    Agree R (ensure c e >>= f) (ensure d e >>= g) := by
  by_cases hc : c
  · rw [ensure_pos hc, ensure_pos (hcd.mp hc)]
    exact h hc
  · rw [ensure, ensure, if_neg hc, if_neg (fun hd => hc (hcd.mpr hd))]
    exact agree_error e

theorem Agree.mono {S : α → β → Prop} {x : Except φ α} {y : Except φ β} (h : Agree R x y)
    (hRS : ∀ a b, R a b → S a b) : Agree S x y := by
  cases x with
  | error e =>
      cases y with
      | error e' => exact h
      | ok b => exact h.elim
  | ok a =>
      cases y with
      | error e' => exact h.elim
      | ok b => exact hRS a b h

/-- What the relation preserves is the same after both. -/
theorem Agree.map_eq {x : Except φ α} {y : Except φ β} (h : Agree R x y) {f : α → γ} {g : β → γ}
    (hfg : ∀ a b, R a b → f a = g b) : x.map f = y.map g := by
  cases x with
  | error e =>
      cases y with
      | error e' => exact congrArg Except.error h
      | ok b => exact h.elim
  | ok a =>
      cases y with
      | error e' => exact h.elim
      | ok b => exact congrArg Except.ok (hfg a b h)

/-- If one of them completes, so does the other. -/
theorem Agree.ok_left {x : Except φ α} {y : Except φ β} {b : β} (h : Agree R x y)
    (hy : y = .ok b) : ∃ a, x = .ok a ∧ R a b := by
  rw [hy] at h
  cases x with
  | error e => exact h.elim
  | ok a => exact ⟨a, rfl, h⟩

end Agree

end ForikOS
