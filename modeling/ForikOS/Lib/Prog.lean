import ForikOS.Lib.System

/-!
# Programs That Wait

Code that runs on shared state and gives the processor away in the middle.

A program is a tree of reads, writes, faults and waits. `run` executes it
alone: a wait does nothing. `resume` executes it up to its next wait, which
is what happens between two switches, so an interleaving of several programs
is a sequence of `resume` steps. Both are structural recursions over the same
tree, and a statement about a call that is not interrupted and a statement
about any interleaving are about the same code.

Most facts about a call that completes are of one of two shapes. `Triple` has
a condition on the state before and a condition on the result and the state
after. `Within` has a relation between the state before and the state after,
such as what a call leaves alone; the relation is a preorder, so it is enough
that every step stays within it. Both are for completed runs only. Where it
matters what a program has done before a fault stops it, `Guarded` adds a
condition on the state it stops in. The rules below follow the syntax of a
program.

A search through a table is a loop of its own kind, which stops at the first
number that passes a test (`FirstFrom`).

## Main definitions

* `Prog`: Programs over a state, with faults and waits.
* `Prog.run`: A program alone.
* `Prog.after`: The state a program leaves.
* `Prog.resume`: A program up to its next wait.
* `Prog.Waitless`: Programs without a wait.
* `Prog.stop`: The state a program stops in, with or without a fault.
* `Triple`: Pre- and postcondition of completed runs.
* `Guarded`: The same with a condition on the state after a fault.
* `Stops`: A run that a fault stops, and where.
* `Leads`: What is left of a run.
* `Within`: The relation of completed runs.
* `FirstFrom`: A loop that looks for a number.

## Theorems

* `bind_bind`, `ite_bind`: Sequences of programs.
* `run_bind`, `run_bind_ok`, `run_bind_error`, `run_bind_of`: A sequence is
  run one half after the other.
* `resume_bind`: A sequence up to its next wait.
* `run_of_resume`: A program that is resumed until it ends has been run.
* `resume_of_waitless`, `resume_bind_ok`: Programs without a wait, resumed.
* `triple_bind`, `triple_read`, `triple_modify`, `triple_check`: The rules.
* `guarded_bind`, `guarded_check_bind`: The rules with a fault.
* `stops_bind`, `stops_bind_of`: Where a sequence stops.
* `within_bind`, `within_modify`: The rules for a relation.
* `FirstFrom.of_some`, `FirstFrom.before`, `FirstFrom.of_none`: What such a loop
  returns.
-/

namespace ForikOS

/-- Programs over the state `σ` with faults `ε` and result `α`. -/
inductive Prog (σ ε α : Type) where
  | ret (a : α)
  | fail (e : ε)
  | get (k : σ → Prog σ ε α)
  | put (s : σ) (k : Prog σ ε α)
  | wait (k : Prog σ ε α)

namespace Prog

variable {σ ε α β : Type}

/-- One program after another. -/
def bind : Prog σ ε α → (α → Prog σ ε β) → Prog σ ε β
  | ret a, g => g a
  | fail e, _ => fail e
  | get k, g => get (fun s => (k s).bind g)
  | put s k, g => put s (k.bind g)
  | wait k, g => wait (k.bind g)

instance : Monad (Prog σ ε) where
  pure := ret
  bind := bind

theorem bind_ret (x : Prog σ ε α) : x.bind ret = x := by
  induction x with
  | ret a => rfl
  | fail e => rfl
  | get k ih => exact congrArg get (funext ih)
  | put s k ih => exact congrArg (put s) ih
  | wait k ih => exact congrArg wait ih

theorem bind_bind {γ : Type} (x : Prog σ ε α) (f : α → Prog σ ε β) (g : β → Prog σ ε γ) :
    (x.bind f).bind g = x.bind (fun a => (f a).bind g) := by
  induction x with
  | ret a => rfl
  | fail e => rfl
  | get k ih => exact congrArg get (funext ih)
  | put s k ih => exact congrArg (put s) ih
  | wait k ih => exact congrArg wait ih

instance : LawfulMonad (Prog σ ε) :=
  LawfulMonad.mk' _ bind_ret (fun _ _ => rfl) bind_bind

/-- What follows a choice follows both sides of it. -/
theorem ite_bind {c : Prop} [Decidable c] (x y : Prog σ ε α) (g : α → Prog σ ε β) :
    (if c then x else y) >>= g = if c then x >>= g else y >>= g := by
  by_cases hc : c
  · rw [if_pos hc, if_pos hc]
  · rw [if_neg hc, if_neg hc]

/-- Read a part of the state. -/
def read (f : σ → α) : Prog σ ε α := get (fun s => ret (f s))

/-- Change the state. -/
def modify (f : σ → σ) : Prog σ ε Unit := get (fun s => put (f s) (ret ()))

/-- Stop with a fault unless the condition holds. -/
def check (c : Prop) [Decidable c] (e : ε) : Prog σ ε Unit := if c then ret () else fail e

/-- Give the processor away. -/
def pause : Prog σ ε Unit := wait (ret ())

/-- Execute a program alone. -/
def run : Prog σ ε α → σ → Except ε (α × σ)
  | ret a, s => .ok (a, s)
  | fail e, _ => .error e
  | get k, s => (k s).run s
  | put s k, _ => k.run s
  | wait k, s => k.run s

/-- Execute a program up to its next wait: either it is done, or the rest of
    it is left. -/
def resume : Prog σ ε α → σ → Except ε (σ × (α ⊕ Prog σ ε α))
  | ret a, s => .ok (s, .inl a)
  | fail e, _ => .error e
  | get k, s => (k s).resume s
  | put s k, _ => k.resume s
  | wait k, s => .ok (s, .inr k)

/-- The state after a program that completes. -/
def after (x : Prog σ ε α) (s : σ) : σ :=
  match x.run s with
  | .ok (_, s') => s'
  | .error _ => s

/-- The state a program stops in, whether it completes or not. -/
def stop : Prog σ ε α → σ → σ
  | ret _, s => s
  | fail _, s => s
  | get k, s => (k s).stop s
  | put s k, _ => k.stop s
  | wait k, s => k.stop s

theorem run_bind (x : Prog σ ε α) (g : α → Prog σ ε β) (s : σ) :
    (x >>= g).run s = (x.run s >>= fun r => (g r.1).run r.2) := by
  show (x.bind g).run s = _
  induction x generalizing s with
  | ret a => rfl
  | fail e => rfl
  | get k ih => exact ih s s
  | put s' k ih => exact ih s'
  | wait k ih => exact ih s

theorem run_bind_ok {x : Prog σ ε α} {g : α → Prog σ ε β} {s s' : σ} {b : β} :
    (x >>= g).run s = .ok (b, s') ↔
      ∃ a s₁, x.run s = .ok (a, s₁) ∧ (g a).run s₁ = .ok (b, s') := by
  rw [run_bind, bind_eq_ok, Prod.exists]

/-- A sequence whose first half completes goes on with the second. -/
theorem run_bind_of {x : Prog σ ε α} {g : α → Prog σ ε β} {s s₁ : σ} {a : α}
    (h : x.run s = .ok (a, s₁)) : (x >>= g).run s = (g a).run s₁ := by
  rw [run_bind, h]
  rfl

theorem resume_bind (x : Prog σ ε α) (g : α → Prog σ ε β) (s : σ) :
    (x >>= g).resume s = (x.resume s >>= fun r => match r.2 with
      | .inl a => (g a).resume r.1
      | .inr k => .ok (r.1, .inr (k >>= g))) := by
  show (x.bind g).resume s = _
  induction x generalizing s with
  | ret a => rfl
  | fail e => rfl
  | get k ih => exact ih s s
  | put s' k ih => exact ih s'
  | wait k ih => rfl

/-- A program that ends without a wait has been run. -/
theorem run_of_resume_inl {x : Prog σ ε α} {s s' : σ} {a : α}
    (h : x.resume s = .ok (s', .inl a)) : x.run s = .ok (a, s') := by
  induction x generalizing s with
  | ret b =>
      rw [resume, Except.ok.injEq, Prod.mk.injEq, Sum.inl.injEq] at h
      rw [run, h.1, h.2]
  | fail e => cases h
  | get k ih => exact ih s h
  | put s₁ k ih => exact ih h
  | wait k ih => cases h

/-- A program without a wait in it. -/
def Waitless : Prog σ ε α → Prop
  | ret _ => True
  | fail _ => True
  | get k => ∀ s, (k s).Waitless
  | put _ k => k.Waitless
  | wait _ => False

theorem waitless_bind {x : Prog σ ε α} {g : α → Prog σ ε β} (hx : x.Waitless)
    (hg : ∀ a, (g a).Waitless) : (x >>= g).Waitless := by
  show (x.bind g).Waitless
  induction x with
  | ret a => exact hg a
  | fail e => exact trivial
  | get k ih => exact fun s => ih s (hx s)
  | put s k ih => exact ih hx
  | wait k _ => exact absurd hx id

theorem waitless_read (f : σ → α) : (read f : Prog σ ε α).Waitless := fun _ => trivial

theorem waitless_modify (f : σ → σ) : (modify f : Prog σ ε Unit).Waitless := fun _ => trivial

theorem waitless_check {c : Prop} [Decidable c] {e : ε} :
    (check c e : Prog σ ε Unit).Waitless := by
  unfold check
  by_cases hc : c
  · rw [if_pos hc]
    exact trivial
  · rw [if_neg hc]
    exact trivial

theorem waitless_ite {c : Prop} [Decidable c] {x y : Prog σ ε α} (hx : x.Waitless)
    (hy : y.Waitless) : (if c then x else y).Waitless := by
  by_cases hc : c
  · rw [if_pos hc]
    exact hx
  · rw [if_neg hc]
    exact hy

/-- Without a wait, resuming a program is running it. -/
theorem resume_of_waitless {x : Prog σ ε α} (hx : x.Waitless) (s : σ) :
    x.resume s = (x.run s >>= fun r => .ok (r.2, .inl r.1)) := by
  induction x generalizing s with
  | ret a => rfl
  | fail e => rfl
  | get k ih => exact ih s (hx s) s
  | put s' k ih => exact ih hx s'
  | wait k _ => exact absurd hx id

/-- A sequence whose first half has no wait in it. -/
theorem resume_bind_ok {x : Prog σ ε α} {g : α → Prog σ ε β} (hx : x.Waitless) {s : σ}
    {r : σ × (β ⊕ Prog σ ε β)} :
    (x >>= g).resume s = .ok r ↔
      ∃ a s₁, x.run s = .ok (a, s₁) ∧ (g a).resume s₁ = .ok r := by
  rw [resume_bind, resume_of_waitless hx]
  cases x.run s with
  | error e =>
      constructor
      · intro h
        cases h
      · rintro ⟨_, _, h, _⟩
        cases h
  | ok y =>
      refine ⟨fun h => ⟨y.1, y.2, rfl, h⟩, ?_⟩
      rintro ⟨a, s₁, h, hg⟩
      cases h
      exact hg

/-- What is left after a wait is run from the state at the wait. -/
theorem run_of_resume {x k : Prog σ ε α} {s s' : σ} (h : x.resume s = .ok (s', .inr k)) :
    x.run s = k.run s' := by
  induction x generalizing s with
  | ret b => cases h
  | fail e => cases h
  | get g ih => exact ih s h
  | put s₁ g ih => exact ih h
  | wait g ih =>
      rw [resume, Except.ok.injEq, Prod.mk.injEq, Sum.inr.injEq] at h
      rw [run, h.1, h.2]

@[simp] theorem run_pure (a : α) (s : σ) : (pure a : Prog σ ε α).run s = .ok (a, s) := rfl

@[simp] theorem run_fail (e : ε) (s : σ) : (fail e : Prog σ ε α).run s = .error e := rfl

@[simp] theorem run_read (f : σ → α) (s : σ) : (read f : Prog σ ε α).run s = .ok (f s, s) := rfl

@[simp] theorem run_modify (f : σ → σ) (s : σ) :
    (modify f : Prog σ ε Unit).run s = .ok ((), f s) := rfl

@[simp] theorem run_pause (s : σ) : (pause : Prog σ ε Unit).run s = .ok ((), s) := rfl

theorem run_check_pos {c : Prop} [Decidable c] {e : ε} (h : c) (s : σ) :
    (check c e : Prog σ ε Unit).run s = .ok ((), s) := by
  rw [check, if_pos h]
  rfl

theorem run_check_neg {c : Prop} [Decidable c] {e : ε} (h : ¬ c) (s : σ) :
    (check c e : Prog σ ε Unit).run s = .error e := by
  rw [check, if_neg h]
  rfl

section Completed

variable {s s' : σ}

theorem pure_ok {a b : α} (h : (pure a : Prog σ ε α).run s = .ok (b, s')) : b = a ∧ s' = s := by
  rw [run_pure, Except.ok.injEq, Prod.mk.injEq] at h
  exact ⟨h.1.symm, h.2.symm⟩

theorem read_ok {f : σ → α} {b : α} (h : (read f : Prog σ ε α).run s = .ok (b, s')) :
    b = f s ∧ s' = s :=
  pure_ok h

theorem modify_ok {f : σ → σ} {u : Unit} (h : (modify f : Prog σ ε Unit).run s = .ok (u, s')) :
    s' = f s := by
  rw [run_modify, Except.ok.injEq, Prod.mk.injEq] at h
  exact h.2.symm

theorem pause_ok {u : Unit} (h : (pause : Prog σ ε Unit).run s = .ok (u, s')) : s' = s :=
  (pure_ok h).2

theorem check_ok {c : Prop} [Decidable c] {e : ε} {u : Unit}
    (h : (check c e : Prog σ ε Unit).run s = .ok (u, s')) : c ∧ s' = s := by
  by_cases hc : c
  · rw [run_check_pos hc, Except.ok.injEq, Prod.mk.injEq] at h
    exact ⟨hc, h.2.symm⟩
  · rw [run_check_neg hc] at h
    cases h

/-- A sequence stops in one of its halves. -/
theorem run_bind_error {x : Prog σ ε α} {g : α → Prog σ ε β} {e : ε} :
    (x >>= g).run s = .error e ↔
      x.run s = .error e ∨ ∃ a s₁, x.run s = .ok (a, s₁) ∧ (g a).run s₁ = .error e := by
  rw [run_bind, bind_eq_error, Prod.exists]

theorem check_error {c : Prop} [Decidable c] {e f : ε}
    (h : (check c e : Prog σ ε Unit).run s = .error f) : ¬ c ∧ f = e := by
  by_cases hc : c
  · rw [run_check_pos hc] at h
    cases h
  · rw [run_check_neg hc, Except.error.injEq] at h
    exact ⟨hc, h.symm⟩

theorem after_ok {x : Prog σ ε α} (h : (x.run s).isOk = true) :
    ∃ a, x.run s = .ok (a, x.after s) := by
  cases hr : x.run s with
  | error e =>
      rw [hr] at h
      cases h
  | ok r => exact ⟨r.1, by rw [after, hr]⟩

/-- A run whose result is known. -/
theorem run_after {x : Prog σ ε α} {a : α} (h : (x.run s).toOption.map (·.1) = some a) :
    x.run s = .ok (a, x.after s) := by
  cases hr : x.run s with
  | error e =>
      rw [hr] at h
      cases h
  | ok r =>
      rw [hr] at h
      rw [after, hr, ← Option.some.inj h]

end Completed

end Prog

open Prog

variable {σ ε α β : Type}

/-- From a state that satisfies `P`, a completed run ends with `Q`. -/
def Triple (P : σ → Prop) (x : Prog σ ε α) (Q : α → σ → Prop) : Prop :=
  ∀ s a s', P s → x.run s = .ok (a, s') → Q a s'

section Rules

variable {P P' : σ → Prop} {Q Q' : α → σ → Prop}

theorem triple_conseq {x : Prog σ ε α} (h : Triple P x Q) (hp : ∀ s, P' s → P s)
    (hq : ∀ a s, Q a s → Q' a s) : Triple P' x Q' :=
  fun s a s' hs hr => hq a s' (h s a s' (hp s hs) hr)

theorem triple_pure {a : α} (h : ∀ s, P s → Q a s) : Triple P (pure a : Prog σ ε α) Q := by
  intro s b s' hs hr
  rw [run_pure, Except.ok.injEq, Prod.mk.injEq] at hr
  rw [← hr.1, ← hr.2]
  exact h s hs

theorem triple_fail {e : ε} : Triple P (fail e : Prog σ ε α) Q := by
  intro s b s' _ hr
  rw [run_fail] at hr
  cases hr

theorem triple_bind {x : Prog σ ε α} {g : α → Prog σ ε β} {R : α → σ → Prop} {T : β → σ → Prop}
    (hx : Triple P x R) (hg : ∀ a, Triple (R a) (g a) T) : Triple P (x >>= g) T := by
  intro s b s' hs hr
  rw [run_bind] at hr
  rcases bind_eq_ok.mp hr with ⟨⟨a, s₁⟩, hx', hg'⟩
  exact hg a s₁ b s' (hx s a s₁ hs hx') hg'

/-- What is read is a function of the state before. -/
theorem triple_read {f : σ → β} {R : β → σ → Prop} (h : ∀ s, P s → R (f s) s) :
    Triple P (Prog.read f : Prog σ ε β) R := by
  intro s b s' hs hr
  rw [run_read, Except.ok.injEq, Prod.mk.injEq] at hr
  rw [← hr.1, ← hr.2]
  exact h s hs

theorem triple_modify {f : σ → σ} {R : Unit → σ → Prop} (h : ∀ s, P s → R () (f s)) :
    Triple P (modify f : Prog σ ε Unit) R := by
  intro s b s' hs hr
  rw [run_modify, Except.ok.injEq, Prod.mk.injEq] at hr
  rw [← hr.2]
  exact h s hs

/-- A check that a completed run has passed holds after it. -/
theorem triple_check {c : Prop} [Decidable c] {e : ε} :
    Triple P (check c e : Prog σ ε Unit) (fun _ s => P s ∧ c) := by
  intro s b s' hs hr
  by_cases hc : c
  · rw [run_check_pos hc, Except.ok.injEq, Prod.mk.injEq] at hr
    rw [← hr.2]
    exact ⟨hs, hc⟩
  · rw [run_check_neg hc] at hr
    cases hr

theorem triple_ite {c : Prop} [Decidable c] {x y : Prog σ ε α}
    (hx : c → Triple P x Q) (hy : ¬ c → Triple P y Q) : Triple P (if c then x else y) Q := by
  by_cases hc : c
  · rw [if_pos hc]
    exact hx hc
  · rw [if_neg hc]
    exact hy hc

end Rules

section Guarded

variable {P P' : σ → Prop} {Q Q' : α → σ → Prop} {I : σ → Prop}

theorem stop_bind_error {x : Prog σ ε α} {g : α → Prog σ ε β} {s : σ} {e : ε}
    (h : x.run s = .error e) : (x >>= g).stop s = x.stop s := by
  show (x.bind g).stop s = _
  induction x generalizing s with
  | ret a => cases h
  | fail e => rfl
  | get k ih => exact ih s h
  | put s' k ih => exact ih h
  | wait k ih => exact ih h

theorem stop_bind_ok {x : Prog σ ε α} {g : α → Prog σ ε β} {s s₁ : σ} {a : α}
    (h : x.run s = .ok (a, s₁)) : (x >>= g).stop s = (g a).stop s₁ := by
  show (x.bind g).stop s = _
  induction x generalizing s with
  | ret b =>
      rcases pure_ok h with ⟨rfl, rfl⟩
      rfl
  | fail e => cases h
  | get k ih => exact ih s h
  | put s' k ih => exact ih h
  | wait k ih => exact ih h

/-- What a run, completed or not, leaves behind. -/
theorem stop_of_ok {x : Prog σ ε α} {s s' : σ} {a : α} (h : x.run s = .ok (a, s')) :
    x.stop s = s' := by
  induction x generalizing s with
  | ret b => exact (pure_ok h).2.symm
  | fail e => cases h
  | get k ih => exact ih s h
  | put s₁ k ih => exact ih h
  | wait k ih => exact ih h

/-- What is made of the result does not move the state. -/
theorem stop_bind_pure (x : Prog σ ε α) (f : α → β) (s : σ) :
    (x >>= fun a => pure (f a)).stop s = x.stop s := by
  show (x.bind (fun a => ret (f a))).stop s = _
  induction x generalizing s with
  | ret a => rfl
  | fail e => rfl
  | get k ih => exact ih s s
  | put s' k ih => exact ih s'
  | wait k ih => exact ih s

/-- A fault stops a run in a state. -/
def Stops (x : Prog σ ε α) (s : σ) (e : ε) (s' : σ) : Prop := x.run s = .error e ∧ x.stop s = s'

theorem stops_check {c : Prop} [Decidable c] {e : ε} (h : ¬ c) (s : σ) :
    Stops (check c e : Prog σ ε Unit) s e s := by
  refine ⟨run_check_neg h s, ?_⟩
  rw [check, if_neg h]
  rfl

/-- A sequence that stops in its first half. -/
theorem stops_bind {x : Prog σ ε α} {g : α → Prog σ ε β} {s s' : σ} {e : ε}
    (h : Stops x s e s') : Stops (x >>= g) s e s' := by
  refine ⟨?_, (stop_bind_error h.1).trans h.2⟩
  rw [run_bind, h.1]
  rfl

/-- A sequence that stops in its second half. -/
theorem stops_bind_of {x : Prog σ ε α} {g : α → Prog σ ε β} {s s₁ s' : σ} {a : α} {e : ε}
    (hx : x.run s = .ok (a, s₁)) (h : Stops (g a) s₁ e s') : Stops (x >>= g) s e s' :=
  ⟨(run_bind_of hx).trans h.1, (stop_bind_ok hx).trans h.2⟩

/-- A run from one state is what is left of it in another. -/
def Leads (x : Prog σ ε α) (s : σ) (y : Prog σ ε α) (s₁ : σ) : Prop :=
  x.run s = y.run s₁ ∧ x.stop s = y.stop s₁

theorem Leads.trans {x y z : Prog σ ε α} {s s₁ s₂ : σ} (h : Leads x s y s₁)
    (h' : Leads y s₁ z s₂) : Leads x s z s₂ :=
  ⟨h.1.trans h'.1, h.2.trans h'.2⟩

theorem Leads.stops {x y : Prog σ ε α} {s s₁ s' : σ} {e : ε} (h : Leads x s y s₁)
    (h' : Stops y s₁ e s') : Stops x s e s' :=
  ⟨h.1.trans h'.1, h.2.trans h'.2⟩

theorem leads_bind {x : Prog σ ε α} {g : α → Prog σ ε β} {s s₁ : σ} {a : α}
    (h : x.run s = .ok (a, s₁)) : Leads (x >>= g) s (g a) s₁ :=
  ⟨run_bind_of h, stop_bind_ok h⟩

end Guarded

/-- Every completed run takes the state to one that it is related to. -/
def Within (R : σ → σ → Prop) (x : Prog σ ε α) : Prop :=
  ∀ s a s', x.run s = .ok (a, s') → R s s'

section Within

variable {R : σ → σ → Prop}

theorem within_mono {R' : σ → σ → Prop} {x : Prog σ ε α} (h : Within R x)
    (hr : ∀ s s', R s s' → R' s s') : Within R' x :=
  fun s a s' hx => hr s s' (h s a s' hx)

theorem within_modify {f : σ → σ} (h : ∀ s, R s (f s)) :
    Within R (modify f : Prog σ ε Unit) := by
  intro s b s' hr
  rw [run_modify, Except.ok.injEq, Prod.mk.injEq] at hr
  rw [← hr.2]
  exact h s

theorem within_fail {e : ε} : Within R (fail e : Prog σ ε α) := by
  intro s b s' hr
  cases hr

theorem within_ite {c : Prop} [Decidable c] {x y : Prog σ ε α}
    (hx : Within R x) (hy : Within R y) : Within R (if c then x else y) := by
  by_cases hc : c
  · rw [if_pos hc]
    exact hx
  · rw [if_neg hc]
    exact hy

variable [IsPreorder σ R]

theorem within_pure {a : α} : Within R (pure a : Prog σ ε α) := by
  intro s b s' hr
  rw [run_pure, Except.ok.injEq, Prod.mk.injEq] at hr
  rw [← hr.2]
  exact refl s

theorem within_read {f : σ → α} : Within R (Prog.read f : Prog σ ε α) := by
  intro s b s' hr
  rw [run_read, Except.ok.injEq, Prod.mk.injEq] at hr
  rw [← hr.2]
  exact refl s

theorem within_pause : Within R (pause : Prog σ ε Unit) := by
  intro s b s' hr
  rw [run_pause, Except.ok.injEq, Prod.mk.injEq] at hr
  rw [← hr.2]
  exact refl s

theorem within_check {c : Prop} [Decidable c] {e : ε} : Within R (check c e : Prog σ ε Unit) :=
  within_ite within_pure within_fail

theorem within_bind {x : Prog σ ε α} {g : α → Prog σ ε β} (hx : Within R x)
    (hg : ∀ a, Within R (g a)) : Within R (x >>= g) := by
  intro s b s' hr
  rcases run_bind_ok.mp hr with ⟨a, s₁, hx', hg'⟩
  exact IsTrans.trans s s₁ s' (hx s a s₁ hx') (hg a s₁ b s' hg')

/-- What is read does not change the state. -/
theorem within_read_bind {f : σ → α} {g : α → Prog σ ε β} (hg : ∀ a, Within R (g a)) :
    Within R (Prog.read f >>= g) :=
  within_bind within_read hg

theorem within_check_bind {c : Prop} [Decidable c] {e : ε} {g : Unit → Prog σ ε β}
    (hg : Within R (g ())) : Within R (check c e >>= g) :=
  within_bind within_check (fun _ => hg)

end Within

/-- A loop over `n` numbers from `j` on that returns the first one with `p`. -/
structure FirstFrom (p : Nat → Prop) (f : Nat → Nat → Option Nat) : Prop where
  done : ∀ j, f 0 j = none
  found : ∀ n j, p j → f (n + 1) j = some j
  next : ∀ n j, ¬ p j → f (n + 1) j = f n (j + 1)

namespace FirstFrom

variable {p : Nat → Prop} {f : Nat → Nat → Option Nat} {n j₀ j : Nat}

theorem of_some (h : FirstFrom p f) (hf : f n j₀ = some j) : j₀ ≤ j ∧ j < j₀ + n ∧ p j := by
  induction n generalizing j₀ with
  | zero =>
      rw [h.done] at hf
      cases hf
  | succ n ih =>
      by_cases hj : p j₀
      · rw [h.found n j₀ hj, Option.some.injEq] at hf
        rw [← hf]
        exact ⟨Nat.le_refl _, by omega, hj⟩
      · rw [h.next n j₀ hj] at hf
        rcases ih hf with ⟨hle, hlt, hp⟩
        exact ⟨by omega, by omega, hp⟩

theorem before (h : FirstFrom p f) (hf : f n j₀ = some j) {i : Nat} (hle : j₀ ≤ i) (hlt : i < j) :
    ¬ p i := by
  induction n generalizing j₀ with
  | zero =>
      rw [h.done] at hf
      cases hf
  | succ n ih =>
      by_cases hj : p j₀
      · rw [h.found n j₀ hj, Option.some.injEq] at hf
        omega
      · rw [h.next n j₀ hj] at hf
        by_cases heq : i = j₀
        · rwa [heq]
        · exact ih hf (by omega)

theorem of_none (h : FirstFrom p f) (hf : f n j₀ = none) (hle : j₀ ≤ j) (hlt : j < j₀ + n) :
    ¬ p j := by
  induction n generalizing j₀ with
  | zero => omega
  | succ n ih =>
      by_cases hj : p j₀
      · rw [h.found n j₀ hj] at hf
        cases hf
      · rw [h.next n j₀ hj] at hf
        by_cases heq : j = j₀
        · rwa [heq]
        · exact ih hf (by omega) (by omega)

end FirstFrom

end ForikOS
