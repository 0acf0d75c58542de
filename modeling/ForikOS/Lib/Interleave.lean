import ForikOS.Lib.Prog

/-!
# Programs That Take Turns

Two programs on one state, each of which is executed up to its next wait when
it has a turn.

A program may be about a part of the state only. It is then a program over
that part, and `focus` makes it one over the whole. Two parts may have
something in common, as long as neither program changes it: then the turns of
one are invisible in the part of the other, and whatever the order of the
turns, each program ends as it would alone. `Keeps` is what says that a
program leaves something as it is between any two of its waits, whatever
happens to the state while it waits.

## Main definitions

* `View`: A part of a state.
* `Prog.focus`: A program about a part, as one about the whole.
* `Prog.Keeps`: What a program leaves as it is.
* `Prog.outcome`: What a program ends with, alone.
* `interleave`: Two programs, turn by turn.
* `Undisturbed`: Whatever the turns, each ends as alone.

## Theorems

* `focus_bind`, `keeps_bind`: Sequences.
* `outcome_focus`, `run_focus_of`, `run_of_focus`: A program about a part,
  alone.
* `undisturbed_of_unseen`: Programs about different parts are independent.
* `exists_turns`: A program that completes does so within some turns.
-/

namespace ForikOS

/-- A part of a state. -/
structure View (τ σ : Type) where
  get : τ → σ
  set : σ → τ → τ
  get_set : ∀ w s, get (set w s) = w

namespace Prog

variable {τ σ ρ ε α β γ : Type}

/-- A program about a part of the state. -/
def focus (v : View τ σ) : Prog σ ε α → Prog τ ε α
  | ret a => ret a
  | fail e => fail e
  | get k => get (fun s => focus v (k (v.get s)))
  | put w k => get (fun s => put (v.set w s) (focus v k))
  | wait k => wait (focus v k)

theorem focus_bind (v : View τ σ) (x : Prog σ ε α) (g : α → Prog σ ε β) :
    focus v (x >>= g) = focus v x >>= fun a => focus v (g a) := by
  show focus v (x.bind g) = (focus v x).bind _
  induction x with
  | ret a => rfl
  | fail e => rfl
  | get k ih => exact congrArg get (funext fun s => ih (v.get s))
  | put w k ih => exact congrArg get (funext fun s => congrArg (put (v.set w s)) ih)
  | wait k ih => exact congrArg wait ih

/-- A completed run of a program about a part. -/
theorem run_focus_of {v : View τ σ} {x : Prog σ ε α} {s : τ} {a : α} {w : σ}
    (h : x.run (v.get s) = .ok (a, w)) :
    ∃ s', (focus v x).run s = .ok (a, s') ∧ v.get s' = w := by
  induction x generalizing s with
  | ret b =>
      rcases pure_ok h with ⟨rfl, rfl⟩
      exact ⟨s, rfl, rfl⟩
  | fail e => cases h
  | get k ih => exact ih (v.get s) h
  | put w' k ih =>
      rw [← v.get_set w' s] at h
      exact ih h
  | wait k ih => exact ih h

/-- What a program alone ends with. -/
def outcome (x : Prog σ ε α) (s : σ) : Except ε α := (x.run s).map Prod.fst

theorem outcome_of_run {x : Prog σ ε α} {s s' : σ} {a : α} (h : x.run s = .ok (a, s')) :
    x.outcome s = .ok a := by
  rw [outcome, h]
  rfl

theorem outcome_focus (v : View τ σ) (x : Prog σ ε α) (s : τ) :
    (focus v x).outcome s = x.outcome (v.get s) := by
  unfold outcome
  induction x generalizing s with
  | ret a => rfl
  | fail e => rfl
  | get k ih => exact ih (v.get s) s
  | put w k ih =>
      have h := ih (v.set w s)
      rw [v.get_set] at h
      exact h
  | wait k ih => exact ih s

theorem run_of_focus {v : View τ σ} {x : Prog σ ε α} {s s' : τ} {a : α}
    (h : (focus v x).run s = .ok (a, s')) : x.run (v.get s) = .ok (a, v.get s') := by
  have hout := outcome_focus v x s
  rw [outcome_of_run h] at hout
  cases hr : x.run (v.get s) with
  | error e =>
      rw [outcome, hr] at hout
      cases hout
  | ok r =>
      rcases run_focus_of (s := s) hr with ⟨s'', hrun, hget⟩
      rw [h] at hrun
      cases hrun
      rw [hget]

/-- A relation that every change of the part respects. -/
theorem within_focus {R : τ → τ → Prop} [IsPreorder τ R] {v : View τ σ}
    (h : ∀ w s, R s (v.set w s)) (x : Prog σ ε α) : Within R (focus v x) := by
  intro s a s' hr
  induction x generalizing s with
  | ret b =>
      rw [(pure_ok hr).2]
      exact refl s
  | fail e => cases hr
  | get k ih => exact ih (v.get s) s hr
  | put w k ih => exact IsTrans.trans s _ s' (h w s) (ih (v.set w s) hr)
  | wait k ih => exact ih s hr

/-- Between any two waits the program leaves `f` as it is. -/
def Keeps (f : σ → γ) : Prog σ ε α → σ → Prop
  | ret _, _ => True
  | fail _, _ => True
  | get k, s => Keeps f (k s) s
  | put w k, s => f w = f s ∧ Keeps f k w
  | wait k, _ => ∀ s, Keeps f k s

section Keeps

variable {f : σ → γ}

theorem keeps_bind {x : Prog σ ε α} {g : α → Prog σ ε β} (hx : ∀ s, x.Keeps f s)
    (hg : ∀ a s, (g a).Keeps f s) (s : σ) : (x >>= g).Keeps f s := by
  show (x.bind g).Keeps f s
  have h := hx s
  clear hx
  induction x generalizing s with
  | ret a => exact hg a s
  | fail e => trivial
  | get k ih => exact ih s s h
  | put w k ih => exact ⟨h.1, ih w h.2⟩
  | wait k ih => exact fun s' => ih s' (h s')

theorem keeps_pure (a : α) (s : σ) : (pure a : Prog σ ε α).Keeps f s := trivial

theorem keeps_fail (e : ε) (s : σ) : (fail e : Prog σ ε α).Keeps f s := trivial

theorem keeps_read (h : σ → α) (s : σ) : (read h : Prog σ ε α).Keeps f s := trivial

theorem keeps_pause (s : σ) : (pause : Prog σ ε Unit).Keeps f s := fun _ => trivial

theorem keeps_modify {h : σ → σ} (hf : ∀ s, f (h s) = f s) (s : σ) :
    (modify h : Prog σ ε Unit).Keeps f s := ⟨hf s, trivial⟩

theorem keeps_ite {c : Prop} [Decidable c] {x y : Prog σ ε α} (hx : ∀ s, x.Keeps f s)
    (hy : ∀ s, y.Keeps f s) (s : σ) : (if c then x else y).Keeps f s := by
  by_cases hc : c
  · rw [if_pos hc]
    exact hx s
  · rw [if_neg hc]
    exact hy s

theorem keeps_check {c : Prop} [Decidable c] {e : ε} (s : σ) :
    (check c e : Prog σ ε Unit).Keeps f s :=
  keeps_ite (keeps_pure ()) (keeps_fail e) s

/-- A program about a part that changes nothing at all. -/
theorem keeps_focus {v : View τ σ} {g : τ → γ} {x : Prog σ ε α} (h : ∀ s, x.Keeps id s)
    (hg : ∀ s, g (v.set (v.get s) s) = g s) (s : τ) : (focus v x).Keeps g s := by
  have hx := h (v.get s)
  clear h
  induction x generalizing s with
  | ret a => trivial
  | fail e => trivial
  | get k ih => exact ih (v.get s) s hx
  | put w k ih =>
      have hw : w = v.get s := hx.1
      refine ⟨?_, ih _ ?_⟩
      · rw [hw]
        exact hg s
      · rw [v.get_set]
        exact hx.2
  | wait k ih => exact fun s' => ih s' (hx (v.get s'))

end Keeps

/-- A fault before the next wait is a fault of the run. -/
theorem run_of_resume_error {x : Prog σ ε α} {s : σ} {e : ε} (h : x.resume s = .error e) :
    x.run s = .error e := by
  induction x generalizing s with
  | ret a => cases h
  | fail e' => exact congrArg Except.error (Except.error.inj h)
  | get k ih => exact ih s h
  | put w k ih => exact ih h
  | wait k ih => cases h

end Prog

open Prog

variable {τ σ ρ ε α β γ δ : Type}

/-- A turn of a program; one that has ended stays as it is. -/
def turn : α ⊕ Prog σ ε α → σ → Except ε (σ × (α ⊕ Prog σ ε α))
  | .inl a, s => .ok (s, .inl a)
  | .inr x, s => x.resume s

/-- Two programs, turn by turn. -/
def interleave : List Bool → σ → α ⊕ Prog σ ε α → β ⊕ Prog σ ε β →
    Except ε (σ × (α ⊕ Prog σ ε α) × (β ⊕ Prog σ ε β))
  | [], s, x, y => .ok (s, x, y)
  | true :: l, s, x, y => turn x s >>= fun r => interleave l r.1 r.2 y
  | false :: l, s, x, y => turn y s >>= fun r => interleave l r.1 x r.2

/-- Whatever the turns, each of the programs ends as it would alone. -/
def Undisturbed (x : Prog σ ε α) (y : Prog σ ε β) (s : σ) : Prop :=
  ∀ l, match interleave l s (.inr x) (.inr y) with
    | .ok (_, x', y') => (∀ a, x' = .inl a → x.outcome s = .ok a) ∧
        ∀ b, y' = .inl b → y.outcome s = .ok b
    | .error e => x.outcome s = .error e ∨ y.outcome s = .error e

/-- What is left of a program ends with. -/
def leftOutcome : α ⊕ Prog σ ε α → σ → Except ε α
  | .inl a, _ => .ok a
  | .inr x, s => x.outcome s

/-- A turn changes nothing about how the program ends. -/
theorem leftOutcome_turn {x x' : α ⊕ Prog σ ε α} {s s' : σ} (h : turn x s = .ok (s', x')) :
    leftOutcome x' s' = leftOutcome x s := by
  cases x with
  | inl a =>
      cases h
      rfl
  | inr x =>
      cases x' with
      | inl a => exact (outcome_of_run (run_of_resume_inl h)).symm
      | inr k => exact congrArg (Except.map Prod.fst) (run_of_resume h).symm

theorem leftOutcome_turn_error {x : α ⊕ Prog σ ε α} {s : σ} {e : ε} (h : turn x s = .error e) :
    leftOutcome x s = .error e := by
  cases x with
  | inl a => cases h
  | inr x =>
      show (x.run s).map Prod.fst = _
      rw [run_of_resume_error h]
      rfl

/-- What is left of a program keeps `f`. -/
def LeftKeeps (f : σ → γ) (x : α ⊕ Prog σ ε α) : Prop := ∀ k, x = .inr k → ∀ s, k.Keeps f s

/-- What is left of a program about a part. -/
def leftFocus (v : View τ σ) (x : α ⊕ Prog σ ε α) : α ⊕ Prog τ ε α := x.map id (focus v)

/-- A change of one part that leaves `f` as it is does not show in the other. -/
def Unseen (f : σ → γ) (v : View τ σ) (u : View τ ρ) : Prop :=
  ∀ w s, f w = f (v.get s) → u.get (v.set w s) = u.get s

section Unseen

variable {f : σ → γ} {g : ρ → δ} {v : View τ σ} {u : View τ ρ}

/-- A program about a part up to its next wait. -/
theorem resume_focus (hunseen : Unseen f v u) (x : Prog σ ε α) (s : τ)
    (hx : x.Keeps f (v.get s)) :
    match x.resume (v.get s) with
    | .ok (w, x') => ∃ s', (focus v x).resume s = .ok (s', leftFocus v x') ∧ v.get s' = w ∧
        u.get s' = u.get s ∧ LeftKeeps f x'
    | .error e => (focus v x).resume s = .error e := by
  induction x generalizing s with
  | ret a => exact ⟨s, rfl, rfl, rfl, nofun⟩
  | fail e => rfl
  | get k ih => exact ih (v.get s) s hx
  | put w k ih =>
      -- After the write the larger state has `w` in its place, and the rest of it as before.
      have hw := ih (v.set w s)
      rw [v.get_set] at hw
      have h := hw hx.2
      show match k.resume w with
        | .ok (w, x') => _
        | .error e => _
      cases hr : k.resume w with
      | error e =>
          rw [hr] at h
          exact h
      | ok r =>
          rw [hr] at h
          rcases h with ⟨s', hrun, hget, hother, hleft⟩
          exact ⟨s', hrun, hget, hother.trans (hunseen w s hx.1), hleft⟩
  | wait k ih =>
      refine ⟨s, rfl, rfl, rfl, fun k' hk => ?_⟩
      cases hk
      exact hx

/-- A turn of a program about a part does not show in the other part. -/
theorem turn_focus (hunseen : Unseen f v u) {x : α ⊕ Prog σ ε α} {s : τ} (hx : LeftKeeps f x) :
    (∃ s' x', turn (leftFocus v x) s = .ok (s', leftFocus v x') ∧ LeftKeeps f x' ∧
      leftOutcome x' (v.get s') = leftOutcome x (v.get s) ∧ u.get s' = u.get s) ∨
    ∃ e, turn (leftFocus v x) s = .error e ∧ leftOutcome x (v.get s) = .error e := by
  cases x with
  | inl a => exact Or.inl ⟨s, .inl a, rfl, nofun, rfl, rfl⟩
  | inr x =>
      have h := resume_focus hunseen x s (hx x rfl (v.get s))
      cases hr : x.resume (v.get s) with
      | error e =>
          rw [hr] at h
          exact Or.inr ⟨e, h, leftOutcome_turn_error hr⟩
      | ok r =>
          rw [hr] at h
          rcases h with ⟨s', hrun, hget, hother, hleft⟩
          refine Or.inl ⟨s', r.2, hrun, hleft, ?_, hother⟩
          rw [hget]
          exact leftOutcome_turn hr

/-- Turn by turn, what is left of each program ends as the whole of it. -/
theorem interleave_focus (hv : Unseen f v u) (hu : Unseen g u v) (l : List Bool) {s : τ}
    {x : α ⊕ Prog σ ε α} {y : β ⊕ Prog ρ ε β} (hx : LeftKeeps f x) (hy : LeftKeeps g y) :
    match interleave l s (leftFocus v x) (leftFocus u y) with
    | .ok (s', a, b) => ∃ x' y', a = leftFocus v x' ∧ b = leftFocus u y' ∧
        leftOutcome x' (v.get s') = leftOutcome x (v.get s) ∧
          leftOutcome y' (u.get s') = leftOutcome y (u.get s)
    | .error e => leftOutcome x (v.get s) = .error e ∨ leftOutcome y (u.get s) = .error e := by
  -- Over the turns: each turn of one side leaves the outcome of the other as it was.
  induction l generalizing s x y with
  | nil => exact ⟨x, y, rfl, rfl, rfl, rfl⟩
  | cons first l ih =>
      cases first with
      | true =>
          rcases turn_focus hv (s := s) hx with ⟨s', x', hturn, hx', hend, hother⟩ | ⟨e, hturn, hend⟩
          · have h := ih (s := s') hx' hy
            rw [hend, hother] at h
            rw [interleave, hturn]
            exact h
          · rw [interleave, hturn]
            exact Or.inl hend
      | false =>
          rcases turn_focus hu (s := s) hy with ⟨s', y', hturn, hy', hend, hother⟩ | ⟨e, hturn, hend⟩
          · have h := ih (s := s') hx hy'
            rw [hend, hother] at h
            rw [interleave, hturn]
            exact h
          · rw [interleave, hturn]
            exact Or.inr hend

/-- Programs about parts that have nothing in common but what they keep are
    independent. -/
theorem undisturbed_of_unseen (hv : Unseen f v u) (hu : Unseen g u v) {x : Prog σ ε α}
    {y : Prog ρ ε β} (hx : ∀ s, x.Keeps f s) (hy : ∀ s, y.Keeps g s) (s : τ) :
    Undisturbed (focus v x) (focus u y) s := by
  intro l
  have h := interleave_focus hv hu l (s := s) (x := .inr x) (y := .inr y)
    (fun k hk => by cases hk; exact hx) (fun k hk => by cases hk; exact hy)
  rw [outcome_focus, outcome_focus]
  cases hr : interleave l s (.inr (focus v x)) (.inr (focus u y)) with
  | error e =>
      rw [show interleave l s (leftFocus v (.inr x)) (leftFocus u (.inr y)) = _ from hr] at h
      exact h
  | ok r =>
      rw [show interleave l s (leftFocus v (.inr x)) (leftFocus u (.inr y)) = _ from hr] at h
      rcases h with ⟨x', y', hx', hy', hendx, hendy⟩
      refine ⟨fun a ha => ?_, fun b hb => ?_⟩
      · -- A side that is done has its result, the one it has when it runs alone.
        have hleft := hx'.symm.trans ha
        cases x' with
        | inl a' =>
            cases hleft
            exact hendx.symm
        | inr k => cases hleft
      · have hleft := hy'.symm.trans hb
        cases y' with
        | inl b' =>
            cases hleft
            exact hendy.symm
        | inr k => cases hleft

end Unseen

/-- More turns. -/
theorem interleave_append {l l' : List Bool} {s s' : σ} {x x' : α ⊕ Prog σ ε α}
    {y y' : β ⊕ Prog σ ε β} (h : interleave l s x y = .ok (s', x', y')) :
    interleave (l ++ l') s x y = interleave l' s' x' y' := by
  induction l generalizing s x y with
  | nil =>
      cases h
      rfl
  | cons first l ih =>
      cases first with
      | true =>
          rcases bind_eq_ok.mp h with ⟨r, hr, hrest⟩
          rw [List.cons_append, interleave, hr]
          exact ih hrest
      | false =>
          rcases bind_eq_ok.mp h with ⟨r, hr, hrest⟩
          rw [List.cons_append, interleave, hr]
          exact ih hrest

/-- A program that completes alone does so if it has enough turns in a row. -/
theorem exists_turns {x : Prog σ ε α} {s s' : σ} {a : α} (h : x.run s = .ok (a, s')) :
    ∃ n, ∀ y : β ⊕ Prog σ ε β,
      interleave (List.replicate (n + 1) true) s (.inr x) y = .ok (s', .inl a, y) ∧
      interleave (List.replicate (n + 1) false) s y (.inr x) = .ok (s', y, .inl a) := by
  induction x generalizing s with
  | ret b =>
      rcases pure_ok h with ⟨rfl, rfl⟩
      exact ⟨0, fun y => ⟨rfl, rfl⟩⟩
  | fail e => cases h
  | get k ih =>
      rcases ih s h with ⟨n, hn⟩
      exact ⟨n, hn⟩
  | put w k ih =>
      rcases ih h with ⟨n, hn⟩
      exact ⟨n, hn⟩
  | wait k ih =>
      rcases ih h with ⟨n, hn⟩
      exact ⟨n + 1, hn⟩

end ForikOS
