import Mathlib.Logic.Function.Basic
import Mathlib.Data.List.Basic

/-!
# Stacks Side by Side

A family of memories of words, one for each task, where a list of words is
written at a place. Pushing a word below a list of words is the list with one
word more, so what a sequence of pushes leaves is one list, and reading it back
is one lookup.

## Main definitions

* `poke`: The family with a list of words in one memory.
* `HoldsWords`: A memory has a list of words at a place.

## Theorems

* `poke_get`, `poke_holds`: Reading the list back.
* `HoldsWords.congr`, `HoldsWords.left`, `HoldsWords.drop`: What keeps a list of words.
* `poke_of_ne`, `poke_of_le`: Everything else is as before.
-/

namespace ForikOS

variable {κ β : Type} [DecidableEq κ] {m : κ → Nat → β} {t u : κ} {b k : Nat} {ws : List β}

/-- The words `ws` in the memory of `t`, from `b` on. -/
def poke (m : κ → Nat → β) (t : κ) (b : Nat) : List β → κ → Nat → β
  | [] => m
  | w :: ws =>
      let rest := poke m t (b + 1) ws
      Function.update rest t (Function.update (rest t) b w)

/-- The other memories are as before. -/
theorem poke_of_ne (h : u ≠ t) : poke m t b ws u = m u := by
  induction ws generalizing b with
  | nil => rfl
  | cons w ws ih =>
      rw [poke, Function.update_of_ne h]
      exact ih

/-- Behind the list everything is as before. -/
theorem poke_of_le (h : b + ws.length ≤ k) : poke m t b ws t k = m t k := by
  induction ws generalizing b with
  | nil => rfl
  | cons w ws ih =>
      rw [List.length_cons] at h
      have hk : k ≠ b := by omega
      rw [poke, Function.update_self, Function.update_of_ne hk]
      exact ih (by omega)

/-- The list is read back. -/
theorem poke_get {i : Nat} (h : i < ws.length) : poke m t b ws t (b + i) = ws[i] := by
  induction ws generalizing b i with
  | nil => exact absurd h (Nat.not_lt_zero i)
  | cons w ws ih =>
      rw [poke, Function.update_self]
      cases i with
      | zero =>
          rw [List.getElem_cons_zero]
          exact Function.update_self ..
      | succ i =>
          have hne : b + (i + 1) ≠ b := by omega
          have hi : i < ws.length := Nat.lt_of_succ_lt_succ h
          have hidx : b + (i + 1) = b + 1 + i := by omega
          rw [Function.update_of_ne hne, hidx, ih hi, List.getElem_cons_succ]

theorem poke_single (m : κ → Nat → β) (t : κ) (b : Nat) (w : β) :
    poke m t b [w] t = Function.update (m t) b w :=
  Function.update_self ..

/-- The memory has the words `ws` from `b` on. -/
def HoldsWords (page : Nat → β) (b : Nat) (ws : List β) : Prop :=
  ∀ i (h : i < ws.length), page (b + i) = ws[i]

theorem poke_holds (m : κ → Nat → β) (t : κ) (b : Nat) (ws : List β) :
    HoldsWords (poke m t b ws t) b ws :=
  fun _ h => poke_get h

variable {page page' : Nat → β} {vs : List β} {w : β}

@[simp] theorem holds_nil : HoldsWords page b [] := fun i hi => absurd hi (Nat.not_lt_zero i)

@[simp] theorem holds_cons : HoldsWords page b (w :: ws) ↔ page b = w ∧ HoldsWords page (b + 1) ws := by
  constructor
  · intro h
    refine ⟨h 0 (Nat.zero_lt_succ _), fun i hi => ?_⟩
    have hidx : b + 1 + i = b + (i + 1) := by omega
    rw [hidx, h (i + 1) (Nat.succ_lt_succ hi), List.getElem_cons_succ]
  · rintro ⟨h₀, h⟩ i hi
    cases i with
    | zero => exact h₀
    | succ i =>
        have hidx : b + (i + 1) = b + 1 + i := by omega
        rw [hidx, h i (Nat.lt_of_succ_lt_succ hi), List.getElem_cons_succ]

/-- Words that stay the same hold the same. -/
theorem HoldsWords.congr (h : HoldsWords page b ws)
    (hp : ∀ k, b ≤ k → k < b + ws.length → page' k = page k) : HoldsWords page' b ws := by
  intro i hi
  rw [hp (b + i) (Nat.le_add_right b i) (Nat.add_lt_add_left hi b)]
  exact h i hi

/-- The first words. -/
theorem HoldsWords.left (h : HoldsWords page b (ws ++ vs)) : HoldsWords page b ws := by
  intro i hi
  rw [h i (by rw [List.length_append]; omega), List.getElem_append_left hi]

/-- The words behind the first ones. -/
theorem HoldsWords.drop (h : HoldsWords page b (ws ++ vs)) : HoldsWords page (b + ws.length) vs := by
  intro i hi
  have hidx : b + ws.length + i = b + (ws.length + i) := Nat.add_assoc ..
  rw [hidx, h _ (by rw [List.length_append]; omega), List.getElem_append_right (by omega)]
  simp only [Nat.add_sub_cancel_left]

end ForikOS
