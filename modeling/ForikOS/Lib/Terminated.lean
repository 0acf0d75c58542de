import Mathlib.Logic.Function.Basic
import Mathlib.Algebra.Notation.Defs
import Mathlib.Data.List.Basic

/-!
# Terminated Sequences in Memory

Sequences that lie in a memory one element after another and end with a zero,
as strings do in C.

A memory is a function on addresses. `CellsAt` says what lies from an address
on, and nothing about what follows; `TermAt` says that a zero follows and that
there is none before it, so a memory has at most one such sequence at an
address. Both are local: they survive every write outside of the sequence, and
writing one element behind it makes it longer by one.

A loop over such a sequence ends at the zero. What it has passed and what is
left to it are the two halves of the sequence, which is what the lemmas about
appending are for.

## Main definitions

* `CellsAt`: A sequence lies at an address.
* `TermAt`: A terminated sequence lies at an address.

## Theorems

* `cellsAt_append`, `termAt_append`: A sequence in two parts.
* `CellsAt.congr`, `TermAt.congr`: A sequence that has not been written.
* `CellsAt.map_range`: What is read from the addresses.
* `TermAt.unique`: There is at most one terminated sequence.
-/

namespace ForikOS

variable {α : Type} {mem mem' : Nat → α} {p : Nat} {c : α} {s t : List α}

/-- The elements of a sequence lie in memory from `p` on. -/
def CellsAt (mem : Nat → α) : Nat → List α → Prop
  | _, [] => True
  | p, c :: s => mem p = c ∧ CellsAt mem (p + 1) s

theorem cellsAt_append : CellsAt mem p (s ++ t) ↔ CellsAt mem p s ∧ CellsAt mem (p + s.length) t := by
  induction s generalizing p with
  | nil => exact ⟨fun h => ⟨trivial, h⟩, fun h => h.2⟩
  | cons c s ih =>
      rw [List.cons_append, CellsAt, CellsAt, ih, List.length_cons, and_assoc, Nat.add_assoc,
        Nat.add_comm 1]

/-- A sequence depends on its own cells only. -/
theorem CellsAt.congr (h : CellsAt mem p s)
    (heq : ∀ x, p ≤ x → x < p + s.length → mem' x = mem x) : CellsAt mem' p s := by
  induction s generalizing p with
  | nil => trivial
  | cons c s ih =>
      simp only [List.length_cons] at heq
      exact ⟨(heq p (Nat.le_refl p) (by omega)).trans h.1,
        ih h.2 (fun x h1 h2 => heq x (by omega) (by omega))⟩

/-- A write outside of a sequence. -/
theorem CellsAt.update (h : CellsAt mem p s) {x : Nat} (hx : x < p ∨ p + s.length ≤ x) (c : α) :
    CellsAt (Function.update mem x c) p s :=
  h.congr (fun y h1 h2 => Function.update_of_ne (by omega) c mem)

/-- A sequence is what is read from its addresses. -/
theorem CellsAt.map_range (h : CellsAt mem p s) :
    (List.range s.length).map (fun i => mem (p + i)) = s := by
  induction s generalizing p with
  | nil => rfl
  | cons c s ih =>
      have htail : (List.range s.length).map (fun i => mem (p + (i + 1))) = s := by
        rw [← ih h.2]
        simp only [List.length_map, List.length_range]
        exact List.map_congr_left (fun i _ => congrArg mem (by omega))
      rw [List.length_cons, List.range_succ_eq_map, List.map_cons, List.map_map]
      exact congrArg₂ List.cons h.1 htail

variable [Zero α]

/-- A sequence without a zero lies in memory from `p` on, and a zero behind it. -/
structure TermAt (mem : Nat → α) (p : Nat) (s : List α) : Prop where
  cells : CellsAt mem p s
  ends : mem (p + s.length) = 0
  nonzero : 0 ∉ s

theorem termAt_nil : TermAt mem p [] ↔ mem p = 0 :=
  ⟨fun h => h.ends, fun h => ⟨trivial, h, List.not_mem_nil⟩⟩

theorem termAt_cons : TermAt mem p (c :: s) ↔ mem p = c ∧ c ≠ 0 ∧ TermAt mem (p + 1) s := by
  have hend : p + (c :: s).length = p + 1 + s.length := by
    rw [List.length_cons]
    omega
  constructor
  · intro h
    have hzero := h.nonzero
    rw [List.mem_cons, not_or] at hzero
    exact ⟨h.cells.1, fun hc => hzero.1 hc.symm, h.cells.2, hend ▸ h.ends, hzero.2⟩
  · rintro ⟨hc, hne, hs⟩
    refine ⟨⟨hc, hs.cells⟩, hend ▸ hs.ends, fun hmem => ?_⟩
    rcases List.mem_cons.mp hmem with hz | hz
    · exact hne hz.symm
    · exact hs.nonzero hz

/-- The first part is followed by the second, which ends the whole. -/
theorem termAt_append :
    TermAt mem p (s ++ t) ↔ (CellsAt mem p s ∧ 0 ∉ s) ∧ TermAt mem (p + s.length) t := by
  induction s generalizing p with
  | nil => exact ⟨fun h => ⟨⟨trivial, List.not_mem_nil⟩, h⟩, fun h => h.2⟩
  | cons c s ih =>
      have hoff : p + (c :: s).length = p + 1 + s.length := by
        rw [List.length_cons]
        omega
      rw [List.cons_append, termAt_cons, ih, hoff, CellsAt, List.mem_cons, not_or, ne_comm (a := c)]
      tauto

namespace TermAt

theorem congr (h : TermAt mem p s) (heq : ∀ x, p ≤ x → x ≤ p + s.length → mem' x = mem x) :
    TermAt mem' p s :=
  ⟨h.cells.congr (fun x h1 h2 => heq x h1 (Nat.le_of_lt h2)),
    (heq _ (Nat.le_add_right _ _) (Nat.le_refl _)).trans h.ends, h.nonzero⟩

/-- A zero behind the first part of a sequence ends it there. -/
theorem cut (h : TermAt mem p (s ++ t)) : TermAt (Function.update mem (p + s.length) 0) p s := by
  have hparts := termAt_append.mp h
  exact ⟨hparts.1.1.update (Or.inr (Nat.le_refl _)) 0, Function.update_self _ _ _, hparts.1.2⟩

/-- There is at most one terminated sequence at an address. -/
theorem unique (h : TermAt mem p s) (h' : TermAt mem p t) : s = t := by
  induction s generalizing p t with
  | nil =>
      cases t with
      | nil => rfl
      | cons d t =>
          have hd := termAt_cons.mp h'
          exact absurd (hd.1.symm.trans (termAt_nil.mp h)) hd.2.1
  | cons c s ih =>
      have hc := termAt_cons.mp h
      cases t with
      | nil => exact absurd (hc.1.symm.trans (termAt_nil.mp h')) hc.2.1
      | cons d t =>
          have hd := termAt_cons.mp h'
          rw [hc.1.symm.trans hd.1, ih hc.2.2 hd.2.2]

end TermAt

end ForikOS
