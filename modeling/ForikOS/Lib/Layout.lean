import Mathlib.Order.CompletePartialOrder
import Mathlib.Order.Interval.Set.Disjoint

/-!
# Areas Behind One Another

A disk or a memory is often divided by adding up sizes: every area begins where
the one before it ends. Nothing more is needed for the areas to be apart from
each other and to fill what lies between the first address and the last one, so
a division that goes beyond its room does so at the end only.

## Main definitions

* `Area`: Some addresses in a row.
* `Consecutive`: Every area begins where the one before it ends.

## Theorems

* `Consecutive.bounds`: The areas are between the two ends.
* `Consecutive.disjoint`: They are apart from each other.
* `Consecutive.exists_area`: They leave nothing out.
-/

namespace ForikOS

/-- Some addresses in a row. -/
structure Area where
  first : Nat
  size : Nat

/-- The addresses of an area. -/
def Area.cells (a : Area) : Set Nat := Set.Ico a.first (a.first + a.size)

/-- Every area begins where the one before it ends, and the last one ends at
    `stop`. -/
def Consecutive : Nat → List Area → Nat → Prop
  | start, [], stop => start = stop
  | start, a :: as, stop => a.first = start ∧ Consecutive (start + a.size) as stop

namespace Consecutive

variable {start stop : Nat} {a : Area} {as : List Area}

theorem le (h : Consecutive start as stop) : start ≤ stop := by
  induction as generalizing start with
  | nil => exact Nat.le_of_eq h
  | cons a as ih => exact (Nat.le_add_right _ _).trans (ih h.2)

theorem bounds (h : Consecutive start as stop) (ha : a ∈ as) :
    start ≤ a.first ∧ a.first + a.size ≤ stop := by
  induction as generalizing start with
  | nil => exact absurd ha List.not_mem_nil
  | cons b as ih =>
      rcases List.mem_cons.mp ha with rfl | ha
      · rw [h.1]
        exact ⟨Nat.le_refl _, h.2.le⟩
      · have hrest := ih h.2 ha
        omega

theorem subset (h : Consecutive start as stop) (ha : a ∈ as) : a.cells ⊆ Set.Ico start stop :=
  Set.Ico_subset_Ico (h.bounds ha).1 (h.bounds ha).2

/-- All that follows an area begins behind it. -/
theorem disjoint (h : Consecutive start as stop) :
    as.Pairwise (fun a b => Disjoint a.cells b.cells) := by
  induction as generalizing start with
  | nil => exact List.Pairwise.nil
  | cons a as ih =>
      refine List.Pairwise.cons (fun b hb => ?_) (ih h.2)
      have hb := (h.2.bounds hb).1
      rw [← h.1] at hb
      exact Set.Ico_disjoint_Ico.mpr ((min_le_left _ _).trans (hb.trans (le_max_right _ _)))

/-- An address between the ends is in one of the areas. -/
theorem exists_area (h : Consecutive start as stop) {x : Nat} (hstart : start ≤ x)
    (hstop : x < stop) : ∃ a, a ∈ as ∧ x ∈ a.cells := by
  induction as generalizing start with
  | nil =>
      have heq : start = stop := h
      omega
  | cons a as ih =>
      by_cases hx : x < start + a.size
      · refine ⟨a, List.mem_cons_self, ?_⟩
        rw [Area.cells, h.1]
        exact ⟨hstart, hx⟩
      · rcases ih h.2 (Nat.le_of_not_lt hx) with ⟨b, hb, hmem⟩
        exact ⟨b, List.mem_cons_of_mem a hb, hmem⟩

end Consecutive

end ForikOS
