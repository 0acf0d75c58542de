import Mathlib.Logic.Function.Basic
import Mathlib.Data.List.Range

/-!
# Rings

A buffer of `n` cells written at one cursor and read at another, both
wrapping. The cells from the reading cursor up to the writing one are the
contents, and one cell always stays free, so that equal cursors mean an empty
ring and never a full one.

The contents are a list, oldest first. Writing appends to it and reading takes
its head, and neither looks at the cells outside. The wrap-around is in
`ringCount`, the number of cells between the cursors, and nowhere else.

## Main definitions

* `ringNext`: The cell after a cell.
* `ringCount`: The number of cells between the two cursors.
* `ringList`: The contents, oldest first.

## Theorems

* `ringList_eq_nil`: The ring is empty exactly when the cursors meet.
* `ringList_write`: Writing at the head appends to the contents.
* `ringList_read`: Reading at the tail takes the oldest element.
* `ringList_length_lt`: The contents never fill the buffer.
-/

namespace ForikOS

variable {α : Type} {n head tail : Nat}

/-- The cell after a cell. -/
def ringNext (n pos : Nat) : Nat := (pos + 1) % n

/-- The number of cells from `tail` up to `head`, going round. -/
def ringCount (n tail head : Nat) : Nat := (head + n - tail) % n

/-- What the cells from `tail` up to `head` hold. -/
def ringList (n : Nat) (buf : Nat → α) (tail head : Nat) : List α :=
  (List.range (ringCount n tail head)).map (fun i => buf ((tail + i) % n))

theorem ringNext_lt (hn : 0 < n) (pos : Nat) : ringNext n pos < n := Nat.mod_lt _ hn

theorem ringNext_eq {pos : Nat} (hp : pos < n) :
    ringNext n pos = if pos + 1 = n then 0 else pos + 1 := by
  unfold ringNext
  split
  · rename_i h
    rw [h, Nat.mod_self]
  · exact Nat.mod_eq_of_lt (by omega)

theorem ringCount_eq (hh : head < n) (ht : tail < n) :
    ringCount n tail head = if tail ≤ head then head - tail else head + n - tail := by
  unfold ringCount
  split
  · rw [show head + n - tail = head - tail + n by omega, Nat.add_mod_right]
    exact Nat.mod_eq_of_lt (by omega)
  · exact Nat.mod_eq_of_lt (by omega)

theorem ringCount_lt (hn : 0 < n) : ringCount n tail head < n := Nat.mod_lt _ hn

theorem ringList_length (buf : Nat → α) :
    (ringList n buf tail head).length = ringCount n tail head := by
  rw [ringList, List.length_map, List.length_range]

theorem ringList_length_lt (hn : 0 < n) (buf : Nat → α) :
    (ringList n buf tail head).length < n := by
  rw [ringList_length]
  exact ringCount_lt hn

theorem ringList_eq_nil (hh : head < n) (ht : tail < n) (buf : Nat → α) :
    ringList n buf tail head = [] ↔ head = tail := by
  rw [← List.length_eq_zero_iff, ringList_length, ringCount_eq hh ht]
  split <;> omega

/-- Writing into the free cell at the head appends to the contents. -/
theorem ringList_write (hh : head < n) (ht : tail < n) (hroom : ringNext n head ≠ tail)
    (buf : Nat → α) (v : α) :
    ringList n (Function.update buf head v) tail (ringNext n head)
      = ringList n buf tail head ++ [v] := by
  have hn : 0 < n := by omega
  rw [ringNext_eq hh] at hroom
  have hcount : ringCount n tail (ringNext n head) = ringCount n tail head + 1 := by
    rw [ringCount_eq (ringNext_lt hn head) ht, ringCount_eq hh ht, ringNext_eq hh]
    by_cases hwrap : head + 1 = n
    · rw [if_pos hwrap] at hroom ⊢
      split <;> split <;> omega
    · rw [if_neg hwrap] at hroom ⊢
      split <;> split <;> omega
  have hcell : (tail + ringCount n tail head) % n = head := by
    rw [ringCount_eq hh ht]
    split
    · rw [Nat.add_sub_cancel' (by assumption)]
      exact Nat.mod_eq_of_lt hh
    · rw [show tail + (head + n - tail) = head + n by omega, Nat.add_mod_right]
      exact Nat.mod_eq_of_lt hh
  rw [ringList, hcount, List.range_succ, List.map_append, List.map_singleton, hcell,
    Function.update_self, ringList]
  congr 1
  -- The other cells of the contents lie before the head, so they are not overwritten.
  refine List.map_congr_left (fun i hi => Function.update_of_ne ?_ v buf)
  have hlt := List.mem_range.mp hi
  rw [ringCount_eq hh ht] at hlt
  rw [Nat.mod_def]
  rcases Nat.lt_or_ge (tail + i) n with hlow | hhigh
  · rw [Nat.div_eq_of_lt hlow]
    split at hlt <;> omega
  · have hdiv : (tail + i) / n = 1 := Nat.div_eq_of_lt_le (by omega) (by split at hlt <;> omega)
    rw [hdiv]
    split at hlt <;> omega

/-- Reading at the tail takes the oldest element. -/
theorem ringList_read (hh : head < n) (ht : tail < n) (hne : head ≠ tail) (buf : Nat → α) :
    ringList n buf tail head = buf tail :: ringList n buf (ringNext n tail) head := by
  have hn : 0 < n := by omega
  have hcount : ringCount n tail head = ringCount n (ringNext n tail) head + 1 := by
    rw [ringCount_eq hh (ringNext_lt hn tail), ringCount_eq hh ht, ringNext_eq ht]
    by_cases hwrap : tail + 1 = n
    · rw [if_pos hwrap]
      split <;> split <;> omega
    · rw [if_neg hwrap]
      split <;> split <;> omega
  rw [ringList, hcount, List.range_succ_eq_map, List.map_cons, List.map_map, ringList]
  congr 1
  · rw [Nat.add_zero, Nat.mod_eq_of_lt ht]
  · refine List.map_congr_left (fun i _ => ?_)
    have hcell : (tail + (i + 1)) % n = (ringNext n tail + i) % n := by
      rw [ringNext, Nat.mod_add_mod, show tail + (i + 1) = tail + 1 + i by omega]
    simp only [Function.comp_apply, Nat.succ_eq_add_one, hcell]

end ForikOS
